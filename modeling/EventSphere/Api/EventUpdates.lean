import EventSphere.Api.EventService

/-!
# Updates of an event

`EventService.update` on every body that `EventUpdate` accepts (`schemas/event.py:18`). In the
schema a field that may be absent is a field that may be null, and `exclude_unset` keeps the two
apart, so a null reaches the column: the description may be null, the other columns may not. Two
more values pass the schema and not the database: a text with a NUL character, and a time that is
outside the years 1 to 9999 in UTC. `update_storable_iff` shows that there is nothing else.

A time of the body is an `Instant`. The driver reads a `datetime` without a zone in the zone of the
server; the only ones that are no instant then are the first hours of the year 1, which are left
out.
-/

namespace EventSphere.Api

/-! ## Running a program at once -/

/-- Run a program at once, with the key that is drawn if it draws one. A commit takes effect where
it stands, and what is not committed is lost if the program raises. -/
def EventProg.exec {α : Type} (uuid : UUID) : EventProg α → EventSession →
    Table EventRow × List EventMessage → Except EventError α × Table EventRow × List EventMessage
  | ret a, _, s => (.ok a, s)
  | raise e, _, s => (.error e, s)
  | getEvent eventId k, σ, s => (k (s.1.get eventId)).exec uuid σ s
  | uuid4 k, σ, s => (k uuid).exec uuid σ s
  | addEvent event k, σ, s =>
    match event.insertError s.1 with
    | some e => (.error e, s)
    | none => k.exec uuid { σ with insert := some event } s
  | setattrs event data k, σ, s =>
    k.exec uuid { σ with changes := some (event.id, data.changes event) } s
  | commit k, σ, s =>
    match σ.commit s.1 with
    | .error e => (.error e, s)
    | .ok events => k.exec uuid .empty (events, s.2)
  | publish m k, σ, s => k.exec uuid σ (s.1, s.2 ++ [m])

/-! ## Bodies -/

namespace EventUpdate

/-- The bodies that the schema accepts (`schemas/event.py:18`), with numbers of 32 bits. -/
structure Accepted (data : EventUpdate) : Prop where
  title : ∀ s ∈ data.title.join, s ≠ "" ∧ s.length ≤ 255
  venue : ∀ s ∈ data.venue.join, s ≠ "" ∧ s.length ≤ 255
  totalSeats : ∀ n ∈ data.totalSeats.join, 0 < n ∧ Int32 n
  priceCents : ∀ n ∈ data.priceCents.join, 0 ≤ n ∧ Int32 n

/-- No column is set to a null that it may not hold, no text has a NUL character, and no time is
outside the years 1 to 9999 in UTC. -/
structure Storable (data : EventUpdate) : Prop where
  title : data.title ≠ some none ∧ ∀ s ∈ data.title.join, nul ∉ s.toList
  description : ∀ s ∈ data.description.join, nul ∉ s.toList
  venue : data.venue ≠ some none ∧ ∀ s ∈ data.venue.join, nul ∉ s.toList
  startsAt : data.startsAt ≠ some none ∧ ∀ t ∈ data.startsAt.join, FitsTimestamp t
  totalSeats : data.totalSeats ≠ some none
  priceCents : data.priceCents ≠ some none

/-- The columns that the body does not set are the same in both rows. -/
structure Keeps (data : EventUpdate) (row row' : EventRow) : Prop where
  id : row'.id = row.id
  title : data.title = none → row'.title = row.title
  description : data.description = none → row'.description = row.description
  venue : data.venue = none → row'.venue = row.venue
  startsAt : data.startsAt = none → row'.startsAt = row.startsAt
  totalSeats : data.totalSeats = none → row'.totalSeats = row.totalSeats
  priceCents : data.priceCents = none → row'.priceCents = row.priceCents
  organizerId : row'.organizerId = row.organizerId

/-! ## The assigned values -/

section
variable {α : Type} [DecidableEq α] {P : α → Prop} {x : Option (Option α)}

/-- The values that differ from the current one are as good as all of them, if the current one is
good. -/
theorem forall_changed_iff {c : Option α} (hc : ∀ a ∈ c, P a) :
    (∀ a ∈ (if x = some c then none else x).join, P a) ↔ ∀ a ∈ x.join, P a := by
  split
  · next h =>
    subst h
    exact iff_of_true nofun hc
  · exact Iff.rfl

/-- A null differs from the current value. -/
theorem changed_ne_null {c : α} :
    (if x = some (some c) then none else x) ≠ some none ↔ x ≠ some none := by
  split
  · next h =>
    subst h
    exact iff_of_true nofun nofun
  · exact Iff.rfl

/-- Assigning the values that differ assigns all of them. -/
theorem getD_changed {c : α} :
    (if x = some (some c) then none else x).join.getD c = x.join.getD c := by
  split
  · next h => rw [h]; rfl
  · rfl

end

variable {data : EventUpdate} {row : EventRow}

/-- The columns that the body does not set are the same after it has been applied. -/
theorem keeps_apply (data : EventUpdate) (row : EventRow) : data.Keeps row (data.apply row) where
  id := rfl
  title h := by simp [apply, h]
  description h := by simp [apply, h]
  venue h := by simp [apply, h]
  startsAt h := by simp [apply, h]
  totalSeats h := by simp [apply, h]
  priceCents h := by simp [apply, h]
  organizerId := rfl

/-- The `UPDATE` of the changed columns makes the row that the body asks for. -/
theorem apply_changes (data : EventUpdate) (row : EventRow) :
    (data.changes row).apply row = data.apply row := by
  have hdescription : (if data.description = some row.description then none
      else data.description).getD row.description = data.description.getD row.description := by
    split
    · next h => rw [h]; rfl
    · rfl
  simp only [apply, changes, getD_changed, hdescription]

/-- A value that is assigned satisfies what the current value and the values of the body satisfy. -/
theorem getD_of_forall {α : Type} {P : α → Prop} {x : Option α} {c : α} (hc : P c)
    (hx : ∀ a ∈ x, P a) :
    P (x.getD c) := by
  cases x with
  | none => exact hc
  | some a => exact hx a rfl

/-- An accepted body whose values can be stored makes a valid row of a valid one. -/
theorem Accepted.valid_apply (hdata : data.Accepted) (hstore : data.Storable) (hrow : row.Valid) :
    (data.apply row).Valid where
  title := by
    refine getD_of_forall (P := fun s => s ≠ "" ∧ FitsString s) hrow.title fun s hs => ?_
    exact ⟨(hdata.title s hs).1, (hdata.title s hs).2, hstore.title.2 s hs⟩
  description := by
    intro s hs
    simp only [apply] at hs
    cases hd : data.description with
    | none => exact hrow.description s (by simpa [hd] using hs)
    | some d => exact hstore.description s (by simpa [hd] using hs)
  venue := by
    refine getD_of_forall (P := fun s => s ≠ "" ∧ FitsString s) hrow.venue fun s hs => ?_
    exact ⟨(hdata.venue s hs).1, (hdata.venue s hs).2, hstore.venue.2 s hs⟩
  startsAt := getD_of_forall hrow.startsAt hstore.startsAt.2
  totalSeats := getD_of_forall (P := fun n => 0 < n ∧ Int32 n) hrow.totalSeats hdata.totalSeats
  priceCents := getD_of_forall (P := fun n => 0 ≤ n ∧ Int32 n) hrow.priceCents hdata.priceCents

/-- What an accepted `UPDATE` sets. -/
theorem error_eq_none : data.error = none ↔
    ((∀ n ∈ data.totalSeats.join, Int32 n) ∧ (∀ n ∈ data.priceCents.join, Int32 n) ∧
      (∀ s ∈ data.title.join, FitsString s) ∧ (∀ s ∈ data.venue.join, FitsString s) ∧
      (∀ s ∈ data.description.join, nul ∉ s.toList) ∧ ∀ t ∈ data.startsAt.join, FitsTimestamp t) ∧
    data.title ≠ some none ∧ data.venue ≠ some none ∧ data.startsAt ≠ some none ∧
      data.totalSeats ≠ some none ∧ data.priceCents ≠ some none := by
  unfold error
  split
  · next h =>
    refine iff_of_false nofun fun hall => ?_
    obtain ⟨⟨h1, h2, h3, h4, h5, h6⟩, -⟩ := hall
    rcases h with ⟨n, hn, h⟩ | ⟨n, hn, h⟩ | ⟨s, hs, h⟩ | ⟨s, hs, h⟩ | ⟨s, hs, h⟩ | ⟨t, ht, h⟩
    · exact h (h1 n hn)
    · exact h (h2 n hn)
    · exact h (h3 s hs)
    · exact h (h4 s hs)
    · exact h5 s hs h
    · exact h (h6 t ht)
  · next h =>
    push Not at h
    split
    · next hnull =>
      refine iff_of_false nofun fun hall => ?_
      obtain ⟨-, h1, h2, h3, h4, h5⟩ := hall
      rcases hnull with hn | hn | hn | hn | hn
      · exact h1 hn
      · exact h2 hn
      · exact h3 hn
      · exact h4 hn
      · exact h5 hn
    · next hnull =>
      push Not at hnull
      exact iff_of_true rfl ⟨h, hnull⟩

/-- **What the `UPDATE` of an accepted body checks**: it refuses the values that cannot be
stored. -/
theorem Accepted.error_changes (hdata : data.Accepted) (hrow : row.Valid) :
    (data.changes row).error = none ↔ data.Storable := by
  have htitle : ∀ s ∈ some row.title, FitsString s := by rintro s ⟨⟩; exact hrow.title.2
  have hvenue : ∀ s ∈ some row.venue, FitsString s := by rintro s ⟨⟩; exact hrow.venue.2
  have hstarts : ∀ t ∈ some row.startsAt, FitsTimestamp t := by rintro t ⟨⟩; exact hrow.startsAt
  have hseats : ∀ n ∈ some row.totalSeats, Int32 n := by rintro n ⟨⟩; exact hrow.totalSeats.2
  have hprice : ∀ n ∈ some row.priceCents, Int32 n := by rintro n ⟨⟩; exact hrow.priceCents.2
  simp only [error_eq_none, changes, forall_changed_iff htitle, forall_changed_iff hvenue,
    forall_changed_iff hstarts, forall_changed_iff hseats, forall_changed_iff hprice,
    forall_changed_iff hrow.description, changed_ne_null]
  constructor
  · rintro ⟨⟨-, -, h3, h4, h5, h6⟩, n1, n2, n3, n4, n5⟩
    exact ⟨⟨n1, fun s hs => (h3 s hs).2⟩, h5, ⟨n2, fun s hs => (h4 s hs).2⟩, ⟨n3, h6⟩, n4, n5⟩
  · intro h
    exact ⟨⟨fun n hn => (hdata.totalSeats n hn).2, fun n hn => (hdata.priceCents n hn).2,
      fun s hs => ⟨(hdata.title s hs).2, h.title.2 s hs⟩,
      fun s hs => ⟨(hdata.venue s hs).2, h.venue.2 s hs⟩, h.description, h.startsAt.2⟩,
      h.title.1, h.venue.1, h.startsAt.1, h.totalSeats, h.priceCents⟩

end EventUpdate

/-! ## The update -/

section
variable {events : Table EventRow} {eventId : UUID} {row : EventRow} {user : CurrentUser}
  {data : EventUpdate}

/-- The message of an update: there is one if the body sets the number of seats to another one. -/
def EventUpdate.message (data : EventUpdate) (row : EventRow) : List EventMessage :=
  if data.totalSeats.join.any (· ≠ row.totalSeats) then
    [.eventUpdated row.id (data.apply row).totalSeats]
  else []

/-- The update by a user who may make it is an `UPDATE` of the changed columns and a message. -/
theorem updateEvent_exec (hrow : events.get eventId = some row)
    (huser : user.role = .admin ∨ row.organizerId = user.id) (uuid : UUID)
    (published : List EventMessage) :
    (updateEvent eventId data user).exec uuid .empty (events, published) =
      match (⟨none, some (row.id, data.changes row)⟩ : EventSession).commit events with
      | .error e => (.error e, events, published)
      | .ok events' => (.ok (data.apply row), events', published ++ data.message row) := by
  have hpass : requireOwnerOrAdmin row user = .ret () := by
    rw [requireOwnerOrAdmin, if_neg]
    · rfl
    · rintro ⟨hrole, howner⟩
      exact huser.elim hrole howner
  show (EventProg.bind (EventProg.bind (.ret (events.get eventId)) _) _).exec uuid .empty _ = _
  rw [hrow]
  show (EventProg.bind (requireOwnerOrAdmin row user) _).exec uuid .empty _ = _
  rw [hpass]
  show (match (⟨none, some (row.id, data.changes row)⟩ : EventSession).commit events with
    | .error e => _
    | .ok events' =>
      (EventProg.exec uuid (if data.totalSeats.join.any (· ≠ row.totalSeats) then _ else _)
        .empty (events', published))) = _
  cases (⟨none, some (row.id, data.changes row)⟩ : EventSession).commit events with
  | error e => rfl
  | ok events' =>
    dsimp only [EventUpdate.message]
    split
    · rfl
    · rw [List.append_nil]
      rfl

/-- An update whose values can be stored makes the row that it asks for, and changes no other
row. -/
theorem updateEvent_stores (hrow : events.get eventId = some row) (hvalid : row.Valid)
    (huser : user.role = .admin ∨ row.organizerId = user.id) (hdata : data.Accepted)
    (hstore : data.Storable) (uuid : UUID) (published : List EventMessage) :
    (updateEvent eventId data user).exec uuid .empty (events, published) =
      (.ok (data.apply row), events.set (data.apply row), published ++ data.message row) := by
  have hid : row.id = eventId := events.pk_of_get hrow
  have hcommit : (⟨none, some (row.id, data.changes row)⟩ : EventSession).commit events =
      .ok (events.set (data.apply row)) := by
    rw [EventSession.commit]
    dsimp only
    split
    · next hempty =>
      -- nothing differs from the row
      have hsame : data.apply row = row := by
        rw [← EventUpdate.apply_changes, hempty]
        rfl
      rw [hsame, Table.set_of_get (hid ▸ hrow : events.get row.id = some row)]
    · rw [(hdata.error_changes hvalid).2 hstore]
      dsimp only
      rw [hid, hrow]
      dsimp only
      rw [EventUpdate.apply_changes]
  rw [updateEvent_exec hrow huser, hcommit]

/-- An update with a value that cannot be stored fails, and changes nothing. -/
theorem updateEvent_fails (hrow : events.get eventId = some row) (hvalid : row.Valid)
    (huser : user.role = .admin ∨ row.organizerId = user.id) (hdata : data.Accepted)
    (hstore : ¬ data.Storable) (uuid : UUID) (published : List EventMessage) :
    ∃ e, (updateEvent eventId data user).exec uuid .empty (events, published) =
      (.error e, events, published) := by
  have herror : (data.changes row).error ≠ none := fun h =>
    hstore ((hdata.error_changes hvalid).1 h)
  obtain ⟨e, he⟩ := Option.ne_none_iff_exists'.1 herror
  have hcommit : (⟨none, some (row.id, data.changes row)⟩ : EventSession).commit events =
      .error e := by
    rw [EventSession.commit]
    dsimp only
    split
    · next hempty =>
      rw [hempty] at he
      cases he
    · rw [he]
  exact ⟨e, by rw [updateEvent_exec hrow huser, hcommit]⟩

end

/-- **Which updates are stored.** On a valid row, an update by a user who may make it, with a body
that the schema accepts, commits a valid row and leaves the columns alone that the body does not
set, exactly if the body sets no column to a null but the description, no text with a NUL character,
and no time outside the years 1 to 9999 in UTC. -/
theorem update_storable_iff (events : Table EventRow) (eventId : UUID) (row : EventRow)
    (hrow : events.get eventId = some row) (hvalid : row.Valid) (user : CurrentUser)
    (huser : user.role = .admin ∨ row.organizerId = user.id) (data : EventUpdate)
    (hdata : data.Accepted) (uuid : UUID) (published : List EventMessage) :
    (∃ event events' published',
      (updateEvent eventId data user).exec uuid .empty (events, published) =
        (.ok event, events', published') ∧
      ∃ row', events'.get eventId = some row' ∧ row'.Valid ∧ data.Keeps row row') ↔
        data.Storable := by
  constructor
  · rintro ⟨event, events', published', hexec, -⟩
    by_contra hstore
    obtain ⟨e, he⟩ := updateEvent_fails hrow hvalid huser hdata hstore uuid published
    rw [he] at hexec
    cases hexec
  · intro hstore
    have hid : row.id = eventId := events.pk_of_get hrow
    refine ⟨_, _, _, updateEvent_stores hrow hvalid huser hdata hstore uuid published,
      data.apply row, ?_, hdata.valid_apply hstore hvalid, EventUpdate.keeps_apply data row⟩
    have hkey : eventId = pk (data.apply row) := hid.symm
    rw [Table.get_set, if_pos hkey]

/-- An event of the organizer `2`. -/
private def gig : EventRow := ⟨⟨1⟩, "Gig", none, "Hall", 0, 10, 1000, ⟨2⟩⟩

private theorem gig_valid : gig.Valid where
  title := by decide
  description := by decide
  venue := by decide
  startsAt := by decide
  totalSeats := by decide
  priceCents := by decide

/-- A new price and no description are stored. -/
theorem update_price : ∃ event events' published',
    (updateEvent ⟨1⟩ { description := some none, priceCents := some (some 500) }
      ⟨⟨2⟩, .organizer⟩).exec
        ⟨0⟩ .empty (Table.empty.set gig, []) = (.ok event, events', published') ∧
      ∃ row', events'.get ⟨1⟩ = some row' ∧ row'.Valid ∧
        EventUpdate.Keeps { description := some none, priceCents := some (some 500) } gig row' := by
  refine (update_storable_iff (Table.empty.set gig) ⟨1⟩ gig (by decide) gig_valid ⟨⟨2⟩, .organizer⟩
    (by decide) { description := some none, priceCents := some (some 500) } ?_ ⟨0⟩ []).2 ?_
  · exact ⟨by decide, by decide, by decide, by decide⟩
  · exact ⟨by decide, by decide, by decide, by decide, by decide, by decide⟩

/-- A title that is set to `None` passes the schema and breaks the `NOT NULL` of its column. -/
theorem update_null_title : gig.Valid ∧ EventUpdate.Accepted { title := some none } ∧
    (updateEvent ⟨1⟩ { title := some none } ⟨⟨2⟩, .organizer⟩).exec ⟨0⟩ .empty
      (Table.empty.set gig, []) = (.error .integrity, Table.empty.set gig, []) ∧
    ¬ ∃ event events' published',
      (updateEvent ⟨1⟩ { title := some none } ⟨⟨2⟩, .organizer⟩).exec ⟨0⟩ .empty
        (Table.empty.set gig, []) = (.ok event, events', published') ∧
      ∃ row', events'.get ⟨1⟩ = some row' ∧ row'.Valid ∧
        EventUpdate.Keeps { title := some none } gig row' := by
  have haccepted : EventUpdate.Accepted { title := some none } :=
    ⟨by decide, by decide, by decide, by decide⟩
  have hexec : (updateEvent ⟨1⟩ { title := some none } ⟨⟨2⟩, .organizer⟩).exec ⟨0⟩ .empty
      (Table.empty.set gig, []) = (.error .integrity, Table.empty.set gig, []) := by
    have hrow : (Table.empty.set gig).get ⟨1⟩ = some gig := by decide
    rw [updateEvent_exec hrow (by decide)]
    rfl
  refine ⟨gig_valid, haccepted, hexec, ?_⟩
  rintro ⟨event, events', published', h, -⟩
  rw [hexec] at h
  cases h

end EventSphere.Api
