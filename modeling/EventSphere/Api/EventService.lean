import EventSphere.Api.Session

/-!
# The event service

`EventService.create` and `update` (`services/api/app/services/event_service.py`) as programs over
the `events` table. `events` has no version column: the `UPDATE` of a commit sets the columns whose
assigned value differs from the one that was read, on whatever row is there by then
(`EventSession.commit`). Both methods publish after their commit, `update` only if it has changed
the number of seats; what a program publishes is what its commit changes (`EventProg.Announces`).
-/

namespace EventSphere.Api

/-! ## Rows, payloads and messages -/

/-- Reference: `UserRole` (`enums.py:12`). -/
inductive UserRole where
  | attendee
  | organizer
  | admin
  deriving DecidableEq, Repr

/-- What the event service reads of the user that makes a request. -/
structure CurrentUser where
  id : UUID
  role : UserRole
  deriving DecidableEq, Repr

/-- A row of the `events` table. Reference: `Event` (`models/event.py:15`); the timestamps are read
by nothing. -/
structure EventRow where
  id : UUID
  title : String
  description : Option String
  venue : String
  startsAt : Instant
  totalSeats : ℤ
  priceCents : ℤ
  organizerId : UUID
  deriving DecidableEq, Repr

/-- Reference: `UUIDPrimaryKeyMixin.id` (`base.py:24`). -/
instance : PrimaryKey EventRow UUID := ⟨EventRow.id⟩

@[simp] theorem pk_event (event : EventRow) : pk event = event.id := rfl

/-- What a `datetime` in UTC can hold, which is what the driver makes of the value of a
`DateTime(timezone=True)` column: the instants of the years 1 to 9999. -/
def FitsTimestamp (t : Instant) : Prop := -62135596800000000 ≤ t ∧ t < 253402300800000000

instance (t : Instant) : Decidable (FitsTimestamp t) := inferInstanceAs (Decidable (_ ∧ _))

/-- The texts, times, numbers and bounds that the schemas (`schemas/event.py:9`) and the columns
(`event.py:19`) allow. -/
structure EventRow.Valid (event : EventRow) : Prop where
  title : event.title ≠ "" ∧ FitsString event.title
  description : ∀ s ∈ event.description, nul ∉ s.toList
  venue : event.venue ≠ "" ∧ FitsString event.venue
  startsAt : FitsTimestamp event.startsAt
  totalSeats : 0 < event.totalSeats ∧ Int32 event.totalSeats
  priceCents : 0 ≤ event.priceCents ∧ Int32 event.priceCents

/-- Reference: `EventCreate` (`schemas/event.py:9`). -/
structure EventCreate where
  title : String
  description : Option String
  venue : String
  startsAt : Instant
  totalSeats : ℤ
  priceCents : ℤ
  deriving DecidableEq, Repr

/-- Reference: `EventUpdate` (`schemas/event.py:18`). A field is unset or has a value, which may be
`None`. -/
structure EventUpdate where
  title : Option (Option String) := none
  description : Option (Option String) := none
  venue : Option (Option String) := none
  startsAt : Option (Option Instant) := none
  totalSeats : Option (Option ℤ) := none
  priceCents : Option (Option ℤ) := none
  deriving DecidableEq, Repr

/-- The messages of the service, by `EventType` (`topics.py:16`), with their payloads
(`kafka/schemas.py:34`). Both are published with the event as their key. -/
inductive EventMessage where
  | eventCreated (eventId : UUID) (totalSeats : ℤ)
  | eventUpdated (eventId : UUID) (totalSeats : ℤ)
  deriving DecidableEq, Repr

/-- The event a message is about. -/
def EventMessage.eventId : EventMessage → UUID
  | eventCreated eventId _ | eventUpdated eventId _ => eventId

/-- The number of seats a message carries. -/
def EventMessage.totalSeats : EventMessage → ℤ
  | eventCreated _ totalSeats | eventUpdated _ totalSeats => totalSeats

/-- The number of seats of an event, if it has a row. -/
def seats (events : Table EventRow) (e : UUID) : Option ℤ := (events.get e).map EventRow.totalSeats

/-- What the service can raise: a domain error, a violated constraint, a value that does not fit its
column, or an `UPDATE` that matched no row. -/
inductive EventError where
  | domain (e : DomainError)
  | integrity
  | dataError
  | staleData
  deriving DecidableEq, Repr

namespace EventUpdate

/-- The row with the columns that are set. A column that is set to `None` and may not be is left to
the constraint that refuses it. -/
def apply (data : EventUpdate) (event : EventRow) : EventRow :=
  { event with
    title := data.title.join.getD event.title
    description := data.description.getD event.description
    venue := data.venue.join.getD event.venue
    startsAt := data.startsAt.join.getD event.startsAt
    totalSeats := data.totalSeats.join.getD event.totalSeats
    priceCents := data.priceCents.join.getD event.priceCents }

/-- The columns whose assigned value differs from the one the row was read with. -/
def changes (data : EventUpdate) (event : EventRow) : EventUpdate where
  title := if data.title = some (some event.title) then none else data.title
  description := if data.description = some event.description then none else data.description
  venue := if data.venue = some (some event.venue) then none else data.venue
  startsAt := if data.startsAt = some (some event.startsAt) then none else data.startsAt
  totalSeats := if data.totalSeats = some (some event.totalSeats) then none else data.totalSeats
  priceCents := if data.priceCents = some (some event.priceCents) then none else data.priceCents

/-- The check of the values of an `UPDATE`: the numbers, the times and the texts fit their columns,
and only the description is nullable. -/
def error (data : EventUpdate) : Option EventError :=
  if (∃ n ∈ data.totalSeats.join, ¬ Int32 n) ∨ (∃ n ∈ data.priceCents.join, ¬ Int32 n) ∨
      (∃ s ∈ data.title.join, ¬ FitsString s) ∨ (∃ s ∈ data.venue.join, ¬ FitsString s) ∨
      (∃ s ∈ data.description.join, nul ∈ s.toList) ∨
        ∃ t ∈ data.startsAt.join, ¬ FitsTimestamp t then
    some .dataError
  else if data.title = some none ∨ data.venue = some none ∨ data.startsAt = some none ∨
      data.totalSeats = some none ∨ data.priceCents = some none then
    some .integrity
  else none

end EventUpdate

/-! ## Programs -/

/-- A program that returns an `α`. -/
inductive EventProg (α : Type) where
  | ret (a : α)
  | raise (e : EventError)
  /-- `EventRepository.get`. -/
  | getEvent (eventId : UUID) (k : Option EventRow → EventProg α)
  /-- `uuid.uuid4()`. -/
  | uuid4 (k : UUID → EventProg α)
  /-- `EventRepository.add`: add the event and flush. -/
  | addEvent (event : EventRow) (k : EventProg α)
  /-- `setattr` of the set fields of a loaded event. -/
  | setattrs (event : EventRow) (data : EventUpdate) (k : EventProg α)
  /-- `session.commit()`. -/
  | commit (k : EventProg α)
  /-- `KafkaEventProducer.publish`. -/
  | publish (m : EventMessage) (k : EventProg α)

namespace EventProg

variable {α β : Type}

/-- Sequencing: exceptions pass through, everything else continues. -/
def bind : EventProg α → (α → EventProg β) → EventProg β
  | ret a, f => f a
  | raise e, _ => raise e
  | getEvent eventId k, f => getEvent eventId fun event => (k event).bind f
  | uuid4 k, f => uuid4 fun i => (k i).bind f
  | addEvent event k, f => addEvent event (k.bind f)
  | setattrs event data k, f => setattrs event data (k.bind f)
  | commit k, f => commit (k.bind f)
  | publish m k, f => publish m (k.bind f)

instance : Monad EventProg where
  pure := ret
  bind := bind

end EventProg

/-- Reference: `get` (`event_service.py:39`). -/
def getEvent (eventId : UUID) : EventProg EventRow := do
  match ← .getEvent eventId .ret with
  | none => .raise (.domain (.notFound s!"No event {eventId}"))
  | some event => return event

/-- Reference: `_require_owner_or_admin` (`event_service.py:74`). -/
def requireOwnerOrAdmin (event : EventRow) (currentUser : CurrentUser) : EventProg Unit :=
  if currentUser.role ≠ .admin ∧ event.organizerId ≠ currentUser.id then
    .raise (.domain (.authorization "You do not have permission to modify this event"))
  else return ()

/-- Reference: `create` (`event_service.py:26`). The key is the column default. -/
def createEvent (data : EventCreate) (organizer : CurrentUser) : EventProg EventRow := do
  let id ← .uuid4 .ret
  let event : EventRow :=
    { id
      title := data.title
      description := data.description
      venue := data.venue
      startsAt := data.startsAt
      totalSeats := data.totalSeats
      priceCents := data.priceCents
      organizerId := organizer.id }
  .addEvent event (.ret ())
  .commit (.ret ())
  .publish (.eventCreated event.id event.totalSeats) (.ret ())
  return event

/-- Reference: `update` (`event_service.py:49`). The sessions of the API do not expire objects on
commit, so the published number of seats is the assigned one. -/
def updateEvent (eventId : UUID) (data : EventUpdate) (currentUser : CurrentUser) :
    EventProg EventRow := do
  let event ← getEvent eventId
  requireOwnerOrAdmin event currentUser
  let seatsChanged := data.totalSeats.join.any (· ≠ event.totalSeats)
  .setattrs event data (.ret ())
  let event := data.apply event
  .commit (.ret ())
  if seatsChanged then .publish (.eventUpdated event.id event.totalSeats) (.ret ())
  return event

/-- The requests. -/
inductive EventCall where
  | create (data : EventCreate) (organizer : CurrentUser)
  | update (eventId : UUID) (data : EventUpdate) (currentUser : CurrentUser)
  deriving DecidableEq, Repr

/-- The program of a request. -/
def EventCall.body : EventCall → EventProg EventRow
  | create data organizer => createEvent data organizer
  | update eventId data currentUser => updateEvent eventId data currentUser

/-! ## Sessions and the next operation -/

/-- The state of a session: the flushed event, and the changed columns of a loaded one. -/
structure EventSession where
  insert : Option EventRow
  changes : Option (UUID × EventUpdate)
  deriving DecidableEq, Repr

namespace EventSession

/-- A new session. -/
def empty : EventSession := ⟨none, none⟩

/-- What a commit makes of the committed events: the added row becomes visible, or an `UPDATE` sets
the changed columns of the row with the key. -/
def commit (σ : EventSession) (events : Table EventRow) : Except EventError (Table EventRow) :=
  match σ.changes with
  | none => .ok (σ.insert.elim events events.set)
  | some (eventId, data) =>
    if data = {} then .ok events
    else
      match data.error with
      | some e => .error e
      | none =>
        match events.get eventId with
        | some cur => .ok (events.set (data.apply cur))
        | none => .error .staleData

/-- The message that says what a commit of the session changes of the seats of an event. -/
def announcement (σ : EventSession) : Option EventMessage :=
  match σ.insert, σ.changes with
  | some event, _ => some (.eventCreated event.id event.totalSeats)
  | none, some (eventId, data) => data.totalSeats.join.map (.eventUpdated eventId)
  | none, none => none

end EventSession

/-- The `INSERT` of an added event: the numbers, the time and the texts fit their columns and the
key is free. The organizer is the user of the request, and users are never deleted. -/
def EventRow.insertError (events : Table EventRow) (event : EventRow) : Option EventError :=
  if ¬ Int32 event.totalSeats ∨ ¬ Int32 event.priceCents ∨ ¬ FitsString event.title ∨
      ¬ FitsString event.venue ∨ (∃ s ∈ event.description, nul ∈ s.toList) ∨
      ¬ FitsTimestamp event.startsAt then some .dataError
  else if event.id ∈ events.keys then some .integrity
  else none

/-- What the next operation of a program does. -/
inductive EventNext (α : Type) where
  | ret (a : α)
  | raise (e : EventError)
  | continue (p : EventProg α) (σ : EventSession)
  | commit (p : EventProg α) (events : Table EventRow)
  | publish (m : EventMessage) (p : EventProg α)

/-- The next operation of a program; `uuid` is the key that is drawn if it draws one. -/
def EventProg.next {α : Type} (events : Table EventRow) (uuid : UUID) :
    EventProg α → EventSession → EventNext α
  | ret a, _ => .ret a
  | raise e, _ => .raise e
  | getEvent eventId k, σ => .continue (k (events.get eventId)) σ
  | uuid4 k, σ => .continue (k uuid) σ
  | addEvent event k, σ =>
    match event.insertError events with
    | some e => .raise e
    | none => .continue k { σ with insert := some event }
  | setattrs event data k, σ =>
    .continue k { σ with changes := some (event.id, data.changes event) }
  | commit k, σ =>
    match σ.commit events with
    | .error e => .raise e
    | .ok events' => .commit k events'
  | publish m k, _ => .publish m k

/-! ## What a commit changes and what is published -/

/-- The message a program publishes next. -/
def EventProg.owes {α : Type} : EventProg α → Option EventMessage
  | publish m _ => some m
  | _ => none

/-- The program, up to its commit, publishes nothing, and right after it what the commit changes of
the seats of an event. -/
def EventProg.Announces : EventProg EventRow → EventSession → Prop
  | ret _, _ | raise _, _ => True
  | getEvent _ k, σ => ∀ event, (k event).Announces σ
  | uuid4 k, σ => ∀ i, (k i).Announces σ
  | addEvent event k, σ => k.Announces { σ with insert := some event }
  | setattrs event data k, σ =>
    k.Announces { σ with changes := some (event.id, data.changes event) }
  | commit k, σ => (σ.insert = none ∨ σ.changes = none) ∧
    (σ.announcement = none ∧ (∃ a, k = .ret a) ∨
      ∃ m a, σ.announcement = some m ∧ k = .publish m (.ret a))
  | publish _ _, _ => False

/-- The number of seats that an `UPDATE` sets is the one that `seats_changed` asks for. -/
theorem EventUpdate.join_changes (data : EventUpdate) (event : EventRow) :
    (data.changes event).totalSeats.join =
      data.totalSeats.join.filter (· ≠ event.totalSeats) := by
  unfold changes
  rcases data.totalSeats with - | - | n
  · rfl
  · rfl
  · by_cases hn : n = event.totalSeats <;> simp [hn, Option.filter]

/-- **A request publishes what it changes**: `seats_changed` says whether its `UPDATE` sets the
number of seats. -/
theorem EventCall.body_announces (call : EventCall) : call.body.Announces .empty := by
  cases call with
  | create data organizer => exact fun id => ⟨.inr rfl, .inr ⟨_, _, rfl, rfl⟩⟩
  | update eventId data currentUser =>
    intro event
    cases event with
    | none => trivial
    | some event =>
      change EventProg.Announces (EventProg.bind (requireOwnerOrAdmin event currentUser) _) _
      unfold requireOwnerOrAdmin
      split
      · trivial
      · refine ⟨.inl rfl, ?_⟩
        simp only [EventSession.announcement, EventUpdate.join_changes, EventSession.empty]
        cases ht : data.totalSeats.join with
        | none => exact .inl ⟨rfl, data.apply event, rfl⟩
        | some n =>
          by_cases hn : n = event.totalSeats
          · have hany : (some n).any (· ≠ event.totalSeats) = false := by simp [hn]
            refine .inl ⟨by simp [hn, Option.filter], data.apply event, ?_⟩
            rw [hany]
            rfl
          · have hany : (some n).any (· ≠ event.totalSeats) = true := by simp [hn]
            have hrow : (data.apply event).totalSeats = n := by simp [EventUpdate.apply, ht]
            refine .inr
              ⟨.eventUpdated event.id n, data.apply event, by simp [hn, Option.filter], ?_⟩
            rw [hany, hrow]
            rfl

/-- What a commit does to the seats of event `e`, and the message that goes with it. -/
inductive EventSession.Changes (e : UUID) (σ : EventSession)
    (events events' : Table EventRow) : Prop
  | created {event : EventRow} (hi : σ.insert = some event) (he : event.id = e)
      (ha : σ.announcement = some (.eventCreated e event.totalSeats))
      (hs : seats events' e = some event.totalSeats)
  | updated {n : ℤ} (ha : σ.announcement = some (.eventUpdated e n)) (hold : seats events e ≠ none)
      (hs : seats events' e = some n)
  | other (ha : ∀ m ∈ σ.announcement, m.eventId ≠ e) (hs : seats events' e = seats events e)

/-- The seats of an event after a row has been written. -/
theorem seats_set (events : Table EventRow) (event : EventRow) (e : UUID) :
    seats (events.set event) e =
      if e = event.id then some event.totalSeats else seats events e := by
  simp only [seats, Table.get_set, pk_event]
  split <;> rfl

section
variable {σ : EventSession} {events events' : Table EventRow}

/-- An accepted commit, by what the session holds. -/
theorem EventSession.commit_eq_ok (h : σ.commit events = .ok events') :
    σ.changes = none ∧ events' = σ.insert.elim events events.set ∨
    (∃ eventId, σ.changes = some (eventId, {}) ∧ events' = events) ∨
    ∃ eventId data cur, σ.changes = some (eventId, data) ∧ data.error = none ∧
      events.get eventId = some cur ∧ events' = events.set (data.apply cur) := by
  unfold commit at h
  split at h
  · next hc => cases h; exact .inl ⟨hc, rfl⟩
  · next eventId data hc =>
    split at h
    · next hd => cases h; exact .inr (.inl ⟨eventId, hd ▸ hc, rfl⟩)
    · split at h
      · cases h
      · next herr =>
        split at h
        · next cur hcur => cases h; exact .inr (.inr ⟨eventId, data, cur, hc, herr, hcur, rfl⟩)
        · cases h

/-- An accepted `UPDATE` does not set the number of seats to `None`. -/
theorem EventUpdate.totalSeats_of_error {data : EventUpdate} (h : data.error = none) :
    data.totalSeats ≠ some none := by
  intro ht
  unfold error at h
  split at h
  · cases h
  · split at h
    · cases h
    · next hn => exact hn (.inr (.inr (.inr (.inl ht))))

/-- **What a commit changes**, for every event. -/
theorem EventSession.commit_changes (hσ : σ.insert = none ∨ σ.changes = none)
    (h : σ.commit events = .ok events') (e : UUID) : σ.Changes e events events' := by
  rcases commit_eq_ok h with ⟨hc, rfl⟩ | ⟨eventId, hc, rfl⟩ |
    ⟨eventId, data, cur, hc, herr, hcur, rfl⟩
  · cases hi : σ.insert with
    | none => exact .other (by simp [announcement, hi, hc]) rfl
    | some event =>
      have ha : σ.announcement = some (.eventCreated event.id event.totalSeats) := by
        simp [announcement, hi]
      by_cases he : e = event.id
      · subst he
        exact .created hi rfl ha ((seats_set events event _).trans (if_pos rfl))
      · refine .other (fun m hm => ?_) ((seats_set events event _).trans (if_neg he))
        cases ha.symm.trans hm
        exact Ne.symm he
  · have hi : σ.insert = none := hσ.resolve_right (by simp [hc])
    exact .other (by simp [announcement, hi, hc]) rfl
  · have hi : σ.insert = none := hσ.resolve_right (by simp [hc])
    have hid : cur.id = eventId := events.pk_of_get hcur
    have ha : σ.announcement = data.totalSeats.join.map (.eventUpdated eventId) := by
      simp [announcement, hi, hc]
    have hset := seats_set events (data.apply cur) e
    rcases ht : data.totalSeats with - | - | n
    · rw [ht] at ha
      refine .other (by simp [ha]) (hset.trans ?_)
      split
      · next he =>
        rw [show e = eventId from he.trans hid, seats, hcur]
        simp [EventUpdate.apply, ht]
      · rfl
    · exact absurd ht (EventUpdate.totalSeats_of_error herr)
    · rw [ht] at ha
      by_cases he : e = eventId
      · subst he
        refine .updated ha (by simp [seats, hcur]) (hset.trans ?_)
        rw [if_pos (show e = (data.apply cur).id from hid.symm)]
        simp [EventUpdate.apply, ht]
      · refine .other (fun m hm => ?_) (hset.trans (if_neg fun h => he (h.trans hid)))
        cases ha.symm.trans hm
        exact Ne.symm he

/-- A commit takes no key but that of its own insert. -/
theorem EventSession.commit_free (h : σ.commit events = .ok events') {i : UUID}
    (hi : ∀ event ∈ σ.insert, event.id ≠ i) (hfree : events.get i = none) :
    events'.get i = none := by
  rcases commit_eq_ok h with ⟨-, rfl⟩ | ⟨-, -, rfl⟩ | ⟨eventId, data, cur, -, -, hcur, rfl⟩
  · cases hins : σ.insert with
    | none => exact hfree
    | some event =>
      exact (Table.get_set_of_ne _ (Ne.symm (hi event hins))).trans hfree
  · exact hfree
  · refine (Table.get_set_of_ne _ fun he => ?_).trans hfree
    have hid : cur.id = eventId := events.pk_of_get hcur
    rw [show i = eventId from he.trans hid, hcur] at hfree
    cases hfree

/-- The key of an accepted insert is free. -/
theorem EventRow.free_of_insertError {event : EventRow} (h : event.insertError events = none) :
    events.get event.id = none := by
  unfold insertError at h
  split at h
  · cases h
  · split at h
    · cases h
    · next hk => exact Table.get_eq_none.2 hk

end

end EventSphere.Api
