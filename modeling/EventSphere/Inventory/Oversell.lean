import EventSphere.Inventory.Accounting

/-!
# Overselling

The version check keeps the counters of an event row exact about what its transactions meant to do.
Whether they are exact about the reservations depends on the status a transaction acts on: a
confirmation or release that was decided on an outdated status moves seats that are no longer there.
`no_oversell` shows that nothing else can go wrong: as long as every accepted flush of an event's
reservation finds it still pending or confirmed, the active reservations of the event fit into its
capacity in every committed state. `oversold` is the schedule in which one does not.
-/

namespace EventSphere.Inventory

/-- The statuses that hold seats. -/
def isActive (s : ReservationStatus) : Bool := s = .pending ∨ s = .confirmed

/-- The calls of a run in which the capacity of `e` is set once, to a number that is not negative,
and never adjusted. -/
def CapacitySetOnce (e : UUID) : Call → Prop
  | .initializeInventory e' n => e' = e → 0 ≤ n
  | .adjustCapacity e' _ => e' ≠ e
  | _ => True

/-- The reservation of `e` that is overwritten still holds its seats. -/
def StillActive (e : UUID) : ReadRel := fun r _ cur => r.eventId = e → isActive cur.status = true

/-- The condition on a step under which the event `e` is not oversold. -/
structure KeepsSeats (e : UUID) (w : InventoryWorld) (a : Action Call UUID) : Prop where
  calls : ∀ call ∈ a.arriving, CapacitySetOnce e call
  reads : Overwrites (StillActive e) w a

instance (e : UUID) : ∀ call, Decidable (CapacitySetOnce e call)
  | .initializeInventory e' n => inferInstanceAs (Decidable (e' = e → 0 ≤ n))
  | .adjustCapacity e' _ => inferInstanceAs (Decidable (e' ≠ e))
  | .getAvailability _ | .reserveSeats _ _ _ | .confirmReservation _ | .releaseReservation _ _
  | .sweepExpiredReservations => inferInstanceAs (Decidable True)

instance (e : UUID) (r : Reservation) (s : ReservationStatus) (cur : Reservation) :
    Decidable (StillActive e r s cur) :=
  inferInstanceAs (Decidable (r.eventId = e → _))

instance (e : UUID) (w : InventoryWorld) (a : Action Call UUID) : Decidable (KeepsSeats e w a) :=
  decidable_of_iff ((∀ call ∈ a.arriving, CapacitySetOnce e call) ∧
    Overwrites (StillActive e) w a) ⟨fun h => ⟨h.1, h.2⟩, fun h => ⟨h.calls, h.reads⟩⟩

/-- The taken seats of the event row fit into its capacity. -/
def Within (e : UUID) (V : InventoryDb) : Prop :=
  ∀ row, V.versioned.get e = some row → row.taken ≤ row.totalCapacity

section
variable {e : UUID} {V V' : InventoryDb} {call : Call}

/-- **An effect on active reservations moves the taken seats as it should.** -/
theorem Effect.tracks_taken (h : Effect (StillActive e) V V' call) :
    Tracks EventInventory.taken isActive e V V' := by
  cases h with
  | idle h => subst h; exact .refl _
  | create he h => subst h; exact tracks_row (Table.term_of_none _ he).symm
  | adjust hrow h =>
    subst h
    obtain rfl := V.versioned.pk_of_get hrow
    exact tracks_row (Table.term_of_get EventInventory.taken hrow).symm
  | reserve hrow hq hav hs hr h =>
    subst h
    have he := V.versioned.pk_of_get hrow
    refine tracks_both he.symm (by simp [hr]) fun h => ?_
    obtain rfl := h.trans he
    rw [Table.term_of_get _ hrow, Table.term_of_none _ hr]
    simp [hs, isActive]
  | confirm hrow hq hs hcur hf hR h =>
    subst h
    have he := V.versioned.pk_of_get hrow
    obtain ⟨h1, -, h3, -⟩ := frame_eq.1 hf
    refine tracks_both he.symm (by simp [hcur, h1]) fun h => ?_
    obtain rfl := h.trans he
    rw [Table.term_of_get _ hrow, Table.term_of_get _ hcur]
    simp [seats, h1, h3, hR rfl, show isActive .confirmed = true from rfl]
  | @release _ row r _ expired hc hrow hq hs hcur hf hR h =>
    subst h
    have he := V.versioned.pk_of_get hrow
    obtain ⟨h1, -, h3, -⟩ := frame_eq.1 hf
    have hfree : isActive (releasedStatus expired) = false := by cases expired <;> rfl
    refine tracks_both (by simpa using he.symm) (by simp [hcur, h1]) fun h => ?_
    obtain rfl := h.trans ((bump_eventId _).trans ((giveBack_eventId _ _).trans he))
    rw [Table.term_of_get _ hrow, Table.term_of_get _ hcur]
    simp [seats, h1, h3, hR rfl, hfree]

/-- An effect of a call that leaves the capacity alone keeps the taken seats within it. -/
theorem Effect.within {R : ReadRel} (h : Effect R V V' call) (hc : CapacitySetOnce e call)
    (hV : Within e V) : Within e V' := by
  -- a written event row that fits
  have hset : ∀ {row : EventInventory} {plain : Table Reservation},
      V' = ⟨V.versioned.set row, plain⟩ → (row.eventId = e → row.taken ≤ row.totalCapacity) →
      Within e V' := fun {row plain} hV' hrow row' hget => by
    subst hV'
    rcases Table.get_set_inv hget with ⟨he, rfl⟩ | hget
    · exact hrow he.symm
    · exact hV row' hget
  cases h with
  | idle h => subst h; exact hV
  | create he h => exact hset h fun h' => hc h'
  | adjust hrow h =>
    exact hset h fun h' => absurd ((V.versioned.pk_of_get hrow).symm.trans h') hc
  | @reserve row r hrow hq hav hs hr h =>
    refine hset h fun h' => ?_
    rw [bump_taken, hold_taken, bump_totalCapacity, hold_totalCapacity]
    unfold EventInventory.available at hav
    unfold EventInventory.taken
    omega
  | @confirm row r _ hrow hq hs hcur hf hR h =>
    refine hset h fun h' => ?_
    have he : r.eventId = e := (V.versioned.pk_of_get hrow).symm.trans h'
    simpa using hV row (he ▸ hrow)
  | @release _ row r _ expired hc hrow hq hs hcur hf hR h =>
    refine hset h fun h' => ?_
    have he : r.eventId = e :=
      (V.versioned.pk_of_get hrow).symm.trans (by simpa using h')
    have := hV row (he ▸ hrow)
    simp only [bump_taken, giveBack_taken, bump_totalCapacity, giveBack_totalCapacity]
    omega

end

/-! ## Whole runs -/

/-- What is known of the row versions of a running transaction: they move the taken seats of `e`
with its active reservations, and the event row among them is within its capacity. -/
def SeatsLocked (e : UUID) (_ : Call) (db W : InventoryDb) : Prop :=
  Tracks EventInventory.taken isActive e db (db.overlay W) ∧
  ∀ row, W.versioned.get e = some row → row.taken ≤ row.totalCapacity

theorem seatsLocked (e : UUID) : LockedRel (SeatsLocked e) where
  empty {call db} := ⟨by rw [Db.overlay_empty]; exact .refl db, nofun⟩
  agree {call db db' W} h hL := by
    refine ⟨?_, hL.2⟩
    have h1 := Table.term_overlay_sub (f := EventInventory.taken) h.1 e
    have h2 := Table.sum_overlay_sub (f := seats isActive e) h.2
    have := hL.1
    unfold Tracks at this ⊢
    simp only [Db.overlay_versioned, Db.overlay_plain] at this ⊢
    omega

/-- The invariant that carries `no_oversell`. -/
structure Seated (settings : Settings) (e : UUID) (w : InventoryWorld) : Prop where
  coherent : Coherent settings w
  calls : w.Calls (CapacitySetOnce e)
  locked : w.Holds (SeatsLocked e)
  balanced : w.db.versioned.term EventInventory.taken e = w.db.plain.sum (seats isActive e)
  within : Within e w.db

theorem seated_init (settings : Settings) (e : UUID) : Seated settings e .init where
  coherent := World.inv_init
  calls := nofun
  locked := nofun
  balanced := rfl
  within := nofun

/-- What a transaction sees is within the capacity. -/
theorem Seated.within_view {settings : Settings} {e : UUID} {w : InventoryWorld}
    (h : Seated settings e w) {call : Call} {k : InventoryWork}
    (hk : SeatsLocked e call w.db k.writes) : Within e (k.view w.db) := by
  intro row hrow
  rcases Option.or_eq_some_iff.1 hrow with hrow | ⟨-, hrow⟩
  · exact hk.2 row hrow
  · exact h.within row hrow

/-- One step keeps the invariant. -/
theorem Seated.step {settings : Settings} {e : UUID} {w w' : InventoryWorld}
    {a : Action Call UUID} (h : Seated settings e w) (hc : KeepsSeats e w a)
    (hs : step settings w a = some w') : Seated settings e w' := by
  have hdb : (w'.db.versioned.term EventInventory.taken e = w'.db.plain.sum (seats isActive e)) ∧
      Within e w'.db := by
    rcases h.coherent.step_db hs with hdb | ⟨t, inp, call, r, k, -, ht, hdb, -⟩
    · rw [hdb]; exact ⟨h.balanced, h.within⟩
    · rw [hdb]
      exact ⟨(h.locked ht).1.balanced h.balanced, h.within_view (h.locked ht)⟩
  refine ⟨h.coherent.step hs, World.Calls.step h.calls hs hc.calls, ?_, hdb.1, hdb.2⟩
  refine World.Holds.step (seatsLocked e) h.coherent h.locked hs fun {t inp call k} ha hf hL => ?_
  have heff := h.coherent.effect hc.reads ha hf
  obtain ⟨f, hrun⟩ := hf.running
  refine ⟨hL.1.trans heff.tracks_taken, fun row hrow => ?_⟩
  exact heff.within (h.calls hrun) (h.within_view hL) row (Table.get_overlay_of_get hrow)

/-- **No overselling without stale reservations.** In every run whose steps set the capacity of an
event only once and overwrite only reservations of it that still hold their seats, every committed
state has the active reservations of the event within its capacity. -/
theorem no_oversell (settings : Settings) (e : UUID) (as : List (Action Call UUID))
    (w : InventoryWorld) (hc : Along (step settings) (KeepsSeats e) .init as)
    (hr : run (step settings) .init as = some w) (row : EventInventory)
    (hrow : w.db.versioned.get e = some row) :
    w.db.plain.sum (seats isActive e) ≤ row.totalCapacity := by
  have h := run_inv_along (I := Seated settings e) (fun h hc hs => h.step hc hs) hc hr
    (seated_init settings e)
  have := h.within row hrow
  rwa [← h.balanced, Table.term_of_get _ hrow]

/-! ## The schedule that oversells -/

/-- An event with one seat. A confirmation reads the reservation of the seat as pending; before it
reads the event row, the reservation is released and the seat reserved again. The confirmation then
reads the event row with its new version, and its flush is accepted. -/
def oversellSchedule : List (Action Call UUID) :=
  [.begin (.initializeInventory ⟨1⟩ 1)] ++ advances 0 0 4 ++
  [.begin (.reserveSeats ⟨1⟩ ⟨2⟩ 1)] ++ advances 0 1 7 ++
  [.begin (.confirmReservation ⟨101⟩)] ++ advances 0 2 1 ++
  [.begin (.releaseReservation ⟨101⟩ false)] ++ advances 0 3 6 ++
  [.begin (.reserveSeats ⟨1⟩ ⟨3⟩ 1)] ++ advances 0 4 7 ++ advances 0 2 5

/-- **An event can be oversold.** Two active reservations for one seat. -/
theorem oversold : ∃ w, run (step .default) .init oversellSchedule = some w ∧
    (∀ a ∈ oversellSchedule, ∀ call ∈ a.arriving, CapacitySetOnce ⟨1⟩ call) ∧
    ∃ row, w.db.versioned.get ⟨1⟩ = some row ∧
      row.totalCapacity < w.db.plain.sum (seats isActive ⟨1⟩) := by
  obtain ⟨w, hw, h⟩ : ∃ w, run (step .default) .init oversellSchedule = some w ∧
      (w.db.versioned.get ⟨1⟩).any fun row =>
        row.totalCapacity < w.db.plain.sum (seats isActive ⟨1⟩) :=
    exists_of_run (by decide +kernel)
  obtain ⟨row, hrow, h⟩ := (Option.any_eq_true _ _).1 h
  exact ⟨w, hw, by decide +kernel, row, hrow, of_decide_eq_true h⟩

/-- The same calls, one after the other. -/
def serialSchedule : List (Action Call UUID) :=
  [.begin (.initializeInventory ⟨1⟩ 1)] ++ advances 0 0 4 ++
  [.begin (.reserveSeats ⟨1⟩ ⟨2⟩ 1)] ++ advances 0 1 7 ++
  [.begin (.confirmReservation ⟨101⟩)] ++ advances 0 2 6 ++
  [.begin (.releaseReservation ⟨101⟩ false)] ++ advances 0 3 6 ++
  [.begin (.reserveSeats ⟨1⟩ ⟨3⟩ 1)] ++ advances 0 4 7

theorem serial_not_oversold : ∃ w row, run (step .default) .init serialSchedule = some w ∧
    w.db.versioned.get ⟨1⟩ = some row ∧
      w.db.plain.sum (seats isActive ⟨1⟩) ≤ row.totalCapacity := by
  obtain ⟨w, hw, h⟩ : ∃ w, run (step .default) .init serialSchedule = some w ∧
      (w.db.versioned.get ⟨1⟩).any fun row => row.totalCapacity = 1 :=
    exists_of_run (by decide +kernel)
  obtain ⟨row, hrow, -⟩ := (Option.any_eq_true _ _).1 h
  exact ⟨w, row, hw, hrow,
    no_oversell .default ⟨1⟩ serialSchedule w (by decide +kernel) hw row hrow⟩

end EventSphere.Inventory
