import EventSphere.Inventory.Isolated
import EventSphere.Inventory.Oversell

/-!
# Availability

`reserve` checks the seats an event has left before it holds any; `adjust_capacity` sets the
capacity of an event to whatever it is given. `available_nonneg` says exactly when a serial run
keeps the availability of every event from becoming negative: when no capacity is set below the
seats that are taken at that moment. `overbooked` is the shortest run that does so.
-/

namespace EventSphere.Inventory

/-- One call as a step of a serial run. -/
def serialStep (settings : Settings) (db : InventoryDb) (op : Call × Input UUID) :
    Option InventoryDb :=
  some (serve settings db op)

/-- Every event row has as many seats as are taken of it. -/
def NonNegative (db : InventoryDb) : Prop :=
  ∀ e row, db.versioned.get e = some row → 0 ≤ row.available

/-- The capacities that `EventCreate` and `EventUpdate` admit (`event.py:13`, `event.py:23`). -/
def PositiveCapacity : Call → Prop
  | .initializeInventory _ n => 0 < n
  | .adjustCapacity _ n => 0 < n
  | _ => True

/-- The call leaves no event with a negative availability. -/
def KeepsAvailability (settings : Settings) (db : InventoryDb) (op : Call × Input UUID) : Prop :=
  NonNegative (serve settings db op)

/-- The condition on a call: it sets no capacity below the seats taken. -/
def FitsTaken (db : InventoryDb) (op : Call × Input UUID) : Prop :=
  match op.1 with
  | .adjustCapacity e n => ∀ row ∈ db.versioned.get e, row.taken ≤ n
  | _ => True

instance : DecidablePred PositiveCapacity
  | .initializeInventory _ n | .adjustCapacity _ n => inferInstanceAs (Decidable (0 < n))
  | .getAvailability _ | .reserveSeats .. | .confirmReservation _ | .releaseReservation ..
  | .sweepExpiredReservations => inferInstanceAs (Decidable True)

instance (db : InventoryDb) (op : Call × Input UUID) : Decidable (FitsTaken db op) :=
  match op with
  | (.adjustCapacity e n, _) =>
    inferInstanceAs (Decidable (∀ row ∈ db.versioned.get e, row.taken ≤ n))
  | (.initializeInventory .., _) | (.getAvailability _, _) | (.reserveSeats .., _)
  | (.confirmReservation _, _) | (.releaseReservation .., _) | (.sweepExpiredReservations, _) =>
    inferInstanceAs (Decidable True)

/-- What is available is what is not taken. -/
theorem available_eq (row : EventInventory) : row.available = row.totalCapacity - row.taken := by
  unfold EventInventory.available EventInventory.taken
  omega

section
variable {V V' : InventoryDb} {call : Call} {e : UUID} {n : ℤ}

/-- The effects of a call other than `adjust_capacity` keep the availability. -/
theorem Effect.nonNegative {R : ReadRel} (h : Effect R V V' call) (hpos : PositiveCapacity call)
    (hadjust : ∀ e n row, call = .adjustCapacity e n → V.versioned.get e = some row →
      row.taken ≤ n) (hV : NonNegative V) : NonNegative V' := by
  -- a written event row with enough seats
  have hset : ∀ {row : EventInventory} {plain : Table Reservation},
      V' = ⟨V.versioned.set row, plain⟩ → 0 ≤ row.available → NonNegative V' :=
    fun {row plain} hV' hrow e row' hget => by
      subst hV'
      rcases Table.get_set_inv hget with ⟨-, rfl⟩ | hget
      · exact hrow
      · exact hV e row' hget
  cases h with
  | idle h => subst h; exact hV
  | create he h =>
    refine hset h ?_
    change 0 < _ at hpos
    simp only [available_eq, EventInventory.taken]
    omega
  | adjust hrow h =>
    refine hset h ?_
    have := hadjust _ _ _ rfl hrow
    simp only [available_eq, bump_totalCapacity, bump_taken]
    exact sub_nonneg.2 this
  | @reserve row r hrow hq hav hs hr h =>
    refine hset h ?_
    rw [available_eq] at hav ⊢
    simp only [bump_totalCapacity, hold_totalCapacity, bump_taken, hold_taken]
    omega
  | @confirm row r _ hrow hq hs hcur hf hR h =>
    refine hset h ?_
    have := hV _ row hrow
    rw [available_eq] at this ⊢
    simpa using this
  | @release _ row r _ expired hc hrow hq hs hcur hf hR h =>
    refine hset h ?_
    have := hV _ row hrow
    rw [available_eq] at this ⊢
    simp only [bump_totalCapacity, giveBack_totalCapacity, bump_taken, giveBack_taken]
    omega

/-- `adjust_capacity` leaves the seats taken of every event as they are. -/
theorem Effect.adjust_taken {R : ReadRel} (h : Effect R V V' (.adjustCapacity e n))
    (hV : ∀ row, V.versioned.get e = some row → row.taken ≤ n) :
    ∀ row, V'.versioned.get e = some row → row.taken ≤ n := by
  cases h with
  | idle h => subst h; exact hV
  | adjust hrow h =>
    subst h
    intro row' hrow'
    rcases Table.get_set_inv hrow' with ⟨-, rfl⟩ | hrow'
    · have := hV _ hrow
      exact this
    · exact hV row' hrow'
  | release hc =>
    rcases hc with hc | ⟨hc, -⟩ <;> cases hc

end

/-! ## Whole runs -/

/-- One call with a capacity that fits leaves no event with a negative availability. -/
theorem FitsTaken.keeps {settings : Settings} {db : InventoryDb} {op : Call × Input UUID}
    (hfits : FitsTaken db op) (hpos : PositiveCapacity op.1) (hdb : DbInv db)
    (hn : NonNegative db) : KeepsAvailability settings db op := by
  obtain ⟨call, inp⟩ := op
  -- a call flushes more than once only if it is a sweep, but the rule below does not know that
  refine ((serve_rel settings (call, inp) (T := fun V V' =>
    FitsTaken V (call, inp) ∧ NonNegative V → FitsTaken V' (call, inp) ∧ NonNegative V')
    (fun _ h => h) (fun h h' hV => h' (h hV)) ?_ hdb).2 ⟨hfits, hn⟩).2
  rintro V V' heff ⟨hV, hnV⟩
  refine ⟨?_, heff.nonNegative hpos ?_ hnV⟩
  · cases call with
    | adjustCapacity e n => exact heff.adjust_taken hV
    | _ => trivial
  · intro e n row hcall hrow
    cases hcall
    exact hV row hrow

/-- One call keeps the availability of every event exactly if the capacity it sets fits. -/
theorem keepsAvailability_iff {settings : Settings} {db : InventoryDb} {op : Call × Input UUID}
    (hpos : PositiveCapacity op.1) (hdb : DbInv db) (hn : NonNegative db) :
    KeepsAvailability settings db op ↔ FitsTaken db op := by
  refine ⟨fun h => ?_, fun h => h.keeps hpos hdb hn⟩
  obtain ⟨call, inp⟩ := op
  cases call with
  | adjustCapacity e n =>
    intro row hrow
    obtain rfl : row.eventId = e := db.versioned.pk_of_get hrow
    have hget : (serve settings db (.adjustCapacity row.eventId n, inp)).versioned.get row.eventId =
        some (row.adjusted n) := by
      rw [serve, adjust_existing settings inp n hrow, ← adjusted_eventId row n]
      exact get_set_inventory _ _
    have hav := h _ _ hget
    rw [available_eq, EventInventory.taken, adjusted_totalCapacity, adjusted_reservedCount,
      adjusted_confirmedCount] at hav
    exact sub_nonneg.1 hav
  | _ => trivial

/-- **Availability.** A serial run of calls with positive capacities leaves no event with more seats
taken than it has after any of its calls if and only if none of them sets the capacity of an
existing event row below the seats taken of it at that moment. -/
theorem available_nonneg (settings : Settings) (ops : List (Call × Input UUID))
    (hpos : ∀ op ∈ ops, PositiveCapacity op.1) :
    Along (serialStep settings) (KeepsAvailability settings) .empty ops ↔
      Along (serialStep settings) FitsTaken .empty ops := by
  refine along_iff_along (I := fun db => DbInv db ∧ NonNegative db)
    (C := fun _ op => PositiveCapacity op.1) ?_ ?_ ⟨accounted_empty.inv, nofun⟩
    (along_of_forall_mem hpos)
  · rintro db op db' ⟨hdb, -⟩ - hkeep hs
    cases hs
    exact ⟨dbInv_serve settings op hdb, hkeep⟩
  · rintro db op ⟨hdb, hn⟩ hc
    exact keepsAvailability_iff hc hdb hn

/-- What the environment answers in the runs below. -/
def anInput : Input UUID := ⟨0, ⟨100⟩, .ascending⟩

/-- Two seats, both held, and a capacity that leaves them. -/
def fittingRun : List (Call × Input UUID) :=
  [(.initializeInventory ⟨1⟩ 3, anInput), (.reserveSeats ⟨1⟩ ⟨2⟩ 2, anInput),
    (.adjustCapacity ⟨1⟩ 2, anInput)]

theorem fittingRun_nonneg :
    Along (serialStep .default) (KeepsAvailability .default) .empty fittingRun :=
  (available_nonneg .default fittingRun (by decide)).2 (by decide +kernel)

/-- Two seats, both held, and a capacity of one. -/
def overbookingRun : List (Call × Input UUID) :=
  [(.initializeInventory ⟨1⟩ 2, anInput), (.reserveSeats ⟨1⟩ ⟨2⟩ 2, anInput),
    (.adjustCapacity ⟨1⟩ 1, anInput)]

/-- **A capacity reduction can leave more seats held than the event has.** -/
theorem overbooked : (∀ op ∈ overbookingRun, PositiveCapacity op.1) ∧
    ∃ row, (serveAll .default overbookingRun).versioned.get ⟨1⟩ = some row ∧
      row.totalCapacity < row.reservedCount + row.confirmedCount ∧ row.available < 0 := by
  refine ⟨by decide, ⟨⟨1⟩, 1, 2, 0, 3⟩, ?_, by decide, by decide⟩
  decide +kernel

end EventSphere.Inventory
