import EventSphere.Inventory.Isolated

/-!
# Redelivered calls

The messages behind `initialize_inventory`, `confirm_reservation` and `release_reservation` can be
delivered again. What makes a second delivery harmless is a fact about the tables that the first one
leaves (`Settled`): the event row is there, the reservation is no longer pending, or it no longer
holds seats. Every call keeps such a fact (`Settled.serve`), because event rows are never deleted
and no reservation goes back, and a call that finds it returns and writes nothing
(`Settled.returns`).
-/

namespace EventSphere.Inventory

/-- What a call answers when it runs alone. -/
def reply (settings : Settings) (db : InventoryDb) (op : Call × Input UUID) :
    Outcome InventoryError Result :=
  ((op.1.body settings).atomically db op.2).1

/-- The answers to a sequence of calls, one at a time. -/
def replies (settings : Settings) :
    InventoryDb → List (Call × Input UUID) → List (Outcome InventoryError Result)
  | _, [] => []
  | db, op :: ops => reply settings db op :: replies settings (serve settings db op) ops

/-- The second call repeats the first: the same event with any capacity, or the same reservation
with either value of `expired`. -/
def Repeats : Call → Call → Prop
  | .initializeInventory e _, .initializeInventory e' _ => e' = e
  | .confirmReservation i, .confirmReservation i' => i' = i
  | .releaseReservation i _, .releaseReservation i' _ => i' = i
  | _, _ => False

/-- What the tables show of a call that has been served. -/
def Settled (db : InventoryDb) : Call → Prop
  | .initializeInventory e _ => e ∈ db.versioned.keys
  | .confirmReservation i => ∃ r, db.plain.get i = some r ∧ r.status ≠ .pending
  | .releaseReservation i _ =>
    ∃ r, db.plain.get i = some r ∧ r.status ≠ .pending ∧ r.status ≠ .confirmed
  | _ => True

section
variable {settings : Settings} {db V V' : InventoryDb} {call again : Call} {inp : Input UUID}

/-- What is settled for a call is settled for its repeat. -/
theorem Settled.repeats (h : Settled db call) (hc : Repeats call again) : Settled db again := by
  cases call <;> cases again <;> first | exact hc.elim | (cases hc; exact h)

/-! ## Every call keeps what is settled -/

/-- A written event row takes none away. -/
theorem settled_row {row : EventInventory} (h : Settled V call) :
    Settled ⟨V.versioned.set row, V.plain⟩ call := by
  cases call with
  | initializeInventory e n =>
    change e ∈ (V.versioned.set row).keys
    rw [Table.keys_set]
    exact Finset.mem_insert_of_mem h
  | _ => exact h

/-- A written reservation unsettles nothing if it keeps what was settled of the row it replaces. -/
theorem settled_reservation {r : Reservation} (h : Settled V call)
    (hr : ∀ cur, V.plain.get r.id = some cur →
      (cur.status ≠ .pending → r.status ≠ .pending) ∧
      (cur.status ≠ .pending ∧ cur.status ≠ .confirmed →
        r.status ≠ .pending ∧ r.status ≠ .confirmed)) :
    Settled ⟨V.versioned, V.plain.set r⟩ call := by
  -- the reservation under a key, before and after
  have hkeep : ∀ {i cur}, V.plain.get i = some cur →
      ∃ cur', (V.plain.set r).get i = some cur' ∧
        (cur.status ≠ .pending → cur'.status ≠ .pending) ∧
        (cur.status ≠ .pending ∧ cur.status ≠ .confirmed →
          cur'.status ≠ .pending ∧ cur'.status ≠ .confirmed) := by
    intro i cur hcur
    rw [Table.get_set]
    split
    · next he =>
      subst he
      exact ⟨r, rfl, hr cur hcur⟩
    · exact ⟨cur, hcur, id, id⟩
  cases call with
  | confirmReservation i =>
    obtain ⟨cur, hcur, hs⟩ := h
    obtain ⟨cur', hcur', h1, -⟩ := hkeep hcur
    exact ⟨cur', hcur', h1 hs⟩
  | releaseReservation i expired =>
    obtain ⟨cur, hcur, hs⟩ := h
    obtain ⟨cur', hcur', -, h2⟩ := hkeep hcur
    exact ⟨cur', hcur', h2 hs⟩
  | _ => exact h

/-- Every effect of every call keeps what is settled. -/
theorem Effect.settled {call' : Call} (h : Effect UpToDate V V' call') (hV : Settled V call) :
    Settled V' call := by
  cases h with
  | idle h => subst h; exact hV
  | create he h => subst h; exact settled_row hV
  | adjust hrow h => subst h; exact settled_row hV
  | reserve hrow hq hav hs hr h =>
    subst h
    refine settled_row (V := ⟨V.versioned, V.plain.set _⟩)
      (settled_reservation hV fun cur hcur => ?_)
    rw [hr] at hcur
    cases hcur
  | confirm hrow hq hs hcur hf hR h =>
    subst h
    obtain rfl : _ = _ := hR
    refine settled_row (V := ⟨V.versioned, V.plain.set _⟩)
      (settled_reservation hV fun cur' hcur' => ?_)
    cases hcur.symm.trans hcur'
    exact ⟨fun hn => absurd hs hn, fun hn => absurd hs hn.1⟩
  | @release _ row r _ expired hc hrow hq hs hcur hf hR h =>
    subst h
    obtain rfl : _ = _ := hR
    have hfree : releasedStatus expired ≠ .pending ∧ releasedStatus expired ≠ .confirmed := by
      cases expired <;> exact ⟨nofun, nofun⟩
    exact settled_row (V := ⟨V.versioned, V.plain.set _⟩)
      (settled_reservation hV fun _ _ => ⟨fun _ => hfree.1, fun _ => hfree⟩)

/-- **A call keeps what is settled.** -/
theorem Settled.serve (h : Settled db call) (hdb : DbInv db) (op : Call × Input UUID) :
    DbInv (serve settings db op) ∧ Settled (serve settings db op) call := by
  obtain ⟨hinv, hkeep⟩ := serve_rel settings op (T := fun V V' => Settled V call → Settled V' call)
    (fun _ => id) (fun h h' hV => h' (h hV)) Effect.settled hdb
  exact ⟨hinv, hkeep h⟩

/-- A run of calls keeps what is settled. -/
theorem Settled.serve_foldl (h : Settled db call) (hdb : DbInv db)
    (ops : List (Call × Input UUID)) :
    DbInv (ops.foldl (Inventory.serve settings) db) ∧
      Settled (ops.foldl (Inventory.serve settings) db) call := by
  induction ops generalizing db with
  | nil => exact ⟨hdb, h⟩
  | cons op ops ih =>
    obtain ⟨hdb', h'⟩ := h.serve hdb op
    exact ih h' hdb'

/-! ## The repeat -/

/-- A call that has returned has settled. -/
theorem settled_of_returned (hdb : DbInv db) {r : Result}
    (h : reply settings db (call, inp) = .returned r) :
    Settled (serve settings db (call, inp)) call := by
  unfold reply at h
  unfold Inventory.serve
  cases call with
  | initializeInventory e n =>
    cases hrow : db.versioned.get e with
    | some row =>
      rw [initialize_existing settings inp n hrow]
      exact Table.mem_of_get hrow
    | none =>
      rw [initialize_missing settings inp n hrow]
      exact Table.mem_of_get (get_set_inventory _ ⟨e, n, 0, 0, 1⟩)
  | confirmReservation i =>
    cases hr : db.plain.get i with
    | none => rw [confirm_missing settings inp hr] at h; cases h
    | some cur =>
      obtain rfl : cur.id = i := db.plain.pk_of_get hr
      by_cases hs : cur.status = .pending
      · obtain ⟨row, hrow⟩ := exists_eventRow hdb hr
        rw [confirm_pending settings inp hdb hr hs hrow]
        exact ⟨_, get_set_reservation _ { cur with status := .confirmed }, nofun⟩
      · rw [confirm_other settings inp hr hs]
        exact ⟨cur, hr, hs⟩
  | releaseReservation i expired =>
    cases hr : db.plain.get i with
    | none => rw [release_missing settings inp expired hr] at h; cases h
    | some cur =>
      obtain rfl : cur.id = i := db.plain.pk_of_get hr
      by_cases hs : cur.status ≠ .pending ∧ cur.status ≠ .confirmed
      · rw [release_other settings inp expired hr hs]
        exact ⟨cur, hr, hs⟩
      · have hs' : cur.status = .pending ∨ cur.status = .confirmed := by
          rwa [not_and_or, not_not, not_not] at hs
        obtain ⟨row, hrow⟩ := exists_eventRow hdb hr
        rw [release_active settings inp hdb expired hr hs' hrow]
        exact ⟨_, get_set_reservation _ { cur with status := releasedStatus expired },
          by cases expired <;> exact ⟨nofun, nofun⟩⟩
  | _ => trivial

/-- **A settled call returns and writes nothing.** -/
theorem Settled.returns (settings : Settings) (inp : Input UUID) (h : Settled db call)
    (hc : Repeats call again) :
    ∃ r, (again.body settings).atomically db inp = (.returned r, db) := by
  have h := h.repeats hc
  cases again with
  | initializeInventory e n =>
    obtain ⟨row, hrow⟩ := Table.exists_get h
    exact ⟨_, initialize_existing settings inp n hrow⟩
  | confirmReservation i =>
    obtain ⟨cur, hr, hs⟩ := h
    obtain rfl : cur.id = i := db.plain.pk_of_get hr
    exact ⟨_, confirm_other settings inp hr hs⟩
  | releaseReservation i expired =>
    obtain ⟨cur, hr, hs⟩ := h
    obtain rfl : cur.id = i := db.plain.pk_of_get hr
    exact ⟨_, release_other settings inp expired hr hs⟩
  | _ => cases call <;> exact hc.elim

end

/-- The answers to a run that is cut in two. -/
theorem replies_append (settings : Settings) (db : InventoryDb)
    (ops ops' : List (Call × Input UUID)) :
    replies settings db (ops ++ ops') =
      replies settings db ops ++ replies settings (ops.foldl (serve settings) db) ops' := by
  induction ops generalizing db with
  | nil => rfl
  | cons op ops ih => simp [replies, ih]

/-- **Duplicate deliveries are harmless.** In every serial run, repeating at any later point an
initialisation, a confirmation or a release that had returned returns too, and leaves the tables and
the answers of all that follows as they are without it. -/
theorem duplicate_tolerated (settings : Settings) (before between after : List (Call × Input UUID))
    (op again : Call × Input UUID) (hc : Repeats op.1 again.1) (r : Result)
    (hr : reply settings (serveAll settings before) op = .returned r) :
    serveAll settings (before ++ op :: between ++ again :: after) =
      serveAll settings (before ++ op :: between ++ after) ∧
    ∃ r' rest,
      replies settings .empty (before ++ op :: between ++ again :: after) =
        replies settings .empty (before ++ op :: between) ++ .returned r' :: rest ∧
      replies settings .empty (before ++ op :: between ++ after) =
        replies settings .empty (before ++ op :: between) ++ rest := by
  have hdb := (accounted_serveAll settings before).inv
  have hsettled := settled_of_returned hdb hr
  -- the tables where the repeat arrives
  set V := serveAll settings (before ++ op :: between) with hV
  have hV' : V = between.foldl (serve settings) (serve settings (serveAll settings before) op) := by
    simp [hV, serveAll, List.foldl_append]
  have hdb' := dbInv_serve settings op hdb
  have hs : Settled V op.1 := hV' ▸ (hsettled.serve_foldl hdb' between).2
  obtain ⟨r', hagain⟩ := hs.returns settings again.2 hc
  have hserve : serve settings V again = V := congrArg Prod.snd hagain
  have hreply : reply settings V again = .returned r' := congrArg Prod.fst hagain
  refine ⟨?_, r', replies settings V after, ?_, ?_⟩
  · have hcut : ∀ ops, serveAll settings (before ++ op :: between ++ ops) =
        ops.foldl (serve settings) V := fun ops => List.foldl_append ..
    rw [hcut, hcut, List.foldl_cons, hserve]
  · rw [replies_append]
    change _ ++ (reply settings V again :: replies settings (serve settings V again) after) = _
    rw [hreply, hserve]
  · rw [replies_append]
    rfl

/-- One seat of two, held. -/
def heldSeat : List (Call × Input UUID) :=
  [(.initializeInventory ⟨1⟩ 2, ⟨0, ⟨100⟩, .ascending⟩),
    (.reserveSeats ⟨1⟩ ⟨2⟩ 1, ⟨0, ⟨100⟩, .ascending⟩)]

/-- A confirmation, delivered again after the seat has been released and taken by somebody else. -/
theorem confirmation_redelivered :
    serveAll .default (heldSeat ++ (.confirmReservation ⟨100⟩, ⟨0, ⟨0⟩, .ascending⟩) ::
        [(.releaseReservation ⟨100⟩ false, ⟨0, ⟨0⟩, .ascending⟩)] ++
        (.confirmReservation ⟨100⟩, ⟨1, ⟨0⟩, .ascending⟩) ::
        [(.reserveSeats ⟨1⟩ ⟨3⟩ 2, ⟨1, ⟨101⟩, .ascending⟩)]) =
      serveAll .default (heldSeat ++ (.confirmReservation ⟨100⟩, ⟨0, ⟨0⟩, .ascending⟩) ::
        [(.releaseReservation ⟨100⟩ false, ⟨0, ⟨0⟩, .ascending⟩)] ++
        [(.reserveSeats ⟨1⟩ ⟨3⟩ 2, ⟨1, ⟨101⟩, .ascending⟩)]) :=
  (duplicate_tolerated .default heldSeat _ _ _ _ (by exact rfl)
    (.reservation ⟨⟨100⟩, ⟨1⟩, ⟨2⟩, 1, .confirmed, 600000000⟩) (by decide +kernel)).1

end EventSphere.Inventory
