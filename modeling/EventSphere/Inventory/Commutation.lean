import EventSphere.Base.Reordering
import EventSphere.Inventory.Isolated

/-!
# Confirmations and releases of different reservations commute

A confirmation or a release gives one reservation a status that depends on its old one only
(`Call.statusAfter`) and moves the counters and the version of its event row by what that makes of a
difference (`EventInventory.follow`). So the calls on one reservation are a function of their order,
and calls on different reservations commute, also when they share the event row: the moves are
additions (`restate_comm`). `order_independent` is what follows for whole sequences.
-/

namespace EventSphere.Inventory

/-- The reservation that a confirmation or a release is about. -/
def Call.reservation : Call → Option UUID
  | .confirmReservation i => some i
  | .releaseReservation i _ => some i
  | _ => none

/-- The status that a confirmation or a release leaves a reservation in. -/
def Call.statusAfter : Call → ReservationStatus → ReservationStatus
  | .confirmReservation _, .pending => .confirmed
  | .releaseReservation _ expired, .pending => releasedStatus expired
  | .releaseReservation _ expired, .confirmed => releasedStatus expired
  | _, s => s

/-- The seats of a reservation that a counter holds while it has the status `s`. -/
def heldIn (counted s : ReservationStatus) (r : Reservation) : ℤ :=
  if s = counted then r.quantity else 0

/-- An event row after one of its reservations has got the status `s`. -/
def EventInventory.follow (row : EventInventory) (r : Reservation) (s : ReservationStatus) :
    EventInventory :=
  if row.eventId = r.eventId then
    { row with
      reservedCount := row.reservedCount + (heldIn .pending s r - heldIn .pending r.status r)
      confirmedCount := row.confirmedCount + (heldIn .confirmed s r - heldIn .confirmed r.status r)
      version := row.version + if s = r.status then 0 else 1 }
  else row

@[simp] theorem follow_eventId (row : EventInventory) (r : Reservation) (s : ReservationStatus) :
    (row.follow r s).eventId = row.eventId := by
  unfold EventInventory.follow; split <;> rfl

/-- The tables after the reservation `i`, if there is one, has got the status that `f` makes of its
own. -/
def restate (f : ReservationStatus → ReservationStatus) (i : UUID) (db : InventoryDb) :
    InventoryDb :=
  match db.plain.get i with
  | none => db
  | some r =>
    ⟨db.versioned.mapRows (fun row => row.follow r (f r.status)) fun _ => follow_eventId ..,
      db.plain.set { r with status := f r.status }⟩

section
variable {db : InventoryDb} {r r' : Reservation} {row : EventInventory} {i j : UUID}
  {s s' : ReservationStatus} {f g : ReservationStatus → ReservationStatus}

theorem restate_none (hr : db.plain.get i = none) : restate f i db = db := by
  rw [restate, hr]

theorem restate_some (hr : db.plain.get i = some r) :
    restate f i db =
      ⟨db.versioned.mapRows (fun row => row.follow r (f r.status)) fun _ => follow_eventId ..,
        db.plain.set { r with status := f r.status }⟩ := by
  rw [restate, hr]

/-! ## What a call does, as a change of status -/

/-- A reservation that keeps its status leaves every event row as it is. -/
theorem follow_self (row : EventInventory) (r : Reservation) : row.follow r r.status = row := by
  unfold EventInventory.follow
  split
  · simp
  · rfl

/-- Only the event row of the reservation is another one. -/
theorem set_follow (hrow : db.versioned.get r.eventId = some row) :
    db.versioned.set (row.follow r s) =
      db.versioned.mapRows (fun row => row.follow r s) fun _ => follow_eventId .. := by
  have he : row.eventId = r.eventId := db.versioned.pk_of_get hrow
  ext k : 1
  rw [Table.get_set, pk_inventory, follow_eventId, he, Table.get_mapRows]
  split
  · next hk => rw [hk, hrow]; rfl
  · next hk =>
    cases hget : db.versioned.get k with
    | none => rfl
    | some other =>
      obtain rfl : other.eventId = k := db.versioned.pk_of_get hget
      rw [Option.map_some, EventInventory.follow, if_neg hk]

/-- The confirmation of a pending reservation moves its seats to the sold ones. -/
theorem follow_confirmed (he : row.eventId = r.eventId) (hs : r.status = .pending) :
    row.follow r .confirmed = bump (row.moveSeats r.quantity) := by
  simp [EventInventory.follow, he, hs, heldIn, EventInventory.moveSeats, bump_inventory]
  omega

/-- The release of a reservation that holds seats gives them back. -/
theorem follow_released (expired : Bool) (he : row.eventId = r.eventId)
    (hs : r.status = .pending ∨ r.status = .confirmed) :
    row.follow r (releasedStatus expired) = bump (row.giveBack r) := by
  rcases hs with hs | hs <;> cases expired <;>
    simp [EventInventory.follow, he, hs, heldIn, EventInventory.giveBack, bump_inventory,
      releasedStatus, Int.sub_eq_add_neg]

/-- A reservation that keeps its status leaves the tables as they are. -/
theorem restate_self (hr : db.plain.get i = some r) (hf : f r.status = r.status) :
    restate f i db = db := by
  have hset : db.plain.set r = db.plain := by
    obtain rfl : r.id = i := db.plain.pk_of_get hr
    exact Table.set_of_get hr
  rw [restate_some hr, hf]
  ext1
  · ext k : 1
    cases hget : db.versioned.get k with
    | none => simp [hget]
    | some row => simp [hget, follow_self]
  · exact hset

/-- **An isolated confirmation or release is a change of status.** -/
theorem serve_eq_restate (settings : Settings) (inp : Input UUID) (h : DbInv db) {call : Call}
    (hc : call.reservation = some i) :
    serve settings db (call, inp) = restate call.statusAfter i db := by
  cases hr : db.plain.get i with
  | none =>
    rw [restate_none hr]
    cases call with
    | confirmReservation j =>
      cases hc
      exact congrArg Prod.snd (confirm_missing settings inp hr)
    | releaseReservation j expired =>
      cases hc
      exact congrArg Prod.snd (release_missing settings inp expired hr)
    | _ => cases hc
  | some r =>
    obtain ⟨row, hrow⟩ := exists_eventRow h hr
    have he : row.eventId = r.eventId := db.versioned.pk_of_get hrow
    cases call with
    | confirmReservation j =>
      cases hc
      by_cases hs : r.status = .pending
      · have hafter : (Call.confirmReservation i).statusAfter r.status = .confirmed := by
          rw [hs]; rfl
        rw [restate_some hr, hafter, ← set_follow hrow, follow_confirmed he hs]
        exact congrArg Prod.snd (confirm_pending settings inp h hr hs hrow)
      · have hafter : (Call.confirmReservation i).statusAfter r.status = r.status := by
          unfold Call.statusAfter
          split <;> simp_all
        rw [restate_self hr hafter]
        exact congrArg Prod.snd (confirm_other settings inp hr hs)
    | releaseReservation j expired =>
      cases hc
      by_cases hs : r.status = .pending ∨ r.status = .confirmed
      · have hafter : (Call.releaseReservation i expired).statusAfter r.status =
            releasedStatus expired := by
          rcases hs with hs | hs <;> rw [hs] <;> rfl
        rw [restate_some hr, hafter, ← set_follow hrow, follow_released expired he hs]
        exact congrArg Prod.snd (release_active settings inp h expired hr hs hrow)
      · rw [not_or] at hs
        have hafter : (Call.releaseReservation i expired).statusAfter r.status = r.status := by
          unfold Call.statusAfter
          split <;> simp_all
        rw [restate_self hr hafter]
        exact congrArg Prod.snd (release_other settings inp expired hr hs)
    | _ => cases hc

/-! ## Commutation -/

/-- An event row follows two reservations in any order. -/
theorem follow_comm (row : EventInventory) :
    (row.follow r s).follow r' s' = (row.follow r' s').follow r s := by
  by_cases h : row.eventId = r.eventId
  · by_cases h' : row.eventId = r'.eventId
    · simp only [EventInventory.follow, if_pos h, if_pos h', EventInventory.mk.injEq, true_and]
      exact ⟨add_right_comm .., add_right_comm .., add_right_comm ..⟩
    · simp only [EventInventory.follow, if_pos h, if_neg h']
  · by_cases h' : row.eventId = r'.eventId
    · simp only [EventInventory.follow, if_neg h, if_pos h']
    · simp only [EventInventory.follow, if_neg h, if_neg h']

/-- Different reservations change their status in any order. -/
theorem restate_comm (hij : i ≠ j) :
    restate f i (restate g j db) = restate g j (restate f i db) := by
  cases hi : db.plain.get i with
  | none =>
    have hi' : (restate g j db).plain.get i = none := by
      cases hj : db.plain.get j with
      | none => rwa [restate_none hj]
      | some r' =>
        obtain rfl : r'.id = j := db.plain.pk_of_get hj
        rw [restate_some hj, Table.get_set, pk_reservation, if_neg hij, hi]
    rw [restate_none hi, restate_none hi']
  | some r =>
    obtain rfl : r.id = i := db.plain.pk_of_get hi
    cases hj : db.plain.get j with
    | none =>
      have hj' : (restate f r.id db).plain.get j = none := by
        rw [restate_some hi, Table.get_set, pk_reservation, if_neg hij.symm, hj]
      rw [restate_none hj, restate_none hj']
    | some r' =>
      obtain rfl : r'.id = j := db.plain.pk_of_get hj
      have hi' : (restate g r'.id db).plain.get r.id = some r := by
        rw [restate_some hj, Table.get_set, pk_reservation, if_neg hij, hi]
      have hj' : (restate f r.id db).plain.get r'.id = some r' := by
        rw [restate_some hi, Table.get_set, pk_reservation, if_neg hij.symm, hj]
      rw [restate_some hi', restate_some hj', restate_some hi, restate_some hj]
      ext k : 2
      · cases hk : db.versioned.get k with
        | none => simp [hk]
        | some row => simp [hk, follow_comm]
      · simp only [Table.get_set, pk_reservation]
        by_cases hk : k = r.id
        · subst hk; simp [hij]
        · simp [hk]

end

/-- **Order independence across reservations.** From every reachable state of the service, a
sequence of confirmations and releases, each a transaction of its own, leads to the same tables as
every permutation of it that keeps the order of the calls on the same reservation: the same status
of every reservation and the same counters and version of every event row. -/
theorem order_independent (settings : Settings) (as : List (Action Call UUID)) (w : InventoryWorld)
    (hw : run (step settings) .init as = some w) (ops ops' : List (Call × Input UUID))
    (hops : ∀ op ∈ ops, op.1.reservation ≠ none)
    (h : Reorders (fun op : Call × Input UUID => op.1.reservation) ops ops') :
    ops.foldl (serve settings) w.db = ops'.foldl (serve settings) w.db := by
  have hinv : DbInv w.db :=
    (run_inv (fun h hs => Coherent.step h hs) hw (World.inv_init : Coherent settings _)).db
  refine h.foldl_eq (I := DbInv) (P := fun op => op.1.reservation ≠ none) ?_ ?_ hops hinv
  · intro db op hdb _
    exact dbInv_serve settings op hdb
  · rintro db ⟨a, inp⟩ ⟨b, inp'⟩ hdb ha hb hab
    obtain ⟨i, hi⟩ := Option.ne_none_iff_exists'.1 ha
    obtain ⟨j, hj⟩ := Option.ne_none_iff_exists'.1 hb
    have hij : j ≠ i := by
      rintro rfl
      exact hab (hi.trans hj.symm)
    have ha' : DbInv (serve settings db (a, inp)) := dbInv_serve settings _ hdb
    have hb' : DbInv (serve settings db (b, inp')) := dbInv_serve settings _ hdb
    calc serve settings (serve settings db (a, inp)) (b, inp')
        = restate b.statusAfter j (restate a.statusAfter i db) := by
          rw [serve_eq_restate settings inp' ha' hj, serve_eq_restate settings inp hdb hi]
      _ = restate a.statusAfter i (restate b.statusAfter j db) := restate_comm hij
      _ = serve settings (serve settings db (b, inp')) (a, inp) := by
          rw [serve_eq_restate settings inp hb' hi, serve_eq_restate settings inp' hdb hj]

/-- A confirmation and the release of another reservation of the event, in either order. -/
theorem order_independent_pair : ∃ w, run (step .default) .init
      ([.begin (.initializeInventory ⟨1⟩ 5)] ++ advances 0 0 4 ++
        [.begin (.reserveSeats ⟨1⟩ ⟨2⟩ 1)] ++ advances 0 1 7 ++
        [.begin (.reserveSeats ⟨1⟩ ⟨3⟩ 2)] ++ advances 0 2 7) = some w ∧
    w.db.plain.keys = {⟨101⟩, ⟨102⟩} ∧
    [(Call.confirmReservation ⟨101⟩, (⟨0, ⟨0⟩, .ascending⟩ : Input UUID)),
        (.releaseReservation ⟨102⟩ true, ⟨0, ⟨0⟩, .ascending⟩)].foldl (serve .default) w.db =
      [(Call.releaseReservation ⟨102⟩ true, (⟨0, ⟨0⟩, .ascending⟩ : Input UUID)),
        (.confirmReservation ⟨101⟩, ⟨0, ⟨0⟩, .ascending⟩)].foldl (serve .default) w.db := by
  obtain ⟨w, hw, hkeys⟩ : ∃ w, run (step .default) .init
      ([.begin (.initializeInventory ⟨1⟩ 5)] ++ advances 0 0 4 ++
        [.begin (.reserveSeats ⟨1⟩ ⟨2⟩ 1)] ++ advances 0 1 7 ++
        [.begin (.reserveSeats ⟨1⟩ ⟨3⟩ 2)] ++ advances 0 2 7) = some w ∧
      w.db.plain.keys = {⟨101⟩, ⟨102⟩} := exists_of_run (by decide +kernel)
  exact ⟨w, hw, hkeys, order_independent .default _ w hw _ _ (by decide)
    (.swap (by decide) [] [])⟩

end EventSphere.Inventory
