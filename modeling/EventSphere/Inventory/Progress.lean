import EventSphere.Inventory.Changes
import EventSphere.UnitOfWork.Progress

/-!
# No transaction waits for ever

Every method but the sweep flushes once and commits, so it waits for rows only while it holds none.
The sweep flushes after each reservation and keeps the rows until its end: two sweeps that find
their reservations in different orders can wait for each other (`sweeps_deadlock`), and nothing else
can (`deadlock_only_sweeps`). Every call ends after a number of operations that is known beforehand
(`Call.operations`), so the transactions that run come to an end (`drains`).
-/

namespace EventSphere.Inventory

/-! ## What the methods hold -/

/-- A flush with nobody catching its exceptions. -/
theorem flush_writesLast {α : Type} {p : InventoryM α} (h : p.ReadsOnly) :
    (flush >>= fun _ => p).WritesLast :=
  ⟨h, fun _ => trivial⟩

theorem initializeInventory_writesLast (e : UUID) (n : ℤ) :
    (initializeInventory e n).WritesLast := by
  intro row
  cases row with
  | none => exact flush_writesLast trivial
  | some row => trivial

theorem adjustCapacity_writesLast (e : UUID) (n : ℤ) : (adjustCapacity e n).WritesLast := by
  intro row
  cases row with
  | none => trivial
  | some row => exact flush_writesLast fun _ => trivial

/-- Every attempt of `reserve` gives up what it holds before the next one. -/
theorem reserveAttempts_writesLast (e o : UUID) (q ttl : ℤ) (maxRetries n : ℕ) :
    (reserveAttempts e o q ttl maxRetries n).WritesLast := by
  induction n with
  | zero => trivial
  | succ n ih =>
    intro row
    cases row with
    | none => trivial
    | some row =>
      show (ite (row.available < q) _ _ : InventoryM Reservation).WritesLast
      split
      · trivial
      · refine fun now id => ⟨trivial, fun err => ?_⟩
        cases err with
        | staleData => exact ih
        | integrity => trivial

theorem reserve_writesLast (e o : UUID) (q ttl : ℤ) (maxRetries : ℕ) :
    (reserve e o q ttl maxRetries).WritesLast := by
  unfold reserve
  split
  · trivial
  · exact reserveAttempts_writesLast ..

theorem confirm_writesLast (i : UUID) : (confirm i).WritesLast := by
  intro r
  cases r with
  | none => trivial
  | some r =>
    show (ite (r.status ≠ .pending) _ _ : InventoryM Reservation).WritesLast
    split
    · trivial
    · intro row
      cases row with
      | none => exact flush_writesLast trivial
      | some row => exact flush_writesLast trivial

theorem release_writesLast (i : UUID) (expired : Bool) : (release i expired).WritesLast := by
  intro r
  cases r with
  | none => trivial
  | some r =>
    show (ite (r.status ≠ .pending ∧ r.status ≠ .confirmed) _ _ : InventoryM Reservation).WritesLast
    split
    · trivial
    · intro row
      cases row with
      | none => exact flush_writesLast trivial
      | some row => exact flush_writesLast trivial

/-- Every method but the sweep only reads after its flush. -/
theorem Call.body_writesLast (settings : Settings) {call : Call}
    (h : call ≠ .sweepExpiredReservations) :
    (call.body settings).WritesLast := by
  cases call with
  | initializeInventory e n =>
    exact (initializeInventory_writesLast e n).bind fun _ => ⟨trivial, trivial⟩
  | adjustCapacity e n => exact (adjustCapacity_writesLast e n).bind fun _ => ⟨trivial, trivial⟩
  | getAvailability e =>
    intro row
    cases row <;> trivial
  | reserveSeats e o q => exact (reserve_writesLast ..).bind fun _ => ⟨trivial, trivial⟩
  | confirmReservation i => exact (confirm_writesLast i).bind fun _ => ⟨trivial, trivial⟩
  | releaseReservation i expired =>
    exact (release_writesLast i expired).bind fun _ => ⟨trivial, trivial⟩
  | sweepExpiredReservations => exact absurd rfl h

/-! ## How long the methods take -/

/-- A sweep returns at most as many reservations as its query does. -/
def Result.Short (res : Result) : Prop := ∀ rs, res = .reservations rs → rs.length ≤ sweepLimit

/-- The most operations that a call needs. -/
def Call.operations (settings : Settings) : Call → ℕ
  | .initializeInventory .. => 4
  | .adjustCapacity .. => 5
  | .getAvailability _ => 2
  | .reserveSeats .. => 7 * settings.optimisticRetryAttempts + 1
  | .confirmReservation _ | .releaseReservation .. => 6
  | .sweepExpiredReservations => 5 * sweepLimit + 3

/-- A flush with nobody catching its exceptions is one operation. -/
theorem flush_endsIn {α : Type} {P : α → Prop} {p : InventoryM α} {n : ℕ} (h : p.EndsIn P n) :
    (flush >>= fun _ => p).EndsIn P (n + 1) := by
  have := h.pos
  obtain ⟨n, rfl⟩ : ∃ m, n = m + 1 := ⟨n - 1, by omega⟩
  intro err
  cases err with
  | none => exact h
  | some err => trivial

theorem initializeInventory_endsIn (e : UUID) (n : ℤ) :
    (initializeInventory e n).EndsIn (fun _ => True) 4 := by
  intro row
  cases row with
  | none => exact flush_endsIn (n := 1) trivial
  | some row => trivial

theorem adjustCapacity_endsIn (e : UUID) (n : ℤ) :
    (adjustCapacity e n).EndsIn (fun _ => True) 5 := by
  intro row
  cases row with
  | none => trivial
  | some row => exact flush_endsIn (n := 2) fun _ => trivial

/-- Every attempt of `reserve` takes seven operations, if it fails. -/
theorem reserveAttempts_endsIn (e o : UUID) (q ttl : ℤ) (maxRetries n : ℕ) :
    (reserveAttempts e o q ttl maxRetries n).EndsIn (fun _ => True) (7 * n + 1) := by
  induction n with
  | zero => trivial
  | succ n ih =>
    intro row
    cases row with
    | none => trivial
    | some row =>
      show (ite (row.available < q) _ _ : InventoryM Reservation).EndsIn _ (7 * n + 1 + 6)
      split
      · trivial
      · intro now id err
        cases err with
        | none => trivial
        | some err =>
          cases err with
          | staleData => exact ih
          | integrity => trivial

theorem reserve_endsIn (e o : UUID) (q ttl : ℤ) (maxRetries : ℕ) :
    (reserve e o q ttl maxRetries).EndsIn (fun _ => True) (7 * maxRetries + 1) := by
  unfold reserve
  split
  · trivial
  · exact reserveAttempts_endsIn ..

theorem confirm_endsIn (i : UUID) : (confirm i).EndsIn (fun _ => True) 6 := by
  intro r
  cases r with
  | none => trivial
  | some r =>
    show (ite (r.status ≠ .pending) _ _ : InventoryM Reservation).EndsIn _ 5
    split
    · trivial
    · intro row
      cases row with
      | none => exact flush_endsIn (n := 2) trivial
      | some row => exact flush_endsIn (n := 1) trivial

theorem release_endsIn (i : UUID) (expired : Bool) :
    (release i expired).EndsIn (fun _ => True) 6 := by
  intro r
  cases r with
  | none => trivial
  | some r =>
    show (ite (r.status ≠ .pending ∧ r.status ≠ .confirmed) _ _ : InventoryM Reservation).EndsIn _ 5
    split
    · trivial
    · intro row
      cases row with
      | none => exact flush_endsIn (n := 2) trivial
      | some row => exact flush_endsIn (n := 1) trivial

/-- The loop of the sweep releases one reservation after the other. -/
theorem releaseAll_endsIn (rs : List Reservation) :
    (releaseAll rs).EndsIn (fun rs' => rs'.length = rs.length) (5 * rs.length + 1) := by
  induction rs with
  | nil => exact rfl
  | cons r rs ih =>
    have hrest : ∀ released : Reservation, (releaseAll rs >>= fun rs' =>
        (.ret (released :: rs') : InventoryM (List Reservation))).EndsIn
          (fun rs' => rs'.length = (r :: rs).length) (5 * rs.length + 1) :=
      fun released => ih.bind Nat.one_pos fun rs' hlen => congrArg (· + 1) hlen
    have h := (release_endsIn r.id true).bind (Nat.succ_pos _) fun released _ => hrest released
    have hle : 5 + (5 * rs.length + 1) ≤ 5 * (r :: rs).length + 1 := by
      rw [List.length_cons]
      omega
    exact h.mono (fun _ => id) hle

theorem sweep_endsIn :
    sweepExpiredReservations.EndsIn (fun rs => rs.length ≤ sweepLimit) (5 * sweepLimit + 3) := by
  intro now rs hlen
  have hle : 5 * rs.length + 1 ≤ 5 * sweepLimit + 1 := by omega
  exact (releaseAll_endsIn rs).mono (fun rs' hrs' => hrs'.trans_le hlen) hle

/-- **Every call ends after a number of operations that is known beforehand.** -/
theorem Call.body_endsIn (settings : Settings) (call : Call) :
    (call.body settings).EndsIn Result.Short (call.operations settings) := by
  -- the result of a method that returns no reservations
  have hshort : ∀ {α : Type} {p : InventoryM α} {n : ℕ} {f : α → Result},
      (∀ v rs, f v ≠ .reservations rs) → p.EndsIn (fun _ => True) (n + 1) →
      (p >>= fun v => (.ret (f v) : InventoryM Result)).EndsIn Result.Short (n + 1) :=
    fun hf h => h.bind Nat.one_pos fun v _ rs he => absurd he (hf v rs)
  cases call with
  | initializeInventory e n => exact hshort nofun (initializeInventory_endsIn e n)
  | adjustCapacity e n => exact hshort nofun (adjustCapacity_endsIn e n)
  | getAvailability e =>
    intro row
    cases row with
    | none => trivial
    | some row => exact nofun
  | reserveSeats e o q => exact hshort nofun (reserve_endsIn ..)
  | confirmReservation i => exact hshort nofun (confirm_endsIn i)
  | releaseReservation i expired => exact hshort nofun (release_endsIn i expired)
  | sweepExpiredReservations =>
    refine sweep_endsIn.bind Nat.one_pos fun rs hlen rs' he => ?_
    cases he
    exact hlen

/-! ## Deadlocks -/

variable {settings : Settings} {w w' : InventoryWorld}

/-- Two sweeps run, each with rows that it has written. -/
def SweepsHold (w : InventoryWorld) : Prop :=
  ∃ t₁ t₂ : ℕ, t₁ ≠ t₂ ∧ w.Running t₁ .sweepExpiredReservations ∧
    w.Running t₂ .sweepExpiredReservations ∧ w.writesOf t₁ ≠ .empty ∧ w.writesOf t₂ ≠ .empty

/-- Some transaction can run its next operation, whatever it is answered. -/
def Moving (settings : Settings) (w : InventoryWorld) : Prop :=
  ∃ t, (∃ call, w.Running t call) ∧ ∀ inp, ∃ w', step settings w (.advance t inp) = some w'

/-- The transactions of a run are polite, all but the sweeps. -/
theorem allPolite_run {as : List (Action Call UUID)} (hr : run (step settings) .init as = some w) :
    w.AllPolite (· = .sweepExpiredReservations) :=
  run_inv (I := World.AllPolite (· = .sweepExpiredReservations))
    (fun h hs => h.step (fun _ hcall => Call.body_writesLast settings hcall) hs) hr nofun

/-- **Only sweeps deadlock.** After every run of interleaved calls, if a transaction runs, then one
can run its next operation, or two sweeps hold rows at the same time. -/
theorem deadlock_only_sweeps (settings : Settings) (as : List (Action Call UUID))
    (w : InventoryWorld)
    (hr : run (step settings) .init as = some w) (t : ℕ) (call : Call) (ht : w.Running t call) :
    Moving settings w ∨ SweepsHold w := by
  rcases (allPolite_run hr).progress (Call.body settings) ht with
    ⟨t', call', ht', hready⟩ | ⟨t₁, t₂, _, _, hne, h1, h2, rfl, rfl, hw1, hw2⟩
  · exact .inl ⟨t', ⟨call', ht'⟩, hready⟩
  · exact .inr ⟨t₁, t₂, hne, h1, h2, hw1, hw2⟩

/-- The call that a transaction runs. -/
def runningCall (w : InventoryWorld) (t : ℕ) : Option Call :=
  match w.txs[t]? with
  | some (.running call _ _) => some call
  | some (.done ..) | none => none

theorem runningCall_eq_some {t : ℕ} {call : Call} :
    runningCall w t = some call ↔ w.Running t call := by
  unfold runningCall World.Running
  split
  · next ht => simp [ht]
  · next ht => simp [ht]
  · next ht => simp [ht]

/-- Two bookings of one seat, both before their flush. -/
def twoReserving : List (Action Call UUID) :=
  [.begin (.initializeInventory ⟨1⟩ 1)] ++ advances 0 0 4 ++
  [.begin (.reserveSeats ⟨1⟩ ⟨7⟩ 1), .begin (.reserveSeats ⟨1⟩ ⟨8⟩ 1)] ++ advances 0 1 6 ++
  advances 0 2 5

/-- One of them has flushed and the other one waits for the event row, so a transaction can move. -/
theorem reserving_moving : ∃ w, run (step .default) .init twoReserving = some w ∧
    (step .default w (.advance 2 ⟨0, ⟨102⟩, .ascending⟩)).isNone = true ∧ Moving .default w := by
  obtain ⟨w, hs, hwaits, h2, hone⟩ : ∃ w, run (step .default) .init twoReserving = some w ∧
      (step .default w (.advance 2 ⟨0, ⟨102⟩, .ascending⟩)).isNone = true ∧
      runningCall w 2 = some (.reserveSeats ⟨1⟩ ⟨8⟩ 1) ∧
      ∀ t < w.txs.length, runningCall w t ≠ some .sweepExpiredReservations :=
    exists_of_run (by decide +kernel)
  refine ⟨w, hs, hwaits, ?_⟩
  rcases deadlock_only_sweeps .default _ w hs 2 _ (runningCall_eq_some.1 h2) with
    hmoving | ⟨t₁, -, -, h1, -⟩
  · exact hmoving
  · obtain ⟨p, k, hx⟩ := id h1
    exact absurd (runningCall_eq_some.2 h1) (hone t₁ (List.getElem?_eq_some_iff.1 hx).1)

/-- The scan order of a database that goes through its rows backwards. -/
def backwards : ScanOrder UUID where
  order s := (ScanOrder.ascending.order s).reverse
  nodup s := List.nodup_reverse.2 (ScanOrder.ascending.nodup s)
  mem_order := List.mem_reverse.trans ScanOrder.ascending.mem_order

/-- Transaction `t` runs `n` operations of a sweep, long after every reservation has expired. -/
def sweepAdvances (scan : ScanOrder UUID) (t n : ℕ) : List (Action Call UUID) :=
  List.replicate n (.advance t ⟨10 ^ 9, ⟨100 + t⟩, scan⟩)

/-- Two events with an expired reservation each, and two sweeps that find the reservations in
opposite orders. Each of them has released its first one. -/
def crossingSweeps : List (Action Call UUID) :=
  [.begin (.initializeInventory ⟨1⟩ 1)] ++ advances 0 0 4 ++
  [.begin (.initializeInventory ⟨2⟩ 1)] ++ advances 0 1 4 ++
  [.begin (.reserveSeats ⟨1⟩ ⟨7⟩ 1)] ++ advances 0 2 7 ++
  [.begin (.reserveSeats ⟨2⟩ ⟨8⟩ 1)] ++ advances 0 3 7 ++
  [.begin .sweepExpiredReservations, .begin .sweepExpiredReservations] ++
  sweepAdvances .ascending 4 11 ++ sweepAdvances backwards 5 11

/-- No transaction that runs can run its next operation. -/
def stuck (settings : Settings) (w : InventoryWorld) : Bool :=
  (List.range w.txs.length).all fun t =>
    (runningCall w t).isNone || (step settings w (.advance t ⟨0, ⟨0⟩, .ascending⟩)).isNone

theorem not_moving_of_stuck (h : stuck settings w = true) : ¬ Moving settings w := by
  rintro ⟨t, ⟨call, ht⟩, hready⟩
  obtain ⟨p, k, hx⟩ := id ht
  have hwaits := List.all_eq_true.1 h t (List.mem_range.2 (List.getElem?_eq_some_iff.1 hx).1)
  obtain ⟨w', hs⟩ := hready ⟨0, ⟨0⟩, .ascending⟩
  rw [runningCall_eq_some.2 ht, hs] at hwaits
  cases hwaits

theorem crossingSweeps_stuck : ∃ w, run (step .default) .init crossingSweeps = some w ∧
    (∀ t ∈ [4, 5], runningCall w t = some .sweepExpiredReservations ∧
      (w.writesOf t).versioned.keys.card = 1) ∧ stuck .default w = true :=
  exists_of_run (by decide +kernel)

/-- Sweeps do deadlock: each waits for the row of the other's first reservation. -/
theorem sweeps_deadlock : ∃ w, run (step .default) .init crossingSweeps = some w ∧
    SweepsHold w ∧ ¬ Moving .default w := by
  obtain ⟨w, hs, hsweeps, hstuck⟩ := crossingSweeps_stuck
  have hold : ∀ t ∈ [4, 5], w.Running t .sweepExpiredReservations ∧ w.writesOf t ≠ .empty := by
    intro t ht
    obtain ⟨hcall, hcard⟩ := hsweeps t ht
    refine ⟨runningCall_eq_some.1 hcall, fun he => ?_⟩
    rw [he] at hcard
    cases hcard
  obtain ⟨h4, hw4⟩ := hold 4 (by simp)
  obtain ⟨h5, hw5⟩ := hold 5 (by simp)
  exact ⟨w, hs, ⟨4, 5, by decide, h4, h5, hw4, hw5⟩, not_moving_of_stuck hstuck⟩

/-! ## All work ends -/

/-- The operations that a transaction has left at most. -/
def operationsLeft (settings : Settings) (w : InventoryWorld) (t : ℕ) : ℕ :=
  match w.txs[t]? with
  | some (.running call _ _) => call.operations settings
  | some (.done ..) | none => 0

/-- The transactions of a run have the operations left that their calls start with. -/
theorem left_run {as : List (Action Call UUID)} (hr : run (step settings) .init as = some w) :
    w.Left (fun _ => Result.Short) (operationsLeft settings w) := by
  have h : w.Bounded (fun _ => Result.Short) (Call.operations settings) :=
    run_inv (I := World.Bounded (fun _ => Result.Short) (Call.operations settings))
      (fun h hs => h.step (Call.body_endsIn settings) hs) hr ⟨nofun, nofun⟩
  intro t call p k ht
  rw [operationsLeft, ht]
  exact h.running ht

/-- Without new calls, what runs after a run was running before it. -/
theorem running_of_run {bs : List (Action Call UUID)} {t : ℕ} {call : Call}
    (hbs : ∀ b ∈ bs, b.arriving = none) (hr : run (step settings) w bs = some w')
    (ht : w'.Running t call) : w.Running t call := by
  induction bs generalizing w with
  | nil => cases hr; exact ht
  | cons b bs ih =>
    obtain ⟨w₁, hs, hr⟩ := run_cons.1 hr
    obtain ⟨p, k, ht⟩ := ih (fun c hc => hbs c (.tail _ hc)) hr
    rcases World.running_or_arriving hs ht with hold | ⟨ha, -⟩
    · exact hold
    · rw [hbs b (.head _)] at ha
      cases ha

/-- **All work ends.** After every run of interleaved calls in which at most one sweep is still
running: without new calls, no more steps are possible than the calls that run have operations, and
where none is possible any more, every call has ended. -/
theorem drains (settings : Settings) (as : List (Action Call UUID)) (w : InventoryWorld)
    (hr : run (step settings) .init as = some w)
    (hone : ∀ t₁ t₂, w.Running t₁ .sweepExpiredReservations →
      w.Running t₂ .sweepExpiredReservations → t₁ = t₂)
    (bs : List (Action Call UUID)) (hbs : ∀ b ∈ bs, b.arriving = none) (w' : InventoryWorld)
    (hr' : run (step settings) w bs = some w') :
    bs.length ≤ ∑ t ∈ Finset.range w.txs.length, operationsLeft settings w t ∧
    ((∀ t inp, step settings w' (.advance t inp) = none) →
      ∀ t call, ¬ w'.Running t call) := by
  refine ⟨World.work_le (left_run hr) hbs hr', fun hstuck t call ht => ?_⟩
  have hall : run (step settings) .init (as ++ bs) = some w' := run_append.2 ⟨w, hr, hr'⟩
  rcases (allPolite_run hall).progress (Call.body settings) ht with
    ⟨t', -, -, hready⟩ | ⟨t₁, t₂, _, _, hne, h1, h2, rfl, rfl, -⟩
  · obtain ⟨w'', hs⟩ := hready ⟨0, ⟨0⟩, .ascending⟩
    cases hs.symm.trans (hstuck t' _)
  · exact hne (hone t₁ t₂ (running_of_run hbs hr' h1) (running_of_run hbs hr' h2))

/-- The two bookings end. -/
theorem reserving_drains : ∃ w w', run (step .default) .init twoReserving = some w ∧
    run (step .default) w (advances 0 1 1 ++ advances 0 2 4) = some w' ∧
    ∀ t call, ¬ w'.Running t call := by
  obtain ⟨w, hs, hone, hw⟩ : ∃ w, run (step .default) .init twoReserving = some w ∧
      (∀ t < w.txs.length, runningCall w t ≠ some .sweepExpiredReservations) ∧
      (run (step .default) w (advances 0 1 1 ++ advances 0 2 4)).any
        (fun w' => decide (∀ t < w'.txs.length, runningCall w' t = none)) = true :=
    exists_of_run (by decide +kernel)
  obtain ⟨w', hs', hended⟩ := exists_of_run hw
  have hsweep : ∀ t, ¬ w.Running t .sweepExpiredReservations := by
    intro t ht
    obtain ⟨p, k, hx⟩ := id ht
    exact hone t (List.getElem?_eq_some_iff.1 hx).1 (runningCall_eq_some.2 ht)
  refine ⟨w, w', hs, hs', (drains .default _ w hs (fun t _ ht => absurd ht (hsweep t)) _
    (by decide) w' hs').2 fun t inp => ?_⟩
  cases hx : w'.txs[t]? with
  | none => simp only [step, World.step, hx]
  | some x =>
    cases x with
    | done call o => simp only [step, World.step, hx]
    | running call p k =>
      cases (hended t (List.getElem?_eq_some_iff.1 hx).1).symm.trans
        (runningCall_eq_some.2 ⟨p, k, hx⟩)

end EventSphere.Inventory
