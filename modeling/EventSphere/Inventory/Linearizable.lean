import EventSphere.Inventory.Effects
import EventSphere.UnitOfWork.History

/-!
# `reserve` is linearizable

The retry loop of `reserve` reads the event row, checks the seats and writes under the version
check, any number of times and interleaved with anything. `Reserved` is the atomic operation it
implements: seats are held and one pending reservation appears, or nothing happens.
`reserve_linearizable` shows that a call takes effect in one step, its commit, on the tables as they
are there, that a call which does not return has no effect at all, and that the two ways in which it
gives up are justified by what the other transactions did during the call.
-/

namespace EventSphere.Inventory

/-- The atomic operation: `q` seats of the event `e` are held for the order `o` by the new pending
reservation `r`. -/
structure Reserved (e o : UUID) (q : ℤ) (r : Reservation) (db db' : InventoryDb) : Prop where
  row : ∃ row, db.versioned.get e = some row ∧
    db'.versioned = db.versioned.set
      { row with reservedCount := row.reservedCount + q, version := row.version + 1 } ∧
    row.reservedCount + q + row.confirmedCount ≤ row.totalCapacity
  fresh : db.plain.get r.id = none
  reservation : r.eventId = e ∧ r.orderId = o ∧ r.quantity = q ∧ r.status = .pending
  plain : db'.plain = db.plain.set r

/-- What is known of the row versions of a running `reserve`: none, or those of its one
reservation, made from the committed event row. -/
def ReserveLocked (call : Call) (db W : InventoryDb) : Prop :=
  ∀ {e o q}, call = .reserveSeats e o q → W = .empty ∨
    ∃ row r, db.versioned.get e = some row ∧ q ≤ row.available ∧ db.plain.get r.id = none ∧
      (r.eventId = e ∧ r.orderId = o ∧ r.quantity = q ∧ r.status = .pending) ∧
      W = ⟨.set .empty (bump (row.hold q)), .set .empty r⟩

theorem reserveLocked : LockedRel ReserveLocked where
  empty _ := .inl rfl
  agree {call db db' W} h hL e o q hcall := by
    refine (hL hcall).imp_right fun ⟨row, r, hrow, hav, hr, hf, hW⟩ => ?_
    subst hW
    refine ⟨row, r, ?_, hav, ?_, hf, rfl⟩
    · rw [← h.1 e, hrow]
      have : row.eventId = e := db.versioned.pk_of_get hrow
      simp [this]
    · rw [← h.2 r.id, hr]
      simp

/-- The flush of `reserve`. -/
theorem Coherent.reserve_flush {settings : Settings} {w : InventoryWorld} {t : ℕ} {call : Call}
    {k : InventoryWork} (h : Coherent settings w) (hf : w.Flushing t call k) :
    ReserveLocked call w.db k.flushed.writes := by
  obtain ⟨f, hrun⟩ := hf.running
  have htx := h.tx hrun
  intro e o q hcall
  subst hcall
  have hchange : Change (.reserveSeats e o q) k := htx.safe.2.1
  cases hchange with
  | @reserve _ _ _ _ row r hl he hq hav hre hro hrq hs hw hh =>
    have hview : k.view w.db = w.db := by rw [Work.view, hw, Db.overlay_empty]
    have hrow := hh.row_visible htx htx.safe.1 hf.updates he hl
    have hfree := hh.key_free hf.inserts
    rw [hview] at hrow hfree
    refine .inr ⟨row, r, hrow, hav, hfree, ⟨hre, hro, hrq, hs⟩, ?_⟩
    change Db.overlay _ (Session.pending _) = _
    rw [hw, hh.pending]
    ext1 <;> simp
  | release hby => rcases hby with hby | ⟨hby, -⟩ <;> cases hby

/-- A flush of `reserve` updates only its event row. -/
theorem reserve_updatesOnly {e o : UUID} {q : ℤ} {k : InventoryWork}
    (h : Change (.reserveSeats e o q) k) : World.UpdatesOnly e k := by
  cases h with
  | reserve hl he hq hav hre hro hrq hs hw hh =>
    refine ⟨hw, hh.dirtyPlain, fun {key r} hr => ?_⟩
    rw [hh.dirtyVersioned, Table.get_set] at hr
    split at hr
    · next hk => exact hk.trans he
    · cases hr
  | release hby => rcases hby with hby | ⟨hby, -⟩ <;> cases hby

/-- A one-row table determines its row. -/
theorem set_empty_inj {r r' : Reservation}
    (h : (Table.set .empty r : Table Reservation) = .set .empty r') : r = r' := by
  have := congrArg (fun t => t.get r.id) h
  rw [get_set_reservation] at this
  exact (get_single this.symm).2

/-- The commit of `reserve`. -/
theorem reserved_of_commit {settings : Settings} {db : InventoryDb} {k : InventoryWork}
    {e o : UUID} {q : ℤ} {res : Result}
    (hret : ((Call.reserveSeats e o q).spec settings).ret res k)
    (hL : ReserveLocked (.reserveSeats e o q) db k.writes) :
    ∃ r, res = .reservation r ∧ Reserved e o q r db (k.view db) := by
  obtain ⟨row', r', rfl, -, -, -, -, -, hw⟩ := hret
  rcases hL rfl with h | ⟨row, r, hrow, hav, hfree, hf, hW⟩
  · rw [h] at hw
    have := congrArg (fun d => d.plain.get r'.id) hw
    simp at this
  · obtain rfl : r' = r := set_empty_inj (congrArg Db.plain (hw.symm.trans hW))
    refine ⟨r', rfl, ⟨row, hrow, ?_, ?_⟩, hfree, hf, ?_⟩
    · simp [Work.view, hW, bump_inventory, EventInventory.hold]
    · unfold EventInventory.available at hav
      omega
    · simp [Work.view, hW]

/-- Every state of the service is coherent, and every running `reserve` holds what it should. -/
theorem reserve_inv {settings : Settings} {as : List (Action Call UUID)} {w w' : InventoryWorld}
    (hr : run (step settings) w as = some w') (h : Coherent settings w ∧ w.Holds ReserveLocked) :
    Coherent settings w' ∧ w'.Holds ReserveLocked :=
  run_inv (I := fun w => Coherent settings w ∧ w.Holds ReserveLocked)
    (fun h hs => ⟨h.1.step hs, World.Holds.step reserveLocked h.1 h.2 hs
      fun _ hf _ => h.1.reserve_flush hf⟩) hr h

section
variable {settings : Settings} {w₀ w : InventoryWorld} {e o : UUID} {q : ℤ}
  {during : List (Action Call UUID)}

/-- The world after the arrival of the call. -/
abbrev arrived (settings : Settings) (w₀ : InventoryWorld) (e o : UUID) (q : ℤ) : InventoryWorld :=
  w₀.begun (Call.body settings) (.reserveSeats e o q)

/-- A `reserve` that has raised, with the state in which it did. -/
theorem raised_reserve (h : Coherent settings (arrived settings w₀ e o q))
    (hr : run (step settings) (arrived settings w₀ e o q) during = some w) {err : InventoryError}
    (ht : w.txs[w₀.txs.length]? = some (.done (.reserveSeats e o q) (.raised err))) :
    ∃ as bs w₁ k, during = as ++ bs ∧
      run (step settings) (arrived settings w₀ e o q) as = some w₁ ∧
      w₁.txs[w₀.txs.length]? = some (.running (.reserveSeats e o q) (.raise err) k) ∧
      ((Call.reserveSeats e o q).spec settings).raise err k := by
  obtain ⟨as, a, bs, w₁, w₂, p, k, rfl, hr₁, hrun, -, hend, -⟩ := World.ended hr ht
  have htx := (run_inv (fun h hs => h.step hs) hr₁ h : Coherent settings w₁).tx hrun
  cases hend with
  | stop ha hn _ =>
    rcases Prog.next_stop hn with ⟨e', rfl, he⟩ | ⟨e', he⟩
    · cases he; exact ⟨as, a :: bs, w₁, k, rfl, hr₁, hrun, htx.safe⟩
    · cases he

/-- A `reserve` that has returned took effect with its commit. -/
theorem returned_reserve
    (h : Coherent settings (arrived settings w₀ e o q) ∧
      (arrived settings w₀ e o q).Holds ReserveLocked)
    (hr : run (step settings) (arrived settings w₀ e o q) during = some w) {res : Result}
    (ht : w.txs[w₀.txs.length]? = some (.done (.reserveSeats e o q) (.returned res))) :
    ∃ as inp bs w₁ w₂ r, during = as ++ .advance w₀.txs.length inp :: bs ∧
      run (step settings) (arrived settings w₀ e o q) as = some w₁ ∧
      step settings w₁ (.advance w₀.txs.length inp) = some w₂ ∧
      res = .reservation r ∧ Reserved e o q r w₁.db w₂.db ∧
      Along (step settings) (World.Quiet (Call.body settings) w₀.txs.length)
        (arrived settings w₀ e o q) as ∧
      Along (step settings) (World.Quiet (Call.body settings) w₀.txs.length) w₂ bs := by
  obtain ⟨as, a, bs, w₁, w₂, p, k, rfl, hr₁, hrun, hs, hend, hdone⟩ := World.ended hr ht
  obtain ⟨hcoh, hL⟩ := reserve_inv hr₁ h
  cases hend with
  | stop ha hn _ => rcases Prog.next_stop hn with ⟨e', -, he⟩ | ⟨e', he⟩ <;> cases he
  | commit ha hn =>
    subst ha
    obtain ⟨rfl, hdb⟩ := (hcoh.tx hrun).commit_db hn
    obtain ⟨r, rfl, hres⟩ := reserved_of_commit (hcoh.tx hrun).safe.2 (hL hrun)
    exact ⟨as, _, bs, w₁, w₂, r, rfl, hr₁, hs, rfl, hdb ▸ hres, World.quiet_of_running hr₁ hrun,
      World.quiet_of_done hdone⟩

/-- A `reserve` that has not returned has left the tables alone. -/
theorem quiet_reserve (hr : run (step settings) (arrived settings w₀ e o q) during = some w)
    (ht : ∀ res, w.txs[w₀.txs.length]? ≠ some (.done (.reserveSeats e o q) (.returned res))) :
    Along (step settings) (World.Quiet (Call.body settings) w₀.txs.length)
      (arrived settings w₀ e o q) during := by
  obtain ⟨x, hx, hcall⟩ := World.run_begun hr
  cases x with
  | running call p k =>
    obtain rfl : call = _ := hcall
    exact World.quiet_of_running hr hx
  | done call out =>
    obtain rfl : call = _ := hcall
    obtain ⟨as, a, bs, w₁, w₂, p, k, rfl, hr₁, hrun, hs, hend, hdone⟩ := World.ended hr hx
    refine (along_append hr₁).2 ⟨World.quiet_of_running hr₁ hrun, fun _ w₂' hs' => ?_,
      fun w₂' hs' => ?_⟩
    · cases hs.symm.trans hs'
      cases hend with
      | commit => exact absurd hx (ht _)
      | stop _ _ hdb | abort _ hdb => exact hdb
    · cases hs.symm.trans hs'
      exact World.quiet_of_done hdone

end

/-- **`reserve` is linearizable.** A call of `reserve_seats` that arrives after any run of the
service and runs interleaved with anything:
* if it returns, it took effect with one step, its commit, which holds the seats on the committed
  event row as it was there, within the capacity, and inserts the one reservation it returns; no
  other step of the call changes the tables;
* if it does not return, no step of it changes the tables;
* if it raises a capacity error, the committed event row had too few seats at some instant of the
  call;
* if it raises a conflict, at least as many other transactions as it has attempts committed an
  update of the event row during the call. -/
theorem reserve_linearizable (settings : Settings) (pre during : List (Action Call UUID))
    (w₀ w : InventoryWorld) (e o : UUID) (q : ℤ)
    (hpre : run (step settings) .init pre = some w₀)
    (hrun : run (step settings) w₀ (.begin (.reserveSeats e o q) :: during) = some w) :
    (∀ res, w.txs[w₀.txs.length]? = some (.done (.reserveSeats e o q) (.returned res)) →
      ∃ as inp bs w₁ w₂ r, during = as ++ .advance w₀.txs.length inp :: bs ∧
        run (step settings) (arrived settings w₀ e o q) as = some w₁ ∧
        step settings w₁ (.advance w₀.txs.length inp) = some w₂ ∧
        res = .reservation r ∧ Reserved e o q r w₁.db w₂.db ∧
        Along (step settings) (World.Quiet (Call.body settings) w₀.txs.length)
          (arrived settings w₀ e o q) as ∧
        Along (step settings) (World.Quiet (Call.body settings) w₀.txs.length) w₂ bs) ∧
    ((∀ res, w.txs[w₀.txs.length]? ≠ some (.done (.reserveSeats e o q) (.returned res))) →
      Along (step settings) (World.Quiet (Call.body settings) w₀.txs.length)
        (arrived settings w₀ e o q) during) ∧
    (∀ msg, w.txs[w₀.txs.length]? =
        some (.done (.reserveSeats e o q) (.raised (.domain (.capacityExceeded msg)))) →
      ∃ row, World.CommittedDuring (Call.body settings) (arrived settings w₀ e o q) during e row ∧
        row.available < q) ∧
    ∀ msg, w.txs[w₀.txs.length]? =
        some (.done (.reserveSeats e o q) (.raised (.domain (.conflict msg)))) →
      ∃ ts : List ℕ, ts.Nodup ∧ settings.optimisticRetryAttempts ≤ ts.length ∧
        ∀ t ∈ ts, t ≠ w₀.txs.length ∧
          World.UpdatedDuring (Call.body settings) (arrived settings w₀ e o q) during e t := by
  obtain ⟨w₁, hs, hr⟩ := run_cons.1 hrun
  cases hs
  have h : Coherent settings (arrived settings w₀ e o q) ∧
      (arrived settings w₀ e o q).Holds ReserveLocked :=
    reserve_inv ((run_concat (a := .begin (.reserveSeats e o q))).2 ⟨w₀, hpre, rfl⟩)
      ⟨World.inv_init, nofun⟩
  refine ⟨fun res => returned_reserve h hr, quiet_reserve hr, fun msg ht => ?_, fun msg ht => ?_⟩
  · obtain ⟨as, bs, w₁, k, rfl, hr₁, hrun₁, hraise⟩ := raised_reserve h.1 hr ht
    obtain ⟨hw, row, hl, hav⟩ := hraise.1 msg rfl
    rcases World.loaded_committed hr₁ hrun₁ hl with hown | hdur
    · rw [hw] at hown; cases hown
    · exact ⟨row, hdur.append bs, hav⟩
  · obtain ⟨as, bs, w₁, k, rfl, hr₁, hrun₁, hraise⟩ := raised_reserve h.1 hr ht
    obtain ⟨ts, hts⟩ := World.conflicts_le (S := Call.spec settings) (Call.body_safe settings) h.1
      (fun {k} hk => reserve_updatesOnly hk) hr₁ hrun₁
    exact ⟨ts, hts.nodup, (hraise.2 msg rfl).trans hts.conflicts,
      fun t ht => ⟨(hts.updated t ht).1, (hts.updated t ht).2.append bs⟩⟩

/-- The outcome of transaction `t`, if it has ended. -/
def outcomeOf (w : InventoryWorld) (t : ℕ) : Option (Call × Outcome InventoryError Result) :=
  match w.txs[t]? with
  | some (.done call o) => some (call, o)
  | _ => none

theorem txs_of_outcomeOf {w : InventoryWorld} {t : ℕ} {call : Call}
    {o : Outcome InventoryError Result} (h : outcomeOf w t = some (call, o)) :
    w.txs[t]? = some (.done call o) := by
  unfold outcomeOf at h
  split at h
  · next hx => cases h; exact hx
  · cases h

/-- An event with two seats. -/
def twoSeats : List (Action Call UUID) :=
  [.begin (.initializeInventory ⟨1⟩ 2)] ++ advances 0 0 4

/-- What follows on the first of two reservations: the second one commits before the flush of the
first, which loses its version and tries again. -/
def retried : List (Action Call UUID) :=
  advances 0 1 5 ++ [.begin (.reserveSeats ⟨1⟩ ⟨3⟩ 1)] ++ advances 0 2 7 ++ advances 0 1 9

/-- The first reservation takes effect with the commit of its second attempt. -/
theorem reserve_linearizable_retried : ∃ w₀ w w₁ w₂ as inp bs,
    run (step .default) .init twoSeats = some w₀ ∧
    run (step .default) w₀ (.begin (.reserveSeats ⟨1⟩ ⟨2⟩ 1) :: retried) = some w ∧
    outcomeOf w 1 = some (.reserveSeats ⟨1⟩ ⟨2⟩ 1,
      .returned (.reservation ⟨⟨101⟩, ⟨1⟩, ⟨2⟩, 1, .pending, 600000000⟩)) ∧
    outcomeOf w 2 = some (.reserveSeats ⟨1⟩ ⟨3⟩ 1,
      .returned (.reservation ⟨⟨102⟩, ⟨1⟩, ⟨3⟩, 1, .pending, 600000000⟩)) ∧
    retried = as ++ .advance 1 inp :: bs ∧
    run (step .default) (arrived .default w₀ ⟨1⟩ ⟨2⟩ 1) as = some w₁ ∧
    step .default w₁ (.advance 1 inp) = some w₂ ∧
    Reserved ⟨1⟩ ⟨2⟩ 1 ⟨⟨101⟩, ⟨1⟩, ⟨2⟩, 1, .pending, 600000000⟩ w₁.db w₂.db := by
  obtain ⟨w₀, hw₀, hlen, h⟩ : ∃ w₀, run (step .default) .init twoSeats = some w₀ ∧
      w₀.txs.length = 1 ∧
      (run (step .default) w₀ (.begin (.reserveSeats ⟨1⟩ ⟨2⟩ 1) :: retried)).any fun w =>
        decide (outcomeOf w 1 = some (.reserveSeats ⟨1⟩ ⟨2⟩ 1,
          .returned (.reservation ⟨⟨101⟩, ⟨1⟩, ⟨2⟩, 1, .pending, 600000000⟩)) ∧
        outcomeOf w 2 = some (.reserveSeats ⟨1⟩ ⟨3⟩ 1,
          .returned (.reservation ⟨⟨102⟩, ⟨1⟩, ⟨3⟩, 1, .pending, 600000000⟩))) :=
    exists_of_run (by decide +kernel)
  obtain ⟨w, hw, h1, h2⟩ := exists_of_run h
  have hlin := (reserve_linearizable .default _ _ w₀ w ⟨1⟩ ⟨2⟩ 1 hw₀ hw).1
  rw [hlen] at hlin
  obtain ⟨as, inp, bs, w₁, w₂, r, has, hr₁, hs, hres, hreserved, -, -⟩ :=
    hlin _ (txs_of_outcomeOf h1)
  cases hres
  exact ⟨w₀, w, w₁, w₂, as, inp, bs, hw₀, hw, h1, h2, has, hr₁, hs, hreserved⟩

end EventSphere.Inventory
