import EventSphere.Inventory.Effects
import EventSphere.UnitOfWork.History

/-!
# How an event's capacity is set

The capacity of an event is set by `initialize_inventory` and `adjust_capacity` alone; every other
call that writes the event's row writes the capacity it finds there (`Capacities.capacity_step`). So
as long as one transaction at a time sets it, the capacity that this transaction has read is the
committed one (`CapacityRead`), and the transaction commits the capacity it was asked for unless its
flush loses a version race (`Capacities.setting_step`).
-/

namespace EventSphere.Inventory

/-- The capacity of an event, if the event has a row. -/
def capacity (db : InventoryDb) (e : UUID) : Option ℤ :=
  (db.versioned.get e).map EventInventory.totalCapacity

/-- The event whose capacity a call sets, and the capacity. -/
def Call.sets : Call → Option (UUID × ℤ)
  | .initializeInventory e n | .adjustCapacity e n => some (e, n)
  | _ => none

/-- The call sets the capacity of the event. -/
def Call.setsFor (e : UUID) (call : Call) : Prop := call.sets.map Prod.fst = some e

instance (e : UUID) (call : Call) : Decidable (call.setsFor e) :=
  inferInstanceAs (Decidable (_ = _))

/-- What a call that sets the capacity of an event has to find there: `initialize_inventory` no row,
`adjust_capacity` a row. -/
def Call.Finds (old : Option ℤ) : Call → Prop
  | .initializeInventory _ _ => old = none
  | .adjustCapacity _ _ => old ≠ none
  | _ => False

/-! ## Who changes the capacity -/

section
variable {e : UUID} {db W V V' : InventoryDb} {call : Call}

/-- The capacity a transaction sees. -/
theorem capacity_overlay : capacity (db.overlay W) e = (capacity W e).or (capacity db e) := by
  simp only [capacity, Db.overlay_versioned, Table.get_overlay]
  cases W.versioned.get e <;> rfl

/-- A written row that keeps the capacity of the row it replaces, or is another event's, leaves the
capacity of the event as it is. -/
theorem capacity_set {e' : UUID} {row row' : EventInventory} {plain : Table Reservation}
    (hrow : V.versioned.get e' = some row) (hid : row'.eventId = row.eventId)
    (he : e' ≠ e ∨ row'.totalCapacity = row.totalCapacity) :
    capacity ⟨V.versioned.set row', plain⟩ e = capacity V e := by
  have hid' : row.eventId = e' := V.versioned.pk_of_get hrow
  simp only [capacity, Table.get_set, pk_inventory, hid, hid']
  split
  · next heq =>
    subst heq
    rw [hrow, Option.map_some, Option.map_some, he.resolve_left fun h => h rfl]
  · rfl

/-- A call that does not set the capacity of the event leaves it as it is. -/
theorem Effect.capacity {R : ReadRel} (h : Effect R V V' call) (hc : ¬ call.setsFor e) :
    capacity V' e = capacity V e := by
  cases h with
  | idle h => rw [h]
  | @create e' n he h =>
    subst h
    have hne : e ≠ e' := fun heq => hc (heq ▸ rfl)
    simp [Inventory.capacity, hne]
  | adjust hrow h =>
    subst h
    exact capacity_set hrow rfl (.inl fun heq => hc (heq ▸ rfl))
  | reserve hrow _ _ _ _ h => subst h; exact capacity_set hrow rfl (.inr rfl)
  | confirm hrow _ _ _ _ _ h => subst h; exact capacity_set hrow rfl (.inr rfl)
  | release _ hrow _ _ _ _ _ h => subst h; exact capacity_set hrow (by simp) (.inr (by simp))

/-- A running transaction that does not set the capacity of the event has written its row only with
the committed capacity. -/
def CapacityLocked (e : UUID) (call : Call) (db W : InventoryDb) : Prop :=
  ¬ call.setsFor e → ∀ r, W.versioned.get e = some r → capacity db e = some r.totalCapacity

theorem capacityLocked (e : UUID) : LockedRel (CapacityLocked e) where
  empty := nofun
  agree h hL hc r hr := by
    rw [capacity, ← h.1 e (Table.mem_of_get hr)]
    exact hL hc r hr

/-- Such a transaction sees the committed capacity. -/
theorem CapacityLocked.view (h : CapacityLocked e call db W) (hc : ¬ call.setsFor e) :
    capacity (db.overlay W) e = capacity db e := by
  rw [capacity_overlay]
  cases hW : W.versioned.get e with
  | none => simp [capacity, hW]
  | some r =>
    rw [h hc r hW]
    simp [capacity, hW]

end

/-! ## What the calls that set it write and return -/

/-- What a call that sets the capacity of an event is held to: it flushes once, and when it returns,
its object of the event's row shows the new capacity; an initialisation that found a row has written
nothing. -/
def Call.capacitySpec (call : Call) : Spec EventInventory Reservation InventoryError Result where
  flush k := Change call k ∧ (call.sets ≠ none → k.writes = .empty)
  ret _ k :=
    match call with
    | .initializeInventory e n => ∃ r, k.session.loadedVersioned e = some r ∧
        (r.totalCapacity = n ∨ k.writes = .empty)
    | .adjustCapacity e n => ∃ r, k.session.loadedVersioned e = some r ∧ r.totalCapacity = n
    | _ => True
  raise _ _ := True

/-- What the session of `adjust_capacity` holds after its flush. -/
theorem adjust_flushed (row : EventInventory) (n : ℤ) :
    ∃ r, (Session.flushed
      ((readRow row).assignVersioned { row with totalCapacity := n })).objVersioned
        row.eventId = some r ∧
      (Session.flushed
        ((readRow row).assignVersioned { row with totalCapacity := n })).loadedVersioned
        row.eventId = some r ∧ r.totalCapacity = n := by
  by_cases he : { row with totalCapacity := n } = row
  · have hcap : row.totalCapacity = n := (congrArg EventInventory.totalCapacity he).symm
    refine ⟨row, ?_, ?_, hcap⟩ <;>
      simp [he, Session.assignVersioned, Session.flushed, Session.pending, Session.objVersioned,
        readRow, Session.loadVersioned, Session.empty]
  · rw [readRow_assign he rfl]
    have hnew : (readRow row).newVersioned = .empty := rfl
    refine ⟨bump { row with totalCapacity := n }, ?_, ?_, rfl⟩ <;>
      simp [Session.flushed, Session.pending, Session.objVersioned, hnew, Table.get_set]

/-- **The programs of the service set capacities so**, whatever the database answers. -/
theorem Call.body_capacity (settings : Settings) (call : Call) :
    call.capacitySpec.Safe (call.body settings) .init := by
  cases call with
  | initializeInventory e n =>
    refine Spec.safe_bind ⟨fun row hrow => ?_, fun _ => ?_⟩
    · subst hrow
      exact ⟨⟨rfl, rfl, rfl, rfl⟩, ⟨rfl, rfl, rfl, rfl⟩, row, readRow_loaded row, .inr rfl⟩
    · have hc : Change (.initializeInventory e n) ⟨Session.empty.addVersioned ⟨e, n, 0, 0, 1⟩,
        .empty, 0⟩ := .create ⟨rfl, rfl, rfl, rfl⟩
      refine ⟨hc.disciplined, ⟨hc, fun _ => rfl⟩, ⟨⟨rfl, rfl, rfl, rfl⟩, ⟨rfl, rfl, rfl, rfl⟩,
        ⟨e, n, 0, 0, 1⟩, ?_, .inl rfl⟩, fun _ => trivial⟩
      refine Option.or_eq_some_iff.2 (.inl ?_)
      simp [Session.pending, Session.addVersioned, Table.get_set]
  | adjustCapacity e n =>
    refine Spec.safe_bind ⟨fun row hrow => ?_, fun _ => trivial⟩
    subst hrow
    have hc := adjust_change row n
    refine ⟨hc.disciplined, ⟨hc, fun _ => rfl⟩, ?_, fun _ => trivial⟩
    obtain ⟨r, hobj, hloaded, hn⟩ := adjust_flushed row n
    change Spec.Safe _ (.getVersioned row.eventId _) _
    simp only [Spec.Safe]
    split
    · exact ⟨⟨rfl, rfl, rfl, rfl⟩, ⟨rfl, rfl, rfl, rfl⟩, r, hloaded, hn⟩
    · next hnone => cases hobj.symm.trans hnone
  | getAvailability | reserveSeats | confirmReservation | releaseReservation
  | sweepExpiredReservations =>
    refine Spec.Safe.mono (fun k hk => ?_) (fun _ _ _ => trivial) (fun _ _ _ => trivial)
      (Call.body_safe settings _)
    exact ⟨hk, fun hs => absurd rfl hs⟩

/-! ## The transaction that sets it -/

/-- The object of the event's row, if it has been read, shows the capacity the transaction sees. -/
def CapacityRead (e : UUID) (db : InventoryDb) (k : InventoryWork) : Prop :=
  ∀ r, k.session.loadedVersioned e = some r → capacity (k.view db) e = some r.totalCapacity

section
variable {settings : Settings} {e : UUID} {db db' : InventoryDb} {call : Call} {n : ℤ}
  {old : Option ℤ} {p p' : InventoryM Result} {k k' : InventoryWork} {inp : Input UUID}

/-- What others commit does not matter as long as they keep the capacity. -/
theorem CapacityRead.congr (h : CapacityRead e db k) (hdb : capacity db' e = capacity db e) :
    CapacityRead e db' k := by
  intro r hr
  have hview := h r hr
  rw [Work.view, capacity_overlay] at hview ⊢
  rwa [hdb]

/-- Every operation of the transaction keeps it so. -/
theorem CapacityRead.next (h : CapacityRead e db k) (hn : p.next db inp k = .continue p' k') :
    CapacityRead e db k' := by
  intro r hr
  cases Prog.next_kind hn with
  | keep h1 => exact h r (by rwa [h1] at hr)
  | loadVersioned hv =>
    rcases Option.or_eq_some_iff.1 hr with hr | ⟨-, hr⟩
    · exact h r hr
    · split at hr
      · next he =>
        cases hr
        rw [capacity, he]
        exact congrArg _ hv
      · cases hr
  | loadPlain => exact h r (by rwa [Session.loadAll_eq] at hr)
  | flush =>
    rw [Work.view_flushed, capacity_overlay]
    rcases Option.or_eq_some_iff.1 hr with hp | ⟨hp, hr⟩
    · simp [capacity, hp]
    · rw [h r hr]
      simp [capacity, hp]
  | fail | rollback => cases hr

/-- A transaction that sets the capacity of the event and has not been stopped: it is about to read
the row, or only a flush can stop it. -/
structure Setting (settings : Settings) (e : UUID) (call : Call) (db : InventoryDb)
    (p : InventoryM Result) (k : InventoryWork) : Prop where
  prog : p = call.body settings ∧ k = .init ∨ p.Succeeds
  read : CapacityRead e db k

/-- A transaction that begins. -/
theorem setting_begin : Setting settings e call db (call.body settings) .init :=
  ⟨.inl ⟨rfl, rfl⟩, nofun⟩

/-- The first read of a transaction returns the committed row. -/
theorem getVersioned_init : (Work.getVersioned db .init e : _ × InventoryWork).1 =
    db.versioned.get e := by
  have hview : (Work.view db .init : InventoryDb) = db := Db.overlay_empty db
  rw [Work.getVersioned, hview]
  simp only [Work.init, Session.objVersioned, Session.empty, Table.get_empty, Option.none_or]
  cases db.versioned.get e <;> rfl

/-- The inserts of a flush of such a transaction fit: only `initialize_inventory` inserts, and it
has found no row. -/
theorem inserts_fit (hsets : call.sets = some (e, n)) (hfinds : call.Finds (capacity db e))
    (hc : call.capacitySpec.flush k) : k.session.InsertsFit (k.view db) := by
  have hview : k.view db = db := by
    rw [Work.view, hc.2 (by simp [hsets]), Db.overlay_empty]
  rw [hview]
  cases hc.1 with
  | idle hh | adjust _ _ hh => simp [Session.InsertsFit, hh.newVersioned, hh.newPlain]
  | create hh =>
    cases hsets
    have hnone : db.versioned.get e = none := Option.map_eq_none_iff.1 hfinds
    simp [Session.InsertsFit, hh.newVersioned, hh.newPlain, ← Table.get_eq_none, hnone]
  | reserve | confirm => cases hsets
  | release hby => rcases hby with rfl | ⟨rfl, -⟩ <;> cases hsets

/-- An operation of such a transaction, whose flush matches the version it has read. -/
theorem Setting.next (h : Setting settings e call db p k) (htx : TxInv call.capacitySpec db p k)
    (hsets : call.sets = some (e, n)) (hfinds : call.Finds (capacity db e))
    (hm : ∀ f, p = .flush f → k.session.UpdatesMatch (k.view db))
    (hn : p.next db inp k = .continue p' k') : Setting settings e call db p' k' := by
  refine ⟨.inr ?_, h.read.next hn⟩
  rcases h.prog with ⟨rfl, rfl⟩ | hp
  · cases call with
    | initializeInventory e' n' =>
      cases hsets
      have hnone : db.versioned.get e = none := Option.map_eq_none_iff.1 hfinds
      cases hn
      rw [getVersioned_init, hnone]
      trivial
    | adjustCapacity e' n' =>
      cases hsets
      cases hrow : db.versioned.get e with
      | none => exact absurd (by rw [capacity, hrow]; rfl) hfinds
      | some row =>
        cases hn
        rw [getVersioned_init, hrow]
        exact fun _ => trivial
    | getAvailability | reserveSeats | confirmReservation | releaseReservation
    | sweepExpiredReservations => cases hsets
  · refine hp.next (fun f hf => ?_) hn
    subst hf
    exact ⟨_, by rw [Work.flush, if_pos (hm f rfl), if_pos (inserts_fit hsets hfinds htx.safe.2.1)]⟩

/-- Such a transaction does not end without a commit. -/
theorem Setting.not_stop (h : Setting settings e call db p k) (htx : TxInv call.capacitySpec db p k)
    (hsets : call.sets = some (e, n)) {o : Outcome InventoryError Result} :
    p.next db inp k ≠ .stop o := by
  intro hn
  rcases Prog.next_stop hn with ⟨err, rfl, -⟩ | ⟨err, rfl⟩
  · rcases h.prog with ⟨hp, -⟩ | hp
    · cases call <;> cases hsets <;> cases hp
    · exact hp
  · obtain ⟨err', he, -⟩ := htx.stop hn
    cases he

/-- Such a transaction commits the capacity it was asked for. -/
theorem Setting.commit {res : Result} (h : Setting settings e call db (.ret res) k)
    (htx : TxInv call.capacitySpec db (.ret res) k) (hsets : call.sets = some (e, n))
    (hfinds : call.Finds (capacity db e)) : capacity (k.view db) e = some n := by
  have hret := htx.safe.2
  cases call with
  | initializeInventory e' n' =>
    cases hsets
    obtain ⟨r, hr, hcap | hw⟩ := hret
    · rw [h.read r hr, hcap]
    · -- a row that was found would have been there
      have hread := h.read r hr
      rw [Work.view, hw, Db.overlay_empty, show capacity db e = none from hfinds] at hread
      cases hread
  | adjustCapacity e' n' =>
    cases hsets
    obtain ⟨r, hr, hcap⟩ := hret
    rw [h.read r hr, hcap]
  | getAvailability | reserveSeats | confirmReservation | releaseReservation
  | sweepExpiredReservations => cases hsets

end

/-! ## In the interleaved system -/

/-- The session of a transaction that sets the capacity of the event and is about to flush. -/
def settingFlush (e : UUID) (w : InventoryWorld) : Action Call UUID → Option InventoryWork
  | .advance t _ =>
    match w.txs[t]? with
    | some (.running call (.flush _) k) => if call.setsFor e then some k else none
    | _ => none
  | _ => none

/-- The condition on a step that a flush it may contain, of a call that sets the capacity of the
event, finds the event's row at the version it has read. -/
def FlushMatches (e : UUID) (w : InventoryWorld) (a : Action Call UUID) : Prop :=
  ∀ k ∈ settingFlush e w a, k.session.UpdatesMatch (k.view w.db)

instance (e : UUID) (w : InventoryWorld) (a : Action Call UUID) : Decidable (FlushMatches e w a) :=
  inferInstanceAs (Decidable (∀ k ∈ _, _))

/-- The invariant behind the capacity of event `e`. -/
structure Capacities (settings : Settings) (e : UUID) (w : InventoryWorld) : Prop where
  coherent : Coherent settings w
  spec : w.Inv Call.capacitySpec
  locked : w.Holds (CapacityLocked e)

/-- Transaction `t` sets the capacity of event `e` from `old` to `new`: it is on its way and `old`
is still committed, or it has returned and `new` is. -/
inductive Sets (settings : Settings) (e : UUID) (t : ℕ) (call : Call) (old : Option ℤ) (new : ℤ)
    (w : InventoryWorld) : Prop
  | running {p : InventoryM Result} {k : InventoryWork}
      (ht : w.txs[t]? = some (.running call p k)) (hset : Setting settings e call w.db p k)
      (hcap : capacity w.db e = old)
  | returned {res : Result} (ht : w.txs[t]? = some (.done call (.returned res)))
      (hcap : capacity w.db e = some new)

theorem capacities_init (settings : Settings) (e : UUID) : Capacities settings e .init where
  coherent := World.inv_init
  spec := World.inv_init
  locked := nofun

section
variable {settings : Settings} {e : UUID} {w w' : InventoryWorld} {a : Action Call UUID} {t : ℕ}
  {call : Call} {old : Option ℤ} {new : ℤ}

/-- Every step keeps the invariant. -/
theorem Capacities.step (h : Capacities settings e w) (hs : step settings w a = some w') :
    Capacities settings e w' where
  coherent := h.coherent.step hs
  spec := World.Inv.step (Call.body_capacity settings) h.spec hs
  locked := by
    refine World.Holds.step (capacityLocked e) h.coherent h.locked hs
      fun {t inp call k} ha hf hL hc r hr => ?_
    have heff := h.coherent.effect (R := fun _ _ _ => True) (fun _ _ _ _ _ _ _ _ _ _ _ => trivial)
      ha hf
    calc capacity w.db e
      _ = capacity (k.view w.db) e := (hL.view hc).symm
      _ = capacity (k.flushed.view w.db) e := (heff.capacity hc).symm
      _ = some r.totalCapacity := by rw [Work.view, capacity_overlay]; simp [capacity, hr]

/-- **Who changes the capacity of an event**: only the commit of a call that sets it. -/
theorem Capacities.capacity_step (h : Capacities settings e w)
    (hs : Inventory.step settings w a = some w') :
    capacity w'.db e = capacity w.db e ∨ ∃ t inp call p k, a = .advance t inp ∧
      w.txs[t]? = some (.running call p k) ∧ call.setsFor e := by
  rcases h.coherent.step_db hs with hdb | ⟨t, inp, call, res, k, ha, ht, hdb, -⟩
  · exact .inl (by rw [hdb])
  · by_cases hc : call.setsFor e
    · exact .inr ⟨t, inp, call, _, k, ha, ht, hc⟩
    · exact .inl (by rw [hdb]; exact (h.locked ht).view hc)

/-- **The transaction that sets the capacity gets through**, if no other one sets it, its flush
finds the version it has read and it is not ended from outside. -/
theorem Sets.step (h : Sets settings e t call old new w) (hw : Capacities settings e w)
    (hsets : call.sets = some (e, new)) (hfinds : call.Finds old)
    (hsole : ∀ {t' call' p k}, w.txs[t']? = some (.running call' p k) → call'.setsFor e → t' = t)
    (hm : FlushMatches e w a) (ha : a ≠ .abort t) (hs : Inventory.step settings w a = some w') :
    Sets settings e t call old new w' := by
  cases h with
  | returned ht hcap =>
    refine .returned (World.other_step ht (World.done_step ht hs) hs) ?_
    rcases hw.capacity_step hs with he | ⟨t', inp, call', p, k, rfl, ht', hc⟩
    · rw [he, hcap]
    · obtain rfl := hsole ht' hc
      cases ht.symm.trans ht'
  | @running p k ht hset hcap =>
    subst hcap
    by_cases hown : a.tx = some t
    · have hfor : call.setsFor e := by rw [Call.setsFor, hsets]; rfl
      cases World.step_kind hs with
      | begin => cases hown
      | «continue» ht' _ hn =>
        cases hown
        cases ht.symm.trans ht'
        refine .running (by rw [getElem?_set_of_getElem? ht, if_pos rfl]) ?_ rfl
        refine hset.next (hw.spec.tx ht) hsets hfinds (fun f hf => ?_) hn
        subst hf
        exact hm _ (by simp [settingFlush, ht, hfor])
      | commit ht' _ hn =>
        cases hown
        cases ht.symm.trans ht'
        obtain ⟨rfl, rfl⟩ := (hw.spec.tx ht).commit_db hn
        exact .returned (by rw [getElem?_set_of_getElem? ht, if_pos rfl])
          (hset.commit (hw.spec.tx ht) hsets hfinds)
      | stop ht' hn =>
        cases hown
        cases ht.symm.trans ht'
        exact absurd hn (hset.not_stop (hw.spec.tx ht) hsets)
      | abort => cases hown; exact absurd rfl ha
    · have hcap : capacity w'.db e = capacity w.db e := by
        refine (hw.capacity_step hs).resolve_right fun ⟨t', inp, call', p', k', hadv, ht', hc⟩ => ?_
        subst hadv
        obtain rfl := hsole ht' hc
        exact hown rfl
      exact .running (World.other_step ht hown hs) ⟨hset.prog, hset.read.congr hcap⟩ hcap

end

end EventSphere.Inventory
