import EventSphere.Inventory.Changes

/-!
# What a flush does to the visible tables

`Change` says what a transaction is about to write; `Effect` says what the write does to the tables
the transaction sees once the database has accepted it. The version check makes the event row
that is overwritten the one that was read. Nothing does so for a reservation: the row read and the
row overwritten share their immutable columns (`frame`), but not their status, and `Effect` keeps
the two apart. What relates them is a parameter `R`, to be supplied by an assumption on the schedule
or by isolation.
-/

namespace EventSphere.Inventory

/-- What relates the reservation a transaction has read, the status it gives it and the visible
reservation it overwrites. -/
abbrev ReadRel := Reservation → ReservationStatus → Reservation → Prop

/-- The effects of a flush of a call on the visible tables. -/
inductive Effect (R : ReadRel) (V V' : InventoryDb) : Call → Prop
  | idle {call : Call} (h : V' = V) : Effect R V V' call
  | create {e : UUID} {n : ℤ} (he : V.versioned.get e = none)
      (h : V' = ⟨V.versioned.set ⟨e, n, 0, 0, 1⟩, V.plain⟩) :
      Effect R V V' (.initializeInventory e n)
  | adjust {e : UUID} {n : ℤ} {row : EventInventory} (hrow : V.versioned.get e = some row)
      (h : V' = ⟨V.versioned.set (bump { row with totalCapacity := n }), V.plain⟩) :
      Effect R V V' (.adjustCapacity e n)
  | reserve {row : EventInventory} {r : Reservation}
      (hrow : V.versioned.get r.eventId = some row) (hq : 0 < r.quantity)
      (hav : r.quantity ≤ row.available) (hs : r.status = .pending)
      (hr : V.plain.get r.id = none)
      (h : V' = ⟨V.versioned.set (bump (row.hold r.quantity)), V.plain.set r⟩) :
      Effect R V V' (.reserveSeats r.eventId r.orderId r.quantity)
  | confirm {row : EventInventory} {r cur : Reservation}
      (hrow : V.versioned.get r.eventId = some row) (hq : 0 < r.quantity)
      (hs : r.status = .pending) (hcur : V.plain.get r.id = some cur) (hf : frame cur = frame r)
      (hR : R r .confirmed cur)
      (h : V' = ⟨V.versioned.set (bump (row.moveSeats r.quantity)),
        V.plain.set { r with status := .confirmed }⟩) :
      Effect R V V' (.confirmReservation r.id)
  | release {call : Call} {row : EventInventory} {r cur : Reservation} {expired : Bool}
      (hc : ReleasedBy call r expired) (hrow : V.versioned.get r.eventId = some row)
      (hq : 0 < r.quantity) (hs : r.status = .pending ∨ r.status = .confirmed)
      (hcur : V.plain.get r.id = some cur) (hf : frame cur = frame r)
      (hR : R r (releasedStatus expired) cur)
      (h : V' = ⟨V.versioned.set (bump (row.giveBack r)),
        V.plain.set { r with status := releasedStatus expired }⟩) :
      Effect R V V' call

section
variable {S : Spec EventInventory Reservation InventoryError Result} {db : InventoryDb}
  {p : InventoryM Result} {k : InventoryWork} {call : Call} {R : ReadRel}

/-- The tables a transaction sees after a flush. -/
theorem Holds.view_flushed {dv nv : Table EventInventory} {dp np : Table Reservation}
    (h : Holds k dv dp nv np) :
    k.flushed.view db =
      ⟨(k.view db).versioned.overlay ((dv.mapRows bump pk_bump).overlay nv),
        (k.view db).plain.overlay (dp.overlay np)⟩ := by
  rw [Work.view_flushed, h.pending]
  rfl

/-- The event row that a session changes and gets accepted is the visible one. -/
theorem Holds.row_visible {row row' : EventInventory} {nv : Table EventInventory}
    {dp np : Table Reservation} {e : UUID} (hh : Holds k (.set .empty row') dp nv np)
    (h : TxInv S db p k) (hd : k.session.Disciplined)
    (hm : k.session.UpdatesMatch (k.view db)) (he : row'.eventId = e)
    (hl : k.session.loadedVersioned e = some row) : (k.view db).versioned.get e = some row := by
  have hget : k.session.dirtyVersioned.get e = some row' := by
    rw [hh.dirtyVersioned, ← he]
    exact Table.get_set_self _ row'
  obtain ⟨cur, hcur, -, hl'⟩ := h.flush_matches hd hm hget
  exact hcur.trans (hl'.symm.trans hl)

/-- The key of a reservation that a session inserts and gets accepted was free. -/
theorem Holds.key_free {r : Reservation} {dv nv : Table EventInventory} {dp : Table Reservation}
    (hh : Holds k dv dp nv (.set .empty r)) (hi : k.session.InsertsFit (k.view db)) :
    (k.view db).plain.get r.id = none := by
  have := hi.2.1
  rw [hh.newPlain, Table.keys_set] at this
  exact Table.get_eq_none.2 (Finset.disjoint_left.1 this (Finset.mem_insert_self _ _))

/-- **A flush that succeeds has the effect of its change.** -/
theorem Change.effect (hc : Change call k) (h : TxInv S db p k)
    (hm : k.session.UpdatesMatch (k.view db)) (hi : k.session.InsertsFit (k.view db))
    (hR : ∀ {r cur : Reservation} {s : ReservationStatus},
      k.session.dirtyPlain.get r.id = some { r with status := s } →
      k.session.loadedPlain r.id = some r → (k.view db).plain.get r.id = some cur → R r s cur) :
    Effect R (k.view db) (k.flushed.view db) call := by
  have hd := hc.disciplined
  -- the reservation read has the immutable columns of the visible one
  have hpart : ∀ {r : Reservation} {s : ReservationStatus},
      k.session.dirtyPlain = .set .empty { r with status := s } →
      k.session.loadedPlain r.id = some r →
      ∃ cur, (k.view db).plain.get r.id = some cur ∧ frame cur = frame r ∧ R r s cur :=
    fun {r s} hdp hl => by
      obtain ⟨cur, hcur, hf⟩ := h.parts hl
      refine ⟨cur, hcur, hf, hR ?_ hl hcur⟩
      rw [hdp]
      exact Table.get_set_self _ { r with status := s }
  cases hc with
  | idle hh => exact .idle (by rw [hh.view_flushed]; simp)
  | create hh =>
    refine .create (Table.get_eq_none.2 ?_) (by rw [hh.view_flushed]; simp)
    have := hi.1
    rw [hh.newVersioned, Table.keys_set] at this
    exact Finset.disjoint_left.1 this (Finset.mem_insert_self _ _)
  | adjust hl he hh => exact .adjust (hh.row_visible h hd hm he hl) (by rw [hh.view_flushed]; simp)
  | reserve hl he hq hav hre hro hrq hs hw hh =>
    subst hro hrq hre
    exact .reserve (hh.row_visible h hd hm he hl) hq hav hs (hh.key_free hi)
      (by rw [hh.view_flushed]; simp)
  | confirm hl hs hq hlrow he hh =>
    obtain ⟨cur, hcur, hf, hr⟩ := hpart hh.dirtyPlain hl
    exact .confirm (hh.row_visible h hd hm he hlrow) hq hs hcur hf hr
      (by rw [hh.view_flushed]; simp)
  | release hby hl hs hq hlrow he hh =>
    obtain ⟨cur, hcur, hf, hr⟩ := hpart hh.dirtyPlain hl
    exact .release hby (hh.row_visible h hd hm (by simpa using he) hlrow) hq hs hcur hf hr
      (by rw [hh.view_flushed]; simp)

end

/-! ## In the interleaved system -/

/-- The session of a transaction that is about to flush. -/
def flushing (w : InventoryWorld) : Action Call UUID → Option InventoryWork
  | .advance t _ =>
    match w.txs[t]? with
    | some (.running _ (.flush _) k) => some k
    | _ => none
  | _ => none

/-- The condition on a step that a flush it may contain, if the database accepts it, overwrites only
reservations that `R` relates to what was read and is written. -/
def Overwrites (R : ReadRel) (w : InventoryWorld) (a : Action Call UUID) : Prop :=
  ∀ k ∈ flushing w a,
    k.session.UpdatesMatch (k.view w.db) ∧ k.session.InsertsFit (k.view w.db) →
    ∀ i ∈ k.session.dirtyPlain.keys, ∀ d ∈ k.session.dirtyPlain.get i,
    ∀ r ∈ k.session.loadedPlain i, ∀ cur ∈ (k.view w.db).plain.get i, R r d.status cur

instance (R : ReadRel) [∀ r s cur, Decidable (R r s cur)] (w : InventoryWorld)
    (a : Action Call UUID) : Decidable (Overwrites R w a) :=
  inferInstanceAs (Decidable (∀ k ∈ flushing w a, _ → ∀ i ∈ _, ∀ d ∈ _, ∀ r ∈ _, ∀ cur ∈ _,
    R r _ cur))

/-- The invariant of the interleaved inventory service. -/
abbrev Coherent (settings : Settings) (w : InventoryWorld) : Prop := w.Inv (Call.spec settings)

/-- The invariant is kept by every step. -/
theorem Coherent.step {settings : Settings} {w w' : InventoryWorld} {a : Action Call UUID}
    (h : Coherent settings w) (hs : step settings w a = some w') : Coherent settings w' :=
  World.Inv.step (Call.body_safe settings) h hs

/-- A flush that the database accepts has the effect of its change. -/
theorem Coherent.effect {settings : Settings} {w : InventoryWorld} {a : Action Call UUID} {t : ℕ}
    {inp : Input UUID} {call : Call} {k : InventoryWork} {R : ReadRel} (h : Coherent settings w)
    (hR : Overwrites R w a) (ha : a = .advance t inp) (hf : w.Flushing t call k) :
    Effect R (k.view w.db) (k.flushed.view w.db) call := by
  obtain ⟨f, hrun⟩ := hf.running
  have htx := h.tx hrun
  have hk : k ∈ flushing w a := by simp [ha, flushing, hrun]
  exact Change.effect htx.safe.2.1 htx hf.updates hf.inserts fun {r cur s} hd hl hcur =>
    hR k hk ⟨hf.updates, hf.inserts⟩ r.id (Table.mem_of_get hd) _ hd r hl cur hcur

end EventSphere.Inventory
