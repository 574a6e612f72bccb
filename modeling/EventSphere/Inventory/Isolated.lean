import EventSphere.Inventory.Accounting

/-!
# What an isolated call does

The methods of the repository, run with nobody else around, compute what their names say: every
flush is accepted, because the rows in the session are the visible ones (`Steady`). The lemmas about
`confirm` and `release` start in the middle of a transaction and end where the method returns, so
that they serve a call of its own as well as the loop of a sweep.
-/

namespace EventSphere.Inventory

/-- The state of a transaction between two methods, with nobody else around: nothing waits for a
flush, and every object shows the visible row. -/
structure Steady (db : InventoryDb) (k : InventoryWork) : Prop where
  ready : Ready k
  fresh : k.Fresh db

section
variable {α : Type} {db : InventoryDb} {k : InventoryWork} {r r' : Reservation}
  {row row' : EventInventory} {i e : UUID} {n : ℤ}

theorem steady_init (db : InventoryDb) : Steady db .init := ⟨ready_init 0, nofun, nofun⟩

@[simp] theorem view_init (db : InventoryDb) : (Work.init : InventoryWork).view db = db :=
  Db.overlay_empty db

/-- A program that ends in a steady state commits what it sees. -/
theorem Steady.exec_ret (h : Steady db k) (inp : Input UUID) (a : α) :
    (Prog.ret a : InventoryM α).exec db inp k = (.returned a, k.view db) := by
  obtain ⟨k', hflush, hw⟩ := Work.flush_clean db h.ready.clean
  simp only [Prog.exec, hflush]
  rw [Work.view, hw, Work.view]

/-! ## Reads -/

/-- The read of a reservation: the object of the session, if there is one, is the visible row. -/
theorem Steady.getPlain (h : Steady db k) (hr : (k.view db).plain.get i = some r) :
    ∃ k', k.getPlain db i = (some r, k') ∧ Steady db k' ∧ k'.view db = k.view db ∧
      k'.session.loadedPlain i = some r := by
  have hobj : k.session.objPlain i = k.session.loadedPlain i := by
    rw [Session.objPlain, h.ready.clean.dirtyPlain, Table.get_empty, Option.none_or]
  unfold Work.getPlain
  rw [hobj]
  cases hl : k.session.loadedPlain i with
  | some r₀ =>
    obtain rfl : r₀ = r := Option.some.inj ((h.fresh.plain hl).symm.trans hr)
    exact ⟨k, rfl, h, rfl, hl⟩
  | none =>
    obtain rfl : r.id = i := (k.view db).plain.pk_of_get hr
    dsimp only
    rw [hr]
    refine ⟨_, rfl, ⟨h.ready.loadPlain r, h.fresh.versioned, fun {j r₀} hj => ?_⟩, rfl, ?_⟩
    · rcases Option.or_eq_some_iff.1 hj with hj | ⟨-, hj⟩
      · exact h.fresh.plain hj
      · split at hj
        · next he => cases hj; rw [he]; exact hr
        · cases hj
    · simp [Session.loadPlain, hl]

/-- The read of an event row. -/
theorem Steady.getVersioned (h : Steady db k) (hrow : (k.view db).versioned.get e = some row) :
    ∃ k', k.getVersioned db e = (some row, k') ∧ Steady db k' ∧ k'.view db = k.view db ∧
      k'.session.loadedPlain = k.session.loadedPlain ∧
      k'.session.loadedVersioned e = some row := by
  have hobj : k.session.objVersioned e = k.session.loadedVersioned e := by
    rw [Session.objVersioned, h.ready.clean.dirtyVersioned, Table.get_empty, Option.none_or]
  unfold Work.getVersioned
  rw [hobj]
  cases hl : k.session.loadedVersioned e with
  | some row₀ =>
    obtain rfl : row₀ = row := Option.some.inj ((h.fresh.versioned hl).symm.trans hrow)
    exact ⟨k, rfl, h, rfl, rfl, hl⟩
  | none =>
    obtain rfl : row.eventId = e := (k.view db).versioned.pk_of_get hrow
    dsimp only
    rw [hrow]
    refine ⟨_, rfl, ⟨h.ready.loadVersioned row, fun {e' row₀} he' => ?_, h.fresh.plain⟩,
      rfl, rfl, ?_⟩
    · rcases Option.or_eq_some_iff.1 he' with he' | ⟨-, he'⟩
      · exact h.fresh.versioned he'
      · split at he'
        · next he => cases he'; rw [he]; exact hrow
        · cases he'
    · simp [Session.loadVersioned, hl]

/-! ## Flushes -/

/-- A flush that passes its checks goes on in a steady state. -/
theorem exec_flush (inp : Input UUID) (f : InventoryM α) (hf : k.Fresh db)
    (hkey : ∀ {key row}, k.session.loadedVersioned key = some row → row.eventId = key)
    (hm : k.session.UpdatesMatch (k.view db)) (hi : k.session.InsertsFit (k.view db)) :
    (flush >>= fun _ => f).exec db inp k = f.exec db inp k.flushed ∧ Steady db k.flushed := by
  have hok : k.flush db = .ok k.flushed := by rw [Work.flush, if_pos hm, if_pos hi]
  have hn : (Prog.flush fun _ => f).next db inp k = .continue f k.flushed := by
    simp only [Prog.next, hok]
  exact ⟨by simp only [flush, Prog.flush_bind, Prog.ret_bind, Prog.exec, hok], .flushed hkey,
    hf.next hn⟩

/-- The checks of a flush that changes one event row and one reservation, both as visible. -/
theorem Holds.checks {V : InventoryDb}
    (hh : Holds k (.set .empty row') (.set .empty r') .empty .empty)
    (hrow : V.versioned.get row'.eventId = some row) (hv : row.version = row'.version)
    (hr : V.plain.get r'.id = some r) : k.session.UpdatesMatch V ∧ k.session.InsertsFit V := by
  refine ⟨⟨?_, ?_⟩, ?_⟩
  · rw [hh.dirtyVersioned]
    simp [hrow, hv]
  · rw [hh.dirtyPlain]
    simpa using Table.mem_of_get hr
  · simp [Session.InsertsFit, hh.newVersioned, hh.newPlain]

/-- **An isolated write of a reservation and its event row is accepted.** The end of `confirm` and
`release`: both rows have been read, get new values and are flushed. -/
theorem Steady.exec_write (h : Steady db k) (inp : Input UUID)
    (hlrow : k.session.loadedVersioned row'.eventId = some row) (hv : row'.version = row.version)
    (hne : row' ≠ row) (hlr : k.session.loadedPlain r'.id = some r) (hne' : r' ≠ r)
    (f : InventoryM α) :
    ∃ k', (Prog.assignVersioned row' (.assignPlain r' (flush >>= fun _ => f))).exec db inp k =
        f.exec db inp k' ∧ Steady db k' ∧
      k'.view db = ⟨(k.view db).versioned.set (bump row'), (k.view db).plain.set r'⟩ := by
  have hh := h.ready.assign hlrow hne hlr hne'
  -- the session with both assignments
  set k₁ : InventoryWork :=
    { k with session := (k.session.assignVersioned row').assignPlain r' } with hk₁
  have hview : k₁.view db = k.view db := rfl
  have hlv : k₁.session.loadedVersioned = k.session.loadedVersioned := assign_loadedVersioned ..
  have hlp : k₁.session.loadedPlain = k.session.loadedPlain := assign_loadedPlain ..
  have hf : k₁.Fresh db :=
    ⟨fun hr => h.fresh.versioned (hlv ▸ hr), fun hr => h.fresh.plain (hlp ▸ hr)⟩
  obtain ⟨hm, hi⟩ := hh.checks (V := k₁.view db) (h.fresh.versioned hlrow) hv.symm
    (h.fresh.plain hlr)
  obtain ⟨hexec, hsteady⟩ := exec_flush inp f hf (fun hr => h.ready.keyed (hlv ▸ hr)) hm hi
  refine ⟨_, hexec, hsteady, ?_⟩
  rw [hh.view_flushed, hview]
  simp

/-! ## `confirm` and `release` -/

/-- `confirm` of a pending reservation. -/
theorem Steady.exec_confirm (h : Steady db k) (inp : Input UUID)
    (hr : (k.view db).plain.get i = some r) (hs : r.status = .pending) (hq : 0 < r.quantity)
    (hrow : (k.view db).versioned.get r.eventId = some row) (f : Reservation → InventoryM α) :
    ∃ k', (confirm i >>= f).exec db inp k = (f { r with status := .confirmed }).exec db inp k' ∧
      Steady db k' ∧ k'.view db = ⟨(k.view db).versioned.set (bump (row.moveSeats r.quantity)),
        (k.view db).plain.set { r with status := .confirmed }⟩ := by
  obtain rfl : r.id = i := (k.view db).plain.pk_of_get hr
  have he : row.eventId = r.eventId := (k.view db).versioned.pk_of_get hrow
  obtain ⟨k₁, hget, h₁, hview₁, hlr⟩ := h.getPlain hr
  obtain ⟨k₂, hget', h₂, hview₂, hlp, hlrow⟩ := h₁.getVersioned (hview₁.symm ▸ hrow)
  have hne : { r with status := .confirmed } ≠ r := fun he => by rw [← he] at hs; cases hs
  have hlrow' : k₂.session.loadedVersioned (row.moveSeats r.quantity).eventId = some row := by
    rw [moveSeats_eventId, he]
    exact hlrow
  have hlr' : k₂.session.loadedPlain { r with status := .confirmed }.id = some r := by
    rw [hlp]
    exact hlr
  obtain ⟨k₃, hexec, h₃, hview₃⟩ := h₂.exec_write inp hlrow' rfl (moveSeats_ne hq) hlr' hne
    (f { r with status := .confirmed })
  refine ⟨k₃, Eq.trans ?_ hexec, h₃, by rw [hview₃, hview₂, hview₁]⟩
  simp only [confirm, getReservation, getInventory, Prog.getPlain_bind, Prog.ret_bind, Prog.exec,
    hget, hs, ne_eq, not_true_eq_false, if_false, Prog.getVersioned_bind, hget',
    Prog.assignVersioned_bind, Prog.assignPlain_bind, flush, Prog.flush_bind, Prog.pure_eq]
  rfl

/-- `confirm` of any other reservation. -/
theorem Steady.exec_confirm_other (h : Steady db k) (inp : Input UUID)
    (hr : (k.view db).plain.get i = some r) (hs : r.status ≠ .pending)
    (f : Reservation → InventoryM α) :
    ∃ k', (confirm i >>= f).exec db inp k = (f r).exec db inp k' ∧ Steady db k' ∧
      k'.view db = k.view db := by
  obtain ⟨k₁, hget, h₁, hview₁, -⟩ := h.getPlain hr
  refine ⟨k₁, ?_, h₁, hview₁⟩
  simp only [confirm, getReservation, Prog.getPlain_bind, Prog.ret_bind, Prog.exec, hget,
    if_pos hs, Prog.pure_eq]

/-- `release` of a reservation that holds seats. -/
theorem Steady.exec_release (h : Steady db k) (inp : Input UUID) (expired : Bool)
    (hr : (k.view db).plain.get i = some r) (hs : r.status = .pending ∨ r.status = .confirmed)
    (hq : 0 < r.quantity) (hrow : (k.view db).versioned.get r.eventId = some row)
    (f : Reservation → InventoryM α) :
    ∃ k', (release i expired >>= f).exec db inp k =
        (f { r with status := releasedStatus expired }).exec db inp k' ∧
      Steady db k' ∧ k'.view db = ⟨(k.view db).versioned.set (bump (row.giveBack r)),
        (k.view db).plain.set { r with status := releasedStatus expired }⟩ := by
  obtain rfl : r.id = i := (k.view db).plain.pk_of_get hr
  have he : row.eventId = r.eventId := (k.view db).versioned.pk_of_get hrow
  have hs' : ¬(r.status ≠ .pending ∧ r.status ≠ .confirmed) := by
    rcases hs with hs | hs <;> simp [hs]
  obtain ⟨k₁, hget, h₁, hview₁, hlr⟩ := h.getPlain hr
  obtain ⟨k₂, hget', h₂, hview₂, hlp, hlrow⟩ := h₁.getVersioned (hview₁.symm ▸ hrow)
  have hne : { r with status := releasedStatus expired } ≠ r := by
    intro he
    rw [← he] at hs
    cases expired <;> rcases hs with hs | hs <;> cases hs
  have hlrow' : k₂.session.loadedVersioned (row.giveBack r).eventId = some row := by
    rw [giveBack_eventId, he]
    exact hlrow
  have hlr' : k₂.session.loadedPlain { r with status := releasedStatus expired }.id = some r := by
    rw [hlp]
    exact hlr
  obtain ⟨k₃, hexec, h₃, hview₃⟩ := h₂.exec_write inp hlrow' (giveBack_version row r)
    (giveBack_ne hq) hlr' hne (f { r with status := releasedStatus expired })
  refine ⟨k₃, Eq.trans ?_ hexec, h₃, by rw [hview₃, hview₂, hview₁]⟩
  simp only [release, getReservation, getInventory, Prog.getPlain_bind, Prog.ret_bind, Prog.exec,
    hget, if_neg hs', Prog.getVersioned_bind, hget', Prog.assignVersioned_bind,
    Prog.assignPlain_bind, flush, Prog.flush_bind, Prog.pure_eq]
  rfl

/-- `release` of any other reservation. -/
theorem Steady.exec_release_other (h : Steady db k) (inp : Input UUID) (expired : Bool)
    (hr : (k.view db).plain.get i = some r) (hs : r.status ≠ .pending ∧ r.status ≠ .confirmed)
    (f : Reservation → InventoryM α) :
    ∃ k', (release i expired >>= f).exec db inp k = (f r).exec db inp k' ∧ Steady db k' ∧
      k'.view db = k.view db := by
  obtain ⟨k₁, hget, h₁, hview₁, -⟩ := h.getPlain hr
  refine ⟨k₁, ?_, h₁, hview₁⟩
  simp only [release, getReservation, Prog.getPlain_bind, Prog.ret_bind, Prog.exec, hget,
    if_pos hs, Prog.pure_eq]

end

/-! ## Whole calls -/

section
variable {db : InventoryDb} {r : Reservation} {row : EventInventory} {i e : UUID}

/-- The event row of a stored reservation. -/
theorem exists_eventRow (h : DbInv db) (hr : db.plain.get i = some r) :
    ∃ row, db.versioned.get r.eventId = some row :=
  Table.exists_get (h.fk hr)

/-- **An isolated confirmation of a pending reservation commits.** -/
theorem confirm_pending (settings : Settings) (inp : Input UUID) (h : DbInv db)
    (hr : db.plain.get i = some r) (hs : r.status = .pending)
    (hrow : db.versioned.get r.eventId = some row) :
    ((Call.confirmReservation i).body settings).atomically db inp =
      (.returned (.reservation { r with status := .confirmed }),
        ⟨db.versioned.set (bump (row.moveSeats r.quantity)),
          db.plain.set { r with status := .confirmed }⟩) := by
  obtain ⟨k, hexec, hk, hview⟩ := (steady_init db).exec_confirm inp (by rwa [view_init]) hs
    (h.valid hr) (by rwa [view_init]) fun r => .ret (Result.reservation r)
  rw [view_init] at hview
  exact hexec.trans ((hk.exec_ret inp _).trans (by rw [hview]))

/-- An isolated confirmation of any other reservation returns it as it is. -/
theorem confirm_other (settings : Settings) (inp : Input UUID) (hr : db.plain.get i = some r)
    (hs : r.status ≠ .pending) :
    ((Call.confirmReservation i).body settings).atomically db inp =
      (.returned (.reservation r), db) := by
  obtain ⟨k, hexec, hk, hview⟩ := (steady_init db).exec_confirm_other inp (by rwa [view_init]) hs
    fun r => .ret (Result.reservation r)
  rw [view_init] at hview
  exact hexec.trans ((hk.exec_ret inp _).trans (by rw [hview]))

/-- An isolated confirmation of a missing reservation raises. -/
theorem confirm_missing (settings : Settings) (inp : Input UUID) (hr : db.plain.get i = none) :
    ((Call.confirmReservation i).body settings).atomically db inp =
      (.raised (.domain (.notFound s!"No reservation {i}")), db) := by
  simp [Prog.atomically, Call.body, confirm, getReservation, Prog.exec, Work.getPlain, Work.init,
    Session.objPlain, Session.empty, Work.view, hr, raiseDomain]

/-- **An isolated release of a reservation that holds seats commits.** -/
theorem release_active (settings : Settings) (inp : Input UUID) (h : DbInv db) (expired : Bool)
    (hr : db.plain.get i = some r) (hs : r.status = .pending ∨ r.status = .confirmed)
    (hrow : db.versioned.get r.eventId = some row) :
    ((Call.releaseReservation i expired).body settings).atomically db inp =
      (.returned (.reservation { r with status := releasedStatus expired }),
        ⟨db.versioned.set (bump (row.giveBack r)),
          db.plain.set { r with status := releasedStatus expired }⟩) := by
  obtain ⟨k, hexec, hk, hview⟩ := (steady_init db).exec_release inp expired (by rwa [view_init]) hs
    (h.valid hr) (by rwa [view_init]) fun r => .ret (Result.reservation r)
  rw [view_init] at hview
  exact hexec.trans ((hk.exec_ret inp _).trans (by rw [hview]))

/-- An isolated release of any other reservation returns it as it is. -/
theorem release_other (settings : Settings) (inp : Input UUID) (expired : Bool)
    (hr : db.plain.get i = some r) (hs : r.status ≠ .pending ∧ r.status ≠ .confirmed) :
    ((Call.releaseReservation i expired).body settings).atomically db inp =
      (.returned (.reservation r), db) := by
  obtain ⟨k, hexec, hk, hview⟩ := (steady_init db).exec_release_other inp expired
    (by rwa [view_init]) hs fun r => .ret (Result.reservation r)
  rw [view_init] at hview
  exact hexec.trans ((hk.exec_ret inp _).trans (by rw [hview]))

/-- An isolated release of a missing reservation raises. -/
theorem release_missing (settings : Settings) (inp : Input UUID) (expired : Bool)
    (hr : db.plain.get i = none) :
    ((Call.releaseReservation i expired).body settings).atomically db inp =
      (.raised (.domain (.notFound s!"No reservation {i}")), db) := by
  simp [Prog.atomically, Call.body, release, getReservation, Prog.exec, Work.getPlain, Work.init,
    Session.objPlain, Session.empty, Work.view, hr, raiseDomain]

/-- An isolated initialisation of an event that has its row returns it as it is. -/
theorem initialize_existing (settings : Settings) (inp : Input UUID) (n : ℤ)
    (hrow : db.versioned.get e = some row) :
    ((Call.initializeInventory e n).body settings).atomically db inp =
      (.returned (.inventory row), db) := by
  obtain ⟨k, hget, hk, hview, -⟩ := (steady_init db).getVersioned (by rwa [view_init])
  rw [view_init] at hview
  refine Eq.trans ?_ ((hk.exec_ret inp (Result.inventory row)).trans (by rw [hview]))
  simp only [Prog.atomically, Call.body, initializeInventory, getInventory, Prog.getVersioned_bind,
    Prog.ret_bind, Prog.exec, hget, Prog.pure_eq]

/-- The read of an event row that is missing. -/
theorem getVersioned_missing (he : db.versioned.get e = none) :
    (Work.getVersioned db .init e : _ × InventoryWork) = (none, .init) := by
  simp [Work.getVersioned, Work.init, Session.objVersioned, Session.empty, Work.view, he]

/-- **An isolated initialisation of an event without a row commits one.** -/
theorem initialize_missing (settings : Settings) (inp : Input UUID) (n : ℤ)
    (he : db.versioned.get e = none) :
    ((Call.initializeInventory e n).body settings).atomically db inp =
      (.returned (.inventory ⟨e, n, 0, 0, 1⟩), ⟨db.versioned.set ⟨e, n, 0, 0, 1⟩, db.plain⟩) := by
  let k : InventoryWork := ⟨Session.empty.addVersioned ⟨e, n, 0, 0, 1⟩, .empty, 0⟩
  have hh : Holds k .empty .empty (.set .empty ⟨e, n, 0, 0, 1⟩) .empty := ⟨rfl, rfl, rfl, rfl⟩
  have hview : k.view db = db := Db.overlay_empty db
  have hm : k.session.UpdatesMatch (k.view db) := by
    simp [Session.UpdatesMatch, hh.dirtyVersioned, hh.dirtyPlain]
  have hi : k.session.InsertsFit (k.view db) := by
    simp [Session.InsertsFit, hh.newVersioned, hh.newPlain, hview, ← Table.get_eq_none, he]
  have hkey : ∀ {key row}, k.session.loadedVersioned key = some row → row.eventId = key := by
    intro key row h
    cases h
  have hfresh : k.Fresh db := by
    constructor
    · intro key row h
      cases h
    · intro key row h
      cases h
  obtain ⟨hexec, hk⟩ := exec_flush inp (.ret (Result.inventory ⟨e, n, 0, 0, 1⟩)) hfresh hkey hm hi
  refine Eq.trans ?_ (hexec.trans ((hk.exec_ret inp _).trans ?_))
  · simp only [Prog.atomically, Call.body, initializeInventory, getInventory,
      Prog.getVersioned_bind, Prog.ret_bind, Prog.exec, getVersioned_missing he,
      Prog.addVersioned_bind, flush, Prog.flush_bind, Prog.pure_eq]
    rfl
  · rw [hh.view_flushed, hview]
    simp

/-- The event row after `adjust_capacity`: a capacity that is the old one is not written. -/
def EventInventory.adjusted (row : EventInventory) (n : ℤ) : EventInventory :=
  if row.totalCapacity = n then row else bump { row with totalCapacity := n }

@[simp] theorem adjusted_eventId (row : EventInventory) (n : ℤ) :
    (row.adjusted n).eventId = row.eventId := by
  unfold EventInventory.adjusted; split <;> rfl

@[simp] theorem adjusted_totalCapacity (row : EventInventory) (n : ℤ) :
    (row.adjusted n).totalCapacity = n := by
  unfold EventInventory.adjusted; split <;> simp_all

@[simp] theorem adjusted_reservedCount (row : EventInventory) (n : ℤ) :
    (row.adjusted n).reservedCount = row.reservedCount := by
  unfold EventInventory.adjusted; split <;> rfl

@[simp] theorem adjusted_confirmedCount (row : EventInventory) (n : ℤ) :
    (row.adjusted n).confirmedCount = row.confirmedCount := by
  unfold EventInventory.adjusted; split <;> rfl

/-- The session where `adjust_capacity` flushes, and the visible rows after its flush. -/
theorem adjust_flush (row : EventInventory) (n : ℤ) (hrow : db.versioned.get row.eventId = some row)
    {k : InventoryWork}
    (hk : k = ⟨(readRow row).assignVersioned { row with totalCapacity := n }, .empty, 0⟩) :
    k.session.UpdatesMatch db ∧ k.session.InsertsFit db ∧
      k.flushed.view db = ⟨db.versioned.set (row.adjusted n), db.plain⟩ := by
  have hview : k.view db = db := by subst hk; exact Db.overlay_empty db
  by_cases he : row.totalCapacity = n
  · have hsame : { row with totalCapacity := n } = row := by rw [← he]
    have hh : Holds k .empty .empty .empty .empty := by
      rw [hk, hsame, Session.assignVersioned, pk_inventory, readRow_loaded, if_pos rfl]
      exact ⟨Table.erase_empty _, rfl, rfl, rfl⟩
    have hadj : db.versioned.set (row.adjusted n) = db.versioned := by
      rw [EventInventory.adjusted, if_pos he]
      exact Table.set_of_get hrow
    refine ⟨by simp [Session.UpdatesMatch, hh.dirtyVersioned, hh.dirtyPlain],
      by simp [Session.InsertsFit, hh.newVersioned, hh.newPlain], ?_⟩
    rw [hh.view_flushed, hview, hadj]
    simp
  · have hne : { row with totalCapacity := n } ≠ row :=
      fun h => he (congrArg EventInventory.totalCapacity h).symm
    have hh : Holds k (.set .empty { row with totalCapacity := n }) .empty .empty .empty := by
      rw [hk, readRow_assign hne rfl]
      exact ⟨rfl, rfl, rfl, rfl⟩
    refine ⟨by simp [Session.UpdatesMatch, hh.dirtyVersioned, hh.dirtyPlain, hrow],
      by simp [Session.InsertsFit, hh.newVersioned, hh.newPlain], ?_⟩
    rw [hh.view_flushed, hview, EventInventory.adjusted, if_neg he]
    simp

/-- **An isolated adjustment of an existing row sets its capacity.** -/
theorem adjust_existing (settings : Settings) (inp : Input UUID) (n : ℤ)
    (hrow : db.versioned.get e = some row) :
    ((Call.adjustCapacity e n).body settings).atomically db inp =
      (.returned (.inventory (row.adjusted n)), ⟨db.versioned.set (row.adjusted n), db.plain⟩) := by
  obtain rfl : row.eventId = e := db.versioned.pk_of_get hrow
  have hget : (Work.getVersioned db Work.init row.eventId : _ × InventoryWork) =
      (some row, ⟨readRow row, .empty, 0⟩) := by
    simp [Work.getVersioned, Work.init, Session.objVersioned, Session.empty, Work.view, hrow,
      readRow]
  have hread : Steady db ⟨readRow row, .empty, 0⟩ := by
    obtain ⟨k', hk', h, -⟩ := (steady_init db).getVersioned (by rwa [view_init])
    cases hget.symm.trans hk'
    exact h
  let k : InventoryWork :=
    ⟨(readRow row).assignVersioned { row with totalCapacity := n }, .empty, 0⟩
  have hload : k.session.loadedVersioned = (readRow row).loadedVersioned := by
    simp only [k, Session.assignVersioned]
    split <;> rfl
  have hload' : k.session.loadedPlain = (readRow row).loadedPlain := by
    simp only [k, Session.assignVersioned]
    split <;> rfl
  have hfresh : k.Fresh db :=
    ⟨fun hr => hread.fresh.versioned (hload ▸ hr), fun hr => hread.fresh.plain (hload' ▸ hr)⟩
  have hview : k.view db = db := Db.overlay_empty db
  obtain ⟨hm, hi, hflushed⟩ := adjust_flush row n hrow (k := k) rfl
  obtain ⟨hexec, h₁⟩ := exec_flush inp (.getVersioned row.eventId fun o =>
    .ret (Result.inventory (o.getD row))) hfresh (fun hr => hread.ready.keyed (hload ▸ hr))
    (hview.symm ▸ hm) (hview.symm ▸ hi)
  have hrow' : (k.flushed.view db).versioned.get row.eventId = some (row.adjusted n) := by
    rw [hflushed, ← adjusted_eventId row n]
    exact get_set_inventory _ _
  obtain ⟨k₂, hget₂, h₂, hview₂, -⟩ := h₁.getVersioned hrow'
  refine Eq.trans ?_ (hexec.trans ?_)
  · simp only [Prog.atomically, Call.body, adjustCapacity, getInventory, Prog.getVersioned_bind,
      Prog.ret_bind, Prog.exec, hget, Prog.assignVersioned_bind, flush, Prog.flush_bind,
      Prog.pure_eq]
    rfl
  · rw [Prog.exec, hget₂, h₂.exec_ret, hview₂, hflushed]
    rfl

/-- An isolated adjustment of an event without a row raises. -/
theorem adjust_missing (settings : Settings) (inp : Input UUID) (n : ℤ)
    (he : db.versioned.get e = none) :
    ((Call.adjustCapacity e n).body settings).atomically db inp =
      (.raised (.domain (.notFound s!"No inventory record for event {e}")), db) := by
  simp [Prog.atomically, Call.body, adjustCapacity, getInventory, Prog.exec,
    getVersioned_missing he, raiseDomain]

end

end EventSphere.Inventory
