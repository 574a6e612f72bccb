import EventSphere.Inventory.Service
import EventSphere.UnitOfWork.Locked

/-!
# What the inventory's transactions write

Every flush of every call is one of six changes (`Change`): nothing, a new event row, a new
capacity, a new reservation with its seats, or a confirmed or released reservation with its seats
moved or given back. `Call.body_safe` proves it of the programs, whatever the database answers; all
that is said about the tables afterwards is derived from these shapes.
-/

namespace EventSphere.Inventory

/-- The columns of a reservation that no method assigns; a stored reservation has a positive
quantity. -/
instance : Framed Reservation where
  Frame := UUID × UUID × ℤ × Instant
  frame r := (r.eventId, r.orderId, r.quantity, r.expiresAt)
  valid f := 0 < f.2.2.1
  fk_eq h := congrArg Prod.fst h

@[simp] theorem valid_frame (r : Reservation) : valid (frame r) ↔ 0 < r.quantity := Iff.rfl

theorem frame_eq {r r' : Reservation} : frame r = frame r' ↔ r.eventId = r'.eventId ∧
    r.orderId = r'.orderId ∧ r.quantity = r'.quantity ∧ r.expiresAt = r'.expiresAt := by
  change (_, _, _, _) = (_, _, _, _) ↔ _
  simp only [Prod.mk.injEq]

/-- The state of an inventory transaction. -/
abbrev InventoryWork := Work EventInventory Reservation

/-- What is waiting for a flush: dirty event rows, dirty reservations, new event rows and new
reservations. -/
structure Holds (k : InventoryWork) (dv : Table EventInventory) (dp : Table Reservation)
    (nv : Table EventInventory) (np : Table Reservation) : Prop where
  dirtyVersioned : k.session.dirtyVersioned = dv
  dirtyPlain : k.session.dirtyPlain = dp
  newVersioned : k.session.newVersioned = nv
  newPlain : k.session.newPlain = np

/-- The calls that release the reservation `r` with the given value of `expired`: an explicit
release of it, or a sweep that read it as pending. -/
def ReleasedBy (call : Call) (r : Reservation) (expired : Bool) : Prop :=
  call = .releaseReservation r.id expired ∨
  call = .sweepExpiredReservations ∧ expired = true ∧ r.status = .pending

/-- The status a release leaves. -/
def releasedStatus (expired : Bool) : ReservationStatus := if expired then .expired else .released

/-- The event row with `q` more seats held. -/
def EventInventory.hold (i : EventInventory) (q : ℤ) : EventInventory :=
  { i with reservedCount := i.reservedCount + q }

/-- The event row with the seats of a confirmed reservation moved to the sold ones. -/
def EventInventory.moveSeats (i : EventInventory) (q : ℤ) : EventInventory :=
  { i with reservedCount := i.reservedCount - q, confirmedCount := i.confirmedCount + q }

/-- The changes a flush of a call can carry. -/
inductive Change : Call → InventoryWork → Prop
  | idle {e : UUID} {n : ℤ} {k : InventoryWork} (h : Holds k .empty .empty .empty .empty) :
      Change (.adjustCapacity e n) k
  | create {e : UUID} {n : ℤ} {k : InventoryWork}
      (h : Holds k .empty .empty (.set .empty ⟨e, n, 0, 0, 1⟩) .empty) :
      Change (.initializeInventory e n) k
  | adjust {e : UUID} {n : ℤ} {k : InventoryWork} {row : EventInventory}
      (hrow : k.session.loadedVersioned e = some row) (he : row.eventId = e)
      (h : Holds k (.set .empty { row with totalCapacity := n }) .empty .empty .empty) :
      Change (.adjustCapacity e n) k
  | reserve {e o : UUID} {q : ℤ} {k : InventoryWork} {row : EventInventory} {r : Reservation}
      (hrow : k.session.loadedVersioned e = some row) (he : row.eventId = e) (hq : 0 < q)
      (hav : q ≤ row.available) (hre : r.eventId = e) (hro : r.orderId = o) (hrq : r.quantity = q)
      (hs : r.status = .pending) (hw : k.writes = .empty)
      (h : Holds k (.set .empty (row.hold q)) .empty .empty (.set .empty r)) :
      Change (.reserveSeats e o q) k
  | confirm {k : InventoryWork} {row : EventInventory} {r : Reservation}
      (hr : k.session.loadedPlain r.id = some r) (hs : r.status = .pending) (hq : 0 < r.quantity)
      (hrow : k.session.loadedVersioned r.eventId = some row) (he : row.eventId = r.eventId)
      (h : Holds k (.set .empty (row.moveSeats r.quantity))
        (.set .empty { r with status := .confirmed }) .empty .empty) :
      Change (.confirmReservation r.id) k
  | release {call : Call} {k : InventoryWork} {row : EventInventory} {r : Reservation}
      {expired : Bool} (hc : ReleasedBy call r expired)
      (hr : k.session.loadedPlain r.id = some r)
      (hs : r.status = .pending ∨ r.status = .confirmed) (hq : 0 < r.quantity)
      (hrow : k.session.loadedVersioned r.eventId = some row) (he : row.eventId = r.eventId)
      (h : Holds k (.set .empty (row.giveBack r))
        (.set .empty { r with status := releasedStatus expired }) .empty .empty) :
      Change call k

/-! ## Lemmas on the rows -/

section
variable (i : EventInventory) (q : ℤ)

@[simp] theorem hold_eventId : (i.hold q).eventId = i.eventId := rfl

@[simp] theorem hold_totalCapacity : (i.hold q).totalCapacity = i.totalCapacity := rfl

@[simp] theorem hold_reservedCount : (i.hold q).reservedCount = i.reservedCount + q := rfl

@[simp] theorem hold_confirmedCount : (i.hold q).confirmedCount = i.confirmedCount := rfl

@[simp] theorem hold_taken : (i.hold q).taken = i.taken + q := by
  simp only [EventInventory.taken, hold_reservedCount, hold_confirmedCount]
  omega

@[simp] theorem moveSeats_eventId : (i.moveSeats q).eventId = i.eventId := rfl

@[simp] theorem moveSeats_totalCapacity : (i.moveSeats q).totalCapacity = i.totalCapacity := rfl

@[simp] theorem moveSeats_reservedCount : (i.moveSeats q).reservedCount = i.reservedCount - q := rfl

@[simp] theorem moveSeats_confirmedCount : (i.moveSeats q).confirmedCount = i.confirmedCount + q :=
  rfl

@[simp] theorem moveSeats_taken : (i.moveSeats q).taken = i.taken := by
  simp only [EventInventory.taken, moveSeats_reservedCount, moveSeats_confirmedCount]
  omega

end

@[simp] theorem giveBack_eventId (i : EventInventory) (r : Reservation) :
    (i.giveBack r).eventId = i.eventId := by
  unfold EventInventory.giveBack; split <;> rfl

@[simp] theorem giveBack_version (i : EventInventory) (r : Reservation) :
    (i.giveBack r).version = i.version := by
  unfold EventInventory.giveBack; split <;> rfl

@[simp] theorem giveBack_totalCapacity (i : EventInventory) (r : Reservation) :
    (i.giveBack r).totalCapacity = i.totalCapacity := by
  unfold EventInventory.giveBack; split <;> rfl

theorem giveBack_reservedCount (i : EventInventory) (r : Reservation) :
    (i.giveBack r).reservedCount =
      i.reservedCount - if r.status = .pending then r.quantity else 0 := by
  unfold EventInventory.giveBack; split <;> simp

theorem giveBack_confirmedCount (i : EventInventory) (r : Reservation) :
    (i.giveBack r).confirmedCount =
      i.confirmedCount - if r.status = .pending then 0 else r.quantity := by
  unfold EventInventory.giveBack; split <;> simp

@[simp] theorem giveBack_taken (i : EventInventory) (r : Reservation) :
    (i.giveBack r).taken = i.taken - r.quantity := by
  unfold EventInventory.giveBack EventInventory.taken; split <;> (dsimp only; omega)

/-- Giving seats back changes the row. -/
theorem giveBack_ne {i : EventInventory} {r : Reservation} (h : 0 < r.quantity) :
    i.giveBack r ≠ i := fun he => by
  have := congrArg EventInventory.taken he
  rw [giveBack_taken] at this
  omega

/-- Holding seats changes the row. -/
theorem hold_ne {i : EventInventory} {q : ℤ} (h : 0 < q) : i.hold q ≠ i := fun he => by
  have := congrArg EventInventory.reservedCount he
  simp only [EventInventory.hold] at this
  omega

/-- Moving seats changes the row. -/
theorem moveSeats_ne {i : EventInventory} {q : ℤ} (h : 0 < q) : i.moveSeats q ≠ i := fun he => by
  have := congrArg EventInventory.reservedCount he
  simp only [EventInventory.moveSeats] at this
  omega

/-! ## Every change is disciplined -/

/-- What a state that holds a change flushes. -/
theorem Holds.pending {k : InventoryWork} {dv nv : Table EventInventory}
    {dp np : Table Reservation} (h : Holds k dv dp nv np) :
    k.session.pending = ⟨(dv.mapRows bump pk_bump).overlay nv, dp.overlay np⟩ := by
  rw [Session.pending, h.dirtyVersioned, h.dirtyPlain, h.newVersioned, h.newPlain]

/-- A change of one event row and at most one reservation of the event is disciplined. -/
theorem Holds.disciplined {k : InventoryWork} {row row' : EventInventory}
    {dp np : Table Reservation} (h : Holds k (.set .empty row') dp .empty np)
    (hrow : k.session.loadedVersioned row'.eventId = some row) (hv : row'.version = row.version)
    (hpart : ∀ {i r}, dp.get i = some r →
      ∃ r₀, k.session.loadedPlain i = some r₀ ∧ frame r = frame r₀)
    (hcover : ∀ {i r}, (dp.overlay np).get i = some r → r.eventId = row'.eventId ∧ 0 < r.quantity) :
    k.session.Disciplined where
  update {key r} hr := by
    rw [h.dirtyVersioned, Table.get_set] at hr
    split at hr
    · next hk => cases hr; exact ⟨row, hk ▸ hrow, hv⟩
    · cases hr
  part hr := hpart (by rwa [h.dirtyPlain] at hr)
  cover {i r} hr := by
    rw [h.pending] at hr ⊢
    simpa using (hcover hr).1
  valid {i r} hr := by
    rw [h.pending] at hr
    exact (hcover hr).2

/-- The only row of a one-row table. -/
theorem get_single {r r' : Reservation} {i : UUID}
    (h : (Table.set .empty r').get i = some r) : i = r'.id ∧ r = r' := by
  rw [Table.get_set] at h
  split at h
  · next hi => cases h; exact ⟨hi, rfl⟩
  · cases h

/-- **Every change is disciplined.** -/
theorem Change.disciplined {call : Call} {k : InventoryWork} (h : Change call k) :
    k.session.Disciplined := by
  cases h with
  | idle h =>
    refine ⟨fun hr => ?_, fun hr => ?_, fun hr => ?_, fun hr => ?_⟩
    · rw [h.dirtyVersioned] at hr; cases hr
    · rw [h.dirtyPlain] at hr; cases hr
    · rw [h.pending] at hr; cases hr
    · rw [h.pending] at hr; cases hr
  | create h =>
    refine ⟨fun hr => ?_, fun hr => ?_, fun hr => ?_, fun hr => ?_⟩
    · rw [h.dirtyVersioned] at hr; cases hr
    · rw [h.dirtyPlain] at hr; cases hr
    · rw [h.pending] at hr; cases hr
    · rw [h.pending] at hr; cases hr
  | adjust hrow he h =>
    subst he
    exact h.disciplined hrow rfl nofun nofun
  | reserve hrow he hq hav hre hro hrq hs hw h =>
    subst he
    refine h.disciplined hrow rfl nofun fun {i r'} hr' => ?_
    rw [Table.overlay_set, Table.overlay_empty] at hr'
    obtain ⟨-, rfl⟩ := get_single hr'
    exact ⟨hre, hrq ▸ hq⟩
  | confirm hr hs hq hrow he h =>
    rw [← he] at hrow
    refine h.disciplined hrow rfl (fun {i r'} hr' => ?_) fun {i r'} hr' => ?_
    · obtain ⟨rfl, rfl⟩ := get_single hr'
      exact ⟨_, hr, rfl⟩
    · rw [Table.overlay_empty] at hr'
      obtain ⟨-, rfl⟩ := get_single hr'
      exact ⟨he.symm, hq⟩
  | release hc hr hs hq hrow he h =>
    refine h.disciplined (by simpa [he] using hrow) (by simp) (fun {i r'} hr' => ?_)
      fun {i r'} hr' => ?_
    · obtain ⟨rfl, rfl⟩ := get_single hr'
      exact ⟨_, hr, rfl⟩
    · rw [Table.overlay_empty] at hr'
      obtain ⟨-, rfl⟩ := get_single hr'
      exact ⟨by simp [he], hq⟩

/-! ## The programs -/

/-- What a call is held to: its flushes are changes; a returned reservation has been written with
its seats and nothing else; a capacity error has read too few seats, and a conflict has lost every
attempt. -/
def Call.spec (settings : Settings) (call : Call) :
    Spec EventInventory Reservation InventoryError Result where
  flush := Change call
  ret a k :=
    match call with
    | .reserveSeats e o q => ∃ (row : EventInventory) (r : Reservation), a = .reservation r ∧
        r.eventId = e ∧ r.orderId = o ∧ r.quantity = q ∧ r.status = .pending ∧ row.eventId = e ∧
        k.writes = ⟨.set .empty (bump (row.hold q)), .set .empty r⟩
    | _ => True
  raise err k :=
    match call with
    | .reserveSeats e _ q =>
      (∀ msg, err = .domain (.capacityExceeded msg) → k.writes = .empty ∧
        ∃ row, k.session.loadedVersioned e = some row ∧ row.available < q) ∧
      ∀ msg, err = .domain (.conflict msg) → settings.optimisticRetryAttempts ≤ k.conflicts
    | _ => True

/-- A state between two repository methods: nothing waits for a flush, and the identity map has
every event row under its key. -/
structure Ready (k : InventoryWork) : Prop where
  clean : k.session.Clean
  keyed : ∀ {key row}, k.session.loadedVersioned key = some row → row.eventId = key

theorem ready_init (n : ℕ) : Ready ⟨.empty, .empty, n⟩ where
  clean := ⟨rfl, rfl, rfl, rfl⟩
  keyed := nofun

/-- A flush leaves nothing waiting. -/
theorem Ready.flushed {k : InventoryWork}
    (h : ∀ {key row}, k.session.loadedVersioned key = some row → row.eventId = key) :
    Ready k.flushed where
  clean := ⟨rfl, rfl, rfl, rfl⟩
  keyed {key row} hrow := by
    rcases Option.or_eq_some_iff.1 hrow with hrow | ⟨-, hrow⟩
    · exact k.session.pending.versioned.pk_of_get hrow
    · exact h hrow

/-- Assigning one event row and one reservation, both with new values. -/
theorem Ready.assign {k : InventoryWork} (h : Ready k) {row row' : EventInventory}
    {r r' : Reservation} (hrow : k.session.loadedVersioned row'.eventId = some row)
    (hne : row' ≠ row) (hr : k.session.loadedPlain r'.id = some r) (hne' : r' ≠ r) :
    Holds { k with session := (k.session.assignVersioned row').assignPlain r' }
      (.set .empty row') (.set .empty r') .empty .empty := by
  have h1 : k.session.assignVersioned row' =
      { k.session with dirtyVersioned := .set .empty row' } := by
    rw [Session.assignVersioned, if_neg, h.clean.dirtyVersioned]
    rw [pk_inventory, hrow]
    exact fun he => hne (Option.some.inj he).symm
  have h2 : ({ k.session with dirtyVersioned := .set .empty row' } : Session _ _).assignPlain r' =
      { k.session with dirtyVersioned := .set .empty row', dirtyPlain := .set .empty r' } := by
    rw [Session.assignPlain, if_neg, h.clean.dirtyPlain]
    change ¬ k.session.loadedPlain r'.id = some r'
    rw [hr]
    exact fun he => hne' (Option.some.inj he).symm
  rw [h1, h2]
  exact ⟨rfl, rfl, h.clean.newVersioned, h.clean.newPlain⟩

theorem assign_loadedVersioned (σ : Session EventInventory Reservation) (row : EventInventory)
    (r : Reservation) :
    ((σ.assignVersioned row).assignPlain r).loadedVersioned = σ.loadedVersioned := by
  unfold Session.assignPlain Session.assignVersioned
  split <;> split <;> rfl

theorem assign_loadedPlain (σ : Session EventInventory Reservation) (row : EventInventory)
    (r : Reservation) : ((σ.assignVersioned row).assignPlain r).loadedPlain = σ.loadedPlain := by
  unfold Session.assignPlain Session.assignVersioned
  split <;> split <;> rfl

section
variable {S : Spec EventInventory Reservation InventoryError Reservation} {k : InventoryWork}

/-- The end of `confirm` and `release`: the loaded reservation and its event row get new values, are
flushed, and the reservation is returned. -/
theorem Ready.write_safe (call : Call) (h : Ready k) {row row' : EventInventory}
    {r r' : Reservation}
    (hrow : k.session.loadedVersioned row'.eventId = some row) (hne : row' ≠ row)
    (hr : k.session.loadedPlain r'.id = some r) (hne' : r' ≠ r)
    (hflush : ∀ k' : InventoryWork, k'.session.loadedVersioned = k.session.loadedVersioned →
      k'.session.loadedPlain = k.session.loadedPlain → k'.writes = k.writes →
      Holds k' (.set .empty row') (.set .empty r') .empty .empty → Change call k' ∧ S.flush k')
    (hret : ∀ k', Ready k' → (∀ i ≠ r'.id, k'.session.loadedPlain i = k.session.loadedPlain i) →
      k'.writes.plain = k.writes.plain.set r' → S.ret r' k')
    (hraise : ∀ e k', S.raise (.flush e) k') :
    S.Safe (.assignVersioned row' (.assignPlain r' (flush >>= fun _ => .ret r'))) k := by
  have hh := h.assign hrow hne hr hne'
  obtain ⟨hc, hf⟩ :=
    hflush { k with session := (k.session.assignVersioned row').assignPlain r' }
      (assign_loadedVersioned _ _ _) (assign_loadedPlain _ _ _) rfl hh
  have hready :
      Ready { k with session := (k.session.assignVersioned row').assignPlain r' }.flushed :=
    .flushed fun hrow' => h.keyed (by rwa [← assign_loadedVersioned k.session row' r'])
  refine ⟨hc.disciplined, hf, ⟨hready.clean, hret _ hready (fun i hi => ?_) ?_⟩, fun e =>
    hraise e _⟩
  · change ((Session.pending _).plain.get i).or _ = _
    rw [hh.pending, assign_loadedPlain]
    simp [hi]
  · change Table.overlay _ (Session.pending _).plain = _
    rw [hh.pending]
    simp

/-- A reservation that has been read brings its event row along. -/
theorem Ready.loadVersioned (h : Ready k) (row : EventInventory) :
    Ready { k with session := k.session.loadVersioned row } where
  clean := ⟨h.clean.dirtyVersioned, h.clean.dirtyPlain, h.clean.newVersioned, h.clean.newPlain⟩
  keyed {key row'} hrow' := by
    rcases Option.or_eq_some_iff.1 hrow' with hrow' | ⟨-, hrow'⟩
    · exact h.keyed hrow'
    · split at hrow'
      · next hk => cases hrow'; exact hk.symm
      · cases hrow'

theorem Ready.loadPlain (h : Ready k) (r : Reservation) :
    Ready { k with session := k.session.loadPlain r } where
  clean := ⟨h.clean.dirtyVersioned, h.clean.dirtyPlain, h.clean.newVersioned, h.clean.newPlain⟩
  keyed := h.keyed

/-- In a ready state, the read of the event row of a loaded reservation finds it. -/
theorem Ready.getVersioned_safe (h : Ready k) {r : Reservation} {i : UUID}
    (hr : k.session.loadedPlain i = some r) {f : Option EventInventory → InventoryM Reservation}
    (hf : ∀ row k', Ready k' → k'.session.loadedPlain = k.session.loadedPlain →
      k'.writes = k.writes → k'.session.loadedVersioned r.eventId = some row →
        row.eventId = r.eventId →
      S.Safe (f (some row)) k') : S.Safe (.getVersioned r.eventId f) k := by
  have hobj : k.session.objVersioned r.eventId = k.session.loadedVersioned r.eventId := by
    rw [Session.objVersioned, h.clean.dirtyVersioned, Table.get_empty, Option.none_or]
  simp only [Spec.Safe, hobj]
  cases hl : k.session.loadedVersioned r.eventId with
  | some row => exact hf row k h rfl rfl hl (h.keyed hl)
  | none =>
    refine ⟨fun row hrow => hf row _ (h.loadVersioned row) rfl rfl ?_ hrow, fun hfk => ?_⟩
    · rw [← hrow, pk_inventory] at hl ⊢
      simp [Session.loadVersioned, hl]
    · exact absurd rfl (hfk i r hr)

/-- The program of `confirm`. -/
theorem confirm_safe {rid : UUID} (hflush : ∀ k', Change (.confirmReservation rid) k' → S.flush k')
    (hret : ∀ r k', Ready k' → S.ret r k') (hraise : ∀ e k', S.raise e k') :
    S.Safe (confirm rid) .init := by
  refine ⟨fun r hr hv => ?_, hraise _ _⟩
  subst hr
  have hready := (ready_init 0).loadPlain r
  have hloaded : (Session.empty.loadPlain r : Session EventInventory _).loadedPlain r.id =
      some r := by
    simp [Session.loadPlain, Session.empty]
  change S.Safe (ite (r.status ≠ .pending) _ _) _
  split
  · exact ⟨hready.clean, hret _ _ hready⟩
  · next hs =>
    rw [not_not] at hs
    refine hready.getVersioned_safe hloaded fun row k' hk' hp _ hrow he => ?_
    have hr : k'.session.loadedPlain r.id = some r := by rw [hp]; exact hloaded
    refine hk'.write_safe (.confirmReservation r.id) (he ▸ hrow) (moveSeats_ne hv) hr
      (fun hne => ?_) (fun k'' hv' hp' _ hh => ?_) (fun k'' hk'' _ _ => hret _ _ hk'')
      fun _ _ => hraise _ _
    · have := congrArg Reservation.status hne
      rw [hs] at this
      cases this
    · have hc : Change (.confirmReservation r.id) k'' :=
        .confirm (hp' ▸ hr) hs hv (hv' ▸ hrow) he hh
      exact ⟨hc, hflush _ hc⟩

/-- The program of `release`, in the middle of a transaction. It leaves the other loaded
reservations as they were. -/
theorem release_safe {call : Call} {rid : UUID} {expired : Bool} (h : Ready k)
    (hmap : ∀ r, k.session.loadedPlain rid = some r → r.id = rid ∧ 0 < r.quantity)
    (hby : ∀ r, k.session.loadedPlain rid = some r ∨ k.session.loadedPlain rid = none →
      r.id = rid → ReleasedBy call r expired)
    (hflush : ∀ k', Change call k' → S.flush k')
    (hret : ∀ r k', Ready k' → (∀ i ≠ rid, k'.session.loadedPlain i = k.session.loadedPlain i) →
      r.id = rid → k'.writes.plain.keys ⊆ insert rid k.writes.plain.keys → S.ret r k')
    (hraise : ∀ e k', S.raise e k') : S.Safe (release rid expired) k := by
  have hobj : k.session.objPlain rid = k.session.loadedPlain rid := by
    rw [Session.objPlain, h.clean.dirtyPlain, Table.get_empty, Option.none_or]
  -- the rest of the program, once the reservation is loaded
  have key : ∀ (r : Reservation) (k' : InventoryWork)
      {f : Option EventInventory → InventoryM Reservation},
      (∀ row, f (some row) = .assignVersioned (row.giveBack r) (.assignPlain
        { r with status := releasedStatus expired }
        (flush >>= fun _ => .ret { r with status := releasedStatus expired }))) →
      Ready k' → r.id = rid → 0 < r.quantity → k'.session.loadedPlain r.id = some r →
      (∀ i ≠ rid, k'.session.loadedPlain i = k.session.loadedPlain i) →
      k'.writes = k.writes → ReleasedBy call r expired →
      S.Safe (if r.status ≠ .pending ∧ r.status ≠ .confirmed then .ret r else
        .getVersioned r.eventId f) k' := by
    intro r k' f hf hk' hid hq hl hother hw hb
    split
    · exact ⟨hk'.clean, hret _ _ hk' hother hid (hw ▸ Finset.subset_insert _ _)⟩
    · next hs =>
      refine hk'.getVersioned_safe hl fun row k'' hk'' hp hw' hrow he => ?_
      rw [hf row]
      refine hk''.write_safe call (by simpa [he] using hrow) (giveBack_ne hq) (hp ▸ hl)
        (fun hne => hs ?_) (fun k₃ hv' hp' _ hh => ?_) (fun k₃ hk₃ ho hw₃ => ?_) fun _ _ =>
          hraise _ _
      · rw [← hne]
        cases expired <;> simp [releasedStatus]
      · have hs' : r.status = .pending ∨ r.status = .confirmed := by
          by_contra hn
          exact hs (not_or.1 hn)
        have hc : Change call k₃ := .release hb (hp' ▸ hp ▸ hl) hs' hq (hv' ▸ hrow) he hh
        exact ⟨hc, hflush _ hc⟩
      · refine hret _ _ hk₃ (fun i hi => ?_) hid ?_
        · rw [ho i (hid ▸ hi), hp, hother i hi]
        · rw [hw₃, Table.keys_set, hw', hw, ← hid]
          rfl
  unfold release getReservation
  simp only [Prog.getPlain_bind, Prog.ret_bind, Spec.Safe, hobj]
  cases hl : k.session.loadedPlain rid with
  | some r =>
    obtain ⟨hid, hq⟩ := hmap r hl
    exact key r k (fun _ => rfl) h hid hq (hid ▸ hl) (fun _ _ => rfl) rfl (hby r (.inl hl) hid)
  | none =>
    refine ⟨fun r hr hv => ?_, hraise _ _⟩
    refine key r _ (fun _ => rfl) (h.loadPlain r) hr hv ?_ (fun i hi => ?_) rfl
      (hby r (.inr hl) hr)
    · rw [← hr, pk_reservation] at hl
      simp [Session.loadPlain, hl]
    · have hi' : i ≠ r.id := fun he => hi (he.trans hr)
      simp [Session.loadPlain, hi']

end

/-- The loop of the sweep: every reservation it still has to release is loaded and pending. -/
theorem releaseAll_safe {S : Spec EventInventory Reservation InventoryError (List Reservation)}
    {rs : List Reservation} {k : InventoryWork} (h : Ready k) (hnd : (rs.map Reservation.id).Nodup)
    (hrs : ∀ r ∈ rs, k.session.loadedPlain r.id = some r ∧ r.status = .pending ∧ 0 < r.quantity)
    (hflush : ∀ k', Change .sweepExpiredReservations k' → S.flush k')
    (hret : ∀ rs' k', Ready k' →
      k'.writes.plain.keys ⊆ (rs'.map Reservation.id).toFinset ∪ k.writes.plain.keys → S.ret rs' k')
    (hraise : ∀ e k', S.raise e k') : S.Safe (releaseAll rs) k := by
  induction rs generalizing k S with
  | nil => exact ⟨h.clean, hret _ _ h Finset.subset_union_right⟩
  | cons r rs ih =>
    obtain ⟨hl, hs, hq⟩ := hrs r (.head _)
    rw [List.map_cons, List.nodup_cons] at hnd
    refine Spec.safe_bind (release_safe h ?_ ?_ hflush (fun r' k' hk' hother hid hw => ?_) hraise)
    · intro r' hr'
      cases hl.symm.trans hr'
      exact ⟨rfl, hq⟩
    · rintro r' (hr' | hn) -
      · cases hl.symm.trans hr'
        exact .inr ⟨rfl, rfl, hs⟩
      · rw [hl] at hn; cases hn
    · refine Spec.safe_bind
        (ih hk' hnd.2 (fun x hx => ?_) hflush (fun rs' k'' hk'' hw' => ?_) hraise)
      · have hne : x.id ≠ r.id := fun he => hnd.1 (he ▸ List.mem_map_of_mem hx)
        rw [hother x.id hne]
        exact hrs x (.tail _ hx)
      · refine ⟨hk''.clean, hret _ _ hk'' fun i hi => ?_⟩
        have h1 := hw' hi
        have h2 := @hw i
        simp only [Finset.mem_union, List.mem_toFinset, Finset.mem_insert, List.map_cons,
          List.mem_cons, hid] at h1 h2 ⊢
        rcases h1 with h1 | h1
        · exact .inl (.inr h1)
        · exact (h2 h1).imp .inl id

/-- The program of the sweep: every reservation it has written is among those it returns. -/
theorem sweep_safe {S : Spec EventInventory Reservation InventoryError (List Reservation)}
    (hflush : ∀ k', Change .sweepExpiredReservations k' → S.flush k')
    (hret : ∀ (rs : List Reservation) (k' : InventoryWork), Ready k' →
      k'.writes.plain.keys ⊆ (rs.map Reservation.id).toFinset → S.ret rs k')
    (hraise : ∀ e k', S.raise e k') : S.Safe sweepExpiredReservations .init := by
  refine Spec.safe_bind fun now rs hnd _ hrs => ?_
  have hmap :
      (rs.map fun r => ((Session.empty : Session EventInventory _).objPlain (pk r)).getD r) =
      rs := List.map_id rs
  have hready : Ready ⟨Session.empty.loadAll rs, .empty, 0⟩ := by
    rw [Session.loadAll_eq]
    exact ⟨⟨rfl, rfl, rfl, rfl⟩, nofun⟩
  refine ⟨hready.clean, ?_⟩
  change Spec.Safe _ (releaseAll (rs.map fun r =>
    ((Session.empty : Session EventInventory _).objPlain (pk r)).getD r)) _
  rw [hmap]
  refine releaseAll_safe hready hnd (fun r hr => ?_) hflush (fun rs' k' hk' hw => ?_) hraise
  · obtain ⟨hv, hp⟩ := hrs r hr
    have hp' : r.status = .pending ∧ r.expiresAt < now := by simpa [isExpiredPending] using hp
    exact ⟨Session.loadAll_of_mem hnd (fun _ _ => rfl) hr, hp'.1, hv⟩
  · refine hret rs' k' hk' (hw.trans ?_)
    exact Finset.union_subset subset_rfl (Finset.empty_subset _)

/-- The session of a transaction that has read one event row. -/
abbrev readRow (row : EventInventory) : Session EventInventory Reservation :=
  Session.empty.loadVersioned row

@[simp] theorem readRow_loaded (row : EventInventory) :
    (readRow row).loadedVersioned row.eventId = some row := by
  simp [readRow, Session.loadVersioned, Session.empty]

/-- Assigning new values to the one row read. -/
theorem readRow_assign {row row' : EventInventory} (hne : row' ≠ row)
    (he : row'.eventId = row.eventId) :
    (readRow row).assignVersioned row' =
      { readRow row with dirtyVersioned := .set .empty row' } := by
  rw [Session.assignVersioned, if_neg]
  · rfl
  · rw [pk_inventory, he, readRow_loaded]
    exact fun h => hne (Option.some.inj h).symm

/-- Where `adjust_capacity` flushes. A capacity that is the old one writes nothing. -/
theorem adjust_change (row : EventInventory) (n : ℤ) :
    Change (.adjustCapacity row.eventId n)
      ⟨(readRow row).assignVersioned { row with totalCapacity := n }, .empty, 0⟩ := by
  by_cases he : { row with totalCapacity := n } = row
  · rw [he, Session.assignVersioned, pk_inventory, readRow_loaded, if_pos rfl]
    exact .idle ⟨Table.erase_empty _, rfl, rfl, rfl⟩
  · rw [readRow_assign he rfl]
    exact .adjust (readRow_loaded row) rfl ⟨rfl, rfl, rfl, rfl⟩

/-- An attempt of `reserve`, where it flushes: the change, and what it leaves. -/
theorem reserve_flush (row : EventInventory) (r : Reservation) (n : ℕ)
    (he : r.eventId = row.eventId) (hq : 0 < r.quantity) (hav : r.quantity ≤ row.available)
    (hs : r.status = .pending) {k : InventoryWork}
    (hk : k = ⟨((readRow row).assignVersioned (row.hold r.quantity)).addPlain r, .empty, n⟩) :
    Change (.reserveSeats row.eventId r.orderId r.quantity) k ∧ Ready k.flushed ∧
      k.flushed.writes = ⟨.set .empty (bump (row.hold r.quantity)), .set .empty r⟩ := by
  rw [readRow_assign (hold_ne hq) rfl] at hk
  subst hk
  have hh : Holds ⟨Session.addPlain { readRow row with
      dirtyVersioned := .set .empty (row.hold r.quantity) } r, .empty, n⟩
      (.set .empty (row.hold r.quantity)) .empty .empty (.set .empty r) := ⟨rfl, rfl, rfl, rfl⟩
  refine ⟨.reserve (readRow_loaded row) rfl hq hav he rfl rfl hs rfl hh,
    .flushed ((ready_init n).loadVersioned row).keyed, ?_⟩
  change Db.overlay .empty (Session.pending _) = _
  rw [hh.pending]
  ext1 <;> simp

/-- The loop of `reserve` with `n` attempts left; every attempt starts from an empty session. -/
theorem reserveAttempts_safe
    {S : Spec EventInventory Reservation InventoryError Reservation} {e o : UUID} {q ttl : ℤ}
    {maxRetries n c : ℕ} (hq : 0 < q) (hc : maxRetries ≤ c + n)
    (hflush : ∀ k', Change (.reserveSeats e o q) k' → S.flush k')
    (hret : ∀ (row : EventInventory) (r : Reservation) (k' : InventoryWork), Ready k' →
      r.eventId = e → r.orderId = o → r.quantity = q → r.status = .pending → row.eventId = e →
      k'.writes = ⟨.set .empty (bump (row.hold q)), .set .empty r⟩ → S.ret r k')
    (hnotFound : ∀ msg k', S.raise (.domain (.notFound msg)) k')
    (hcapacity : ∀ msg (row : EventInventory) (k' : InventoryWork), k'.writes = .empty →
      k'.session.loadedVersioned e = some row → row.available < q →
      S.raise (.domain (.capacityExceeded msg)) k')
    (hconflict : ∀ msg (k' : InventoryWork), maxRetries ≤ k'.conflicts →
      S.raise (.domain (.conflict msg)) k')
    (hraise : ∀ k', S.raise (.flush .integrity) k') :
    S.Safe (reserveAttempts e o q ttl maxRetries n) ⟨.empty, .empty, c⟩ := by
  induction n generalizing c with
  | zero => exact hconflict _ _ hc
  | succ n ih =>
    refine ⟨fun row hrow => ?_, fun _ => hnotFound _ _⟩
    subst hrow
    change S.Safe (ite (row.available < q) _ _) _
    split
    · next hav => exact hcapacity _ row _ rfl (readRow_loaded row) hav
    · next hav =>
      intro now id
      obtain ⟨hchange, hready, hwrites⟩ := reserve_flush row
        ⟨id, row.eventId, o, q, .pending, now + ttl * 1000000⟩ c rfl hq (not_lt.1 hav) rfl rfl
      refine ⟨hchange.disciplined, hflush _ hchange, ⟨hready.clean,
        hret row _ _ hready rfl rfl rfl rfl rfl hwrites⟩, fun err => ?_⟩
      cases err with
      | staleData => exact ih (c := c + 1) (by omega)
      | integrity => exact hraise _

/-- **The programs of the service keep their specifications**, whatever the database answers. -/
theorem Call.body_safe (settings : Settings) (call : Call) :
    (call.spec settings).Safe (call.body settings) .init := by
  cases call with
  | initializeInventory e n =>
    refine Spec.safe_bind ⟨fun row hrow => ⟨⟨rfl, rfl, rfl, rfl⟩, ⟨rfl, rfl, rfl, rfl⟩, trivial⟩,
      fun _ => ?_⟩
    have hc : Change (.initializeInventory e n) ⟨Session.empty.addVersioned ⟨e, n, 0, 0, 1⟩,
      .empty, 0⟩ := .create ⟨rfl, rfl, rfl, rfl⟩
    exact ⟨hc.disciplined, hc, ⟨⟨rfl, rfl, rfl, rfl⟩, ⟨rfl, rfl, rfl, rfl⟩, trivial⟩,
      fun _ => trivial⟩
  | adjustCapacity e n =>
    refine Spec.safe_bind ⟨fun row hrow => ?_, fun _ => trivial⟩
    subst hrow
    have hc := adjust_change row n
    refine ⟨hc.disciplined, hc, ?_, fun _ => trivial⟩
    change Spec.Safe _ (.getVersioned _ _) _
    simp only [Spec.Safe]
    split
    · exact ⟨⟨rfl, rfl, rfl, rfl⟩, ⟨rfl, rfl, rfl, rfl⟩, trivial⟩
    · exact ⟨fun _ _ => ⟨⟨rfl, rfl, rfl, rfl⟩, ⟨rfl, rfl, rfl, rfl⟩, trivial⟩,
        fun _ => ⟨⟨rfl, rfl, rfl, rfl⟩, ⟨rfl, rfl, rfl, rfl⟩, trivial⟩⟩
  | getAvailability e =>
    exact ⟨fun row hrow => ⟨⟨rfl, rfl, rfl, rfl⟩, trivial⟩, fun _ => trivial⟩
  | reserveSeats e o q =>
    refine Spec.safe_bind ?_
    unfold reserve
    split
    · exact ⟨by rintro _ ⟨⟩, by rintro _ ⟨⟩⟩
    · next hq =>
      refine reserveAttempts_safe (c := 0) (not_le.1 hq) (Nat.zero_add _).ge (fun _ h => h)
        (fun row r k' hk' h1 h2 h3 h4 h5 h6 => ⟨hk'.clean, row, r, rfl, h1, h2, h3, h4, h5, h6⟩)
        (fun _ _ => ⟨by rintro _ ⟨⟩, by rintro _ ⟨⟩⟩)
        (fun msg row k' hw hl hav => ⟨fun _ _ => ⟨hw, row, hl, hav⟩, by rintro _ ⟨⟩⟩)
        (fun msg k' hk' => ⟨by rintro _ ⟨⟩, fun _ _ => hk'⟩)
        fun _ => ⟨by rintro _ ⟨⟩, by rintro _ ⟨⟩⟩
  | confirmReservation r =>
    exact Spec.safe_bind (confirm_safe (fun _ h => h) (fun r k' hk' => ⟨hk'.clean, trivial⟩)
      fun _ _ => trivial)
  | releaseReservation r expired =>
    exact Spec.safe_bind
      (release_safe (ready_init 0) (by rintro _ ⟨⟩) (fun _ _ hid => .inl (hid ▸ rfl))
      (fun _ h => h) (fun r k' hk' _ _ _ => ⟨hk'.clean, trivial⟩) fun _ _ => trivial)
  | sweepExpiredReservations =>
    exact Spec.safe_bind (sweep_safe (fun _ h => h) (fun rs k' hk' _ => ⟨hk'.clean, trivial⟩)
      fun _ _ => trivial)

/-- What the answers of a call are held to, besides what `Call.spec` says: a reservation request
does not let a lost version race through, and a sweep returns every reservation that it has
written. -/
def Call.answers (call : Call) : Spec EventInventory Reservation InventoryError Result where
  flush := Change call
  ret a k :=
    match call with
    | .sweepExpiredReservations => ∃ rs : List Reservation, a = .reservations rs ∧
        k.writes.plain.keys ⊆ (rs.map Reservation.id).toFinset
    | _ => True
  raise err _ :=
    match call with
    | .reserveSeats .. => err ≠ .flush .staleData
    | _ => True

/-- **The programs of the service answer so**, whatever the database answers them. -/
theorem Call.body_answers (settings : Settings) (call : Call) :
    call.answers.Safe (call.body settings) .init := by
  cases call with
  | reserveSeats e o q =>
    refine Spec.safe_bind ?_
    unfold reserve
    split
    · exact fun h => by cases h
    · next hq =>
      exact reserveAttempts_safe (c := 0) (not_le.1 hq) (Nat.zero_add _).ge (fun _ h => h)
        (fun row r k' hk' _ _ _ _ _ _ => ⟨hk'.clean, trivial⟩) (fun _ _ h => by cases h)
        (fun _ _ _ _ _ _ h => by cases h) (fun _ _ _ h => by cases h) fun _ h => by cases h
  | sweepExpiredReservations =>
    exact Spec.safe_bind (sweep_safe (fun _ h => h)
      (fun rs k' hk' hw => ⟨hk'.clean, rs, rfl, hw⟩) fun _ _ => trivial)
  | initializeInventory | adjustCapacity | getAvailability | confirmReservation
  | releaseReservation =>
    exact (Call.body_safe settings _).mono (fun _ h => h) (fun _ _ _ => trivial)
      fun _ _ _ => trivial

end EventSphere.Inventory
