import EventSphere.Inventory.Effects

/-!
# Seat accounting

The counters of an event row are a copy, kept by hand, of sums over its reservations. `Tracks c p e`
says that a step changes the counter `c` of the event `e` by as much as it changes the sum of the
quantities of its reservations with a status in `p`; it is what every effect is checked for. In
isolation the reservation read is the one overwritten, so both counters track their sums and
`seat_accounting` follows for every serial run.
-/

namespace EventSphere.Inventory

/-- The seats a reservation occupies of an event, if its status is one of those counted. -/
def seats (p : ReservationStatus → Bool) (e : UUID) (r : Reservation) : ℤ :=
  if r.eventId = e ∧ p r.status then r.quantity else 0

theorem seats_of_ne {p : ReservationStatus → Bool} {e : UUID} {r : Reservation}
    (h : r.eventId ≠ e) : seats p e r = 0 :=
  if_neg fun hr => h hr.1

@[simp] theorem seats_self (p : ReservationStatus → Bool) (r : Reservation) :
    seats p r.eventId r = if p r.status then r.quantity else 0 := by
  simp [seats]

/-- The counter of an event moves with the sum of its counted reservations. -/
def Tracks (c : EventInventory → ℤ) (p : ReservationStatus → Bool) (e : UUID)
    (V V' : InventoryDb) : Prop :=
  V'.versioned.term c e - V.versioned.term c e =
    V'.plain.sum (seats p e) - V.plain.sum (seats p e)

section
variable {c : EventInventory → ℤ} {p : ReservationStatus → Bool} {e : UUID}
  {V V' V'' : InventoryDb}

theorem Tracks.refl (V : InventoryDb) : Tracks c p e V V := by simp [Tracks]

theorem Tracks.trans (h : Tracks c p e V V') (h' : Tracks c p e V' V'') : Tracks c p e V V'' := by
  unfold Tracks at *
  omega

/-- A step that tracks keeps counter and sum equal. -/
theorem Tracks.balanced (h : Tracks c p e V V')
    (hb : V.versioned.term c e = V.plain.sum (seats p e)) :
    V'.versioned.term c e = V'.plain.sum (seats p e) := by
  unfold Tracks at h
  omega

/-- A written event row whose counter is the old one. -/
theorem tracks_row {row : EventInventory} (h : c row = V.versioned.term c row.eventId) :
    Tracks c p e V ⟨V.versioned.set row, V.plain⟩ := by
  unfold Tracks
  rw [Table.term_set, pk_inventory, sub_self]
  split
  · next he => rw [he, h, sub_self]
  · rw [sub_self]

/-- A written event row and a written reservation of the event: the counter must move with what the
reservation contributes. -/
theorem tracks_both {row : EventInventory} {r : Reservation} (hr : r.eventId = row.eventId)
    (hcur : ∀ cur, V.plain.get r.id = some cur → cur.eventId = r.eventId)
    (h : e = row.eventId → c row - V.versioned.term c e =
      seats p e r - V.plain.term (seats p e) r.id) :
    Tracks c p e V ⟨V.versioned.set row, V.plain.set r⟩ := by
  unfold Tracks
  rw [Table.term_set, Table.sum_set, pk_inventory, pk_reservation, add_sub_cancel_left]
  split
  · next he => exact h he
  · next he =>
    have hne : r.eventId ≠ e := fun h' => he (h'.symm.trans hr)
    rw [sub_self, seats_of_ne hne, Table.term]
    cases hc : V.plain.get r.id with
    | none => simp
    | some cur => simp [seats_of_ne ((hcur cur hc).symm ▸ hne)]

end

/-! ## In isolation -/

/-- The reservation overwritten is the reservation read. -/
def UpToDate : ReadRel := fun r _ cur => cur = r

/-- **With up-to-date reservations, every effect moves both counters as it should.** -/
theorem Effect.tracks {V V' : InventoryDb} {call : Call} (h : Effect UpToDate V V' call)
    (e : UUID) :
    Tracks EventInventory.reservedCount (· = .pending) e V V' ∧
    Tracks EventInventory.confirmedCount (· = .confirmed) e V V' := by
  cases h with
  | idle h => subst h; exact ⟨.refl _, .refl _⟩
  | create he h =>
    subst h
    exact ⟨tracks_row (Table.term_of_none _ he).symm, tracks_row (Table.term_of_none _ he).symm⟩
  | adjust hrow h =>
    subst h
    obtain rfl := V.versioned.pk_of_get hrow
    exact ⟨tracks_row (Table.term_of_get EventInventory.reservedCount hrow).symm,
      tracks_row (Table.term_of_get EventInventory.confirmedCount hrow).symm⟩
  | reserve hrow hq hav hs hr h =>
    subst h
    have he := V.versioned.pk_of_get hrow
    refine ⟨tracks_both he.symm (by simp [hr]) fun h => ?_,
      tracks_both he.symm (by simp [hr]) fun h => ?_⟩
    all_goals
      obtain rfl := h.trans he
      rw [Table.term_of_get _ hrow, Table.term_of_none _ hr]
      simp [hs]
  | confirm hrow hq hs hcur hf hR h =>
    subst h
    obtain rfl : _ = _ := hR
    have he := V.versioned.pk_of_get hrow
    refine ⟨tracks_both he.symm (by simp [hcur]) fun h => ?_,
      tracks_both he.symm (by simp [hcur]) fun h => ?_⟩
    all_goals
      obtain rfl := h.trans he
      rw [Table.term_of_get _ hrow, Table.term_of_get _ hcur]
      simp [hs, seats]
  | @release _ row r _ expired hc hrow hq hs hcur hf hR h =>
    subst h
    obtain rfl : _ = _ := hR
    have he := V.versioned.pk_of_get hrow
    have hfree : releasedStatus expired ≠ .pending ∧ releasedStatus expired ≠ .confirmed := by
      cases expired <;> exact ⟨nofun, nofun⟩
    refine ⟨tracks_both (by simpa using he.symm) (by simp [hcur]) fun h => ?_,
      tracks_both (by simpa using he.symm) (by simp [hcur]) fun h => ?_⟩
    all_goals
      obtain rfl := h.trans ((bump_eventId _).trans ((giveBack_eventId _ _).trans he))
      rw [Table.term_of_get _ hrow, Table.term_of_get _ hcur]
      rcases hs with hs | hs <;>
        simp [hs, seats, hfree, giveBack_reservedCount, giveBack_confirmedCount]

/-! ## Serial runs -/

/-- The tables after a call that runs as one transaction with nobody else around. -/
def serve (settings : Settings) (db : InventoryDb) (op : Call × Input UUID) : InventoryDb :=
  ((op.1.body settings).atomically db op.2).2

/-- **The rule of isolated calls.** A call that runs alone keeps the invariant of the tables, and
leaves them related by whatever relation contains its effects. -/
theorem serve_rel (settings : Settings) (op : Call × Input UUID) {db : InventoryDb}
    {T : InventoryDb → InventoryDb → Prop} (hrefl : ∀ V, T V V)
    (htrans : ∀ {V V' V''}, T V V' → T V' V'' → T V V'')
    (heffect : ∀ {V V'}, Effect UpToDate V V' op.1 → T V V') (h : DbInv db) :
    DbInv (serve settings db op) ∧ T db (serve settings db op) := by
  have hspec := Prog.exec_spec op.2 (S := op.1.spec settings)
    (L := fun db W => T db (db.overlay W)) h (by rw [Db.overlay_empty]; exact hrefl db)
    (fun hk hfresh hm hi hT => htrans hT (heffect (Change.effect hk.safe.2.1 hk hm hi
      fun _ hl hcur => Option.some.inj (hcur.symm.trans (hfresh.plain hl)))))
    (TxInv.fresh (op.1.body_safe settings)) ⟨nofun, nofun⟩
    (by change T db (db.overlay .empty); rw [Db.overlay_empty]; exact hrefl db)
  rcases hspec with ⟨o, ho, -⟩ | ⟨a, k, hk, hinv, -, hT⟩
  · have : serve settings db op = db := congrArg Prod.snd ho
    rw [this]
    exact ⟨h, hrefl db⟩
  · have : serve settings db op = k.view db := congrArg Prod.snd hk
    rw [this]
    exact ⟨hinv.commit h, hT⟩

theorem dbInv_serve (settings : Settings) (op : Call × Input UUID) {db : InventoryDb}
    (h : DbInv db) : DbInv (serve settings db op) :=
  (serve_rel settings op (T := fun _ _ => True) (fun _ => trivial) (fun _ _ => trivial)
    (fun _ => trivial) h).1

/-- The tables after a sequence of calls, one at a time, from empty tables. -/
def serveAll (settings : Settings) (ops : List (Call × Input UUID)) : InventoryDb :=
  ops.foldl (serve settings) .empty

/-- The invariant of serial runs: stored reservations have their event row and a positive quantity,
and every counter is the sum it stands for. -/
structure Accounted (db : InventoryDb) : Prop where
  inv : DbInv db
  reserved : ∀ e, db.versioned.term EventInventory.reservedCount e =
    db.plain.sum (seats (· = .pending) e)
  confirmed : ∀ e, db.versioned.term EventInventory.confirmedCount e =
    db.plain.sum (seats (· = .confirmed) e)

theorem accounted_empty : Accounted .empty where
  inv := ⟨nofun, nofun⟩
  reserved _ := rfl
  confirmed _ := rfl

/-- One call keeps the accounts. -/
theorem Accounted.serve {settings : Settings} {db : InventoryDb} (h : Accounted db)
    (op : Call × Input UUID) : Accounted (serve settings db op) := by
  obtain ⟨hinv, htracks⟩ := serve_rel settings op
    (T := fun V V' => ∀ e, Tracks EventInventory.reservedCount (· = .pending) e V V' ∧
      Tracks EventInventory.confirmedCount (· = .confirmed) e V V')
    (fun _ _ => ⟨.refl _, .refl _⟩)
    (fun h h' e => ⟨(h e).1.trans (h' e).1, (h e).2.trans (h' e).2⟩) Effect.tracks h.inv
  exact ⟨hinv, fun e => (htracks e).1.balanced (h.reserved e),
    fun e => (htracks e).2.balanced (h.confirmed e)⟩

/-- A serial run keeps the accounts. -/
theorem accounted_serveAll (settings : Settings) (ops : List (Call × Input UUID)) :
    Accounted (serveAll settings ops) :=
  List.foldlRecOn ops (serve settings) accounted_empty fun _ h op _ => h.serve op

/-- No reservation counts negative seats. -/
theorem Accounted.seats_nonneg {db : InventoryDb} (h : Accounted db)
    (p : ReservationStatus → Bool) (e : UUID) (i : UUID) (r : Reservation)
    (hr : db.plain.get i = some r) : 0 ≤ seats p e r := by
  unfold seats
  split
  · exact (h.inv.valid hr).le
  · exact le_rfl

/-- **Seat accounting.** After every serial run of calls from empty tables, the counters of an event
row are the sums of the quantities of its pending and of its confirmed reservations, neither is
negative, and every reservation has its event row. -/
theorem seat_accounting (settings : Settings) (ops : List (Call × Input UUID)) :
    (∀ e row, (serveAll settings ops).versioned.get e = some row →
      row.reservedCount = (serveAll settings ops).plain.sum (seats (· = .pending) e) ∧
      row.confirmedCount = (serveAll settings ops).plain.sum (seats (· = .confirmed) e) ∧
      0 ≤ row.reservedCount ∧ 0 ≤ row.confirmedCount) ∧
    ∀ i r, (serveAll settings ops).plain.get i = some r →
      ∃ row, (serveAll settings ops).versioned.get r.eventId = some row := by
  have h := accounted_serveAll settings ops
  refine ⟨fun e row hrow => ?_, fun i r hr => Table.exists_get (h.inv.fk hr)⟩
  have h1 := h.reserved e
  have h2 := h.confirmed e
  rw [Table.term_of_get _ hrow] at h1 h2
  exact ⟨h1, h2, h1 ▸ Table.sum_nonneg (h.seats_nonneg _ e),
    h2 ▸ Table.sum_nonneg (h.seats_nonneg _ e)⟩

end EventSphere.Inventory
