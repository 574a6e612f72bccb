import EventSphere.Inventory.Availability
import EventSphere.Inventory.Capacity

/-!
# The ranges of the counters

The columns of an event row are 32-bit `INTEGER`s, and `_inventory_to_proto`
(`services/inventory/app/grpc_handlers/inventory_servicer.py:45`) copies them and the availability
into `int32` fields. `adjust_capacity` may set a capacity below the seats that are taken, so what
bounds the counters is not the capacity of the event but the largest that it ever had.
`counters_fit` is the bound, at every flush of a serial run and after it. The version is bounded by
nothing but the number of flushes, and a run that is long enough leaves its range
(`version_overflows`).
-/

namespace EventSphere.Inventory

/-- What an `INTEGER` column holds and an `int32` field carries. -/
def FitsInt32 (n : ℤ) : Prop := -2147483648 ≤ n ∧ n ≤ 2147483647

instance (n : ℤ) : Decidable (FitsInt32 n) := inferInstanceAs (Decidable (_ ∧ _))

/-- Reference: `InventoryResponse` (`inventory.proto:79`). -/
structure InventoryResponse where
  success : Bool
  message : String
  eventId : UUID
  totalCapacity : ℤ
  reservedCount : ℤ
  confirmedCount : ℤ
  available : ℤ
  version : ℤ

/-- The message of an event row, if every number fits its field; otherwise the constructor of the
message raises. Reference: `_inventory_to_proto` (`inventory_servicer.py:45`). -/
def inventoryToProto (inventory : EventInventory) (message : String) : Option InventoryResponse :=
  if FitsInt32 inventory.totalCapacity ∧ FitsInt32 inventory.reservedCount ∧
      FitsInt32 inventory.confirmedCount ∧ FitsInt32 inventory.available ∧
      FitsInt32 inventory.version then
    some ⟨true, message, inventory.eventId, inventory.totalCapacity, inventory.reservedCount,
      inventory.confirmedCount, inventory.available, inventory.version⟩
  else none

/-- The capacities of the runs below. -/
def CapacityInRange (call : Call) : Prop := ∀ p ∈ call.sets, 1 ≤ p.2 ∧ p.2 ≤ 2147483647

instance (call : Call) : Decidable (CapacityInRange call) :=
  inferInstanceAs (Decidable (∀ p ∈ call.sets, _))

/-- The tables that the transaction of a call sees after each of its flushes. -/
def flushes (settings : Settings) (db : InventoryDb) (op : Call × Input UUID) : List InventoryDb :=
  (op.1.body settings).flushes db op.2 .init

/-- The flushes of a sequence of calls. -/
def allFlushes (settings : Settings) : InventoryDb → List (Call × Input UUID) → List InventoryDb
  | _, [] => []
  | db, op :: ops => flushes settings db op ++ allFlushes settings (serve settings db op) ops

/-- A capacity that the event has had in a serial run: after some of its calls. -/
def Had (settings : Settings) (ops : List (Call × Input UUID)) (e : UUID) (c : ℤ) : Prop :=
  ∃ earlier, earlier <+: ops ∧ capacity (serveAll settings earlier) e = some c

/-- The numbers of the tables at a flush of a serial run, or after a call: `ops` are the calls that
have ended, and `flushed` counts the flushes so far. -/
structure CountersFit (settings : Settings) (ops : List (Call × Input UUID)) (flushed : ℕ)
    (V : InventoryDb) : Prop where
  nonneg : ∀ e row, V.versioned.get e = some row → 0 ≤ row.reservedCount ∧ 0 ≤ row.confirmedCount
  largest : ∀ e row, V.versioned.get e = some row →
    ∃ c, (Had settings ops e c ∨ c = row.totalCapacity) ∧ row.reservedCount + row.confirmedCount ≤ c
  counts : ∀ e row, V.versioned.get e = some row → FitsInt32 row.totalCapacity ∧
    FitsInt32 row.reservedCount ∧ FitsInt32 row.confirmedCount ∧ FitsInt32 row.available
  quantity : ∀ i r, V.plain.get i = some r → FitsInt32 r.quantity
  version : flushed ≤ 2147483647 → ∀ e row, V.versioned.get e = some row → FitsInt32 row.version
  message : ∀ e row text, V.versioned.get e = some row →
    ((inventoryToProto row text).isSome ↔ FitsInt32 row.version)

/-! ## What the effects keep -/

/-- The invariant of an event row, given the capacities that its event has had before the current
call and what that call sets. -/
structure RowInRange (had : UUID → ℤ → Prop) (sets : Option (UUID × ℤ)) (row : EventInventory) :
    Prop where
  range : 1 ≤ row.totalCapacity ∧ row.totalCapacity ≤ 2147483647
  known : had row.eventId row.totalCapacity ∨ sets = some (row.eventId, row.totalCapacity)
  taken : (∃ c, had row.eventId c ∧ row.taken ≤ c) ∨ row.taken ≤ row.totalCapacity

/-- The invariant of the tables in a serial run. -/
structure InRange (had : UUID → ℤ → Prop) (sets : Option (UUID × ℤ)) (V : InventoryDb) : Prop where
  reserved : ∀ e, V.versioned.term EventInventory.reservedCount e =
    V.plain.sum (seats (· = .pending) e)
  confirmed : ∀ e, V.versioned.term EventInventory.confirmedCount e =
    V.plain.sum (seats (· = .confirmed) e)
  quantity : ∀ {i r}, V.plain.get i = some r → 0 < r.quantity ∧ r.quantity ≤ 2147483647
  row : ∀ {e row}, V.versioned.get e = some row → RowInRange had sets row

/-- No version is above the bound. -/
def VersionAtMost (n : ℕ) (V : InventoryDb) : Prop :=
  ∀ e row, V.versioned.get e = some row → row.version ≤ n

section
variable {had had' : UUID → ℤ → Prop} {sets : Option (UUID × ℤ)} {V V' : InventoryDb} {call : Call}
  {row : EventInventory} {e : UUID} {n : ℕ}

/-- No counter is negative. -/
theorem InRange.counts_nonneg (h : InRange had sets V) (hrow : V.versioned.get e = some row) :
    0 ≤ row.reservedCount ∧ 0 ≤ row.confirmedCount := by
  have hseats : ∀ (p : ReservationStatus → Bool) (i : UUID) (r : Reservation),
      V.plain.get i = some r → 0 ≤ seats p e r := by
    intro p i r hr
    unfold seats
    split
    · exact (h.quantity hr).1.le
    · exact le_rfl
  have h1 := h.reserved e
  have h2 := h.confirmed e
  rw [Table.term_of_get _ hrow] at h1 h2
  exact ⟨h1 ▸ Table.sum_nonneg (hseats _), h2 ▸ Table.sum_nonneg (hseats _)⟩

/-- A row with other seats taken and the same capacity. -/
theorem RowInRange.of_taken {row' : EventInventory} (h : RowInRange had sets row)
    (he : row'.eventId = row.eventId) (hc : row'.totalCapacity = row.totalCapacity)
    (ht : row'.taken ≤ row.taken ∨ row'.taken ≤ row.totalCapacity) : RowInRange had sets row' where
  range := hc ▸ h.range
  known := by rw [he, hc]; exact h.known
  taken := by
    rw [he, hc]
    rcases ht with ht | ht
    · exact h.taken.imp (fun ⟨c, hc, hle⟩ => ⟨c, hc, ht.trans hle⟩) ht.trans
    · exact .inr ht

/-- The event rows after an effect. -/
theorem InRange.effect_row (h : InRange had call.sets V) (hcall : CapacityInRange call)
    (heff : Effect UpToDate V V' call) (hrow : V'.versioned.get e = some row) :
    RowInRange had call.sets row := by
  have hset : ∀ {row' : EventInventory} {plain : Table Reservation},
      V' = ⟨V.versioned.set row', plain⟩ → RowInRange had call.sets row' →
      RowInRange had call.sets row := by
    rintro row' plain rfl hrow'
    rcases Table.get_set_inv hrow with ⟨-, rfl⟩ | hrow
    · exact hrow'
    · exact h.row hrow
  cases heff with
  | idle hV => rw [hV] at hrow; exact h.row hrow
  | create he hV =>
    have hc := hcall _ rfl
    exact hset hV ⟨hc, .inr rfl, .inr (Int.zero_le_ofNat 1 |>.trans hc.1)⟩
  | @adjust e' c row₀ hrow₀ hV =>
    obtain rfl := V.versioned.pk_of_get hrow₀
    have h₀ := h.row hrow₀
    refine hset hV ⟨hcall _ rfl, .inr rfl, ?_⟩
    -- the old capacity bounds the seats taken, unless it is the new one
    rcases h₀.taken with ht | ht
    · exact .inl ht
    · rcases h₀.known with hk | hk
      · exact .inl ⟨_, hk, ht⟩
      · cases hk
        exact .inr ht
  | reserve hrow₀ hq hav _ _ hV =>
    refine hset hV ((h.row hrow₀).of_taken rfl rfl (.inr ?_))
    rw [bump_taken, hold_taken]
    unfold EventInventory.available at hav
    unfold EventInventory.taken
    omega
  | confirm hrow₀ hq _ _ _ _ hV =>
    refine hset hV ((h.row hrow₀).of_taken rfl rfl (.inl ?_))
    rw [bump_taken, moveSeats_taken]
  | release _ hrow₀ hq _ _ _ _ hV =>
    refine hset hV
      ((h.row hrow₀).of_taken (giveBack_eventId ..) (giveBack_totalCapacity ..) (.inl ?_))
    rw [bump_taken, giveBack_taken]
    omega

/-- The reservations after an effect. -/
theorem InRange.effect_quantity (h : InRange had call.sets V) (heff : Effect UpToDate V V' call)
    {i : UUID} {r : Reservation} (hr : V'.plain.get i = some r) :
    0 < r.quantity ∧ r.quantity ≤ 2147483647 := by
  have hset : ∀ {r' : Reservation} {rows : Table EventInventory}, V' = ⟨rows, V.plain.set r'⟩ →
      0 < r'.quantity ∧ r'.quantity ≤ 2147483647 → 0 < r.quantity ∧ r.quantity ≤ 2147483647 := by
    rintro r' rows rfl hr'
    rcases Table.get_set_inv hr with ⟨-, rfl⟩ | hr
    · exact hr'
    · exact h.quantity hr
  cases heff with
  | idle hV | create _ hV | adjust _ hV => rw [hV] at hr; exact h.quantity hr
  | reserve hrow₀ hq hav _ _ hV =>
    refine hset hV ⟨hq, ?_⟩
    obtain ⟨h1, h2⟩ := h.counts_nonneg hrow₀
    have hc := (h.row hrow₀).range.2
    unfold EventInventory.available at hav
    omega
  | confirm _ _ _ hcur _ hR hV | release _ _ _ _ hcur _ hR hV =>
    cases hR
    have hold := h.quantity hcur
    exact hset hV hold

/-- **Every effect keeps the invariant.** -/
theorem InRange.effect (h : InRange had call.sets V) (hcall : CapacityInRange call)
    (heff : Effect UpToDate V V' call) : InRange had call.sets V' where
  reserved e := (heff.tracks e).1.balanced (h.reserved e)
  confirmed e := (heff.tracks e).2.balanced (h.confirmed e)
  quantity := h.effect_quantity heff
  row := h.effect_row hcall heff

/-- An effect raises a version by one, at most. -/
theorem VersionAtMost.effect {R : ReadRel} (h : VersionAtMost n V) (heff : Effect R V V' call) :
    VersionAtMost (n + 1) V' := by
  have hset : ∀ {row : EventInventory} {plain : Table Reservation},
      V' = ⟨V.versioned.set row, plain⟩ → row.version ≤ n + 1 → VersionAtMost (n + 1) V' := by
    rintro row plain rfl hrow e row' hrow'
    rcases Table.get_set_inv hrow' with ⟨-, rfl⟩ | hrow'
    · exact hrow
    · exact (h e row' hrow').trans (Nat.le_succ n)
  cases heff with
  | idle hV => rw [hV]; exact fun e row hrow => (h e row hrow).trans (Nat.le_succ n)
  | create _ hV => exact hset hV (Nat.le_add_left 1 n)
  | adjust hrow hV | reserve hrow _ _ _ _ hV | confirm hrow _ _ _ _ _ hV =>
    have hold := h _ _ hrow
    exact hset hV (Nat.succ_le_succ hold)
  | release _ hrow _ _ _ _ _ hV =>
    refine hset hV (Nat.succ_le_succ ?_)
    rw [giveBack_version]
    exact h _ _ hrow

end

/-! ## Calls and runs -/

section
variable {settings : Settings} {had : UUID → ℤ → Prop} {db V : InventoryDb}
  {op : Call × Input UUID} {ops : List (Call × Input UUID)} {e : UUID} {c : ℤ} {n : ℕ}

/-- **One call**: at each of its flushes and after it, the tables are in range, and no version is
above the old bound by more than the number of flushes. -/
theorem InRange.call (h : InRange had none db) (hdb : DbInv db) (hn : VersionAtMost n db)
    (hop : CapacityInRange op.1) (hV : V ∈ flushes settings db op ∨ V = serve settings db op) :
    InRange had op.1.sets V ∧ VersionAtMost (n + (flushes settings db op).length) V := by
  have h0 : ∀ m, InRange had op.1.sets db ∧ VersionAtMost (n + m) db := by
    intro m
    refine ⟨⟨h.reserved, h.confirmed, h.quantity, fun {e row} hrow => ?_⟩,
      fun e row hrow => (hn e row hrow).trans (Nat.le_add_right n m)⟩
    have hr := h.row hrow
    exact ⟨hr.range, .inl (hr.known.resolve_right (Option.some_ne_none _).symm), hr.taken⟩
  obtain ⟨W, rfl, hW⟩ := Prog.flushes_spec op.2 (S := op.1.spec settings)
    (L := fun m W => InRange had op.1.sets (db.overlay W) ∧ VersionAtMost (n + m) (db.overlay W))
    (n := 0) hdb (fun m => by rw [Db.overlay_empty]; exact h0 m)
    (fun hm hL => ⟨hL.1, fun e row hrow => (hL.2 e row hrow).trans (Nat.add_le_add_left hm n)⟩)
    (fun {m k f} hk hfresh hm hi hL => by
      have heff := Change.effect hk.safe.2.1 hk hm hi
        fun _ hl hcur => Option.some.inj (hcur.symm.trans (hfresh.plain hl))
      exact ⟨hL.1.effect hop heff, hL.2.effect heff⟩)
    (TxInv.fresh (op.1.body_safe settings)) ⟨nofun, nofun⟩
    (by change InRange _ _ (db.overlay .empty) ∧ _; rw [Db.overlay_empty]; exact h0 0) V hV
  rwa [Nat.zero_add] at hW

/-- The tables after a call, with what the call has set. -/
theorem InRange.committed {had' : UUID → ℤ → Prop} {sets : Option (UUID × ℤ)}
    (h : InRange had sets V) (hold : ∀ e c, had e c → had' e c)
    (hnew : ∀ e c, capacity V e = some c → had' e c) : InRange had' none V where
  reserved := h.reserved
  confirmed := h.confirmed
  quantity := h.quantity
  row {e row} hrow := by
    have hr := h.row hrow
    have hhad : had' row.eventId row.totalCapacity := by
      obtain rfl := V.versioned.pk_of_get hrow
      exact hnew _ _ (congrArg (Option.map _) hrow)
    refine ⟨hr.range, .inl hhad, .inl ?_⟩
    rcases hr.taken with ⟨c, hc, hle⟩ | hle
    · exact ⟨c, hold _ _ hc, hle⟩
    · exact ⟨_, hhad, hle⟩

/-- A run extended by calls has had the capacities of the run. -/
theorem Had.append (h : Had settings ops e c) (ops' : List (Call × Input UUID)) :
    Had settings (ops ++ ops') e c := by
  obtain ⟨earlier, hp, hc⟩ := h
  exact ⟨earlier, hp.trans (List.prefix_append ..), hc⟩

theorem serveAll_concat (settings : Settings) (ops : List (Call × Input UUID))
    (op : Call × Input UUID) :
    serveAll settings (ops ++ [op]) = serve settings (serveAll settings ops) op :=
  List.foldl_append ..

/-- The flushes of a run and of one more call. -/
theorem allFlushes_concat (settings : Settings) (db : InventoryDb) (ops : List (Call × Input UUID))
    (op : Call × Input UUID) :
    allFlushes settings db (ops ++ [op]) =
      allFlushes settings db ops ++ flushes settings (ops.foldl (serve settings) db) op := by
  induction ops generalizing db with
  | nil => simp [allFlushes]
  | cons op' ops ih => simp [allFlushes, ih, List.append_assoc]

/-- **A whole run**: the committed tables are in range, and no version is above the number of
flushes. -/
theorem inRange_serveAll (settings : Settings) (hcap : ∀ op ∈ ops, CapacityInRange op.1) :
    InRange (Had settings ops) none (serveAll settings ops) ∧
      VersionAtMost (allFlushes settings .empty ops).length (serveAll settings ops) := by
  induction ops using List.reverseRecOn with
  | nil => exact ⟨⟨fun _ => rfl, fun _ => rfl, nofun, nofun⟩, nofun⟩
  | append_singleton ops op ih =>
    obtain ⟨hops, hop⟩ := List.forall_mem_append.1 hcap
    obtain ⟨hin, hver⟩ := ih hops
    have hend : serve settings (serveAll settings ops) op ∈
          flushes settings (serveAll settings ops) op ∨
        serve settings (serveAll settings ops) op = serve settings (serveAll settings ops) op :=
      .inr rfl
    obtain ⟨hin', hver'⟩ := hin.call (accounted_serveAll settings ops).inv hver
      (hop op (.head _)) hend
    rw [allFlushes_concat, List.length_append, serveAll_concat]
    refine ⟨hin'.committed (fun e c h => h.append _) fun e c hc => ?_, hver'⟩
    exact ⟨_, List.prefix_rfl, by rw [serveAll_concat]; exact hc⟩

/-- Every capacity that an event has had is in range. -/
theorem Had.range (h : Had settings ops e c) (hcap : ∀ op ∈ ops, CapacityInRange op.1) :
    c ≤ 2147483647 := by
  obtain ⟨earlier, hp, hc⟩ := h
  obtain ⟨row, hrow, rfl⟩ := Option.map_eq_some_iff.1 hc
  exact ((inRange_serveAll settings fun op hop => hcap op (hp.subset hop)).1.row hrow).range.2

/-- Tables in range fit. -/
theorem InRange.countersFit {sets : Option (UUID × ℤ)} (h : InRange (Had settings ops) sets V)
    (hver : VersionAtMost n V) (hcap : ∀ op ∈ ops, CapacityInRange op.1) :
    CountersFit settings ops n V := by
  have hlargest : ∀ e row, V.versioned.get e = some row →
      ∃ c, (Had settings ops e c ∨ c = row.totalCapacity) ∧
        row.reservedCount + row.confirmedCount ≤ c := by
    intro e row hrow
    obtain rfl := V.versioned.pk_of_get hrow
    rcases (h.row hrow).taken with ⟨c, hc, hle⟩ | hle
    · exact ⟨c, .inl hc, hle⟩
    · exact ⟨_, .inr rfl, hle⟩
  have hcounts : ∀ e row, V.versioned.get e = some row → FitsInt32 row.totalCapacity ∧
      FitsInt32 row.reservedCount ∧ FitsInt32 row.confirmedCount ∧ FitsInt32 row.available := by
    intro e row hrow
    obtain ⟨h1, h2⟩ := h.counts_nonneg hrow
    obtain ⟨h3, h4⟩ := (h.row hrow).range
    obtain ⟨c, hc, hle⟩ := hlargest e row hrow
    have hmax : c ≤ 2147483647 := by
      rcases hc with hc | rfl
      · exact hc.range hcap
      · exact h4
    unfold FitsInt32 EventInventory.available
    omega
  have hversion : n ≤ 2147483647 → ∀ e row, V.versioned.get e = some row →
    FitsInt32 row.version := by
    intro hn e row hrow
    have := hver e row hrow
    unfold FitsInt32
    omega
  refine ⟨fun e row hrow => h.counts_nonneg hrow, hlargest, hcounts, fun i r hr => ?_, hversion, ?_⟩
  · have hq := h.quantity hr
    unfold FitsInt32
    omega
  · intro e row text hrow
    have hc := hcounts e row hrow
    unfold inventoryToProto
    split
    · next hall => simp [hall]
    · next hall => simpa [hc] using hall

end

/-- **The counters fit.** Take a serial run of calls of the service in which every capacity lies
between one and `2^31 - 1`, whatever the quantities. After the run, and at every flush of any
further such call, no counter of an event is negative, their sum is at most a capacity that the
event has had, the capacity, both counters and the availability fit 32 bits, and so does the
quantity of every reservation. The version fits as long as there have been no more than `2^31 - 1`
flushes, and nothing else keeps the row from being sent. -/
theorem counters_fit (settings : Settings) (ops : List (Call × Input UUID))
    (hcap : ∀ op ∈ ops, CapacityInRange op.1) :
    CountersFit settings ops (allFlushes settings .empty ops).length (serveAll settings ops) ∧
    ∀ op, CapacityInRange op.1 → ∀ V ∈ flushes settings (serveAll settings ops) op,
      CountersFit settings ops (allFlushes settings .empty (ops ++ [op])).length V := by
  obtain ⟨hin, hver⟩ := inRange_serveAll settings hcap
  refine ⟨hin.countersFit hver hcap, fun op hop V hV => ?_⟩
  obtain ⟨hin', hver'⟩ := hin.call (accounted_serveAll settings ops).inv hver hop (.inl hV)
  rw [allFlushes_concat, List.length_append]
  exact hin'.countersFit hver' hcap

/-- The counters of a run that leaves two seats held and a capacity of one. -/
theorem overbookingRun_fits : ∃ row,
    (serveAll .default overbookingRun).versioned.get ⟨1⟩ = some row ∧ row.available < 0 ∧
    FitsInt32 row.available ∧
    ∃ c, (Had .default overbookingRun ⟨1⟩ c ∨ c = row.totalCapacity) ∧
      row.reservedCount + row.confirmedCount ≤ c := by
  have hrow : (serveAll .default overbookingRun).versioned.get ⟨1⟩ = some ⟨⟨1⟩, 1, 2, 0, 3⟩ := by
    decide +kernel
  obtain ⟨hfit, -⟩ := counters_fit .default overbookingRun (by decide)
  exact ⟨_, hrow, by decide, (hfit.counts _ _ hrow).2.2.2, hfit.largest _ _ hrow⟩

/-! ## The version -/

/-- An event and `n` changes of its capacity, to two seats and to one in turn. -/
def adjustments : ℕ → List (Call × Input UUID)
  | 0 => [(.initializeInventory ⟨1⟩ 1, anInput)]
  | n + 1 => adjustments n ++ [(.adjustCapacity ⟨1⟩ (1 + (n + 1) % 2), anInput)]

/-- The capacities of the adjustments are in range. -/
theorem adjustments_inRange (n : ℕ) : ∀ op ∈ adjustments n, CapacityInRange op.1 := by
  induction n with
  | zero => decide
  | succ n ih =>
    refine List.forall_mem_append.2 ⟨ih, fun op hop => ?_⟩
    obtain rfl := List.mem_singleton.1 hop
    rintro _ ⟨⟩
    dsimp only
    omega

/-- Every adjustment changes the row, and so raises its version. -/
theorem serveAll_adjustments (settings : Settings) (n : ℕ) :
    (serveAll settings (adjustments n)).versioned.get ⟨1⟩ =
      some ⟨⟨1⟩, 1 + n % 2, 0, 0, n + 1⟩ := by
  induction n with
  | zero =>
    have hnone : (Db.empty : InventoryDb).versioned.get (⟨1⟩ : UUID) = none := rfl
    change (serve settings .empty _).versioned.get _ = _
    rw [serve, initialize_missing settings anInput 1 hnone]
    exact get_set_inventory _ ⟨⟨1⟩, 1, 0, 0, 1⟩
  | succ n ih =>
    have hne : (1 + n % 2 : ℤ) ≠ 1 + (n + 1) % 2 := by omega
    rw [adjustments, serveAll_concat, serve, adjust_existing settings anInput _ ih,
      EventInventory.adjusted, if_neg hne]
    exact get_set_inventory _ _

/-- The tables after a change of the capacity are those of a flush of it. -/
theorem serve_mem_flushes (settings : Settings) (inp : Input UUID) (n : ℤ) {db : InventoryDb}
    {e : UUID} {row : EventInventory} (hrow : db.versioned.get e = some row) :
    serve settings db (.adjustCapacity e n, inp) ∈
      flushes settings db (.adjustCapacity e n, inp) := by
  refine Prog.exec_mem_flushes (a := .inventory (row.adjusted n)) ?_
  exact congrArg Prod.fst (adjust_existing settings inp n hrow)

/-- The flush of the next adjustment, and the version that it asks for. -/
theorem adjustments_flush (settings : Settings) (n : ℕ) :
    ∃ op V row, adjustments (n + 1) = adjustments n ++ [op] ∧
      V ∈ flushes settings (serveAll settings (adjustments n)) op ∧
      V.versioned.get ⟨1⟩ = some row ∧ row.version = n + 2 := by
  have hrow := serveAll_adjustments settings (n + 1)
  rw [adjustments, serveAll_concat] at hrow
  exact ⟨_, _, _, rfl, serve_mem_flushes settings anInput _ (serveAll_adjustments settings n), hrow,
    rfl⟩

/-- **The version overflows**: in a serial run whose capacities are one and two, and that holds no
seat, the flush of the last change asks for a row whose version fits neither its column nor its
field. The tables here have no bound; in PostgreSQL the column refuses this row, and from then on
every write of it. -/
theorem version_overflows :
    (∀ op ∈ adjustments 2147483647, CapacityInRange op.1) ∧
    ∃ op V row, adjustments 2147483647 = adjustments 2147483646 ++ [op] ∧
      V ∈ flushes .default (serveAll .default (adjustments 2147483646)) op ∧
      V.versioned.get ⟨1⟩ = some row ∧ ¬ FitsInt32 row.version ∧
      inventoryToProto row "OK" = none := by
  obtain ⟨op, V, row, hop, hV, hrow, hversion⟩ := adjustments_flush .default 2147483646
  have hfits : ¬ FitsInt32 row.version := by
    rw [hversion]
    decide
  exact ⟨adjustments_inRange _, op, V, row, hop, hV, hrow, hfits, if_neg fun h => hfits h.2.2.2.2⟩

end EventSphere.Inventory
