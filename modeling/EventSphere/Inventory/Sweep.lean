import EventSphere.Inventory.Commutation
import EventSphere.Inventory.Redelivery
import Mathlib.Algebra.Ring.Int.Defs

/-!
# What a sweep does

`sweep_expired_reservations` reads at most a hundred due reservations, in no particular order, and
releases them one by one in one transaction. `Swept` says what that is as an atomic operation, and
`sweep_drains` that every isolated sweep is one and that consecutive sweeps drain the due
reservations, whichever of them each query picks.
-/

namespace EventSphere.Inventory

/-- The reservation as a sweep leaves and returns it. -/
def Reservation.expire (r : Reservation) : Reservation := { r with status := .expired }

@[simp] theorem expire_id (r : Reservation) : r.expire.id = r.id := rfl

@[simp] theorem expire_eventId (r : Reservation) : r.expire.eventId = r.eventId := rfl

@[simp] theorem expire_quantity (r : Reservation) : r.expire.quantity = r.quantity := rfl

@[simp] theorem expire_status (r : Reservation) : r.expire.status = .expired := rfl

/-- The keys of the pending reservations whose time has passed. -/
def expiredPending (db : InventoryDb) (now : Instant) : Finset UUID :=
  db.plain.keys.filter fun i => (db.plain.get i).any (isExpiredPending now)

/-- The seats that the reservations of a list occupy of the event `e`. -/
def seatsOf (rs : List Reservation) (e : UUID) : ℤ :=
  ((rs.filter (·.eventId = e)).map Reservation.quantity).sum

/-- The atomic operation: at the time `now`, as many due reservations as the limit allows expire and
are returned, their events get the seats back, and nothing else changes. -/
structure Swept (now : Instant) (limit : ℕ) (db : InventoryDb) (rs : List Reservation)
    (db' : InventoryDb) : Prop where
  distinct : (rs.map Reservation.id).Nodup
  count : rs.length = min (expiredPending db now).card limit
  due : ∀ r' ∈ rs, ∃ r, db.plain.get r'.id = some r ∧ isExpiredPending now r = true ∧ r' = r.expire
  reservations : ∀ i, db'.plain.get i =
    if i ∈ rs.map Reservation.id then (db.plain.get i).map Reservation.expire else db.plain.get i
  rows : ∀ e row, db.versioned.get e = some row → ∃ row', db'.versioned.get e = some row' ∧
    row'.totalCapacity = row.totalCapacity ∧ row'.confirmedCount = row.confirmedCount ∧
    row'.available = row.available + seatsOf rs e
  frame : ∀ e, (∀ r ∈ rs, r.eventId ≠ e) → db'.versioned.get e = db.versioned.get e

section
variable {α : Type} {settings : Settings} {db V V' : InventoryDb} {k : InventoryWork}
  {i e : UUID} {r : Reservation} {rs : List Reservation} {now : Instant} {limit : ℕ}

theorem mem_expiredPending :
    i ∈ expiredPending db now ↔ ∃ r, db.plain.get i = some r ∧ isExpiredPending now r = true := by
  rw [expiredPending, Finset.mem_filter, Option.any_eq_true]
  exact ⟨And.right, fun ⟨r, hr, hp⟩ => ⟨Table.mem_of_get hr, r, hr, hp⟩⟩

theorem pending_of_isExpiredPending (h : isExpiredPending now r = true) : r.status = .pending := by
  simp only [isExpiredPending, decide_eq_true_eq] at h
  exact h.1

/-! ## The loop -/

/-- The tables after the expiry of one reservation. -/
def expireIn (V : InventoryDb) (r : Reservation) : InventoryDb := restate (fun _ => .expired) r.id V

/-- What the loop of a sweep needs of a reservation ahead of it: it is there as it was read, it is
pending, it has seats and it has its event row. -/
structure Releasable (V : InventoryDb) (r : Reservation) : Prop where
  stored : V.plain.get r.id = some r
  pending : r.status = .pending
  positive : 0 < r.quantity
  parent : r.eventId ∈ V.versioned.keys

theorem Releasable.expireIn_eq (h : Releasable V r) :
    expireIn V r =
      ⟨V.versioned.mapRows (fun row => row.follow r .expired) fun _ => follow_eventId ..,
      V.plain.set r.expire⟩ :=
  restate_some h.stored

/-- The expiry of another reservation leaves it as it is. -/
theorem Releasable.expireIn {r' : Reservation} (h : Releasable V r) (h' : Releasable V r')
    (hne : r'.id ≠ r.id) : Releasable (expireIn V r) r' where
  stored := by
    rw [h.expireIn_eq, Table.get_set_of_ne _ hne]
    exact h'.stored
  pending := h'.pending
  positive := h'.positive
  parent := by
    rw [h.expireIn_eq]
    exact h'.parent

/-- **The loop of a sweep**, from the middle of a transaction. -/
theorem Steady.exec_releaseAll (h : Steady db k) (inp : Input UUID)
    (hnd : (rs.map Reservation.id).Nodup) (hrs : ∀ r ∈ rs, Releasable (k.view db) r)
    (f : List Reservation → InventoryM α) :
    ∃ k', (releaseAll rs >>= f).exec db inp k = (f (rs.map Reservation.expire)).exec db inp k' ∧
      Steady db k' ∧ k'.view db = rs.foldl expireIn (k.view db) := by
  induction rs generalizing k f with
  | nil => exact ⟨k, rfl, h, rfl⟩
  | cons r rs ih =>
    obtain ⟨hr, hrest⟩ := List.forall_mem_cons.1 hrs
    rw [List.map_cons, List.nodup_cons] at hnd
    obtain ⟨row, hrow⟩ := Table.exists_get hr.parent
    have he : row.eventId = r.eventId := (k.view db).versioned.pk_of_get hrow
    obtain ⟨k₁, hexec₁, h₁, hview₁⟩ := h.exec_release inp true hr.stored (.inl hr.pending)
      hr.positive hrow fun released => releaseAll rs >>= fun rest => f (released :: rest)
    have hview : k₁.view db = Inventory.expireIn (k.view db) r := by
      rw [hview₁, hr.expireIn_eq, ← set_follow hrow]
      rw [show row.follow r .expired = bump (row.giveBack r) from
        follow_released true he (.inl hr.pending)]
      rfl
    have hrest₁ : ∀ r' ∈ rs, Releasable (k₁.view db) r' := by
      intro r' hr'
      rw [hview]
      exact hr.expireIn (hrest r' hr') fun heq => hnd.1 (heq ▸ List.mem_map_of_mem hr')
    obtain ⟨k₂, hexec₂, h₂, hview₂⟩ := ih h₁ hnd.2 hrest₁ fun rest => f (r.expire :: rest)
    refine ⟨k₂, ?_, h₂, by rw [hview₂, hview, List.foldl_cons]⟩
    rw [List.map_cons, ← hexec₂]
    refine Eq.trans ?_ hexec₁
    rw [releaseAll, bind_assoc]
    simp only [bind_assoc, Prog.pure_eq, Prog.ret_bind]

/-- The rows that the query of a sweep picks. -/
abbrev dueRows (db : InventoryDb) (inp : Input UUID) : List Reservation :=
  (Work.init : InventoryWork).matching db inp.scan (isExpiredPending inp.now) sweepLimit

/-- The rows that a sweep picks can all be released. -/
theorem releasable_of_due (h : DbInv db) {inp : Input UUID} (hr : r ∈ dueRows db inp) :
    Releasable db r := by
  obtain ⟨-, -, hrows⟩ := Work.matching_spec db .init inp.scan (isExpiredPending inp.now) sweepLimit
  obtain ⟨hget, hdue⟩ := hrows r hr
  rw [view_init] at hget
  exact ⟨hget, pending_of_isExpiredPending hdue, h.valid hget, h.fk hget⟩

/-- **An isolated sweep** returns the rows its query picks, expired, and commits their expiry. -/
theorem sweep_exec (settings : Settings) (inp : Input UUID) (h : DbInv db) :
    (Call.sweepExpiredReservations.body settings).atomically db inp =
      (.returned (.reservations ((dueRows db inp).map Reservation.expire)),
        (dueRows db inp).foldl expireIn db) := by
  obtain ⟨hnd, -, -⟩ := Work.matching_spec db .init inp.scan (isExpiredPending inp.now) sweepLimit
  -- the session after the query
  set k : InventoryWork := ⟨Session.empty.loadAll (dueRows db inp), .empty, 0⟩ with hk
  have hselect : (Work.init : InventoryWork).select db inp.scan (isExpiredPending inp.now)
      sweepLimit = (dueRows db inp, k) := Prod.ext (List.map_id' _) rfl
  have hview : k.view db = db := Db.overlay_empty db
  have hclean : k.session.Clean := by
    rw [hk, Session.loadAll_eq]
    exact ⟨rfl, rfl, rfl, rfl⟩
  have hloaded : k.session.loadedVersioned = fun _ => none := by
    rw [hk, Session.loadAll_eq]
    rfl
  have hfresh : k.Fresh db := by
    refine ⟨fun {key row} hrow => ?_, fun {i r} hr => ?_⟩
    · rw [hloaded] at hrow
      cases hrow
    · rcases Session.loadedPlain_loadAll hr with hempty | ⟨hmem, rfl⟩
      · cases hempty
      · rw [hview]
        exact (releasable_of_due h hmem).stored
  have hsteady : Steady db k := by
    refine ⟨⟨hclean, fun {key row} hrow => ?_⟩, hfresh⟩
    rw [hloaded] at hrow
    cases hrow
  obtain ⟨k', hexec, hk', hview'⟩ := hsteady.exec_releaseAll inp hnd
    (fun r hr => hview.symm ▸ releasable_of_due h hr) fun rs => .ret (Result.reservations rs)
  rw [hview] at hview'
  refine Eq.trans ?_ (hexec.trans ((hk'.exec_ret inp _).trans (by rw [hview'])))
  simp only [Prog.atomically, Call.body, sweepExpiredReservations, findExpiredPending,
    Prog.clock_bind, Prog.select_bind, Prog.ret_bind, Prog.exec, hselect, Prog.pure_eq]

/-! ## The tables after the loop -/

/-- The reservations after the loop. -/
theorem expireAll_plain (rs : List Reservation) (V : InventoryDb) (i : UUID) :
    (rs.foldl expireIn V).plain.get i =
      if i ∈ rs.map Reservation.id then (V.plain.get i).map Reservation.expire
      else V.plain.get i := by
  induction rs generalizing V with
  | nil => rfl
  | cons r rs ih =>
    have hone : (expireIn V r).plain.get i =
        if i = r.id then (V.plain.get i).map Reservation.expire else V.plain.get i := by
      cases hr : V.plain.get r.id with
      | none =>
        rw [expireIn, restate_none hr]
        split
        · next hi => rw [hi, hr]; rfl
        · rfl
      | some cur =>
        have hid : cur.id = r.id := V.plain.pk_of_get hr
        rw [expireIn, restate_some hr, Table.get_set, pk_reservation, hid]
        split
        · next hi => rw [hi, hr, ← hid]; rfl
        · rfl
    rw [List.foldl_cons, ih, hone, List.map_cons]
    by_cases hi : i = r.id
    · cases hv : V.plain.get i <;> simp [hi, Reservation.expire]
    · simp [hi]

/-- The event rows after the loop. -/
theorem expireAll_versioned (hnd : (rs.map Reservation.id).Nodup) (hrs : ∀ r ∈ rs, Releasable V r)
    (e : UUID) :
    (rs.foldl expireIn V).versioned.get e =
      (V.versioned.get e).map fun row => rs.foldl (fun row r => row.follow r .expired) row := by
  induction rs generalizing V with
  | nil => simp
  | cons r rs ih =>
    obtain ⟨hr, hrest⟩ := List.forall_mem_cons.1 hrs
    rw [List.map_cons, List.nodup_cons] at hnd
    rw [List.foldl_cons, ih hnd.2 fun r' hr' => hr.expireIn (hrest r' hr') fun heq =>
      hnd.1 (heq ▸ List.mem_map_of_mem hr'), hr.expireIn_eq, Table.get_mapRows, Option.map_map]
    rfl

theorem seatsOf_cons (r : Reservation) (rs : List Reservation) (e : UUID) :
    seatsOf (r :: rs) e = (if r.eventId = e then r.quantity else 0) + seatsOf rs e := by
  by_cases he : r.eventId = e <;> simp [seatsOf, he]

theorem seatsOf_map_expire (rs : List Reservation) (e : UUID) :
    seatsOf (rs.map Reservation.expire) e = seatsOf rs e := by
  induction rs with
  | nil => rfl
  | cons r rs ih =>
    rw [List.map_cons, seatsOf_cons, seatsOf_cons, ih, expire_eventId, expire_quantity]

/-- An event row loses the held seats of the expired reservations of its event, and keeps its
capacity and its sold seats. -/
theorem followAll_expired (hrs : ∀ r ∈ rs, r.status = .pending) (row : EventInventory) :
    let row' := rs.foldl (fun row r => row.follow r .expired) row
    row'.totalCapacity = row.totalCapacity ∧ row'.confirmedCount = row.confirmedCount ∧
      row'.reservedCount = row.reservedCount - seatsOf rs row.eventId := by
  induction rs generalizing row with
  | nil => simp [seatsOf]
  | cons r rs ih =>
    obtain ⟨hr, hrest⟩ := List.forall_mem_cons.1 hrs
    obtain ⟨h1, h2, h3⟩ := ih hrest (row.follow r .expired)
    rw [List.foldl_cons]
    refine ⟨h1.trans ?_, h2.trans ?_, h3.trans ?_⟩
    · unfold EventInventory.follow; split <;> rfl
    · unfold EventInventory.follow; split <;> simp [heldIn, hr]
    · rw [follow_eventId, seatsOf_cons]
      unfold EventInventory.follow
      by_cases he : row.eventId = r.eventId
      · simp only [if_pos he, if_pos he.symm, heldIn, hr]
        simp
        omega
      · simp only [if_neg he, if_neg (Ne.symm he)]
        omega

/-- The event row of another event is left alone. -/
theorem followAll_other {row : EventInventory} (hrs : ∀ r ∈ rs, r.eventId ≠ row.eventId) :
    rs.foldl (fun row r => row.follow r .expired) row = row := by
  induction rs with
  | nil => rfl
  | cons r rs ih =>
    obtain ⟨hr, hrest⟩ := List.forall_mem_cons.1 hrs
    rw [List.foldl_cons, EventInventory.follow, if_neg (Ne.symm hr)]
    exact ih hrest

/-- **An isolated sweep is the atomic operation.** -/
theorem sweep_swept (settings : Settings) (inp : Input UUID) (h : DbInv db) :
    ∃ rs, (Call.sweepExpiredReservations.body settings).atomically db inp =
        (.returned (.reservations rs),
          serve settings db (.sweepExpiredReservations, inp)) ∧
      Swept inp.now sweepLimit db rs (serve settings db (.sweepExpiredReservations, inp)) := by
  have hexec := sweep_exec settings inp h
  have hserve : serve settings db (.sweepExpiredReservations, inp) =
      (dueRows db inp).foldl expireIn db := congrArg Prod.snd hexec
  obtain ⟨hnd, -, hrows⟩ :=
    Work.matching_spec db .init inp.scan (isExpiredPending inp.now) sweepLimit
  have hlen := Work.matching_length db .init inp.scan (isExpiredPending inp.now) sweepLimit
  rw [view_init] at hlen hrows
  have hrel : ∀ r ∈ dueRows db inp, Releasable db r := fun r hr => releasable_of_due h hr
  have hids : ((dueRows db inp).map Reservation.expire).map Reservation.id =
      (dueRows db inp).map Reservation.id := by
    rw [List.map_map]
    rfl
  refine ⟨_, hexec.trans (by rw [hserve]), ?_⟩
  rw [hserve]
  exact {
    distinct := hids ▸ hnd
    count := (List.length_map _).trans hlen
    due := by
      intro r' hr'
      obtain ⟨r, hr, rfl⟩ := List.mem_map.1 hr'
      exact ⟨r, (hrows r hr).1, (hrows r hr).2, rfl⟩
    reservations := by
      intro i
      rw [expireAll_plain, hids]
    rows := by
      intro e row hrow
      obtain ⟨h1, h2, h3⟩ := followAll_expired (fun r hr => (hrel r hr).pending) row
      have he : row.eventId = e := db.versioned.pk_of_get hrow
      refine ⟨_, by rw [expireAll_versioned hnd hrel, hrow, Option.map_some], h1, h2, ?_⟩
      rw [EventInventory.available, EventInventory.available, h1, h2, h3, seatsOf_map_expire, he]
      omega
    frame := by
      intro e hne
      rw [expireAll_versioned hnd hrel]
      cases hrow : db.versioned.get e with
      | none => rfl
      | some row =>
        obtain rfl : row.eventId = e := db.versioned.pk_of_get hrow
        rw [Option.map_some, followAll_other]
        exact fun r hr => hne r.expire (List.mem_map_of_mem hr) }

/-! ## Consecutive sweeps -/

/-- The returned reservations were due. -/
theorem Swept.mem_expiredPending (h : Swept now limit db rs V') (hr : r ∈ rs) :
    r.id ∈ expiredPending db now := by
  obtain ⟨r₀, hr₀, hdue, -⟩ := h.due r hr
  exact Inventory.mem_expiredPending.2 ⟨r₀, hr₀, hdue⟩

/-- What is due after a sweep, at any time: what was, without the returned reservations. -/
theorem Swept.expiredPending_eq (h : Swept now limit db rs V') (t : Instant) :
    expiredPending V' t = expiredPending db t \ (rs.map Reservation.id).toFinset := by
  ext i
  rw [Finset.mem_sdiff, List.mem_toFinset, Inventory.mem_expiredPending, h.reservations i,
    Inventory.mem_expiredPending]
  by_cases hi : i ∈ rs.map Reservation.id
  · rw [if_pos hi]
    refine ⟨?_, fun hn => absurd hi hn.2⟩
    rintro ⟨r, hr, hdue⟩
    obtain ⟨r₀, -, rfl⟩ := Option.map_eq_some_iff.1 hr
    cases pending_of_isExpiredPending hdue
  · rw [if_neg hi]
    exact ⟨fun hr => ⟨hr, hi⟩, And.left⟩

/-- A sweep takes its reservations from those that are due. -/
theorem Swept.card_expiredPending (h : Swept now limit db rs V') :
    (expiredPending V' now).card = (expiredPending db now).card - rs.length := by
  have hsub : (rs.map Reservation.id).toFinset ⊆ expiredPending db now := by
    intro i hi
    obtain ⟨r, hr, rfl⟩ := List.mem_map.1 (List.mem_toFinset.1 hi)
    exact h.mem_expiredPending hr
  rw [h.expiredPending_eq, Finset.card_sdiff_of_subset hsub,
    List.toFinset_card_of_nodup h.distinct, List.length_map]

/-- Sweeps with the given answers of the environment. -/
def sweeps (inps : List (Input UUID)) : List (Call × Input UUID) :=
  inps.map fun inp => (.sweepExpiredReservations, inp)

/-- Consecutive sweeps, at times at which the same reservations are due, drain them. -/
theorem drain (settings : Settings) (now : Instant) (inps : List (Input UUID)) (hdb : DbInv db)
    (hnow : ∀ inp ∈ inps, expiredPending db inp.now = expiredPending db now) :
    ∃ rss : List (List Reservation),
      replies settings db (sweeps inps) = rss.map (fun rs => .returned (.reservations rs)) ∧
      (rss.flatten.map Reservation.id).Nodup ∧
      rss.flatten.length = min (expiredPending db now).card (sweepLimit * inps.length) ∧
      (∀ r ∈ rss.flatten, r.id ∈ expiredPending db now) ∧
      ∀ i, ((sweeps inps).foldl (serve settings) db).plain.get i =
        if i ∈ rss.flatten.map Reservation.id then (db.plain.get i).map Reservation.expire
        else db.plain.get i := by
  induction inps generalizing db with
  | nil => exact ⟨[], rfl, .nil, (Nat.min_zero _).symm, nofun, fun i => rfl⟩
  | cons inp inps ih =>
    obtain ⟨hinp, hnow⟩ := List.forall_mem_cons.1 hnow
    obtain ⟨rs, hexec, hrs⟩ := sweep_swept settings inp hdb
    set V := serve settings db (.sweepExpiredReservations, inp) with hV
    have hdue : ∀ r ∈ rs, r.id ∈ expiredPending db now := fun r hr =>
      hinp ▸ hrs.mem_expiredPending hr
    have hcount : rs.length = min (expiredPending db now).card sweepLimit := hinp ▸ hrs.count
    have hleft : ∀ t, expiredPending V t = expiredPending db t \ (rs.map Reservation.id).toFinset :=
      hrs.expiredPending_eq
    have hcard : (expiredPending V now).card = (expiredPending db now).card - rs.length := by
      rw [hleft now, ← hinp, ← hleft inp.now]
      exact hrs.card_expiredPending
    have hdbV : DbInv V := dbInv_serve settings _ hdb
    obtain ⟨rss, hrep, hnd, hlen, hmem, htable⟩ := ih hdbV
      fun inp' hinp' => by rw [hleft, hleft, hnow inp' hinp']
    -- what later sweeps return was not returned by this one
    have hlater : ∀ r ∈ rss.flatten, r.id ∈ expiredPending db now ∧
      r.id ∉ rs.map Reservation.id := by
      intro r hr
      have := hmem r hr
      rwa [hleft, Finset.mem_sdiff, List.mem_toFinset] at this
    have hdisjoint : ∀ i ∈ rs.map Reservation.id, i ∉ rss.flatten.map Reservation.id := by
      intro i hi hi'
      obtain ⟨r, hr, rfl⟩ := List.mem_map.1 hi'
      exact (hlater r hr).2 hi
    refine ⟨rs :: rss, ?_, ?_, ?_, ?_, fun i => ?_⟩
    · change reply settings db (.sweepExpiredReservations, inp) :: replies settings V
        (sweeps inps) = _
      rw [hrep, reply, hexec, List.map_cons]
    · rw [List.flatten_cons, List.map_append, List.nodup_append']
      exact ⟨hrs.distinct, hnd, hdisjoint⟩
    · rw [List.flatten_cons, List.length_append, List.length_cons, Nat.mul_succ]
      omega
    · intro r hr
      rcases List.mem_append.1 hr with hr | hr
      · exact hdue r hr
      · exact (hlater r hr).1
    · change ((sweeps inps).foldl (serve settings) V).plain.get i = _
      rw [htable i, hrs.reservations i, List.flatten_cons, List.map_append]
      by_cases hi : i ∈ rs.map Reservation.id
      · rw [if_neg (hdisjoint i hi), if_pos hi, if_pos (List.mem_append_left _ hi)]
      · simp only [List.mem_append, hi, false_or, if_false]

end

/-- **Sweeps are exact and drain what is due.** In every state that satisfies the seat-accounting
equations, an isolated sweep is the atomic operation: it returns as many distinct reservations as
are pending and past their time, at most a hundred, expires exactly these and gives each event
exactly their seats back. So `k` consecutive sweeps, whichever reservations each query picks,
release `min n (100 * k)` of the `n` that are due, each of them once. -/
theorem sweep_drains (settings : Settings) (db : InventoryDb) (h : Accounted db) :
    (∀ inp, ∃ rs, reply settings db (.sweepExpiredReservations, inp) =
        .returned (.reservations rs) ∧
      Swept inp.now 100 db rs (serve settings db (.sweepExpiredReservations, inp))) ∧
    ∀ now inps, (∀ inp ∈ inps, expiredPending db inp.now = expiredPending db now) →
      ∃ rss : List (List Reservation),
        replies settings db (sweeps inps) = rss.map (fun rs => .returned (.reservations rs)) ∧
        (rss.flatten.map Reservation.id).Nodup ∧
        rss.flatten.length = min (expiredPending db now).card (100 * inps.length) ∧
        (∀ r ∈ rss.flatten, r.id ∈ expiredPending db now) ∧
        ∀ i, ((sweeps inps).foldl (serve settings) db).plain.get i =
          if i ∈ rss.flatten.map Reservation.id then (db.plain.get i).map Reservation.expire
          else db.plain.get i := by
  refine ⟨fun inp => ?_, fun now inps => drain settings now inps h.inv⟩
  obtain ⟨rs, hexec, hrs⟩ := sweep_swept settings inp h.inv
  exact ⟨rs, congrArg Prod.fst hexec, hrs⟩

/-- Three seats of one event and one of another, held by three reservations. -/
def heldSeats : List (Call × Input UUID) :=
  [(.initializeInventory ⟨1⟩ 3, ⟨0, ⟨0⟩, .ascending⟩),
    (.initializeInventory ⟨2⟩ 1, ⟨0, ⟨0⟩, .ascending⟩),
    (.reserveSeats ⟨1⟩ ⟨5⟩ 1, ⟨0, ⟨101⟩, .ascending⟩),
    (.reserveSeats ⟨1⟩ ⟨6⟩ 2, ⟨0, ⟨102⟩, .ascending⟩),
    (.reserveSeats ⟨2⟩ ⟨7⟩ 1, ⟨0, ⟨103⟩, .ascending⟩)]

/-- All three reservations are due: one sweep is the atomic operation, and two sweeps together
release each of them once. -/
theorem sweep_drains_held :
    expiredPending (serveAll .default heldSeats) 600000001 = {⟨101⟩, ⟨102⟩, ⟨103⟩} ∧
    (∃ rs, reply .default (serveAll .default heldSeats)
        (.sweepExpiredReservations, ⟨600000001, ⟨0⟩, .ascending⟩) = .returned (.reservations rs) ∧
      Swept 600000001 100 (serveAll .default heldSeats) rs (serve .default
        (serveAll .default heldSeats) (.sweepExpiredReservations, ⟨600000001, ⟨0⟩, .ascending⟩))) ∧
    ∃ rss : List (List Reservation),
      replies .default (serveAll .default heldSeats)
          (sweeps [⟨600000001, ⟨0⟩, .ascending⟩, ⟨600000001, ⟨1⟩, .ascending⟩]) =
        rss.map (fun rs => .returned (.reservations rs)) ∧
      (rss.flatten.map Reservation.id).Nodup ∧ rss.flatten.length = 3 ∧
      ∀ r ∈ rss.flatten, r.id ∈ expiredPending (serveAll .default heldSeats) 600000001 := by
  have hdue : expiredPending (serveAll .default heldSeats) 600000001 = {⟨101⟩, ⟨102⟩, ⟨103⟩} := by
    decide +kernel
  obtain ⟨hone, hall⟩ := sweep_drains .default _ (accounted_serveAll .default heldSeats)
  obtain ⟨rss, hreplies, hnd, hlen, hmem, -⟩ := hall 600000001
    [⟨600000001, ⟨0⟩, .ascending⟩, ⟨600000001, ⟨1⟩, .ascending⟩] (by simp)
  refine ⟨hdue, hone ⟨600000001, ⟨0⟩, .ascending⟩, rss, hreplies, hnd, ?_, hmem⟩
  rw [hlen, hdue]
  decide

end EventSphere.Inventory
