import EventSphere.Inventory.Reservations
import EventSphere.Inventory.Sweep

/-!
# What a sweep returns is what it has done

The reaper publishes a message for each reservation that `sweep_expired_reservations` returns
(`reservation_reaper.py:38`), so the answer has to say what the commit did. For every interleaving
it does (`sweep_exact`): the returned reservations are stored as returned, no other reservation
changes, and every event row gives back the seats of exactly those of its reservations that are
returned.
-/

namespace EventSphere.Inventory

/-- What a sweep that returns `rs` has written. -/
structure SweptExactly (rs : List Reservation) (W : InventoryDb) : Prop where
  nodup : (rs.map Reservation.id).Nodup
  length : rs.length ≤ sweepLimit
  expired : ∀ r ∈ rs, r.status = .expired
  written : ∀ i r, W.plain.get i = some r ↔ r ∈ rs ∧ r.id = i

/-- What a call is held to, besides what `Call.spec` says: a sweep writes each reservation once and
returns what it has written. -/
def Call.exact (call : Call) : Spec EventInventory Reservation InventoryError Result where
  flush k := Change call k ∧ (call = .sweepExpiredReservations →
    Disjoint k.session.dirtyPlain.keys k.writes.plain.keys)
  ret a k := call = .sweepExpiredReservations →
    ∃ rs, a = .reservations rs ∧ SweptExactly rs k.writes
  raise _ _ := True

/-! ## The program -/

/-- `release`, for a pending reservation that has been read. -/
theorem releaseRead_safe {S : Spec EventInventory Reservation InventoryError Reservation}
    {k : InventoryWork} {r : Reservation} (h : Ready k) (hl : k.session.loadedPlain r.id = some r)
    (hs : r.status = .pending) (hq : 0 < r.quantity)
    (hflush : ∀ k', Change .sweepExpiredReservations k' → k'.session.dirtyPlain.keys = {r.id} →
      k'.writes = k.writes → S.flush k')
    (hret : ∀ k', Ready k' → (∀ i ≠ r.id, k'.session.loadedPlain i = k.session.loadedPlain i) →
      k'.writes.plain = k.writes.plain.set r.expire → S.ret r.expire k')
    (hraise : ∀ e k', S.raise e k') : S.Safe (release r.id true) k := by
  have hobj : k.session.objPlain r.id = some r := by
    rw [Session.objPlain, h.clean.dirtyPlain, Table.get_empty, Option.none_or]
    exact hl
  unfold release getReservation
  simp only [Prog.getPlain_bind, Prog.ret_bind, Spec.Safe, hobj]
  rw [if_neg fun hne => hne.1 hs]
  refine h.getVersioned_safe hl fun row k' hk' hp hw hrow he => ?_
  have hloaded : k'.session.loadedVersioned (row.giveBack r).eventId = some row := by
    rwa [giveBack_eventId, he]
  refine hk'.write_safe .sweepExpiredReservations hloaded (giveBack_ne hq) (hp ▸ hl) (fun hne => ?_)
    (fun k'' hv' hp' hw' hh => ?_) (fun k'' hk'' ho hw'' => ?_) fun _ _ => hraise _ _
  · have := congrArg Reservation.status hne
    rw [hs] at this
    cases this
  · have hc : Change .sweepExpiredReservations k'' :=
      .release (.inr ⟨rfl, rfl, hs⟩) (hp' ▸ hp ▸ hl) (.inl hs) hq (hv' ▸ hrow) he hh
    refine ⟨hc, hflush _ hc ?_ (hw'.trans hw)⟩
    rw [hh.dirtyPlain]
    rfl
  · exact hret _ hk'' (fun i hi => (ho i hi).trans (hp ▸ rfl)) (hw''.trans (hw ▸ rfl))

/-- The loop of the sweep returns what it writes: the reservations it still has to release, each
expired. -/
theorem releaseAll_exact {S : Spec EventInventory Reservation InventoryError (List Reservation)}
    {rs : List Reservation} {k : InventoryWork} (h : Ready k) (hnd : (rs.map Reservation.id).Nodup)
    (hrs : ∀ r ∈ rs, k.session.loadedPlain r.id = some r ∧ r.status = .pending ∧ 0 < r.quantity)
    (hnew : ∀ r ∈ rs, r.id ∉ k.writes.plain.keys)
    (hflush : ∀ k', Change .sweepExpiredReservations k' →
      Disjoint k'.session.dirtyPlain.keys k'.writes.plain.keys → S.flush k')
    (hret : ∀ k', Ready k' →
      (∀ i r, k'.writes.plain.get i = some r ↔
        (∃ r₀ ∈ rs, r = r₀.expire ∧ r₀.id = i) ∨ k.writes.plain.get i = some r) →
      S.ret (rs.map Reservation.expire) k')
    (hraise : ∀ e k', S.raise e k') : S.Safe (releaseAll rs) k := by
  induction rs generalizing k S with
  | nil => exact ⟨h.clean, hret _ h fun i r => by simp⟩
  | cons r rs ih =>
    obtain ⟨hl, hs, hq⟩ := hrs r (.head _)
    rw [List.map_cons, List.nodup_cons] at hnd
    have hfree : r.id ∉ k.writes.plain.keys := hnew r (.head _)
    have hne : ∀ x ∈ rs, x.id ≠ r.id := fun x hx he => hnd.1 (he ▸ List.mem_map_of_mem hx)
    refine Spec.safe_bind (releaseRead_safe h hl hs hq (fun k' hc hd hw => hflush k' hc ?_)
      (fun k' hk' hother hw => ?_) hraise)
    · rw [hd, hw]
      exact Finset.disjoint_singleton_left.2 hfree
    · refine Spec.safe_bind (ih hk' hnd.2 (fun x hx => ?_) (fun x hx => ?_) hflush
        (fun k'' hk'' hw' => ?_) hraise)
      · rw [hother x.id (hne x hx)]
        exact hrs x (.tail _ hx)
      · rw [hw, Table.keys_set, Finset.mem_insert]
        exact not_or.2 ⟨hne x hx, hnew x (.tail _ hx)⟩
      · refine ⟨hk''.clean, hret k'' hk'' fun i x => ?_⟩
        -- what was written before the loop, the reservation released first and the others
        rw [hw' i x, hw, Table.get_set]
        change (_ ∨ (if i = r.id then _ else _) = _) ↔ _
        by_cases hi : i = r.id
        · subst hi
          rw [if_pos rfl, Table.get_eq_none.2 hfree]
          simp [eq_comm, or_comm]
        · rw [if_neg hi]
          simp [Ne.symm hi]

/-- The program of the sweep returns what it has written. -/
theorem sweep_exact_safe {S : Spec EventInventory Reservation InventoryError (List Reservation)}
    (hflush : ∀ k', Change .sweepExpiredReservations k' →
      Disjoint k'.session.dirtyPlain.keys k'.writes.plain.keys → S.flush k')
    (hret : ∀ (rs : List Reservation) (k' : InventoryWork), Ready k' → SweptExactly rs k'.writes →
      S.ret rs k')
    (hraise : ∀ e k', S.raise e k') : S.Safe sweepExpiredReservations .init := by
  refine Spec.safe_bind fun now rs hnd hlen hrs => ?_
  have hmap :
      (rs.map fun r => ((Session.empty : Session EventInventory _).objPlain (pk r)).getD r) =
      rs := List.map_id rs
  have hready : Ready ⟨Session.empty.loadAll rs, .empty, 0⟩ := by
    rw [Session.loadAll_eq]
    exact ⟨⟨rfl, rfl, rfl, rfl⟩, nofun⟩
  have hids : (rs.map Reservation.expire).map Reservation.id =
      rs.map Reservation.id := by
    rw [List.map_map]
    rfl
  refine ⟨hready.clean, ?_⟩
  change Spec.Safe _ (releaseAll (rs.map fun r =>
    ((Session.empty : Session EventInventory _).objPlain (pk r)).getD r)) _
  rw [hmap]
  refine releaseAll_exact hready hnd (fun r hr => ?_) (fun _ _ => Finset.notMem_empty _) hflush
    (fun k' hk' hw => hret _ k' hk' ⟨?_, ?_, ?_, fun i r => ?_⟩) hraise
  · obtain ⟨hv, hp⟩ := hrs r hr
    have hp' : r.status = .pending ∧ r.expiresAt < now := by simpa [isExpiredPending] using hp
    exact ⟨Session.loadAll_of_mem hnd (fun _ _ => rfl) hr, hp'.1, hv⟩
  · rw [hids]
    exact hnd
  · rw [List.length_map]
    exact hlen
  · intro r hr
    obtain ⟨r₀, -, rfl⟩ := List.mem_map.1 hr
    rfl
  · rw [hw i r, List.mem_map]
    constructor
    · rintro (⟨r₀, hr₀, rfl, rfl⟩ | hn)
      · exact ⟨⟨r₀, hr₀, rfl⟩, rfl⟩
      · cases hn
    · rintro ⟨⟨r₀, hr₀, rfl⟩, hi⟩
      exact .inl ⟨r₀, hr₀, rfl, hi⟩

/-- **The programs of the service keep to it**, whatever the database answers. -/
theorem Call.body_exact (settings : Settings) (call : Call) :
    call.exact.Safe (call.body settings) .init := by
  cases call with
  | sweepExpiredReservations =>
    exact Spec.safe_bind (sweep_exact_safe (fun k' hc hd => ⟨hc, fun _ => hd⟩)
      (fun rs k' hk' hw => ⟨hk'.clean, fun _ => ⟨rs, rfl, hw⟩⟩) fun _ _ => trivial)
  | initializeInventory | adjustCapacity | getAvailability | reserveSeats | confirmReservation
  | releaseReservation =>
    refine (Call.body_safe settings _).mono ?_ ?_ ?_
    · exact fun _ h => ⟨h, nofun⟩
    · exact fun _ _ _ => nofun
    · exact fun _ _ _ => trivial

/-! ## Interleaved -/

/-- The seats of an event, whatever the status of the reservation. -/
abbrev anySeats (e : UUID) : Reservation → ℤ := seats (fun _ => true) e

/-- The seats of the reservations of a list, summed one by one. -/
theorem sum_anySeats (rs : List Reservation) (e : UUID) :
    (rs.map (anySeats e)).sum = seatsOf rs e := by
  induction rs with
  | nil => rfl
  | cons r rs ih =>
    rw [List.map_cons, List.sum_cons, ih, seatsOf_cons]
    simp [anySeats, seats]

/-- A running sweep has written reservations that are committed, has taken their seats from the
reserved ones of their events, and has left everything else. -/
structure SweptFrom (db W : InventoryDb) : Prop where
  plain : ∀ {i r}, W.plain.get i = some r → ∃ r₀, db.plain.get i = some r₀ ∧ frame r₀ = frame r
  versioned : ∀ {e row}, W.versioned.get e = some row → ∃ row₀, db.versioned.get e = some row₀ ∧
    row.totalCapacity = row₀.totalCapacity ∧ row.confirmedCount = row₀.confirmedCount ∧
    row.reservedCount = row₀.reservedCount - W.plain.sum (anySeats e)

/-- What is known of the row versions of a running sweep. -/
def SweepLocked (call : Call) (db W : InventoryDb) : Prop :=
  call = .sweepExpiredReservations → SweptFrom db W

theorem sweepLocked : LockedRel SweepLocked where
  empty _ := ⟨nofun, nofun⟩
  agree h hL hc := by
    refine ⟨fun {i r} hr => ?_, fun {e row} hrow => ?_⟩
    · rw [← h.2 i (Table.mem_of_get hr)]
      exact (hL hc).plain hr
    · rw [← h.1 e (Table.mem_of_get hrow)]
      exact (hL hc).versioned hrow

section
variable {settings : Settings} {w w' : InventoryWorld} {a : Action Call UUID} {k : InventoryWork}
  {db : InventoryDb} {p : InventoryM Result}
  {S : Spec EventInventory Reservation InventoryError Result}

/-- Nothing is written of an event whose row is not. -/
theorem sum_unwritten (h : TxInv S db p k) {e : UUID} (he : k.writes.versioned.get e = none) :
    k.writes.plain.sum (anySeats e) = 0 := by
  refine Finset.sum_eq_zero fun i hi => ?_
  obtain ⟨r, hr⟩ := Table.exists_get hi
  rw [Table.term_of_get _ hr]
  refine seats_of_ne fun hre => ?_
  have hmem : r.eventId ∈ k.writes.versioned.keys := h.cover hr
  rw [hre] at hmem
  exact Table.get_eq_none.1 he hmem

/-- What a sweep sees of an event row. -/
theorem SweptFrom.view (h : SweptFrom db k.writes) (htx : TxInv S db p k) {e : UUID}
    {row : EventInventory} (hrow : (k.view db).versioned.get e = some row) :
    ∃ row₀, db.versioned.get e = some row₀ ∧ row.totalCapacity = row₀.totalCapacity ∧
      row.confirmedCount = row₀.confirmedCount ∧
      row.reservedCount = row₀.reservedCount - k.writes.plain.sum (anySeats e) := by
  rcases Option.or_eq_some_iff.1 hrow with hw | ⟨hn, hdb⟩
  · exact h.versioned hw
  · rw [sum_unwritten htx hn]
    exact ⟨row, hdb, rfl, rfl, (sub_zero _).symm⟩

/-- The flush of a sweep. -/
theorem SweptFrom.flush (h : SweptFrom db k.writes) (htx : TxInv S db p k)
    (hm : k.session.UpdatesMatch (k.view db)) (hc : Change .sweepExpiredReservations k)
    (hdis : Disjoint k.session.dirtyPlain.keys k.writes.plain.keys) :
    SweptFrom db k.flushed.writes := by
  cases hc with
  | @release _ _ row r expired hby hl hst hq hlrow he hh =>
    obtain ⟨-, rfl, hp⟩ := hby.resolve_left nofun
    have hc : Change .sweepExpiredReservations k :=
      .release (.inr ⟨rfl, rfl, hp⟩) hl hst hq hlrow he hh
    have hvis := hh.row_visible htx hc.disciplined hm (by simpa using he) hlrow
    have hfree : k.writes.plain.get r.id = none := by
      rw [hh.dirtyPlain] at hdis
      exact Table.get_eq_none.2 (Finset.disjoint_left.1 hdis (Finset.mem_insert_self ..))
    have hw : k.flushed.writes = ⟨k.writes.versioned.set (bump (row.giveBack r)),
        k.writes.plain.set r.expire⟩ := by
      change Db.overlay _ (Session.pending _) = _
      rw [hh.pending]
      ext1 <;> simp [releasedStatus, Reservation.expire]
    have hsum : ∀ e, (k.writes.plain.set r.expire).sum (anySeats e) =
        k.writes.plain.sum (anySeats e) + anySeats e r.expire := by
      intro e
      rw [Table.sum_set]
      change _ + (_ - k.writes.plain.term _ r.id) = _
      rw [Table.term_of_none _ hfree, sub_zero]
    rw [hw]
    refine ⟨fun {i r'} hr' => ?_, fun {e row'} hrow' => ?_⟩
    · rcases Table.get_set_inv hr' with ⟨hi, rfl⟩ | hr'
      · obtain ⟨cur, hcur, hf⟩ := htx.parts hl
        have hdb : db.plain.get r.id = some cur :=
          (Table.get_overlay_of_notMem (Table.get_eq_none.1 hfree)).symm.trans hcur
        exact ⟨cur, hi ▸ hdb, hf⟩
      · exact h.plain hr'
    · dsimp only
      rw [hsum e]
      rw [Table.get_set] at hrow'
      split at hrow'
      · next hi =>
        cases hrow'
        have he' : e = r.eventId := hi.trans (by simpa using he)
        subst he'
        obtain ⟨row₀, hrow₀, h1, h2, h3⟩ := h.view htx hvis
        refine ⟨row₀, hrow₀, ?_, ?_, ?_⟩
        · simpa using h1
        · simpa [giveBack_confirmedCount, hp] using h2
        · simp [giveBack_reservedCount, hp, h3, seats]
          omega
      · next hi =>
        have hne : r.eventId ≠ e := fun he' => hi (by simp [he, he'])
        obtain ⟨row₀, hrow₀, h1, h2, h3⟩ := h.versioned hrow'
        refine ⟨row₀, hrow₀, h1, h2, h3.trans ?_⟩
        have hzero : anySeats e r.expire = 0 := seats_of_ne hne
        rw [hzero, add_zero]

/-- The invariant of the sweeps. -/
structure Exact (w : InventoryWorld) : Prop where
  inv : w.Inv Call.exact
  locked : w.Holds SweepLocked

theorem exact_init : Exact .init where
  inv := World.inv_init
  locked := nofun

/-- **One step keeps the invariant.** -/
theorem Exact.step (h : Exact w) (hs : step settings w a = some w') : Exact w' where
  inv := World.Inv.step (Call.body_exact settings) h.inv hs
  locked := by
    refine World.Holds.step sweepLocked h.inv h.locked hs fun {t inp call k} ha hf hL => ?_
    rintro rfl
    obtain ⟨f, hrun⟩ := hf.running
    have htx := h.inv.tx hrun
    obtain ⟨-, ⟨hc, hdis⟩, -⟩ := htx.safe
    exact (hL rfl).flush htx hf.updates hc (hdis rfl)

/-- The seats of the reservations that a sweep has written. -/
theorem SweptExactly.sum_eq {rs : List Reservation} {W : InventoryDb} (h : SweptExactly rs W)
    (e : UUID) : W.plain.sum (anySeats e) = seatsOf rs e := by
  rw [← sum_anySeats]
  have hkeys : W.plain.keys = (rs.map Reservation.id).toFinset := by
    ext i
    rw [List.mem_toFinset, List.mem_map]
    constructor
    · intro hi
      obtain ⟨r, hr⟩ := Table.exists_get hi
      exact ⟨r, (h.written i r).1 hr⟩
    · rintro ⟨r, hr, hi⟩
      exact Table.mem_of_get ((h.written i r).2 ⟨hr, hi⟩)
  rw [Table.sum, hkeys, List.sum_toFinset _ h.nodup, List.map_map]
  congr 1
  refine List.map_congr_left fun r hr => ?_
  exact Table.term_of_get _ ((h.written r.id r).2 ⟨hr, rfl⟩)

/-- What the commit of a sweep that returns `rs` does to the tables. -/
structure SweepStep (rs : List Reservation) (db db' : InventoryDb) : Prop where
  nodup : (rs.map Reservation.id).Nodup
  length : rs.length ≤ sweepLimit
  expired : ∀ r ∈ rs, r.status = .expired ∧ db'.plain.get r.id = some r ∧
    ∃ r₀, db.plain.get r.id = some r₀ ∧ frame r₀ = frame r
  others : ∀ i ∉ rs.map Reservation.id, db'.plain.get i = db.plain.get i
  events : ∀ e row₀, db.versioned.get e = some row₀ → ∃ row, db'.versioned.get e = some row ∧
    row.totalCapacity = row₀.totalCapacity ∧ row.confirmedCount = row₀.confirmedCount ∧
    row.reservedCount = row₀.reservedCount - seatsOf rs e
  noEvents : ∀ e, db.versioned.get e = none → db'.versioned.get e = none

/-- The commit of a sweep. -/
theorem Exact.sweepStep (h : Exact w) {t : ℕ} {inp : Input UUID} {rs : List Reservation}
    (hs : Inventory.step settings w (.advance t inp) = some w')
    (ht : w'.txs[t]? = some (.done .sweepExpiredReservations (.returned (.reservations rs)))) :
    SweepStep rs w.db w'.db := by
  cases World.step_kind hs with
  | «continue» ht' _ _ =>
    rcases getElem?_set_inv ht with ⟨-, he⟩ | ⟨hne, -⟩
    · cases he
    · exact absurd rfl hne
  | stop ht' hn =>
    rcases getElem?_set_inv ht with ⟨-, he⟩ | ⟨hne, -⟩
    · obtain ⟨e, ho, -⟩ := (h.inv.tx ht').stop hn
      rw [ho] at he
      cases he
    · exact absurd rfl hne
  | @commit _ _ call p k res db' ht' _ hn =>
    rcases getElem?_set_inv ht with ⟨-, he⟩ | ⟨hne, -⟩
    · cases he
      have htx := h.inv.tx ht'
      obtain ⟨rfl, rfl⟩ := htx.commit_db hn
      obtain ⟨rs', hrs, hexact⟩ := htx.safe.2 rfl
      cases hrs
      have hlock := h.locked ht' rfl
      refine ⟨hexact.nodup, hexact.length, fun r hr => ?_, fun i hi => ?_, fun e row₀ hrow₀ => ?_,
        fun e he => ?_⟩
      · have hw := (hexact.written r.id r).2 ⟨hr, rfl⟩
        exact ⟨hexact.expired r hr, Table.get_overlay_of_get hw, hlock.plain hw⟩
      · refine Table.get_overlay_of_notMem fun hmem => hi ?_
        obtain ⟨r, hr⟩ := Table.exists_get hmem
        obtain ⟨hin, rfl⟩ := (hexact.written i r).1 hr
        exact List.mem_map_of_mem hin
      · rw [← hexact.sum_eq e]
        cases hw : k.writes.versioned.get e with
        | none =>
          rw [sum_unwritten htx hw]
          exact ⟨row₀, (Table.get_overlay_of_notMem (Table.get_eq_none.1 hw)).trans hrow₀, rfl, rfl,
            (sub_zero _).symm⟩
        | some row =>
          obtain ⟨row₁, hrow₁, hrest⟩ := hlock.versioned hw
          cases hrow₀.symm.trans hrow₁
          exact ⟨row, Table.get_overlay_of_get hw, hrest⟩
      · cases hw : k.writes.versioned.get e with
        | none => exact (Table.get_overlay_of_notMem (Table.get_eq_none.1 hw)).trans he
        | some row =>
          obtain ⟨row₀, hrow₀, -⟩ := hlock.versioned hw
          cases he.symm.trans hrow₀
    · exact absurd rfl hne

end

/-- The invariant that keeps the answers of the sweeps true: what they have returned is stored. -/
structure Returning (settings : Settings) (w : InventoryWorld) : Prop where
  coherent : Coherent settings w
  exact : Exact w
  returned : ∀ {t : ℕ} {rs : List Reservation},
    w.txs[t]? = some (.done .sweepExpiredReservations (.returned (.reservations rs))) →
    ∀ r ∈ rs, ReservedFor w.db r.id r.eventId r.orderId r.quantity

theorem returning_init (settings : Settings) : Returning settings .init where
  coherent := World.inv_init
  exact := exact_init
  returned := nofun

/-- One step keeps the answers true. -/
theorem Returning.step {settings : Settings} {w w' : InventoryWorld} {a : Action Call UUID}
    (h : Returning settings w) (hs : Inventory.step settings w a = some w') :
    Returning settings w' where
  coherent := h.coherent.step hs
  exact := h.exact.step hs
  returned {t rs} ht r hr := by
    have hnew : ∀ inp, a = .advance t inp →
      ReservedFor w'.db r.id r.eventId r.orderId r.quantity := by
      rintro inp rfl
      obtain ⟨-, hstored, -⟩ := (h.exact.sweepStep hs ht).expired r hr
      exact ⟨r, hstored, rfl, rfl, rfl⟩
    rcases Nat.lt_or_ge t w.txs.length with hlt | hge
    · rcases World.ended_step hlt hs ht with hold | ⟨p, k, -, hend⟩
      · exact (h.returned hold r hr).step h.coherent hs
      · cases hend with
        | commit ha | stop ha => exact hnew _ ha
    · cases World.step_kind hs with
      | begin call =>
        rcases getElem?_append_singleton ht with hold | ⟨-, he⟩
        · exact (h.returned hold r hr).step h.coherent hs
        · cases he
      | «continue» | commit | stop | abort =>
        have hlt := (List.getElem?_eq_some_iff.1 ht).1
        rw [List.length_set] at hlt
        omega

/-- **A sweep returns what it has done.** In every run of the interleaved service, a step that
commits a sweep stores the reservations that the sweep returns, each of them once and expired,
changes no other reservation, and takes from the reserved seats of every event exactly the
quantities of its returned reservations. -/
theorem sweep_exact (settings : Settings) (as : List (Action Call UUID)) (w w' : InventoryWorld)
    (t : ℕ) (inp : Input UUID) (rs : List Reservation)
    (hr : run (step settings) .init as = some w) (hs : step settings w (.advance t inp) = some w')
    (ht : w'.txs[t]? = some (.done .sweepExpiredReservations (.returned (.reservations rs)))) :
    SweepStep rs w.db w'.db :=
  (run_inv (I := Exact) (fun h hs => h.step hs) hr exact_init).sweepStep hs ht

/-- Two reservations of an event expire, and a third one is made while they are swept. -/
def sweptTogether : List (Action Call UUID) :=
  [.begin (.initializeInventory ⟨1⟩ 5)] ++ advances 0 0 4 ++
  [.begin (.reserveSeats ⟨1⟩ ⟨7⟩ 1)] ++ advances 0 1 7 ++
  [.begin (.reserveSeats ⟨1⟩ ⟨8⟩ 2)] ++ advances 0 2 7 ++
  [.begin .sweepExpiredReservations] ++ advances 600000001 3 2 ++
  [.begin (.reserveSeats ⟨1⟩ ⟨9⟩ 1)] ++ advances 0 4 7 ++ advances 600000001 3 10

/-- The reservations that transaction `t` has returned as a sweep. -/
def sweptBy (w : InventoryWorld) (t : ℕ) : Option (List Reservation) :=
  match w.txs[t]? with
  | some (.done .sweepExpiredReservations (.returned (.reservations rs))) => some rs
  | _ => none

theorem sweptBy_eq_some {w : InventoryWorld} {t : ℕ} {rs : List Reservation}
    (h : sweptBy w t = some rs) :
    w.txs[t]? = some (.done .sweepExpiredReservations (.returned (.reservations rs))) := by
  unfold sweptBy at h
  split at h
  · next ht => cases h; exact ht
  · cases h

theorem sweptTogether_returns : ∃ w, run (step .default) .init sweptTogether = some w ∧
    (step .default w (.advance 3 ⟨600000001, ⟨103⟩, .ascending⟩)).any fun w' =>
      (sweptBy w' 3).any (·.length = 2) :=
  exists_of_run (by decide +kernel)

/-- The sweep returns the first two reservations, and has taken the seats of these from the
event. -/
theorem sweptTogether_exact : ∃ w w' rs, run (step .default) .init sweptTogether = some w ∧
    step .default w (.advance 3 ⟨600000001, ⟨103⟩, .ascending⟩) = some w' ∧ rs.length = 2 ∧
    SweepStep rs w.db w'.db := by
  obtain ⟨w, hr, h⟩ := sweptTogether_returns
  obtain ⟨w', hs, h⟩ := (Option.any_eq_true _ _).1 h
  obtain ⟨rs, ht, hlen⟩ := (Option.any_eq_true _ _).1 h
  exact ⟨w, w', rs, hr, hs, of_decide_eq_true hlen,
    sweep_exact .default _ w w' 3 _ rs hr hs (sweptBy_eq_some ht)⟩

end EventSphere.Inventory
