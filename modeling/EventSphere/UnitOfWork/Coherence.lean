import EventSphere.UnitOfWork.Spec

/-!
# Coherence of interleaved sessions

The invariant of the interleaved system (`World.Inv`), for any set of safe programs. A session may
hold outdated rows, but a versioned row it holds is the visible one as soon as the two version
numbers agree (`Current`), so an `UPDATE` that matches its row overwrites exactly what the session
read (`TxInv.flush_matches`). Row versions of different transactions never meet (`World.Inv.locks`),
and since a plain row is only written together with its root, a transaction that has written a root
is the only one that can write its parts (`TxInv.cover`).
-/

set_option linter.unusedSectionVars false

namespace EventSphere

variable {c ρ κ τ ι ε α : Type} [PrimaryKey ρ κ] [PrimaryKey τ ι] [DecidableEq κ] [DecidableEq ι]
  [DecidableEq ρ] [DecidableEq τ] [Versioned ρ] [ForeignKey τ κ] [Framed τ]

/-! ## Sessions -/

namespace Session

/-- An object loaded by a query was loaded before or is one of the query's rows. -/
theorem loadedPlain_loadAll {rs : List τ} {σ : Session ρ τ} {i : ι} {r : τ}
    (h : (σ.loadAll rs).loadedPlain i = some r) :
    σ.loadedPlain i = some r ∨ r ∈ rs ∧ pk r = i := by
  induction rs generalizing σ with
  | nil => exact .inl h
  | cons x rs ih =>
    rcases ih (σ := σ.loadPlain x) h with h | ⟨h1, h2⟩
    · rcases Option.or_eq_some_iff.1 h with h | ⟨-, h⟩
      · exact .inl h
      · split at h
        · next hi => cases h; exact .inr ⟨.head _, hi.symm⟩
        · cases h
    · exact .inr ⟨.tail _ h1, h2⟩

/-- A query leaves the loaded objects alone. -/
theorem loadAll_of_loaded {rs : List τ} {σ : Session ρ τ} {i : ι} {r : τ}
    (h : σ.loadedPlain i = some r) : (σ.loadAll rs).loadedPlain i = some r := by
  induction rs generalizing σ with
  | nil => exact h
  | cons x rs ih =>
    refine ih (σ := σ.loadPlain x) ?_
    simp [loadPlain, h]

/-- The rows of a query that were not loaded before are the objects under their keys. -/
theorem loadAll_of_mem {rs : List τ} {σ : Session ρ τ} (hnd : (rs.map pk).Nodup)
    (hσ : ∀ r ∈ rs, σ.loadedPlain (pk r) = none) {r : τ} (hr : r ∈ rs) :
    (σ.loadAll rs).loadedPlain (pk r) = some r := by
  induction rs generalizing σ with
  | nil => cases hr
  | cons x rs ih =>
    rw [List.map_cons, List.nodup_cons] at hnd
    rcases List.mem_cons.1 hr with rfl | hr
    · refine loadAll_of_loaded (σ := σ.loadPlain r) ?_
      simp [loadPlain, hσ r (.head _)]
    · refine ih (σ := σ.loadPlain x) hnd.2 (fun r' hr' => ?_) hr
      have hne : pk r' ≠ pk x := fun he => hnd.1 (he ▸ List.mem_map_of_mem hr')
      simp [loadPlain, hσ r' (.tail _ hr'), hne]

/-- A query touches nothing but the identity map of the plain rows. -/
theorem loadAll_eq (rs : List τ) (σ : Session ρ τ) :
    σ.loadAll rs = { σ with loadedPlain := (σ.loadAll rs).loadedPlain } := by
  induction rs generalizing σ with
  | nil => rfl
  | cons x rs ih =>
    have := ih (σ.loadPlain x)
    rwa [show (σ.loadPlain x).loadAll rs = σ.loadAll (x :: rs) from rfl] at this

/-- A clean session flushes nothing. -/
theorem Clean.pending {σ : Session ρ τ} (h : σ.Clean) : σ.pending = .empty := by
  simp only [Session.pending, h.dirtyVersioned, h.dirtyPlain, h.newVersioned, h.newPlain,
    Table.mapRows_empty, Table.overlay_empty]
  rfl

/-- A flushed versioned row is a dirty object with its version raised, or an added row. -/
theorem pending_versioned {σ : Session ρ τ} {k : κ} {r : ρ}
    (h : σ.pending.versioned.get k = some r) :
    σ.newVersioned.get k = some r ∨ ∃ r₀, σ.dirtyVersioned.get k = some r₀ ∧ r = bump r₀ := by
  rcases Option.or_eq_some_iff.1 h with h | ⟨-, h⟩
  · exact .inl h
  · obtain ⟨r₀, h1, h2⟩ := Option.map_eq_some_iff.1 h
    exact .inr ⟨r₀, h1, h2.symm⟩

/-- A flushed plain row is a dirty object or an added row. -/
theorem pending_plain {σ : Session ρ τ} {i : ι} {r : τ} (h : σ.pending.plain.get i = some r) :
    σ.newPlain.get i = some r ∨ σ.dirtyPlain.get i = some r :=
  (Option.or_eq_some_iff.1 h).imp_right And.right

end Session

namespace Work

/-- What a successful flush checked, and what it leaves. -/
theorem flush_ok {db : Db ρ τ} {k k' : Work ρ τ} (h : k.flush db = .ok k') :
    k.session.UpdatesMatch (k.view db) ∧ k.session.InsertsFit (k.view db) ∧
      k' = k.flushed := by
  unfold flush at h
  split at h
  · next h1 =>
    split at h
    · next h2 => cases h; exact ⟨h1, h2, rfl⟩
    · cases h
  · cases h

/-- A flush of a clean session succeeds and writes nothing. -/
theorem flush_clean (db : Db ρ τ) {k : Work ρ τ} (h : k.session.Clean) :
    ∃ k', k.flush db = .ok k' ∧ k'.writes = k.writes := by
  have h1 : k.session.UpdatesMatch (k.view db) := by
    simp [Session.UpdatesMatch, h.dirtyVersioned, h.dirtyPlain]
  have h2 : k.session.InsertsFit (k.view db) := by
    simp [Session.InsertsFit, h.newVersioned, h.newPlain]
  refine ⟨_, by rw [flush, if_pos h1, if_pos h2], ?_⟩
  rw [Work.flushed, h.pending, Db.overlay_empty]

/-- A flush lays the pending rows over what the transaction saw. -/
theorem view_flushed (db : Db ρ τ) (k : Work ρ τ) :
    k.flushed.view db = (k.view db).overlay k.session.pending :=
  (Db.overlay_assoc _ _ _).symm

/-- The rows under a list of keys that all have one, in the order of the keys. -/
theorem map_pk_filterMap {t : Table τ} {ks : List ι} (h : ∀ i ∈ ks, i ∈ t.keys) :
    (ks.filterMap t.get).map pk = ks := by
  induction ks with
  | nil => rfl
  | cons i ks ih =>
    obtain ⟨r, hr⟩ := Table.exists_get (h i (.head _))
    rw [List.filterMap_cons_some hr, List.map_cons, ih fun j hj => h j (.tail _ hj),
      t.pk_of_get hr]

/-- The keys that a limited query matches. -/
theorem mem_matched {db : Db ρ τ} {k : Work ρ τ} {scan : ScanOrder ι} {p : τ → Bool} {i : ι} :
    i ∈ scan.order ((k.view db).plain.keys.filter fun i => ((k.view db).plain.get i).any p) ↔
      ∃ r, (k.view db).plain.get i = some r ∧ p r = true := by
  rw [scan.mem_order, Finset.mem_filter, Option.any_eq_true]
  exact ⟨And.right, fun ⟨r, hr, hp⟩ => ⟨Table.mem_of_get hr, r, hr, hp⟩⟩

/-- The keys of the rows of a limited query, in the order the database scans them. -/
theorem map_pk_matching (db : Db ρ τ) (k : Work ρ τ) (scan : ScanOrder ι) (p : τ → Bool)
    (limit : ℕ) :
    (k.matching db scan p limit).map pk = (scan.order
      ((k.view db).plain.keys.filter fun i => ((k.view db).plain.get i).any p)).take limit := by
  refine map_pk_filterMap fun i hi => ?_
  obtain ⟨r, hr, -⟩ := mem_matched.1 (List.mem_of_mem_take hi)
  exact Table.mem_of_get hr

/-- A limited query returns as many rows as match, up to the limit. -/
theorem matching_length (db : Db ρ τ) (k : Work ρ τ) (scan : ScanOrder ι) (p : τ → Bool)
    (limit : ℕ) :
    (k.matching db scan p limit).length =
      min ((k.view db).plain.keys.filter fun i => ((k.view db).plain.get i).any p).card limit := by
  set s := (k.view db).plain.keys.filter fun i => ((k.view db).plain.get i).any p with hs
  have hcard : (scan.order s).length = s.card := by
    rw [← List.toFinset_card_of_nodup (scan.nodup s)]
    congr 1
    ext i
    rw [List.mem_toFinset, scan.mem_order]
  have hlen := congrArg List.length (map_pk_matching db k scan p limit)
  rw [List.length_map, List.length_take, hcard] at hlen
  rw [hlen, min_comm]

/-- The rows of a limited query are distinct, at most as many as the limit allows, and each is a
visible row that satisfies the filter. -/
theorem matching_spec (db : Db ρ τ) (k : Work ρ τ) (scan : ScanOrder ι) (p : τ → Bool)
    (limit : ℕ) :
    ((k.matching db scan p limit).map pk).Nodup ∧ (k.matching db scan p limit).length ≤ limit ∧
      ∀ r ∈ k.matching db scan p limit, (k.view db).plain.get (pk r) = some r ∧ p r = true := by
  refine ⟨?_, ?_, fun r hr => ?_⟩
  · rw [map_pk_matching]
    exact (scan.nodup _).sublist (List.take_sublist _ _)
  · rw [matching_length]
    exact min_le_right _ _
  · obtain ⟨i, hi, hget⟩ := List.mem_filterMap.1 hr
    obtain ⟨r', hr', hp⟩ := mem_matched.1 (List.mem_of_mem_take hi)
    cases hget.symm.trans hr'
    rw [(k.view db).plain.pk_of_get hget]
    exact ⟨hget, hp⟩

end Work

/-! ## What an operation can do -/

/-- The kinds of operations that do not end a transaction, with everything each of them does to its
state. -/
inductive Prog.NextKind (db : Db ρ τ) (p : Prog ρ κ τ ι ε α) (k : Work ρ τ) : Work ρ τ → Prop
  | keep {σ : Session ρ τ} (h1 : σ.loadedVersioned = k.session.loadedVersioned)
      (h2 : σ.loadedPlain = k.session.loadedPlain) : NextKind db p k { k with session := σ }
  | loadVersioned {r : ρ} (h : (k.view db).versioned.get (pk r) = some r) :
      NextKind db p k { k with session := k.session.loadVersioned r }
  | loadPlain {rs : List τ} (h : ∀ r ∈ rs, (k.view db).plain.get (pk r) = some r) :
      NextKind db p k { k with session := k.session.loadAll rs }
  | flush {f : Option FlushError → Prog ρ κ τ ι ε α} (hp : p = .flush f)
      (h1 : k.session.UpdatesMatch (k.view db)) (h2 : k.session.InsertsFit (k.view db)) :
      NextKind db p k k.flushed
  | fail {f : Option FlushError → Prog ρ κ τ ι ε α} {e : FlushError} (hp : p = .flush f)
      (h : k.flush db = .error e) : NextKind db p k (k.fail e)
  | rollback : NextKind db p k k.rollback

/-- Every operation that does not end its transaction is of one of the kinds. -/
theorem Prog.next_kind {db : Db ρ τ} {inp : Input ι} {p p' : Prog ρ κ τ ι ε α} {k k' : Work ρ τ}
    (hn : p.next db inp k = .continue p' k') : NextKind db p k k' := by
  cases p with
  | ret a => simp only [Prog.next] at hn; split at hn <;> cases hn
  | raise e => cases hn
  | clock f | uuid f | addVersioned row f | addPlain row f => cases hn; exact .keep rfl rfl
  | getVersioned key f =>
    cases hn
    unfold Work.getVersioned
    split
    · exact .keep rfl rfl
    · split
      · next r hv =>
        exact .loadVersioned (by rwa [(k.view db).versioned.pk_of_get hv])
      · exact .keep rfl rfl
  | getPlain i f =>
    cases hn
    unfold Work.getPlain
    split
    · exact .keep rfl rfl
    · split
      · next r hv =>
        have hr : ∀ r' ∈ [r], (k.view db).plain.get (pk r') = some r' := fun r' hr' => by
          rw [List.mem_singleton.1 hr', (k.view db).plain.pk_of_get hv]
          exact hv
        exact .loadPlain hr
      · exact .keep rfl rfl
  | select q limit f =>
    cases hn
    exact .loadPlain fun r hr => ((k.matching_spec db inp.scan q limit).2.2 r hr).1
  | assignVersioned row f =>
    cases hn
    refine .keep ?_ ?_ <;> (unfold Session.assignVersioned; split <;> rfl)
  | assignPlain row f =>
    cases hn
    refine .keep ?_ ?_ <;> (unfold Session.assignPlain; split <;> rfl)
  | flush f =>
    simp only [Prog.next] at hn
    split at hn
    · next hk =>
      cases hn
      obtain ⟨h1, h2, rfl⟩ := Work.flush_ok hk
      exact .flush rfl h1 h2
    · next hk => cases hn; exact .fail rfl hk
  | rollback f => cases hn; exact .rollback

/-! ## One transaction -/

/-- A versioned row that a session holds: the transaction's own row version, or a committed row of
the past, which is the present one if the version is. -/
def Current (db : Db ρ τ) (k : Work ρ τ) (key : κ) (r : ρ) : Prop :=
  k.writes.versioned.get key = some r ∨
  key ∉ k.writes.versioned.keys ∧ ∃ cur, db.versioned.get key = some cur ∧
    version r ≤ version cur ∧ (version r = version cur → r = cur)

/-- The invariant of a running transaction: its program is safe, its objects are coherent with what
it sees, and its row versions are newer than the committed rows, keep the immutable columns and
come with their roots. -/
structure TxInv (S : Spec ρ τ ε α) (db : Db ρ τ) (p : Prog ρ κ τ ι ε α) (k : Work ρ τ) : Prop where
  safe : S.Safe p k
  loaded : ∀ {key r}, k.session.loadedVersioned key = some r → Current db k key r
  parts : ∀ {i r}, k.session.loadedPlain i = some r →
    ∃ cur, (k.view db).plain.get i = some cur ∧ frame cur = frame r
  newer : ∀ {key r cur}, k.writes.versioned.get key = some r →
    db.versioned.get key = some cur → version cur < version r
  kept : ∀ {i r cur}, k.writes.plain.get i = some r → db.plain.get i = some cur →
    frame r = frame cur
  cover : ∀ {i r}, k.writes.plain.get i = some r → fk r ∈ k.writes.versioned.keys
  valid : ∀ {i r}, k.writes.plain.get i = some r → valid (frame r)

/-- The invariant of the committed tables. -/
structure DbInv (db : Db ρ τ) : Prop where
  fk : ∀ {i r}, db.plain.get i = some r → fk r ∈ db.versioned.keys
  valid : ∀ {i r}, db.plain.get i = some r → valid (frame r)

section
variable {S : Spec ρ τ ε α} {db : Db ρ τ} {p p' : Prog ρ κ τ ι ε α} {k k' : Work ρ τ}
  {inp : Input ι}

/-- A held row whose version is the visible one is the visible row. -/
theorem Current.eq_of_version {key : κ} {r cur : ρ} (h : Current db k key r)
    (hv : (k.view db).versioned.get key = some cur) (he : version cur = version r) : cur = r := by
  rcases h with h | ⟨hn, cur', hc, -, heq⟩
  · exact Option.some.inj (hv.symm.trans (Table.get_overlay_of_get h))
  · have hv' : db.versioned.get key = some cur := (Table.get_overlay_of_notMem hn).symm.trans hv
    obtain rfl : cur' = cur := Option.some.inj (hc.symm.trans hv')
    exact (heq he.symm).symm

/-- The row a `SELECT` returns is current. -/
theorem Current.of_view {key : κ} {r : ρ} (h : (k.view db).versioned.get key = some r) :
    Current db k key r := by
  rcases Option.or_eq_some_iff.1 h with h | ⟨hn, h⟩
  · exact .inl h
  · exact .inr ⟨Table.get_eq_none.1 hn, r, h, le_rfl, fun _ => rfl⟩

/-- What a transaction sees has its foreign keys. -/
theorem TxInv.view_fk (h : TxInv S db p k) (hdb : DbInv db) {i : ι} {r : τ}
    (hr : (k.view db).plain.get i = some r) : fk r ∈ (k.view db).versioned.keys := by
  refine Finset.mem_union.2 ?_
  rcases Option.or_eq_some_iff.1 hr with hr | ⟨-, hr⟩
  · exact .inr (h.cover hr)
  · exact .inl (hdb.fk hr)

/-- What a transaction sees may be stored. -/
theorem TxInv.view_valid (h : TxInv S db p k) (hdb : DbInv db) {i : ι} {r : τ}
    (hr : (k.view db).plain.get i = some r) : EventSphere.valid (frame r) := by
  rcases Option.or_eq_some_iff.1 hr with hr | ⟨-, hr⟩
  · exact h.valid hr
  · exact hdb.valid hr

/-- A transaction without row versions and objects keeps its invariant if its program is safe. -/
theorem TxInv.fresh {n : ℕ} (h : S.Safe p ⟨.empty, .empty, n⟩) :
    TxInv S db p ⟨.empty, .empty, n⟩ where
  safe := h
  loaded := nofun
  parts := nofun
  newer := nofun
  kept := nofun
  cover := nofun
  valid := nofun

/-- A change of the session that loads nothing. -/
theorem TxInv.session {σ : Session ρ τ} (h : TxInv S db p k)
    (h1 : σ.loadedVersioned = k.session.loadedVersioned)
    (h2 : σ.loadedPlain = k.session.loadedPlain) (hs : S.Safe p' { k with session := σ }) :
    TxInv S db p' { k with session := σ } where
  safe := hs
  loaded hr := h.loaded (by rwa [h1] at hr)
  parts hr := h.parts (by rwa [h2] at hr)
  newer := h.newer
  kept := h.kept
  cover := h.cover
  valid := h.valid

/-- `session.get` on the versioned table. -/
theorem TxInv.getVersioned {key : κ} {f : Option ρ → Prog ρ κ τ ι ε α} (hdb : DbInv db)
    (h : TxInv S db (.getVersioned key f) k) :
    TxInv S db (f (k.getVersioned db key).1) (k.getVersioned db key).2 := by
  have hs := h.safe
  simp only [Spec.Safe] at hs
  unfold Work.getVersioned
  cases ho : k.session.objVersioned key with
  | some r =>
    rw [ho] at hs
    exact { h with safe := hs }
  | none =>
    rw [ho] at hs
    cases hv : (k.view db).versioned.get key with
    | some r =>
      refine { h with
        safe := hs.1 r ((k.view db).versioned.pk_of_get hv)
        loaded := fun {key' r'} hr => ?_ }
      rcases Option.or_eq_some_iff.1 hr with hr | ⟨-, hr⟩
      · exact h.loaded hr
      · split at hr
        · next hk =>
          cases hr
          rw [hk, (k.view db).versioned.pk_of_get hv]
          exact Current.of_view hv
        · cases hr
    | none =>
      refine { h with safe := hs.2 fun i r hr hfk => ?_ }
      -- a loaded row refers to this root, so the root is visible
      obtain ⟨cur, hcur, hframe⟩ := h.parts hr
      have := h.view_fk hdb hcur
      rw [Framed.fk_eq hframe, hfk] at this
      exact Table.get_eq_none.1 hv this

/-- `session.get` on the plain table. -/
theorem TxInv.getPlain {i : ι} {f : Option τ → Prog ρ κ τ ι ε α} (hdb : DbInv db)
    (h : TxInv S db (.getPlain i f) k) :
    TxInv S db (f (k.getPlain db i).1) (k.getPlain db i).2 := by
  have hs := h.safe
  simp only [Spec.Safe] at hs
  unfold Work.getPlain
  cases ho : k.session.objPlain i with
  | some r =>
    rw [ho] at hs
    exact { h with safe := hs }
  | none =>
    rw [ho] at hs
    cases hv : (k.view db).plain.get i with
    | some r =>
      refine { h with
        safe := hs.1 r ((k.view db).plain.pk_of_get hv) (h.view_valid hdb hv)
        parts := fun {i' r'} hr => ?_ }
      rcases Option.or_eq_some_iff.1 hr with hr | ⟨-, hr⟩
      · exact h.parts hr
      · split at hr
        · next hi =>
          cases hr
          rw [hi, (k.view db).plain.pk_of_get hv]
          exact ⟨r, hv, rfl⟩
        · cases hr
    | none => exact { h with safe := hs.2 }

/-- A limited query on the plain table. -/
theorem TxInv.select {q : τ → Bool} {limit : ℕ} {f : List τ → Prog ρ κ τ ι ε α} (hdb : DbInv db)
    (h : TxInv S db (.select q limit f) k) :
    TxInv S db (f (k.select db inp.scan q limit).1) (k.select db inp.scan q limit).2 := by
  obtain ⟨hnd, hlen, hrows⟩ := k.matching_spec db inp.scan q limit
  have hs := h.safe
  simp only [Spec.Safe] at hs
  refine { h with
    safe := hs _ hnd hlen fun r hr => ⟨h.view_valid hdb (hrows r hr).1, (hrows r hr).2⟩
    loaded := fun {key r} hr => h.loaded ?_
    parts := fun {i r} hr => ?_ }
  · simp only [Work.select] at hr
    rwa [Session.loadAll_eq] at hr
  · rcases Session.loadedPlain_loadAll hr with hr | ⟨hmem, rfl⟩
    · exact h.parts hr
    · exact ⟨r, (hrows r hmem).1, rfl⟩

/-- **A matched `UPDATE` overwrites what was read.** The dirty object of a flush that succeeds was
read from the row that is visible now. -/
theorem TxInv.flush_matches (h : TxInv S db p k) (hd : k.session.Disciplined)
    (hm : k.session.UpdatesMatch (k.view db)) {key : κ} {r : ρ}
    (hr : k.session.dirtyVersioned.get key = some r) :
    ∃ cur, (k.view db).versioned.get key = some cur ∧ version cur = version r ∧
      k.session.loadedVersioned key = some cur := by
  obtain ⟨r₀, hl, hv⟩ := hd.update hr
  have hm' := hm.1 key (Table.mem_of_get hr)
  rw [hr, Option.map_some] at hm'
  obtain ⟨cur, hcur, hver⟩ := Option.map_eq_some_iff.1 hm'
  obtain rfl : cur = r₀ := (h.loaded hl).eq_of_version hcur (hver.trans hv)
  exact ⟨cur, hcur, hver, hl⟩

/-- A successful flush keeps the invariant. -/
theorem TxInv.flush (h : TxInv S db p k) (hd : k.session.Disciplined) (hk : k.flush db = .ok k')
    (hs : S.Safe p' k.flushed) : TxInv S db p' k' := by
  obtain ⟨hm, hi, rfl⟩ := Work.flush_ok hk
  have hnewV : ∀ {key r}, k.session.newVersioned.get key = some r →
      db.versioned.get key = none := fun {key r} hr => by
    have := Finset.disjoint_left.1 hi.1 (Table.mem_of_get hr)
    exact Table.get_eq_none.2 fun hc => this (Finset.mem_union_left _ hc)
  have hnewP : ∀ {i r}, k.session.newPlain.get i = some r → db.plain.get i = none :=
    fun {i r} hr => by
      have := Finset.disjoint_left.1 hi.2.1 (Table.mem_of_get hr)
      exact Table.get_eq_none.2 fun hc => this (Finset.mem_union_left _ hc)
  refine ⟨hs, fun {key r} hr => ?_, fun {i r} hr => ?_, fun {key r cur} hr hcur => ?_,
    fun {i r cur} hr hcur => ?_, fun {i r} hr => ?_, fun {i r} hr => ?_⟩
  · rcases Option.or_eq_some_iff.1 hr with hr | ⟨hn, hr⟩
    · exact .inl (Table.get_overlay_of_get hr)
    · have hn' := Table.get_eq_none.1 hn
      rcases h.loaded hr with hw | ⟨hw, hc⟩
      · exact .inl ((Table.get_overlay_of_notMem hn').trans hw)
      · exact .inr ⟨by simp [Work.flushed, Db.overlay, hw, hn'], hc⟩
  · rw [Work.view_flushed]
    rcases Option.or_eq_some_iff.1 hr with hr | ⟨hn, hr⟩
    · exact ⟨r, Table.get_overlay_of_get hr, rfl⟩
    · obtain ⟨cur, hcur, hf⟩ := h.parts hr
      exact ⟨cur, (Table.get_overlay_of_notMem (Table.get_eq_none.1 hn)).trans hcur, hf⟩
  · rcases Option.or_eq_some_iff.1 hr with hr | ⟨-, hr⟩
    · rcases Session.pending_versioned hr with hnew | ⟨r₀, hdirty, rfl⟩
      · rw [hnewV hnew] at hcur; cases hcur
      · obtain ⟨v, hv, hver, -⟩ := h.flush_matches hd hm hdirty
        rw [version_bump, ← hver]
        rcases Option.or_eq_some_iff.1 hv with hw | ⟨-, hc⟩
        · exact Nat.lt_succ_of_lt (h.newer hw hcur)
        · obtain rfl : cur = v := Option.some.inj (hcur.symm.trans hc)
          exact Nat.lt_succ_self _
    · exact h.newer hr hcur
  · rcases Option.or_eq_some_iff.1 hr with hr | ⟨-, hr⟩
    · rcases Session.pending_plain hr with hr | hr
      · rw [hnewP hr] at hcur; cases hcur
      · obtain ⟨r₀, hl, hf⟩ := hd.part hr
        obtain ⟨v, hv, hfv⟩ := h.parts hl
        rw [hf, ← hfv]
        rcases Option.or_eq_some_iff.1 hv with hw | ⟨-, hc⟩
        · exact h.kept hw hcur
        · obtain rfl : cur = v := Option.some.inj (hcur.symm.trans hc)
          rfl
    · exact h.kept hr hcur
  · refine Finset.mem_union.2 ?_
    rcases Option.or_eq_some_iff.1 hr with hr | ⟨-, hr⟩
    · exact .inr (hd.cover hr)
    · exact .inl (h.cover hr)
  · rcases Option.or_eq_some_iff.1 hr with hr | ⟨-, hr⟩
    · exact hd.valid hr
    · exact h.valid hr

/-- **The invariant of a transaction is kept by its next operation.** -/
theorem TxInv.next (hdb : DbInv db) (h : TxInv S db p k)
    (hn : p.next db inp k = .continue p' k') : TxInv S db p' k' := by
  cases p with
  | ret a => simp only [Prog.next] at hn; split at hn <;> cases hn
  | raise e => cases hn
  | clock f => cases hn; exact { h with safe := h.safe inp.now }
  | uuid f => cases hn; exact { h with safe := h.safe inp.uuid }
  | getVersioned key f => cases hn; exact h.getVersioned hdb
  | getPlain i f => cases hn; exact h.getPlain hdb
  | select q limit f => cases hn; exact h.select hdb
  | assignVersioned row f =>
    cases hn
    refine h.session ?_ ?_ h.safe <;> (unfold Session.assignVersioned; split <;> rfl)
  | assignPlain row f =>
    cases hn
    refine h.session ?_ ?_ h.safe <;> (unfold Session.assignPlain; split <;> rfl)
  | addVersioned row f => cases hn; exact h.session rfl rfl h.safe
  | addPlain row f => cases hn; exact h.session rfl rfl h.safe
  | flush f =>
    obtain ⟨hd, -, h1, h2⟩ := h.safe
    simp only [Prog.next] at hn
    split at hn
    · next hk => cases hn; exact h.flush hd hk h1
    · next e _ => cases hn; exact .fresh (h2 e)
  | rollback f => cases hn; exact .fresh h.safe

/-- Another transaction's commit keeps the invariant: it writes none of the locked rows, and what it
writes is newer than anything read before. -/
theorem TxInv.other_commit {q : Prog ρ κ τ ι ε α} {S' : Spec ρ τ ε α} {o : Work ρ τ}
    (h : TxInv S db p k) (ho : TxInv S' db q o)
    (h1 : Disjoint k.writes.versioned.keys o.writes.versioned.keys)
    (h2 : Disjoint k.writes.plain.keys o.writes.plain.keys) : TxInv S (o.view db) p k := by
  have hV : ∀ {key r}, k.writes.versioned.get key = some r →
      (o.view db).versioned.get key = db.versioned.get key := fun hr =>
    Table.get_overlay_of_notMem (Finset.disjoint_left.1 h1 (Table.mem_of_get hr))
  have hP : ∀ {i r}, k.writes.plain.get i = some r →
      (o.view db).plain.get i = db.plain.get i := fun hr =>
    Table.get_overlay_of_notMem (Finset.disjoint_left.1 h2 (Table.mem_of_get hr))
  refine { h with
    loaded := fun {key r} hr => ?_
    parts := fun {i r} hr => ?_
    newer := fun hr hc => h.newer hr (by rwa [hV hr] at hc)
    kept := fun hr hc => h.kept hr (by rwa [hP hr] at hc) }
  · rcases h.loaded hr with hw | ⟨hw, cur, hc, hle, heq⟩
    · exact .inl hw
    · refine .inr ⟨hw, ?_⟩
      cases hov : o.writes.versioned.get key with
      | none => exact ⟨cur, by rwa [Work.view, Db.overlay_versioned, Table.get_overlay, hov,
          Option.none_or], hle, heq⟩
      | some r' =>
        have hlt := ho.newer hov hc
        exact ⟨r', Table.get_overlay_of_get hov, (hle.trans_lt hlt).le,
          fun he => absurd (he ▸ hle.trans_lt hlt) (lt_irrefl _)⟩
  · obtain ⟨cur, hc, hf⟩ := h.parts hr
    rcases Option.or_eq_some_iff.1 hc with hw | ⟨hn, hc⟩
    · exact ⟨cur, Table.get_overlay_of_get hw, hf⟩
    · have hn' := Table.get_eq_none.1 hn
      cases hov : o.writes.plain.get i with
      | none =>
        refine ⟨cur, (Table.get_overlay_of_notMem hn').trans ?_, hf⟩
        rwa [Work.view, Db.overlay_plain, Table.get_overlay, hov, Option.none_or]
      | some r' =>
        exact ⟨r', (Table.get_overlay_of_notMem hn').trans (Table.get_overlay_of_get hov),
          (ho.kept hov hc).trans hf⟩

/-- A commit keeps the invariant of the tables. -/
theorem TxInv.commit (h : TxInv S db p k) (hdb : DbInv db) : DbInv (k.view db) :=
  ⟨h.view_fk hdb, h.view_valid hdb⟩

/-- An operation only locks the rows it writes. -/
theorem Prog.next_keys (hn : p.next db inp k = .continue p' k') :
    k'.writes.versioned.keys ⊆ k.writes.versioned.keys ∪ (p.locks k).versioned.keys ∧
    k'.writes.plain.keys ⊆ k.writes.plain.keys ∪ (p.locks k).plain.keys := by
  cases Prog.next_kind hn with
  | keep | loadVersioned | loadPlain =>
    exact ⟨Finset.subset_union_left, Finset.subset_union_left⟩
  | flush hp => subst hp; exact ⟨subset_rfl, subset_rfl⟩
  | fail | rollback => exact ⟨Finset.empty_subset _, Finset.empty_subset _⟩

/-- The commit of a safe program publishes exactly the row versions it has flushed. -/
theorem TxInv.commit_db {a : α} {db' : Db ρ τ} (h : TxInv S db p k)
    (hn : p.next db inp k = .commit a db') : p = .ret a ∧ db' = k.view db := by
  obtain ⟨rfl, k', hk, rfl⟩ := World.returned_of_commit hn
  obtain ⟨k'', hk', hw⟩ := Work.flush_clean db h.safe.1
  cases hk.symm.trans hk'
  exact ⟨rfl, by rw [Work.view, Work.view, hw]⟩

/-- A safe program that ends without a commit has raised: the flush of its commit has nothing to
write. -/
theorem TxInv.stop {o : Outcome ε α} (h : TxInv S db p k) (hn : p.next db inp k = .stop o) :
    ∃ e, o = .raised e ∧ S.raise e k := by
  cases p with
  | raise e => cases hn; exact ⟨e, rfl, h.safe⟩
  | ret a =>
    obtain ⟨k', hk, -⟩ := Work.flush_clean db h.safe.1
    simp only [Prog.next, hk] at hn
    cases hn
  | flush f => simp only [Prog.next] at hn; split at hn <;> cases hn
  | _ => cases hn

end

/-! ## The whole system -/

namespace World

variable {S : c → Spec ρ τ ε α} {body : c → Prog ρ κ τ ι ε α} {w w' : World c ρ κ τ ι ε α}

/-- The invariant of the interleaved system. -/
structure Inv (S : c → Spec ρ τ ε α) (w : World c ρ κ τ ι ε α) : Prop where
  db : DbInv w.db
  tx : ∀ {t : ℕ} {call : c} {p : Prog ρ κ τ ι ε α} {k : Work ρ τ},
    w.txs[t]? = some (.running call p k) → TxInv (S call) w.db p k
  locks : ∀ {t t' : ℕ}, t ≠ t' →
    Disjoint (w.writesOf t).versioned.keys (w.writesOf t').versioned.keys ∧
    Disjoint (w.writesOf t).plain.keys (w.writesOf t').plain.keys

/-- The world before the first call satisfies the invariant. -/
theorem inv_init : Inv S (init : World c ρ κ τ ι ε α) where
  db := ⟨nofun, nofun⟩
  tx h := by cases h
  locks _ := ⟨Finset.disjoint_empty_left _, Finset.disjoint_empty_left _⟩

/-- A running transaction's locks are those of its state. -/
theorem writesOf_running {t : ℕ} {call : c} {p : Prog ρ κ τ ι ε α} {k : Work ρ τ}
    (h : w.txs[t]? = some (.running call p k)) : w.writesOf t = k.writes := by
  rw [writesOf, h]; rfl

/-- The locks of a transaction whose number is not in use are none. -/
theorem writesOf_of_le {t : ℕ} (h : w.txs.length ≤ t) : w.writesOf t = .empty := by
  rw [writesOf, List.getElem?_eq_none h]; rfl

/-- Locks stay apart when the transaction `t` moves to a state `x` whose locks are among its old
ones and rows that no other transaction has locked. -/
theorem Inv.locks_set (h : Inv S w) {t : ℕ} {x y : TxState c ρ κ τ ι ε α} {d db' : Db ρ τ}
    (ht : w.txs[t]? = some y) (hf : w.Free t d)
    (h1 : x.writes.versioned.keys ⊆ y.writes.versioned.keys ∪ d.versioned.keys)
    (h2 : x.writes.plain.keys ⊆ y.writes.plain.keys ∪ d.plain.keys) {t₁ t₂ : ℕ} (hne : t₁ ≠ t₂) :
    Disjoint ((⟨db', w.txs.set t x⟩ : World c ρ κ τ ι ε α).writesOf t₁).versioned.keys
      ((⟨db', w.txs.set t x⟩ : World c ρ κ τ ι ε α).writesOf t₂).versioned.keys ∧
    Disjoint ((⟨db', w.txs.set t x⟩ : World c ρ κ τ ι ε α).writesOf t₁).plain.keys
      ((⟨db', w.txs.set t x⟩ : World c ρ κ τ ι ε α).writesOf t₂).plain.keys := by
  have hself : (⟨db', w.txs.set t x⟩ : World c ρ κ τ ι ε α).writesOf t = x.writes := by
    simp [writesOf, getElem?_set_of_getElem? ht]
  have hother : ∀ {t'}, t' ≠ t →
      (⟨db', w.txs.set t x⟩ : World c ρ κ τ ι ε α).writesOf t' = w.writesOf t' := fun ht' => by
    simp [writesOf, getElem?_set_of_getElem? ht, ht']
  have hy : w.writesOf t = y.writes := by rw [writesOf, ht]; rfl
  -- the moved transaction against any other
  have key : ∀ {t'}, t' ≠ t → Disjoint x.writes.versioned.keys (w.writesOf t').versioned.keys ∧
      Disjoint x.writes.plain.keys (w.writesOf t').plain.keys := fun {t'} ht' => by
    obtain ⟨o1, o2⟩ := h.locks (Ne.symm ht')
    rw [hy] at o1 o2
    have hfree : Disjoint (w.writesOf t').versioned.keys d.versioned.keys ∧
        Disjoint (w.writesOf t').plain.keys d.plain.keys := by
      rcases lt_or_ge t' w.txs.length with hlt | hge
      · exact hf t' hlt ht'
      · rw [writesOf_of_le hge]
        exact ⟨Finset.disjoint_empty_left _, Finset.disjoint_empty_left _⟩
    exact ⟨Finset.disjoint_of_subset_left h1 (Finset.disjoint_union_left.2 ⟨o1, hfree.1.symm⟩),
      Finset.disjoint_of_subset_left h2 (Finset.disjoint_union_left.2 ⟨o2, hfree.2.symm⟩)⟩
  rcases eq_or_ne t₁ t with rfl | h1'
  · rw [hself, hother (Ne.symm hne)]
    exact key (Ne.symm hne)
  · rcases eq_or_ne t₂ t with rfl | h2'
    · rw [hself, hother h1']
      exact ⟨(key h1').1.symm, (key h1').2.symm⟩
    · rw [hother h1', hother h2']
      exact h.locks hne

/-- A transaction ends without a commit. -/
theorem Inv.finish (h : Inv S w) {t : ℕ} {call : c} {p : Prog ρ κ τ ι ε α} {k : Work ρ τ}
    {o : Outcome ε α} (ht : w.txs[t]? = some (.running call p k)) :
    Inv S ⟨w.db, w.txs.set t (.done call o)⟩ := by
  have hfree : w.Free t .empty := fun _ _ _ =>
    ⟨Finset.disjoint_empty_right _, Finset.disjoint_empty_right _⟩
  refine ⟨h.db, fun {t' call' p' k'} ht' => ?_,
    h.locks_set ht hfree (Finset.empty_subset _) (Finset.empty_subset _)⟩
  rcases getElem?_set_inv ht' with ⟨-, heq⟩ | ⟨-, ht'⟩
  · cases heq
  · exact h.tx ht'

/-- A transaction commits. -/
theorem Inv.commit (h : Inv S w) {t : ℕ} {call : c} {p : Prog ρ κ τ ι ε α} {k : Work ρ τ}
    {o : Outcome ε α} (ht : w.txs[t]? = some (.running call p k)) :
    Inv S ⟨k.view w.db, w.txs.set t (.done call o)⟩ := by
  have hfree : w.Free t .empty := fun _ _ _ =>
    ⟨Finset.disjoint_empty_right _, Finset.disjoint_empty_right _⟩
  refine ⟨(h.tx ht).commit h.db, fun {t' call' p' k'} ht' => ?_,
    h.locks_set ht hfree (Finset.empty_subset _) (Finset.empty_subset _)⟩
  rcases getElem?_set_inv ht' with ⟨-, heq⟩ | ⟨hne, ht'⟩
  · cases heq
  · obtain ⟨h1, h2⟩ := h.locks hne
    rw [writesOf_running ht', writesOf_running ht] at h1 h2
    exact (h.tx ht').other_commit (h.tx ht) h1 h2

/-- A transaction runs an operation that does not end it. -/
theorem Inv.continue (h : Inv S w) {t : ℕ} {inp : Input ι} {call : c} {p p' : Prog ρ κ τ ι ε α}
    {k k' : Work ρ τ} (ht : w.txs[t]? = some (.running call p k)) (hf : w.Free t (p.locks k))
    (hn : p.next w.db inp k = .continue p' k') :
    Inv S ⟨w.db, w.txs.set t (.running call p' k')⟩ := by
  obtain ⟨h1, h2⟩ := Prog.next_keys hn
  refine ⟨h.db, fun {t' call' q j} ht' => ?_,
    h.locks_set (x := .running call p' k') ht hf h1 h2⟩
  rcases getElem?_set_inv ht' with ⟨-, heq⟩ | ⟨-, ht'⟩
  · cases heq; exact (h.tx ht).next h.db hn
  · exact h.tx ht'

/-- A call arrives. -/
theorem Inv.begin (h : Inv S w) {call : c} (hsafe : (S call).Safe (body call) .init) :
    Inv S ⟨w.db, w.txs ++ [.running call (body call) .init]⟩ := by
  have hwrites : ∀ t, (⟨w.db, w.txs ++ [.running call (body call) .init]⟩ :
      World c ρ κ τ ι ε α).writesOf t = w.writesOf t := fun t => by
    rcases lt_trichotomy t w.txs.length with hlt | rfl | hgt
    · simp [writesOf, List.getElem?_append_left hlt]
    · simp [writesOf, TxState.writes, Work.init]
    · rw [writesOf_of_le hgt.le, writesOf_of_le (by simpa using Nat.succ_le_of_lt hgt)]
  refine ⟨h.db, fun {t call' p k} ht => ?_, fun hne => by rw [hwrites, hwrites]; exact h.locks hne⟩
  rcases getElem?_append_singleton ht with ht | ⟨-, he⟩
  · exact h.tx ht
  · cases he
    exact .fresh hsafe

/-- **The invariant is kept by every step**, for any calls whose programs are safe. -/
theorem Inv.step (hbody : ∀ call, (S call).Safe (body call) .init) {a : Action c ι}
    (h : Inv S w) (hs : w.step body a = some w') : Inv S w' := by
  cases step_kind hs with
  | begin call => exact h.begin (hbody call)
  | «continue» ht hf hn => exact h.continue ht hf hn
  | commit ht _ hn =>
    obtain ⟨-, rfl⟩ := (h.tx ht).commit_db hn
    exact h.commit ht
  | stop ht _ => exact h.finish ht
  | abort ht => exact h.finish ht

/-- What is known of the outcome of a call with the specification `S`: it returned or raised as the
specification allows, or was ended from outside. -/
inductive Answer (S : Spec ρ τ ε α) : Outcome ε α → Prop
  | returned {a : α} {k : Work ρ τ} (h : S.ret a k) : Answer S (.returned a)
  | raised {e : ε} {k : Work ρ τ} (h : S.raise e k) : Answer S (.raised e)
  | aborted : Answer S .aborted

/-- Every ended call has answered as its specification allows. -/
def Answered (S : c → Spec ρ τ ε α) (w : World c ρ κ τ ι ε α) : Prop :=
  ∀ {t : ℕ} {call : c} {o : Outcome ε α}, w.txs[t]? = some (.done call o) → Answer (S call) o

/-- **Every step keeps the answers in specification.** -/
theorem Answered.step {a : Action c ι} (h : Answered S w) (hinv : Inv S w)
    (hs : w.step body a = some w') : Answered S w' := by
  intro t call o ht
  cases step_kind hs with
  | begin call' =>
    rcases getElem?_append_singleton ht with ht | ⟨-, he⟩
    · exact h ht
    · cases he
  | «continue» ht' _ _ =>
    rcases getElem?_set_inv ht with ⟨-, heq⟩ | ⟨-, ht⟩
    · cases heq
    · exact h ht
  | commit ht' _ hn =>
    rcases getElem?_set_inv ht with ⟨-, heq⟩ | ⟨-, ht⟩
    · cases heq
      obtain ⟨rfl, -⟩ := (hinv.tx ht').commit_db hn
      exact .returned (hinv.tx ht').safe.2
    · exact h ht
  | stop ht' hn =>
    rcases getElem?_set_inv ht with ⟨-, heq⟩ | ⟨-, ht⟩
    · cases heq
      obtain ⟨e, rfl, hraise⟩ := (hinv.tx ht').stop hn
      exact .raised hraise
    · exact h ht
  | abort ht' =>
    rcases getElem?_set_inv ht with ⟨-, heq⟩ | ⟨-, ht⟩
    · cases heq; exact .aborted
    · exact h ht

end World

end EventSphere
