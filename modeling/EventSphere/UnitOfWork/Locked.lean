import EventSphere.UnitOfWork.Coherence

/-!
# Relations under row locks

A transaction's row versions replace committed rows that nobody else can touch until it ends. So a
relation `L db W` between the versions `W` and the committed rows they replace, once a flush has
established it, holds until the commit (`World.Holds.step`), and the commit turns it into a fact
about the new committed tables. `LockedRel` names the relations this works for: those that only look
at the locked rows.

In isolation the same relations hold, and every object is moreover up to date (`Work.Fresh`,
`Prog.exec_spec`). `Prog.atomically_run` says that isolated execution is one of the interleavings.
-/

set_option linter.unusedSectionVars false

namespace EventSphere

variable {c ρ κ τ ι ε α : Type} [PrimaryKey ρ κ] [PrimaryKey τ ι] [DecidableEq κ] [DecidableEq ι]
  [DecidableEq ρ] [DecidableEq τ] [Versioned ρ] [ForeignKey τ κ] [Framed τ]

/-- Two databases agree on the rows that `W` has a version of. -/
def Db.Agree (db db' W : Db ρ τ) : Prop :=
  (∀ k ∈ W.versioned.keys, db.versioned.get k = db'.versioned.get k) ∧
  ∀ i ∈ W.plain.keys, db.plain.get i = db'.plain.get i

/-- A relation between row versions and the committed rows they replace. -/
structure LockedRel (L : c → Db ρ τ → Db ρ τ → Prop) : Prop where
  empty : ∀ {call db}, L call db .empty
  agree : ∀ {call db db' W}, Db.Agree db db' W → L call db W → L call db' W

/-- An operation leaves the row versions alone, drops them, or is a flush that succeeds. -/
theorem Prog.next_writes {db : Db ρ τ} {inp : Input ι} {p p' : Prog ρ κ τ ι ε α} {k k' : Work ρ τ}
    (hn : p.next db inp k = .continue p' k') :
    k'.writes = k.writes ∨ k'.writes = .empty ∨
      (∃ f, p = .flush f) ∧ k.session.UpdatesMatch (k.view db) ∧
        k.session.InsertsFit (k.view db) ∧ k' = k.flushed := by
  cases Prog.next_kind hn with
  | keep | loadVersioned | loadPlain => exact .inl rfl
  | flush hp h1 h2 => exact .inr (.inr ⟨⟨_, hp⟩, h1, h2, rfl⟩)
  | fail | rollback => exact .inr (.inl rfl)

/-- An operation that makes no accepted flush leaves the row versions alone or drops them. -/
theorem Prog.next_seen {db : Db ρ τ} {inp : Input ι} {p p' : Prog ρ κ τ ι ε α} {k k' : Work ρ τ}
    (hn : p.next db inp k = .continue p' k') :
    p.seen db k = [] ∧ (k'.writes = k.writes ∨ k'.writes = .empty) ∨
      p.seen db k = [k.flushed.view db] ∧ (∃ f, p = .flush f) ∧
        k.session.UpdatesMatch (k.view db) ∧ k.session.InsertsFit (k.view db) ∧ k' = k.flushed := by
  cases hp : p with
  | ret a => subst hp; simp only [Prog.next] at hn; split at hn <;> cases hn
  | flush f =>
    subst hp
    simp only [Prog.next] at hn
    cases hk : k.flush db with
    | ok k₁ =>
      obtain ⟨h1, h2, rfl⟩ := Work.flush_ok hk
      rw [hk] at hn
      cases hn
      exact .inr ⟨by rw [Prog.seen, hk], ⟨f, rfl⟩, h1, h2, rfl⟩
    | error e =>
      rw [hk] at hn
      cases hn
      exact .inl ⟨by rw [Prog.seen, hk], .inr rfl⟩
  | _ =>
    subst hp
    rcases Prog.next_writes hn with hw | hw | ⟨⟨f, hf⟩, -⟩
    · exact .inl ⟨rfl, .inl hw⟩
    · exact .inl ⟨rfl, .inr hw⟩
    · cases hf

/-! ## Interleaved -/

namespace World

variable {S : c → Spec ρ τ ε α} {body : c → Prog ρ κ τ ι ε α} {w w' : World c ρ κ τ ι ε α}
  {L : c → Db ρ τ → Db ρ τ → Prop}

/-- The relation holds of every running transaction. -/
def Holds (L : c → Db ρ τ → Db ρ τ → Prop) (w : World c ρ κ τ ι ε α) : Prop :=
  ∀ {t : ℕ} {call : c} {p : Prog ρ κ τ ι ε α} {k : Work ρ τ},
    w.txs[t]? = some (.running call p k) → L call w.db k.writes

/-- Transaction `t`, about to flush, gets past its checks in the world `w`. -/
structure Flushing (w : World c ρ κ τ ι ε α) (t : ℕ) (call : c) (k : Work ρ τ) : Prop where
  running : ∃ f, w.txs[t]? = some (.running call (.flush f) k)
  updates : k.session.UpdatesMatch (k.view w.db)
  inserts : k.session.InsertsFit (k.view w.db)

/-- A step changes the committed tables only by the commit of a transaction, to what it saw. -/
theorem Inv.step_db (h : Inv S w) {a : Action c ι} (hs : w.step body a = some w') :
    w'.db = w.db ∨ ∃ t inp call r k, a = .advance t inp ∧
      w.txs[t]? = some (.running call (.ret r) k) ∧ w'.db = k.view w.db ∧
      w'.txs = w.txs.set t (.done call (.returned r)) := by
  cases step_kind hs with
  | begin | «continue» | stop | abort => exact .inl rfl
  | commit ht _ hn =>
    obtain ⟨rfl, rfl⟩ := (h.tx ht).commit_db hn
    exact .inr ⟨_, _, _, _, _, rfl, ht, rfl, rfl⟩

/-- A stored plain row stays stored, with its immutable columns. -/
theorem Inv.step_plain (h : Inv S w) {a : Action c ι} (hs : w.step body a = some w') {i : ι} {r : τ}
    (hr : w.db.plain.get i = some r) :
    ∃ r', w'.db.plain.get i = some r' ∧ frame r' = frame r := by
  rcases h.step_db hs with hdb | ⟨t, inp, call, a, k, -, ht, hdb, -⟩
  · exact ⟨r, hdb ▸ hr, rfl⟩
  · rw [hdb]
    cases hw : k.writes.plain.get i with
    | none => exact ⟨r, (Table.get_overlay_of_notMem (Table.get_eq_none.1 hw)).trans hr, rfl⟩
    | some r' => exact ⟨r', Table.get_overlay_of_get hw, (h.tx ht).kept hw hr⟩

/-- **A relation under row locks is kept by every step**, if the flush the step may contain
establishes it. -/
theorem Holds.step (hL : LockedRel L) (hinv : Inv S w) (h : w.Holds L) {a : Action c ι}
    (hs : w.step body a = some w')
    (hflush : ∀ {t inp call k}, a = .advance t inp → w.Flushing t call k →
      L call w.db k.writes → L call w.db k.flushed.writes) : w'.Holds L := by
  intro t' call' p' k' ht'
  cases step_kind hs with
  | begin call =>
    rcases getElem?_append_singleton ht' with ht' | ⟨-, he⟩
    · exact h ht'
    · cases he
      exact hL.empty
  | «continue» ht hf hn =>
    rcases getElem?_set_inv ht' with ⟨-, heq⟩ | ⟨-, ht'⟩
    · cases heq
      rcases Prog.next_writes hn with hw | hw | ⟨⟨f, rfl⟩, h1, h2, rfl⟩
      · rw [hw]; exact h ht
      · rw [hw]; exact hL.empty
      · exact hflush rfl ⟨⟨f, ht⟩, h1, h2⟩ (h ht)
    · exact h ht'
  | commit ht hf hn =>
    rcases getElem?_set_inv ht' with ⟨-, heq⟩ | ⟨hne, hold⟩
    · cases heq
    · obtain ⟨-, rfl⟩ := (hinv.tx ht).commit_db hn
      obtain ⟨h1, h2⟩ := hinv.locks hne
      rw [writesOf_running hold, writesOf_running ht] at h1 h2
      refine hL.agree ⟨fun key hk => ?_, fun i hi => ?_⟩ (h hold)
      · exact (Table.get_overlay_of_notMem (Finset.disjoint_left.1 h1 hk)).symm
      · exact (Table.get_overlay_of_notMem (Finset.disjoint_left.1 h2 hi)).symm
  | stop ht hn =>
    rcases getElem?_set_inv ht' with ⟨-, heq⟩ | ⟨-, ht'⟩
    · cases heq
    · exact h ht'
  | abort ht =>
    rcases getElem?_set_inv ht' with ⟨-, heq⟩ | ⟨-, ht'⟩
    · cases heq
    · exact h ht'

/-- Every transaction, running or ended, runs a call with the property `P`. -/
def Calls (P : c → Prop) (w : World c ρ κ τ ι ε α) : Prop :=
  ∀ {t : ℕ} {x : TxState c ρ κ τ ι ε α}, w.txs[t]? = some x → P x.call

/-- Only an arriving call brings a new one. -/
theorem Calls.step {P : c → Prop} (h : w.Calls P) {a : Action c ι} (hs : w.step body a = some w')
    (hbegin : ∀ call ∈ a.arriving, P call) : w'.Calls P := by
  intro t x ht
  have hset : ∀ {t' : ℕ} {y z : TxState c ρ κ τ ι ε α}, w.txs[t']? = some y →
      (w.txs.set t' z)[t]? = some x → z.call = y.call → P x.call := fun ht' hx hz => by
    rcases getElem?_set_inv hx with ⟨-, heq⟩ | ⟨-, hx⟩
    · cases heq; rw [hz]; exact h ht'
    · exact h hx
  cases step_kind hs with
  | begin call =>
    rcases getElem?_append_singleton ht with ht | ⟨-, rfl⟩
    · exact h ht
    · exact hbegin _ rfl
  | «continue» ht' | commit ht' | stop ht' | abort ht' => exact hset ht' ht rfl

end World

/-! ## In isolation -/

/-- Every object of the session shows the visible row. -/
structure Work.Fresh (db : Db ρ τ) (k : Work ρ τ) : Prop where
  versioned : ∀ {key r}, k.session.loadedVersioned key = some r →
    (k.view db).versioned.get key = some r
  plain : ∀ {i r}, k.session.loadedPlain i = some r → (k.view db).plain.get i = some r

section
variable {S : Spec ρ τ ε α} {db : Db ρ τ} {p p' : Prog ρ κ τ ι ε α} {k k' : Work ρ τ}
  {inp : Input ι}

/-- With nobody else around, every object stays up to date. -/
theorem Work.Fresh.next (h : k.Fresh db) (hn : p.next db inp k = .continue p' k') :
    k'.Fresh db := by
  cases Prog.next_kind hn with
  | keep h1 h2 =>
    exact ⟨fun hr => h.versioned (by rwa [h1] at hr), fun hr => h.plain (by rwa [h2] at hr)⟩
  | loadVersioned hv =>
    refine ⟨fun {key' r'} hr => ?_, h.plain⟩
    rcases Option.or_eq_some_iff.1 hr with hr | ⟨-, hr⟩
    · exact h.versioned hr
    · split at hr
      · next hk => cases hr; rw [hk]; exact hv
      · cases hr
  | loadPlain hv =>
    refine ⟨fun {key r} hr => h.versioned ?_, fun {i r} hr => ?_⟩
    · rwa [Session.loadAll_eq] at hr
    · rcases Session.loadedPlain_loadAll hr with hr | ⟨hmem, rfl⟩
      · exact h.plain hr
      · exact hv r hmem
  | flush =>
    refine ⟨fun {key r} hr => ?_, fun {i r} hr => ?_⟩ <;> rw [Work.view_flushed]
    · rcases Option.or_eq_some_iff.1 hr with hr | ⟨hn, hr⟩
      · exact Table.get_overlay_of_get hr
      · exact (Table.get_overlay_of_notMem (Table.get_eq_none.1 hn)).trans (h.versioned hr)
    · rcases Option.or_eq_some_iff.1 hr with hr | ⟨hn, hr⟩
      · exact Table.get_overlay_of_get hr
      · exact (Table.get_overlay_of_notMem (Table.get_eq_none.1 hn)).trans (h.plain hr)
  | fail | rollback => exact ⟨nofun, nofun⟩

/-- Induction along the operations of an execution. -/
theorem Prog.next_induction (db : Db ρ τ) (inp : Input ι)
    {P : Prog ρ κ τ ι ε α → Work ρ τ → Prop}
    (h : ∀ p k, (∀ p' k', p.next db inp k = .continue p' k' → P p' k') → P p k)
    (p : Prog ρ κ τ ι ε α) (k : Work ρ τ) : P p k := by
  induction p generalizing k with
  | ret a | raise e =>
    refine h _ _ fun p' k' hn => ?_
    simp only [Prog.next] at hn
    first | cases hn | (split at hn <;> cases hn)
  | flush f ih =>
    refine h _ _ fun p' k' hn => ?_
    simp only [Prog.next] at hn
    split at hn <;> cases hn <;> exact ih _ _
  | clock f ih | uuid f ih | getVersioned key f ih | getPlain i f ih | select q limit f ih =>
    refine h _ _ fun p' k' hn => ?_
    cases hn
    exact ih _ _
  | assignVersioned row f ih | assignPlain row f ih | addVersioned row f ih | addPlain row f ih
  | rollback f ih =>
    refine h _ _ fun p' k' hn => ?_
    cases hn
    exact ih _

variable (inp) in
/-- **Isolated execution.** A safe program either leaves the tables as they were and returns
nothing, or it commits row versions that are coherent, up to date, and related to the committed rows
by every relation its flushes establish. -/
theorem Prog.exec_spec {L : Db ρ τ → Db ρ τ → Prop} (hdb : DbInv db) (h0 : L db .empty)
    (hflush : ∀ {k : Work ρ τ} {f : Option FlushError → Prog ρ κ τ ι ε α},
      TxInv S db (.flush f) k → k.Fresh db → k.session.UpdatesMatch (k.view db) →
      k.session.InsertsFit (k.view db) → L db k.writes → L db k.flushed.writes)
    (h : TxInv S db p k) (hf : k.Fresh db) (hL : L db k.writes) :
    (∃ o, p.exec db inp k = (o, db) ∧ ∀ a, o ≠ .returned a) ∨
    ∃ a k', p.exec db inp k = (.returned a, k'.view db) ∧ TxInv S db (.ret a) k' ∧
      k'.Fresh db ∧ L db k'.writes := by
  induction p, k using Prog.next_induction db inp with
  | h p k ih =>
    rw [Prog.exec_next]
    cases hn : p.next db inp k with
    | «continue» p' k' =>
      refine ih p' k' hn (h.next hdb hn) (hf.next hn) ?_
      rcases Prog.next_writes hn with hw | hw | ⟨⟨f, rfl⟩, h1, h2, rfl⟩
      · rwa [hw]
      · rwa [hw]
      · exact hflush h hf h1 h2 hL
    | commit a db' =>
      obtain ⟨rfl, rfl⟩ := h.commit_db hn
      exact .inr ⟨a, k, rfl, h, hf, hL⟩
    | stop o =>
      refine .inl ⟨o, rfl, ?_⟩
      rintro a rfl
      rcases Prog.next_stop hn with ⟨e, -, he⟩ | ⟨e, he⟩ <;> cases he

variable (inp) in
/-- **The flushes of isolated execution.** What holds of a number of flushes and of the row versions
that they have made, at first and after each accepted flush, holds of the row versions of every
flush and of those that are committed, and of the number of all flushes. -/
theorem Prog.flushes_spec {L : ℕ → Db ρ τ → Prop} {n : ℕ} (hdb : DbInv db) (h0 : ∀ n, L n .empty)
    (hmono : ∀ {n m W}, n ≤ m → L n W → L m W)
    (hflush : ∀ {n : ℕ} {k : Work ρ τ} {f : Option FlushError → Prog ρ κ τ ι ε α},
      TxInv S db (.flush f) k → k.Fresh db → k.session.UpdatesMatch (k.view db) →
      k.session.InsertsFit (k.view db) → L n k.writes → L (n + 1) k.flushed.writes)
    (h : TxInv S db p k) (hf : k.Fresh db) (hL : L n k.writes) :
    ∀ V, V ∈ p.flushes db inp k ∨ V = (p.exec db inp k).2 →
      ∃ W, V = db.overlay W ∧ L (n + (p.flushes db inp k).length) W := by
  induction p, k using Prog.next_induction db inp generalizing n with
  | h p k ih =>
    rw [Prog.flushes_next, Prog.exec_next]
    cases hn : p.next db inp k with
    | «continue» p' k' =>
      have hrest : ∀ m, L m k'.writes → ∀ V, V ∈ p'.flushes db inp k' ∨ V = (p'.exec db inp k').2 →
          ∃ W, V = db.overlay W ∧ L (m + (p'.flushes db inp k').length) W :=
        fun m => ih p' k' hn (h.next hdb hn) (hf.next hn)
      dsimp only
      rcases Prog.next_seen hn with ⟨hs, hw⟩ | ⟨hs, ⟨f, rfl⟩, h1, h2, rfl⟩
      · rw [hs, List.nil_append]
        refine hrest n ?_
        rcases hw with hw | hw
        · rwa [hw]
        · rw [hw]; exact h0 n
      · have hL' : L (n + 1) k.flushed.writes := hflush h hf h1 h2 hL
        rw [hs, List.singleton_append, List.length_cons, Nat.add_comm (List.length _),
          ← Nat.add_assoc]
        rintro V (hV | hV)
        · rcases List.mem_cons.1 hV with rfl | hV
          · exact ⟨_, rfl, hmono (Nat.le_add_right ..) hL'⟩
          · exact hrest _ hL' V (.inl hV)
        · exact hrest _ hL' V (.inr hV)
    | commit a db' =>
      obtain ⟨rfl, rfl⟩ := h.commit_db hn
      obtain ⟨k', hk, hw⟩ := Work.flush_clean db h.safe.1
      have hview : k'.view db = k.view db := by rw [Work.view, hw, Work.view]
      simp only [Prog.seen, hk, hview, List.append_nil, List.mem_singleton, or_self]
      rintro V rfl
      exact ⟨k.writes, rfl, hmono (Nat.le_add_right ..) hL⟩
    | stop o =>
      have hseen : p.seen db k = [] := by
        cases p with
        | raise e => rfl
        | flush f => simp only [Prog.next] at hn; split at hn <;> cases hn
        | ret a =>
          obtain ⟨k', hk, -⟩ := Work.flush_clean db h.safe.1
          simp only [Prog.next, hk] at hn
          cases hn
        | _ => cases hn
      rw [hseen, List.append_nil]
      rintro V (hV | hV)
      · cases hV
      · exact ⟨.empty, hV.trans (Db.overlay_empty db).symm, h0 _⟩

/-- A program that returns leaves the tables of one of its flushes. -/
theorem Prog.exec_mem_flushes {a : α} (h : (p.exec db inp k).1 = .returned a) :
    (p.exec db inp k).2 ∈ p.flushes db inp k := by
  induction p, k using Prog.next_induction db inp with
  | h p k ih =>
    rw [Prog.exec_next] at h ⊢
    rw [Prog.flushes_next]
    cases hn : p.next db inp k with
    | «continue» p' k' =>
      rw [hn] at h
      exact List.mem_append_right _ (ih p' k' hn h)
    | commit b db' =>
      obtain ⟨rfl, k', hk, rfl⟩ := World.returned_of_commit hn
      simp [Prog.seen, hk]
    | stop o =>
      rw [hn] at h
      rcases Prog.next_stop hn with ⟨e, -, rfl⟩ | ⟨e, rfl⟩ <;> cases h

end

/-- **Isolated execution is an interleaving.** In a world where no transaction holds a lock, a call
that runs alone from its arrival to its end leaves what `Prog.atomically` computes. -/
theorem Prog.atomically_run {body : c → Prog ρ κ τ ι ε α} {w : World c ρ κ τ ι ε α}
    (hq : ∀ t, w.writesOf t = .empty) (call : c) (inp : Input ι) :
    ∃ n, run (World.step body) w (.begin call :: List.replicate n (.advance w.txs.length inp)) =
      some ⟨((body call).atomically w.db inp).2,
        w.txs ++ [.done call ((body call).atomically w.db inp).1]⟩ := by
  -- the run of the operations that are left
  suffices ∀ p k, ∃ n, run (World.step body) ⟨w.db, w.txs ++ [.running call p k]⟩
      (List.replicate n (.advance w.txs.length inp)) =
      some ⟨(p.exec w.db inp k).2, w.txs ++ [.done call (p.exec w.db inp k).1]⟩ from
    (this (body call) .init).imp fun n hn => run_cons.2 ⟨_, rfl, hn⟩
  intro p k
  induction p, k using Prog.next_induction w.db inp with
  | h p k ih =>
    have hfree : World.Free ⟨w.db, w.txs ++ [.running call p k]⟩ w.txs.length (p.locks k) := by
      intro t ht hne
      have hlt : t < w.txs.length := by
        simp only [List.length_append, List.length_singleton] at ht
        omega
      have := hq t
      rw [World.writesOf] at this ⊢
      rw [List.getElem?_append_left hlt, this]
      exact ⟨Finset.disjoint_empty_left _, Finset.disjoint_empty_left _⟩
    rw [Prog.exec_next]
    cases hn : p.next w.db inp k with
    | «continue» p' k' =>
      obtain ⟨n, hrun⟩ := ih p' k' hn
      refine ⟨n + 1, run_cons.2 ⟨_, ?_, hrun⟩⟩
      simp [World.step, hfree, hn, World.put]
    | commit a db' => exact ⟨1, by simp [run, World.step, hfree, hn, World.put]⟩
    | stop o => exact ⟨1, by simp [run, World.step, hfree, hn, World.put]⟩

end EventSphere
