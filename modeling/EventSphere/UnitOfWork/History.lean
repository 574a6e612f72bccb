import EventSphere.UnitOfWork.Locked

/-!
# The life of one transaction

What a transaction can know about the other transactions of its run. A versioned row it holds was
committed at some instant of its life (`loaded_committed`), and each of its flushes that loses a
version race loses it to a different transaction, which committed an update of the row in the
meantime (`conflicts_le`). Both are inductions along the run since the call arrived (`life`).
-/

set_option linter.unusedSectionVars false

namespace EventSphere

variable {c ρ κ τ ι ε α : Type} [PrimaryKey ρ κ] [PrimaryKey τ ι] [DecidableEq κ] [DecidableEq ι]
  [DecidableEq ρ] [DecidableEq τ] [Versioned ρ] [ForeignKey τ κ] [Framed τ]

/-- The transaction that moves. -/
def Action.tx : Action c ι → Option ℕ
  | begin _ => none
  | advance t _ => some t
  | abort t => some t

namespace World

variable {S : c → Spec ρ τ ε α} {body : c → Prog ρ κ τ ι ε α} {w w' w₀ : World c ρ κ τ ι ε α}
  {a : Action c ι} {as : List (Action c ι)} {t : ℕ} {call : c}

/-- The world after the arrival of a call. -/
def begun (body : c → Prog ρ κ τ ι ε α) (w : World c ρ κ τ ι ε α) (call : c) :
    World c ρ κ τ ι ε α :=
  ⟨w.db, w.txs ++ [.running call (body call) .init]⟩

/-- The steps of transaction `t` leave the committed tables alone. -/
def Quiet (body : c → Prog ρ κ τ ι ε α) (t : ℕ) (w : World c ρ κ τ ι ε α) (a : Action c ι) : Prop :=
  a.tx = some t → ∀ w', w.step body a = some w' → w'.db = w.db

/-- A step of another transaction leaves this one as it is. -/
theorem other_step {x : TxState c ρ κ τ ι ε α} (h : w.txs[t]? = some x) (ha : a.tx ≠ some t)
    (hs : w.step body a = some w') : w'.txs[t]? = some x := by
  have hset : ∀ {t' : ℕ} {y z : TxState c ρ κ τ ι ε α}, t' ≠ t → w.txs[t']? = some y →
      (w.txs.set t' z)[t]? = some x := fun hne ht' => by
    rw [getElem?_set_of_getElem? ht', if_neg (Ne.symm hne), h]
  cases step_kind hs with
  | begin call' =>
    rw [List.getElem?_append_left (List.getElem?_eq_some_iff.1 h).1]
    exact h
  | «continue» ht' | commit ht' | stop ht' | abort ht' =>
    exact hset (fun he => ha (congrArg some he)) ht'

/-- A transaction that has ended does not move. -/
theorem done_step {o : Outcome ε α} (h : w.txs[t]? = some (.done call o))
    (hs : w.step body a = some w') : a.tx ≠ some t := by
  have hrun : ∀ {t' : ℕ} {call' : c} {p : Prog ρ κ τ ι ε α} {k : Work ρ τ},
      w.txs[t']? = some (.running call' p k) → some t' ≠ some t := fun ht' he => by
    cases he
    rw [h] at ht'
    cases ht'
  cases step_kind hs with
  | begin call' => exact nofun
  | «continue» ht' | commit ht' | stop ht' | abort ht' => exact hrun ht'

/-- A running transaction has a running past: what moved it, or who else moved. -/
theorem running_step {p : Prog ρ κ τ ι ε α} {k : Work ρ τ} (hlt : t < w.txs.length)
    (hs : w.step body a = some w') (h : w'.txs[t]? = some (.running call p k)) :
    (a.tx ≠ some t ∧ w.txs[t]? = some (.running call p k)) ∨
    ∃ inp p₀ k₀, a = .advance t inp ∧ w.txs[t]? = some (.running call p₀ k₀) ∧
      p₀.next w.db inp k₀ = .continue p k ∧ w'.db = w.db := by
  cases step_kind hs with
  | begin call' =>
    rw [List.getElem?_append_left hlt] at h
    exact .inl ⟨nofun, h⟩
  | «continue» ht' hf hn =>
    rcases getElem?_set_inv h with ⟨rfl, hx⟩ | ⟨hne, hx⟩
    · cases hx; exact .inr ⟨_, _, _, rfl, ht', hn, rfl⟩
    · exact .inl ⟨fun he => hne (Option.some.inj he).symm, hx⟩
  | commit | stop | abort =>
    rcases getElem?_set_inv h with ⟨-, hx⟩ | ⟨hne, hx⟩
    · cases hx
    · exact .inl ⟨fun he => hne (Option.some.inj he).symm, hx⟩

/-- A running transaction was running before, or its call has just arrived. -/
theorem running_or_arriving {p : Prog ρ κ τ ι ε α} {k : Work ρ τ} (hs : w.step body a = some w')
    (h : w'.txs[t]? = some (.running call p k)) :
    (∃ p₀ k₀, w.txs[t]? = some (.running call p₀ k₀)) ∨
      a.arriving = some call ∧ t = w.txs.length := by
  by_cases hlt : t < w.txs.length
  · rcases running_step hlt hs h with ⟨-, ht⟩ | ⟨-, p₀, k₀, -, ht, -⟩
    · exact .inl ⟨p, k, ht⟩
    · exact .inl ⟨p₀, k₀, ht⟩
  · cases step_kind hs with
    | begin call' =>
      rcases getElem?_append_singleton h with ht | ⟨he, hx⟩
      · exact .inl ⟨p, k, ht⟩
      · cases hx; exact .inr ⟨rfl, he⟩
    | «continue» | commit | stop | abort =>
      have := (List.getElem?_eq_some_iff.1 h).1
      rw [List.length_set] at this
      exact absurd this hlt

/-- Transactions are never forgotten. -/
theorem length_step (hs : w.step body a = some w') : w.txs.length ≤ w'.txs.length := by
  cases step_kind hs with
  | begin call' => simp
  | «continue» | commit | stop | abort => simp

/-- **Induction along the life of a transaction.** A property of a running transaction that holds
when its call arrives, is kept by its own operations and by the steps of the others, holds for as
long as it runs. -/
theorem life {P : List (Action c ι) → World c ρ κ τ ι ε α → Prog ρ κ τ ι ε α → Work ρ τ → Prop}
    (hbegin : P [] (w₀.begun body call) (body call) .init)
    (hown : ∀ {as w inp p k p' k' w'}, run (step body) (w₀.begun body call) as = some w →
      w.txs[w₀.txs.length]? = some (.running call p k) → P as w p k →
      p.next w.db inp k = .continue p' k' →
      w.step body (.advance w₀.txs.length inp) = some w' → w'.db = w.db →
      P (as ++ [.advance w₀.txs.length inp]) w' p' k')
    (hother : ∀ {as w a p k w'}, run (step body) (w₀.begun body call) as = some w →
      w.txs[w₀.txs.length]? = some (.running call p k) → P as w p k →
      a.tx ≠ some w₀.txs.length → w.step body a = some w' → P (as ++ [a]) w' p k)
    {p : Prog ρ κ τ ι ε α} {k : Work ρ τ}
    (hr : run (step body) (w₀.begun body call) as = some w)
    (ht : w.txs[w₀.txs.length]? = some (.running call p k)) : P as w p k := by
  have hlen : ∀ {as w}, run (step body) (w₀.begun body call) as = some w →
      w₀.txs.length < w.txs.length := fun hr =>
    run_inv (I := fun w => w₀.txs.length < w.txs.length)
      (fun h hs => h.trans_le (length_step hs)) hr (by simp [begun])
  induction as using List.reverseRecOn generalizing w p k with
  | nil =>
    cases hr
    rw [begun, List.getElem?_append_right le_rfl] at ht
    simp only [Nat.sub_self, List.getElem?_cons_zero, Option.some.injEq] at ht
    cases ht
    exact hbegin
  | append_singleton as a ih =>
    obtain ⟨w₁, hr₁, hs⟩ := run_concat.1 hr
    rcases running_step (hlen hr₁) hs ht with ⟨ha, ht₁⟩ | ⟨inp, p₀, k₀, rfl, ht₁, hn, hdb⟩
    · exact hother hr₁ ht₁ (ih hr₁ ht₁) ha hs
    · exact hown hr₁ ht₁ (ih hr₁ ht₁) hn hs hdb

/-- A row that a session holds after an operation is the transaction's own, or committed now, or was
held before. -/
theorem next_loaded {p p' : Prog ρ κ τ ι ε α} {k k' : Work ρ τ} {db : Db ρ τ} {inp : Input ι}
    (hn : p.next db inp k = .continue p' k') {key : κ} {r : ρ}
    (h : k'.session.loadedVersioned key = some r) :
    k'.writes.versioned.get key = some r ∨
    (key ∉ k'.writes.versioned.keys ∧ db.versioned.get key = some r) ∨
    k.session.loadedVersioned key = some r ∧
      (k'.writes.versioned.get key = k.writes.versioned.get key) := by
  cases Prog.next_kind hn with
  | keep h1 => exact .inr (.inr ⟨by rwa [h1] at h, rfl⟩)
  | loadVersioned hv =>
    rcases Option.or_eq_some_iff.1 h with h | ⟨-, h⟩
    · exact .inr (.inr ⟨h, rfl⟩)
    · split at h
      · next hk =>
        cases h
        subst hk
        rcases Option.or_eq_some_iff.1 hv with hw | ⟨hn, hdb⟩
        · exact .inl hw
        · exact .inr (.inl ⟨Table.get_eq_none.1 hn, hdb⟩)
      · cases h
  | loadPlain =>
    rw [Session.loadAll_eq] at h
    exact .inr (.inr ⟨h, rfl⟩)
  | flush =>
    rcases Option.or_eq_some_iff.1 h with h | ⟨hn, h⟩
    · exact .inl (Table.get_overlay_of_get h)
    · exact .inr (.inr ⟨h, Table.get_overlay_of_notMem (Table.get_eq_none.1 hn)⟩)
  | fail | rollback => cases h

/-- At some instant of the run `as` from `w₁` the row `r` was committed under `key`. -/
def CommittedDuring (body : c → Prog ρ κ τ ι ε α) (w₁ : World c ρ κ τ ι ε α)
    (as : List (Action c ι)) (key : κ) (r : ρ) : Prop :=
  ∃ as₁ as₂ w', as = as₁ ++ as₂ ∧ run (step body) w₁ as₁ = some w' ∧
    w'.db.versioned.get key = some r

theorem CommittedDuring.append {w₁ : World c ρ κ τ ι ε α} {key : κ} {r : ρ}
    (h : CommittedDuring body w₁ as key r) (bs : List (Action c ι)) :
    CommittedDuring body w₁ (as ++ bs) key r := by
  obtain ⟨as₁, as₂, w', rfl, hr, hget⟩ := h
  exact ⟨as₁, as₂ ++ bs, w', List.append_assoc _ _ _, hr, hget⟩

/-- **Held rows were committed.** A versioned row that a session holds is the transaction's own, or
was committed at some instant since the call arrived. -/
theorem loaded_committed {p : Prog ρ κ τ ι ε α} {k : Work ρ τ}
    (hr : run (step body) (w₀.begun body call) as = some w)
    (ht : w.txs[w₀.txs.length]? = some (.running call p k)) {key : κ} {r : ρ}
    (hl : k.session.loadedVersioned key = some r) :
    k.writes.versioned.get key = some r ∨ CommittedDuring body (w₀.begun body call) as key r := by
  refine life (P := fun as _ _ k => ∀ key r, k.session.loadedVersioned key = some r →
    k.writes.versioned.get key = some r ∨ CommittedDuring body (w₀.begun body call) as key r)
    nofun (fun hr ht ih hn _ _ key r hl => ?_) (fun _ _ ih _ _ key r hl => ?_) hr ht key r hl
  · rcases next_loaded hn hl with hw | ⟨-, hdb⟩ | ⟨hl', hw⟩
    · exact .inl hw
    · exact .inr ⟨_, _, _, rfl, hr, hdb⟩
    · rw [hw]
      exact (ih key r hl').imp_right fun h => h.append _
  · exact (ih key r hl).imp_right fun h => h.append _

/-- In the run `as` from `w₁`, transaction `t` committed an update of the row under `key`. -/
def UpdatedDuring (body : c → Prog ρ κ τ ι ε α) (w₁ : World c ρ κ τ ι ε α)
    (as : List (Action c ι)) (key : κ) (t : ℕ) : Prop :=
  ∃ as₁ inp as₂ w w', as = as₁ ++ .advance t inp :: as₂ ∧ run (step body) w₁ as₁ = some w ∧
    w.step body (.advance t inp) = some w' ∧ w'.db.versioned.get key ≠ w.db.versioned.get key

theorem UpdatedDuring.append {w₁ : World c ρ κ τ ι ε α} {key : κ}
    (h : UpdatedDuring body w₁ as key t) (bs : List (Action c ι)) :
    UpdatedDuring body w₁ (as ++ bs) key t := by
  obtain ⟨as₁, inp, as₂, w, w', rfl, hr, hs, hne⟩ := h
  exact ⟨as₁, inp, as₂ ++ bs, w, w', List.append_assoc _ _ _, hr, hs, hne⟩

/-- The flush updates no row but the one under `key`, from a transaction without row versions. -/
structure UpdatesOnly (key : κ) (k : Work ρ τ) : Prop where
  writes : k.writes = .empty
  plain : k.session.dirtyPlain = .empty
  versioned : ∀ {key' r}, k.session.dirtyVersioned.get key' = some r → key' = key

/-- A flush that loses a version race has lost the row it read. -/
theorem UpdatesOnly.lost {db : Db ρ τ} {key : κ} {k : Work ρ τ} (h : UpdatesOnly key k)
    (hd : k.session.Disciplined) (hk : k.flush db = .error .staleData) :
    ∃ r, k.session.loadedVersioned key = some r ∧ db.versioned.get key ≠ some r := by
  have hm : ¬ k.session.UpdatesMatch (k.view db) := fun hm => by
    simp only [Work.flush, if_pos hm] at hk
    split at hk <;> cases hk
  by_contra hn
  refine hm ⟨fun key' hkey' => ?_, by rw [h.plain]; exact Finset.empty_subset _⟩
  obtain ⟨d, hdirty⟩ := Table.exists_get hkey'
  obtain rfl := h.versioned hdirty
  obtain ⟨r, hl, hv⟩ := hd.update hdirty
  have hcur : db.versioned.get key' = some r := by
    by_contra hne
    exact hn ⟨r, hl, hne⟩
  rw [Work.view, h.writes, Db.overlay_empty, hcur, hdirty, Option.map_some, Option.map_some, hv]

/-- The transactions that a running transaction can blame its lost races on: distinct, ended, each
with a committed update of the row; and one more of them than races lost, once the row it holds is
outdated. -/
structure Blames (body : c → Prog ρ κ τ ι ε α) (w₁ : World c ρ κ τ ι ε α) (t : ℕ) (key : κ)
    (as : List (Action c ι)) (w : World c ρ κ τ ι ε α) (k : Work ρ τ) (ts : List ℕ) : Prop where
  nodup : ts.Nodup
  updated : ∀ t' ∈ ts, t' ≠ t ∧ UpdatedDuring body w₁ as key t'
  ended : ∀ t' ∈ ts, ∃ call o, w.txs[t']? = some (.done call o)
  conflicts : k.conflicts ≤ ts.length
  outdated : ∀ {r}, k.session.loadedVersioned key = some r → key ∉ k.writes.versioned.keys →
    w.db.versioned.get key ≠ some r → k.conflicts < ts.length

/-- A step that adds nobody to the blamed ones. -/
theorem Blames.keep {w₁ : World c ρ κ τ ι ε α} {key : κ} {k k' : Work ρ τ} {ts : List ℕ}
    (h : Blames body w₁ t key as w k ts) (hs : w.step body a = some w')
    (hc : k'.conflicts ≤ ts.length)
    (ho : ∀ {r}, k'.session.loadedVersioned key = some r → key ∉ k'.writes.versioned.keys →
      w'.db.versioned.get key ≠ some r → k'.conflicts < ts.length) :
    Blames body w₁ t key (as ++ [a]) w' k' ts where
  nodup := h.nodup
  updated t' ht' := ⟨(h.updated t' ht').1, (h.updated t' ht').2.append _⟩
  ended t' ht' := by
    obtain ⟨call', o, hdone⟩ := h.ended t' ht'
    exact ⟨call', o, other_step hdone (done_step hdone hs) hs⟩
  conflicts := hc
  outdated := ho

/-- The transaction's own operation. -/
theorem Blames.own {w₁ : World c ρ κ τ ι ε α} {key : κ} {k k' : Work ρ τ} {ts : List ℕ}
    {p p' : Prog ρ κ τ ι ε α} {inp : Input ι} (h : Blames body w₁ t key as w k ts)
    (htx : TxInv (S call) w.db p k) (honly : ∀ {k}, (S call).flush k → UpdatesOnly key k)
    (hn : p.next w.db inp k = .continue p' k') (hs : w.step body (.advance t inp) = some w')
    (hdb : w'.db = w.db) : Blames body w₁ t key (as ++ [.advance t inp]) w' k' ts := by
  -- a row that is still held was outdated before
  have hout : ∀ {r}, k'.session.loadedVersioned key = some r → key ∉ k'.writes.versioned.keys →
      w'.db.versioned.get key ≠ some r → k.conflicts < ts.length := fun hl hk hne => by
    rcases next_loaded hn hl with hw | ⟨-, hcur⟩ | ⟨hl', hw⟩
    · exact absurd (Table.mem_of_get hw) hk
    · exact absurd (hdb ▸ hcur) hne
    · refine h.outdated hl' ?_ (hdb ▸ hne)
      rw [← Table.get_eq_none, ← hw, Table.get_eq_none]
      exact hk
  cases Prog.next_kind hn with
  | keep | loadVersioned | loadPlain | flush | rollback => exact h.keep hs h.conflicts hout
  | @fail f e hp hk =>
    subst hp
    refine h.keep hs ?_ nofun
    cases e with
    | integrity => exact h.conflicts
    | staleData =>
      have hu := honly htx.safe.2.1
      obtain ⟨r, hl, hne⟩ := hu.lost htx.safe.1 hk
      refine h.outdated hl ?_ hne
      rw [hu.writes]
      exact Finset.notMem_empty _

/-- A step of another transaction. -/
theorem Blames.other {w₁ : World c ρ κ τ ι ε α} {key : κ} {k : Work ρ τ} {ts : List ℕ}
    (h : Blames body w₁ t key as w k ts) (hinv : Inv S w)
    (hr : run (step body) w₁ as = some w) (ha : a.tx ≠ some t) (hs : w.step body a = some w') :
    ∃ ts', Blames body w₁ t key (as ++ [a]) w' k ts' := by
  by_cases hrow : w'.db.versioned.get key = w.db.versioned.get key
  · exact ⟨ts, h.keep hs h.conflicts fun hl hk hne => h.outdated hl hk (hrow ▸ hne)⟩
  -- the step is a commit that changes the row: its transaction is the next one to blame
  rcases hinv.step_db hs with hdb | ⟨t', inp, call', r, k', rfl, ht', -, htxs⟩
  · exact absurd (by rw [hdb]) hrow
  have hnew : t' ∉ ts := fun hmem => by
    obtain ⟨call'', o, hdone⟩ := h.ended t' hmem
    rw [hdone] at ht'
    cases ht'
  refine ⟨t' :: ts, List.nodup_cons.2 ⟨hnew, h.nodup⟩, fun t'' ht'' => ?_, fun t'' ht'' => ?_,
    Nat.le_succ_of_le h.conflicts, fun _ _ _ => Nat.lt_succ_of_le h.conflicts⟩
  · rcases List.mem_cons.1 ht'' with rfl | ht''
    · exact ⟨fun he => ha (congrArg some he), as, inp, [], w, w', rfl, hr, hs, hrow⟩
    · exact ⟨(h.updated t'' ht'').1, (h.updated t'' ht'').2.append _⟩
  · rcases List.mem_cons.1 ht'' with rfl | ht''
    · refine ⟨call', .returned r, ?_⟩
      rw [htxs, getElem?_set_of_getElem? ht', if_pos rfl]
    · obtain ⟨call'', o, hdone⟩ := h.ended t'' ht''
      exact ⟨call'', o, other_step hdone (done_step hdone hs) hs⟩

/-- **Every lost race has a different winner.** A transaction all of whose flushes update only the
row under `key` has lost at most as many races as other transactions committed an update of the row
since its call arrived. -/
theorem conflicts_le (hbody : ∀ call, (S call).Safe (body call) .init)
    (hinv : Inv S (w₀.begun body call)) {key : κ}
    (honly : ∀ {k}, (S call).flush k → UpdatesOnly key k) {p : Prog ρ κ τ ι ε α} {k : Work ρ τ}
    (hr : run (step body) (w₀.begun body call) as = some w)
    (ht : w.txs[w₀.txs.length]? = some (.running call p k)) :
    ∃ ts, Blames body (w₀.begun body call) w₀.txs.length key as w k ts := by
  have hinv' : ∀ {as w}, run (step body) (w₀.begun body call) as = some w → Inv S w := fun hr =>
    run_inv (fun h hs => Inv.step hbody h hs) hr hinv
  refine life (P := fun as w _ k =>
    ∃ ts, Blames body (w₀.begun body call) w₀.txs.length key as w k ts)
    ⟨[], .nil, nofun, nofun, le_rfl, nofun⟩ ?_ ?_ hr ht
  · intro as w inp p k p' k' w' hr ht ⟨ts, h⟩ hn hs hdb
    exact ⟨ts, h.own ((hinv' hr).tx ht) honly hn hs hdb⟩
  · intro as w a p k w' hr ht ⟨ts, h⟩ ha hs
    exact h.other (hinv' hr) hr ha hs

/-! ## How a transaction ends -/

/-- A transaction keeps its call. -/
theorem call_step {x' : TxState c ρ κ τ ι ε α} (hlt : t < w.txs.length)
    (hs : w.step body a = some w') (h : w'.txs[t]? = some x') :
    ∃ x, w.txs[t]? = some x ∧ x.call = x'.call := by
  have hset : ∀ {t' : ℕ} {y z : TxState c ρ κ τ ι ε α}, w.txs[t']? = some y →
      (w.txs.set t' z)[t]? = some x' → z.call = y.call →
      ∃ x, w.txs[t]? = some x ∧ x.call = x'.call := fun ht' hx hz => by
    rcases getElem?_set_inv hx with ⟨rfl, rfl⟩ | ⟨-, hx⟩
    · exact ⟨_, ht', hz.symm⟩
    · exact ⟨x', hx, rfl⟩
  cases step_kind hs with
  | begin call' =>
    rw [List.getElem?_append_left hlt] at h
    exact ⟨x', h, rfl⟩
  | «continue» ht' | commit ht' | stop ht' | abort ht' => exact hset ht' h rfl

/-- A transaction stays in the list, with its call. -/
theorem tx_step {x : TxState c ρ κ τ ι ε α} (hs : w.step body a = some w')
    (h : w.txs[t]? = some x) : ∃ x', w'.txs[t]? = some x' ∧ x'.call = x.call := by
  have hlt := (List.getElem?_eq_some_iff.1 h).1
  have hlt' := Nat.lt_of_lt_of_le hlt (length_step hs)
  obtain ⟨x₀, hx₀, hcall⟩ := call_step hlt hs (List.getElem?_eq_getElem hlt')
  cases h.symm.trans hx₀
  exact ⟨_, List.getElem?_eq_getElem hlt', hcall.symm⟩

/-- The ways in which transaction `t` ends with the step `a`. -/
inductive EndKind (w : World c ρ κ τ ι ε α) (a : Action c ι) (w' : World c ρ κ τ ι ε α) (t : ℕ)
    (p : Prog ρ κ τ ι ε α) (k : Work ρ τ) : Outcome ε α → Prop
  | commit {inp : Input ι} {r : α} (ha : a = .advance t inp)
      (hn : p.next w.db inp k = .commit r w'.db) : EndKind w a w' t p k (.returned r)
  | stop {inp : Input ι} {o : Outcome ε α} (ha : a = .advance t inp)
      (hn : p.next w.db inp k = .stop o) (hdb : w'.db = w.db) : EndKind w a w' t p k o
  | abort (ha : a = .abort t) (hdb : w'.db = w.db) : EndKind w a w' t p k .aborted

/-- An ended transaction has ended before, or ends now. -/
theorem ended_step {o : Outcome ε α} (hlt : t < w.txs.length) (hs : w.step body a = some w')
    (h : w'.txs[t]? = some (.done call o)) :
    w.txs[t]? = some (.done call o) ∨
    ∃ p k, w.txs[t]? = some (.running call p k) ∧ EndKind w a w' t p k o := by
  cases step_kind hs with
  | begin call' =>
    rw [List.getElem?_append_left hlt] at h
    exact .inl h
  | «continue» =>
    rcases getElem?_set_inv h with ⟨-, hx⟩ | ⟨-, hx⟩
    · cases hx
    · exact .inl hx
  | commit ht' hf hn =>
    rcases getElem?_set_inv h with ⟨rfl, hx⟩ | ⟨-, hx⟩
    · cases hx; exact .inr ⟨_, _, ht', .commit rfl hn⟩
    · exact .inl hx
  | stop ht' hn =>
    rcases getElem?_set_inv h with ⟨rfl, hx⟩ | ⟨-, hx⟩
    · cases hx; exact .inr ⟨_, _, ht', .stop rfl hn rfl⟩
    · exact .inl hx
  | abort ht' =>
    rcases getElem?_set_inv h with ⟨rfl, hx⟩ | ⟨-, hx⟩
    · cases hx; exact .inr ⟨_, _, ht', .abort rfl rfl⟩
    · exact .inl hx

/-- Since its arrival a transaction has its place in the list and its call. -/
theorem run_begun (hr : run (step body) (w₀.begun body call) as = some w) :
    ∃ x, w.txs[w₀.txs.length]? = some x ∧ x.call = call := by
  induction as using List.reverseRecOn generalizing w with
  | nil => cases hr; exact ⟨.running call (body call) .init, by simp [begun], rfl⟩
  | append_singleton as a ih =>
    obtain ⟨w₁, hr₁, hs⟩ := run_concat.1 hr
    obtain ⟨x, hx, hcall⟩ := ih hr₁
    have hlt := (List.getElem?_eq_some_iff.1 hx).1
    obtain ⟨x', hx'⟩ : ∃ x', w.txs[w₀.txs.length]? = some x' :=
      ⟨_, List.getElem?_eq_getElem (hlt.trans_le (length_step hs))⟩
    obtain ⟨y, hy, hcall'⟩ := call_step hlt hs hx'
    cases hx.symm.trans hy
    exact ⟨x', hx', hcall'.symm.trans hcall⟩

/-- A running transaction has left the committed tables alone. -/
theorem quiet_of_running {p : Prog ρ κ τ ι ε α} {k : Work ρ τ}
    (hr : run (step body) (w₀.begun body call) as = some w)
    (ht : w.txs[w₀.txs.length]? = some (.running call p k)) :
    Along (step body) (Quiet body w₀.txs.length) (w₀.begun body call) as := by
  refine life (P := fun as _ _ _ =>
    Along (step body) (Quiet body w₀.txs.length) (w₀.begun body call) as) trivial ?_ ?_ hr ht
  · intro as w inp p k p' k' w' hr ht ih hn hs hdb
    refine along_concat ih hr fun _ w'' hs'' => ?_
    cases hs.symm.trans hs''
    exact hdb
  · intro as w a p k w' hr ht ih ha hs
    exact along_concat ih hr fun he => absurd he ha

/-- An ended transaction leaves everything alone. -/
theorem quiet_of_done {o : Outcome ε α} (ht : w.txs[t]? = some (.done call o)) :
    Along (step body) (Quiet body t) w as := by
  induction as generalizing w with
  | nil => trivial
  | cons a as ih =>
    exact ⟨fun he _ hs => absurd he (done_step ht hs),
      fun w' hs => ih (other_step ht (done_step ht hs) hs)⟩

/-- **The life of a transaction up to its end**: a run in which it leaves the committed tables
alone, and the step that ends it. -/
theorem ended {o : Outcome ε α} (hr : run (step body) (w₀.begun body call) as = some w)
    (ht : w.txs[w₀.txs.length]? = some (.done call o)) :
    ∃ as₁ a as₂ w₁ w₂ p k, as = as₁ ++ a :: as₂ ∧
      run (step body) (w₀.begun body call) as₁ = some w₁ ∧
      w₁.txs[w₀.txs.length]? = some (.running call p k) ∧ w₁.step body a = some w₂ ∧
      EndKind w₁ a w₂ w₀.txs.length p k o ∧ w₂.txs[w₀.txs.length]? = some (.done call o) := by
  induction as using List.reverseRecOn generalizing w with
  | nil => cases hr; simp [begun] at ht
  | append_singleton as a ih =>
    obtain ⟨w', hr', hs⟩ := run_concat.1 hr
    obtain ⟨x, hx, -⟩ := run_begun hr'
    rcases ended_step (List.getElem?_eq_some_iff.1 hx).1 hs ht with hdone | ⟨p, k, hrun, hend⟩
    · obtain ⟨as₁, b, as₂, w₁, w₂, p, k, rfl, h⟩ := ih hr' hdone
      exact ⟨as₁, b, as₂ ++ [a], w₁, w₂, p, k, by simp, h⟩
    · exact ⟨as, a, [], w', w, p, k, rfl, hr', hrun, hs, hend, ht⟩

end World

end EventSphere
