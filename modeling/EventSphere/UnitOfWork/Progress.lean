import EventSphere.UnitOfWork.History
import Mathlib.Algebra.BigOperators.Group.Finset.Piecewise

/-!
# Waiting and ending

A flush waits for the rows that another transaction has written and not yet committed. A transaction
that only reads after its flush (`Prog.WritesLast`) holds rows only while it waits for none, so rows
that somebody waits for and that are not given up belong to a transaction of another kind
(`World.progress`): without two of these there is no deadlock. `Prog.EndsIn` bounds the operations
of a program, whatever they answer; each step of a transaction uses one of them up
(`World.work_le`), so work without new calls comes to an end.
-/

set_option linter.unusedSectionVars false

namespace EventSphere

variable {c ρ κ τ ι ε α β : Type} [PrimaryKey ρ κ] [PrimaryKey τ ι] [DecidableEq κ] [DecidableEq ι]
  [DecidableEq ρ] [DecidableEq τ] [Versioned ρ] [ForeignKey τ κ] [Framed τ]

namespace Prog

/-! ## Programs that hold rows only to commit them -/

/-- The program only reads. -/
def ReadsOnly : Prog ρ κ τ ι ε α → Prop
  | .ret _ | .raise _ => True
  | .clock k => ∀ t, (k t).ReadsOnly
  | .uuid k => ∀ i, (k i).ReadsOnly
  | .getVersioned _ k => ∀ r, (k r).ReadsOnly
  | .getPlain _ k => ∀ r, (k r).ReadsOnly
  | .select _ _ k => ∀ rs, (k rs).ReadsOnly
  | .assignVersioned .. | .assignPlain .. | .addVersioned .. | .addPlain .. | .flush _
  | .rollback _ => False

/-- After a flush that is accepted the program only reads. -/
def WritesLast : Prog ρ κ τ ι ε α → Prop
  | .ret _ | .raise _ => True
  | .clock k => ∀ t, (k t).WritesLast
  | .uuid k => ∀ i, (k i).WritesLast
  | .getVersioned _ k => ∀ r, (k r).WritesLast
  | .getPlain _ k => ∀ r, (k r).WritesLast
  | .select _ _ k => ∀ rs, (k rs).WritesLast
  | .assignVersioned _ k | .assignPlain _ k | .addVersioned _ k | .addPlain _ k | .rollback k =>
    k.WritesLast
  | .flush k => (k none).ReadsOnly ∧ ∀ e, (k (some e)).WritesLast

/-- What follows a program that only reads may only read. -/
theorem ReadsOnly.bind {p : Prog ρ κ τ ι ε α} {f : α → Prog ρ κ τ ι ε β} (h : p.ReadsOnly)
    (hf : ∀ a, (f a).ReadsOnly) : (p >>= f).ReadsOnly := by
  induction p with
  | ret a => exact hf a
  | raise e => trivial
  | clock k ih | uuid k ih | getVersioned key k ih | getPlain key k ih | select q n k ih =>
    exact fun x => ih x (h x)
  | assignVersioned | assignPlain | addVersioned | addPlain | flush | rollback => exact h.elim

/-- A program that writes last may be followed by one that only reads. -/
theorem WritesLast.bind {p : Prog ρ κ τ ι ε α} {f : α → Prog ρ κ τ ι ε β} (h : p.WritesLast)
    (hf : ∀ a, (f a).ReadsOnly ∧ (f a).WritesLast) : (p >>= f).WritesLast := by
  induction p with
  | ret a => exact (hf a).2
  | raise e => trivial
  | clock k ih | uuid k ih | getVersioned key k ih | getPlain key k ih | select q n k ih =>
    exact fun x => ih x (h x)
  | assignVersioned row k ih | assignPlain row k ih | addVersioned row k ih | addPlain row k ih
  | rollback k ih => exact ih h
  | flush k ih => exact ⟨h.1.bind fun a => (hf a).1, fun e => ih _ (h.2 e)⟩

/-- The transaction holds no rows while it may have to wait for some. -/
def Polite (p : Prog ρ κ τ ι ε α) (k : Work ρ τ) : Prop :=
  k.writes = .empty ∧ p.WritesLast ∨ k.session.Clean ∧ p.ReadsOnly

/-- A transaction that holds rows and is polite writes no more of them. -/
theorem Polite.locks {p : Prog ρ κ τ ι ε α} {k : Work ρ τ} (h : p.Polite k)
    (hw : k.writes ≠ .empty) : p.locks k = .empty := by
  obtain ⟨hclean, hp⟩ := h.resolve_left fun h => hw h.1
  cases p with
  | ret a => exact hclean.pending
  | flush f => exact hp.elim
  | _ => rfl

/-- A program that only reads keeps its session clean and goes on reading. -/
theorem ReadsOnly.next {db : Db ρ τ} {inp : Input ι} {p p' : Prog ρ κ τ ι ε α} {k k' : Work ρ τ}
    (h : p.ReadsOnly) (hk : k.session.Clean) (hn : p.next db inp k = .continue p' k') :
    p'.ReadsOnly ∧ k'.session.Clean := by
  cases p with
  | ret a => simp only [Prog.next] at hn; split at hn <;> cases hn
  | raise e => cases hn
  | clock f | uuid f => cases hn; exact ⟨h _, hk⟩
  | getVersioned key f =>
    cases hn
    refine ⟨h _, ?_⟩
    unfold Work.getVersioned
    split
    · exact hk
    · split
      · exact ⟨hk.1, hk.2, hk.3, hk.4⟩
      · exact hk
  | getPlain i f =>
    cases hn
    refine ⟨h _, ?_⟩
    unfold Work.getPlain
    split
    · exact hk
    · split
      · exact ⟨hk.1, hk.2, hk.3, hk.4⟩
      · exact hk
  | select q limit f =>
    cases hn
    refine ⟨h _, ?_⟩
    show (k.session.loadAll _).Clean
    rw [Session.loadAll_eq]
    exact ⟨hk.1, hk.2, hk.3, hk.4⟩
  | assignVersioned | assignPlain | addVersioned | addPlain | flush | rollback => exact h.elim

/-- A program that writes last and has written nothing yet has written nothing after its next
operation either, or it has flushed and will only read. -/
theorem WritesLast.next {db : Db ρ τ} {inp : Input ι} {p p' : Prog ρ κ τ ι ε α} {k k' : Work ρ τ}
    (h : p.WritesLast) (hk : k.writes = .empty) (hn : p.next db inp k = .continue p' k') :
    p'.Polite k' := by
  cases p with
  | ret a => simp only [Prog.next] at hn; split at hn <;> cases hn
  | raise e => cases hn
  | clock f | uuid f | select q limit f => cases hn; exact .inl ⟨hk, h _⟩
  | getVersioned key f =>
    cases hn
    refine .inl ⟨?_, h _⟩
    unfold Work.getVersioned
    split
    · exact hk
    · split <;> exact hk
  | getPlain i f =>
    cases hn
    refine .inl ⟨?_, h _⟩
    unfold Work.getPlain
    split
    · exact hk
    · split <;> exact hk
  | assignVersioned row f | assignPlain row f | addVersioned row f | addPlain row f =>
    cases hn
    exact .inl ⟨hk, h⟩
  | flush f =>
    simp only [Prog.next] at hn
    split at hn
    · next hf =>
      cases hn
      obtain ⟨-, -, rfl⟩ := Work.flush_ok hf
      exact .inr ⟨⟨rfl, rfl, rfl, rfl⟩, h.1⟩
    · cases hn
      exact .inl ⟨rfl, h.2 _⟩
  | rollback f => cases hn; exact .inl ⟨rfl, h⟩

/-- **A polite transaction stays polite.** -/
theorem Polite.next {db : Db ρ τ} {inp : Input ι} {p p' : Prog ρ κ τ ι ε α} {k k' : Work ρ τ}
    (h : p.Polite k) (hn : p.next db inp k = .continue p' k') : p'.Polite k' := by
  rcases h with ⟨hk, hp⟩ | ⟨hk, hp⟩
  · exact hp.next hk hn
  · obtain ⟨hp', hk'⟩ := hp.next hk hn
    exact .inr ⟨hk', hp'⟩

/-! ## Programs that end -/

/-- The program ends within `n` operations, whatever they answer, and returns a value with `P`. -/
def EndsIn (P : α → Prop) : ℕ → Prog ρ κ τ ι ε α → Prop
  | 0, _ => False
  | _ + 1, .ret a => P a
  | _ + 1, .raise _ => True
  | n + 1, .clock k => ∀ t, EndsIn P n (k t)
  | n + 1, .uuid k => ∀ i, EndsIn P n (k i)
  | n + 1, .getVersioned _ k => ∀ r, EndsIn P n (k r)
  | n + 1, .getPlain _ k => ∀ r, EndsIn P n (k r)
  | n + 1, .select _ limit k => ∀ rs : List τ, rs.length ≤ limit → EndsIn P n (k rs)
  | n + 1, .assignVersioned _ k | n + 1, .assignPlain _ k | n + 1, .addVersioned _ k
  | n + 1, .addPlain _ k | n + 1, .rollback k => EndsIn P n k
  | n + 1, .flush k => ∀ e, EndsIn P n (k e)

variable {P : α → Prop} {Q : β → Prop} {n m : ℕ}

/-- A bound may be too large, and more may be returned. -/
theorem EndsIn.mono {P' : α → Prop} {p : Prog ρ κ τ ι ε α} (h : p.EndsIn P n)
    (hP : ∀ v, P v → P' v) (hle : n ≤ m) : p.EndsIn P' m := by
  induction n generalizing m p with
  | zero => exact h.elim
  | succ n ih =>
    obtain ⟨m, rfl⟩ : ∃ m', m = m' + 1 := ⟨m - 1, by omega⟩
    have hle : n ≤ m := by omega
    cases p with
    | ret v => exact hP v h
    | raise => exact h
    | clock | uuid | getVersioned | getPlain | flush => exact fun x => ih (h x) hle
    | select => exact fun rs hrs => ih (h rs hrs) hle
    | assignVersioned row q | assignPlain row q | addVersioned row q | addPlain row q
    | rollback q => exact ih (p := q) h hle

/-- One program after another: the first one's return is no operation any more. -/
theorem EndsIn.bind {p : Prog ρ κ τ ι ε α} {f : α → Prog ρ κ τ ι ε β} (h : p.EndsIn P (n + 1))
    (hm : 0 < m) (hf : ∀ a, P a → (f a).EndsIn Q m) : (p >>= f).EndsIn Q (n + m) := by
  obtain ⟨m, rfl⟩ : ∃ m', m = m' + 1 := ⟨m - 1, by omega⟩
  induction n generalizing p with
  | zero =>
    rw [Nat.zero_add]
    cases p with
    | ret a => exact hf a h
    | raise => trivial
    | clock | uuid | getVersioned | getPlain | flush => exact fun x => (h x).elim
    | select => exact fun rs hrs => (h rs hrs).elim
    | assignVersioned | assignPlain | addVersioned | addPlain | rollback => exact h.elim
  | succ n ih =>
    rw [Nat.add_right_comm]
    cases p with
    | ret a => exact (hf a h).mono (fun _ => id) (by omega)
    | raise => trivial
    | clock | uuid | getVersioned | getPlain | flush => exact fun x => ih (h x)
    | select => exact fun rs hrs => ih (h rs hrs)
    | assignVersioned row q | assignPlain row q | addVersioned row q | addPlain row q
    | rollback q => exact ih (p := q) h

/-- Every operation uses up one. -/
theorem EndsIn.next {db : Db ρ τ} {inp : Input ι} {p p' : Prog ρ κ τ ι ε α} {k k' : Work ρ τ}
    (h : p.EndsIn P n) (hn : p.next db inp k = .continue p' k') : p'.EndsIn P (n - 1) := by
  cases n with
  | zero => exact h.elim
  | succ n =>
    cases p with
    | ret a => simp only [Prog.next] at hn; split at hn <;> cases hn
    | raise e => cases hn
    | clock | uuid | getVersioned | getPlain => cases hn; exact h _
    | select q limit f =>
      cases hn
      refine h _ ?_
      rw [Work.select, List.length_map]
      exact (k.matching_spec db inp.scan q limit).2.1
    | flush f =>
      simp only [Prog.next] at hn
      split at hn <;> (cases hn; exact h _)
    | assignVersioned | assignPlain | addVersioned | addPlain | rollback => cases hn; exact h

/-- What a program returns at once. -/
theorem EndsIn.ret {x : α} (h : (Prog.ret x : Prog ρ κ τ ι ε α).EndsIn P n) : P x := by
  cases n with
  | zero => exact h.elim
  | succ n => exact h

theorem EndsIn.pos {p : Prog ρ κ τ ι ε α} (h : p.EndsIn P n) : 0 < n := by
  cases n with
  | zero => exact h.elim
  | succ n => omega

end Prog

/-- A sum with one summand more. -/
theorem sum_update_succ (f : ℕ → ℕ) (n v : ℕ) :
    ∑ j ∈ Finset.range (n + 1), Function.update f n v j = ∑ j ∈ Finset.range n, f j + v := by
  rw [Finset.sum_range_succ, Function.update_self]
  exact congrArg (· + v) (Finset.sum_congr rfl fun j hj =>
    Function.update_of_ne (Finset.mem_range.1 hj).ne v f)

/-- What one summand loses, the sum loses. -/
theorem sum_update_add_le {f : ℕ → ℕ} {n i v d : ℕ} (hi : i < n) (hv : v + d ≤ f i) :
    ∑ j ∈ Finset.range n, Function.update f i v j + d ≤ ∑ j ∈ Finset.range n, f j := by
  have hmem := Finset.mem_range.2 hi
  rw [Finset.sum_update_of_mem hmem, Finset.sum_eq_add_sum_sdiff_singleton_of_mem hmem]
  omega

namespace World

variable {body : c → Prog ρ κ τ ι ε α} {w w' : World c ρ κ τ ι ε α} {a : Action c ι} {t : ℕ}
  {call : c}

/-! ## Waiting -/

/-- The transaction runs the call. -/
def Running (w : World c ρ κ τ ι ε α) (t : ℕ) (call : c) : Prop :=
  ∃ p k, w.txs[t]? = some (.running call p k)

/-- The next operation of the transaction is possible, whatever it is answered. -/
def Ready (body : c → Prog ρ κ τ ι ε α) (w : World c ρ κ τ ι ε α) (t : ℕ) : Prop :=
  ∀ inp, ∃ w', w.step body (.advance t inp) = some w'

/-- The transactions of all calls but those with `H` are polite. -/
def AllPolite (H : c → Prop) (w : World c ρ κ τ ι ε α) : Prop :=
  ∀ ⦃t : ℕ⦄ ⦃call p k⦄, w.txs[t]? = some (.running call p k) → ¬ H call → p.Polite k

/-- **Transactions stay polite**, if the programs of their calls write last. -/
theorem AllPolite.step {H : c → Prop} (hbody : ∀ call, ¬ H call → (body call).WritesLast)
    (h : w.AllPolite H) (hs : w.step body a = some w') : w'.AllPolite H := by
  intro t call p k ht hH
  cases step_kind hs with
  | begin call' =>
    rcases getElem?_append_singleton ht with ht | ⟨-, he⟩
    · exact h ht hH
    · cases he
      exact .inl ⟨rfl, hbody call hH⟩
  | «continue» ht' _ hn =>
    rcases getElem?_set_inv ht with ⟨-, he⟩ | ⟨-, ht⟩
    · cases he
      exact (h ht' hH).next hn
    · exact h ht hH
  | commit | stop | abort =>
    rcases getElem?_set_inv ht with ⟨-, he⟩ | ⟨-, ht⟩
    · cases he
    · exact h ht hH

/-- A transaction that waits for nothing is ready. -/
theorem ready_of_free {p : Prog ρ κ τ ι ε α} {k : Work ρ τ}
    (ht : w.txs[t]? = some (.running call p k)) (hf : w.Free t (p.locks k)) : w.Ready body t := by
  intro inp
  simp only [World.step, ht, if_pos hf]
  cases p.next w.db inp k with
  | «continue» | commit | stop => exact ⟨_, rfl⟩

/-- What a transaction waits for is held by another one that runs. -/
theorem exists_holder {d : Db ρ τ} (hf : ¬ w.Free t d) :
    ∃ (t' : ℕ) (call : c) (p : Prog ρ κ τ ι ε α) (k : Work ρ τ), t' ≠ t ∧
      w.txs[t']? = some (.running call p k) ∧ k.writes ≠ .empty := by
  simp only [Free, not_forall] at hf
  obtain ⟨t', hlt, hne, hlocks⟩ := hf
  have hwrites : w.writesOf t' ≠ .empty := by
    intro hw
    rw [hw] at hlocks
    exact hlocks ⟨Finset.disjoint_empty_left _, Finset.disjoint_empty_left _⟩
  have hx := List.getElem?_eq_getElem hlt
  cases he : w.txs[t'] with
  | running call p k =>
    rw [he] at hx
    rw [writesOf_running hx] at hwrites
    exact ⟨t', call, p, k, hne, hx, hwrites⟩
  | done call o =>
    rw [he] at hx
    rw [writesOf, hx] at hwrites
    exact absurd rfl hwrites

variable (body) in
/-- **Progress.** While a transaction runs, one is ready, or two transactions whose calls have `H`
wait with rows in their hands. -/
theorem AllPolite.progress {H : c → Prop} (h : w.AllPolite H) (ht : w.Running t call) :
    (∃ t' call', w.Running t' call' ∧ w.Ready body t') ∨
    ∃ t₁ t₂ call₁ call₂, t₁ ≠ t₂ ∧ w.Running t₁ call₁ ∧ w.Running t₂ call₂ ∧ H call₁ ∧ H call₂ ∧
      w.writesOf t₁ ≠ .empty ∧ w.writesOf t₂ ≠ .empty := by
  -- a transaction that holds rows is ready, or it has `H` and waits for another one
  have hholder : ∀ {t₁ : ℕ} {call₁ p₁ k₁}, w.txs[t₁]? = some (.running call₁ p₁ k₁) →
      k₁.writes ≠ .empty → w.Ready body t₁ ∨ H call₁ ∧ ¬ w.Free t₁ (p₁.locks k₁) := by
    intro t₁ call₁ p₁ k₁ ht₁ hw
    by_cases hf : w.Free t₁ (p₁.locks k₁)
    · exact .inl (ready_of_free ht₁ hf)
    · refine .inr ⟨by_contra fun hH => hf ?_, hf⟩
      rw [(h ht₁ hH).locks hw]
      exact fun _ _ _ => ⟨Finset.disjoint_empty_right _, Finset.disjoint_empty_right _⟩
  obtain ⟨p, k, ht⟩ := ht
  by_cases hf : w.Free t (p.locks k)
  · exact .inl ⟨t, call, ⟨p, k, ht⟩, ready_of_free ht hf⟩
  · obtain ⟨t₁, call₁, p₁, k₁, -, ht₁, hw₁⟩ := exists_holder hf
    rcases hholder ht₁ hw₁ with hready | ⟨hH₁, hf₁⟩
    · exact .inl ⟨t₁, call₁, ⟨p₁, k₁, ht₁⟩, hready⟩
    · obtain ⟨t₂, call₂, p₂, k₂, hne, ht₂, hw₂⟩ := exists_holder hf₁
      rcases hholder ht₂ hw₂ with hready | ⟨hH₂, -⟩
      · exact .inl ⟨t₂, call₂, ⟨p₂, k₂, ht₂⟩, hready⟩
      · rw [← writesOf_running ht₁] at hw₁
        rw [← writesOf_running ht₂] at hw₂
        exact .inr
          ⟨t₁, t₂, call₁, call₂, hne.symm, ⟨p₁, k₁, ht₁⟩, ⟨p₂, k₂, ht₂⟩, hH₁, hH₂, hw₁, hw₂⟩

/-! ## Ending -/

/-- Every transaction that runs ends within the operations that `left` gives it. -/
def Left (P : c → α → Prop) (w : World c ρ κ τ ι ε α) (left : ℕ → ℕ) : Prop :=
  ∀ ⦃t : ℕ⦄ ⦃call p k⦄, w.txs[t]? = some (.running call p k) → p.EndsIn (P call) (left t)

/-- A transaction that begins has the operations of its program left. -/
theorem Left.begun {P : c → α → Prop} {left : ℕ → ℕ} {n : ℕ} (h : w.Left P left)
    (hcall : (body call).EndsIn (P call) n) :
    (w.begun body call).Left P (Function.update left w.txs.length n) := by
  intro t call' p k ht
  rcases getElem?_append_singleton ht with ht | ⟨rfl, he⟩
  · rw [Function.update_of_ne (List.getElem?_eq_some_iff.1 ht).1.ne]
    exact h ht
  · cases he
    rw [Function.update_self]
    exact hcall

/-- Every step of a transaction uses up one of its operations. -/
theorem Left.step {P : c → α → Prop} {left : ℕ → ℕ} (h : w.Left P left) (ha : a.arriving = none)
    (hs : w.step body a = some w') : ∃ left', w'.Left P left' ∧ w'.txs.length = w.txs.length ∧
      ∑ t ∈ Finset.range w.txs.length, left' t + 1 ≤ ∑ t ∈ Finset.range w.txs.length, left t := by
  -- the transaction that moves has one operation less than before
  have hmove : ∀ {t : ℕ} {call p k x}, w.txs[t]? = some (.running call p k) →
      w'.txs = w.txs.set t x →
      (∀ {call' p' k'}, x = .running call' p' k' → p'.EndsIn (P call') (left t - 1)) →
      ∃ left', w'.Left P left' ∧ w'.txs.length = w.txs.length ∧
        ∑ t ∈ Finset.range w.txs.length, left' t + 1 ≤ ∑ t ∈ Finset.range w.txs.length, left t := by
    intro t call p k x ht htxs hx
    refine ⟨Function.update left t (left t - 1), ?_, by rw [htxs, List.length_set],
      sum_update_add_le (List.getElem?_eq_some_iff.1 ht).1 (Nat.sub_add_cancel (h ht).pos).le⟩
    intro t' call' p' k' ht'
    rw [htxs] at ht'
    rcases getElem?_set_inv ht' with ⟨rfl, he⟩ | ⟨hne, ht'⟩
    · rw [Function.update_self]
      exact hx he.symm
    · rw [Function.update_of_ne hne]
      exact h ht'
  cases step_kind hs with
  | begin => cases ha
  | «continue» ht _ hn =>
    refine hmove ht rfl fun he => ?_
    cases he
    exact (h ht).next hn
  | commit ht | stop ht | abort ht => exact hmove ht rfl nofun

/-- **Work comes to an end**: without new calls, no more steps are possible than there are
operations left. -/
theorem work_le {P : c → α → Prop} {left : ℕ → ℕ} {as : List (Action c ι)} (h : w.Left P left)
    (has : ∀ a ∈ as, a.arriving = none) (hr : run (step body) w as = some w') :
    as.length ≤ ∑ t ∈ Finset.range w.txs.length, left t := by
  induction as generalizing w left with
  | nil => exact Nat.zero_le _
  | cons a as ih =>
    obtain ⟨w₁, hs, hr⟩ := run_cons.1 hr
    obtain ⟨left', h', hlen, hle⟩ := h.step (has a (.head _)) hs
    have := ih h' (fun b hb => has b (.tail _ hb)) hr
    rw [hlen] at this
    rw [List.length_cons]
    omega

/-- Every transaction has the operations left that its call starts with, and has returned what its
call may return. -/
structure Bounded (P : c → α → Prop) (N : c → ℕ) (w : World c ρ κ τ ι ε α) : Prop where
  running : ∀ {t : ℕ} {call p k}, w.txs[t]? = some (.running call p k) → p.EndsIn (P call) (N call)
  returned : ∀ {t : ℕ} {call a}, w.txs[t]? = some (.done call (.returned a)) → P call a

/-- The bounds after a step of transaction `t` to the state `x`. -/
theorem Bounded.set {P : c → α → Prop} {N : c → ℕ} (h : w.Bounded P N) {x : TxState c ρ κ τ ι ε α}
    {db : Db ρ τ} (hx : ∀ {call p k}, x = .running call p k → p.EndsIn (P call) (N call))
    (hret : ∀ {call v}, x = .done call (.returned v) → P call v) :
    Bounded P N ⟨db, w.txs.set t x⟩ where
  running ht := by
    rcases getElem?_set_inv ht with ⟨-, he⟩ | ⟨-, ht⟩
    · exact hx he.symm
    · exact h.running ht
  returned ht := by
    rcases getElem?_set_inv ht with ⟨-, he⟩ | ⟨-, ht⟩
    · exact hret he.symm
    · exact h.returned ht

/-- **Every step keeps the bounds.** -/
theorem Bounded.step {P : c → α → Prop} {N : c → ℕ}
    (hbody : ∀ call, (body call).EndsIn (P call) (N call)) (h : w.Bounded P N)
    (hs : w.step body a = some w') : w'.Bounded P N := by
  cases step_kind hs with
  | begin call' =>
    constructor
    · intro t call p k ht
      rcases getElem?_append_singleton ht with ht | ⟨-, he⟩
      · exact h.running ht
      · cases he
        exact hbody call'
    · intro t call v ht
      rcases getElem?_append_singleton ht with ht | ⟨-, he⟩
      · exact h.returned ht
      · cases he
  | «continue» ht _ hn =>
    refine h.set (fun he => ?_) fun he => nomatch he
    cases he
    exact ((h.running ht).next hn).mono (fun _ => id) (Nat.sub_le ..)
  | commit ht _ hn =>
    refine h.set (fun he => nomatch he) fun he => ?_
    cases he
    obtain ⟨rfl, -⟩ := returned_of_commit hn
    exact (h.running ht).ret
  | stop _ hn =>
    refine h.set (fun he => nomatch he) fun he => ?_
    cases he
    rcases Prog.next_stop hn with ⟨e, -, he⟩ | ⟨e, he⟩ <;> cases he
  | abort => exact h.set (fun he => nomatch he) fun he => nomatch he

end World

end EventSphere
