import Mathlib.Logic.Basic

/-!
# Runs of a partial step function

A system is a partial step function `step : S → A → Option S`: the action says which party moves and
what the environment answers it, `none` says that the action is not possible (a blocked statement, a
party that has finished). A run is a list of actions. `Along step P s as` says that every step of
the run of `as` from `s` satisfies `P` at the state before it; a property of whole runs is an
invariant (`run_inv`, `run_inv_along`) or a comparison of two step properties (`along_iff`). The
parties of a system are numbered by their place in a list.
-/

namespace EventSphere

variable {S A : Type}

/-- The state after a list of actions, if every one of them was possible. -/
def run (step : S → A → Option S) : S → List A → Option S
  | s, [] => some s
  | s, a :: as => (step s a).bind (run step · as)

/-- Every step of the run satisfies `P` at the state before it. -/
def Along (step : S → A → Option S) (P : S → A → Prop) : S → List A → Prop
  | _, [] => True
  | s, a :: as => P s a ∧ ∀ s', step s a = some s' → Along step P s' as

section
variable {step : S → A → Option S}

@[simp] theorem run_nil (s : S) : run step s [] = some s := rfl

/-- The first step of a run. -/
theorem run_cons {s s'' : S} {a : A} {as : List A} :
    run step s (a :: as) = some s'' ↔ ∃ s', step s a = some s' ∧ run step s' as = some s'' := by
  simp [run, Option.bind_eq_some_iff]

/-- A run splits where its list of actions does. -/
theorem run_append {s s'' : S} {as bs : List A} :
    run step s (as ++ bs) = some s'' ↔
      ∃ s', run step s as = some s' ∧ run step s' bs = some s'' := by
  induction as generalizing s with
  | nil => simp
  | cons a as ih =>
    simp only [List.cons_append, run_cons, ih]
    constructor
    · rintro ⟨s₁, h1, s₂, h2, h3⟩
      exact ⟨s₂, ⟨s₁, h1, h2⟩, h3⟩
    · rintro ⟨s₂, ⟨s₁, h1, h2⟩, h3⟩
      exact ⟨s₁, h1, s₂, h2, h3⟩

/-- The last step of a run. -/
theorem run_concat {s s'' : S} {a : A} {as : List A} :
    run step s (as ++ [a]) = some s'' ↔ ∃ s', run step s as = some s' ∧ step s' a = some s'' := by
  rw [run_append]
  refine exists_congr fun s' => and_congr_right fun _ => ?_
  rw [run_cons]
  simp

/-- A run whose end can be evaluated and checked reaches a state with the property. -/
theorem exists_of_run {P : S → Prop} [DecidablePred P] {s : S} {as : List A}
    (h : (run step s as).any (fun s' => decide (P s')) = true) :
    ∃ s', run step s as = some s' ∧ P s' := by
  obtain ⟨s', hs, hP⟩ := (Option.any_eq_true _ _).1 h
  exact ⟨s', hs, of_decide_eq_true hP⟩

/-- The step property along a run splits where the run does. -/
theorem along_append {P : S → A → Prop} {s s' : S} {as bs : List A} (hr : run step s as = some s') :
    Along step P s (as ++ bs) ↔ Along step P s as ∧ Along step P s' bs := by
  induction as generalizing s with
  | nil => cases hr; exact (true_and _).symm.to_iff
  | cons a as ih =>
    obtain ⟨s₁, h1, h2⟩ := run_cons.1 hr
    have hs : ∀ {Q : S → Prop}, (∀ s₂, step s a = some s₂ → Q s₂) ↔ Q s₁ := by simp [h1]
    simp only [List.cons_append, Along, hs, ih h2, and_assoc]

/-- The step property of the last step of a run. -/
theorem along_concat {P : S → A → Prop} {s s' : S} {as : List A} {a : A}
    (h : Along step P s as) (hr : run step s as = some s') (ha : P s' a) :
    Along step P s (as ++ [a]) :=
  (along_append hr).2 ⟨h, ha, fun _ _ => trivial⟩

/-- Two step properties along one run. -/
theorem Along.and {P Q : S → A → Prop} {s : S} {as : List A} (hP : Along step P s as)
    (hQ : Along step Q s as) : Along step (fun s a => P s a ∧ Q s a) s as := by
  induction as generalizing s with
  | nil => trivial
  | cons a as ih => exact ⟨⟨hP.1, hQ.1⟩, fun s' hs => ih (hP.2 s' hs) (hQ.2 s' hs)⟩

/-- **The invariant rule.** What a step keeps at every state where it meets `C`, a run all of whose
steps meet `C` keeps. -/
theorem run_inv_along {C : S → A → Prop} {I : S → Prop}
    (hstep : ∀ {s a s'}, I s → C s a → step s a = some s' → I s')
    {s s' : S} {as : List A} (h : Along step C s as) (hr : run step s as = some s') (hI : I s) :
    I s' := by
  induction as generalizing s with
  | nil => cases hr; exact hI
  | cons a as ih =>
    obtain ⟨s₁, h1, h2⟩ := run_cons.1 hr
    exact ih (h.2 s₁ h1) h2 (hstep hI h.1 h1)

/-- The invariant rule without a condition on the steps. -/
theorem run_inv {I : S → Prop} (hstep : ∀ {s a s'}, I s → step s a = some s' → I s')
    {s s' : S} {as : List A} (hr : run step s as = some s') (hI : I s) : I s' := by
  induction as generalizing s with
  | nil => cases hr; exact hI
  | cons a as ih =>
    obtain ⟨s₁, h1, h2⟩ := run_cons.1 hr
    exact ih h2 (hstep hI h1)

/-- Two step properties that agree at the states of an invariant, which steps with the property
keep, agree along every run whose steps meet the condition `C`. -/
theorem along_iff_along {C P Q : S → A → Prop} {I : S → Prop}
    (hstep : ∀ {s a s'}, I s → C s a → P s a → step s a = some s' → I s')
    (hPQ : ∀ {s a}, I s → C s a → (P s a ↔ Q s a)) {s : S} {as : List A} (hI : I s)
    (hC : Along step C s as) : Along step P s as ↔ Along step Q s as := by
  induction as generalizing s with
  | nil => exact Iff.rfl
  | cons a as ih =>
    obtain ⟨hc, hC⟩ := hC
    constructor
    · rintro ⟨hp, h⟩
      exact ⟨(hPQ hI hc).1 hp, fun s' hs => (ih (hstep hI hc hp hs) (hC s' hs)).1 (h s' hs)⟩
    · rintro ⟨hq, h⟩
      have hp := (hPQ hI hc).2 hq
      exact ⟨hp, fun s' hs => (ih (hstep hI hc hp hs) (hC s' hs)).2 (h s' hs)⟩

/-- What every action of a list has holds along its runs. -/
theorem along_of_forall_mem {C : A → Prop} {s : S} {as : List A} (h : ∀ a ∈ as, C a) :
    Along step (fun _ a => C a) s as := by
  induction as generalizing s with
  | nil => trivial
  | cons a as ih => exact ⟨h a (.head _), fun _ _ => ih fun b hb => h b (.tail _ hb)⟩

/-- Two step properties that agree at the states of an invariant agree along every run. -/
theorem along_iff {P Q : S → A → Prop} {I : S → Prop}
    (hstep : ∀ {s a s'}, I s → P s a → step s a = some s' → I s')
    (hPQ : ∀ {s a}, I s → (P s a ↔ Q s a)) {s : S} {as : List A} (hI : I s) :
    Along step P s as ↔ Along step Q s as :=
  along_iff_along (fun h _ => hstep h) (fun h _ => hPQ h) hI
    (along_of_forall_mem (C := fun _ => True) fun _ _ => trivial)

/-- A step property that every step of an invariant's states has holds along every run whose steps
meet the invariant's condition. -/
theorem along_of_inv {C P : S → A → Prop} {I : S → Prop}
    (hstep : ∀ {s a s'}, I s → C s a → step s a = some s' → I s')
    (hP : ∀ {s a}, I s → C s a → P s a) {s : S} {as : List A} (hI : I s)
    (h : Along step C s as) : Along step P s as := by
  induction as generalizing s with
  | nil => trivial
  | cons a as ih => exact ⟨hP hI h.1, fun s' hs => ih (hstep hI h.1 hs) (h.2 s' hs)⟩

/-- A step property whose violation leaves a mark that is never lost holds along every run that ends
without the mark. -/
theorem along_of_unmarked {P : S → A → Prop} {I B : S → Prop}
    (hI : ∀ {s a s'}, I s → step s a = some s' → I s')
    (hB : ∀ {s a s'}, I s → B s → step s a = some s' → B s')
    (hmark : ∀ {s a s'}, I s → step s a = some s' → ¬ P s a → B s') {s s' : S} {as : List A}
    (hr : run step s as = some s') (hs : I s) (hend : ¬ B s') : Along step P s as := by
  induction as generalizing s with
  | nil => trivial
  | cons a as ih =>
    obtain ⟨s₁, h1, h2⟩ := run_cons.1 hr
    refine ⟨Classical.byContradiction fun hn => ?_, fun s₂ h => ?_⟩
    · have hinv : I s' ∧ B s' := run_inv (I := fun s => I s ∧ B s)
        (fun h hstep => ⟨hI h.1 hstep, hB h.1 h.2 hstep⟩) h2 ⟨hI hs h1, hmark hs h1 hn⟩
      exact hend hinv.2
    · cases h1.symm.trans h
      exact ih h2 (hI hs h1)

/-- A step property that can be evaluated can be evaluated along a run. -/
instance decidableAlong {P : S → A → Prop} [∀ s a, Decidable (P s a)] :
    ∀ s as, Decidable (Along step P s as)
  | _, [] => inferInstanceAs (Decidable True)
  | s, a :: as =>
    match h : step s a with
    | none => decidable_of_iff (P s a) ⟨fun hp => ⟨hp, by simp [h]⟩, And.left⟩
    | some s' =>
      have := decidableAlong (P := P) s' as
      decidable_of_iff (P s a ∧ Along step P s' as) (and_congr_right fun _ => by simp [h])

end

/-! ## Lists of parties -/

/-- The parties after one of them has moved. -/
theorem getElem?_set_of_getElem? {l : List S} {t t' : Nat} {x y : S} (h : l[t]? = some y) :
    (l.set t x)[t']? = if t' = t then some x else l[t']? := by
  rw [List.getElem?_set]
  by_cases he : t = t'
  · subst he
    have := (List.getElem?_eq_some_iff.1 h).1
    simp [this]
  · simp [he, Ne.symm he]

/-- A party after one of them has moved is the one that has, or another one, as it was. -/
theorem getElem?_set_inv {l : List S} {t t' : Nat} {x y : S} (h : (l.set t x)[t']? = some y) :
    t' = t ∧ y = x ∨ t' ≠ t ∧ l[t']? = some y := by
  rw [List.getElem?_set] at h
  split at h
  · next he =>
    split at h
    · exact .inl ⟨he.symm, (Option.some.inj h).symm⟩
    · cases h
  · next hne => exact .inr ⟨Ne.symm hne, h⟩

/-- The parties after an arrival. -/
theorem getElem?_append_singleton {l : List S} {t : Nat} {x y : S}
    (h : (l ++ [x])[t]? = some y) : l[t]? = some y ∨ t = l.length ∧ y = x := by
  rw [List.getElem?_append] at h
  split at h
  · exact .inl h
  · next hge =>
    obtain ⟨hlt, he⟩ := List.getElem?_eq_some_iff.1 h
    rw [List.getElem_singleton] at he
    rw [List.length_singleton] at hlt
    exact .inr ⟨by omega, he.symm⟩

end EventSphere
