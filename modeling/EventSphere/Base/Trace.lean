import EventSphere.Base.Runs
import Mathlib.Data.List.Destutter

/-!
# Traces of runs

What a run has done, step after step: `trace step out s as` collects what `out` sees in the steps of
the run of `as` from `s`. An invariant that speaks about the trace as well as the state is proved by
`run_trace_along`. A condition on the steps that needs to know more of the past than the state tells
is a condition on the system `withHistory`. Where a trace repeats itself, `List.destutter` removes
the adjacent duplicates; the lemmas about it follow a list that grows at its end, or that loses an
element.
-/

namespace EventSphere

variable {S A B : Type}

/-- What the steps of a run have done. -/
def trace (step : S → A → Option S) (out : S → A → S → List B) : S → List A → List B
  | _, [] => []
  | s, a :: as => (step s a).elim [] fun s' => out s a s' ++ trace step out s' as

/-- **The invariant rule for a state and what has been done.** -/
theorem run_trace_along {step : S → A → Option S} {out : S → A → S → List B} {C : S → A → Prop}
    {I : S → List B → Prop}
    (hstep : ∀ {s a s' l}, I s l → C s a → step s a = some s' → I s' (l ++ out s a s'))
    {s s' : S} {l : List B} {as : List A} (h : Along step C s as) (hr : run step s as = some s')
    (hI : I s l) : I s' (l ++ trace step out s as) := by
  induction as generalizing s l with
  | nil =>
    cases hr
    rw [trace, List.append_nil]
    exact hI
  | cons a as ih =>
    obtain ⟨s₁, h1, h2⟩ := run_cons.1 hr
    rw [trace, h1, Option.elim_some, ← List.append_assoc]
    exact ih (h.2 s₁ h1) h2 (hstep hI h.1 h1)

/-! ## Histories -/

section
variable {H : Type}

/-- The system with a history that its steps write and do not read. -/
def withHistory (step : S → A → Option S) (record : S → A → S → H → H) (x : S × H) (a : A) :
    Option (S × H) :=
  (step x.1 a).map fun s' => (s', record x.1 a s' x.2)

/-- A run is a run with a history. -/
theorem run_withHistory {step : S → A → Option S} (record : S → A → S → H → H) {s s' : S}
    {as : List A} (hr : run step s as = some s') (h : H) :
    ∃ h', run (withHistory step record) (s, h) as = some (s', h') := by
  induction as generalizing s h with
  | nil => cases hr; exact ⟨h, rfl⟩
  | cons a as ih =>
    obtain ⟨s₁, h1, h2⟩ := run_cons.1 hr
    obtain ⟨h', hrun⟩ := ih h2 (record s a s₁ h)
    refine ⟨h', run_cons.2 ⟨_, ?_, hrun⟩⟩
    rw [withHistory, h1, Option.map_some]

/-- The history does not change what a run does. -/
theorem trace_withHistory (step : S → A → Option S) (record : S → A → S → H → H)
    (out : S → A → S → List B) (s : S) (h : H) (as : List A) :
    trace (withHistory step record) (fun x a y => out x.1 a y.1) (s, h) as =
      trace step out s as := by
  induction as generalizing s h with
  | nil => rfl
  | cons a as ih =>
    rw [trace, trace, withHistory]
    cases step s a with
    | none => rfl
    | some s' => exact congrArg (out s a s' ++ ·) (ih s' _)

end

section
variable [DecidableEq B]

/-! ## What stands before and after an element -/

/-- A list splits at one of its elements. -/
theorem takeWhile_append_cons_tail {l : List B} {b : B} (h : b ∈ l) :
    l.takeWhile (· ≠ b) ++ b :: (l.dropWhile (· ≠ b)).tail = l := by
  induction l with
  | nil => cases h
  | cons c l ih =>
    by_cases hc : c = b
    · simp [hc]
    · have hcb : decide (c ≠ b) = true := decide_eq_true hc
      rw [List.takeWhile_cons, List.dropWhile_cons, if_pos hcb, if_pos hcb, List.cons_append,
        ih ((List.mem_cons.1 h).resolve_left (Ne.symm hc))]

/-- A list without repetitions loses one element. -/
theorem filter_ne_eq {l : List B} (h : l.Nodup) (b : B) :
    l.filter (· ≠ b) = l.takeWhile (· ≠ b) ++ (l.dropWhile (· ≠ b)).tail := by
  induction l with
  | nil => rfl
  | cons c l ih =>
    obtain ⟨hnot, h⟩ := List.nodup_cons.1 h
    by_cases hc : c = b
    · subst hc
      rw [List.filter_cons_of_neg (by simp), List.filter_eq_self.2 fun d hd => ?_]
      · simp
      · exact decide_eq_true (ne_of_mem_of_not_mem hd hnot)
    · have hcb : decide (c ≠ b) = true := decide_eq_true hc
      rw [List.filter_cons, List.takeWhile_cons, List.dropWhile_cons, if_pos hcb, if_pos hcb,
        if_pos hcb, List.cons_append, ih h]

/-! ## Adjacent duplicates -/

/-- The list after an element that is not its first, without adjacent duplicates, and one more
element. -/
theorem destutter'_concat (l : List B) (a b : B) :
    (l ++ [b]).destutter' (· ≠ ·) a =
      if (a :: l).getLast? = some b then l.destutter' (· ≠ ·) a
      else l.destutter' (· ≠ ·) a ++ [b] := by
  induction l generalizing a with
  | nil => by_cases h : a = b <;> simp [h]
  | cons c l ih =>
    rw [List.cons_append, List.destutter'_cons, List.destutter'_cons, List.getLast?_cons_cons]
    split
    · rw [ih]
      split
      · rfl
      · rfl
    · next h =>
      obtain rfl : a = c := not_not.1 h
      exact ih a

/-- One more element counts only if it differs from the last one. -/
theorem destutter_concat (l : List B) (b : B) :
    (l ++ [b]).destutter (· ≠ ·) =
      if l.getLast? = some b then l.destutter (· ≠ ·) else l.destutter (· ≠ ·) ++ [b] := by
  cases l with
  | nil => simp
  | cons a l => exact destutter'_concat l a b

/-- The last element stays the last one. -/
theorem getLast?_destutter (l : List B) : (l.destutter (· ≠ ·)).getLast? = l.getLast? := by
  induction l using List.reverseRecOn with
  | nil => rfl
  | append_singleton l b ih =>
    rw [destutter_concat, List.getLast?_concat]
    split
    · next h => rw [ih, h]
    · exact List.getLast?_concat

/-- What follows a list meets only its last element. -/
theorem destutter_append_congr {l l' : List B}
    (h : l.destutter (· ≠ ·) = l'.destutter (· ≠ ·)) (r : List B) :
    (l ++ r).destutter (· ≠ ·) = (l' ++ r).destutter (· ≠ ·) := by
  induction r using List.reverseRecOn with
  | nil => rwa [List.append_nil, List.append_nil]
  | append_singleton r b ih =>
    have hlast : (l ++ r).getLast? = (l' ++ r).getLast? := by
      rw [← getLast?_destutter (l ++ r), ih, getLast?_destutter]
    rw [← List.append_assoc, ← List.append_assoc, destutter_concat, destutter_concat, ih, hlast]

/-- An element next to an equal one does not count. -/
theorem destutter_erase {l r : List B} {b : B} (h : l.getLast? = some b ∨ r.head? = some b) :
    (l ++ b :: r).destutter (· ≠ ·) = (l ++ r).destutter (· ≠ ·) := by
  rcases h with h | h
  · rw [List.append_cons]
    refine destutter_append_congr ?_ r
    rw [destutter_concat, if_pos h]
  · obtain ⟨r', rfl⟩ := List.head?_eq_some_iff.1 h
    rw [List.append_cons l b (b :: r'), List.append_cons (l ++ [b]) b r', List.append_cons l b r']
    refine destutter_append_congr ?_ r'
    rw [destutter_concat, if_pos List.getLast?_concat]

end

end EventSphere
