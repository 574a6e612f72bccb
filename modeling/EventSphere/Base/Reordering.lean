import Mathlib.Data.List.Perm.Basic

/-!
# Reorderings that keep the order under each key

Two lists with the same elements, in which the elements with one key come in the same order
(`Reorders`). If steps with different keys commute at the states of an invariant, a reordering of
the steps leads to the same state (`Reorders.foldl_eq`): the first step of one list can be moved to
the front of the other, past steps with other keys only.
-/

namespace EventSphere

variable {S A K : Type} {key : A → K}

section
variable [DecidableEq K] {l l' : List A}

/-- The second list is a permutation of the first that keeps the order of the elements under every
key. -/
structure Reorders (key : A → K) (l l' : List A) : Prop where
  perm : l.Perm l'
  order : ∀ k, l.filter (key · = k) = l'.filter (key · = k)

/-- Two neighbours with different keys may change places. -/
theorem Reorders.swap {a b : A} (hab : key a ≠ key b) (u v : List A) :
    Reorders key (u ++ a :: b :: v) (u ++ b :: a :: v) := by
  refine ⟨.append_left u (.swap b a v), fun k => ?_⟩
  rw [List.filter_append, List.filter_append]
  by_cases ha : key a = k
  · have hb : key b ≠ k := fun hb => hab (ha.trans hb.symm)
    simp [ha, hb]
  · simp [List.filter_cons, ha]

theorem Reorders.trans {l'' : List A} (h : Reorders key l l') (h' : Reorders key l' l'') :
    Reorders key l l'' :=
  ⟨h.perm.trans h'.perm, fun k => (h.order k).trans (h'.order k)⟩

/-- The first element of a list stands in its reordering behind elements with other keys, and the
rest is a reordering of what is left. -/
theorem Reorders.cons_inv {a : A} (h : Reorders key (a :: l) l') :
    ∃ u v, l' = u ++ a :: v ∧ (∀ b ∈ u, key b ≠ key a) ∧ Reorders key l (u ++ v) := by
  have ha := h.order (key a)
  rw [List.filter_cons_of_pos (by simp)] at ha
  obtain ⟨u, v, rfl, hu, -, hv⟩ := List.filter_eq_cons_iff.1 ha.symm
  have hne : ∀ b ∈ u, key b ≠ key a := fun b hb => by simpa using hu b hb
  refine ⟨u, v, rfl, hne, (List.perm_cons a).1 (h.perm.trans List.perm_middle), fun k => ?_⟩
  rw [List.filter_append]
  by_cases hk : key a = k
  · subst hk
    have hnil : u.filter (key · = key a) = [] :=
      List.filter_eq_nil_iff.2 fun b hb => by simpa using hne b hb
    rw [hnil, List.nil_append]
    exact hv.symm
  · have hord := h.order k
    rwa [List.filter_cons_of_neg (by simpa using hk), List.filter_append,
      List.filter_cons_of_neg (by simpa using hk)] at hord

end

section
variable {f : S → A → S} {I : S → Prop} {P : A → Prop}

/-- A step can be moved to the front, past steps with which it commutes. -/
theorem foldl_move_front (hI : ∀ {s a}, I s → P a → I (f s a))
    (hcomm : ∀ {s a b}, I s → P a → P b → key a ≠ key b → f (f s a) b = f (f s b) a)
    {a : A} (ha : P a) {u : List A} (hu : ∀ b ∈ u, P b) (hne : ∀ b ∈ u, key b ≠ key a)
    (v : List A) {s : S} (hs : I s) : (u ++ a :: v).foldl f s = (u ++ v).foldl f (f s a) := by
  induction u generalizing s with
  | nil => rfl
  | cons b u ih =>
    obtain ⟨hb, hu⟩ := List.forall_mem_cons.1 hu
    obtain ⟨hba, hne⟩ := List.forall_mem_cons.1 hne
    calc (b :: u ++ a :: v).foldl f s = (u ++ a :: v).foldl f (f s b) := rfl
      _ = (u ++ v).foldl f (f (f s b) a) := ih hu hne (hI hs hb)
      _ = (u ++ v).foldl f (f (f s a) b) := by rw [hcomm hs hb ha hba]
      _ = (b :: u ++ v).foldl f (f s a) := rfl

/-- **Reordered steps lead to the same state**, if steps with different keys commute. -/
theorem Reorders.foldl_eq [DecidableEq K] {l l' : List A} (hI : ∀ {s a}, I s → P a → I (f s a))
    (hcomm : ∀ {s a b}, I s → P a → P b → key a ≠ key b → f (f s a) b = f (f s b) a)
    (h : Reorders key l l') (hl : ∀ a ∈ l, P a) {s : S} (hs : I s) :
    l.foldl f s = l'.foldl f s := by
  induction l generalizing l' s with
  | nil => rw [h.perm.nil_eq]
  | cons a l ih =>
    obtain ⟨u, v, rfl, hne, hrest⟩ := h.cons_inv
    obtain ⟨ha, hl⟩ := List.forall_mem_cons.1 hl
    have hu : ∀ b ∈ u, P b := fun b hb =>
      hl b (hrest.perm.mem_iff.2 (List.mem_append_left v hb))
    rw [foldl_move_front hI hcomm ha hu hne v hs]
    exact ih hrest hl (hI hs ha)

end

end EventSphere
