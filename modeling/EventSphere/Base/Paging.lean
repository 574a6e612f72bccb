import Mathlib.Data.List.Perm.Basic
import Mathlib.Data.List.Sort
import Mathlib.Order.Lattice

/-!
# Pages of a list

The pages of a list are the pieces of one length that follow each other: the first `n` of them are
its first `n * size` elements (`flatMap_page`).

When every page is cut out of the list afresh, and the list is sorted by a key but otherwise in any
order, the pages need not be pieces of one list. They are still the elements, each once, exactly
when no elements of one key lie on both sides of a page's end (`perm_flatMap_page_iff`).
-/

open scoped List

namespace EventSphere.Paging

variable {α : Type}

/-- The page `i` of a list, the first one being page zero. -/
def page (l : List α) (size i : ℕ) : List α := (l.drop (i * size)).take size

/-- The number of pages that are not empty. -/
def pages (total size : ℕ) : ℕ := (total + size - 1) / size

section
variable {l : List α} {size total i : ℕ}

theorem length_page : (page l size i).length = min size (l.length - i * size) := by
  rw [page, List.length_take, List.length_drop]

/-- A page follows the pages before it. -/
theorem take_append_page : l.take (i * size) ++ page l size i = l.take ((i + 1) * size) := by
  rw [page, ← List.take_add, Nat.succ_mul]

/-- **The first pages are the first elements.** -/
theorem flatMap_page (l : List α) (size n : ℕ) :
    (List.range n).flatMap (page l size) = l.take (n * size) := by
  induction n with
  | zero => simp
  | succ n ih =>
    rw [List.range_succ, List.flatMap_append, ih, List.flatMap_singleton, take_append_page]

/-- A page is one of the list's when its first element is. -/
theorem lt_pages_iff (hsize : 0 < size) : i < pages total size ↔ i * size < total := by
  rw [pages, ← Nat.succ_le_iff, Nat.le_div_iff_mul_le hsize, Nat.succ_mul]
  omega

/-- The pages are the whole list. -/
theorem le_pages_mul (hsize : 0 < size) : total ≤ pages total size * size := by
  by_contra h
  exact absurd ((lt_pages_iff hsize).2 (Nat.lt_of_not_le h)) (Nat.lt_irrefl _)

theorem flatMap_pages (hsize : 0 < size) (l : List α) :
    (List.range (pages l.length size)).flatMap (page l size) = l := by
  rw [flatMap_page, List.take_of_length_le (le_pages_mul hsize)]

end

/-! ## Pages of sorted lists -/

section
variable {K : Type} [LinearOrder K] {key : α → K}

/-- The list is in an order that sorting by the key allows. -/
def Sorted (key : α → K) (l : List α) : Prop := l.Pairwise fun x y => key x ≤ key y

instance (key : α → K) (l : List α) : Decidable (Sorted key l) :=
  inferInstanceAs (Decidable (List.Pairwise ..))

/-- Elements of one key lie on both sides of the first `b` places, in every sorted order. -/
def Splits (key : α → K) (l : List α) (b : ℕ) : Prop :=
  ∃ x ∈ l, l.countP (key · < key x) < b ∧ b < l.countP (key · ≤ key x)

instance (key : α → K) (l : List α) (b : ℕ) : Decidable (Splits key l b) :=
  inferInstanceAs (Decidable (∃ x ∈ l, _))

/-- A list has a sorted order. -/
theorem exists_sorted (key : α → K) (l : List α) : ∃ l', l' ~ l ∧ Sorted key l' := by
  refine ⟨l.mergeSort fun x y => key x ≤ key y, List.mergeSort_perm .., ?_⟩
  have := @List.pairwise_mergeSort α (fun x y => key x ≤ key y)
    (fun x y z hxy hyz => by simp only [decide_eq_true_eq] at *; exact hxy.trans hyz)
    (fun x y => by simp only [Bool.or_eq_true, decide_eq_true_eq]; exact le_total _ _) l
  exact this.imp fun h => of_decide_eq_true h

/-- What is before a cut satisfies a test that fails after it. -/
theorem take_eq_filter {p : α → Bool} {l : List α} {b : ℕ} (htake : ∀ x ∈ l.take b, p x = true)
    (hdrop : ∀ x ∈ l.drop b, p x = false) : l.take b = l.filter p := by
  have hl : l.filter p = (l.take b).filter p ++ (l.drop b).filter p := by
    rw [← List.filter_append, List.take_append_drop]
  rw [hl, List.filter_eq_self.2 htake, List.filter_eq_nil_iff.2 (by simpa using hdrop),
    List.append_nil]

section
variable {l l' : List α} {b : ℕ}

/-- Before a cut of a sorted list, fewer elements than are before the cut are below. -/
theorem Sorted.countP_lt (hl : Sorted key l) {x : α} (hx : x ∈ l.take b) :
    l.countP (key · < key x) < b := by
  rw [Sorted, ← List.take_append_drop b l, List.pairwise_append] at hl
  have hdrop : (l.drop b).countP (key · < key x) = 0 := by
    rw [List.countP_eq_zero]
    intro y hy
    simpa using hl.2.2 x hx y hy
  have htake : (l.take b).countP (key · < key x) < (l.take b).length := by
    refine Nat.lt_of_le_of_ne List.countP_le_length fun he => ?_
    simpa using List.countP_eq_length.1 he x hx
  calc l.countP (key · < key x)
      = (l.take b ++ l.drop b).countP (key · < key x) := by rw [List.take_append_drop]
    _ = (l.take b).countP (key · < key x) := by rw [List.countP_append, hdrop, Nat.add_zero]
    _ < (l.take b).length := htake
    _ ≤ b := List.length_take_le ..

/-- After a cut of a sorted list, more elements than are before the cut are not above. -/
theorem Sorted.lt_countP (hl : Sorted key l) {x : α} (hx : x ∈ l.drop b) :
    b < l.countP (key · ≤ key x) := by
  rw [Sorted, ← List.take_append_drop b l, List.pairwise_append] at hl
  have hlen : (l.take b).length = b := by
    have hpos := List.length_pos_of_mem hx
    rw [List.length_drop] at hpos
    rw [List.length_take]
    omega
  have htake : (l.take b).countP (key · ≤ key x) = b := by
    rw [List.countP_eq_length.2 fun y hy => by simpa using hl.2.2 y hy x hx, hlen]
  have hdrop : 0 < (l.drop b).countP (key · ≤ key x) := by
    rw [List.countP_pos_iff]
    exact ⟨x, hx, by simp⟩
  calc b < (l.take b).countP (key · ≤ key x) + (l.drop b).countP (key · ≤ key x) := by omega
    _ = (l.take b ++ l.drop b).countP (key · ≤ key x) := List.countP_append.symm
    _ = l.countP (key · ≤ key x) := by rw [List.take_append_drop]

/-- Where no key is split, the first elements of a sorted list are those with fewer than `b`
elements below them. -/
theorem Sorted.take_eq_filter (hl : Sorted key l) (hb : ¬Splits key l b) :
    l.take b = l.filter fun x => l.countP (key · < key x) < b := by
  refine Paging.take_eq_filter (fun x hx => decide_eq_true (hl.countP_lt hx)) fun x hx => ?_
  refine decide_eq_false fun hlt => hb ⟨x, List.mem_of_mem_drop hx, hlt, hl.lt_countP hx⟩

/-- Which keys are split does not depend on the order. -/
theorem splits_perm (hperm : l' ~ l) : Splits key l' b ↔ Splits key l b := by
  simp only [Splits, hperm.countP_eq, hperm.mem_iff]

/-- Where no key is split, all sorted orders have the same first elements. -/
theorem Sorted.perm_take (hl : Sorted key l) (hl' : Sorted key l') (hperm : l' ~ l)
    (hb : ¬Splits key l b) : l'.take b ~ l.take b := by
  rw [hl.take_eq_filter hb, hl'.take_eq_filter (mt (splits_perm hperm).1 hb)]
  simp only [hperm.countP_eq]
  exact hperm.filter _

/-- A list is split in front of two neighbours. -/
theorem exists_split (h0 : 0 < b) (hb : b < l.length) :
    ∃ as x y bs, l = as ++ x :: y :: bs ∧ as.length + 1 = b := by
  obtain ⟨b, rfl⟩ : ∃ b', b = b' + 1 := ⟨b - 1, by omega⟩
  refine ⟨l.take b, l[b], l[b + 1], l.drop (b + 2), ?_, ?_⟩
  · rw [← List.drop_eq_getElem_cons, ← List.drop_eq_getElem_cons, List.take_append_drop]
  · rw [List.length_take]
    omega

/-- A split key has two elements that are neighbours in a sorted list, one on each side of the
cut. -/
theorem Sorted.exists_neighbours (hl : Sorted key l) (hb : Splits key l b) :
    ∃ as x y bs, l = as ++ x :: y :: bs ∧ as.length + 1 = b ∧ key x = key y := by
  obtain ⟨r, -, hlow, hhigh⟩ := hb
  obtain ⟨as, x, y, bs, rfl, rfl⟩ :=
    exists_split (by omega) (Nat.lt_of_lt_of_le hhigh List.countP_le_length)
  refine ⟨as, x, y, bs, rfl, rfl, ?_⟩
  have htake : (as ++ x :: y :: bs).take (as.length + 1) = as ++ [x] := by
    rw [List.take_length_add_append]
    rfl
  have hdrop : (as ++ x :: y :: bs).drop (as.length + 1) = y :: bs := by
    rw [List.drop_length_add_append]
    rfl
  obtain ⟨-, hxy, hcross⟩ := List.pairwise_append.1 hl
  obtain ⟨hx, hbs⟩ := List.pairwise_cons.1 hxy
  obtain ⟨hy, -⟩ := List.pairwise_cons.1 hbs
  -- not all elements up to `x` are below the key, and not all from `y` on are above it
  have hrx : key r ≤ key x := by
    by_contra hlt
    rw [not_le] at hlt
    have hall : (as ++ [x]).countP (key · < key r) = (as ++ [x]).length := by
      rw [List.countP_eq_length]
      intro z hz
      rcases List.mem_append.1 hz with hz | hz
      · exact decide_eq_true ((hcross z hz x (.head _)).trans_lt hlt)
      · rw [List.mem_singleton.1 hz]
        exact decide_eq_true hlt
    rw [← List.take_append_drop (as.length + 1) (as ++ x :: y :: bs), htake, List.countP_append,
      hall, List.length_append] at hlow
    simp only [List.length_singleton] at hlow
    omega
  have hyr : key y ≤ key r := by
    by_contra hlt
    rw [not_le] at hlt
    have hnone : (y :: bs).countP (key · ≤ key r) = 0 := by
      rw [List.countP_eq_zero]
      intro z hz
      rcases List.mem_cons.1 hz with rfl | hz
      · simpa using hlt
      · simpa using hlt.trans_le (hy z hz)
    have hle : (as ++ [x]).countP (key · ≤ key r) ≤ as.length + 1 := by
      simpa using List.countP_le_length (p := (key · ≤ key r)) (l := as ++ [x])
    rw [← List.take_append_drop (as.length + 1) (as ++ x :: y :: bs), htake, hdrop,
      List.countP_append, hnone] at hhigh
    omega
  exact le_antisymm (hx y (.head _)) (hyr.trans hrx)

/-- Neighbours of one key can change places. -/
theorem Sorted.swap {as bs : List α} {x y : α} (hl : Sorted key (as ++ x :: y :: bs))
    (he : key x = key y) : Sorted key (as ++ y :: x :: bs) := by
  simp only [Sorted, List.pairwise_append, List.pairwise_cons, List.mem_cons] at hl ⊢
  obtain ⟨has, ⟨hx, hy, hbs⟩, hcross⟩ := hl
  refine ⟨has, ⟨?_, fun z hz => hx z (.inr hz), hbs⟩, ?_⟩
  · rintro z (rfl | hz)
    · exact he.ge
    · exact hy z hz
  · rintro z hz w (rfl | rfl | hw)
    · exact hcross z hz _ (.inr (.inl rfl))
    · exact hcross z hz _ (.inl rfl)
    · exact hcross z hz w (.inr (.inr hw))

/-- The elements of a page. -/
theorem mem_page {size i k : ℕ} {x : α} (hk : k < size) (h : l[i * size + k]? = some x) :
    x ∈ page l size i := by
  refine List.mem_of_getElem? (i := k) ?_
  rw [page, List.getElem?_take_of_lt hk, List.getElem?_drop, h]

/-- The orders chosen for the pages. -/
def Orders (key : α → K) (l : List α) (order : ℕ → List α) : Prop :=
  ∀ i, order i ~ l ∧ Sorted key (order i)

/-- The first pages of orders chosen page by page are the first elements of any of them, when no
page's end splits a key. -/
theorem perm_flatMap_page {order : ℕ → List α} {size : ℕ} (hl : Sorted key l)
    (horder : Orders key l order) (hsplits : ∀ i, ¬Splits key l (i * size)) (n : ℕ) :
    (List.range n).flatMap (fun i => page (order i) size i) ~ l.take (n * size) := by
  induction n with
  | zero => simp
  | succ n ih =>
    obtain ⟨hperm, hsorted⟩ := horder n
    rw [List.range_succ, List.flatMap_append, List.flatMap_singleton]
    calc (List.range n).flatMap (fun i => page (order i) size i) ++ page (order n) size n
        ~ l.take (n * size) ++ page (order n) size n := ih.append_right _
      _ ~ (order n).take (n * size) ++ page (order n) size n :=
          (hl.perm_take hsorted hperm (hsplits n)).symm.append_right _
      _ = (order n).take ((n + 1) * size) := take_append_page
      _ ~ l.take ((n + 1) * size) := hl.perm_take hsorted hperm (hsplits (n + 1))

/-- A page that ends between two elements of one key shows the second of them, and the next page may
show it again, out of an order with the two exchanged. -/
theorem exists_repeat {size i : ℕ} (hsize : 0 < size) (hsplits : Splits key l (i * size)) :
    ∃ order, Orders key l order ∧ ∃ j x, j < i ∧ i < pages l.length size ∧
      x ∈ page (order j) size j ∧ x ∈ page (order i) size i := by
  obtain ⟨l₀, hperm, hl₀⟩ := exists_sorted key l
  obtain ⟨as, x, y, bs, rfl, hb, he⟩ := hl₀.exists_neighbours ((splits_perm hperm).2 hsplits)
  have hswap : as ++ y :: x :: bs ~ as ++ x :: y :: bs := (List.Perm.swap x y bs).append_left as
  obtain ⟨j, rfl⟩ : ∃ j, i = j + 1 := by
    cases i with
    | zero => rw [Nat.zero_mul] at hb; omega
    | succ j => exact ⟨j, rfl⟩
  rw [Nat.succ_mul] at hb
  refine ⟨fun i => if i = j then as ++ x :: y :: bs else as ++ y :: x :: bs, fun i => ?_, j, x,
    Nat.lt_succ_self j, ?_, ?_, ?_⟩
  · simp only
    split
    · exact ⟨hperm, hl₀⟩
    · exact ⟨hswap.trans hperm, hl₀.swap he⟩
  · rw [lt_pages_iff hsize, ← hperm.length_eq, Nat.succ_mul]
    simp only [List.length_append, List.length_cons]
    omega
  · simp only [if_true]
    refine mem_page (k := size - 1) (by omega) ?_
    rw [show j * size + (size - 1) = as.length by omega]
    simp
  · simp only [Nat.succ_ne_self, if_false]
    refine mem_page (k := 0) hsize ?_
    rw [show (j + 1) * size + 0 = as.length + 1 by rw [Nat.succ_mul]; omega]
    simp

/-- **Pages of orders chosen page by page** are the elements, each once, whatever the choices,
exactly when no page's end splits a key. -/
theorem perm_flatMap_page_iff {size : ℕ} (hnodup : l.Nodup) (hsize : 0 < size) :
    (∀ order, Orders key l order →
      (List.range (pages l.length size)).flatMap (fun i => page (order i) size i) ~ l) ↔
    ∀ i, ¬Splits key l (i * size) := by
  constructor
  · intro h i hsplits
    obtain ⟨order, horder, j, x, hji, hi, hxj, hxi⟩ := exists_repeat hsize hsplits
    have hpages := (h order horder).nodup_iff.2 hnodup
    have hdisjoint := List.pairwise_iff_getElem.1 (List.nodup_flatMap.1 hpages).2 j i
      (by simp; omega)
      (by simpa using hi) hji
    simp only [List.getElem_range] at hdisjoint
    exact hdisjoint hxj hxi
  · intro hsplits order horder
    obtain ⟨l₀, hperm, hl₀⟩ := exists_sorted key l
    have horder₀ : Orders key l₀ order :=
      fun i => ⟨(horder i).1.trans hperm.symm, (horder i).2⟩
    have hpages := perm_flatMap_page hl₀ horder₀ (fun i => mt (splits_perm hperm).1 (hsplits i))
      (pages l.length size)
    rw [List.take_of_length_le (hperm.length_eq ▸ le_pages_mul hsize)] at hpages
    exact hpages.trans hperm

end

end

end EventSphere.Paging
