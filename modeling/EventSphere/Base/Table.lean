import Mathlib.Algebra.Order.BigOperators.Group.Finset
import Mathlib.Data.Finset.Basic

/-!
# Tables with primary keys

A table is a finite partial map from primary keys to rows, where every row sits under its own key.
The three facts a proof needs of it are how a lookup sees a write (`Table.get_set`), how it sees a
batch of uncommitted writes laid over the committed rows (`Table.get_overlay`), and what either does
to a sum over the rows (`Table.sum_set`, `Table.sum_overlay`). A query's answers are the lists of
the rows that it selects (`Table.Selects`).
-/

namespace EventSphere

/-- A row type whose rows know their primary key. -/
class PrimaryKey (ρ : Type) (κ : outParam Type) where
  pk : ρ → κ

export PrimaryKey (pk)

/-- A finite table of rows. `mem_keys` keeps the key set and the lookup together, `pk_of_get` keeps
every row under its own key. -/
structure Table (ρ : Type) {κ : Type} [PrimaryKey ρ κ] where
  keys : Finset κ
  get : κ → Option ρ
  mem_keys : ∀ k, k ∈ keys ↔ (get k).isSome
  pk_of_get : ∀ {k r}, get k = some r → pk r = k

namespace Table

variable {ρ κ : Type} [PrimaryKey ρ κ]

/-- Tables with the same lookups are the same table. -/
@[ext] theorem ext {t t' : Table ρ} (h : ∀ k, t.get k = t'.get k) : t = t' := by
  obtain ⟨ks, g, hk, _⟩ := t
  obtain ⟨ks', g', hk', _⟩ := t'
  obtain rfl : g = g' := funext h
  obtain rfl : ks = ks' := by
    ext k
    rw [hk k, hk' k]
  rfl

/-- The table without rows. -/
def empty : Table ρ where
  keys := ∅
  get _ := none
  mem_keys _ := by simp
  pk_of_get := nofun

@[simp] theorem get_empty (k : κ) : (empty : Table ρ).get k = none := rfl

@[simp] theorem keys_empty : (empty : Table ρ).keys = ∅ := rfl

instance : Inhabited (Table ρ) := ⟨empty⟩

/-- A key without a row is not a key of the table. -/
theorem get_eq_none {t : Table ρ} {k : κ} : t.get k = none ↔ k ∉ t.keys := by
  rw [t.mem_keys, Option.not_isSome_iff_eq_none]

/-- A key with a row is a key of the table. -/
theorem mem_of_get {t : Table ρ} {k : κ} {r : ρ} (h : t.get k = some r) : k ∈ t.keys := by
  simp [t.mem_keys, h]

/-- A key of the table has a row. -/
theorem exists_get {t : Table ρ} {k : κ} (h : k ∈ t.keys) : ∃ r, t.get k = some r :=
  Option.isSome_iff_exists.1 ((t.mem_keys k).1 h)

/-- Rewrite every row by a function that keeps the keys. -/
def mapRows (t : Table ρ) (f : ρ → ρ) (hf : ∀ r, pk (f r) = pk r) : Table ρ where
  keys := t.keys
  get k := (t.get k).map f
  mem_keys k := by simp [t.mem_keys]
  pk_of_get {k r} h := by
    obtain ⟨r', hr', rfl⟩ := Option.map_eq_some_iff.1 h
    rw [hf, t.pk_of_get hr']

@[simp] theorem get_mapRows (t : Table ρ) (f : ρ → ρ) (hf : ∀ r, pk (f r) = pk r) (k : κ) :
    (t.mapRows f hf).get k = (t.get k).map f := rfl

@[simp] theorem keys_mapRows (t : Table ρ) (f : ρ → ρ) (hf : ∀ r, pk (f r) = pk r) :
    (t.mapRows f hf).keys = t.keys := rfl

@[simp] theorem mapRows_empty (f : ρ → ρ) (hf : ∀ r, pk (f r) = pk r) :
    (empty : Table ρ).mapRows f hf = empty := by
  ext k : 1
  simp

section
variable [DecidableEq κ]

/-- Insert or replace the row under its own key. -/
def set (t : Table ρ) (r : ρ) : Table ρ where
  keys := insert (pk r) t.keys
  get k := if k = pk r then some r else t.get k
  mem_keys k := by
    by_cases h : k = pk r
    · simp [h]
    · simp [h, t.mem_keys]
  pk_of_get {k r'} h := by
    split at h
    · next hk => cases h; exact hk.symm
    · exact t.pk_of_get h

theorem get_set (t : Table ρ) (r : ρ) (k : κ) :
    (t.set r).get k = if k = pk r then some r else t.get k := rfl

@[simp] theorem get_set_self (t : Table ρ) (r : ρ) : (t.set r).get (pk r) = some r := by
  simp [get_set]

@[simp] theorem get_set_of_ne (t : Table ρ) {r : ρ} {k : κ} (h : k ≠ pk r) :
    (t.set r).get k = t.get k := by
  simp [get_set, h]

/-- A row that is there after a write is the one written, or was there before. -/
theorem get_set_inv {t : Table ρ} {r r' : ρ} {k : κ} (h : (t.set r).get k = some r') :
    k = pk r ∧ r' = r ∨ t.get k = some r' := by
  rw [get_set] at h
  split at h
  · next hk => exact .inl ⟨hk, (Option.some.inj h).symm⟩
  · exact .inr h

@[simp] theorem keys_set (t : Table ρ) (r : ρ) : (t.set r).keys = insert (pk r) t.keys := rfl

/-- Writing the row that is there changes nothing. -/
theorem set_of_get {t : Table ρ} {r : ρ} (h : t.get (pk r) = some r) : t.set r = t := by
  ext k : 1
  rw [get_set]
  split
  · next hk => rw [hk, h]
  · rfl

/-- Remove the row under a key. -/
def erase (t : Table ρ) (k : κ) : Table ρ where
  keys := t.keys.erase k
  get k' := if k' = k then none else t.get k'
  mem_keys k' := by
    by_cases h : k' = k
    · simp [h]
    · simp [h, t.mem_keys]
  pk_of_get {k' r} h := by
    split at h
    · cases h
    · exact t.pk_of_get h

theorem get_erase (t : Table ρ) (k k' : κ) :
    (t.erase k).get k' = if k' = k then none else t.get k' := rfl

@[simp] theorem erase_empty (k : κ) : (empty : Table ρ).erase k = empty := by
  ext k' : 1
  simp [get_erase]

/-- The rows of `w` laid over the rows of `t`: what a transaction with the uncommitted writes `w`
sees of the committed table `t`. -/
def overlay (t w : Table ρ) : Table ρ where
  keys := t.keys ∪ w.keys
  get k := (w.get k).or (t.get k)
  mem_keys k := by
    rw [Finset.mem_union, t.mem_keys, w.mem_keys]
    cases w.get k <;> simp
  pk_of_get {k r} h := by
    rcases Option.or_eq_some_iff.1 h with h | ⟨_, h⟩
    · exact w.pk_of_get h
    · exact t.pk_of_get h

theorem get_overlay (t w : Table ρ) (k : κ) : (t.overlay w).get k = (w.get k).or (t.get k) := rfl

@[simp] theorem keys_overlay (t w : Table ρ) : (t.overlay w).keys = t.keys ∪ w.keys := rfl

/-- An overlay shows its own rows. -/
theorem get_overlay_of_get {t w : Table ρ} {k : κ} {r : ρ} (h : w.get k = some r) :
    (t.overlay w).get k = some r := by
  rw [get_overlay, h, Option.some_or]

/-- Where the overlay has no row, the table below shows through. -/
theorem get_overlay_of_notMem {t w : Table ρ} {k : κ} (h : k ∉ w.keys) :
    (t.overlay w).get k = t.get k := by
  rw [get_overlay, get_eq_none.2 h, Option.none_or]

@[simp] theorem overlay_empty (t : Table ρ) : t.overlay empty = t := by
  ext k : 1
  simp [get_overlay]

@[simp] theorem overlay_set (t w : Table ρ) (r : ρ) :
    t.overlay (w.set r) = (t.overlay w).set r := by
  ext k : 1
  by_cases h : k = pk r <;> simp [get_overlay, get_set, h]

theorem overlay_assoc (t w w' : Table ρ) : (t.overlay w).overlay w' = t.overlay (w.overlay w') := by
  ext k : 1
  simp only [get_overlay, Option.or_assoc]

@[simp] theorem mapRows_set (t : Table ρ) (r : ρ) (f : ρ → ρ) (hf : ∀ r, pk (f r) = pk r) :
    (t.set r).mapRows f hf = (t.mapRows f hf).set (f r) := by
  ext k : 1
  by_cases h : k = pk r <;> simp [get_set, h, hf]

end

/-! ## Rows that a query selects -/

/-- The list is the rows of the table that pass the test, each once, in some order. -/
def Selects (t : Table ρ) (p : ρ → Bool) (rows : List ρ) : Prop :=
  rows.Nodup ∧ ∀ r, r ∈ rows ↔ t.get (pk r) = some r ∧ p r = true

/-- Two answers to a query differ in their order only. -/
theorem Selects.perm_iff {t : Table ρ} {p : ρ → Bool} {rows rows' : List ρ}
    (h : t.Selects p rows) : t.Selects p rows' ↔ rows'.Perm rows := by
  constructor
  · intro h'
    rw [List.perm_ext_iff_of_nodup h'.1 h.1]
    exact fun r => (h'.2 r).trans (h.2 r).symm
  · intro hperm
    exact ⟨hperm.nodup_iff.2 h.1, fun r => hperm.mem_iff.trans (h.2 r)⟩

/-- A new row that passes the test is one more row of the answer. -/
theorem Selects.set [DecidableEq κ] {t : Table ρ} {p : ρ → Bool} {rows : List ρ} {r : ρ}
    (h : t.Selects p rows) (hnew : t.get (pk r) = none) (hr : p r = true) :
    (t.set r).Selects p (r :: rows) := by
  have hother {r'} (h' : r' ∈ rows) : pk r' ≠ pk r := by
    intro he
    have hget := ((h.2 r').1 h').1
    rw [he, hnew] at hget
    cases hget
  refine ⟨List.nodup_cons.2 ⟨fun hmem => hother hmem rfl, h.1⟩, fun r' => ?_⟩
  rw [List.mem_cons, get_set]
  constructor
  · rintro (rfl | hmem)
    · exact ⟨if_pos rfl, hr⟩
    · rw [if_neg (hother hmem)]
      exact (h.2 r').1 hmem
  · rintro ⟨hget, hp⟩
    split at hget
    · exact .inl (Option.some.inj hget).symm
    · exact .inr ((h.2 r').2 ⟨hget, hp⟩)

theorem selects_empty (p : ρ → Bool) : (empty : Table ρ).Selects p [] :=
  ⟨List.nodup_nil, fun r => by simp⟩

/-- The rows of the table that pass the test, as a set. -/
def select (t : Table ρ) (p : ρ → Bool) : Finset ρ :=
  t.keys.filterMap (fun k => (t.get k).filter p) fun k k' r hk hk' => by
    have h := (Option.filter_eq_some_iff.1 hk).1
    have h' := (Option.filter_eq_some_iff.1 hk').1
    exact (t.pk_of_get h).symm.trans (t.pk_of_get h')

theorem mem_select {t : Table ρ} {p : ρ → Bool} {r : ρ} :
    r ∈ t.select p ↔ t.get (pk r) = some r ∧ p r = true := by
  simp only [select, Finset.mem_filterMap, Option.filter_eq_some_iff]
  constructor
  · rintro ⟨k, -, h, hp⟩
    rw [t.pk_of_get h]
    exact ⟨h, hp⟩
  · rintro ⟨h, hp⟩
    exact ⟨pk r, mem_of_get h, h, hp⟩

/-- The set of the rows, as a list, is an answer to the query. -/
theorem selects_of_mem_iff {t : Table ρ} {p : ρ → Bool} {rows : List ρ} (hnodup : rows.Nodup)
    (h : ∀ r, r ∈ rows ↔ r ∈ t.select p) : t.Selects p rows :=
  ⟨hnodup, fun r => (h r).trans mem_select⟩

/-! ## Sums over the rows -/

section
variable {M : Type} [AddCommGroup M]

/-- What the row under a key, if there is one, contributes to a sum. -/
def term (t : Table ρ) (f : ρ → M) (k : κ) : M := (t.get k).elim 0 f

theorem term_of_get {t : Table ρ} {k : κ} {r : ρ} (f : ρ → M) (h : t.get k = some r) :
    t.term f k = f r := by
  rw [term, h, Option.elim_some]

theorem term_of_none {t : Table ρ} {k : κ} (f : ρ → M) (h : t.get k = none) : t.term f k = 0 := by
  rw [term, h, Option.elim_none]

/-- The sum of `f` over the rows of the table. -/
def sum (t : Table ρ) (f : ρ → M) : M := ∑ k ∈ t.keys, t.term f k

@[simp] theorem sum_empty (f : ρ → M) : (empty : Table ρ).sum f = 0 := rfl

/-- A sum may range over any larger set of keys: absent rows contribute nothing. -/
theorem sum_eq_of_subset {t : Table ρ} {s : Finset κ} (f : ρ → M) (h : t.keys ⊆ s) :
    t.sum f = ∑ k ∈ s, t.term f k :=
  Finset.sum_subset h fun _ _ hk => term_of_none f (get_eq_none.2 hk)

variable [DecidableEq κ]

/-- What a key contributes after a write. -/
theorem term_set (t : Table ρ) (r : ρ) (f : ρ → M) (k : κ) :
    (t.set r).term f k = if k = pk r then f r else t.term f k := by
  rw [term, get_set]
  split
  · rfl
  · rfl

/-- Laying `w` over `t` replaces, key by key, what `t` contributed by what `w` contributes. -/
theorem sum_overlay (t w : Table ρ) (f : ρ → M) :
    (t.overlay w).sum f = t.sum f + ∑ k ∈ w.keys, (w.term f k - t.term f k) := by
  have hw : ∑ k ∈ w.keys, (w.term f k - t.term f k) =
      ∑ k ∈ t.keys ∪ w.keys, ((t.overlay w).term f k - t.term f k) := by
    rw [← Finset.sum_subset (show w.keys ⊆ t.keys ∪ w.keys from Finset.subset_union_right)]
    · refine Finset.sum_congr rfl fun k hk => ?_
      obtain ⟨r, hr⟩ := exists_get hk
      simp [term, get_overlay, hr]
    · intro k _ hk
      simp [term, get_overlay_of_notMem hk]
  have ht : t.keys ⊆ t.keys ∪ w.keys := Finset.subset_union_left
  rw [hw, Finset.sum_sub_distrib, sum_eq_of_subset f ht, add_sub_cancel]
  rfl

/-- Writing a row replaces what its key contributed. -/
theorem sum_set (t : Table ρ) (r : ρ) (f : ρ → M) :
    (t.set r).sum f = t.sum f + (f r - t.term f (pk r)) := by
  have h := sum_overlay t (empty.set r) f
  rw [overlay_set, overlay_empty] at h
  simpa [term] using h

/-- What a table of row versions adds to a sum depends only on the rows it replaces. -/
theorem sum_overlay_sub {t t' w : Table ρ} {f : ρ → M}
    (h : ∀ k ∈ w.keys, t.get k = t'.get k) :
    (t.overlay w).sum f - t.sum f = (t'.overlay w).sum f - t'.sum f := by
  rw [sum_overlay, sum_overlay, add_sub_cancel_left, add_sub_cancel_left]
  refine Finset.sum_congr rfl fun k hk => ?_
  rw [term, term, term, h k hk]

/-- What a table of row versions adds under one key depends only on the row it replaces. -/
theorem term_overlay_sub {t t' w : Table ρ} {f : ρ → M}
    (h : ∀ k ∈ w.keys, t.get k = t'.get k) (k : κ) :
    (t.overlay w).term f k - t.term f k = (t'.overlay w).term f k - t'.term f k := by
  by_cases hk : k ∈ w.keys
  · obtain ⟨r, hr⟩ := exists_get hk
    rw [term, term, term, term, get_overlay_of_get hr,
      get_overlay_of_get hr, h k hk]
  · rw [term, term, term, term, get_overlay_of_notMem hk,
      get_overlay_of_notMem hk, sub_self, sub_self]

end

section
variable {t : Table ρ} {f : ρ → ℤ} (h : ∀ k r, t.get k = some r → 0 ≤ f r)
include h

theorem term_nonneg (k : κ) : 0 ≤ t.term f k := by
  cases hk : t.get k with
  | none => simp [term, hk]
  | some r => simpa [term, hk] using h k r hk

/-- A sum of non-negative contributions is non-negative. -/
theorem sum_nonneg : 0 ≤ t.sum f := Finset.sum_nonneg fun k _ => term_nonneg h k

/-- A sum of non-negative contributions is at least each of them. -/
theorem le_sum {k : κ} {r : ρ} (hr : t.get k = some r) : f r ≤ t.sum f := by
  rw [← term_of_get f hr]
  exact Finset.single_le_sum (fun k _ => term_nonneg h k) (mem_of_get hr)

end

end Table

end EventSphere
