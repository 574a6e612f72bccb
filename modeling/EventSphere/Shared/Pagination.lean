import EventSphere.Base.Paging
import Mathlib.Algebra.Order.Ring.Int

/-!
# Offset/limit pagination

`PaginationParams` and `Page` (`services/shared/pagination.py`): a page of a listing is cut out of
the rows by `LIMIT` and `OFFSET`, and the number of pages is computed from a separate count. The two
agree: the pages are the pieces of `Paging.page`, and there are `Paging.pages` of them.
-/

namespace EventSphere

/-- Reference: `PaginationParams` (`pagination.py:17`). -/
structure PaginationParams where
  page : ℤ := 1
  pageSize : ℤ := 20
  deriving DecidableEq, Repr

namespace PaginationParams

/-- The bounds of the fields. -/
def Valid (params : PaginationParams) : Prop :=
  1 ≤ params.page ∧ 1 ≤ params.pageSize ∧ params.pageSize ≤ 100

def limit (params : PaginationParams) : ℤ := params.pageSize

def offset (params : PaginationParams) : ℤ := (params.page - 1) * params.pageSize

/-- The default page is a valid one. -/
theorem valid_default : Valid {} := ⟨by decide, by decide, by decide⟩

end PaginationParams

/-- Reference: `Page` (`pagination.py:30`). -/
structure Page (α : Type) where
  items : List α
  total : ℤ
  page : ℤ
  pageSize : ℤ
  deriving DecidableEq, Repr

namespace Page

variable {α : Type}

/-- Reference: `total_pages` (`pagination.py:37`). -/
def totalPages (page : Page α) : ℤ :=
  if page.pageSize ≤ 0 then 0 else (page.total + page.pageSize - 1).fdiv page.pageSize

/-- Reference: `create` (`pagination.py:43`). -/
def create (items : List α) (total : ℤ) (params : PaginationParams) : Page α :=
  ⟨items, total, params.page, params.pageSize⟩

end Page

variable {α : Type}

/-- `LIMIT` and `OFFSET` of a query, on its rows in their order. -/
def limitOffset (rows : List α) (limit offset : ℤ) : List α :=
  (rows.drop offset.toNat).take limit.toNat

/-- The page of a listing whose rows are `rows`. -/
def paginate (rows : List α) (params : PaginationParams) : Page α :=
  .create (limitOffset rows params.limit params.offset) rows.length params

section
variable {pageSize : ℤ} (hsize : 1 ≤ pageSize)
include hsize

/-- A page is a piece of the rows. -/
theorem limitOffset_eq_page (rows : List α) (i : ℕ) :
    limitOffset rows (PaginationParams.limit ⟨i + 1, pageSize⟩)
      (PaginationParams.offset ⟨i + 1, pageSize⟩) = Paging.page rows pageSize.toNat i := by
  obtain ⟨size, rfl⟩ := Int.eq_ofNat_of_zero_le (show 0 ≤ pageSize by omega)
  have hoffset : PaginationParams.offset ⟨i + 1, size⟩ = ((i * size : ℕ) : ℤ) := by
    simp [PaginationParams.offset]
  rw [hoffset]
  rfl

/-- The number of pages. -/
theorem totalPages_eq_pages (rows : List α) (page : ℤ) :
    (paginate rows ⟨page, pageSize⟩).totalPages = Paging.pages rows.length pageSize.toNat := by
  obtain ⟨size, rfl⟩ := Int.eq_ofNat_of_zero_le (show 0 ≤ pageSize by omega)
  have hround : ((rows.length + size - 1 : ℕ) : ℤ) = rows.length + size - 1 := by omega
  show (if (size : ℤ) ≤ 0 then 0 else ((rows.length : ℤ) + size - 1).fdiv size) = _
  rw [if_neg (by omega), Int.fdiv_eq_ediv_of_nonneg _ (by omega), Paging.pages, Int.toNat_natCast,
    Int.natCast_div, hround]

end

/-- **The pages of a listing tile its rows**: one after the other they are the rows, each up to the
last one has a row, each before the last one is full, and pages after the last one are empty. -/
theorem pages_tile (rows : List α) {pageSize : ℤ} (hsize : 1 ≤ pageSize) :
    (∀ page, (List.range (paginate rows ⟨page, pageSize⟩).totalPages.toNat).flatMap
      (fun i : ℕ => (paginate rows ⟨i + 1, pageSize⟩).items) = rows) ∧
    ∀ page, 1 ≤ page →
      (page ≤ (paginate rows ⟨page, pageSize⟩).totalPages →
        (paginate rows ⟨page, pageSize⟩).items ≠ []) ∧
      (page < (paginate rows ⟨page, pageSize⟩).totalPages →
        ((paginate rows ⟨page, pageSize⟩).items.length : ℤ) = pageSize) ∧
      ((paginate rows ⟨page, pageSize⟩).totalPages < page →
        (paginate rows ⟨page, pageSize⟩).items = []) := by
  have hpos : 0 < pageSize.toNat := by omega
  have hitems (i : ℕ) : (paginate rows ⟨i + 1, pageSize⟩).items =
      Paging.page rows pageSize.toNat i := limitOffset_eq_page hsize rows i
  refine ⟨fun page => ?_, fun page hpage => ?_⟩
  · rw [totalPages_eq_pages hsize, Int.toNat_natCast]
    simp only [hitems]
    exact Paging.flatMap_pages hpos rows
  · obtain ⟨i, rfl⟩ : ∃ i : ℕ, page = i + 1 := ⟨(page - 1).toNat, by omega⟩
    have hlen : (paginate rows ⟨i + 1, pageSize⟩).items.length =
        min pageSize.toNat (rows.length - i * pageSize.toNat) := by
      rw [hitems, Paging.length_page]
    have hlt (j : ℕ) : j < Paging.pages rows.length pageSize.toNat ↔
        j * pageSize.toNat < rows.length := Paging.lt_pages_iff hpos
    rw [totalPages_eq_pages hsize]
    refine ⟨fun hle hnil => ?_, fun hbefore => ?_, fun hafter => ?_⟩
    · have := (hlt i).1 (by omega)
      rw [hnil, List.length_nil] at hlen
      omega
    · have := (hlt (i + 1)).1 (by omega)
      rw [Nat.succ_mul] at this
      omega
    · have := mt (hlt i).2 (by omega)
      exact List.eq_nil_of_length_eq_zero (by omega)

/-- Five rows in pages of two. -/
theorem pages_tile_five :
    (List.range 3).flatMap (fun i : ℕ => (paginate [1, 2, 3, 4, 5] ⟨i + 1, 2⟩).items) =
      [1, 2, 3, 4, 5] :=
  (@pages_tile ℕ [1, 2, 3, 4, 5] 2 (by decide)).1 1

end EventSphere
