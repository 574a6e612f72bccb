import EventSphere.Api.EventService
import EventSphere.Api.Registration
import EventSphere.Base.Like
import EventSphere.Shared.Pagination

/-!
# Searching events and listing orders

`EventRepository.search` (`event_repository.py:26`) and `OrderRepository.list_for_user`
(`order_repository.py:22`), whose pages are the listings of the API. Every page is a query of its
own: the database sorts the matching rows by a time, rows with equal times in any order, and the
order may be another one for the next page.

`listings_complete_iff` says when the pages of a listing are the matching rows all the same, and
`search_substring_iff` for which texts the search is the one that its schema describes.
-/

namespace EventSphere.Api

/-! ## Filters -/

/-- Reference: `EventSearchParams` (`schemas/event.py:42`). -/
structure EventSearchParams where
  q : Option String := none
  venue : Option String := none
  startsAfter : Option Instant := none
  startsBefore : Option Instant := none
  deriving DecidableEq, Repr

/-- A column that is filtered by `ilike(f"%{text}%")`, unless the text is unset or empty. -/
def ilikeFilter (φ : Like.Folding) (column : String) : Option String → Bool
  | none => true
  | some text => text = "" ∨ Like.like φ.fold s!"%{text}%".toList column.toList = some true

/-- Reference: `_apply_filters` (`event_repository.py:15`). -/
def applyFilters (φ : Like.Folding) (params : EventSearchParams) (event : EventRow) : Bool :=
  ilikeFilter φ event.title params.q && ilikeFilter φ event.venue params.venue &&
    params.startsAfter.all (· ≤ event.startsAt) && params.startsBefore.all (event.startsAt ≤ ·)

/-- The database takes the values of the query: its texts have no NUL character, and its times can
be sent. -/
structure EventSearchParams.Sendable (params : EventSearchParams) : Prop where
  q : ∀ text ∈ params.q, nul ∉ text.toList
  venue : ∀ text ∈ params.venue, nul ∉ text.toList
  startsAfter : ∀ t ∈ params.startsAfter, FitsTimestamp t
  startsBefore : ∀ t ∈ params.startsBefore, FitsTimestamp t

instance (params : EventSearchParams) : Decidable params.Sendable :=
  decidable_of_iff ((∀ text ∈ params.q, nul ∉ text.toList) ∧
      (∀ text ∈ params.venue, nul ∉ text.toList) ∧
      (∀ t ∈ params.startsAfter, FitsTimestamp t) ∧ ∀ t ∈ params.startsBefore, FitsTimestamp t)
    ⟨fun ⟨hq, hvenue, hafter, hbefore⟩ => ⟨hq, hvenue, hafter, hbefore⟩,
      fun ⟨hq, hvenue, hafter, hbefore⟩ => ⟨hq, hvenue, hafter, hbefore⟩⟩

/-! ## Listings -/

/-- Reference: `search` (`event_repository.py:26`); `rows` is the order that the database gives the
matching rows. -/
def searchEvents (params : EventSearchParams) (rows : List EventRow) (limit offset : ℤ) :
    Except EventError (List EventRow × ℤ) :=
  if params.Sendable then .ok (limitOffset rows limit offset, rows.length) else .error .dataError

/-- Reference: `EventService.search` (`event_service.py:45`). -/
def eventSearch (params : EventSearchParams) (pagination : PaginationParams)
    (rows : List EventRow) :
    Except EventError (Page EventRow) := do
  let (items, total) ← searchEvents params rows pagination.limit pagination.offset
  return .create items total pagination

/-- The orders in which the database may give the rows of a search. -/
def SearchOrder (φ : Like.Folding) (events : Table EventRow) (params : EventSearchParams)
    (rows : List EventRow) : Prop :=
  events.Selects (applyFilters φ params) rows ∧ Paging.Sorted EventRow.startsAt rows

/-- A row of the `orders` table, with the moments it was created and updated. Reference: `Order`
(`order.py:16`), `TimestampMixin` (`base.py:28`). -/
structure OrderRow extends Order where
  createdAt : Instant
  updatedAt : Instant
  deriving DecidableEq, Repr

instance : PrimaryKey OrderRow UUID := ⟨fun o => o.id⟩

/-- Reference: `list_for_user` (`order_repository.py:22`). -/
def listForUser (rows : List OrderRow) (limit offset : ℤ) : List OrderRow × ℤ :=
  (limitOffset rows limit offset, rows.length)

/-- Reference: `list_orders` (`booking_service.py:107`). -/
def listOrders (pagination : PaginationParams) (rows : List OrderRow) : Page OrderRow :=
  let (items, total) := listForUser rows pagination.limit pagination.offset
  .create items total pagination

/-- The orders in which the database may give the rows of a user, the latest first. -/
def ListOrder (orders : Table OrderRow) (user : UUID) (rows : List OrderRow) : Prop :=
  orders.Selects (fun o => o.userId = user) rows ∧
    Paging.Sorted (fun o => OrderDual.toDual o.createdAt) rows

/-- A database that orders the rows of a listing by what they are. -/
structure ListingOrder where
  order : Finset OrderRow → List OrderRow
  nodup : ∀ s, (order s).Nodup
  mem_order : ∀ {s o}, o ∈ order s ↔ o ∈ s
  sorted : ∀ s, Paging.Sorted (fun o => OrderDual.toDual o.createdAt) (order s)

/-- The rows of a user, as such a database gives them. -/
def ListingOrder.rows (db : ListingOrder) (orders : Table OrderRow) (user : UUID) : List OrderRow :=
  db.order (orders.select fun o => o.userId = user)

/-- Such a database gives the rows in one of the orders that it may give them in. -/
theorem ListingOrder.listOrder (db : ListingOrder) (orders : Table OrderRow) (user : UUID) :
    ListOrder orders user (db.rows orders user) :=
  ⟨Table.selects_of_mem_iff (db.nodup _) fun _ => db.mem_order, db.sorted _⟩

/-- The pages of a listing, up to the last one that the first of them announces. -/
def walk {α : Type} (pages : ℕ → Page α) : List α :=
  (List.range (pages 0).totalPages.toNat).flatMap fun i => (pages i).items

/-! ## Pages and rows -/

/-- A listing whose pages are cut out of `order 0`, `order 1`, and so on. -/
theorem walk_paginate {α : Type} {pageSize : ℤ} (hsize : 1 ≤ pageSize) (order : ℕ → List α) :
    walk (fun i => paginate (order i) ⟨i + 1, pageSize⟩) =
      (List.range (Paging.pages (order 0).length pageSize.toNat)).flatMap fun i =>
        Paging.page (order i) pageSize.toNat i := by
  rw [walk, totalPages_eq_pages hsize, Int.toNat_natCast]
  exact congrArg (List.flatMap · _) (funext fun i => limitOffset_eq_page hsize (order i) i)

/-- The pages of a listing are the rows that it selects, in every order that sorting allows and that
may change from page to page, exactly when no page ends between rows of one key. -/
theorem selects_walk_iff {ρ κ K : Type} [PrimaryKey ρ κ] [LinearOrder K] {t : Table ρ}
    {p : ρ → Bool} {key : ρ → K} {rows : List ρ} (hrows : t.Selects p rows) {pageSize : ℤ}
    (hsize : 1 ≤ pageSize) :
    (∀ order : ℕ → List ρ, (∀ i, t.Selects p (order i) ∧ Paging.Sorted key (order i)) →
      t.Selects p (walk fun i => paginate (order i) ⟨i + 1, pageSize⟩)) ↔
    ∀ i, ¬Paging.Splits key rows (i * pageSize.toNat) := by
  rw [← Paging.perm_flatMap_page_iff hrows.1 (by omega)]
  refine forall_congr' fun order => ?_
  have horder : (∀ i, t.Selects p (order i) ∧ Paging.Sorted key (order i)) ↔
      Paging.Orders key rows order :=
    forall_congr' fun i => and_congr_left fun _ => hrows.perm_iff
  rw [horder]
  refine forall_congr' fun ho => ?_
  rw [hrows.perm_iff, walk_paginate hsize, (ho 0).1.length_eq]

/-- An accepted search answers with a page of the rows. -/
theorem eventSearch_eq {params : EventSearchParams} (h : params.Sendable)
    (pagination : PaginationParams) (rows : List EventRow) :
    eventSearch params pagination rows = .ok (paginate rows pagination) := by
  simp only [eventSearch, searchEvents, if_pos h]
  rfl

/-- The pages of a search are the matching events exactly when the database takes its values and no
page ends between events that start at the same time. -/
theorem search_complete_iff (φ : Like.Folding) {events : Table EventRow}
    {params : EventSearchParams} {rows : List EventRow}
    (hrows : events.Selects (applyFilters φ params) rows) {pageSize : ℤ} (hsize : 1 ≤ pageSize) :
    (∀ order : ℕ → List EventRow, (∀ i, SearchOrder φ events params (order i)) →
      ∃ pages : ℕ → Page EventRow,
        (∀ i : ℕ, eventSearch params ⟨i + 1, pageSize⟩ (order i) = .ok (pages i)) ∧
        events.Selects (applyFilters φ params) (walk pages)) ↔
    params.Sendable ∧ ∀ i, ¬Paging.Splits EventRow.startsAt rows (i * pageSize.toNat) := by
  rw [← selects_walk_iff hrows hsize]
  by_cases hs : params.Sendable
  · simp only [hs, true_and, eventSearch_eq, Except.ok.injEq]
    refine forall_congr' fun order => forall_congr' fun _ => ⟨?_, fun h => ⟨_, fun i => rfl, h⟩⟩
    rintro ⟨pages, hpages, h⟩
    rwa [← funext hpages] at h
  · refine iff_of_false (fun h => ?_) fun h => hs h.1
    obtain ⟨l, hperm, hl⟩ := Paging.exists_sorted EventRow.startsAt rows
    obtain ⟨pages, hpages, -⟩ := h (fun _ => l) fun _ => ⟨hrows.perm_iff.2 hperm, hl⟩
    have := hpages 0
    simp only [eventSearch, searchEvents, if_neg hs] at this
    cases this

/-- **The pages of a listing are the matching rows**, each once, whatever the database does with
rows of equal times, exactly when no page ends between such rows (and, for a search, the database
takes its texts). -/
theorem listings_complete_iff (φ : Like.Folding) (events : Table EventRow)
    (params : EventSearchParams) (orders : Table OrderRow) (user : UUID) {found : List EventRow}
    (hfound : events.Selects (applyFilters φ params) found) {own : List OrderRow}
    (hown : orders.Selects (fun o => o.userId = user) own) {pageSize : ℤ} (hsize : 1 ≤ pageSize) :
    ((∀ order : ℕ → List EventRow, (∀ i, SearchOrder φ events params (order i)) →
      ∃ pages : ℕ → Page EventRow,
        (∀ i : ℕ, eventSearch params ⟨i + 1, pageSize⟩ (order i) = .ok (pages i)) ∧
        events.Selects (applyFilters φ params) (walk pages)) ↔
      params.Sendable ∧ ∀ i, ¬Paging.Splits EventRow.startsAt found (i * pageSize.toNat)) ∧
    ((∀ order : ℕ → List OrderRow, (∀ i, ListOrder orders user (order i)) →
      orders.Selects (fun o => o.userId = user)
        (walk fun i => listOrders ⟨i + 1, pageSize⟩ (order i))) ↔
      ∀ i, ¬Paging.Splits (fun o => OrderDual.toDual o.createdAt) own (i * pageSize.toNat)) :=
  ⟨search_complete_iff φ hfound hsize, selects_walk_iff hown hsize⟩

/-- The folding of the letters of ASCII. -/
def asciiFolding : Like.Folding where
  fold := Char.toLower
  fold_meta {c m} hm := by
    have hlower : m.toLower = m ∧ m.isLower = false := by
      simp only [Like.metacharacters, List.mem_cons, List.not_mem_nil, or_false] at hm
      rcases hm with rfl | rfl | rfl <;> exact ⟨rfl, rfl⟩
    rw [hlower.1]
    refine ⟨fun h => ?_, fun h => h ▸ hlower.1⟩
    -- a letter folds to a letter
    have halpha : c.isAlpha = false := by
      rw [← Char.isLower_toLower_eq_isAlpha, h, hlower.2]
    rw [Char.isAlpha, Bool.or_eq_false_iff] at halpha
    rw [← h, Char.toLower_eq_of_not_isUpper (by simp [halpha.1])]

/-- A concert at the given time. -/
private def concert (id : UUID) (title : String) : EventRow :=
  { id, title, description := none, venue := "Hall", startsAt := 0, totalSeats := 10,
    priceCents := 5, organizerId := ⟨9⟩ }

/-- Two events that start at the same time. -/
private def sameStart : Table EventRow := (Table.empty.set (concert ⟨2⟩ "B")).set (concert ⟨1⟩ "A")

private theorem selects_sameStart :
    sameStart.Selects (applyFilters asciiFolding {}) [concert ⟨1⟩ "A", concert ⟨2⟩ "B"] :=
  ((Table.selects_empty _).set rfl rfl).set rfl rfl

/-- One page shows both events. -/
theorem listings_complete_two : ∃ pages : ℕ → Page EventRow,
    (∀ i : ℕ, eventSearch {} ⟨i + 1, 2⟩ [concert ⟨1⟩ "A", concert ⟨2⟩ "B"] = .ok (pages i)) ∧
    sameStart.Selects (applyFilters asciiFolding {}) (walk pages) := by
  have hsorted : Paging.Sorted EventRow.startsAt [concert ⟨1⟩ "A", concert ⟨2⟩ "B"] := by decide
  refine (listings_complete_iff asciiFolding sameStart {} Table.empty ⟨7⟩ selects_sameStart
    (Table.selects_empty _) (by decide)).1.2 ⟨by decide, ?_⟩ _ fun _ => ⟨selects_sameStart, hsorted⟩
  rintro i ⟨x, -, hlow, hhigh⟩
  change _ < i * 2 at hlow
  change i * 2 < _ at hhigh
  have hlen := hhigh.trans_le List.countP_le_length
  simp only [List.length_cons, List.length_nil] at hlen
  omega

/-- Two pages of one event each may show one of them twice. -/
theorem listing_repeats :
    ¬∀ order : ℕ → List EventRow, (∀ i, SearchOrder asciiFolding sameStart {} (order i)) →
      ∃ pages : ℕ → Page EventRow,
        (∀ i : ℕ, eventSearch {} ⟨i + 1, 1⟩ (order i) = .ok (pages i)) ∧
        sameStart.Selects (applyFilters asciiFolding {}) (walk pages) := by
  intro h
  let order (i : ℕ) : List EventRow :=
    if i = 0 then [concert ⟨1⟩ "A", concert ⟨2⟩ "B"] else [concert ⟨2⟩ "B", concert ⟨1⟩ "A"]
  have horder (i : ℕ) : SearchOrder asciiFolding sameStart {} (order i) := by
    by_cases hi : i = 0
    · have hsorted : Paging.Sorted EventRow.startsAt [concert ⟨1⟩ "A", concert ⟨2⟩ "B"] := by decide
      simp only [order, if_pos hi]
      exact ⟨selects_sameStart, hsorted⟩
    · have hsorted : Paging.Sorted EventRow.startsAt [concert ⟨2⟩ "B", concert ⟨1⟩ "A"] := by decide
      simp only [order, if_neg hi]
      exact ⟨selects_sameStart.perm_iff.2 (List.Perm.swap ..), hsorted⟩
  obtain ⟨pages, hpages, hnodup, -⟩ := h order horder
  have heq : pages = fun i : ℕ => paginate (order i) ⟨i + 1, 1⟩ := by
    funext i
    have := hpages i
    rw [eventSearch_eq (by decide)] at this
    exact (Except.ok.inj this).symm
  rw [heq] at hnodup
  exact absurd hnodup (by decide)

/-! ## Substrings -/

section
variable {φ : Like.Folding} {q : String}

/-- The text occurs in the column, up to the folding. -/
def Occurs (φ : Like.Folding) (text column : String) : Prop :=
  text.toList.map φ.fold <:+: column.toList.map φ.fold

instance (φ : Like.Folding) (text column : String) : Decidable (Occurs φ text column) :=
  inferInstanceAs (Decidable (_ <:+: _))

/-- The text has no character with a meaning in a pattern. -/
def Plain (text : String) : Prop := ∀ c ∈ text.toList, c ∉ Like.metacharacters

instance (text : String) : Decidable (Plain text) :=
  inferInstanceAs (Decidable (∀ c ∈ _, _))

/-- A filter by a text that is not empty. -/
theorem ilikeFilter_some (hq : q ≠ "") (column : String) :
    ilikeFilter φ column (some q) = true ↔
      Like.like φ.fold ('%' :: (q.toList ++ ['%'])) column.toList = some true := by
  have hpattern : s!"%{q}%".toList = '%' :: (q.toList ++ ['%']) := by
    show ("%" ++ q ++ "%").toList = _
    simp
  rw [← hpattern]
  simp [ilikeFilter, hq]

/-- A filter by a plain text is the test whether it occurs. -/
theorem ilikeFilter_iff_occurs (hq : q ≠ "") (hplain : Plain q) (column : String) :
    ilikeFilter φ column (some q) = true ↔ Occurs φ q column := by
  rw [ilikeFilter_some hq, Like.like_contains φ.fold hplain]
  rfl

/-- A filter by another text accepts a text in which it does not occur, and which is a title or a
venue if it is short enough. -/
theorem exists_ilikeFilter (φ : Like.Folding) (hplain : ¬Plain q) :
    ∃ column ≠ "", ilikeFilter φ column (some q) = true ∧ ¬Occurs φ q column ∧
      (FitsString q → FitsString column) := by
  simp only [Plain, not_forall, not_not] at hplain
  obtain ⟨c, hc, hmeta⟩ := hplain
  obtain ⟨t, ht, hlike, hnot, hlen, hchars⟩ := Like.exists_like φ ⟨c, hc, hmeta⟩
  have hq : q ≠ "" := by
    rintro rfl
    cases hc
  have hlist : (String.ofList t).toList = t := String.toList_ofList
  refine ⟨String.ofList t, ?_, ?_, ?_, fun hfits => ⟨?_, ?_⟩⟩
  · intro he
    rw [he] at hlist
    exact ht hlist.symm
  · rw [ilikeFilter_some hq, hlist]
    exact hlike
  · rw [Occurs, hlist]
    exact hnot
  · rw [← String.length_toList, hlist]
    exact hlen.trans (String.length_toList (s := q) ▸ hfits.1)
  · rw [hlist]
    intro hnul
    rcases hchars nul hnul with h | h | h
    · exact hfits.2 h
    · exact absurd h (by decide)
    · exact absurd h (by decide)

/-- A column that is searched by a text. -/
inductive TextFilter where
  | title
  | venue
  deriving DecidableEq, Repr

namespace TextFilter

/-- The parameters of a search by the column alone. -/
def params : TextFilter → String → EventSearchParams
  | title, text => { q := some text }
  | venue, text => { venue := some text }

/-- The column. -/
def column : TextFilter → EventRow → String
  | title => EventRow.title
  | venue => EventRow.venue

theorem applyFilters_params (filter : TextFilter) (text : String) (event : EventRow) :
    applyFilters φ (filter.params text) event =
      ilikeFilter φ (filter.column event) (some text) := by
  cases filter with
  | title => simp [applyFilters, params, column, ilikeFilter]
  | venue => simp [applyFilters, params, column, ilikeFilter]

/-- A text that is a title and a venue is those of an event. -/
theorem exists_event (filter : TextFilter) (text : String) :
    ∃ event : EventRow, filter.column event = text ∧
    (text ≠ "" → FitsString text → event.Valid) := by
  let event : EventRow :=
    { id := ⟨1⟩, title := text, description := none, venue := text, startsAt := 0, totalSeats := 1
      priceCents := 0, organizerId := ⟨2⟩ }
  refine ⟨event, by cases filter <;> rfl, fun hne hfits => ?_⟩
  have hone : (0 : ℤ) < 1 ∧ Int32 1 := by decide
  have hzero : (0 : ℤ) ≤ 0 ∧ Int32 0 := by decide
  have htime : FitsTimestamp 0 := by decide
  exact ⟨⟨hne, hfits⟩, by simp [event], ⟨hne, hfits⟩, htime, hone, hzero⟩

end TextFilter

/-- **The search is a search for substrings**, ignoring case, exactly for the texts without `%`, `_`
and `\`; for a text that fits a column this is so already among the events that can be stored. -/
theorem search_substring_iff (φ : Like.Folding) (filter : TextFilter) (hq : q ≠ "") :
    ((∀ event, applyFilters φ (filter.params q) event = true ↔ Occurs φ q (filter.column event)) ↔
      Plain q) ∧
    (FitsString q →
      ((∀ event : EventRow, event.Valid →
        (applyFilters φ (filter.params q) event = true ↔ Occurs φ q (filter.column event))) ↔
      Plain q)) := by
  have henough (hplain : Plain q) (event : EventRow) :
      applyFilters φ (filter.params q) event = true ↔ Occurs φ q (filter.column event) := by
    rw [filter.applyFilters_params, ilikeFilter_iff_occurs hq hplain]
  refine ⟨⟨fun h => ?_, henough⟩, fun hfits =>
    ⟨fun h => ?_, fun hplain event _ => henough hplain event⟩⟩
  · by_contra hplain
    obtain ⟨text, -, hlike, hnot, -⟩ := exists_ilikeFilter φ hplain
    obtain ⟨event, rfl, -⟩ := filter.exists_event text
    rw [← filter.applyFilters_params, h] at hlike
    exact hnot hlike
  · by_contra hplain
    obtain ⟨text, hne, hlike, hnot, hstored⟩ := exists_ilikeFilter φ hplain
    obtain ⟨event, rfl, hvalid⟩ := filter.exists_event text
    rw [← filter.applyFilters_params, h event (hvalid hne (hstored hfits))] at hlike
    exact hnot hlike

/-- The title `Rock 99` contains `99`. -/
theorem search_substring_rock :
    applyFilters asciiFolding { q := some "rock" } (concert ⟨1⟩ "Rock 99") = true ↔
      Occurs asciiFolding "rock" "Rock 99" :=
  ((search_substring_iff asciiFolding .title (q := "rock") (by decide)).1.2
    (by simp [Plain, Like.metacharacters])) _

/-- A search for `_` finds every title. -/
theorem search_underscore :
    ¬∀ (q : String) (event : EventRow), q ≠ "" →
      (applyFilters asciiFolding { q := some q } event = true ↔
        Occurs asciiFolding q event.title) := by
  intro h
  have hfound := (h "_" (concert ⟨1⟩ "Rock 99") (by decide)).1 (by decide)
  exact absurd hfound (by decide)

end

end EventSphere.Api
