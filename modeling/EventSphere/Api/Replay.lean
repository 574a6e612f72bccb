import EventSphere.Api.Atomic

/-!
# Repeated bookings with one key

A client that repeats its booking with the same `Idempotency-Key` should get the order of the first
call that succeeded. Three places decide what a key is: `book_tickets` looks it up if the string is
not empty (`booking_service.py:59`), stores it whatever it is, and the unique index holds for every
key that is not `NULL` (`order.py:26`). They agree on every key but the empty one, which is stored
and unique but never looked up: `replayed_iff`.
-/

namespace EventSphere.Api

open Inventory (Settings)

/-- What a repeated booking may change: the event, the quantity and the answers of the
environment. -/
structure Booking where
  eventId : UUID
  quantity : ℤ
  env : Env

namespace Shop

/-- A booking with the key, run at once. -/
def book (settings : Settings) (user : UUID) (key : String) (s : Shop) (b : Booking) :
    Except ApiError Order × Shop :=
  (bookTickets user b.eventId b.quantity (some key)).exec settings b.env .empty s

/-- The system after bookings with the key, one at a time. -/
def books (settings : Settings) (user : UUID) (key : String) (s : Shop) (bs : List Booking) :
    Shop :=
  bs.foldl (fun s b => (s.book settings user key b).2) s

section
variable {settings : Settings} {user : UUID} {key : String} {s s' : Shop} {b : Booking} {o : Order}

variable (settings user key b) in
/-- A booking finds the order of its key, or makes a new one. -/
theorem book_cases (h : Indexed s.orders) :
    (∃ o, s.orders.get o.id = some o ∧ o.HasKey user key ∧
      s.book settings user key b = (.ok o, s)) ∨
    BookKind settings s user b.eventId b.quantity (some key) b.env
      (s.book settings user key b) := by
  unfold book bookTickets
  by_cases hkey : key = ""
  · simp only [if_pos hkey]
    exact .inr (bookNewOrder_kind ..)
  · simp only [if_neg hkey, ApiProg.getByIdempotencyKey_bind, ApiProg.exec, ApiProg.ret_bind]
    split
    · next he => exact absurd he h.scalarOneOrNone_ne_error
    · exact .inr (bookNewOrder_kind ..)
    · next o ho =>
      obtain ⟨hstored, hk⟩ := mem_ordersWithKey.1
        (scalarOneOrNone_eq_some.1 ho ▸ List.mem_singleton_self o)
      exact .inl ⟨o, hstored, hk, rfl⟩

/-- An accepted order is new. -/
theorem isNew_of_insert {orders : Table Order} {event : Option Event}
    (h : insertError orders event o = none) : o.IsNew orders :=
  (insertError_eq_none.1 h).2.2.1

variable (settings user key) in
/-- A booking keeps the keys unique and the orders that are there. -/
theorem book_keeps (h : Indexed s.orders) (b : Booking) :
    Indexed (s.book settings user key b).2.orders ∧
      ∀ i o, s.orders.get i = some o → (s.book settings user key b).2.orders.get i = some o := by
  rcases book_cases settings user key b h with
    ⟨o, -, -, he⟩ | hkind
  · rw [he]
    exact ⟨h, fun _ _ => id⟩
  · generalize s.book settings user key b = x at hkind
    cases hkind with
    | noEvent | refused | rejected => exact ⟨h, fun _ _ => id⟩
    | @booked ev r hev hr hnew =>
      have hnew := isNew_of_insert hnew
      refine ⟨h.set hnew, fun i o ho => ?_⟩
      have hne : i ≠ (newOrder user b.eventId b.quantity (some key) b.env ev r).id := by
        rintro rfl
        rw [hnew.get_eq_none] at ho
        cases ho
      exact (Table.get_set_of_ne _ hne).trans ho

variable (settings user key) in
/-- Bookings keep the keys unique and the orders that are there. -/
theorem books_keep (h : Indexed s.orders) (bs : List Booking) :
    Indexed (s.books settings user key bs).orders ∧
      ∀ i o, s.orders.get i = some o → (s.books settings user key bs).orders.get i = some o := by
  induction bs generalizing s with
  | nil => exact ⟨h, fun _ _ => id⟩
  | cons b bs ih =>
    obtain ⟨h₁, hkeep₁⟩ := book_keeps settings user key h b
    obtain ⟨h₂, hkeep₂⟩ := ih h₁
    exact ⟨h₂, fun i o ho => hkeep₂ i o (hkeep₁ i o ho)⟩

/-- A booking that returns an order leaves it stored under the key. -/
theorem stored_of_book (h : Indexed s.orders) (hb : s.book settings user key b = (.ok o, s')) :
    s'.orders.get o.id = some o ∧ o.HasKey user key := by
  rcases book_cases settings user key b h with
    ⟨o', hstored, hk, he⟩ | hkind
  · cases hb.symm.trans he
    exact ⟨hstored, hk⟩
  · rw [hb] at hkind
    cases hkind
    exact ⟨get_set_order _ _, rfl, rfl⟩

/-- **A key that is looked up finds its order.** -/
theorem book_replays (h : Indexed s.orders) (hkey : key ≠ "") (ho : s.orders.get o.id = some o)
    (hk : o.HasKey user key) (b : Booking) : s.book settings user key b = (.ok o, s) := by
  unfold book bookTickets
  simp only [if_neg hkey, ApiProg.getByIdempotencyKey_bind, ApiProg.exec, ApiProg.ret_bind,
    ApiSession.view_empty, h.ordersWithKey_eq ho hk, scalarOneOrNone, ApiProg.pure_eq]

/-- Bookings with a key that is looked up change nothing once it has its order. -/
theorem books_replay (h : Indexed s.orders) (hkey : key ≠ "") (ho : s.orders.get o.id = some o)
    (hk : o.HasKey user key) (bs : List Booking) : s.books settings user key bs = s := by
  induction bs with
  | nil => rfl
  | cons b bs ih =>
    rw [books, List.foldl_cons, book_replays h hkey ho hk b]
    exact ih

/-- **A key that is not looked up is refused** once it has its order: the new order clashes with
it. -/
theorem book_empty (ho : s.orders.get o.id = some o) (hk : o.HasKey user "") (b : Booking)
    (o' : Order) : (s.book settings user "" b).1 ≠ .ok o' := by
  have hkind : BookKind settings s user b.eventId b.quantity (some "") b.env
      (s.book settings user "" b) := by
    unfold book bookTickets
    simp only [if_pos]
    exact bookNewOrder_kind ..
  generalize s.book settings user "" b = x at hkind
  cases hkind with
  | noEvent | refused | rejected => exact fun he => by cases he
  | booked hev hr hnew =>
    refine absurd (.inr ⟨hk.1.symm, hk.2.symm, ?_⟩) ((isNew_of_insert hnew).not_clashes ho)
    exact Option.some_ne_none _

end

/-- **A booking is replayed exactly if its key is not empty.** Once a booking with the key has
returned an order, a later booking with it, for whatever event and quantity, returns the same order
and leaves the orders, the inventory and the messages as they are, if and only if the key is not
empty. -/
theorem replayed_iff (settings : Settings) (user : UUID) (key : String) (s : Shop)
    (before between : List Booking) (b again : Booking) (o : Order) (h : Indexed s.orders)
    (hb : ((s.books settings user key before).book settings user key b).1 = .ok o) :
    let s' := s.books settings user key (before ++ b :: between)
    s'.book settings user key again = (.ok o, s') ↔ key ≠ "" := by
  obtain ⟨h₁, -⟩ := books_keep settings user key h before
  obtain ⟨h₂, -⟩ := book_keeps settings user key h₁ b
  obtain ⟨hstored, hk⟩ := stored_of_book (b := b) h₁ (Prod.ext hb rfl)
  have hcut : s.books settings user key (before ++ b :: between) =
      ((s.books settings user key before).book settings user key b).2.books settings user key
        between := List.foldl_append ..
  dsimp only
  rw [hcut]
  constructor
  · rintro hagain rfl
    obtain ⟨-, hkeep⟩ := books_keep settings user "" h₂ between
    exact book_empty (hkeep _ _ hstored) hk again o (congrArg Prod.fst hagain)
  · intro hkey
    rw [books_replay h₂ hkey hstored hk between]
    exact book_replays h₂ hkey hstored hk again

/-- A booking of one seat; `n` and `n + 1` are the keys of the order and of its reservation. -/
def oneSeat (n : BitVec 128) : Booking :=
  ⟨⟨1⟩, 1, ⟨⟨⟨0, ⟨n⟩, .ascending⟩, some ⟨1000⟩, true, ""⟩, ⟨0, ⟨n + 1⟩, .ascending⟩⟩⟩

/-- The order of the first booking. -/
def firstOrder (key : String) : Order := ⟨⟨3⟩, ⟨2⟩, ⟨1⟩, ⟨4⟩, 1, 1000, 1000, .pending, some key⟩

/-- A booking that is repeated with its key. -/
theorem replayed_retry :
    let s' := twoSeats.books .default ⟨2⟩ "retry-me" [oneSeat 3]
    s'.book .default ⟨2⟩ "retry-me" (oneSeat 5) = (.ok (firstOrder "retry-me"), s') :=
  (replayed_iff .default ⟨2⟩ "retry-me" twoSeats [] [] (oneSeat 3) (oneSeat 5) _
    (by rintro i i' o o' ⟨⟩) (by decide +kernel)).2 (by decide)

/-- **With an empty key a retried booking fails, and takes seats of its own**: the second booking
does not find the order of the first, reserves a seat and is refused by the unique index. -/
theorem empty_key_not_replayed :
    let s' := twoSeats.books .default ⟨2⟩ "" [oneSeat 3]
    (twoSeats.book .default ⟨2⟩ "" (oneSeat 3)).1 = .ok (firstOrder "") ∧
    (s'.book .default ⟨2⟩ "" (oneSeat 5)).1 = .error .integrity ∧
    ((s'.book .default ⟨2⟩ "" (oneSeat 5)).2.inventory.versioned.get ⟨1⟩).map (·.reservedCount) =
      some 2 ∧
    s'.book .default ⟨2⟩ "" (oneSeat 5) ≠ (.ok (firstOrder ""), s') := by
  have herr : ((twoSeats.books .default ⟨2⟩ "" [oneSeat 3]).book .default ⟨2⟩ "" (oneSeat 5)).1 =
      .error .integrity := by decide +kernel
  refine ⟨by decide +kernel, herr, by decide +kernel, fun he => ?_⟩
  rw [he] at herr
  cases herr

end Shop

end EventSphere.Api
