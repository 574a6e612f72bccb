import EventSphere.Api.Atomic

/-!
# The price of an order

A booking multiplies the price of the event with the quantity in unbounded integers, and the product
meets the `INTEGER` column of `orders` only when the order is inserted, after the seats have been
reserved. Both factors are bounded (`Event.Storable`, `Admitted`), but their product is not bounded
by the column. `priced_iff` says when an order has a price that can be stored; otherwise its booking
is refused and leaves its reservation behind (`overflow_strands`).
-/

namespace EventSphere.Api

open Inventory (Settings)

/-- The quantities of an `OrderCreateRequest` (`schemas/order.py:13`). -/
def Admitted (quantity : ℤ) : Prop := 0 < quantity ∧ quantity ≤ 20

/-- The prices that a row of the `events` table can have: those its column holds
(`models/event.py:27`) and its schemas let through (`schemas/event.py:15`,
`schemas/event.py:24`). -/
def Event.Storable (ev : Event) : Prop := 0 ≤ ev.priceCents ∧ Int32 ev.priceCents

instance (quantity : ℤ) : Decidable (Admitted quantity) := inferInstanceAs (Decidable (_ ∧ _))

instance (ev : Event) : Decidable ev.Storable := inferInstanceAs (Decidable (_ ∧ _))

namespace Shop

section
variable {settings : Settings} {s : Shop} {user eventId : UUID} {quantity : ℤ} {key : Option String}
  {env : Env} {ev : Event} {r : Inventory.Reservation}

variable (settings eventId quantity) in
/-- A booking whose key has no order. -/
theorem bookTickets_kind
    (hmiss : ∀ k ∈ key, k ≠ "" → ordersWithKey s.orders env.api.scan user k = []) :
    BookKind settings s user eventId quantity key env
      ((bookTickets user eventId quantity key).exec settings env .empty s) := by
  unfold bookTickets
  cases key with
  | none => exact bookNewOrder_kind ..
  | some k =>
    by_cases hk : k = ""
    · simp only [if_pos hk]
      exact bookNewOrder_kind ..
    · simp only [if_neg hk, ApiProg.getByIdempotencyKey_bind, ApiProg.exec, ApiProg.ret_bind,
        ApiSession.view_empty, hmiss k rfl hk, scalarOneOrNone]
      exact bookNewOrder_kind ..

variable (user eventId key env r) in
/-- The prices of an order of a storable event and an admitted quantity. -/
theorem prices_fit (hev : ev.Storable) (hq : Admitted quantity) :
    Int32 (newOrder user eventId quantity key env ev r).unitPriceCents ∧
      (Int32 (newOrder user eventId quantity key env ev r).totalPriceCents ↔
        ev.priceCents * quantity ≤ 2147483647) := by
  have hpos : 0 ≤ ev.priceCents * quantity := Int.mul_nonneg hev.1 hq.1.le
  refine ⟨hev.2, And.right, fun h => ⟨?_, h⟩⟩
  change -2147483648 ≤ ev.priceCents * quantity
  omega

/-- **A price that does not fit strands the reservation**: the booking has reserved its seats, and
no order is inserted. -/
theorem overflow_strands (hevent : env.api.event = some ev)
    (hmiss : ∀ k ∈ key, k ≠ "" → ordersWithKey s.orders env.api.scan user k = [])
    (hr : rpcResult (reserved settings s eventId quantity env).1 = .ok (.reservation r))
    (hover : ¬ ev.priceCents * quantity ≤ 2147483647) :
    (bookTickets user eventId quantity key).exec settings env .empty s =
      (.error .dataError,
        { s with inventory := (reserved settings s eventId quantity env).2 }) := by
  have hfits : ¬ (newOrder user eventId quantity key env ev r).Fits := fun h => hover h.2.2.1.2
  have hkind := bookTickets_kind settings eventId quantity hmiss
  generalize (bookTickets user eventId quantity key).exec settings env .empty s = x at hkind
  cases hkind with
  | noEvent h => rw [hevent] at h; cases h
  | refused h => exact absurd hr (h r)
  | rejected hev hr' h =>
    cases hevent.symm.trans hev
    cases hr.symm.trans hr'
    rw [insertError, if_pos hfits] at h
    cases h
    rfl
  | booked hev hr' h =>
    cases hevent.symm.trans hev
    cases hr.symm.trans hr'
    exact absurd (insertError_eq_none.1 h).1 hfits

/-- A price that fits is not what the insert is refused for. -/
theorem not_refused (hevent : env.api.event = some ev)
    (hmiss : ∀ k ∈ key, k ≠ "" → ordersWithKey s.orders env.api.scan user k = [])
    (hr : rpcResult (reserved settings s eventId quantity env).1 = .ok (.reservation r))
    (hfits : (newOrder user eventId quantity key env ev r).Fits) :
    ((bookTickets user eventId quantity key).exec settings env .empty s).1 ≠ .error .dataError := by
  have hkind := bookTickets_kind settings eventId quantity hmiss
  generalize (bookTickets user eventId quantity key).exec settings env .empty s = x at hkind
  cases hkind with
  | noEvent h => rw [hevent] at h; cases h
  | refused h => exact absurd hr (h r)
  | rejected hev hr' h =>
    cases hevent.symm.trans hev
    cases hr.symm.trans hr'
    rw [insertError, if_neg (not_not.2 hfits)] at h
    split at h
    · cases h
      intro he
      cases he
    · cases h
  | booked => exact fun he => by cases he

/-- A booking that returns an order returns the new one. -/
theorem returned_order (hevent : env.api.event = some ev)
    (hmiss : ∀ k ∈ key, k ≠ "" → ordersWithKey s.orders env.api.scan user k = [])
    (hr : rpcResult (reserved settings s eventId quantity env).1 = .ok (.reservation r)) {o : Order}
    (ho : ((bookTickets user eventId quantity key).exec settings env .empty s).1 = .ok o) :
    o = newOrder user eventId quantity key env ev r := by
  have hkind := bookTickets_kind settings eventId quantity hmiss
  generalize (bookTickets user eventId quantity key).exec settings env .empty s = x at hkind ho
  cases hkind with
  | noEvent | refused | rejected => cases ho
  | booked hev hr' =>
    cases hevent.symm.trans hev
    cases hr.symm.trans hr'
    cases ho
    rfl

end

/-- **The prices of an order fit their columns exactly if the product does.** Take an event that the
`events` table can store, a quantity that the request schema admits, and a booking that has reserved
its seats. Its order has prices that can be stored, and its insert is not refused for their range,
if and only if the price times the quantity is at most `2^31 - 1`. Otherwise the booking raises the
error of the insert, inserts and publishes nothing, and leaves its reservation behind. The order
that a booking returns has the price of the event and the product. -/
theorem priced_iff (settings : Settings) (s : Shop) (user eventId : UUID) (quantity : ℤ)
    (key : Option String) (env : Env) (ev : Event) (r : Inventory.Reservation)
    (hev : ev.Storable) (hq : Admitted quantity) (hevent : env.api.event = some ev)
    (hmiss : ∀ k ∈ key, k ≠ "" → ordersWithKey s.orders env.api.scan user k = [])
    (hr : rpcResult (reserved settings s eventId quantity env).1 = .ok (.reservation r)) :
    ((Int32 (newOrder user eventId quantity key env ev r).unitPriceCents ∧
        Int32 (newOrder user eventId quantity key env ev r).totalPriceCents ∧
        ((∀ k ∈ key, k.length ≤ 128) →
          ((bookTickets user eventId quantity key).exec settings env .empty s).1 ≠
            .error .dataError)) ↔
      ev.priceCents * quantity ≤ 2147483647) ∧
    (¬ ev.priceCents * quantity ≤ 2147483647 →
      (bookTickets user eventId quantity key).exec settings env .empty s =
        (.error .dataError, { s with inventory := (reserved settings s eventId quantity env).2 })) ∧
    ∀ o, ((bookTickets user eventId quantity key).exec settings env .empty s).1 = .ok o →
      o.unitPriceCents = ev.priceCents ∧ o.totalPriceCents = ev.priceCents * quantity := by
  obtain ⟨hunit, htotal⟩ := prices_fit user eventId key env r hev hq
  refine ⟨⟨fun h => htotal.1 h.2.1, fun h => ⟨hunit, htotal.2 h, fun hkey => ?_⟩⟩,
    overflow_strands hevent hmiss hr, fun o ho => ?_⟩
  · have hqty : Int32 quantity := ⟨by have := hq.1; omega, by have := hq.2; omega⟩
    exact not_refused hevent hmiss hr ⟨hqty, hunit, htotal.2 h, hkey⟩
  · rw [returned_order hevent hmiss hr ho]
    exact ⟨rfl, rfl⟩

/-- Answers with an event of the price; the order gets the key `3` and its reservation the key
`4`. -/
def pricedAt (price : ℤ) : Env :=
  ⟨⟨⟨0, ⟨3⟩, .ascending⟩, some ⟨price⟩, true, ""⟩, ⟨0, ⟨4⟩, .ascending⟩⟩

/-- The highest price at which two seats can be booked. -/
theorem priced_highest :
    ∃ o, ((bookTickets ⟨2⟩ ⟨1⟩ 2 none).exec .default (pricedAt 1073741823) .empty twoSeats).1 =
      .ok o ∧
      o.totalPriceCents = 2147483646 ∧
      Int32 (newOrder ⟨2⟩ ⟨1⟩ 2 none (pricedAt 1073741823) ⟨1073741823⟩
        ⟨⟨4⟩, ⟨1⟩, ⟨3⟩, 2, .pending, 600000000⟩).totalPriceCents := by
  obtain ⟨hfit, -, hprices⟩ := priced_iff .default twoSeats ⟨2⟩ ⟨1⟩ 2 none (pricedAt 1073741823)
    ⟨1073741823⟩ ⟨⟨4⟩, ⟨1⟩, ⟨3⟩, 2, .pending, 600000000⟩ (by decide) (by decide) rfl
    (by rintro k ⟨⟩) (by decide +kernel)
  have hbooked : ((bookTickets ⟨2⟩ ⟨1⟩ 2 none).exec .default (pricedAt 1073741823) .empty
      twoSeats).1 = .ok ⟨⟨3⟩, ⟨2⟩, ⟨1⟩, ⟨4⟩, 2, 1073741823, 2147483646, .pending, none⟩ := by
    decide +kernel
  exact ⟨_, hbooked, (hprices _ hbooked).2, (hfit.2 (by decide)).2.1⟩

/-- **Two seats of an event at a price that the table can store cannot be booked**: the seats are
reserved, the price of the order does not fit, and the reservation stays behind. -/
theorem price_overflows :
    (⟨2147483647⟩ : Event).Storable ∧ Admitted 2 ∧
    ¬ Int32 (newOrder ⟨2⟩ ⟨1⟩ 2 none (pricedAt 2147483647) ⟨2147483647⟩
      ⟨⟨4⟩, ⟨1⟩, ⟨3⟩, 2, .pending, 600000000⟩).totalPriceCents ∧
    let x := (bookTickets ⟨2⟩ ⟨1⟩ 2 none).exec .default (pricedAt 2147483647) .empty twoSeats
    x.1 = .error .dataError ∧ x.2.orders.get ⟨3⟩ = none ∧
      x.2.inventory.plain.get ⟨4⟩ = some ⟨⟨4⟩, ⟨1⟩, ⟨3⟩, 2, .pending, 600000000⟩ := by
  decide +kernel

end Shop

end EventSphere.Api
