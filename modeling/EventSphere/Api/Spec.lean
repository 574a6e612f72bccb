import EventSphere.Api.Session

/-!
# What the handlers promise

`ApiProg.Safe` runs a handler symbolically and lets every lookup, the payment gateway and the
Inventory service answer anything. It collects what the handler learns on the way (`Fact`) and holds
it to what it may do with that: confirm only the reservation of an order it has read, insert only an
order for a reservation it has been given, move a status only forward from the one it has read, and,
for a booking with a key, call the inventory only after the lookup of the key has failed.
`ApiCall.body_safe` proves it of every handler; `EventSphere.Api.Coherence` carries it through the
interleaved system.
-/

namespace EventSphere.Api

open Inventory (Result)

/-- What a handler has learned. -/
inductive Fact where
  /-- The order was committed as this. -/
  | known (o : Order)
  /-- No order had the key. -/
  | missed (user : UUID) (key : String)
  /-- There was no such event. -/
  | noEvent
  /-- The inventory returned this. -/
  | answered (c : Inventory.Call) (res : Result)

/-- The moves of an order: a pending one is confirmed, cancelled or expires, a confirmed one is
cancelled. -/
def Moves (st st' : OrderStatus) : Prop :=
  st = .pending ∧ st' ≠ .pending ∨ st = .confirmed ∧ st' = .cancelled

instance (st st' : OrderStatus) : Decidable (Moves st st') := inferInstanceAs (Decidable (_ ∨ _))

/-- Nothing waits for the commit. -/
structure ApiSession.Clean (σ : ApiSession) : Prop where
  insert : σ.insert = none
  status : σ.status = none

/-- The session of a handler that has written nothing shows the committed orders. -/
theorem ApiSession.Clean.view {σ : ApiSession} (h : σ.Clean) (orders : Table Order) :
    σ.view orders = orders := by
  rw [ApiSession.view, h.insert, h.status]
  rfl

/-- The user and the key that are looked up before a booking (`booking_service.py:59`). -/
def keyOf (user : UUID) : Option String → Option (UUID × String)
  | some key => if key = "" then none else some (user, key)
  | none => none

/-- The user and the key of a booking. -/
def ApiCall.key : ApiCall → Option (UUID × String)
  | .bookTickets user _ _ idempotencyKey => keyOf user idempotencyKey
  | _ => none

/-- The user and the key of a booking that has them. -/
theorem keyOf_eq_some {user : UUID} {idempotencyKey : Option String} {x : UUID × String} :
    keyOf user idempotencyKey = some x ↔ user = x.1 ∧ idempotencyKey = some x.2 ∧ x.2 ≠ "" := by
  obtain ⟨u, k⟩ := x
  cases idempotencyKey with
  | none => simp [keyOf]
  | some key =>
    by_cases hk : key = ""
    · simp only [keyOf, if_pos hk, reduceCtorEq, Option.some.injEq, false_iff]
      rintro ⟨-, rfl, h⟩
      exact h hk
    · simp only [keyOf, if_neg hk, Option.some.injEq, Prod.mk.injEq]
      constructor
      · rintro ⟨rfl, rfl⟩
        exact ⟨rfl, rfl, hk⟩
      · rintro ⟨rfl, rfl, -⟩
        exact ⟨rfl, rfl⟩

/-- The key of a booking that has one is not empty. -/
theorem ApiCall.key_ne_empty {call : ApiCall} {x : UUID × String} (h : call.key = some x) :
    x.2 ≠ "" := by
  cases call with
  | bookTickets user e q key => exact (keyOf_eq_some.1 h).2.2
  | cancelOrder | orderStatusWorker | paymentWorker | reservationReaper => cases h

/-- A booking with a key has looked it up in vain and not yet committed. -/
def Window (key : Option (UUID × String)) (F : List Fact) : Prop :=
  ∀ x ∈ key, .missed x.1 x.2 ∈ F ∧ ∀ o, .known o ∉ F

/-- The inventory calls a handler may make. -/
structure MayAsk (key : Option (UUID × String)) (c : Inventory.Call) (F : List Fact) : Prop where
  confirms : ∀ i, c = .confirmReservation i → ∃ o, .known o ∈ F ∧ o.reservationId = i
  window : Window key F
  once : key ≠ none → ∀ c res, .answered c res ∉ F

/-- The orders a handler may insert. -/
structure MayAdd (key : Option (UUID × String)) (o : Order) (F : List Fact) : Prop where
  status : o.status = .pending
  reserved : ∃ r, .answered (.reserveSeats o.eventId o.id o.quantity) (.reservation r) ∈ F ∧
    o.reservationId = r.id
  keyed : ∀ x : UUID × String, x.2 ≠ "" → (o.HasKey x.1 x.2 ↔ key = some x)

/-- The statuses a handler may assign. -/
structure MayAssign (o : Order) (st : OrderStatus) (F : List Fact) : Prop where
  known : .known o ∈ F
  moves : Moves o.status st

/-- What a handler knows after a commit. -/
def committedFacts (σ : ApiSession) (F : List Fact) : List Fact :=
  match σ.insert with
  | some o => .known o :: F
  | none => F

namespace ApiProg

/-- The program keeps to the rules from a state of its session, with what it has learned so far. -/
def Safe (key : Option (UUID × String)) :
    ApiProg (Option Order) → ApiSession → List Fact → Prop
  | ret a, _, F => ∀ x ∈ key, ∃ o, a = some o ∧ .known o ∈ F ∧ o.HasKey x.1 x.2
  | raise _, _, F => ∀ x ∈ key, .noEvent ∈ F ∨
    ∃ e o q res, .answered (.reserveSeats e o q) res ∈ F ∧ ∀ r, res ≠ .reservation r
  | getByIdempotencyKey user k f, σ, F =>
    σ.Clean ∧ key = some (user, k) ∧
    (∀ o, o.HasKey user k → Safe key (f (some o)) σ (.known o :: F)) ∧
    Safe key (f none) { σ with missed := some (user, k) } (.missed user k :: F)
  | getForUser _ _ f, σ, F | getOrder _ f, σ, F =>
    σ.Clean ∧ (∀ o, Safe key (f (some o)) σ (.known o :: F)) ∧ Safe key (f none) σ F
  | getEvent _ f, σ, F => (∀ e, Safe key (f (some e)) σ F) ∧ Safe key (f none) σ (.noEvent :: F)
  | uuid4 f, σ, F => ∀ i, Safe key (f i) σ F
  | charge _ _ f, σ, F => ∀ paid ref, Safe key (f paid ref) σ F
  | rpc c f, σ, F => σ.Clean ∧ MayAsk key c F ∧ ∀ res, Safe key (f res) σ (.answered c res :: F)
  | addOrder o f, σ, F =>
    σ.Clean ∧ Window key F ∧ MayAdd key o F ∧ Safe key f { σ with insert := some o } F
  | setStatus o st f, σ, F =>
    σ.Clean ∧ MayAssign o st F ∧ Safe key f { σ with status := some (o, st) } F
  | commit f, σ, F =>
    (∀ x ∈ key, σ.insert ≠ none) ∧ Safe key f .empty (committedFacts σ F)
  | publish _ f, σ, F => Safe key f σ F

end ApiProg

/-! ## The handlers -/

theorem clean_missed (missed : Option (UUID × String)) : ApiSession.Clean ⟨none, none, missed⟩ :=
  ⟨rfl, rfl⟩

/-- A handler without a key may ask for everything but confirmations. -/
theorem mayAsk_none {c : Inventory.Call} {F : List Fact}
    (h : ∀ i, c = .confirmReservation i → ∃ o, .known o ∈ F ∧ o.reservationId = i) :
    MayAsk none c F :=
  ⟨h, nofun, fun hne => absurd rfl hne⟩

/-- The part of `book_tickets` after the lookup. -/
theorem bookNewOrder_safe (user eventId : UUID) (quantity : ℤ) (idempotencyKey : Option String)
    {missed : Option (UUID × String)} {F : List Fact} (hw : Window (keyOf user idempotencyKey) F)
    (hF : ∀ c res, .answered c res ∉ F) :
    (do return some (← bookNewOrder user eventId quantity idempotencyKey) :
      ApiProg (Option Order)).Safe (keyOf user idempotencyKey) ⟨none, none, missed⟩ F := by
  unfold bookNewOrder reserveSeats
  refine ⟨fun event i => ⟨clean_missed _, ⟨nofun, hw, fun _ => hF⟩, fun res => ?_⟩,
    fun x hx => .inl (List.mem_cons_self ..)⟩
  cases res with
  | reservation r =>
    refine ⟨clean_missed _, fun x hx => ?_, ⟨rfl, ⟨r, List.mem_cons_self .., rfl⟩, fun x hx => ?_⟩,
      nofun, fun x hx => ?_⟩
    · refine ⟨List.mem_cons_of_mem _ (hw x hx).1, fun o ho => ?_⟩
      exact (hw x hx).2 o ((List.mem_cons.1 ho).resolve_left nofun)
    · rw [keyOf_eq_some]
      exact and_congr_right fun _ => (and_iff_left hx).symm
    · obtain ⟨h1, h2, -⟩ := keyOf_eq_some.1 hx
      exact ⟨_, rfl, List.mem_cons_self .., h1, h2⟩
  | inventory | reservations =>
    exact fun x hx => .inr ⟨_, _, _, _, List.mem_cons_self .., nofun⟩

/-- `book_tickets`. -/
theorem bookTickets_safe (user eventId : UUID) (quantity : ℤ) (idempotencyKey : Option String) :
    (ApiCall.bookTickets user eventId quantity idempotencyKey).body.Safe
      (keyOf user idempotencyKey) .empty [] := by
  unfold ApiCall.body bookTickets
  cases idempotencyKey with
  | none => exact bookNewOrder_safe _ _ _ none nofun nofun
  | some k =>
    by_cases hk : k = ""
    · dsimp only
      rw [if_pos hk]
      refine bookNewOrder_safe _ _ _ (some k) (fun x hx => ?_) nofun
      obtain ⟨-, h, hne⟩ := keyOf_eq_some.1 hx
      cases h
      exact absurd hk hne
    · have hkey : keyOf user (some k) = some (user, k) := if_neg hk
      dsimp only
      rw [if_neg hk]
      refine ⟨clean_missed _, hkey, fun o ho x hx => ?_,
        bookNewOrder_safe _ _ _ (some k) (fun x hx => ?_) (by simp)⟩
      · cases hkey.symm.trans hx
        exact ⟨o, rfl, List.mem_cons_self .., ho⟩
      · cases hkey.symm.trans hx
        simp

/-- The end that `cancel_order` and both branches of `_handle_payment_processed` share. -/
theorem settle_safe {o : Order} {st : OrderStatus} {c : Inventory.Call} {m : Message}
    {a : Option Order} (hc : ∀ i, c = .confirmReservation i → o.reservationId = i)
    (hst : Moves o.status st) :
    (ApiProg.rpc c fun _ => .setStatus o st (.commit (.publish m (.ret a)))).Safe none .empty
      [.known o] :=
  ⟨clean_missed _, mayAsk_none fun i h => ⟨o, List.mem_cons_self .., hc i h⟩,
    fun _ => ⟨clean_missed _, ⟨List.mem_cons_of_mem _ (List.mem_cons_self ..), hst⟩, nofun, nofun⟩⟩

/-- `cancel_order`. -/
theorem cancelOrder_safe (orderId user : UUID) :
    (ApiCall.cancelOrder orderId user).body.Safe none .empty [] := by
  unfold ApiCall.body cancelOrder
  simp only [ApiProg.getForUser_bind, ApiProg.ret_bind]
  refine ⟨clean_missed _, fun o => ?_, nofun⟩
  dsimp only
  split
  · exact nofun
  · split
    · exact nofun
    · next hs =>
      refine settle_safe nofun ?_
      unfold Moves
      cases h : o.status <;> simp_all

/-- `_handle_payment_processed`. -/
theorem handlePaymentProcessed_safe (orderId : UUID) (success : Bool) :
    (do handlePaymentProcessed orderId success; return none : ApiProg (Option Order)).Safe none
      .empty [] := by
  unfold handlePaymentProcessed
  simp only [ApiProg.getOrder_bind, ApiProg.ret_bind]
  refine ⟨clean_missed _, fun o => ?_, nofun⟩
  dsimp only
  split
  · exact nofun
  · next hs =>
    have hs := not_not.1 hs
    split
    · exact settle_safe (fun _ h => by cases h; rfl) (.inl ⟨hs, by decide⟩)
    · exact settle_safe nofun (.inl ⟨hs, by decide⟩)

/-- `_handle_reservation_expired`. -/
theorem handleReservationExpired_safe (orderId : UUID) :
    (do handleReservationExpired orderId; return none : ApiProg (Option Order)).Safe none
      .empty [] := by
  unfold handleReservationExpired
  simp only [ApiProg.getOrder_bind, ApiProg.ret_bind]
  refine ⟨clean_missed _, fun o => ?_, nofun⟩
  dsimp only
  split
  · exact nofun
  · next hs =>
    exact ⟨clean_missed _, ⟨List.mem_cons_self .., .inl ⟨not_not.1 hs, by decide⟩⟩, nofun, nofun⟩

/-- The messages of the reaper. -/
theorem publishExpired_safe (rs : List Inventory.Reservation) {σ : ApiSession} {F : List Fact} :
    (do publishExpired rs; return none : ApiProg (Option Order)).Safe none σ F := by
  induction rs with
  | nil => exact nofun
  | cons r rs ih => exact ih

/-- **Every handler keeps to the rules.** -/
theorem ApiCall.body_safe (call : ApiCall) : call.body.Safe call.key .empty [] := by
  cases call with
  | bookTickets user eventId quantity key => exact bookTickets_safe ..
  | cancelOrder orderId user => exact cancelOrder_safe ..
  | orderStatusWorker m =>
    cases m with
    | paymentProcessed => exact handlePaymentProcessed_safe ..
    | reservationExpired => exact handleReservationExpired_safe ..
    | orderCreated | ticketIssued | orderCancelled => exact nofun
  | paymentWorker m =>
    cases m with
    | orderCreated => exact fun _ _ => nofun
    | paymentProcessed | ticketIssued | orderCancelled | reservationExpired => exact nofun
  | reservationReaper =>
    refine ⟨clean_missed _, mayAsk_none nofun, fun res => ?_⟩
    cases res with
    | reservations rs => exact publishExpired_safe rs
    | inventory | reservation => exact nofun

end EventSphere.Api
