import EventSphere.Api.System

/-!
# What a handler may do

`ApiProg.Within P` says that a program calls only the methods of the Inventory service, assigns only
the statuses and charges only as the permission `P` allows. What each handler needs is written down
once (`ApiCall.Needs`), from the source, and `ApiCall.body_within` runs the handlers against it; the
rule `System.Everywhere.step` then carries the permission through the interleaved system
(`System.closed_within`).
-/

namespace EventSphere.Api

/-- A permission: the inventory calls, the statuses of loaded orders and the charges that a program
may make. -/
structure Permission where
  rpc : Inventory.Call → Prop
  assign : Order → OrderStatus → Prop
  charge : Prop

namespace ApiProg

variable {α : Type} {P : Permission}

/-- The program does only what is permitted. What it loads by primary key has that key. -/
def Within (P : Permission) : ApiProg α → Prop
  | ret _ | raise _ => True
  | getByIdempotencyKey _ _ f => ∀ o, Within P (f o)
  | getForUser orderId _ f | getOrder orderId f =>
    (∀ o, o.id = orderId → Within P (f (some o))) ∧ Within P (f none)
  | getEvent _ f => ∀ e, Within P (f e)
  | uuid4 f => ∀ u, Within P (f u)
  | charge _ _ f => P.charge ∧ ∀ paid ref, Within P (f paid ref)
  | rpc c f => P.rpc c ∧ ∀ res, Within P (f res)
  | setStatus o st f => P.assign o st ∧ Within P f
  | addOrder _ f | commit f | publish _ f => Within P f

/-- The rest of a program after a read by primary key. -/
theorem within_read {orderId : UUID} {f : Option Order → ApiProg α}
    (h : (∀ o, o.id = orderId → (f (some o)).Within P) ∧ (f none).Within P) {x : Option Order}
    (hx : ∀ o ∈ x, o.id = orderId) : (f x).Within P := by
  cases x with
  | none => exact h.2
  | some o => exact h.1 o (hx o rfl)

/-- The rest of a program after its next operation does only what is permitted, and so does the
status it has assigned. -/
theorem Within.continue {orders : Table Order} {inp : ApiInput} {p p' : ApiProg α}
    {σ σ' : ApiSession} (h : p.Within P) (hσ : ∀ o st, σ.status = some (o, st) → P.assign o st)
    (hn : p.next orders inp σ = .continue p' σ') :
    p'.Within P ∧ ∀ o st, σ'.status = some (o, st) → P.assign o st := by
  cases p with
  | getByIdempotencyKey user key f =>
    simp only [next] at hn
    split at hn
    · cases hn
    · cases hn; exact ⟨h _, hσ⟩
    · cases hn; exact ⟨h _, hσ⟩
  | getForUser orderId user f =>
    cases hn
    refine ⟨within_read h fun o ho => ?_, hσ⟩
    exact Table.pk_of_get _ (Option.filter_eq_some_iff.1 ho).1
  | getOrder orderId f =>
    cases hn
    exact ⟨within_read h fun o ho => Table.pk_of_get _ ho, hσ⟩
  | addOrder o f =>
    simp only [next] at hn
    split at hn
    · cases hn
    · cases hn; exact ⟨h, hσ⟩
  | setStatus o st f =>
    cases hn
    refine ⟨h.2, fun o' st' he => ?_⟩
    cases he
    exact h.1
  | getEvent e f | uuid4 f => cases hn; exact ⟨h _, hσ⟩
  | charge i amount f => cases hn; exact ⟨h.2 _ _, hσ⟩
  | ret | raise | rpc | commit | publish => cases hn

end ApiProg

/-- A program that does only what is permitted does so to its end. -/
theorem System.closed_within (P : ApiCall → Permission) :
    Closed fun call p σ => p.Within (P call) ∧
      ∀ o st, σ.status = some (o, st) → (P call).assign o st where
  next h hn := h.1.continue h.2 hn
  commit h := ⟨h.1, nofun⟩
  publish h := h
  answer h := ⟨h.1.2 _, h.2⟩

/-! ## The handlers -/

/-- What a handler needs to be permitted. -/
def ApiCall.Needs (P : Permission) : ApiCall → Prop
  | .bookTickets _ eventId quantity _ => ∀ orderId, P.rpc (.reserveSeats eventId orderId quantity)
  | .cancelOrder orderId _ => ∀ o : Order, o.id = orderId →
    P.rpc (.releaseReservation o.reservationId false) ∧ P.assign o .cancelled
  | .orderStatusWorker (.paymentProcessed orderId _ _) => ∀ o : Order, o.id = orderId →
    (P.rpc (.confirmReservation o.reservationId) ∧ P.assign o .confirmed) ∧
    P.rpc (.releaseReservation o.reservationId false) ∧ P.assign o .cancelled
  | .orderStatusWorker (.reservationExpired _ orderId _) => ∀ o : Order, o.id = orderId →
    P.assign o .expired
  | .orderStatusWorker _ => True
  | .paymentWorker _ => P.charge
  | .reservationReaper => P.rpc .sweepExpiredReservations

variable {P : Permission}

/-- The part of `book_tickets` after the lookup. -/
theorem bookNewOrder_within {user eventId : UUID} {quantity : ℤ} {idempotencyKey : Option String}
    (h : ∀ orderId, P.rpc (.reserveSeats eventId orderId quantity)) :
    (do return some (← bookNewOrder user eventId quantity idempotencyKey) :
      ApiProg (Option Order)).Within P := by
  unfold bookNewOrder reserveSeats
  intro event
  cases event with
  | none => trivial
  | some event =>
    refine fun u => ⟨h u, fun res => ?_⟩
    cases res <;> trivial

/-- `book_tickets`. -/
theorem bookTickets_within {user eventId : UUID} {quantity : ℤ} {idempotencyKey : Option String}
    (h : ∀ orderId, P.rpc (.reserveSeats eventId orderId quantity)) :
    (ApiCall.bookTickets user eventId quantity idempotencyKey).body.Within P := by
  unfold ApiCall.body bookTickets
  cases idempotencyKey with
  | none => exact bookNewOrder_within h
  | some k =>
    dsimp only
    split
    · exact bookNewOrder_within h
    · intro o
      cases o with
      | none => exact bookNewOrder_within h
      | some o => trivial

/-- `cancel_order`. -/
theorem cancelOrder_within {orderId user : UUID} (h : ∀ o : Order, o.id = orderId →
      P.rpc (.releaseReservation o.reservationId false) ∧ P.assign o .cancelled) :
    (ApiCall.cancelOrder orderId user).body.Within P := by
  unfold ApiCall.body cancelOrder
  simp only [ApiProg.getForUser_bind, ApiProg.ret_bind]
  refine ⟨fun o ho => ?_, trivial⟩
  dsimp only
  split
  · trivial
  · split
    · trivial
    · exact ⟨(h o ho).1, fun _ => ⟨(h o ho).2, trivial⟩⟩

/-- `_handle_payment_processed`. -/
theorem handlePaymentProcessed_within {orderId : UUID} {success : Bool}
    (h : ∀ o : Order, o.id = orderId →
      (P.rpc (.confirmReservation o.reservationId) ∧ P.assign o .confirmed) ∧
      P.rpc (.releaseReservation o.reservationId false) ∧ P.assign o .cancelled) :
    (do handlePaymentProcessed orderId success; return none :
      ApiProg (Option Order)).Within P := by
  unfold handlePaymentProcessed
  simp only [ApiProg.getOrder_bind, ApiProg.ret_bind]
  refine ⟨fun o ho => ?_, trivial⟩
  obtain ⟨hconfirm, hrelease⟩ := h o ho
  dsimp only
  split
  · trivial
  · split
    · exact ⟨hconfirm.1, fun _ => ⟨hconfirm.2, trivial⟩⟩
    · exact ⟨hrelease.1, fun _ => ⟨hrelease.2, trivial⟩⟩

/-- `_handle_reservation_expired`. -/
theorem handleReservationExpired_within {orderId : UUID}
    (h : ∀ o : Order, o.id = orderId → P.assign o .expired) :
    (do handleReservationExpired orderId; return none : ApiProg (Option Order)).Within P := by
  unfold handleReservationExpired
  simp only [ApiProg.getOrder_bind, ApiProg.ret_bind]
  refine ⟨fun o ho => ?_, trivial⟩
  dsimp only
  split
  · trivial
  · exact ⟨h o ho, trivial⟩

/-- The messages of the reaper. -/
theorem publishExpired_within (rs : List Inventory.Reservation) :
    (do publishExpired rs; return none : ApiProg (Option Order)).Within P := by
  induction rs with
  | nil => trivial
  | cons r rs ih => exact ih

/-- **Every handler does only what it needs.** -/
theorem ApiCall.body_within {call : ApiCall} (h : call.Needs P) : call.body.Within P := by
  cases call with
  | bookTickets => exact bookTickets_within h
  | cancelOrder => exact cancelOrder_within h
  | orderStatusWorker m =>
    cases m with
    | paymentProcessed => exact handlePaymentProcessed_within h
    | reservationExpired => exact handleReservationExpired_within h
    | orderCreated | ticketIssued | orderCancelled => trivial
  | paymentWorker m =>
    cases m with
    | orderCreated => exact ⟨h, fun _ _ => trivial⟩
    | paymentProcessed | ticketIssued | orderCancelled | reservationExpired => trivial
  | reservationReaper =>
    refine ⟨h, fun res => ?_⟩
    cases res with
    | reservations rs => exact publishExpired_within rs
    | inventory | reservation => trivial

end EventSphere.Api
