import EventSphere.Api.Prog

/-!
# The handlers

`BookingService` (`services/api/app/services/booking_service.py`), the workers of the API
(`services/api/app/workers/`) and one round of the reservation reaper
(`services/inventory/app/workers/reservation_reaper.py`), as programs.
-/

namespace EventSphere.Api

open Inventory (Result)

/-- Raise a domain error. -/
def raiseDomain {α : Type} (e : DomainError) : ApiProg α := .raise (.domain e)

/-- The reservation of a `ReserveSeats` response. -/
def reservationOf : Result → ApiProg Inventory.Reservation
  | .reservation r => .ret r
  | _ => raiseDomain (.other "Inventory service error: StatusCode.UNKNOWN")

/-- Reference: `InventoryClient.reserve_seats` (`inventory_client.py:71`). -/
def reserveSeats (eventId orderId : UUID) (quantity : ℤ) : ApiProg Inventory.Reservation :=
  .rpc (.reserveSeats eventId orderId quantity) reservationOf

/-- Reference: `InventoryClient.confirm_reservation` (`inventory_client.py:81`): the answer is not
looked at. -/
def confirmReservation (reservationId : UUID) : ApiProg Unit :=
  .rpc (.confirmReservation reservationId) fun _ => .ret ()

/-- Reference: `InventoryClient.release_reservation` (`inventory_client.py:88`). -/
def releaseReservation (reservationId : UUID) : ApiProg Unit :=
  .rpc (.releaseReservation reservationId false) fun _ => .ret ()

/-- The part of `book_tickets` after the lookup of the key (`booking_service.py:65`). -/
def bookNewOrder (user eventId : UUID) (quantity : ℤ) (idempotencyKey : Option String) :
    ApiProg Order := do
  match ← .getEvent eventId .ret with
  | none => raiseDomain (.notFound s!"No event {eventId}")
  | some event =>
    let orderId ← .uuid4 .ret
    let reservation ← reserveSeats eventId orderId quantity
    let order : Order :=
      { id := orderId, userId := user, eventId, reservationId := reservation.id, quantity,
        unitPriceCents := event.priceCents, totalPriceCents := event.priceCents * quantity,
        status := .pending, idempotencyKey }
    .addOrder order (.ret ())
    .commit (.ret ())
    .publish (.orderCreated order.id order.eventId order.userId order.quantity
      order.totalPriceCents order.reservationId) (.ret ())
    return order

/-- Reference: `book_tickets` (`booking_service.py:51`). An empty key is not looked up. -/
def bookTickets (user eventId : UUID) (quantity : ℤ) (idempotencyKey : Option String) :
    ApiProg Order :=
  match idempotencyKey with
  | none => bookNewOrder user eventId quantity none
  | some key =>
    if key = "" then bookNewOrder user eventId quantity (some key)
    else do
      match ← .getByIdempotencyKey user key .ret with
      | some existing => return existing
      | none => bookNewOrder user eventId quantity (some key)

/-- Reference: `cancel_order` (`booking_service.py:111`). -/
def cancelOrder (orderId user : UUID) : ApiProg Order := do
  match ← .getForUser orderId user .ret with
  | none => raiseDomain (.notFound s!"No order {orderId}")
  | some order =>
    if order.userId ≠ user then
      raiseDomain (.authorization "You do not have permission to cancel this order")
    else if order.status = .cancelled ∨ order.status = .expired then
      raiseDomain (.validation s!"Order is already {order.status.value}")
    else do
      releaseReservation order.reservationId
      .setStatus order .cancelled (.ret ())
      .commit (.ret ())
      .publish (.orderCancelled order.id order.reservationId) (.ret ())
      return { order with status := .cancelled }

/-- Reference: `_handle_payment_processed` (`order_status_worker.py:21`). -/
def handlePaymentProcessed (orderId : UUID) (success : Bool) : ApiProg Unit := do
  match ← .getOrder orderId .ret with
  | none => return
  | some order =>
    if order.status ≠ .pending then return
    else if success then do
      confirmReservation order.reservationId
      .setStatus order .confirmed (.ret ())
      .commit (.ret ())
      .publish (.ticketIssued order.id order.userId order.eventId) (.ret ())
    else do
      releaseReservation order.reservationId
      .setStatus order .cancelled (.ret ())
      .commit (.ret ())
      .publish (.orderCancelled order.id order.reservationId) (.ret ())

/-- Reference: `_handle_reservation_expired` (`order_status_worker.py:51`). -/
def handleReservationExpired (orderId : UUID) : ApiProg Unit := do
  match ← .getOrder orderId .ret with
  | none => return
  | some order =>
    if order.status ≠ .pending then return
    else do
      .setStatus order .expired (.ret ())
      .commit (.ret ())

/-- Reference: `_handle_message` of the order status worker (`order_status_worker.py:63`). -/
def orderStatusWorker : Message → ApiProg Unit
  | .paymentProcessed orderId success _ => handlePaymentProcessed orderId success
  | .reservationExpired _ orderId _ => handleReservationExpired orderId
  | _ => return

/-- Reference: `_handle_message` of the payment worker (`payment_worker.py:34`). Only an
`ORDER_CREATED` payload has the amount. -/
def paymentWorker : Message → ApiProg Unit
  | .orderCreated orderId _ _ _ totalPriceCents _ => do
    let (success, transactionRef) ←
      ApiProg.charge orderId totalPriceCents fun success ref => .ret (success, ref)
    .publish (.paymentProcessed orderId success transactionRef) (.ret ())
  | _ => .raise (.keyError "total_price_cents")

/-- The messages of a round of the reaper (`reservation_reaper.py:38`). -/
def publishExpired : List Inventory.Reservation → ApiProg Unit
  | [] => return
  | r :: rs => do
    .publish (.reservationExpired r.id r.orderId r.eventId) (.ret ())
    publishExpired rs

/-- One round of `run_reservation_reaper` (`reservation_reaper.py:36`). -/
def reservationReaper : ApiProg Unit :=
  .rpc .sweepExpiredReservations fun
    | .reservations rs => publishExpired rs
    | _ => .ret ()

/-- What a caller of the API, a delivered message or the reaper's timer starts. -/
inductive ApiCall where
  | bookTickets (user eventId : UUID) (quantity : ℤ) (idempotencyKey : Option String)
  | cancelOrder (orderId user : UUID)
  | orderStatusWorker (m : Message)
  | paymentWorker (m : Message)
  | reservationReaper
  deriving DecidableEq, Repr

/-- The program of a call; a worker returns nothing. -/
def ApiCall.body : ApiCall → ApiProg (Option Order)
  | .bookTickets user eventId quantity key =>
    return some (← Api.bookTickets user eventId quantity key)
  | .cancelOrder orderId user => return some (← Api.cancelOrder orderId user)
  | .orderStatusWorker m => do Api.orderStatusWorker m; return none
  | .paymentWorker m => do Api.paymentWorker m; return none
  | .reservationReaper => do Api.reservationReaper; return none

end EventSphere.Api
