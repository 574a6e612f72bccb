import EventSphere.Inventory.Service

/-!
# Orders and messages

The `orders` table of the API (`services/api/app/models/order.py`) and the messages that connect the
API, its workers and the reaper over Kafka (`services/shared/kafka/schemas.py`). The identifiers
that travel as text (`reservation_id`, the fields of a payload) are kept as the UUIDs they spell.
-/

namespace EventSphere.Api

open EventSphere

/-- Reference: `Order` (`order.py:16`); the timestamps are read by nothing. -/
structure Order where
  id : UUID
  userId : UUID
  eventId : UUID
  reservationId : UUID
  quantity : ℤ
  unitPriceCents : ℤ
  totalPriceCents : ℤ
  status : OrderStatus
  idempotencyKey : Option String
  deriving DecidableEq, Repr

/-- Reference: `UUIDPrimaryKeyMixin.id` (`base.py:24`). -/
instance : PrimaryKey Order UUID := ⟨Order.id⟩

@[simp] theorem pk_order (o : Order) : pk o = o.id := rfl

@[simp] theorem get_set_order (t : Table Order) (o : Order) : (t.set o).get o.id = some o :=
  Table.get_set_self t o

/-- The order carries the user and the key. -/
def Order.HasKey (o : Order) (user : UUID) (key : String) : Prop :=
  o.userId = user ∧ o.idempotencyKey = some key

instance (o : Order) (user : UUID) (key : String) : Decidable (o.HasKey user key) :=
  inferInstanceAs (Decidable (_ ∧ _))

/-- Two orders that cannot both be in the table: one primary key, or one key of the partial unique
index `ix_orders_user_idempotency_key` (`order.py:26`). -/
def Order.Clashes (o o' : Order) : Prop :=
  o.id = o'.id ∨ o.userId = o'.userId ∧ o.idempotencyKey = o'.idempotencyKey ∧
    o.idempotencyKey ≠ none

instance (o o' : Order) : Decidable (o.Clashes o') := inferInstanceAs (Decidable (_ ∨ _))

/-- What `book_tickets` reads of an event. -/
structure Event where
  priceCents : ℤ
  deriving DecidableEq, Repr

/-- The messages of the booking flow, by `EventType` (`topics.py:4`), with their payloads
(`schemas.py:46`). -/
inductive Message where
  | orderCreated (orderId eventId userId : UUID) (quantity totalPriceCents : ℤ)
      (reservationId : UUID)
  | paymentProcessed (orderId : UUID) (success : Bool) (transactionRef : String)
  | ticketIssued (orderId userId eventId : UUID)
  | orderCancelled (orderId reservationId : UUID)
  | reservationExpired (reservationId orderId eventId : UUID)
  deriving DecidableEq, Repr

/-- The key a message is published with: messages of one key keep their order. -/
def Message.key : Message → UUID
  | orderCreated orderId _ _ _ _ _ => orderId
  | paymentProcessed orderId _ _ => orderId
  | ticketIssued orderId _ _ => orderId
  | orderCancelled orderId _ => orderId
  | reservationExpired _ _ eventId => eventId

/-- What a handler of the API can raise: a domain error, a violated constraint of the `orders`
table, a value that is too long for its column, a query with more rows than one, or a payload
without the field it is asked for. -/
inductive ApiError where
  | domain (e : DomainError)
  | integrity
  | dataError
  | multipleResults
  | keyError (field : String)
  deriving DecidableEq, Repr

/-- The error of the gRPC client for a call that did not return: the servicer aborts with a status
for the domain errors it knows, and everything else arrives as `UNKNOWN`, with details that gRPC
appends and nobody reads. Reference: `InventoryServicer` (`inventory_servicer.py:58`) and
`_raise_domain_error` (`inventory_client.py:18`). -/
def rpcError : Outcome Inventory.InventoryError Inventory.Result → DomainError
  | .raised (.domain (.notFound msg)) => .notFound msg
  | .raised (.domain (.capacityExceeded msg)) => .capacityExceeded msg
  | .raised (.domain (.conflict msg)) => .conflict msg
  | _ => .other "Inventory service error: StatusCode.UNKNOWN"

/-- The value of the response, if the call returned. -/
def rpcResult : Outcome Inventory.InventoryError Inventory.Result →
      Except DomainError Inventory.Result
  | .returned res => .ok res
  | o => .error (rpcError o)

end EventSphere.Api
