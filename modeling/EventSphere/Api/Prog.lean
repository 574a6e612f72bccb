import EventSphere.Api.Models

/-!
# Programs of the API

The language of the request handlers and the workers: reads of the `orders` table, calls of the
Inventory service, an insert or a changed status that a commit makes visible, and messages. As for
the inventory, a program is a tree of operations, so that a handler can be run at once or
interleaved with others. No handler catches an exception, so an operation that fails ends its
program.
-/

namespace EventSphere.Api

/-- A program that returns an `α`. -/
inductive ApiProg (α : Type) where
  | ret (a : α)
  | raise (e : ApiError)
  /-- `OrderRepository.get_by_idempotency_key` (`order_repository.py:18`). -/
  | getByIdempotencyKey (user : UUID) (key : String) (k : Option Order → ApiProg α)
  /-- `OrderRepository.get_for_user` (`order_repository.py:14`). -/
  | getForUser (orderId user : UUID) (k : Option Order → ApiProg α)
  /-- `session.get(Order, order_id)`. -/
  | getOrder (orderId : UUID) (k : Option Order → ApiProg α)
  /-- `EventRepository.get`. -/
  | getEvent (eventId : UUID) (k : Option Event → ApiProg α)
  /-- `uuid.uuid4()`. -/
  | uuid4 (k : UUID → ApiProg α)
  /-- `_mock_charge` (`payment_worker.py:19`): whether it succeeded, and its reference. -/
  | charge (orderId : UUID) (amountCents : ℤ) (k : Bool → String → ApiProg α)
  /-- A call of the Inventory service; the continuation receives its result. -/
  | rpc (call : Inventory.Call) (k : Inventory.Result → ApiProg α)
  /-- `OrderRepository.add`: add the order and flush. -/
  | addOrder (order : Order) (k : ApiProg α)
  /-- Assign the status of a loaded order. -/
  | setStatus (order : Order) (status : OrderStatus) (k : ApiProg α)
  /-- `session.commit()`. -/
  | commit (k : ApiProg α)
  /-- `KafkaEventProducer.publish`. -/
  | publish (m : Message) (k : ApiProg α)

namespace ApiProg

variable {α β : Type}

/-- Sequencing: exceptions pass through, everything else continues. -/
def bind : ApiProg α → (α → ApiProg β) → ApiProg β
  | ret a, f => f a
  | raise e, _ => raise e
  | getByIdempotencyKey user key k, f => getByIdempotencyKey user key fun o => (k o).bind f
  | getForUser orderId user k, f => getForUser orderId user fun o => (k o).bind f
  | getOrder orderId k, f => getOrder orderId fun o => (k o).bind f
  | getEvent eventId k, f => getEvent eventId fun e => (k e).bind f
  | uuid4 k, f => uuid4 fun i => (k i).bind f
  | charge orderId amount k, f => charge orderId amount fun ok ref => (k ok ref).bind f
  | rpc call k, f => rpc call fun res => (k res).bind f
  | addOrder order k, f => addOrder order (k.bind f)
  | setStatus order status k, f => setStatus order status (k.bind f)
  | commit k, f => commit (k.bind f)
  | publish m k, f => publish m (k.bind f)

instance : Monad ApiProg where
  pure := ret
  bind := bind

/-! The equations below run a `do` block one operation at a time. -/

@[simp] theorem pure_eq (a : α) : (pure a : ApiProg α) = ret a := rfl

@[simp] theorem ret_bind (a : α) (f : α → ApiProg β) : ret a >>= f = f a := rfl

@[simp] theorem raise_bind (e : ApiError) (f : α → ApiProg β) :
    (raise e : ApiProg α) >>= f = raise e := rfl

@[simp] theorem getByIdempotencyKey_bind (user : UUID) (key : String)
    (k : Option Order → ApiProg α) (f : α → ApiProg β) :
    getByIdempotencyKey user key k >>= f = getByIdempotencyKey user key fun o => k o >>= f := rfl

@[simp] theorem getForUser_bind (orderId user : UUID) (k : Option Order → ApiProg α)
    (f : α → ApiProg β) :
    getForUser orderId user k >>= f = getForUser orderId user fun o => k o >>= f := rfl

@[simp] theorem getOrder_bind (orderId : UUID) (k : Option Order → ApiProg α)
    (f : α → ApiProg β) : getOrder orderId k >>= f = getOrder orderId fun o => k o >>= f := rfl

@[simp] theorem getEvent_bind (eventId : UUID) (k : Option Event → ApiProg α)
    (f : α → ApiProg β) : getEvent eventId k >>= f = getEvent eventId fun e => k e >>= f := rfl

@[simp] theorem uuid4_bind (k : UUID → ApiProg α) (f : α → ApiProg β) :
    uuid4 k >>= f = uuid4 fun i => k i >>= f := rfl

@[simp] theorem charge_bind (orderId : UUID) (amount : ℤ) (k : Bool → String → ApiProg α)
    (f : α → ApiProg β) :
    charge orderId amount k >>= f = charge orderId amount fun ok ref => k ok ref >>= f := rfl

@[simp] theorem rpc_bind (call : Inventory.Call) (k : Inventory.Result → ApiProg α)
    (f : α → ApiProg β) : rpc call k >>= f = rpc call fun res => k res >>= f := rfl

@[simp] theorem addOrder_bind (order : Order) (k : ApiProg α) (f : α → ApiProg β) :
    addOrder order k >>= f = addOrder order (k >>= f) := rfl

@[simp] theorem setStatus_bind (order : Order) (status : OrderStatus) (k : ApiProg α)
    (f : α → ApiProg β) : setStatus order status k >>= f = setStatus order status (k >>= f) := rfl

@[simp] theorem commit_bind (k : ApiProg α) (f : α → ApiProg β) :
    commit k >>= f = commit (k >>= f) := rfl

@[simp] theorem publish_bind (m : Message) (k : ApiProg α) (f : α → ApiProg β) :
    publish m k >>= f = publish m (k >>= f) := rfl

end ApiProg

end EventSphere.Api
