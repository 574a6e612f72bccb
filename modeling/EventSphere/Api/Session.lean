import EventSphere.Api.Handlers

/-!
# Sessions of the API and the next operation of a program

The handlers hold at most one added order and one changed status at a time, so that is what a
session of the API keeps until its commit. `ApiProg.next` runs the first operation of a program on
the committed orders; calls of the Inventory service and messages are left to the system around it.
-/

namespace EventSphere.Api

/-- What the environment supplies to a program's next operation: besides a random key and a scan
order, the event that is looked up and the answer of the payment gateway. -/
structure ApiInput extends Input UUID where
  event : Option Event
  paid : Bool
  transactionRef : String

/-- The state of a session: the flushed order and the assigned status, with the order it was loaded
as. `missed` records the key whose lookup found nothing until the session commits. -/
structure ApiSession where
  insert : Option Order
  status : Option (Order × OrderStatus)
  missed : Option (UUID × String)
  deriving DecidableEq, Repr

namespace ApiSession

/-- A new session. -/
def empty : ApiSession := ⟨none, none, none⟩

/-- The `UPDATE` of a commit: it sets the status of the row with the key and checks nothing. -/
def update (status : Option (Order × OrderStatus)) (orders : Table Order) : Table Order :=
  match status with
  | none => orders
  | some (order, st) =>
    match orders.get order.id with
    | some cur => orders.set { cur with status := st }
    | none => orders

/-- What the session sees, and what its commit makes of the committed orders. -/
def view (σ : ApiSession) (orders : Table Order) : Table Order :=
  update σ.status (σ.insert.elim orders orders.set)

@[simp] theorem view_empty (orders : Table Order) : empty.view orders = orders := rfl

/-- The commit of an added order. -/
@[simp] theorem view_insert (orders : Table Order) (o : Order) (missed : Option (UUID × String)) :
    view ⟨some o, none, missed⟩ orders = orders.set o := rfl

/-- The commit of a changed status. -/
theorem view_status {orders : Table Order} {o cur : Order} (h : orders.get o.id = some cur)
    (st : OrderStatus) (missed : Option (UUID × String)) :
    view ⟨none, some (o, st), missed⟩ orders = orders.set { cur with status := st } := by
  simp [view, update, h]

end ApiSession

/-- The range of the `Integer` columns. -/
def Int32 (n : ℤ) : Prop := -2147483648 ≤ n ∧ n ≤ 2147483647

instance (n : ℤ) : Decidable (Int32 n) := inferInstanceAs (Decidable (_ ∧ _))

/-- The values of the order fit their columns (`order.py:44`, `order.py:63`). -/
def Order.Fits (o : Order) : Prop :=
  Int32 o.quantity ∧ Int32 o.unitPriceCents ∧ Int32 o.totalPriceCents ∧
  ∀ key ∈ o.idempotencyKey, key.length ≤ 128

instance (o : Order) : Decidable o.Fits := inferInstanceAs (Decidable (_ ∧ _ ∧ _ ∧ ∀ key ∈ _, _))

/-- No row of the table clashes with the order. -/
def Order.IsNew (o : Order) (orders : Table Order) : Prop :=
  ∀ i ∈ orders.keys, ∀ o' ∈ orders.get i, ¬ o.Clashes o'

instance (o : Order) (orders : Table Order) : Decidable (o.IsNew orders) :=
  inferInstanceAs (Decidable (∀ i ∈ _, ∀ o' ∈ _, _))

/-- The `INSERT` of an added order: its values are checked against the columns, then against
`ck_orders_quantity_positive`, the primary key, the unique index and the foreign key to the event,
which may have been deleted since it was looked up. -/
def insertError (orders : Table Order) (event : Option Event) (o : Order) : Option ApiError :=
  if ¬ o.Fits then some .dataError
  else if o.quantity ≤ 0 ∨ ¬ o.IsNew orders ∨ event = none then some .integrity
  else none

/-- An accepted insert. -/
theorem insertError_eq_none {orders : Table Order} {event : Option Event} {o : Order} :
    insertError orders event o = none ↔
      o.Fits ∧ 0 < o.quantity ∧ o.IsNew orders ∧ event ≠ none := by
  unfold insertError
  split
  · next h => simp [h]
  · next h =>
    split
    · next h' => simp only [reduceCtorEq, false_iff]; rintro ⟨-, h1, h2, h3⟩; simp_all; omega
    · next h' => simp only [not_or, not_not, not_le] at h h'; simp [h, h']

/-- The primary key of a new order is free. -/
theorem Order.IsNew.get_eq_none {o : Order} {orders : Table Order} (h : o.IsNew orders) :
    orders.get o.id = none := by
  cases ho : orders.get o.id with
  | none => rfl
  | some o' =>
    exact absurd (.inl (orders.pk_of_get ho).symm) (h o.id (Table.mem_of_get ho) o' ho)

/-- The orders with the user and the key, as the database scans them. -/
def ordersWithKey (orders : Table Order) (scan : ScanOrder UUID) (user : UUID) (key : String) :
    List Order :=
  (scan.order (orders.keys.filter fun i => (orders.get i).any (·.HasKey user key))).filterMap
    orders.get

/-- `scalar_one_or_none`. -/
def scalarOneOrNone : List Order → Except ApiError (Option Order)
  | [] => .ok none
  | [o] => .ok (some o)
  | _ => .error .multipleResults

/-- What the next operation of a program does. -/
inductive ApiNext (α : Type) where
  | ret (a : α)
  | raise (e : ApiError)
  | continue (p : ApiProg α) (σ : ApiSession)
  | call (c : Inventory.Call) (k : Inventory.Result → ApiProg α)
  | commit (p : ApiProg α) (orders : Table Order)
  | publish (m : Message) (p : ApiProg α)

/-- The next operation of a program. -/
def ApiProg.next {α : Type} (orders : Table Order) (inp : ApiInput) :
    ApiProg α → ApiSession → ApiNext α
  | ret a, _ => .ret a
  | raise e, _ => .raise e
  | getByIdempotencyKey user key k, σ =>
    match scalarOneOrNone (ordersWithKey (σ.view orders) inp.scan user key) with
    | .error e => .raise e
    | .ok none => .continue (k none) { σ with missed := some (user, key) }
    | .ok (some o) => .continue (k (some o)) σ
  | getForUser orderId user k, σ =>
    .continue (k (((σ.view orders).get orderId).filter (·.userId = user))) σ
  | getOrder orderId k, σ => .continue (k ((σ.view orders).get orderId)) σ
  | getEvent _ k, σ => .continue (k inp.event) σ
  | uuid4 k, σ => .continue (k inp.uuid) σ
  | charge _ _ k, σ => .continue (k inp.paid inp.transactionRef) σ
  | rpc c k, _ => .call c k
  | addOrder o k, σ =>
    match insertError (σ.view orders) inp.event o with
    | some e => .raise e
    | none => .continue k { σ with insert := some o }
  | setStatus o st k, σ => .continue k { σ with status := some (o, st) }
  | commit k, σ => .commit k (σ.view orders)
  | publish m k, _ => .publish m k

/-- Only a program that has ended returns. -/
theorem ApiProg.next_ret {α : Type} {orders : Table Order} {inp : ApiInput} {p : ApiProg α}
    {σ : ApiSession} {a : α} (h : p.next orders inp σ = .ret a) : p = .ret a := by
  cases p with
  | ret a => cases h; rfl
  | getByIdempotencyKey user key k | addOrder o k => simp only [next] at h; split at h <;> cases h
  | _ => cases h

/-- An operation that leaves the session's reach is the one that says so. -/
theorem ApiProg.next_outside {α : Type} {orders : Table Order} {inp : ApiInput} {p : ApiProg α}
    {σ : ApiSession} :
    (∀ c k, p.next orders inp σ = .call c k → p = .rpc c k) ∧
    (∀ p' t, p.next orders inp σ = .commit p' t → p = .commit p' ∧ t = σ.view orders) ∧
    ∀ m p', p.next orders inp σ = .publish m p' → p = .publish m p' := by
  cases p with
  | getByIdempotencyKey user key k | addOrder o k =>
    simp only [next]
    refine ⟨?_, ?_, ?_⟩ <;> intro _ _ h <;> split at h <;> cases h
  | rpc c k => exact ⟨fun _ _ h => by cases h; rfl, nofun, nofun⟩
  | commit k => exact ⟨nofun, fun _ _ h => by cases h; exact ⟨rfl, rfl⟩, nofun⟩
  | publish m k => exact ⟨nofun, nofun, fun _ _ h => by cases h; rfl⟩
  | _ => exact ⟨nofun, nofun, nofun⟩

end EventSphere.Api
