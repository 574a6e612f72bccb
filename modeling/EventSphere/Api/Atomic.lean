import EventSphere.Api.Orders
import EventSphere.Inventory.Accounting

/-!
# The booking system with atomic handlers

The composed system at the granularity of whole handlers: a booking, a cancellation, a message
handled by its worker, a round of the reaper or a call of the Inventory service from elsewhere runs
from beginning to end without interruption (`ApiProg.exec`). Published messages stay in the log and
are delivered in any order and any number of times; a message counts as handled when its handler has
returned, and not when it has raised.
-/

namespace EventSphere.Api

open Inventory (Settings InventoryDb)

/-- The orders, the inventory and the log of messages; `handled` has the positions of the messages
whose handlers returned, `cancelled` the orders that users cancelled. -/
structure Shop where
  orders : Table Order
  inventory : InventoryDb
  published : List Message
  handled : List ℕ
  cancelled : List UUID

namespace Shop

/-- The system before the first action. -/
def init : Shop := ⟨.empty, .empty, [], [], []⟩

end Shop

/-- What the environment supplies to a handler: its own answers and those to its inventory call. -/
structure Env where
  api : ApiInput
  inventory : Input UUID

/-- Run a program at once. Reads, messages and inventory calls take effect where they stand; an
added order or a changed status takes effect with the commit, and is lost if the program raises
before. -/
def ApiProg.exec {α : Type} (settings : Settings) (env : Env) :
    ApiProg α → ApiSession → Shop → Except ApiError α × Shop
  | ret a, _, s => (.ok a, s)
  | raise e, _, s => (.error e, s)
  | getByIdempotencyKey user key k, σ, s =>
    match scalarOneOrNone (ordersWithKey (σ.view s.orders) env.api.scan user key) with
    | .error e => (.error e, s)
    | .ok none => (k none).exec settings env { σ with missed := some (user, key) } s
    | .ok (some o) => (k (some o)).exec settings env σ s
  | getForUser orderId user k, σ, s =>
    (k (((σ.view s.orders).get orderId).filter (·.userId = user))).exec settings env σ s
  | getOrder orderId k, σ, s => (k ((σ.view s.orders).get orderId)).exec settings env σ s
  | getEvent _ k, σ, s => (k env.api.event).exec settings env σ s
  | uuid4 k, σ, s => (k env.api.uuid).exec settings env σ s
  | charge _ _ k, σ, s => (k env.api.paid env.api.transactionRef).exec settings env σ s
  | rpc c k, σ, s =>
    let (outcome, db) := (c.body settings).atomically s.inventory env.inventory
    match rpcResult outcome with
    | .error e => (.error (.domain e), { s with inventory := db })
    | .ok res => (k res).exec settings env σ { s with inventory := db }
  | addOrder o k, σ, s =>
    match insertError (σ.view s.orders) env.api.event o with
    | some e => (.error e, s)
    | none => k.exec settings env { σ with insert := some o } s
  | setStatus o st k, σ, s => k.exec settings env { σ with status := some (o, st) } s
  | commit k, σ, s => k.exec settings env .empty { s with orders := σ.view s.orders }
  | publish m k, σ, s => k.exec settings env σ { s with published := s.published ++ [m] }

/-- The actions of the composed system. -/
inductive ShopAction where
  | bookTickets (user eventId : UUID) (quantity : ℤ) (idempotencyKey : Option String) (env : Env)
  | cancelOrder (orderId user : UUID) (env : Env)
  | deliver (position : ℕ) (env : Env)
  | reservationReaper (env : Env)
  | inventory (call : Inventory.Call) (inp : Input UUID)

/-- The worker that is subscribed to the topic of a message (`topics.py:45`); the notification
worker changes nothing here. -/
def worker (m : Message) : ApiProg Unit :=
  match m with
  | .orderCreated .. => paymentWorker m
  | .paymentProcessed .. | .reservationExpired .. => orderStatusWorker m
  | .ticketIssued .. | .orderCancelled .. => return

namespace Shop

/-- The system after a program, with a note in the history if it returned. -/
def conclude {α : Type} (note : Shop → Shop) : Except ApiError α × Shop → Shop
  | (.ok _, s) => note s
  | (.error _, s) => s

/-- One action. -/
def step (settings : Settings) (s : Shop) : ShopAction → Option Shop
  | .bookTickets user eventId quantity key env =>
    some ((bookTickets user eventId quantity key).exec settings env .empty s).2
  | .cancelOrder orderId user env =>
    some (conclude (fun s' => { s' with cancelled := s'.cancelled ++ [orderId] })
      ((cancelOrder orderId user).exec settings env .empty s))
  | .deliver n env =>
    (s.published[n]?).map fun m => conclude (fun s' => { s' with handled := s'.handled ++ [n] })
      ((worker m).exec settings env .empty s)
  | .reservationReaper env => some (reservationReaper.exec settings env .empty s).2
  | .inventory call inp =>
    some { s with inventory := ((call.body settings).atomically s.inventory inp).2 }

/-! ## What an action can do -/

/-- The kinds of actions, with everything each of them does to the orders, the log and the history;
`db` is the inventory it leaves. -/
inductive StepKind (settings : Settings) (s : Shop) : ShopAction → Shop → Prop
  /-- A call of the inventory, or a handler that was refused. -/
  | idle {a : ShopAction} (db : InventoryDb) : StepKind settings s a { s with inventory := db }
  | booked {user eventId : UUID} {quantity : ℤ} {key : Option String} {env : Env}
      (db : InventoryDb) {o : Order} (hs : o.status = .pending) (ho : s.orders.get o.id = none) :
      StepKind settings s (.bookTickets user eventId quantity key env)
        ⟨s.orders.set o, db, s.published ++ [.orderCreated o.id o.eventId o.userId o.quantity
          o.totalPriceCents o.reservationId], s.handled, s.cancelled⟩
  | cancelled {orderId user : UUID} {env : Env} (db : InventoryDb) {o : Order}
      (ho : s.orders.get orderId = some o) (hs : o.status = .pending ∨ o.status = .confirmed) :
      StepKind settings s (.cancelOrder orderId user env)
        ⟨s.orders.set { o with status := .cancelled }, db,
          s.published ++ [.orderCancelled o.id o.reservationId], s.handled,
          s.cancelled ++ [orderId]⟩
  /-- A message without consequence: a notification, or one about an order that is not pending. -/
  | skipped {n : ℕ} {env : Env} {m : Message} (hm : s.published[n]? = some m)
      (hs : ∀ i success ref, m = .paymentProcessed i success ref →
        ∀ o, s.orders.get i = some o → o.status ≠ .pending) :
      StepKind settings s (.deliver n env) { s with handled := s.handled ++ [n] }
  | charged {n : ℕ} {env : Env} {i e u r : UUID} {q t : ℤ}
      (hm : s.published[n]? = some (.orderCreated i e u q t r)) :
      StepKind settings s (.deliver n env)
        { s with
          published := s.published ++ [.paymentProcessed i env.api.paid env.api.transactionRef]
          handled := s.handled ++ [n] }
  | confirmed {n : ℕ} {env : Env} {i : UUID} {ref : String} {o : Order}
      (hm : s.published[n]? = some (.paymentProcessed i true ref))
      (ho : s.orders.get i = some o) (hs : o.status = .pending)
      {res : Inventory.Result} (hres : rpcResult (((Inventory.Call.confirmReservation
        o.reservationId).body settings).atomically s.inventory env.inventory).1 = .ok res) :
      StepKind settings s (.deliver n env)
        ⟨s.orders.set { o with status := .confirmed },
          Inventory.serve settings s.inventory (.confirmReservation o.reservationId, env.inventory),
          s.published ++ [.ticketIssued o.id o.userId o.eventId], s.handled ++ [n], s.cancelled⟩
  | refused {n : ℕ} {env : Env} {i : UUID} {ref : String} (db : InventoryDb) {o : Order}
      (hm : s.published[n]? = some (.paymentProcessed i false ref))
      (ho : s.orders.get i = some o) (hs : o.status = .pending) :
      StepKind settings s (.deliver n env)
        ⟨s.orders.set { o with status := .cancelled }, db,
          s.published ++ [.orderCancelled o.id o.reservationId], s.handled ++ [n], s.cancelled⟩
  | expired {n : ℕ} {env : Env} {r i e : UUID} {o : Order}
      (hm : s.published[n]? = some (.reservationExpired r i e))
      (ho : s.orders.get i = some o) (hs : o.status = .pending) :
      StepKind settings s (.deliver n env)
        { s with
          orders := s.orders.set { o with status := .expired }
          handled := s.handled ++ [n] }
  | reaped {env : Env} (db : InventoryDb) (rs : List Inventory.Reservation) :
      StepKind settings s (.reservationReaper env)
        { s with
          inventory := db
          published := s.published ++ rs.map fun r => .reservationExpired r.id r.orderId r.eventId }

variable {settings : Settings} {s s' : Shop}

/-- The messages of a round of the reaper. -/
theorem exec_publishExpired (env : Env) (σ : ApiSession) (rs : List Inventory.Reservation)
    (s : Shop) :
    (publishExpired rs).exec settings env σ s =
      (.ok (), { s with
        published :=
          s.published ++ rs.map fun r => .reservationExpired r.id r.orderId r.eventId }) := by
  induction rs generalizing s with
  | nil => simp [publishExpired, ApiProg.exec]
  | cons r rs ih => simp [publishExpired, ApiProg.exec, ih]

/-- What a round of the reaper does. -/
theorem reap_kind (env : Env) :
    StepKind settings s (.reservationReaper env)
      (reservationReaper.exec settings env .empty s).2 := by
  unfold reservationReaper
  simp only [ApiProg.exec]
  split
  · exact .idle _
  · next res _ =>
    cases res with
    | reservations rs => rw [exec_publishExpired]; exact .reaped _ rs
    | inventory | reservation => exact .idle _

variable (settings) in
/-- The inventory after the call of a booking. -/
def reserved (s : Shop) (eventId : UUID) (quantity : ℤ) (env : Env) :
    Outcome Inventory.InventoryError Inventory.Result × InventoryDb :=
  ((Inventory.Call.reserveSeats eventId env.api.uuid quantity).body settings).atomically
    s.inventory env.inventory

/-- The order that a booking makes of its reservation. -/
def newOrder (user eventId : UUID) (quantity : ℤ) (key : Option String) (env : Env) (ev : Event)
    (r : Inventory.Reservation) : Order :=
  { id := env.api.uuid, userId := user, eventId, reservationId := r.id, quantity,
    unitPriceCents := ev.priceCents, totalPriceCents := ev.priceCents * quantity,
    status := .pending, idempotencyKey := key }

/-- The system with the booked order. -/
def withOrder (s : Shop) (db : InventoryDb) (o : Order) : Shop :=
  ⟨s.orders.set o, db, s.published ++ [.orderCreated o.id o.eventId o.userId o.quantity
    o.totalPriceCents o.reservationId], s.handled, s.cancelled⟩

/-- The kinds of bookings after the lookup of their key, with everything each of them does. -/
inductive BookKind (settings : Settings) (s : Shop) (user eventId : UUID) (quantity : ℤ)
    (key : Option String) (env : Env) : Except ApiError Order × Shop → Prop
  | noEvent (h : env.api.event = none) :
      BookKind settings s user eventId quantity key env
        (.error (.domain (.notFound s!"No event {eventId}")), s)
  | refused {e : ApiError}
      (h : ∀ r, rpcResult (reserved settings s eventId quantity env).1 ≠ .ok (.reservation r)) :
      BookKind settings s user eventId quantity key env
        (.error e, { s with inventory := (reserved settings s eventId quantity env).2 })
  | rejected {ev : Event} {r : Inventory.Reservation} {e : ApiError} (hev : env.api.event = some ev)
      (hr : rpcResult (reserved settings s eventId quantity env).1 = .ok (.reservation r))
      (h : insertError s.orders env.api.event (newOrder user eventId quantity key env ev r) =
        some e) :
      BookKind settings s user eventId quantity key env
        (.error e, { s with inventory := (reserved settings s eventId quantity env).2 })
  | booked {ev : Event} {r : Inventory.Reservation} (hev : env.api.event = some ev)
      (hr : rpcResult (reserved settings s eventId quantity env).1 = .ok (.reservation r))
      (h : insertError s.orders env.api.event (newOrder user eventId quantity key env ev r) =
        none) :
      BookKind settings s user eventId quantity key env
        (.ok (newOrder user eventId quantity key env ev r),
          s.withOrder (reserved settings s eventId quantity env).2
            (newOrder user eventId quantity key env ev r))

/-- Every booking is of one of the kinds. -/
theorem bookNewOrder_kind (user eventId : UUID) (quantity : ℤ) (key : Option String) (env : Env)
    (missed : Option (UUID × String)) :
    BookKind settings s user eventId quantity key env
      ((bookNewOrder user eventId quantity key).exec settings env ⟨none, none, missed⟩ s) := by
  unfold bookNewOrder reserveSeats
  simp only [ApiProg.getEvent_bind, ApiProg.exec, ApiProg.ret_bind]
  cases hev : env.api.event with
  | none => exact .noEvent hev
  | some ev =>
    simp only [ApiProg.uuid4_bind, ApiProg.exec, ApiProg.ret_bind, ApiProg.rpc_bind]
    split
    · next e he => exact .refused fun r hr => by cases he.symm.trans hr
    · next res hres =>
      cases res with
      | reservation r =>
        simp only [reservationOf, ApiProg.ret_bind, ApiProg.addOrder_bind, ApiProg.exec]
        split
        · next e he => exact .rejected hev hres he
        · next hnew =>
          simp only [ApiProg.commit_bind, ApiProg.publish_bind, ApiProg.ret_bind, ApiProg.exec]
          exact .booked hev hres hnew
      | inventory | reservations => exact .refused fun r hr => by cases hres.symm.trans hr

/-- What a booking does after the lookup of its key. -/
theorem bookNew_kind (user eventId : UUID) (quantity : ℤ) (key key' : Option String) (env : Env)
    (missed : Option (UUID × String)) :
    StepKind settings s (.bookTickets user eventId quantity key env)
      ((bookNewOrder user eventId quantity key').exec settings env ⟨none, none, missed⟩ s).2 := by
  have hkind : BookKind settings s user eventId quantity key' env _ :=
    bookNewOrder_kind user eventId quantity key' env missed
  generalize (bookNewOrder user eventId quantity key').exec settings env ⟨none, none, missed⟩ s = x
    at hkind
  cases hkind with
  | noEvent => exact .idle s.inventory
  | refused | rejected => exact .idle _
  | booked hev hr hnew => exact .booked _ rfl (insertError_eq_none.1 hnew).2.2.1.get_eq_none

/-- What a booking does. -/
theorem book_kind (user eventId : UUID) (quantity : ℤ) (key : Option String) (env : Env) :
    StepKind settings s (.bookTickets user eventId quantity key env)
      ((bookTickets user eventId quantity key).exec settings env .empty s).2 := by
  unfold bookTickets
  split
  · exact bookNew_kind ..
  · split
    · exact bookNew_kind ..
    · simp only [ApiProg.getByIdempotencyKey_bind, ApiProg.exec, ApiProg.ret_bind]
      split
      · exact .idle s.inventory
      · exact bookNew_kind ..
      · exact .idle s.inventory

variable (settings) in
/-- The end that `cancel_order` and both branches of `_handle_payment_processed` share: call the
inventory, then change the status, commit and publish. -/
theorem exec_settle {α : Type} (env : Env) {o : Order} (ho : s.orders.get o.id = some o)
    (c : Inventory.Call) (st : OrderStatus) (m : Message) (a : α) :
    let r := (ApiProg.rpc c fun _ => .setStatus o st (.commit (.publish m (.ret a)))).exec settings
      env .empty s
    let db := Inventory.serve settings s.inventory (c, env.inventory)
    (∃ e, rpcResult ((c.body settings).atomically s.inventory env.inventory).1 = .error e ∧
      r = (.error (.domain e), { s with inventory := db })) ∨
    (∃ res, rpcResult ((c.body settings).atomically s.inventory env.inventory).1 = .ok res) ∧
      r = (.ok a, ⟨s.orders.set { o with status := st }, db, s.published ++ [m], s.handled,
        s.cancelled⟩) := by
  simp only [ApiProg.exec]
  split
  · next e he => exact .inl ⟨e, he, rfl⟩
  · next res hres =>
    refine .inr ⟨⟨res, hres⟩, ?_⟩
    rw [ApiSession.empty, ApiSession.view_status ho]
    rfl

/-- What a cancellation does. -/
theorem cancel_kind (orderId user : UUID) (env : Env) :
    StepKind settings s (.cancelOrder orderId user env)
      (conclude (fun s' => { s' with cancelled := s'.cancelled ++ [orderId] })
        ((cancelOrder orderId user).exec settings env .empty s)) := by
  unfold cancelOrder releaseReservation
  simp only [ApiProg.getForUser_bind, ApiProg.exec, ApiProg.ret_bind, ApiSession.view_empty]
  cases hf : (s.orders.get orderId).filter (·.userId = user) with
  | none => exact .idle s.inventory
  | some o =>
    obtain ⟨ho, -⟩ := Option.filter_eq_some_iff.1 hf
    obtain rfl := s.orders.pk_of_get ho
    dsimp only
    split
    · exact .idle s.inventory
    · split
      · exact .idle s.inventory
      · next hs =>
        have hs : o.status = .pending ∨ o.status = .confirmed := by
          cases h : o.status <;> simp_all
        simp only [ApiProg.rpc_bind, ApiProg.ret_bind, ApiProg.setStatus_bind, ApiProg.commit_bind,
          ApiProg.publish_bind, ApiProg.pure_eq]
        rcases exec_settle settings env ho (.releaseReservation o.reservationId false) .cancelled
          (.orderCancelled o.id o.reservationId) { o with status := .cancelled } with
          ⟨e, -, he⟩ | ⟨-, he⟩
        · rw [he]
          exact .idle _
        · rw [he]
          exact .cancelled _ ho hs

/-- What the handling of a payment does. -/
theorem payment_kind {n : ℕ} {i : UUID} {success : Bool} {ref : String} (env : Env)
    (hm : s.published[n]? = some (.paymentProcessed i success ref)) :
    StepKind settings s (.deliver n env)
      (conclude (fun s' => { s' with handled := s'.handled ++ [n] })
        ((handlePaymentProcessed i success).exec settings env .empty s)) := by
  unfold handlePaymentProcessed confirmReservation releaseReservation
  simp only [ApiProg.getOrder_bind, ApiProg.exec, ApiProg.ret_bind, ApiSession.view_empty]
  cases ho : s.orders.get i with
  | none =>
    exact .skipped hm fun i' success' ref' hm' o ho' => by cases hm'; cases ho.symm.trans ho'
  | some o =>
    dsimp only
    split
    · next hs =>
      exact .skipped hm fun i' success' ref' hm' o' ho' => by
        cases hm'; cases ho.symm.trans ho'; exact hs
    · next hs =>
      obtain rfl := s.orders.pk_of_get ho
      have hs := not_not.1 hs
      cases success with
      | true =>
        rw [if_pos rfl]
        simp only [ApiProg.rpc_bind, ApiProg.ret_bind, ApiProg.setStatus_bind, ApiProg.commit_bind]
        rcases exec_settle settings env ho (.confirmReservation o.reservationId) .confirmed
          (.ticketIssued o.id o.userId o.eventId) () with
          ⟨e, -, he⟩ | ⟨⟨res, hres⟩, he⟩
        · rw [he]
          exact .idle _
        · rw [he]
          exact .confirmed hm ho hs hres
      | false =>
        rw [if_neg Bool.false_ne_true]
        simp only [ApiProg.rpc_bind, ApiProg.ret_bind, ApiProg.setStatus_bind, ApiProg.commit_bind]
        rcases exec_settle settings env ho (.releaseReservation o.reservationId false) .cancelled
          (.orderCancelled o.id o.reservationId) () with
          ⟨e, -, he⟩ | ⟨-, he⟩
        · rw [he]
          exact .idle _
        · rw [he]
          exact .refused _ hm ho hs

/-- What the handling of an expired reservation does. -/
theorem expired_kind {n : ℕ} {r i e : UUID} (env : Env)
    (hm : s.published[n]? = some (.reservationExpired r i e)) :
    StepKind settings s (.deliver n env)
      (conclude (fun s' => { s' with handled := s'.handled ++ [n] })
        ((handleReservationExpired i).exec settings env .empty s)) := by
  unfold handleReservationExpired
  simp only [ApiProg.getOrder_bind, ApiProg.exec, ApiProg.ret_bind, ApiSession.view_empty]
  cases ho : s.orders.get i with
  | none => exact .skipped hm nofun
  | some o =>
    dsimp only
    split
    · exact .skipped hm nofun
    · next hs =>
      obtain rfl := s.orders.pk_of_get ho
      simp only [ApiProg.setStatus_bind, ApiProg.ret_bind, ApiProg.exec]
      rw [ApiSession.empty, ApiSession.view_status ho]
      exact .expired hm ho (not_not.1 hs)

/-- Every step is of one of the kinds. -/
theorem step_kind {a : ShopAction} (h : s.step settings a = some s') :
    StepKind settings s a s' := by
  cases a with
  | bookTickets user eventId quantity key env => cases h; exact book_kind ..
  | cancelOrder orderId user env => cases h; exact cancel_kind ..
  | deliver n env =>
    obtain ⟨m, hm, rfl⟩ := Option.map_eq_some_iff.1 h
    cases m with
    | orderCreated => exact .charged hm
    | paymentProcessed => exact payment_kind env hm
    | reservationExpired => exact expired_kind env hm
    | ticketIssued | orderCancelled => exact .skipped hm nofun
  | reservationReaper env => cases h; exact reap_kind ..
  | inventory call inp => cases h; exact .idle _

/-- **Atomic handlers keep the accounts of the inventory**, whatever they do. -/
theorem exec_accounted {α : Type} (env : Env) (p : ApiProg α) (σ : ApiSession) (s : Shop)
    (h : Inventory.Accounted s.inventory) :
    Inventory.Accounted (p.exec settings env σ s).2.inventory := by
  induction p generalizing σ s with
  | ret a | raise e => exact h
  | getByIdempotencyKey user key k ih =>
    simp only [ApiProg.exec]
    split
    · exact h
    · exact ih _ _ _ h
    · exact ih _ _ _ h
  | getForUser _ _ k ih | getOrder _ k ih | getEvent _ k ih | uuid4 k ih =>
    exact ih _ _ _ h
  | charge _ _ k ih => exact ih _ _ _ _ h
  | rpc c k ih =>
    have hserve : Inventory.Accounted (Inventory.serve settings s.inventory (c, env.inventory)) :=
      h.serve (c, env.inventory)
    simp only [ApiProg.exec]
    split
    · exact hserve
    · exact ih _ _ _ hserve
  | addOrder o k ih =>
    simp only [ApiProg.exec]
    split
    · exact h
    · exact ih _ _ h
  | setStatus _ _ k ih | commit k ih | publish m k ih => exact ih _ _ h

/-- A note in the history leaves the inventory alone. -/
theorem conclude_accounted {α : Type} {note : Shop → Shop} {r : Except ApiError α × Shop}
    (hn : ∀ s, (note s).inventory = s.inventory) (h : Inventory.Accounted r.2.inventory) :
    Inventory.Accounted (conclude note r).inventory := by
  obtain ⟨_ | _, s⟩ := r
  · exact h
  · rw [conclude, hn]; exact h

/-- Every action keeps the accounts of the inventory. -/
theorem accounted_step {a : ShopAction} (h : s.step settings a = some s')
    (hs : Inventory.Accounted s.inventory) : Inventory.Accounted s'.inventory := by
  cases a with
  | bookTickets | reservationReaper => cases h; exact exec_accounted _ _ _ _ hs
  | cancelOrder =>
    cases h
    exact conclude_accounted (fun _ => rfl) (exec_accounted _ _ _ _ hs)
  | deliver n env =>
    obtain ⟨m, hm, rfl⟩ := Option.map_eq_some_iff.1 h
    exact conclude_accounted (fun _ => rfl) (exec_accounted _ _ _ _ hs)
  | inventory call inp => cases h; exact hs.serve (call, inp)

/-! ## Bookings of one event -/

/-- The system with an event of two seats and without orders. -/
def twoSeats : Shop :=
  ⟨.empty, Inventory.serveAll .default [(.initializeInventory ⟨1⟩ 2, ⟨0, ⟨0⟩, .ascending⟩)], [], [],
    []⟩

/-- Answers at the time `now`: an event that exists, a payment that succeeds, and one key for a new
order and one for its reservation. -/
def answers (now : Instant) : Env :=
  ⟨⟨⟨now, ⟨3⟩, .ascending⟩, some ⟨1000⟩, true, "mock_txn_0"⟩, ⟨now, ⟨4⟩, .ascending⟩⟩

/-- An order is booked and its payment succeeds, but the reservation has expired before the payment
worker gets to it. The messages so far are `ORDER_CREATED`, `RESERVATION_EXPIRED` and
`PAYMENT_PROCESSED`. -/
def latePayment : List ShopAction :=
  [.inventory (.initializeInventory ⟨1⟩ 1) ⟨0, ⟨0⟩, .ascending⟩,
    .bookTickets ⟨2⟩ ⟨1⟩ 1 none (answers 0), .reservationReaper (answers 600000001),
    .deliver 0 (answers 600000002)]

end Shop

end EventSphere.Api
