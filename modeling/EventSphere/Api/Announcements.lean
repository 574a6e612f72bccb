import EventSphere.Api.Coherence

/-!
# Announced commits

`book_tickets`, `cancel_order` and `_handle_payment_processed` commit first and tell the other
services afterwards: the commit of a new order is followed by an `ORDER_CREATED`, that of a
confirmed order by a `TICKET_ISSUED` and that of a cancelled one by an `ORDER_CANCELLED`. Between
the two steps the request owes the message (`Request.owed`). `ApiProg.Tells` says of a program that
it owes exactly what it has committed and publishes nothing else of these kinds; `System.Telling`
carries that through the interleaved system, where a request can fail while it owes a message, and
the message is then never published.
-/

namespace EventSphere.Api

open Inventory (Settings)

/-- The message about a new order. Reference: `OrderCreatedPayload` (`booking_service.py:89`). -/
def Order.created (o : Order) : Message :=
  .orderCreated o.id o.eventId o.userId o.quantity o.totalPriceCents o.reservationId

/-- The message about the new status of an order; an expired one is not announced. -/
def Order.settled (o : Order) : OrderStatus → Option Message
  | .confirmed => some (.ticketIssued o.id o.userId o.eventId)
  | .cancelled => some (.orderCancelled o.id o.reservationId)
  | .pending | .expired => none

/-- The message that has to follow the commit of a session. -/
def ApiSession.announcement (σ : ApiSession) : Option Message :=
  match σ.insert with
  | some o => some o.created
  | none => σ.status.bind fun (o, st) => o.settled st

/-- The message announces a commit of the `orders` table. -/
def Message.announces : Message → Bool
  | orderCreated .. | ticketIssued .. | orderCancelled .. => true
  | paymentProcessed .. | reservationExpired .. => false

/-- A message about a status is the announcement of a commit. -/
theorem Order.settled_announces {o : Order} {st : OrderStatus} {m : Message}
    (h : o.settled st = some m) : m.announces = true := by
  cases st <;> cases h <;> rfl

/-- What has become of an order was announced by the same message. -/
theorem Order.Succeeds.created_eq {o o' : Order} (h : o'.Succeeds o) : o'.created = o.created := by
  rw [h.columns]
  rfl

namespace ApiProg

/-- The announcement a program is about to publish. -/
def owed {α : Type} : ApiProg α → Option Message
  | publish m _ => if m.announces then some m else none
  | _ => none

/-- The program announces its commits: the message follows the commit at once, and no other
operation is followed by an announcement. -/
def Tells {α : Type} : ApiProg α → ApiSession → Prop
  | ret _, _ | raise _, _ => True
  | getByIdempotencyKey user key f, σ =>
    (∀ o, (f (some o)).owed = none ∧ Tells (f (some o)) σ) ∧
    (f none).owed = none ∧ Tells (f none) { σ with missed := some (user, key) }
  | getForUser _ _ f, σ | getOrder _ f, σ => ∀ o, (f o).owed = none ∧ Tells (f o) σ
  | getEvent _ f, σ => ∀ e, (f e).owed = none ∧ Tells (f e) σ
  | uuid4 f, σ => ∀ i, (f i).owed = none ∧ Tells (f i) σ
  | charge _ _ f, σ => ∀ paid ref, (f paid ref).owed = none ∧ Tells (f paid ref) σ
  | rpc _ f, σ => ∀ res, (f res).owed = none ∧ Tells (f res) σ
  | addOrder o f, σ => f.owed = none ∧ Tells f { σ with insert := some o }
  | setStatus o st f, σ => f.owed = none ∧ Tells f { σ with status := some (o, st) }
  | commit f, σ => f.owed = σ.announcement ∧ Tells f .empty
  | publish _ f, σ => f.owed = none ∧ Tells f σ

/-- The next operation of a program that announces its commits leaves such a program, which owes
nothing. -/
theorem Tells.continue {α : Type} {orders : Table Order} {inp : ApiInput} {p p' : ApiProg α}
    {σ σ' : ApiSession} (h : p.Tells σ) (hn : p.next orders inp σ = .continue p' σ') :
    p'.owed = none ∧ p'.Tells σ' := by
  cases p with
  | getByIdempotencyKey user key f =>
    simp only [next] at hn
    split at hn
    · cases hn
    · cases hn; exact h.2
    · next o _ => cases hn; exact h.1 o
  | addOrder o f =>
    simp only [next] at hn
    split at hn
    · cases hn
    · cases hn; exact h
  | setStatus o st f => cases hn; exact h
  | getForUser i user f | getOrder i f | getEvent i f | uuid4 f => cases hn; exact h _
  | charge i amount f => cases hn; exact h _ _
  | ret | raise | rpc | commit | publish => cases hn

end ApiProg

/-! ## The handlers -/

/-- The part of `book_tickets` after the lookup. -/
theorem bookNewOrder_tells (user eventId : UUID) (quantity : ℤ) (idempotencyKey : Option String)
    (missed : Option (UUID × String)) :
    (do return some (← bookNewOrder user eventId quantity idempotencyKey) :
      ApiProg (Option Order)).Tells ⟨none, none, missed⟩ := by
  unfold bookNewOrder reserveSeats
  intro event
  cases event with
  | none => exact ⟨rfl, trivial⟩
  | some event =>
    refine ⟨rfl, fun i => ⟨rfl, fun res => ?_⟩⟩
    cases res with
    | reservation r => exact ⟨rfl, rfl, rfl, rfl, trivial⟩
    | inventory | reservations => exact ⟨rfl, trivial⟩

/-- `book_tickets`. -/
theorem bookTickets_tells (user eventId : UUID) (quantity : ℤ) (idempotencyKey : Option String) :
    (ApiCall.bookTickets user eventId quantity idempotencyKey).body.owed = none ∧
    (ApiCall.bookTickets user eventId quantity idempotencyKey).body.Tells .empty := by
  unfold ApiCall.body bookTickets
  cases idempotencyKey with
  | none => exact ⟨rfl, bookNewOrder_tells _ _ _ _ _⟩
  | some k =>
    dsimp only
    split
    · exact ⟨rfl, bookNewOrder_tells _ _ _ _ _⟩
    · exact ⟨rfl, fun o => ⟨rfl, trivial⟩, rfl, bookNewOrder_tells _ _ _ _ _⟩

/-- The end that `cancel_order` and both branches of `_handle_payment_processed` share. -/
theorem settle_tells {o : Order} {st : OrderStatus} {c : Inventory.Call} {m : Message}
    {a : Option Order} (hm : o.settled st = some m) :
    (ApiProg.rpc c fun _ => .setStatus o st (.commit (.publish m (.ret a)))).Tells .empty := by
  refine fun _ => ⟨rfl, rfl, ?_, rfl, trivial⟩
  rw [ApiProg.owed, if_pos (Order.settled_announces hm)]
  exact hm.symm

/-- `cancel_order`. -/
theorem cancelOrder_tells (orderId user : UUID) :
    (ApiCall.cancelOrder orderId user).body.Tells .empty := by
  unfold ApiCall.body cancelOrder
  simp only [ApiProg.getForUser_bind, ApiProg.ret_bind]
  intro o
  cases o with
  | none => exact ⟨rfl, trivial⟩
  | some o =>
    dsimp only
    split
    · exact ⟨rfl, trivial⟩
    · split
      · exact ⟨rfl, trivial⟩
      · exact ⟨rfl, settle_tells rfl⟩

/-- `_handle_payment_processed`. -/
theorem handlePaymentProcessed_tells (orderId : UUID) (success : Bool) :
    (do handlePaymentProcessed orderId success; return none : ApiProg (Option Order)).Tells
      .empty := by
  unfold handlePaymentProcessed
  simp only [ApiProg.getOrder_bind, ApiProg.ret_bind]
  intro o
  cases o with
  | none => exact ⟨rfl, trivial⟩
  | some o =>
    dsimp only
    split
    · exact ⟨rfl, trivial⟩
    · split
      · exact ⟨rfl, settle_tells rfl⟩
      · exact ⟨rfl, settle_tells rfl⟩

/-- `_handle_reservation_expired`: an expired order is not announced. -/
theorem handleReservationExpired_tells (orderId : UUID) :
    (do handleReservationExpired orderId; return none : ApiProg (Option Order)).Tells .empty := by
  unfold handleReservationExpired
  simp only [ApiProg.getOrder_bind, ApiProg.ret_bind]
  intro o
  cases o with
  | none => exact ⟨rfl, trivial⟩
  | some o =>
    dsimp only
    split
    · exact ⟨rfl, trivial⟩
    · exact ⟨rfl, rfl, rfl, trivial⟩

/-- The messages of the reaper announce no commit of an order. -/
theorem publishExpired_tells (rs : List Inventory.Reservation) (σ : ApiSession) :
    (do publishExpired rs; return none : ApiProg (Option Order)).owed = none ∧
    (do publishExpired rs; return none : ApiProg (Option Order)).Tells σ := by
  induction rs with
  | nil => exact ⟨rfl, trivial⟩
  | cons r rs ih => exact ⟨rfl, ih⟩

/-- **Every handler announces its commits.** -/
theorem ApiCall.body_tells (call : ApiCall) : call.body.owed = none ∧ call.body.Tells .empty := by
  cases call with
  | bookTickets user eventId quantity key => exact bookTickets_tells ..
  | cancelOrder orderId user => exact ⟨rfl, cancelOrder_tells _ _⟩
  | orderStatusWorker m =>
    cases m with
    | paymentProcessed => exact ⟨rfl, handlePaymentProcessed_tells _ _⟩
    | reservationExpired => exact ⟨rfl, handleReservationExpired_tells _⟩
    | orderCreated | ticketIssued | orderCancelled => exact ⟨rfl, trivial⟩
  | paymentWorker m =>
    cases m with
    | orderCreated => exact ⟨rfl, fun _ _ => ⟨rfl, rfl, trivial⟩⟩
    | paymentProcessed | ticketIssued | orderCancelled | reservationExpired => exact ⟨rfl, trivial⟩
  | reservationReaper =>
    refine ⟨rfl, fun res => ?_⟩
    cases res with
    | reservations rs => exact publishExpired_tells rs _
    | inventory | reservation => exact ⟨rfl, trivial⟩

/-! ## The interleaved system -/

/-- The announcement a request owes. -/
def Request.owed : Request → Option Message
  | running _ p _ _ => p.owed
  | done _ _ => none

/-- Only the program that publishes an announcement next owes it. -/
theorem ApiProg.owed_eq_some {α : Type} {p : ApiProg α} {m : Message} (h : p.owed = some m) :
    m.announces = true ∧ ∃ p', p = .publish m p' := by
  cases p with
  | publish m' p' =>
    rw [owed] at h
    split at h
    · next hm => cases h; exact ⟨hm, p', rfl⟩
    · cases h
  | ret | raise | getByIdempotencyKey | getForUser | getOrder | getEvent | uuid4 | charge | rpc
  | addOrder | setStatus | commit => cases h

/-- A program whose next operation publishes nothing owes nothing. -/
theorem ApiProg.owed_eq_none {α : Type} {orders : Table Order} {inp : ApiInput} {p : ApiProg α}
    {σ : ApiSession} {n : ApiNext α} (h : p.next orders inp σ = n)
    (hne : ∀ m p', n ≠ .publish m p') : p.owed = none := by
  cases hp : p.owed with
  | none => rfl
  | some m =>
    obtain ⟨-, p', rfl⟩ := ApiProg.owed_eq_some hp
    exact absurd h.symm (hne m p')

namespace System

/-- The announcement that request `j` owes. -/
def owedAt (s : System) (j : ℕ) : Option Message := (s.requests[j]?).bind Request.owed

/-- The announcements published so far. -/
def announced (s : System) : List Message := s.published.filter (·.announces)

/-- Every request announces its commits. -/
def Telling (s : System) : Prop := s.Everywhere fun _ p σ => p.Tells σ

/-- What a step does to the orders and to their announcements. -/
inductive TellKind (s : System) : SystemAction → System → Prop
  /-- Neither changes. -/
  | quiet {a : SystemAction} {s' : System} (ho : s'.orders = s.orders)
      (hp : s'.announced = s.announced) (hw : s'.owedAt = s.owedAt) : TellKind s a s'
  /-- A request commits and owes the announcement. -/
  | commits {j : ℕ} {inp : ApiInput} {call : ApiCall} {p : ApiProg (Option Order)}
      {σ : ApiSession} {s' : System}
      (hj : s.requests[j]? = some (.running call (.commit p) σ none))
      (ho : s'.orders = σ.view s.orders) (hp : s'.announced = s.announced)
      (hw : s'.owedAt = Function.update s.owedAt j σ.announcement) : TellKind s (.advance j inp) s'
  /-- A request publishes what it owes. -/
  | publishes {j : ℕ} {inp : ApiInput} {m : Message} {s' : System} (hm : s.owedAt j = some m)
      (ho : s'.orders = s.orders) (hp : s'.announced = s.announced ++ [m])
      (hw : s'.owedAt = Function.update s.owedAt j none) : TellKind s (.advance j inp) s'
  /-- A request fails while it owes an announcement. -/
  | drops {j : ℕ} {m : Message} {s' : System} (hm : s.owedAt j = some m)
      (ho : s'.orders = s.orders) (hp : s'.announced = s.announced)
      (hw : s'.owedAt = Function.update s.owedAt j none) : TellKind s (.fail j) s'

section
variable {settings : Settings} {s s' : System} {j : ℕ} {r r' : Request}

theorem telling_init : Telling .init := fun _ _ _ _ _ h => nomatch h

/-- What is owed after a move of one request. -/
theorem owedAt_set (hj : s.requests[j]? = some r) (hreq : s'.requests = s.requests.set j r') :
    s'.owedAt = Function.update s.owedAt j r'.owed := by
  funext j'
  rw [owedAt, hreq, getElem?_set_of_getElem? hj, Function.update_apply]
  split
  · rfl
  · rfl

/-- A request that owes nothing before and after its move changes nothing. -/
theorem owedAt_same (hj : s.requests[j]? = some r) (hreq : s'.requests = s.requests.set j r')
    (h : r.owed = none) (h' : r'.owed = none) : s'.owedAt = s.owedAt := by
  rw [owedAt_set hj hreq, h', Function.update_eq_self_iff, owedAt, hj]
  exact h.symm

/-- What is owed when a request arrives. -/
theorem owedAt_begin (s : System) (call : ApiCall) :
    owedAt { s with requests := s.requests ++ [.running call call.body .empty none] } =
      s.owedAt := by
  funext j
  rw [owedAt, owedAt, List.getElem?_append]
  split
  · rfl
  · next hge =>
    have hnone : s.requests[j]? = none := List.getElem?_eq_none_iff.2 (Nat.le_of_not_lt hge)
    rw [hnone]
    cases hi : j - s.requests.length with
    | zero => exact call.body_tells.1
    | succ n => rfl

/-- A program that announces its commits does so to its end. -/
theorem closed_tells : Closed fun _ p σ => p.Tells σ where
  next h hn := (h.continue hn).2
  commit h := h.2
  publish h := h.2
  answer h := (h _).2

/-- **Every request announces its commits, at every point of every run.** -/
theorem Telling.step (h : s.Telling) {a : SystemAction} (hs : s.step settings a = some s') :
    s'.Telling :=
  Everywhere.step h closed_tells hs fun call _ => call.body_tells.2

/-- **Every step is of one of the kinds.** -/
theorem Telling.tell_kind (h : s.Telling) {a : SystemAction} (hs : s.step settings a = some s') :
    TellKind s a s' := by
  -- a request that did not owe anything has ended
  have hend : ∀ {j : ℕ} {call out call' p σ w}, s.requests[j]? = some (.running call' p σ w) →
      p.owed = none → TellKind s a (s.put j (.done call out)) := fun hj hp =>
    .quiet rfl rfl (owedAt_same hj rfl hp rfl)
  cases step_kind hs with
  | begin call => exact .quiet rfl rfl (owedAt_begin s call)
  | ret hj hn | raise hj hn => exact hend hj (ApiProg.owed_eq_none hn nofun)
  | refused hj => exact hend hj rfl
  | «continue» hj _ hn =>
    exact .quiet rfl rfl
      (owedAt_same hj rfl (ApiProg.owed_eq_none hn nofun) ((h hj).continue hn).1)
  | call hj => exact .quiet rfl rfl (owedAt_same hj rfl rfl rfl)
  | commit hj =>
    refine .commits hj rfl rfl ((owedAt_set hj rfl).trans ?_)
    rw [← (h hj).1]
    rfl
  | @publish j inp call m p σ hj =>
    have hp : p.owed = none := (h hj).1
    cases hm : m.announces with
    | true =>
      refine .publishes (m := m) ?_ rfl ?_ ?_
      · simp [owedAt, hj, Request.owed, ApiProg.owed, hm]
      · simp [announced, hm]
      · rw [owedAt_set hj rfl, Request.owed, hp]
    | false =>
      refine .quiet rfl ?_ (owedAt_same hj rfl ?_ hp)
      · simp [announced, hm]
      · simp [Request.owed, ApiProg.owed, hm]
  | answered hj => exact .quiet rfl rfl (owedAt_same hj rfl rfl (h hj _).1)
  | @fail j call p σ t hj =>
    cases hp : p.owed with
    | none => exact hend hj hp
    | some m =>
      refine .drops (m := m) ?_ rfl rfl ?_
      · rw [owedAt, hj]; exact hp
      · rw [owedAt_set hj rfl, Request.owed]
  | inventory => exact .quiet rfl rfl rfl

end

end System

end EventSphere.Api
