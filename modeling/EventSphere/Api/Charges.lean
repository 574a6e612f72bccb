import EventSphere.Api.Notifications
import EventSphere.Kafka.Consumer

/-!
# The charges of an order

The payment worker (`services/api/app/workers/payment_worker.py`) behind its Kafka consumer,
composed with the booking system: the `ORDER_CREATED` messages that bookings publish are the records
of the topic, the consumer takes them one by one, and the handler of a record is a request of the
system. The handler charges first, publishes the outcome and returns; it reads no order. The offset
is committed after that, and a consumer that starts again starts at the committed offset.

The consumer relies on handlers that check the current state before they apply a change
(`consumer.py:25`). This one does not, so a crash between a charge and the commit of the offset
charges the order again, and an order that has been cancelled meanwhile is charged
(`charged_twice`). `charged_once` shows when an order is charged at most once and only while it is
unsettled: if its message is taken while it is unsettled, and the consumer starts again only behind
the messages whose charges have succeeded.
-/

namespace EventSphere.Api

open Inventory (Settings)
open Kafka (ConsumerState ConsumerSession)

/-- The message is the `ORDER_CREATED` of order `i`. -/
def Message.creates (i : UUID) : Message → Bool
  | orderCreated orderId _ _ _ _ _ => orderId = i
  | _ => false

/-- The message belongs to the topic of the payment worker (`topics.py:47`). -/
def Message.isOrderCreated : Message → Bool
  | orderCreated .. => true
  | _ => false

/-- One delivery of a record to the payment worker: the request that handles it, the record with its
place, and the committed status of its order at that moment. -/
structure Delivery (π : Type) where
  request : ℕ
  partition : π
  offset : ℕ
  message : Message
  status : Option OrderStatus
  deriving DecidableEq

/-- The booking system, the consumer of the payment worker, the deliveries so far and the charges
that have succeeded: the request that made the charge, and the order. -/
structure Billing (π : Type) where
  system : System
  consumer : ConsumerState π
  deliveries : List (Delivery π)
  charges : List (ℕ × UUID)

/-- What can happen: anything in the booking system, and what happens to the consumer
(`Kafka.ConsumerAction`). -/
inductive BillingAction (π : Type) where
  | system (a : SystemAction)
  | start
  | crash
  | stop
  | take (partition : π)
  | handlerReturns
  | handlerRaises
  | commit
  | commitRaises

namespace Billing

variable {π : Type} [DecidableEq π]

/-- The records of a partition, in the order in which they were published. -/
def records (partition : UUID → π) (p : π) (ms : List Message) : List Message :=
  ms.filter fun m => m.isOrderCreated && partition m.key = p

/-- The system before the first request, with an empty topic. -/
def init : Billing π := ⟨.init, .init, [], []⟩

/-- The charge that succeeds with the next operation of a request. -/
def charged (s : System) : SystemAction → List (ℕ × UUID)
  | .advance j inp =>
    match s.requests[j]? with
    | some (.running _ (.charge orderId _ _) _ none) => if inp.paid then [(j, orderId)] else []
    | _ => []
  | _ => []

/-- The action hands a message to the payment worker. -/
def paying : SystemAction → Bool
  | .begin (.paymentWorker _) => true
  | _ => false

/-- The request that handles the record in hand. -/
def handler (s : Billing π) : Option Request :=
  (s.deliveries.getLast?).bind fun d => s.system.requests[d.request]?

/-- The process of the payment worker dies: its request goes no further. -/
def interrupted (settings : Settings) (s : Billing π) : System :=
  (s.deliveries.getLast?).elim s.system fun d =>
    (s.system.step settings (.fail d.request)).getD s.system

/-- The consumer takes a record and calls the handler with it. -/
def handed (settings : Settings) (partition : UUID → π) (s : Billing π) (c : ConsumerSession π)
    (consumer : ConsumerState π) : Option (Billing π) :=
  match c.phase with
  | .handling p o => do
    let m ← (records partition p s.system.published)[o]?
    let system ← s.system.step settings (.begin (.paymentWorker m))
    return { s with
      system
      consumer
      deliveries := s.deliveries ++
        [⟨s.system.requests.length, p, o, m, s.system.statusOf m.key⟩] }
  | _ => none

/-- One step of the composed system. Only the consumer hands messages to the payment worker, and
what its handler does is a step of the booking system. -/
def step (settings : Settings) (partition : UUID → π) (s : Billing π) :
    BillingAction π → Option (Billing π)
  | .system a =>
    if paying a then none
    else (s.system.step settings a).map fun system =>
      { s with
        system
        consumer := { s.consumer with
          logEnd := fun p => (records partition p system.published).length }
        charges := s.charges ++ charged s.system a }
  | .start => (s.consumer.step .start).map fun consumer => { s with consumer }
  | .crash => (s.consumer.step .crash).map fun consumer =>
      { s with consumer, system := s.interrupted settings }
  | .stop => (s.consumer.step .stop).map fun consumer => { s with consumer }
  | .take p => do
    let consumer ← s.consumer.step (.take p)
    match consumer.session with
    | none => return { s with consumer }
    | some c => s.handed settings partition c consumer
  | .handlerReturns =>
    match s.handler with
    | some (.done _ (.returned _)) =>
      (s.consumer.step .handlerReturns).map fun consumer => { s with consumer }
    | _ => none
  | .handlerRaises =>
    match s.handler with
    | some (.done _ (.returned _)) | some (.running ..) | none => none
    | some (.done _ _) => (s.consumer.step .handlerRaises).map fun consumer => { s with consumer }
  | .commit => (s.consumer.step .commit).map fun consumer => { s with consumer }
  | .commitRaises => (s.consumer.step .commitRaises).map fun consumer => { s with consumer }

/-- The statuses of an order that must not be charged any more. -/
def settledStatuses : List (Option OrderStatus) := [some .cancelled, some .expired, some .confirmed]

/-- The gateway has been called successfully at most once for order `i`, and only for a delivery
that found the order unsettled. -/
structure ChargedOnce (i : UUID) (s : Billing π) : Prop where
  once : (s.charges.filter (·.2 = i)).length ≤ 1
  unsettled : ∀ d ∈ s.deliveries, (d.request, i) ∈ s.charges → d.status ∉ settledStatuses

/-- The message of order `i` is taken while the order is unsettled, and the consumer starts behind
every message of order `i` whose charge has succeeded. -/
def Careful (partition : UUID → π) (i : UUID) (s : Billing π) : BillingAction π → Prop
  | .take p => ∀ c ∈ s.consumer.session,
    ∀ m ∈ (records partition p s.system.published)[c.position p]?,
      m.key = i → s.system.statusOf i ∉ settledStatuses
  | .start => ∀ d ∈ s.deliveries, (d.request, i) ∈ s.charges →
    d.offset < s.consumer.committed d.partition
  | _ => True

instance (partition : UUID → π) (i : UUID) (s : Billing π) :
    ∀ a, Decidable (Careful partition i s a)
  | .take _ => inferInstanceAs (Decidable (∀ c ∈ _, ∀ m ∈ _, _ → _))
  | .start => inferInstanceAs (Decidable (∀ d ∈ _, _ → _))
  | .system _ | .crash | .stop | .handlerReturns | .handlerRaises | .commit | .commitRaises =>
    inferInstanceAs (Decidable True)

end Billing

/-! ## One `ORDER_CREATED` per order -/

namespace System

/-- At most one `ORDER_CREATED` of order `i` is published or owed, and only for a committed
order. -/
structure CreatedOnce (i : UUID) (s : System) : Prop where
  announced : ∀ m ∈ s.announced, m.creates i = true → s.orders.get i ≠ none
  owed : ∀ {j m}, s.owedAt j = some m → m.creates i = true →
    s.orders.get i ≠ none ∧ ∀ m' ∈ s.announced, m'.creates i = false
  sole : ∀ {j j' m m'}, s.owedAt j = some m → s.owedAt j' = some m' → m.creates i = true →
    m'.creates i = true → j = j'
  once : s.announced.Pairwise fun m m' => ¬ (m.creates i = true ∧ m'.creates i = true)

theorem createdOnce_init (i : UUID) : CreatedOnce i .init := ⟨nofun, nofun, nofun, .nil⟩

section
variable {settings : Settings} {i : UUID} {s s' : System} {j : ℕ} {x : Option Message}

/-- A step after which a request owes another message than before, but no `ORDER_CREATED` of the
order. -/
theorem CreatedOnce.relax (h : s.CreatedOnce i)
    (horders : s.orders.get i ≠ none → s'.orders.get i ≠ none)
    (hp : s'.announced = s.announced) (hw : s'.owedAt = Function.update s.owedAt j x)
    (hx : ∀ m ∈ x, m.creates i = false) : s'.CreatedOnce i := by
  have hold : ∀ {j' m}, s'.owedAt j' = some m → m.creates i = true → s.owedAt j' = some m := by
    intro j' m hj' hm
    rw [hw, Function.update_apply] at hj'
    split at hj'
    · rw [hx m hj'] at hm
      cases hm
    · exact hj'
  refine ⟨fun m hm hc => ?_, fun hj' hm => ?_, fun h1 h2 hm1 hm2 => ?_, ?_⟩
  · rw [hp] at hm
    exact horders (h.announced m hm hc)
  · rw [hp]
    exact ⟨horders (h.owed (hold hj' hm) hm).1, (h.owed (hold hj' hm) hm).2⟩
  · exact h.sole (hold h1 hm1) (hold h2 hm2) hm1 hm2
  · rw [hp]
    exact h.once

/-- The message about a status creates nothing. -/
theorem settled_creates {o : Order} {st : OrderStatus} {m : Message} (h : o.settled st = some m) :
    m.creates i = false := by
  cases st <;> cases h <;> rfl

/-- A commit owes the `ORDER_CREATED` of a new order only. -/
theorem CreatedOnce.commit (h : s.CreatedOnce i) (hinv : s.Inv settings fun _ => True)
    {call : ApiCall} {p : ApiProg (Option Order)} {σ : ApiSession}
    (hj : s.requests[j]? = some (.running call (.commit p) σ none))
    (ho : s'.orders = σ.view s.orders) (hp : s'.announced = s.announced)
    (hw : s'.owedAt = Function.update s.owedAt j σ.announcement) : s'.CreatedOnce i := by
  obtain ⟨F, hF⟩ := hinv.request hj
  have hkind := hF.commit_kind
  rw [← ho] at hkind
  generalize horders : s'.orders = orders at hkind
  cases hkind with
  | nothing hi hs =>
    refine h.relax (by rw [horders]; exact id) hp hw fun m hm => ?_
    rw [ApiSession.announcement, hi, hs] at hm
    cases hm
  | @updated o cur st hi hs =>
    refine h.relax (fun hne => ?_) hp hw fun m hm => ?_
    · rw [horders, Table.get_set]
      split
      · exact Option.some_ne_none _
      · exact hne
    · rw [ApiSession.announcement, hi, hs] at hm
      exact settled_creates hm
  | @inserted o hi hs hadd =>
    have hann : σ.announcement = some o.created := by rw [ApiSession.announcement, hi]
    have hset : ∀ {i'}, s.orders.get i' ≠ none → s'.orders.get i' ≠ none := fun hne => by
      rw [horders, Table.get_set]
      split
      · exact Option.some_ne_none _
      · exact hne
    by_cases hne : o.id = i
    · -- the order is new, so nothing about it has been published or is owed
      have hnone : s.orders.get i = none := hne ▸ (hinv.new hj hi).get_eq_none
      have hown : ∀ {j' m}, s'.owedAt j' = some m → m.creates i = true → j' = j := by
        intro j' m hj' hm
        rw [hw, Function.update_apply] at hj'
        split at hj'
        · next he => exact he
        · exact absurd hnone (h.owed hj' hm).1
      refine ⟨fun m hm hc => ?_, fun hj' hm => ⟨?_, fun m' hm' => ?_⟩, fun h1 h2 hm1 hm2 => ?_, ?_⟩
      · rw [hp] at hm
        exact absurd hnone (h.announced m hm hc)
      · rw [horders, ← hne, get_set_order]
        exact Option.some_ne_none _
      · rw [hp] at hm'
        refine Bool.eq_false_iff.2 fun hc => ?_
        exact h.announced m' hm' hc hnone
      · exact (hown h1 hm1).trans (hown h2 hm2).symm
      · rw [hp]
        exact h.once
    · refine h.relax hset hp hw fun m hm => ?_
      rw [hann] at hm
      cases hm
      exact decide_eq_false hne

/-- The message about the order is published. -/
theorem CreatedOnce.publish (h : s.CreatedOnce i) {m : Message} (hm : s.owedAt j = some m)
    (ho : s'.orders = s.orders) (hp : s'.announced = s.announced ++ [m])
    (hw : s'.owedAt = Function.update s.owedAt j none) : s'.CreatedOnce i := by
  have hold : ∀ {j' m'}, s'.owedAt j' = some m' → j' ≠ j ∧ s.owedAt j' = some m' := by
    intro j' m' hj'
    rw [hw, Function.update_apply] at hj'
    split at hj'
    · cases hj'
    · next hne => exact ⟨hne, hj'⟩
  refine ⟨fun m' hm' hc => ?_, fun hj' hc => ?_, fun h1 h2 => h.sole (hold h1).2 (hold h2).2, ?_⟩
  · rw [ho]
    rw [hp] at hm'
    rcases List.mem_append.1 hm' with hm' | hm'
    · exact h.announced m' hm' hc
    · cases List.mem_singleton.1 hm'
      exact (h.owed hm hc).1
  · rw [ho, hp]
    obtain ⟨hne, hj'⟩ := hold hj'
    refine ⟨(h.owed hj' hc).1, fun m' hm' => ?_⟩
    rcases List.mem_append.1 hm' with hm' | hm'
    · exact (h.owed hj' hc).2 m' hm'
    · cases List.mem_singleton.1 hm'
      exact Bool.eq_false_iff.2 fun hc' => hne (h.sole hj' hm hc hc')
  · rw [hp]
    refine List.pairwise_append.2 ⟨h.once, List.pairwise_singleton .., fun m' hm' m'' hm'' => ?_⟩
    cases List.mem_singleton.1 hm''
    rintro ⟨h1, h2⟩
    rw [(h.owed hm h2).2 m' hm'] at h1
    cases h1

/-- **Every order is announced at most once.** -/
theorem CreatedOnce.step (h : s.CreatedOnce i) (hinv : s.Inv settings fun _ => True)
    (htells : s.Telling) {a : SystemAction} (hs : s.step settings a = some s') :
    s'.CreatedOnce i := by
  cases htells.tell_kind hs with
  | quiet ho hp hw =>
    exact ⟨by rw [hp, ho]; exact h.announced, by rw [hp, ho, hw]; exact h.owed,
      by rw [hw]; exact h.sole, by rw [hp]; exact h.once⟩
  | commits hj ho hp hw => exact h.commit hinv hj ho hp hw
  | publishes hm ho hp hw => exact h.publish hm ho hp hw
  | drops hm ho hp hw => exact h.relax (by rw [ho]; exact id) hp hw nofun

end

end System

/-! ## The handler charges once -/

/-- Everything but charges. -/
def unpaid : Permission where
  rpc _ := True
  assign _ _ := True
  charge := False

/-- Only the payment worker needs to charge. -/
theorem ApiCall.needs_unpaid {call : ApiCall} (h : ∀ m, call ≠ .paymentWorker m) :
    call.Needs unpaid := by
  cases call with
  | bookTickets => exact fun _ => trivial
  | cancelOrder => exact fun _ _ => ⟨trivial, trivial⟩
  | orderStatusWorker m =>
    cases m with
    | paymentProcessed => exact fun _ _ => ⟨⟨trivial, trivial⟩, trivial, trivial⟩
    | reservationExpired => exact fun _ _ => trivial
    | orderCreated | ticketIssued | orderCancelled => trivial
  | paymentWorker m => exact absurd rfl (h m)
  | reservationReaper => trivial

namespace ApiProg

/-- The program calls the payment gateway now or not at all. -/
def ChargesFirst {α : Type} : ApiProg α → Prop
  | charge _ _ f => ∀ ok ref, (f ok ref).Within unpaid
  | p => p.Within unpaid

/-- A program that does not charge charges now or not at all. -/
theorem Within.chargesFirst {α : Type} {p : ApiProg α} (h : p.Within unpaid) : p.ChargesFirst := by
  cases p with
  | charge => exact h.1.elim
  | ret | raise | getByIdempotencyKey | getForUser | getOrder | getEvent | uuid4 | rpc | addOrder
  | setStatus | commit | publish => exact h

/-- After its next operation the program charges no more. -/
theorem ChargesFirst.continue {α : Type} {orders : Table Order} {inp : ApiInput} {p p' : ApiProg α}
    {σ σ' : ApiSession} (h : p.ChargesFirst) (hn : p.next orders inp σ = .continue p' σ') :
    p'.Within unpaid := by
  cases p with
  | charge i amount f => cases hn; exact h _ _
  | ret | raise | getByIdempotencyKey | getForUser | getOrder | getEvent | uuid4 | rpc | addOrder
  | setStatus | commit | publish => exact (Within.continue h (fun _ _ _ => trivial) hn).1

end ApiProg

/-- A request charges first, or not at all. -/
theorem ApiCall.body_chargesFirst (call : ApiCall) : call.body.ChargesFirst := by
  cases call with
  | paymentWorker m =>
    cases m with
    | orderCreated => exact fun _ _ => trivial
    | paymentProcessed | ticketIssued | orderCancelled | reservationExpired => trivial
  | bookTickets | cancelOrder | orderStatusWorker | reservationReaper =>
    refine (ApiCall.body_within (ApiCall.needs_unpaid fun m h => ?_)).chargesFirst
    cases h

/-- Every running request charges with its next operation or not at all. -/
theorem System.closed_chargesFirst : Closed fun _ p _ => p.ChargesFirst where
  next h hn := (h.continue hn).chargesFirst
  commit h := ApiProg.Within.chargesFirst h
  publish h := ApiProg.Within.chargesFirst h
  answer h := ApiProg.Within.chargesFirst (h.2 _)

/-- A request that is about to charge was about to before the step, and has not moved; no handler is
called. -/
theorem System.charge_step {settings : Settings} {s s' : System} {a : SystemAction}
    (h : s.Everywhere fun _ p _ => p.ChargesFirst) (hs : s.step settings a = some s')
    (ha : ∀ m, a ≠ .begin (.paymentWorker m)) {j : ℕ} {call : ApiCall} {i : UUID} {amount : ℤ}
    {k : Bool → String → ApiProg (Option Order)} {σ : ApiSession} {w : Option ℕ}
    (hj : s'.requests[j]? = some (.running call (.charge i amount k) σ w)) :
    s.requests[j]? = some (.running call (.charge i amount k) σ w) ∧ ∀ inp, a ≠ .advance j inp := by
  -- the request that moves does not charge afterwards
  have hmove : ∀ {j₁ : ℕ} {y z : Request}, s.requests[j₁]? = some y →
      s'.requests = s.requests.set j₁ z → (∀ inp, a = .advance j inp → j = j₁) →
      (∀ {call p σ w}, z = .running call p σ w → p.Within unpaid) →
      s.requests[j]? = some (.running call (.charge i amount k) σ w) ∧
        ∀ inp, a ≠ .advance j inp := by
    intro j₁ y z hy hreq hact hz
    rw [hreq] at hj
    rcases getElem?_set_inv hj with ⟨-, hcharge⟩ | ⟨hne, hj⟩
    · exact (hz hcharge.symm).1.elim
    · exact ⟨hj, fun inp he => hne (hact inp he)⟩
  cases step_kind hs with
  | begin call' =>
    rcases getElem?_append_singleton hj with hj | ⟨-, he⟩
    · exact ⟨hj, fun _ => nofun⟩
    · injection he with hc hp
      have hfree : call'.body.Within unpaid :=
        ApiCall.body_within (ApiCall.needs_unpaid fun m hm => ha m (by rw [hm]))
      rw [← hp] at hfree
      exact hfree.1.elim
  | ret hy | raise hy | refused hy => exact hmove hy rfl (fun _ he => by cases he; rfl) nofun
  | fail hy => exact hmove hy rfl (fun _ he => by cases he) nofun
  | «continue» hy _ hn =>
    exact hmove hy rfl (fun _ he => by cases he; rfl) fun he => by
      cases he; exact (h hy).continue hn
  | call hy | commit hy | publish hy =>
    exact hmove hy rfl (fun _ he => by cases he; rfl) fun he => by cases he; exact h hy
  | answered hy =>
    exact hmove hy rfl (fun _ he => by cases he; rfl) fun he => by cases he; exact (h hy).2 _
  | inventory => exact ⟨hj, fun _ => nofun⟩

/-! ## The invariant of the composed system -/

namespace Billing

variable {π : Type} [DecidableEq π] {settings : Settings} {partition : UUID → π} {i : UUID}

/-- The kinds of steps, with what they do to the deliveries. -/
inductive StepKind (settings : Settings) (partition : UUID → π) (s : Billing π) :
    BillingAction π → Billing π → Prop
  | system {a : SystemAction} {system : System} (ha : paying a = false)
      (hs : s.system.step settings a = some system) :
      StepKind settings partition s (.system a) { s with
        system
        consumer := { s.consumer with
          logEnd := fun p => (records partition p system.published).length }
        charges := s.charges ++ charged s.system a }
  | start (h : s.consumer.session = none) :
      StepKind settings partition s .start { s with
        consumer :=
          { s.consumer with session := some ⟨s.consumer.committed, false, .polling, []⟩ } }
  | crash : StepKind settings partition s .crash { s with
      consumer := { s.consumer with session := none }
      system := s.interrupted settings }
  /-- The consumer moves on: the record in hand stays in hand, or there was none, or its handler has
  ended. -/
  | proceeds {a : BillingAction π} {consumer : ConsumerState π} {c c' : ConsumerSession π}
      (h : s.consumer.session = some c) (h' : consumer.session = some c')
      (hp : c'.position = c.position)
      (hc : c'.phase = c.phase ∨ c.phase = .committing ∨ ∀ r ∈ s.handler, r.ended = true) :
      StepKind settings partition s a { s with consumer }
  | leave {p : π} {c : ConsumerSession π} (h : s.consumer.session = some c)
      (hc : c.phase = .polling) :
      StepKind settings partition s (.take p)
        { s with consumer := { s.consumer with session := none } }
  | take {p : π} {c : ConsumerSession π} {m : Message} (h : s.consumer.session = some c)
      (hc : c.phase = .polling)
      (hm : (records partition p s.system.published)[c.position p]? = some m) :
      StepKind settings partition s (.take p) { s with
        system := { s.system with requests := s.system.requests ++
          [.running (.paymentWorker m) (ApiCall.paymentWorker m).body .empty none] }
        consumer := { s.consumer with session := some { c with
          position := Function.update c.position p (c.position p + 1)
          phase := .handling p (c.position p) } }
        deliveries := s.deliveries ++
          [⟨s.system.requests.length, p, c.position p, m, s.system.statusOf m.key⟩] }

/-- Every step is of one of the kinds. -/
theorem step_kind {s s' : Billing π} {a : BillingAction π}
    (hs : s.step settings partition a = some s') : StepKind settings partition s a s' := by
  cases a with
  | system a =>
    simp only [step] at hs
    split at hs
    · cases hs
    · next ha =>
      obtain ⟨system, hsys, rfl⟩ := Option.map_eq_some_iff.1 hs
      exact .system (Bool.eq_false_iff.2 ha) hsys
  | start =>
    obtain ⟨consumer, hc, rfl⟩ := Option.map_eq_some_iff.1 hs
    cases ConsumerState.step_kind hc with
    | start h => exact .start h
  | crash => cases hs; exact .crash
  | stop =>
    obtain ⟨consumer, hc, rfl⟩ := Option.map_eq_some_iff.1 hs
    cases ConsumerState.step_kind hc with
    | stop h => exact .proceeds h rfl rfl (.inl rfl)
  | take p =>
    obtain ⟨consumer, hc, hs⟩ := Option.bind_eq_some_iff.1 hs
    cases ConsumerState.step_kind hc with
    | leave h hp => cases hs; exact .leave h hp
    | take h hp _ =>
      obtain ⟨m, hm, hs⟩ := Option.bind_eq_some_iff.1 hs
      cases hs
      exact .take h hp hm
  | handlerReturns =>
    simp only [step] at hs
    split at hs
    · next hh =>
      obtain ⟨consumer, hc, rfl⟩ := Option.map_eq_some_iff.1 hs
      cases ConsumerState.step_kind hc with
      | handlerReturns h =>
        refine .proceeds h rfl rfl (.inr (.inr fun r hr => ?_))
        cases hh.symm.trans hr
        rfl
    · cases hs
  | handlerRaises =>
    simp only [step] at hs
    split at hs
    · cases hs
    · cases hs
    · cases hs
    · next hh =>
      obtain ⟨consumer, hc, rfl⟩ := Option.map_eq_some_iff.1 hs
      cases ConsumerState.step_kind hc with
      | handlerRaises h =>
        refine .proceeds h rfl rfl (.inr (.inr fun r hr => ?_))
        cases hh.symm.trans hr
        rfl
  | commit =>
    obtain ⟨consumer, hc, rfl⟩ := Option.map_eq_some_iff.1 hs
    cases ConsumerState.step_kind hc with
    | commit h hp => exact .proceeds h rfl rfl (.inr (.inl hp))
  | commitRaises =>
    obtain ⟨consumer, hc, rfl⟩ := Option.map_eq_some_iff.1 hs
    cases ConsumerState.step_kind hc with
    | commitRaises h hp => exact .proceeds h rfl rfl (.inr (.inl hp))

/-- Request `j`, which is about to charge, handles the record in hand; order `i` has not been
charged if that is its record. -/
def InHand (i : UUID) (s : Billing π) (j : ℕ) (orderId : UUID) : Prop :=
  ∃ d c, s.deliveries.getLast? = some d ∧ d.request = j ∧ d.message.key = orderId ∧
    s.consumer.session = some c ∧ c.phase = .handling d.partition d.offset ∧
    d.offset < c.position d.partition ∧ (orderId = i → ∀ x ∈ s.charges, x.2 ≠ i)

/-- The invariant that carries `charged_once`. -/
structure Billed (settings : Settings) (partition : UUID → π) (i : UUID) (s : Billing π) :
    Prop where
  inv : s.system.Inv settings fun _ => True
  tells : s.system.Telling
  created : s.system.CreatedOnce i
  first : s.system.Everywhere fun _ p _ => p.ChargesFirst
  inHand : ∀ {j : ℕ} {call orderId amount k σ w},
    s.system.requests[j]? = some (.running call (.charge orderId amount k) σ w) →
    s.InHand i j orderId
  request : ∀ {d}, d ∈ s.deliveries → d.request < s.system.requests.length
  record : ∀ {d}, d ∈ s.deliveries →
    (records partition d.partition s.system.published)[d.offset]? = some d.message
  unsettled : ∀ {d}, d ∈ s.deliveries → d.message.key = i → d.status ∉ settledStatuses
  distinct : ∀ {d d'}, d ∈ s.deliveries → d' ∈ s.deliveries → d.request = d'.request → d = d'
  known : ∀ {j}, (j, i) ∈ s.charges → ∃ d ∈ s.deliveries, d.request = j ∧ d.message.key = i
  passed : ∀ {d}, d ∈ s.deliveries → (d.request, i) ∈ s.charges → ∀ c ∈ s.consumer.session,
    d.offset < c.position d.partition
  once : (s.charges.filter (·.2 = i)).length ≤ 1

theorem billed_init (settings : Settings) (partition : UUID → π) (i : UUID) :
    Billed settings partition i .init where
  inv := System.inv_init settings _
  tells := System.telling_init
  created := System.createdOnce_init i
  first _ _ _ _ _ h := nomatch h
  inHand := nofun
  request := nofun
  record := nofun
  unsettled := nofun
  distinct := nofun
  known := nofun
  passed := nofun
  once := Nat.zero_le _

section
variable {s s' : Billing π} {system : System} {a : SystemAction}

/-- The records are announcements. -/
theorem records_announced (p : π) (system : System) :
    records partition p system.announced = records partition p system.published := by
  unfold records System.announced
  rw [List.filter_filter]
  refine List.filter_congr fun m _ => ?_
  cases m <;> simp [Message.announces, Message.isOrderCreated]

/-- A record keeps its place when others are published. -/
theorem record_step (hs : s.system.step settings a = some system) {p : π} {o : ℕ} {m : Message}
    (h : (records partition p s.system.published)[o]? = some m) :
    (records partition p system.published)[o]? = some m := by
  obtain ⟨ms, hms⟩ := System.published_append hs
  have happ : records partition p system.published =
      records partition p s.system.published ++ records partition p ms := by
    rw [hms]
    exact List.filter_append ..
  rw [happ, List.getElem?_append_left (List.getElem?_eq_some_iff.1 h).1]
  exact h

/-- **An order has one record.** -/
theorem record_unique (h : system.CreatedOnce i) {p p' : π} {o o' : ℕ} {m m' : Message}
    (hm : (records partition p system.published)[o]? = some m)
    (hm' : (records partition p' system.published)[o']? = some m') (hi : m.key = i)
    (hi' : m'.key = i) : p = p' ∧ o = o' := by
  have hof : ∀ {q : π} {k : ℕ} {x : Message},
      (records partition q system.published)[k]? = some x → x.key = i →
      x.creates i = true ∧ partition i = q := by
    intro q k x hx hk
    have hmem := List.of_mem_filter (List.mem_of_getElem? hx)
    rw [Bool.and_eq_true, decide_eq_true_eq, hk] at hmem
    cases x with
    | orderCreated => exact ⟨decide_eq_true hk, hmem.2⟩
    | paymentProcessed | ticketIssued | orderCancelled | reservationExpired => cases hmem.1
  obtain ⟨hc, rfl⟩ := hof hm hi
  obtain ⟨hc', rfl⟩ := hof hm' hi'
  refine ⟨rfl, ?_⟩
  have hpair := h.once.filter fun m => m.isOrderCreated && partition m.key = partition i
  have hrec : records partition (partition i) system.announced =
      records partition (partition i) system.published := records_announced (partition i) system
  unfold records at hrec hm hm'
  rw [hrec] at hpair
  have hpair := List.pairwise_iff_getElem.1 hpair
  obtain ⟨hlt, he⟩ := List.getElem?_eq_some_iff.1 hm
  obtain ⟨hlt', he'⟩ := List.getElem?_eq_some_iff.1 hm'
  rcases Nat.lt_trichotomy o o' with hoo | hoo | hoo
  · refine absurd ⟨?_, ?_⟩ (hpair o o' hlt hlt' hoo)
    · rw [he]; exact hc
    · rw [he']; exact hc'
  · exact hoo
  · refine absurd ⟨?_, ?_⟩ (hpair o' o hlt' hlt hoo)
    · rw [he']; exact hc'
    · rw [he]; exact hc

/-- A charge that succeeds is made by a request that is about to charge. -/
theorem mem_charged {x : ℕ × UUID} (h : x ∈ charged system a) :
    ∃ inp call amount k σ, a = .advance x.1 inp ∧
      system.requests[x.1]? = some (.running call (.charge x.2 amount k) σ none) := by
  cases a with
  | advance j inp =>
    simp only [charged] at h
    split at h
    · next call i amount k σ hj =>
      split at h
      · cases List.mem_singleton.1 h
        exact ⟨inp, call, amount, k, σ, rfl, hj⟩
      · cases h
    · cases h
  | begin | fail | inventory => cases h

/-- The invariant after a step of the booking system. -/
theorem Billed.system_step (h : s.Billed settings partition i) (ha : paying a = false)
    (hs : s.system.step settings a = some system) (logEnd : π → ℕ) :
    Billed settings partition i { s with
      system
      consumer := { s.consumer with logEnd }
      charges := s.charges ++ charged s.system a } := by
  have hpay : ∀ m, a ≠ .begin (.paymentWorker m) := fun m he => by
    rw [he] at ha
    cases ha
  -- a new charge of the order is made by the handler of the record in hand
  have hnew : ∀ {x : ℕ × UUID}, x ∈ charged s.system a → s.InHand i x.1 x.2 := by
    intro x hx
    obtain ⟨inp, call, amount, k, σ, -, hj⟩ := mem_charged hx
    exact h.inHand hj
  refine ⟨h.inv.step hs fun _ _ _ _ _ _ _ _ _ => trivial, h.tells.step hs,
    h.created.step h.inv h.tells hs,
    System.Everywhere.step h.first System.closed_chargesFirst hs fun call _ =>
      call.body_chargesFirst, ?inHand,
    fun hd => (h.request hd).trans_le (System.length_requests_le hs),
    fun hd => record_step hs (h.record hd), h.unsettled, h.distinct, ?known, ?passed, ?once⟩
  case inHand =>
    intro j call orderId amount k σ w hj
    obtain ⟨hj, hstay⟩ := System.charge_step h.first hs hpay hj
    obtain ⟨d, c, hd, hdj, hkey, hc, hph, hlt, hfree⟩ := h.inHand hj
    refine ⟨d, c, hd, hdj, hkey, hc, hph, hlt, fun hi x hx => ?_⟩
    rcases List.mem_append.1 hx with hx | hx
    · exact hfree hi x hx
    · -- the handler in hand is this request, and it has not moved
      obtain ⟨inp, -, -, -, -, hact, -⟩ := mem_charged hx
      obtain ⟨d', -, hd', hdj', -⟩ := hnew hx
      cases hd.symm.trans hd'
      rw [← hdj', hdj] at hact
      exact absurd hact (hstay inp)
  case known =>
    intro j hj
    rcases List.mem_append.1 hj with hj | hj
    · exact h.known hj
    · obtain ⟨d, -, hd, hdj, hkey, -⟩ := hnew hj
      exact ⟨d, List.mem_of_getLast? hd, hdj, hkey⟩
  case passed =>
    intro d hd hj c hc
    rcases List.mem_append.1 hj with hj | hj
    · exact h.passed hd hj c hc
    · obtain ⟨d', c', hd', hdj, -, hc', -, hlt, -⟩ := hnew hj
      obtain rfl : d' = d := h.distinct (List.mem_of_getLast? hd') hd hdj
      cases hc'.symm.trans hc
      exact hlt
  case once =>
    dsimp only
    rw [List.filter_append, List.length_append]
    by_cases hx : ∃ x ∈ charged s.system a, x.2 = i
    · obtain ⟨x, hx, hi⟩ := hx
      obtain ⟨-, -, -, -, -, -, -, -, hfree⟩ := hnew hx
      have hnil : s.charges.filter (·.2 = i) = [] :=
        List.filter_eq_nil_iff.2 fun y hy => by simpa using hfree hi y hy
      have hle : (charged s.system a).length ≤ 1 := by
        obtain ⟨inp, call, amount, k, σ, rfl, hj⟩ := mem_charged hx
        simp only [charged, hj]
        split <;> simp
      have := List.length_filter_le (fun x : ℕ × UUID => decide (x.2 = i)) (charged s.system a)
      rw [hnil, List.length_nil]
      omega
    · have hnil : (charged s.system a).filter (·.2 = i) = [] :=
        List.filter_eq_nil_iff.2 fun y hy => by simpa using fun hi => hx ⟨y, hy, hi⟩
      have := h.once
      rw [hnil, List.length_nil]
      omega

/-- The invariant after a step of the consumer that takes no record. -/
theorem Billed.consumer_step (h : s.Billed settings partition i) (consumer : ConsumerState π)
    (hin : ∀ {j : ℕ} {orderId}, s.InHand i j orderId → InHand i { s with consumer } j orderId ∨
      ∀ r ∈ s.handler, r.ended = true)
    (hp : ∀ {d}, d ∈ s.deliveries → (d.request, i) ∈ s.charges → ∀ c ∈ consumer.session,
      d.offset < c.position d.partition) : Billed settings partition i { s with consumer } := by
  refine { h with inHand := fun {j call orderId amount k σ w} hj => ?_, passed := hp }
  refine (hin (h.inHand hj)).resolve_right fun hend => ?_
  obtain ⟨d, -, hd, rfl, -⟩ := h.inHand hj
  have hh : s.handler = some (.running call (.charge orderId amount k) σ w) := by
    rw [handler, hd]
    exact hj
  cases hend _ hh

omit [DecidableEq π] in
/-- What a crash leaves of the booking system. -/
theorem interrupted_cases (settings : Settings) (s : Billing π) :
    (s.interrupted settings = s.system ∧ ∀ d ∈ s.deliveries.getLast?, ∀ r,
      s.system.requests[d.request]? = some r → r.ended = true) ∨
    ∃ d, s.deliveries.getLast? = some d ∧
      s.system.step settings (.fail d.request) = some (s.interrupted settings) := by
  unfold interrupted
  cases hd : s.deliveries.getLast? with
  | none => exact .inl ⟨rfl, nofun⟩
  | some d =>
    cases hs : s.system.step settings (.fail d.request) with
    | none =>
      refine .inl ⟨by simp [hs], fun d' hd' r hr => ?_⟩
      cases hd'
      cases r with
      | running => simp [System.step, hr] at hs
      | done => rfl
    | some system => exact .inr ⟨d, rfl, by simp [hs]⟩

/-- The invariant after a crash of the payment worker. -/
theorem Billed.crash (h : s.Billed settings partition i) :
    Billed settings partition i { s with
      consumer := { s.consumer with session := none }
      system := s.interrupted settings } := by
  rcases interrupted_cases settings s with ⟨he, hend⟩ | ⟨d, hd, hs⟩
  · rw [he]
    refine h.consumer_step _ (fun _ => .inr fun r hr => ?_) nofun
    obtain ⟨d, hd, hr⟩ := Option.bind_eq_some_iff.1 hr
    exact hend d hd r hr
  · have h1 : Billed settings partition i { s with system := s.interrupted settings } := by
      have := h.system_step rfl hs s.consumer.logEnd
      simpa [charged] using this
    refine h1.consumer_step _ (fun _ => .inr fun r hr => ?_) nofun
    obtain ⟨d', hd', hr⟩ := Option.bind_eq_some_iff.1 hr
    cases hd.symm.trans hd'
    -- the request of the last delivery has just been aborted
    generalize s.interrupted settings = system at hs hr
    cases System.step_kind hs with
    | fail hj =>
      simp only [System.put, getElem?_set_of_getElem? hj, if_pos] at hr
      cases hr
      rfl

/-- The order of the next record has not been charged: the record of one that has been is behind the
position. -/
theorem Billed.uncharged (h : s.Billed settings partition i) {p : π} {c : ConsumerSession π}
    {m : Message} (hc : s.consumer.session = some c)
    (hm : (records partition p s.system.published)[c.position p]? = some m) (hi : m.key = i) :
    ∀ x ∈ s.charges, x.2 ≠ i := by
  rintro ⟨j, _⟩ hx rfl
  obtain ⟨d, hd, rfl, hkey⟩ := h.known hx
  obtain ⟨rfl, ho⟩ := record_unique h.created (h.record hd) hm hkey hi
  have hlt := h.passed hd hx c hc
  omega

/-- The invariant after the consumer has taken a record. -/
theorem Billed.take (h : s.Billed settings partition i) {p : π} {c : ConsumerSession π}
    {m : Message} (hC : Careful partition i s (.take p)) (hc : s.consumer.session = some c)
    (hph : c.phase = .polling)
    (hm : (records partition p s.system.published)[c.position p]? = some m) :
    Billed settings partition i { s with
      system := { s.system with requests := s.system.requests ++
        [.running (.paymentWorker m) (ApiCall.paymentWorker m).body .empty none] }
      consumer := { s.consumer with session := some { c with
        position := Function.update c.position p (c.position p + 1)
        phase := .handling p (c.position p) } }
      deliveries := s.deliveries ++
        [⟨s.system.requests.length, p, c.position p, m, s.system.statusOf m.key⟩] } := by
  have hs : s.system.step settings (.begin (.paymentWorker m)) = some { s.system with
      requests := s.system.requests ++
        [.running (.paymentWorker m) (ApiCall.paymentWorker m).body .empty none] } := rfl
  -- the number of the new request is that of no delivery so far
  have hfresh : ∀ d ∈ s.deliveries, d.request ≠ s.system.requests.length :=
    fun d hd => (h.request hd).ne
  have hlt : ∀ {q : π} {o : ℕ}, o < c.position q →
      o < Function.update c.position p (c.position p + 1) q := by
    intro q o ho
    rw [Function.update_apply]
    split
    · next he => rw [he] at ho; omega
    · exact ho
  refine ⟨h.inv.step hs fun _ _ _ _ _ _ _ _ _ => trivial, h.tells.step hs,
    h.created.step h.inv h.tells hs,
    System.Everywhere.step h.first System.closed_chargesFirst hs fun call _ =>
      call.body_chargesFirst, ?inHand, ?request, ?record, ?unsettled, ?distinct, ?known, ?passed,
    h.once⟩
  case inHand =>
    intro j call orderId amount k σ w hj
    rcases getElem?_append_singleton hj with hj | ⟨rfl, he⟩
    · obtain ⟨d, c', -, -, -, hc', hph', -⟩ := h.inHand hj
      cases hc.symm.trans hc'
      rw [hph] at hph'
      cases hph'
    · injection he with hcall hp
      have hkey : m.key = orderId := by
        cases m with
        | orderCreated => cases hp; rfl
        | paymentProcessed | ticketIssued | orderCancelled | reservationExpired => cases hp
      refine ⟨_, _, List.getLast?_concat, rfl, hkey, rfl, rfl, ?_, hkey ▸ h.uncharged hc hm⟩
      dsimp only
      rw [Function.update_self]
      omega
  case request =>
    intro d hd
    dsimp only
    rw [List.length_append, List.length_singleton]
    rcases List.mem_append.1 hd with hd | hd
    · have := h.request hd
      omega
    · cases List.mem_singleton.1 hd
      exact Nat.lt_succ_self _
  case record =>
    intro d hd
    rcases List.mem_append.1 hd with hd | hd
    · exact h.record hd
    · cases List.mem_singleton.1 hd
      exact hm
  case unsettled =>
    intro d hd hkey
    rcases List.mem_append.1 hd with hd | hd
    · exact h.unsettled hd hkey
    · cases List.mem_singleton.1 hd
      dsimp only at hkey ⊢
      rw [hkey]
      exact hC c hc m hm hkey
  case distinct =>
    intro d d' hd hd' he
    rcases List.mem_append.1 hd with hd | hd
    · rcases List.mem_append.1 hd' with hd' | hd'
      · exact h.distinct hd hd' he
      · cases List.mem_singleton.1 hd'
        exact absurd he (hfresh d hd)
    · rcases List.mem_append.1 hd' with hd' | hd'
      · cases List.mem_singleton.1 hd
        exact absurd he.symm (hfresh d' hd')
      · exact (List.mem_singleton.1 hd).trans (List.mem_singleton.1 hd').symm
  case known =>
    intro j hj
    obtain ⟨d, hd, hdj⟩ := h.known hj
    exact ⟨d, List.mem_append_left _ hd, hdj⟩
  case passed =>
    rintro d hd hj c' ⟨⟩
    rcases List.mem_append.1 hd with hd | hd
    · exact hlt (h.passed hd hj c hc)
    · cases List.mem_singleton.1 hd
      obtain ⟨d', hd', he, -⟩ := h.known hj
      exact absurd he (hfresh d' hd')

/-- **Every careful step keeps the invariant.** -/
theorem Billed.step (h : s.Billed settings partition i) {b : BillingAction π}
    (hC : Careful partition i s b) (hs : s.step settings partition b = some s') :
    s'.Billed settings partition i := by
  cases step_kind hs with
  | system ha hstep => exact h.system_step ha hstep _
  | start hnone =>
    refine h.consumer_step _ (fun ⟨_, _, _, _, _, hc, _⟩ => ?_) fun hd hj c hc => ?_
    · rw [hnone] at hc
      cases hc
    · cases hc
      exact hC _ hd hj
  | crash => exact h.crash
  | proceeds hc hc' hpos hph =>
    refine h.consumer_step _ (fun ⟨d, c, hd, hj, hkey, hs, hin, hlt, hfree⟩ => ?_)
      fun hd hj c hs => ?_
    · cases hc.symm.trans hs
      rcases hph with hph | hph | hend
      · exact .inl ⟨d, _, hd, hj, hkey, hc', hph.trans hin, hpos ▸ hlt, hfree⟩
      · rw [hph] at hin
        cases hin
      · exact .inr hend
    · cases hc'.symm.trans hs
      rw [hpos]
      exact h.passed hd hj _ hc
  | leave hc hph =>
    refine h.consumer_step _ (fun ⟨_, _, _, _, _, hs, hin, _⟩ => ?_) nofun
    cases hc.symm.trans hs
    rw [hph] at hin
    cases hin
  | take hc hph hm => exact h.take hC hc hph hm

/-- What the invariant says about the charges. -/
theorem Billed.chargedOnce (h : s.Billed settings partition i) : s.ChargedOnce i := by
  refine ⟨h.once, fun d hd hj => h.unsettled hd ?_⟩
  obtain ⟨d', hd', he, hkey⟩ := h.known hj
  rw [← h.distinct hd' hd he]
  exact hkey

end

/-- **An order is charged at most once, and not after it is settled.** For every order and every
interleaving of the booking system with the payment worker and its consumer, which may crash, raise
and start again at any step: if the message of the order is taken while the order is unsettled, and
the consumer starts behind every message of the order whose charge has succeeded, the gateway is
called successfully at most once for the order, for a delivery that found it unsettled. -/
theorem charged_once (settings : Settings) (partition : UUID → π) (i : UUID)
    (as : List (BillingAction π)) (s : Billing π)
    (hr : run (step settings partition) .init as = some s)
    (hC : Along (step settings partition) (Careful partition i) .init as) : s.ChargedOnce i := by
  have h := run_inv_along (I := Billed settings partition i) (fun h hC hs => h.step hC hs) hC hr
    (billed_init settings partition i)
  exact h.chargedOnce

/-! ## A worker that crashes and an order that is cancelled -/

/-- An event with one seat and an order for it, whose message is the first record of the topic. -/
def announcedOrder : List (BillingAction Unit) :=
  [.system (.inventory (.begin (.initializeInventory ⟨1⟩ 1)))] ++
  (System.inventoryAdvances 0 4).map .system ++ [.system (.begin (.bookTickets ⟨2⟩ ⟨1⟩ 1 none))] ++
  (System.advances 0 3 ++ System.inventoryAdvances 1 7 ++ System.advances 0 5).map .system

/-- Request `j` runs `n` operations. -/
def operations (j n : ℕ) : List (BillingAction Unit) := (System.advances j n).map .system

/-- The worker handles the record, crashes after the commit of its offset, and starts again. -/
def lateCrash : List (BillingAction Unit) :=
  announcedOrder ++ [.start, .take ()] ++ operations 1 3 ++
  [.handlerReturns, .commit, .crash, .start]

/-- The order is charged once. -/
theorem lateCrash_charged : ∃ s, run (step .default fun _ => ()) .init lateCrash = some s ∧
    s.ChargedOnce ⟨3⟩ ∧ s.charges = [(1, ⟨3⟩)] := by
  obtain ⟨s, hs, h⟩ : ∃ s, run (step .default fun _ => ()) .init lateCrash = some s ∧
      s.charges = [(1, ⟨3⟩)] :=
    exists_of_run (by decide +kernel)
  refine ⟨s, hs, ?_, h⟩
  exact charged_once .default (fun _ => ()) ⟨3⟩ lateCrash s hs (by decide +kernel)

/-- The worker crashes after the charge, and is handed the record again. -/
def earlyCrash : List (BillingAction Unit) :=
  announcedOrder ++ [.start, .take ()] ++ operations 1 1 ++ [.crash, .start, .take ()] ++
  operations 2 1

/-- The user cancels the order before the worker takes its record. -/
def cancelledFirst : List (BillingAction Unit) :=
  announcedOrder ++ [.system (.begin (.cancelOrder ⟨3⟩ ⟨2⟩))] ++
  (System.advances 1 2 ++ System.inventoryAdvances 2 6 ++ System.advances 1 5).map .system ++
  [.start, .take ()] ++ operations 2 1

/-- **An order can be charged twice, and after its cancellation.** -/
theorem charged_twice :
    (∃ s, run (step .default fun _ => ()) .init earlyCrash = some s ∧
      s.charges = [(1, ⟨3⟩), (2, ⟨3⟩)] ∧ ¬ s.ChargedOnce ⟨3⟩) ∧
    ∃ s, run (step .default fun _ => ()) .init cancelledFirst = some s ∧
      s.charges = [(2, ⟨3⟩)] ∧ (s.system.statusOf ⟨3⟩) = some .cancelled ∧
      ¬ s.ChargedOnce ⟨3⟩ := by
  obtain ⟨s, hs, h1⟩ : ∃ s, run (step .default fun _ => ()) .init earlyCrash = some s ∧
      s.charges = [(1, ⟨3⟩), (2, ⟨3⟩)] :=
    exists_of_run (by decide +kernel)
  obtain ⟨s', hs', hc, hst, d, hd, hdj, hset⟩ :
      ∃ s, run (step .default fun _ => ()) .init cancelledFirst = some s ∧
        s.charges = [(2, ⟨3⟩)] ∧ (s.system.statusOf ⟨3⟩) = some .cancelled ∧
        ∃ d ∈ s.deliveries, d.request = 2 ∧ d.status ∈ settledStatuses :=
    exists_of_run (by decide +kernel)
  refine ⟨⟨s, hs, h1, fun h => ?_⟩, s', hs', hc, hst, fun h => h.unsettled d hd ?_ hset⟩
  · have := h.once
    rw [h1] at this
    revert this
    decide
  · rw [hdj, hc]
    exact List.mem_singleton_self _

end Billing

end EventSphere.Api
