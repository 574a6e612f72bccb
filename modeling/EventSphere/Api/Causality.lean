import EventSphere.Api.Announcements
import EventSphere.Api.References
import EventSphere.Inventory.SweepAnswers

/-!
# Every message has its cause

The services and workers act on a message without asking its sender back. `messages_genuine` says
what they may rely on, for every interleaving and every failure: what a published message says of an
order or of a reservation is stored in the committed tables, a call of the inventory has returned
before a message about a settled order, and what caused a message was published before it. A program
is held to this by `ApiProg.Vouched`: where it publishes, it has learned what it needs for the
message (`Evidence`). That `confirm` has returned does not mean that the reservation is confirmed:
of one that has expired it changes nothing (`unbacked_ticket`).
-/

namespace EventSphere.Api

open Inventory (Settings ReservedFor)

/-- The message that a worker has been handed. -/
def ApiCall.handed : ApiCall → Option Message
  | .orderStatusWorker m | .paymentWorker m => some m
  | .bookTickets .. | .cancelOrder .. | .reservationReaper => none

/-- What a request has to have learned before it publishes a message. -/
def Evidence (call : ApiCall) (F : List Fact) : Message → Prop
  | .orderCreated i e u q t r => ∃ o, .known o ∈ F ∧ o.created = .orderCreated i e u q t r
  | .paymentProcessed i _ _ => ∃ e u q t r, call = .paymentWorker (.orderCreated i e u q t r)
  | .ticketIssued i u e => ∃ o res ref, .known o ∈ F ∧ o.status = .confirmed ∧
    o.settled .confirmed = some (.ticketIssued i u e) ∧
    .answered (.confirmReservation o.reservationId) res ∈ F ∧
    call = .orderStatusWorker (.paymentProcessed i true ref)
  | .orderCancelled i r => ∃ o res, .known o ∈ F ∧ o.status = .cancelled ∧
    o.settled .cancelled = some (.orderCancelled i r) ∧
    .answered (.releaseReservation r false) res ∈ F ∧
    (call = .cancelOrder i o.userId ∨
      ∃ ref, call = .orderStatusWorker (.paymentProcessed i false ref))
  | .reservationExpired r i e =>
    ∃ rs x, .answered .sweepExpiredReservations (.reservations rs) ∈ F ∧
    x ∈ rs ∧ x.id = r ∧ x.orderId = i ∧ x.eventId = e

/-- What a commit of the session teaches. -/
def ApiSession.learned (σ : ApiSession) : List Fact :=
  σ.insert.toList.map .known ++ σ.status.toList.map fun (o, st) => .known { o with status := st }

namespace ApiProg

/-- The program has evidence for every message it publishes. -/
def Vouched (call : ApiCall) : ApiProg (Option Order) → ApiSession → List Fact → Prop
  | ret _, _, _ | raise _, _, _ => True
  | getByIdempotencyKey user key f, σ, F =>
    (∀ o, Vouched call (f (some o)) σ F) ∧
    Vouched call (f none) { σ with missed := some (user, key) } F
  | getForUser i _ f, σ, F | getOrder i f, σ, F =>
    σ.Clean ∧ (∀ o, o.id = i → Vouched call (f (some o)) σ (.known o :: F)) ∧
    Vouched call (f none) σ F
  | getEvent _ f, σ, F => ∀ e, Vouched call (f e) σ F
  | uuid4 f, σ, F => ∀ i, Vouched call (f i) σ F
  | charge _ _ f, σ, F => ∀ paid ref, Vouched call (f paid ref) σ F
  | rpc c f, σ, F => ∀ res, Vouched call (f res) σ (.answered c res :: F)
  | addOrder o f, σ, F => Vouched call f { σ with insert := some o } F
  | setStatus o st f, σ, F => Vouched call f { σ with status := some (o, st) } F
  | commit f, σ, F => Vouched call f .empty (σ.learned ++ F)
  | publish m f, σ, F => Evidence call F m ∧ Vouched call f σ F

/-- The next operation of a program leaves it with evidence: it has learned at most an order that it
has read. -/
theorem Vouched.continue {call : ApiCall} {orders : Table Order} {inp : ApiInput}
    {p p' : ApiProg (Option Order)} {σ σ' : ApiSession} {F : List Fact} (h : p.Vouched call σ F)
    (hn : p.next orders inp σ = .continue p' σ') :
    ∃ F', p'.Vouched call σ' F' ∧
      ∀ f ∈ F', f ∈ F ∨ ∃ o, f = .known o ∧ orders.get o.id = some o := by
  -- nothing is learned, or one order
  have hsame : ∀ {q : ApiProg (Option Order)} {τ : ApiSession}, q.Vouched call τ F →
      ∃ F', q.Vouched call τ F' ∧ ∀ f ∈ F', f ∈ F ∨ ∃ o, f = .known o ∧ orders.get o.id = some o :=
    fun h' => ⟨F, h', fun _ => .inl⟩
  have hread : ∀ {q : ApiProg (Option Order)} {o : Order}, orders.get o.id = some o →
      q.Vouched call σ (.known o :: F) →
      ∃ F', q.Vouched call σ F' ∧ ∀ f ∈ F', f ∈ F ∨ ∃ o, f = .known o ∧ orders.get o.id = some o :=
    fun {_ o} ho h' =>
    ⟨.known o :: F, h', fun f hf => (List.mem_cons.1 hf).elim (fun he => .inr ⟨o, he, ho⟩) .inl⟩
  cases p with
  | getByIdempotencyKey user key f =>
    simp only [next] at hn
    split at hn
    · cases hn
    · cases hn; exact hsame h.2
    · next o _ => cases hn; exact hsame (h.1 o)
  | getForUser i user f =>
    obtain ⟨hc, hsome, hnone⟩ := h
    simp only [next, hc.view] at hn
    cases hn
    cases ho : (orders.get i).filter (·.userId = user) with
    | none => exact hsame hnone
    | some o =>
      have hget := (Option.filter_eq_some_iff.1 ho).1
      obtain rfl : o.id = i := orders.pk_of_get hget
      exact hread hget (hsome o rfl)
  | getOrder i f =>
    obtain ⟨hc, hsome, hnone⟩ := h
    simp only [next, hc.view] at hn
    cases hn
    cases ho : orders.get i with
    | none => exact hsame hnone
    | some o =>
      obtain rfl : o.id = i := orders.pk_of_get ho
      exact hread ho (hsome o rfl)
  | addOrder o f =>
    simp only [next] at hn
    split at hn
    · cases hn
    · cases hn; exact hsame h
  | setStatus o st f => cases hn; exact hsame h
  | getEvent i f | uuid4 f => cases hn; exact hsame (h _)
  | charge i amount f => cases hn; exact hsame (h _ _)
  | ret | raise | rpc | commit | publish => cases hn

end ApiProg

/-! ## The handlers -/

/-- The part of `book_tickets` after the lookup. -/
theorem bookNewOrder_vouched (call : ApiCall) (user eventId : UUID) (quantity : ℤ)
    (idempotencyKey : Option String) (missed : Option (UUID × String)) :
    (do return some (← bookNewOrder user eventId quantity idempotencyKey) :
      ApiProg (Option Order)).Vouched call ⟨none, none, missed⟩ [] := by
  unfold bookNewOrder reserveSeats
  intro event
  cases event with
  | none => trivial
  | some event =>
    intro i res
    cases res with
    | reservation r => exact ⟨⟨_, List.mem_cons_self .., rfl⟩, trivial⟩
    | inventory | reservations => trivial

/-- `book_tickets`. -/
theorem bookTickets_vouched (call : ApiCall) (user eventId : UUID) (quantity : ℤ)
    (idempotencyKey : Option String) :
    (ApiCall.bookTickets user eventId quantity idempotencyKey).body.Vouched call .empty [] := by
  unfold ApiCall.body bookTickets
  cases idempotencyKey with
  | none => exact bookNewOrder_vouched call _ _ _ _ _
  | some k =>
    dsimp only
    split
    · exact bookNewOrder_vouched call _ _ _ _ _
    · exact ⟨fun o => trivial, bookNewOrder_vouched call _ _ _ _ _⟩

/-- `cancel_order`. -/
theorem cancelOrder_vouched (orderId user : UUID) :
    (ApiCall.cancelOrder orderId user).body.Vouched (.cancelOrder orderId user) .empty [] := by
  unfold ApiCall.body cancelOrder
  simp only [ApiProg.getForUser_bind, ApiProg.ret_bind]
  refine ⟨clean_missed _, fun o ho => ?_, trivial⟩
  dsimp only
  split
  · trivial
  · next hu =>
    split
    · trivial
    · intro res
      refine ⟨⟨{ o with status := .cancelled }, res, List.mem_cons_self .., rfl, rfl, ?_, .inl ?_⟩,
        trivial⟩
      · exact List.mem_cons_of_mem _ (List.mem_cons_self ..)
      · rw [← ho, ← not_not.1 hu]

/-- `_handle_payment_processed`. -/
theorem handlePaymentProcessed_vouched (orderId : UUID) (success : Bool) (ref : String) :
    (ApiCall.orderStatusWorker (.paymentProcessed orderId success ref)).body.Vouched
      (.orderStatusWorker (.paymentProcessed orderId success ref)) .empty [] := by
  change (do handlePaymentProcessed orderId success; return none : ApiProg (Option Order)).Vouched
    _ _ _
  unfold handlePaymentProcessed
  simp only [ApiProg.getOrder_bind, ApiProg.ret_bind]
  refine ⟨clean_missed _, fun o ho => ?_, trivial⟩
  dsimp only
  split
  · trivial
  · split
    · next hs =>
      intro res
      refine ⟨⟨{ o with status := .confirmed }, res, ref, List.mem_cons_self .., rfl, rfl, ?_, ?_⟩,
        trivial⟩
      · exact List.mem_cons_of_mem _ (List.mem_cons_self ..)
      · rw [← ho, hs]
    · next hs =>
      intro res
      refine ⟨⟨{ o with status := .cancelled }, res, List.mem_cons_self .., rfl, rfl, ?_,
        .inr ⟨ref, ?_⟩⟩, trivial⟩
      · exact List.mem_cons_of_mem _ (List.mem_cons_self ..)
      · rw [← ho, Bool.eq_false_iff.2 hs]

/-- `_handle_reservation_expired` publishes nothing. -/
theorem handleReservationExpired_vouched (call : ApiCall) (orderId : UUID) :
    (do handleReservationExpired orderId; return none : ApiProg (Option Order)).Vouched call
      .empty [] := by
  unfold handleReservationExpired
  simp only [ApiProg.getOrder_bind, ApiProg.ret_bind]
  refine ⟨clean_missed _, fun o ho => ?_, trivial⟩
  dsimp only
  split <;> trivial

/-- The messages of the reaper are about reservations that the sweep has returned. -/
theorem publishExpired_vouched (call : ApiCall) {rs : List Inventory.Reservation} {σ : ApiSession}
    {F : List Fact} (h : ∀ r ∈ rs, ∃ all, r ∈ all ∧
      .answered .sweepExpiredReservations (.reservations all) ∈ F) :
    (do publishExpired rs; return none : ApiProg (Option Order)).Vouched call σ F := by
  induction rs with
  | nil => trivial
  | cons r rs ih =>
    obtain ⟨all, hall, hF⟩ := h r (List.mem_cons_self ..)
    exact ⟨⟨all, r, hF, hall, rfl, rfl, rfl⟩, ih fun x hx => h x (List.mem_cons_of_mem _ hx)⟩

/-- **Every handler has evidence for what it publishes.** -/
theorem ApiCall.body_vouched (call : ApiCall) : call.body.Vouched call .empty [] := by
  cases call with
  | bookTickets user eventId quantity key => exact bookTickets_vouched ..
  | cancelOrder orderId user => exact cancelOrder_vouched ..
  | orderStatusWorker m =>
    cases m with
    | paymentProcessed => exact handlePaymentProcessed_vouched ..
    | reservationExpired => exact handleReservationExpired_vouched ..
    | orderCreated | ticketIssued | orderCancelled => trivial
  | paymentWorker m =>
    cases m with
    | orderCreated => exact fun _ _ => ⟨⟨_, _, _, _, _, rfl⟩, trivial⟩
    | paymentProcessed | ticketIssued | orderCancelled | reservationExpired => trivial
  | reservationReaper =>
    intro res
    cases res with
    | reservations rs =>
      exact publishExpired_vouched _ fun r hr => ⟨rs, hr, List.mem_cons_self ..⟩
    | inventory | reservation => trivial

/-! ## The interleaved system -/

namespace System

/-- The inventory has returned from the call. -/
def Answered (s : System) (c : Inventory.Call) : Prop :=
  ∃ (t : ℕ) (res : Inventory.Result), s.inventory.txs[t]? = some (.done c (.returned res))

/-- A message that follows the messages `before` agrees with the tables, has its call of the
inventory behind it and its cause among them. -/
def Genuine (s : System) (before : List Message) : Message → Prop
  | .orderCreated i e u q t r => ∃ o, s.orders.get i = some o ∧
    o.created = .orderCreated i e u q t r ∧ ReservedFor s.inventory.db r e i q
  | .paymentProcessed i _ _ => ∃ e u q t r, .orderCreated i e u q t r ∈ before
  | .ticketIssued i u e => ∃ o, s.orders.get i = some o ∧ o.userId = u ∧ o.eventId = e ∧
    o.status ≠ .pending ∧ s.Answered (.confirmReservation o.reservationId) ∧
    ∃ ref, .paymentProcessed i true ref ∈ before
  | .orderCancelled i r => ∃ o, s.orders.get i = some o ∧ o.reservationId = r ∧
    o.status ≠ .pending ∧ s.Answered (.releaseReservation r false) ∧
    ((∃ x ∈ s.requests, x.call = .cancelOrder i o.userId) ∨
      ∃ ref, .paymentProcessed i false ref ∈ before)
  | .reservationExpired r i e => ∃ q, ReservedFor s.inventory.db r e i q

/-- The invariant that carries `messages_genuine`. -/
structure Truthful (settings : Settings) (s : System) : Prop where
  refs : s.Referenced settings
  sweeps : Inventory.Returning settings s.inventory
  vouched : ∀ {j : ℕ} {call p σ w}, s.requests[j]? = some (.running call p σ w) →
    ∃ F, p.Vouched call σ F ∧ ∀ f ∈ F, s.Holds f
  handed : ∀ x ∈ s.requests, ∀ m ∈ x.call.handed, m ∈ s.published
  genuine : ∀ {before m after}, s.published = before ++ m :: after → s.Genuine before m

theorem truthful_init (settings : Settings) : Truthful settings .init where
  refs := referenced_init settings
  sweeps := Inventory.returning_init settings
  vouched := nofun
  handed := List.forall_mem_nil _
  genuine h := by
    have := congrArg List.length h
    simp [init] at this

section
variable {settings : Settings} {s s' : System} {a : SystemAction} {call : ApiCall}

/-- Requests keep their calls. -/
theorem call_mem_step (hs : s.step settings a = some s') (h : ∃ x ∈ s.requests, x.call = call) :
    ∃ x ∈ s'.requests, x.call = call := by
  obtain ⟨x, hx, hcall⟩ := h
  obtain ⟨j, hj⟩ := List.mem_iff_getElem?.1 hx
  have hkind := requests_kind hs
  generalize s'.requests = requests at hkind
  cases hkind with
  | arrives => exact ⟨x, List.mem_append_left _ hx, hcall⟩
  | stays => exact ⟨x, hx, hcall⟩
  | @moves _ j' r r' hj' _ hc =>
    have hget : (s.requests.set j' r')[j]? = if j = j' then some r' else s.requests[j]? :=
      getElem?_set_of_getElem? hj'
    split at hget
    · next he =>
      subst he
      cases hj.symm.trans hj'
      exact ⟨r', List.mem_of_getElem? hget, hc.trans hcall⟩
    · exact ⟨x, List.mem_of_getElem? (hget.trans hj), hcall⟩

/-- A reservation stays for its event, order and quantity. -/
theorem reservedFor_step {i e o : UUID} {q : ℤ} (h : Inventory.Coherent settings s.inventory)
    (hs : s.step settings a = some s') (hr : ReservedFor s.inventory.db i e o q) :
    ReservedFor s'.inventory.db i e o q := by
  rcases inventory_step hs with hi | ⟨b, hb⟩
  · rw [hi]
    exact hr
  · exact hr.step h hb

/-- An order that is committed keeps its columns and does not become pending. -/
theorem Extends.order (hext : s.Extends s') {i : UUID} {o : Order} (ho : s.orders.get i = some o) :
    ∃ o', s'.orders.get i = some o' ∧ o'.userId = o.userId ∧ o'.eventId = o.eventId ∧
      o'.reservationId = o.reservationId ∧ o'.created = o.created ∧
      (o.status ≠ .pending → o'.status ≠ .pending) := by
  obtain ⟨o', ho', hsucc⟩ := hext.orders ho
  refine ⟨o', ho', ?_, ?_, hsucc.reservationId_eq, hsucc.created_eq, fun hne hp => hne ?_⟩
  · rw [hsucc.columns]
  · rw [hsucc.columns]
  · exact hsucc.pending hp

/-- **A genuine message stays genuine.** -/
theorem Genuine.step (h : s.Referenced settings) (hs : s.step settings a = some s')
    {before : List Message} {m : Message} (hm : s.Genuine before m) : s'.Genuine before m := by
  have hext := h.inv.extends hs
  have hanswered : ∀ {c}, s.Answered c → s'.Answered c := fun ⟨t, res, ht⟩ =>
    ⟨t, res, hext.ended ht⟩
  have hreserved : ∀ {i e o q}, ReservedFor s.inventory.db i e o q →
      ReservedFor s'.inventory.db i e o q := reservedFor_step h.inv.inventory.coherent hs
  cases m with
  | orderCreated i e u q t r =>
    obtain ⟨o, ho, hc, hr⟩ := hm
    obtain ⟨o', ho', -, -, -, hc', -⟩ := hext.order ho
    exact ⟨o', ho', hc'.trans hc, hreserved hr⟩
  | paymentProcessed => exact hm
  | ticketIssued i u e =>
    obtain ⟨o, ho, hu, he, hp, hans, href⟩ := hm
    obtain ⟨o', ho', hu', he', hr', -, hp'⟩ := hext.order ho
    exact ⟨o', ho', hu'.trans hu, he'.trans he, hp' hp, hr' ▸ hanswered hans, href⟩
  | orderCancelled i r =>
    obtain ⟨o, ho, hr, hp, hans, hcause⟩ := hm
    obtain ⟨o', ho', hu', -, hr', -, hp'⟩ := hext.order ho
    refine ⟨o', ho', hr'.trans hr, hp' hp, hanswered hans, hcause.imp_left fun hcall => ?_⟩
    rw [hu']
    exact call_mem_step hs hcall
  | reservationExpired r i e =>
    obtain ⟨q, hr⟩ := hm
    exact ⟨q, hreserved hr⟩

/-- **A message with evidence is genuine**: what its worker has been handed was published before. -/
theorem Truthful.evidence (h : s.Truthful settings) {j : ℕ} {p : ApiProg (Option Order)}
    {σ : ApiSession} {w : Option ℕ} {F : List Fact} {m : Message}
    (hj : s.requests[j]? = some (.running call p σ w)) (hF : ∀ f ∈ F, s.Holds f)
    (hm : Evidence call F m) : s.Genuine s.published m := by
  have hmem := List.mem_of_getElem? hj
  cases m with
  | orderCreated i e u q t r =>
    obtain ⟨o, ho, hc⟩ := hm
    obtain ⟨cur, hcur, hsucc⟩ := hF _ ho
    have hcreated : cur.created = .orderCreated i e u q t r := hsucc.created_eq.trans hc
    have hres := h.refs.backed hcur
    obtain ⟨hi, he, -, hq, -, hr⟩ := Message.orderCreated.inj hcreated
    rw [hr, he, hi, hq] at hres
    refine ⟨cur, ?_, hcreated, hres⟩
    rw [← hi, hsucc.id_eq]
    exact hcur
  | paymentProcessed i ok ref =>
    obtain ⟨e, u, q, t, r, rfl⟩ := hm
    exact ⟨e, u, q, t, r, h.handed _ hmem _ rfl⟩
  | ticketIssued i u e =>
    obtain ⟨o, res, ref, ho, hst, hset, hans, rfl⟩ := hm
    obtain ⟨hi, hu, he⟩ := Message.ticketIssued.inj (Option.some.inj hset)
    obtain ⟨cur, hcur, hsucc⟩ := hF _ ho
    obtain ⟨t, ht⟩ := hF _ hans
    refine ⟨cur, hi ▸ hcur, ?_, ?_, fun hp => ?_, ?_, ref, h.handed _ hmem _ rfl⟩
    · rw [hsucc.columns, ← hu]
    · rw [hsucc.columns, ← he]
    · cases hst.symm.trans (hsucc.pending hp)
    · rw [hsucc.reservationId_eq]
      exact ⟨t, res, ht⟩
  | orderCancelled i r =>
    obtain ⟨o, res, ho, hst, hset, hans, hcause⟩ := hm
    obtain ⟨hi, hr⟩ := Message.orderCancelled.inj (Option.some.inj hset)
    obtain ⟨cur, hcur, hsucc⟩ := hF _ ho
    obtain ⟨t, ht⟩ := hF _ hans
    refine ⟨cur, hi ▸ hcur, hsucc.reservationId_eq.trans hr, fun hp => ?_, ⟨t, res, ht⟩, ?_⟩
    · cases hst.symm.trans (hsucc.pending hp)
    · rcases hcause with hcall | ⟨ref, hcall⟩
      · refine .inl ⟨_, hmem, ?_⟩
        rw [hsucc.columns]
        exact hcall
      · refine .inr ⟨ref, h.handed _ hmem _ ?_⟩
        rw [Request.call, hcall]
        rfl
  | reservationExpired r i e =>
    obtain ⟨rs, x, hans, hx, rfl, rfl, rfl⟩ := hm
    obtain ⟨t, ht⟩ := hF _ hans
    exact ⟨x.quantity, h.sweeps.returned ht x hx⟩

/-- What a commit of a request's session teaches is true. -/
theorem RequestInv.learned {E : ApiCall → Prop} {j : ℕ} {p : ApiProg (Option Order)}
    {σ : ApiSession} {F : List Fact} (h : RequestInv E s j call (.commit p) σ none F)
    (hs' : s'.orders = σ.view s.orders) : ∀ f ∈ σ.learned, s'.Holds f := by
  have hknown : ∀ o, .known o ∈ σ.learned →
      ∃ cur, (σ.view s.orders).get o.id = some cur ∧ cur.Succeeds o := by
    have hkind := h.commit_kind
    generalize σ.view s.orders = orders at hkind
    intro o hf
    cases hkind with
    | nothing hi hst => simp [ApiSession.learned, hi, hst] at hf
    | inserted hi hst =>
      simp only [ApiSession.learned, hi, hst, Option.toList_some, Option.toList_none, List.map_cons,
        List.map_nil, List.append_nil, List.mem_singleton] at hf
      cases hf
      exact ⟨o, get_set_order _ o, .refl o⟩
    | @updated o₀ cur st hi hst _ hcur hsucc =>
      simp only [ApiSession.learned, hi, hst, Option.toList_some, Option.toList_none, List.map_cons,
        List.map_nil, List.nil_append, List.mem_singleton] at hf
      cases hf
      refine ⟨{ cur with status := st }, ?_, ?_, id⟩
      · rw [← hsucc.id_eq]
        exact get_set_order s.orders { cur with status := st }
      · rw [hsucc.columns]
  intro f hf
  obtain ⟨o, rfl⟩ : ∃ o, f = .known o := by
    rcases List.mem_append.1 hf with hf | hf
    · obtain ⟨o, -, rfl⟩ := List.mem_map.1 hf
      exact ⟨o, rfl⟩
    · obtain ⟨⟨o, st⟩, -, rfl⟩ := List.mem_map.1 hf
      exact ⟨_, rfl⟩
  obtain ⟨cur, hcur, hsucc⟩ := hknown o hf
  exact ⟨cur, hs' ▸ hcur, hsucc⟩

/-- The evidence of a running request after a step. -/
theorem Truthful.vouched_step (h : s.Truthful settings) (hs : s.step settings a = some s') {j : ℕ}
    {p : ApiProg (Option Order)} {σ : ApiSession} {w : Option ℕ}
    (hj : s'.requests[j]? = some (.running call p σ w)) :
    ∃ F, p.Vouched call σ F ∧ ∀ f ∈ F, s'.Holds f := by
  have hext := h.refs.inv.extends hs
  -- a request that has not moved
  have hold : s.requests[j]? = some (.running call p σ w) →
      ∃ F, p.Vouched call σ F ∧ ∀ f ∈ F, s'.Holds f := fun hj' => by
    obtain ⟨F, hp, hF⟩ := h.vouched hj'
    exact ⟨F, hp, fun f hf => hext.holds (hF f hf)⟩
  cases step_kind hs with
  | begin call' =>
    rcases getElem?_append_singleton hj with hj | ⟨-, he⟩
    · exact hold hj
    · cases he
      exact ⟨[], call.body_vouched, List.forall_mem_nil _⟩
  | ret hj' | raise hj' | refused hj' | fail hj' =>
    rcases getElem?_set_inv hj with ⟨-, he⟩ | ⟨-, hj⟩
    · cases he
    · exact hold hj
  | «continue» hj' _ hn =>
    rcases getElem?_set_inv hj with ⟨-, he⟩ | ⟨-, hj⟩
    · cases he
      obtain ⟨F, hp, hF⟩ := h.vouched hj'
      obtain ⟨F', hp', hF'⟩ := hp.continue hn
      refine ⟨F', hp', fun f hf => ?_⟩
      rcases hF' f hf with hf | ⟨o, rfl, ho⟩
      · exact hF f hf
      · exact ⟨o, ho, .refl o⟩
    · exact hold hj
  | call hj' =>
    rcases getElem?_set_inv hj with ⟨-, he⟩ | ⟨-, hj⟩
    · cases he
      obtain ⟨F, hp, hF⟩ := h.vouched hj'
      exact ⟨F, hp, fun f hf => hext.holds (hF f hf)⟩
    · exact hold hj
  | commit hj' =>
    rcases getElem?_set_inv hj with ⟨-, he⟩ | ⟨-, hj⟩
    · cases he
      obtain ⟨F, hp, hF⟩ := h.vouched hj'
      obtain ⟨F₀, hreq⟩ := h.refs.inv.request hj'
      refine ⟨_, hp, fun f hf => ?_⟩
      rcases List.mem_append.1 hf with hf | hf
      · exact hreq.learned rfl f hf
      · exact hext.holds (hF f hf)
    · exact hold hj
  | publish hj' =>
    rcases getElem?_set_inv hj with ⟨-, he⟩ | ⟨-, hj⟩
    · cases he
      obtain ⟨F, hp, hF⟩ := h.vouched hj'
      exact ⟨F, hp.2, hF⟩
    · exact hold hj
  | @answered _ inp _ c c' k _ t res hj' ht =>
    rcases getElem?_set_inv hj with ⟨-, he⟩ | ⟨-, hj⟩
    · cases he
      obtain ⟨F, hp, hF⟩ := h.vouched hj'
      obtain ⟨F₀, hreq⟩ := h.refs.inv.request hj'
      obtain ⟨c'', k', x, hp', hx, hc⟩ := hreq.waits rfl
      cases hp'
      cases ht.symm.trans hx
      refine ⟨_, hp res, fun f hf => ?_⟩
      rcases List.mem_cons.1 hf with rfl | hf
      · exact ⟨t, hc ▸ ht⟩
      · exact hF f hf
    · exact hold hj
  | inventory => exact hold hj

/-- The only message that a step can add. -/
theorem published_step (hs : s.step settings a = some s') : s'.published = s.published ∨
    ∃ j inp call m p σ, a = .advance j inp ∧
      s.requests[j]? = some (.running call (.publish m p) σ none) ∧
      s'.published = s.published ++ [m] := by
  cases step_kind hs with
  | begin | ret | raise | «continue» | call | commit | answered | refused | fail | inventory =>
    exact .inl rfl
  | publish hj => exact .inr ⟨_, _, _, _, _, _, rfl, hj, rfl⟩

/-- **One step keeps every message true.** -/
theorem Truthful.step (h : s.Truthful settings) (hs : System.step settings s a = some s')
    (hpub : s.HandsPublished a) : s'.Truthful settings where
  refs := h.refs.step hs
  sweeps := by
    rcases inventory_step hs with hi | ⟨b, hb⟩
    · rw [hi]
      exact h.sweeps
    · exact h.sweeps.step hb
  vouched hj := h.vouched_step hs hj
  handed x hx m hm := by
    obtain ⟨ms, hms⟩ := published_append hs
    have hold : ∀ y ∈ s.requests, y.call = x.call → m ∈ s'.published := fun y hy hc => by
      rw [hms]
      exact List.mem_append_left _ (h.handed y hy m (hc ▸ hm))
    have hkind := requests_kind hs
    generalize s'.requests = requests at hkind hx
    cases hkind with
    | arrives call =>
      rcases List.mem_append.1 hx with hx | hx
      · exact hold x hx rfl
      · cases List.mem_singleton.1 hx
        rw [hms]
        refine List.mem_append_left _ ?_
        cases call with
        | orderStatusWorker | paymentWorker => cases hm; exact hpub
        | bookTickets | cancelOrder | reservationReaper => cases hm
    | moves hj _ hc =>
      rcases List.mem_or_eq_of_mem_set hx with hx | rfl
      · exact hold x hx rfl
      · exact hold _ (List.mem_of_getElem? hj) hc.symm
    | stays => exact hold x hx rfl
  genuine {before m after} hm := by
    rcases published_step hs with hp | ⟨j, inp, call, m', p, σ, rfl, hj, hp⟩
    · rw [hp] at hm
      exact (h.genuine hm).step h.refs hs
    · rw [hp] at hm
      rcases List.eq_nil_or_concat after with rfl | ⟨after', x, rfl⟩
      · obtain ⟨rfl, he⟩ := List.append_inj' hm rfl
        cases he
        obtain ⟨F, hF, hholds⟩ := h.vouched hj
        exact (h.evidence hj hholds hF.1).step h.refs hs
      · rw [List.concat_eq_append, ← List.cons_append, ← List.append_assoc] at hm
        exact (h.genuine (List.append_inj' hm rfl).1).step h.refs hs

/-- Every message of a run is true. -/
theorem truthful_run {as : List SystemAction} (hr : run (System.step settings) .init as = some s)
    (hpub : Along (System.step settings) HandsPublished .init as) : s.Truthful settings :=
  run_inv_along (fun h hC hs => h.step hs hC) hpub hr (truthful_init settings)

end

/-- **Every message has its cause.** In every run of the interleaved system whose workers are handed
published messages only, each published message agrees with the tables and follows the messages that
caused it: an `ORDER_CREATED` has its committed order and reservation, a `PAYMENT_PROCESSED` follows
an `ORDER_CREATED` of the order, a `TICKET_ISSUED` is for the user and the event of an order that
has left pending, after a successful payment and after the inventory has returned from a call of
`confirm` for its reservation, whatever that has found, an `ORDER_CANCELLED` is for such an order
too, after the inventory has returned from a call of `release` for its reservation and for a failed
payment or a cancellation by its user, and a `RESERVATION_EXPIRED` names a stored reservation of the
order and the event. -/
theorem messages_genuine (settings : Settings) (as : List SystemAction) (s : System)
    (hr : run (step settings) .init as = some s)
    (hpub : Along (step settings) HandsPublished .init as) (before : List Message) (m : Message)
    (after : List Message) (hm : s.published = before ++ m :: after) : s.Genuine before m :=
  (truthful_run hr hpub).genuine hm

/-- The confirmed order has been announced, paid for and confirmed. -/
theorem confirmedOrder_told : ∃ s, run (step .default) .init confirmedOrder = some s ∧
    s.published = [.orderCreated ⟨3⟩ ⟨1⟩ ⟨2⟩ 1 1000 ⟨101⟩, .paymentProcessed ⟨3⟩ true "mock_txn_0",
      .ticketIssued ⟨3⟩ ⟨2⟩ ⟨1⟩] ∧ Along (step .default) HandsPublished .init confirmedOrder :=
  exists_of_run (by decide +kernel)

theorem confirmedOrder_genuine : ∃ s, run (step .default) .init confirmedOrder = some s ∧
    s.Genuine [.orderCreated ⟨3⟩ ⟨1⟩ ⟨2⟩ 1 1000 ⟨101⟩, .paymentProcessed ⟨3⟩ true "mock_txn_0"]
      (.ticketIssued ⟨3⟩ ⟨2⟩ ⟨1⟩) := by
  obtain ⟨s, hr, hp, hpub⟩ := confirmedOrder_told
  exact ⟨s, hr, messages_genuine .default _ s hr hpub _ _ [] hp⟩

/-- **Every ticket can be traced back.** Before a `TICKET_ISSUED` the order was announced, with the
user and the event of the ticket, and then its payment succeeded; the reservation that was announced
is stored for this order and event with a positive number of seats, and the inventory has returned
from a call of `confirm` for it. -/
theorem ticket_traced (settings : Settings) (as : List SystemAction) (s : System)
    (hr : run (step settings) .init as = some s)
    (hpub : Along (step settings) HandsPublished .init as) (before after : List Message)
    (i u e : UUID) (hm : s.published = before ++ .ticketIssued i u e :: after) :
    ∃ q t r ref, (∃ b₀ b₁ b₂, before =
        b₀ ++ .orderCreated i e u q t r :: b₁ ++ .paymentProcessed i true ref :: b₂) ∧
      0 < q ∧ ReservedFor s.inventory.db r e i q ∧ s.Answered (.confirmReservation r) := by
  have h := truthful_run hr hpub
  obtain ⟨o, ho, rfl, rfl, -, hconf, ref, href⟩ := h.genuine hm
  obtain ⟨b, b₂, rfl⟩ := List.append_of_mem href
  obtain ⟨e', u', q, t, r, hcreated⟩ : s.Genuine b (.paymentProcessed i true ref) :=
    h.genuine (by rw [hm, List.append_assoc]; rfl)
  obtain ⟨b₀, b₁, rfl⟩ := List.append_of_mem hcreated
  obtain ⟨o', ho', hc, hres⟩ : s.Genuine b₀ (.orderCreated i e' u' q t r) :=
    h.genuine (by rw [hm, List.append_assoc, List.append_assoc]; rfl)
  cases ho.symm.trans ho'
  obtain ⟨-, rfl, rfl, -, -, rfl⟩ := Message.orderCreated.inj hc
  refine ⟨q, t, _, ref, ⟨b₀, b₁, b₂, rfl⟩, ?_, hres, hconf⟩
  obtain ⟨x, hx, -, -, hq⟩ := hres
  rw [← hq]
  exact h.sweeps.coherent.db.valid hx

theorem confirmedOrder_traced : ∃ s, run (step .default) .init confirmedOrder = some s ∧
    ∃ q r, 0 < q ∧ ReservedFor s.inventory.db r ⟨1⟩ ⟨3⟩ q := by
  obtain ⟨s, hr, hp, hpub⟩ := confirmedOrder_told
  obtain ⟨q, t, r, ref, -, hq, hres, -⟩ := ticket_traced .default _ s hr hpub
    [.orderCreated ⟨3⟩ ⟨1⟩ ⟨2⟩ 1 1000 ⟨101⟩, .paymentProcessed ⟨3⟩ true "mock_txn_0"] [] ⟨3⟩ ⟨2⟩
      ⟨1⟩ hp
  exact ⟨s, hr, q, r, hq, hres⟩

end System

end EventSphere.Api
