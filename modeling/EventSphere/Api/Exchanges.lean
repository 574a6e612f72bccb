import EventSphere.Api.Deployment
import EventSphere.Api.Simulation

/-!
# What a call over gRPC keeps

Three invariants on which the refinement of `System` by `Deployment` rests. The handlers call only
the methods on reservations, read of a reservation nothing but its id, and have no insert pending
while they wait (`ApiProg.Remote`). A reply tells what its transaction has come to
(`tells_of_reply`): what these methods raise is what the clauses of the servicer name, or arrives as
an error that says nothing in both systems, and every reservation fits its message. And the servicer
and the jobs agree on who waits for which of its requests (`Linked`).
-/

namespace EventSphere.Api

open Inventory (Settings Server ServerAction Rpc RpcRequest RpcReply RpcStatus Result
  InventoryError)

/-! ## What the handlers rely on -/

/-- The calls that the handlers make. -/
inductive OfApi : Inventory.Call → Prop
  | reserveSeats (e o : UUID) (q : ℤ) : OfApi (.reserveSeats e o q)
  | confirmReservation (r : UUID) : OfApi (.confirmReservation r)
  | releaseReservation (r : UUID) : OfApi (.releaseReservation r false)
  | sweepExpiredReservations : OfApi .sweepExpiredReservations

/-- The continuation reads nothing of a reservation but its id. -/
def ReadsId {α : Type} (k : Result → ApiProg α) : Prop :=
  ∀ r r' : Inventory.Reservation, r.id = r'.id → k (.reservation r) = k (.reservation r')

namespace ApiProg

/-- The program makes calls of the API, reads nothing of a reservation but its id, and has no insert
pending while it waits (`inserted`). -/
def Remote {α : Type} (inserted : Bool) : ApiProg α → Prop
  | ret _ | raise _ => True
  | getByIdempotencyKey _ _ k | getForUser _ _ k | getOrder _ k => ∀ o, (k o).Remote inserted
  | getEvent _ k => ∀ e, (k e).Remote inserted
  | uuid4 k => ∀ i, (k i).Remote inserted
  | charge _ _ k => ∀ paid ref, (k paid ref).Remote inserted
  | rpc c k => inserted = false ∧ OfApi c ∧ ReadsId k ∧ ∀ res, (k res).Remote false
  | addOrder _ k => k.Remote true
  | setStatus _ _ k | publish _ k => k.Remote inserted
  | commit k => k.Remote false

/-- The part of `book_tickets` after the lookup. -/
theorem bookNewOrder_remote (user eventId : UUID) (quantity : ℤ) (key : Option String) :
    (do return some (← bookNewOrder user eventId quantity key) : ApiProg (Option Order)).Remote
      false := by
  unfold bookNewOrder reserveSeats
  intro event
  cases event with
  | none => trivial
  | some event =>
    refine fun i => ⟨rfl, .reserveSeats _ _ _, fun r r' hid => ?_, fun res => ?_⟩
    · simp only [reservationOf, bind, hid]
    · cases res with
      | reservation r => trivial
      | inventory | reservations => trivial

/-- **Every handler does.** -/
theorem body_remote (call : ApiCall) : call.body.Remote false := by
  cases call with
  | bookTickets user eventId quantity key =>
    unfold ApiCall.body bookTickets
    cases key with
    | none => exact bookNewOrder_remote _ _ _ _
    | some k =>
      dsimp only
      split
      · exact bookNewOrder_remote _ _ _ _
      · intro o
        cases o with
        | none => exact bookNewOrder_remote _ _ _ _
        | some o => trivial
  | cancelOrder orderId user =>
    unfold ApiCall.body cancelOrder
    simp only [getForUser_bind, ret_bind]
    intro o
    cases o with
    | none => trivial
    | some o =>
      dsimp only
      split
      · trivial
      · split
        · trivial
        · exact ⟨rfl, .releaseReservation _, fun _ _ _ => rfl, fun _ => trivial⟩
  | orderStatusWorker m =>
    cases m with
    | paymentProcessed orderId success ref =>
      change Remote false (do handlePaymentProcessed orderId success; return none)
      unfold handlePaymentProcessed
      simp only [getOrder_bind, ret_bind]
      intro o
      cases o with
      | none => trivial
      | some o =>
        dsimp only
        split
        · trivial
        · split
          · exact ⟨rfl, .confirmReservation _, fun _ _ _ => rfl, fun _ => trivial⟩
          · exact ⟨rfl, .releaseReservation _, fun _ _ _ => rfl, fun _ => trivial⟩
    | reservationExpired i orderId e =>
      change Remote false (do handleReservationExpired orderId; return none)
      unfold handleReservationExpired
      simp only [getOrder_bind, ret_bind]
      intro o
      cases o with
      | none => trivial
      | some o =>
        dsimp only
        split <;> trivial
    | orderCreated | ticketIssued | orderCancelled => trivial
  | paymentWorker m =>
    cases m with
    | orderCreated => exact fun _ _ => trivial
    | paymentProcessed | ticketIssued | orderCancelled | reservationExpired => trivial
  | reservationReaper =>
    refine ⟨rfl, .sweepExpiredReservations, fun _ _ _ => rfl, fun res => ?_⟩
    cases res with
    | reservations rs =>
      change Remote false (do publishExpired rs; return none)
      induction rs with
      | nil => trivial
      | cons r rs ih => exact ih
    | inventory | reservation => trivial

end ApiProg

namespace System

/-- What every running request of `System` satisfies. -/
def remote (_ : ApiCall) (p : ApiProg (Option Order)) (σ : ApiSession) : Prop :=
  p.Remote σ.insert.isSome

theorem closed_remote : Closed remote where
  next {call p p' σ σ' orders inp} h hn := by
    cases p with
    | getByIdempotencyKey user key f =>
      simp only [ApiProg.next] at hn
      split at hn
      · cases hn
      · cases hn; exact h _
      · cases hn; exact h _
    | addOrder o f =>
      simp only [ApiProg.next] at hn
      split at hn
      · cases hn
      · cases hn; exact h
    | setStatus o st f => cases hn; exact h
    | getForUser i user f | getOrder i f | getEvent i f | uuid4 f => cases hn; exact h _
    | charge i amount f => cases hn; exact h _ _
    | ret | raise | rpc | commit | publish => cases hn
  commit h := h
  publish h := h
  answer h := by
    obtain ⟨hσ, -, -, hk⟩ := h
    unfold remote
    rw [hσ]
    exact hk _

/-- Runs without arrivals keep it. -/
theorem Leads.remote {settings : Settings} {s s' : System} (h : Leads settings s s')
    (hs : s.Everywhere remote) : s'.Everywhere System.remote := by
  obtain ⟨bs, hr, hbs⟩ := h
  refine run_inv_along (C := fun _ b => ∀ call, b ≠ .begin call) (fun hI hb hs => ?_)
    (along_of_forall_mem hbs) hr hs
  exact hI.step closed_remote hs fun call he => absurd he (hb call)

end System

/-! ## Answers -/

/-- The same outcome, up to what `System` does not have: the text of an error that no clause names,
and the refusal of the lock. -/
inductive Alike {α : Type} : Outcome ApiError α → Outcome ApiError α → Prop
  | same (o : Outcome ApiError α) : Alike o o
  | unnamed (msg msg' : String) :
      Alike (.raised (.domain (.other msg))) (.raised (.domain (.other msg')))
  | refused (resource : String) :
      Alike (.raised (.domain (.conflict
        ("Could not acquire lock for resource='" ++ resource ++ "'")))) .aborted

/-- What a client gets out of a reply is what `System` hands over: a reservation with the same id,
or an error like it. -/
inductive Tells (r : RpcReply) (o : Outcome InventoryError Result) : Prop
  | reservation {r₁ r₂ : Inventory.Reservation} (hid : r₁.id = r₂.id)
      (hr : received r = .ok (some (.reservation r₁))) (ho : o = .returned (.reservation r₂))
  | error {err err' : DomainError} (hr : received r = .error err) (ho : rpcResult o = .error err')
      (ha : @Alike (Option Order) (.raised (.domain err)) (.raised (.domain err')))

section
variable {cfg : DeploymentSettings} {c : Inventory.Call} {q : Rpc} {r : RpcReply}
  {o : Outcome InventoryError Result}

/-- An error that no clause names. -/
theorem tells_unnamed {st : RpcStatus} (hst : Unclassified st) {msg : String}
    (ho : rpcResult o = .error (.other msg)) : Tells (.status st) o := by
  obtain ⟨-, msg', hmsg⟩ := hst
  exact .error (congrArg Except.error hmsg) ho (.unnamed _ _)

/-- **The reply tells what has happened.** -/
theorem tells_of_reply (ha : OfApi c) (hc : overGrpc c = some q)
    (hret : ∀ res, o = .returned res → c.Returns res) (hraise : ∀ e, o = .raised e → c.Raises e)
    (hr : q.reply cfg.timestamp cfg.details o = some r) : Tells r o := by
  -- a response that fits
  have hres : ∀ {res}, (∃ r₂, res = .reservation r₂ ∧ Inventory.FitsInt32 r₂.quantity) →
      q.reply cfg.timestamp cfg.details (.returned res) = some r → Tells r (.returned res) := by
    rintro _ ⟨r₂, rfl, hfit⟩ hr
    simp only [Rpc.reply, Rpc.response, Inventory.reservationToProto, Inventory.int32Field,
      dif_pos hfit, Option.map_some, Option.getD_some, Option.some.injEq] at hr
    subst hr
    let seen : Inventory.Reservation :=
      ⟨r₂.id, ⟨0⟩, ⟨0⟩, 0, .pending, cfg.timestamp r₂.expiresAt * 1000000⟩
    refine @Tells.reservation _ _ seen r₂ rfl ?_ rfl
    simp only [received, ReservationResult.seen, Inventory.uuid_str, Option.map_some, seen]
  cases o with
  | aborted => cases hr
  | returned res =>
    cases ha with
    | reserveSeats | confirmReservation | releaseReservation => exact hres (hret res rfl) hr
    | sweepExpiredReservations => cases hc
  | failed e =>
    cases hr
    refine tells_unnamed ?_ rfl
    cases ha with
    | reserveSeats | confirmReservation | releaseReservation => cases hc; exact ⟨rfl, _, rfl⟩
    | sweepExpiredReservations => cases hc
  | raised e =>
    cases hr
    -- a confirmation or a release that raises
    have hraised : (∃ msg, e = .domain (.notFound msg)) ∨ (∃ f, e = .flush f) →
        q.clauses = [(.notFoundError, .notFound)] →
        Tells (.status (q.abort cfg.details (.inventory e))) (.raised e) := by
      rintro (⟨msg, rfl⟩ | ⟨f, rfl⟩) hq
      · have hreceived : received (.status (q.abort cfg.details
            (.inventory (.domain (.notFound msg))))) = .error (.notFound msg) := by
          simp only [received, Rpc.abort, hq]
          rfl
        exact .error hreceived rfl (.same _)
      · refine tells_unnamed ?_ rfl
        simp only [Rpc.abort, hq]
        exact ⟨rfl, _, rfl⟩
    cases ha with
    | reserveSeats e' o n =>
      cases hc
      rcases rpcError_of_abort cfg.details e' o n e with he | ⟨hun, msg, hmsg⟩
      · exact .error (congrArg Except.error he) rfl (.same _)
      · exact tells_unnamed hun (congrArg Except.error hmsg)
    | confirmReservation | releaseReservation => cases hc; exact hraised (hraise e rfl) rfl
    | sweepExpiredReservations => cases hc

end

/-! ## The servicer and its clients -/

/-- The database of the service: every reservation can be sent, and every call has ended as it can.
-/
abbrev Sendable (w : Inventory.InventoryWorld) : Prop :=
  w.Rows Inventory.CanSend Inventory.Call.Returns Inventory.Call.Raises

/-- A call that begins. -/
theorem sendable_begun {w : Inventory.InventoryWorld} (h : Sendable w) (settings : Settings)
    {c : Inventory.Call} (hc : c.Fits) : Sendable (w.begun (Inventory.Call.body settings) c) :=
  World.Rows.step (a := .begin c) h rfl fun call he => by
    cases he
    exact Inventory.Call.body_keeps settings hc

/-- What the servicer reads fits. -/
theorem fits_of_read {m : RpcRequest} {q : Rpc} (h : m.read = some q) : q.call.Fits := by
  cases m with
  | reserveSeats e o n =>
    simp only [RpcRequest.read, Option.bind_eq_bind, Option.bind_eq_some_iff] at h
    obtain ⟨e', -, o', -, h⟩ := h
    cases h
    exact n.property
  | initializeInventory | adjustCapacity | confirmReservation | releaseReservation =>
    simp only [RpcRequest.read, Option.bind_eq_bind, Option.bind_eq_some_iff] at h
    obtain ⟨_, -, h⟩ := h
    cases h
    trivial

/-- The invariant of the servicer and of the jobs behind its requests: a job whose call is handled
is the owner of that request, and a request that waits for the lock has its job. -/
structure Linked (s : Server) (owners : List ℕ) (jobs : List Job) : Prop where
  inv : s.Inv
  sendable : Sendable s.world
  length : owners.length = s.requests.length
  handled : ∀ {j h : ℕ} {x : Job}, jobs[j]? = some x → x.exchange = some (.handled h) →
    owners[h]? = some j
  locking : ∀ {h : ℕ} {q : Rpc} {client : ℕ}, s.requests[h]? = some (.locking q client) →
    q.call.Fits ∧
      ∃ j x, owners[h]? = some j ∧ jobs[j]? = some x ∧ x.exchange = some (.handled h)

theorem linked_init : Linked .init [] [] where
  inv := Server.inv_init
  sendable := World.rows_init
  length := rfl
  handled := nofun
  locking := nofun

section
variable {cfg : DeploymentSettings} {s s' : Server} {owners : List ℕ} {jobs : List Job} {j : ℕ}
  {x x' : Job}

/-- A job moves whose call does not wait for the lock, and which is handled no more. -/
theorem Linked.put (h : Linked s owners jobs) (hj : jobs[j]? = some x)
    (hx' : ∀ n, x'.exchange = some (.handled n) → x.exchange = some (.handled n))
    (hx : ∀ n q client, x.exchange = some (.handled n) →
      s.requests[n]? = some (.locking q client) → x'.exchange = some (.handled n)) :
    Linked s owners (jobs.set j x') where
  inv := h.inv
  sendable := h.sendable
  length := h.length
  handled {j' n y} hy hn := by
    rcases getElem?_set_inv hy with ⟨rfl, rfl⟩ | ⟨-, hy⟩
    · exact h.handled hj (hx' n hn)
    · exact h.handled hy hn
  locking {n q client} hn := by
    obtain ⟨hfit, j', y, ho, hy, he⟩ := h.locking hn
    refine ⟨hfit, j', if j' = j then x' else y, ho, ?_, ?_⟩
    · rw [getElem?_set_of_getElem? hj]
      split
      · rfl
      · exact hy
    · split
      · next heq =>
        subst heq
        cases hj.symm.trans hy
        exact hx n q client he hn
      · exact he

/-- A job arrives. -/
theorem Linked.arrive (h : Linked s owners jobs) (hx : x.exchange = none) :
    Linked s owners (jobs ++ [x]) where
  inv := h.inv
  sendable := h.sendable
  length := h.length
  handled {j' n y} hy hn := by
    rcases getElem?_append_singleton hy with hy | ⟨-, rfl⟩
    · exact h.handled hy hn
    · rw [hx] at hn; cases hn
  locking {n q client} hn := by
    obtain ⟨hfit, j', y, ho, hy, he⟩ := h.locking hn
    refine ⟨hfit, j', y, ho, ?_, he⟩
    rw [List.getElem?_append_left (List.getElem?_eq_some_iff.1 hy).1]
    exact hy

/-- The service begins a call without a request. -/
theorem Linked.begun (h : Linked s owners jobs) {c : Inventory.Call} (hc : c.Fits) :
    Linked { s with world := s.world.begun (Inventory.Call.body cfg.inventory) c } owners jobs where
  inv := by
    have hstep : s.step cfg.lock cfg.inventory (.inventory (.begin c)) =
        some { s with world := s.world.begun (Inventory.Call.body cfg.inventory) c } := rfl
    exact h.inv.step hstep
  sendable := sendable_begun h.sendable cfg.inventory hc
  length := h.length
  handled := h.handled
  locking := h.locking

/-- A message is received. -/
theorem Linked.receive (h : Linked s owners jobs) {q : Rpc} {token : UUID} (hq : q.call.Fits)
    (hj : jobs[j]? = some x) (hx : ∀ n, x.exchange ≠ some (.handled n))
    (hx' : x'.exchange = some (.handled s.requests.length))
    (hs : s.step cfg.lock cfg.inventory (.arrive q token) = some s') :
    Linked s' (owners ++ [j]) (jobs.set j x') := by
  have hinv := h.inv.step hs
  have hlen : ∀ (reqs : List Inventory.Handling) (y : Inventory.Handling),
      reqs = s.requests ++ [y] → (owners ++ [j]).length = reqs.length := fun reqs y he => by
    rw [he, List.length_append, List.length_append, h.length]
    rfl
  have hhandled : ∀ {j' n : ℕ} {y : Job}, (jobs.set j x')[j']? = some y →
      y.exchange = some (.handled n) → (owners ++ [j])[n]? = some j' := by
    intro j' n y hy hn
    rcases getElem?_set_inv hy with ⟨rfl, rfl⟩ | ⟨-, hy⟩
    · rw [hx'] at hn
      cases hn
      rw [← h.length]
      exact List.getElem?_concat_length
    · have := h.handled hy hn
      rw [List.getElem?_append_left (List.getElem?_eq_some_iff.1 this).1]
      exact this
  -- the requests that waited for the lock before
  have hold : ∀ {n : ℕ} {q : Rpc} {client : ℕ}, s.requests[n]? = some (.locking q client) →
      q.call.Fits ∧ ∃ j' y, (owners ++ [j])[n]? = some j' ∧ (jobs.set j x')[j']? = some y ∧
        y.exchange = some (.handled n) := by
    intro n q client hn
    obtain ⟨hfit, j', y, ho, hy, he⟩ := h.locking hn
    refine ⟨hfit, j', y, ?_, ?_, he⟩
    · rw [List.getElem?_append_left (List.getElem?_eq_some_iff.1 ho).1]
      exact ho
    · rw [getElem?_set_of_getElem? hj, if_neg]
      · exact hy
      · rintro rfl
        cases hj.symm.trans hy
        exact hx n he
  cases Server.step_kind hs with
  | queue =>
    refine ⟨hinv, h.sendable, hlen _ _ rfl, hhandled, fun {n q' client} hn => ?_⟩
    rcases getElem?_append_singleton hn with hn | ⟨rfl, he⟩
    · exact hold hn
    · cases he
      refine ⟨hq, j, x', ?_, ?_, hx'⟩
      · rw [← h.length]
        exact List.getElem?_concat_length
      · rw [List.getElem?_set_self (List.getElem?_eq_some_iff.1 hj).1]
  | serve =>
    refine ⟨hinv, sendable_begun h.sendable cfg.inventory hq, hlen _ _ rfl, hhandled,
      fun {n q' client} hn => ?_⟩
    rcases getElem?_append_singleton hn with hn | ⟨-, he⟩
    · exact hold hn
    · cases he

/-- Something happens at the service. -/
theorem Linked.server (h : Linked s owners jobs) {a : ServerAction} (ha : ofServer a = true)
    (hs : s.step cfg.lock cfg.inventory a = some s') : Linked s' owners jobs := by
  have hinv := h.inv.step hs
  -- a request that waited for the lock is refused it, or served
  have hset : ∀ {n n' : ℕ} {q : Rpc} {client : ℕ} {y : Inventory.Handling},
      (∀ q client, y ≠ .locking q client) →
      (s.requests.set n' y)[n]? = some (.locking q client) →
      s.requests[n]? = some (.locking q client) := by
    intro n n' q client y hy hn
    rcases getElem?_set_inv hn with ⟨-, rfl⟩ | ⟨-, hn⟩
    · exact absurd rfl (hy q client)
    · exact hn
  cases Server.step_kind hs with
  | queue | serve => cases ha
  | lock => exact ⟨hinv, h.sendable, h.length, h.handled, h.locking⟩
  | enter hj =>
    obtain ⟨hfit, -⟩ := h.locking hj
    exact ⟨hinv, sendable_begun h.sendable cfg.inventory hfit,
      h.length.trans (List.length_set ..).symm, h.handled,
      fun hn => h.locking (hset (fun _ _ he => by cases he) hn)⟩
  | refuse hj =>
    exact ⟨hinv, h.sendable, h.length.trans (List.length_set ..).symm, h.handled,
      fun hn => h.locking (hset (fun _ _ he => by cases he) hn)⟩
  | @inventory b world hw =>
    refine ⟨hinv, h.sendable.step hw fun call he => ?_, h.length, h.handled, h.locking⟩
    subst he
    have hfit : decide call.Fits = true := by
      simp only [ofServer, Bool.and_eq_true] at ha
      exact ha.2
    exact Inventory.Call.body_keeps cfg.inventory (of_decide_eq_true hfit)

end

end EventSphere.Api
