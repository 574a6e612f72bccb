import EventSphere.Api.InventoryClient
import EventSphere.Api.System
import EventSphere.Inventory.Messages

/-!
# The deployed system

`System` lets a handler begin the transaction of a call itself and read its result. Deployed, a call
is a message: the client builds and sends it, the servicer reads it some time later, takes the event
lock or is refused it, runs the transaction and answers with another message, which the client takes
apart (`services/api/app/grpc_client/inventory_client.py`). In between the caller may have given up:
its call goes on without it. Messages that get lost are never received. Only the reaper, which runs
beside the service, calls it without gRPC.

`Deployment.step` interleaves all of this.
-/

namespace EventSphere.Api

open Inventory (Settings Server ServerAction ServiceError LockSettings Rpc RpcRequest RpcReply
  Result uuid)

/-! ## The client -/

/-- Reference: `ReservationResult` (`inventory_client.py:13`). -/
structure ReservationResult where
  reservationId : String
  expiresAtUnix : ℤ
  deriving DecidableEq, Repr

/-- The reservation that a handler sees in the result: of a text that is a UUID, that UUID. The
columns that are not in the result are arbitrary. -/
def ReservationResult.seen (r : ReservationResult) : Option Inventory.Reservation :=
  (uuid r.reservationId).map fun id =>
    { id, eventId := ⟨0⟩, orderId := ⟨0⟩, quantity := 0, status := .pending,
      expiresAt := r.expiresAtUnix * 1000000 }

/-- What the client makes of a reply: a result, or the error that it raises. Reference: the methods
of `InventoryClient` (`inventory_client.py:55`). -/
def received : RpcReply → Except DomainError (Option Result)
  | .reservation m =>
    .ok ((ReservationResult.mk m.reservationId m.expiresAtUnix).seen.map .reservation)
  | .inventory m =>
    .ok (some (.inventory ⟨m.eventId, m.totalCapacity, m.reservedCount, m.confirmedCount,
      m.version.toNat⟩))
  | .status st => .error (raiseDomainError st)

/-- The calls that go through gRPC. -/
def overGrpc : Inventory.Call → Option Rpc
  | .initializeInventory e n => some (.initializeInventory e n)
  | .adjustCapacity e n => some (.adjustCapacity e n)
  | .reserveSeats e o q => some (.reserveSeats e o q)
  | .confirmReservation r => some (.confirmReservation r)
  | .releaseReservation r false => some (.releaseReservation r)
  | .releaseReservation _ true | .getAvailability _ | .sweepExpiredReservations => none

theorem call_of_overGrpc {c : Inventory.Call} {q : Rpc} (h : overGrpc c = some q) : q.call = c := by
  cases c with
  | releaseReservation r expired => cases expired <;> cases h; rfl
  | getAvailability | sweepExpiredReservations => cases h
  | initializeInventory | adjustCapacity | reserveSeats | confirmReservation => cases h; rfl

/-! ## The servicer -/

/-- The settings of the service and of its lock, `int(datetime.timestamp())`, and the text that gRPC
makes of an exception that reaches it. -/
structure DeploymentSettings where
  inventory : Settings
  lock : LockSettings
  timestamp : Instant → ℤ
  details : ServiceError → String

/-- The error of a request that could not take the lock. Reference: `RedisLock.acquire`
(`locking.py:67`). -/
def lockError (q : Rpc) : ServiceError :=
  .lockAcquisition ("Could not acquire lock for resource='" ++ q.resource.getD "" ++ "'")

/-- The lock of the request has been given back, if it has taken one. -/
def unlocked (s : Server) (client : Option ℕ) : Bool :=
  match client with
  | none => true
  | some c => s.locks.clients[c]?.map Inventory.LockClient.phase == some .finished

/-- The reply of the servicer to the request that it handles as number `h`, once it has one. -/
def servicerReply (cfg : DeploymentSettings) (s : Server) (h : ℕ) : Option RpcReply :=
  match s.requests[h]? with
  | some (.refused q) => some (.status (q.abort cfg.details (lockError q)))
  | some (.serving q client t) =>
    match s.world.txs[t]? with
    | some (.done _ o) => if unlocked s client then q.reply cfg.timestamp cfg.details o else none
    | _ => none
  | _ => none

/-! ## The system -/

/-- How far a call of the Inventory service has come. -/
inductive Exchange where
  /-- The message is on its way. -/
  | sent (m : RpcRequest)
  /-- The servicer handles it, as its request number `h`. -/
  | handled (h : ℕ)
  /-- The reply is on its way. -/
  | replied (r : RpcReply)
  /-- A call without gRPC, which has begun this transaction. -/
  | direct (t : ℕ)

/-- A request, a worker's message or a round of the reaper: running, waiting for a call, or ended,
perhaps with a call under way that it has given up waiting for. -/
inductive Job where
  | running (call : ApiCall) (prog : ApiProg (Option Order)) (session : ApiSession)
  | waiting (call : ApiCall) (c : Inventory.Call) (k : Result → ApiProg (Option Order))
      (session : ApiSession) (e : Exchange)
  | done (call : ApiCall) (outcome : Outcome ApiError (Option Order)) (e : Option Exchange)

/-- The call that is under way. -/
def Job.exchange : Job → Option Exchange
  | running .. => none
  | waiting _ _ _ _ e => some e
  | done _ _ e => e

/-- The job with its call gone on. -/
def Job.goOn (e : Exchange) : Job → Job
  | running call p σ => running call p σ
  | waiting call c k σ _ => waiting call c k σ e
  | done call o _ => done call o (some e)

/-- The order a job has inserted and not yet committed. -/
def Job.insert : Job → Option Order
  | running _ _ σ => σ.insert
  | waiting _ _ _ σ _ => σ.insert
  | done .. => none

/-- The committed orders, the Inventory service with its database and its lock, every job so far and
the messages. `owners` has the job behind each request that the servicer handles. -/
structure Deployment where
  orders : Table Order
  server : Server
  owners : List ℕ
  jobs : List Job
  published : List Message

/-- A job arrives, moves or fails (it crashes, or gives up waiting), the servicer receives its
message or answers it, or something happens at the Inventory service. -/
inductive DeploymentAction where
  | begin (call : ApiCall)
  | advance (j : ℕ) (inp : ApiInput)
  | fail (j : ℕ)
  /-- If the request has to take the lock, it draws this token. -/
  | receive (j : ℕ) (token : UUID)
  | reply (j : ℕ)
  | server (a : ServerAction)

/-- What happens at the Inventory service without a message of the API: the requests and
transactions there move, and calls from elsewhere begin, which are no confirmations and fit their
messages. -/
def ofServer : ServerAction → Bool
  | .arrive .. => false
  | .inventory (.begin c) => !confirming (.begin c) && decide c.Fits
  | .inventory (.advance ..) | .inventory (.abort _) | .lock _ | .enter _ | .refuse _ => true

namespace Deployment

/-- Before the first job. -/
def init : Deployment := ⟨.empty, .init, [], [], []⟩

/-- A worker is handed published messages only. -/
def HandsPublished (d : Deployment) : DeploymentAction → Prop
  | .begin (.orderStatusWorker m) | .begin (.paymentWorker m) => m ∈ d.published
  | _ => True

/-- Replace the state of job `j`. -/
def put (d : Deployment) (j : ℕ) (x : Job) : Deployment := { d with jobs := d.jobs.set j x }

/-- The insert waits for one of another job that clashes with it. -/
def Blocked (d : Deployment) (j : ℕ) : ApiProg (Option Order) → Prop
  | .addOrder o _ => ∃ j' < d.jobs.length, j' ≠ j ∧
    ∃ o' ∈ (d.jobs[j']?).bind Job.insert, o.Clashes o'
  | _ => False

instance (d : Deployment) (j : ℕ) : ∀ p, Decidable (d.Blocked j p)
  | .addOrder _ _ => inferInstanceAs (Decidable (∃ j' < _, _ ∧ ∃ o' ∈ _, _))
  | .ret _ | .raise _ | .getByIdempotencyKey .. | .getForUser .. | .getOrder .. | .getEvent ..
  | .uuid4 _ | .charge .. | .rpc .. | .setStatus .. | .commit _ | .publish .. =>
    inferInstanceAs (Decidable False)

/-- A call: its message is sent, or cannot be built, or there is none. -/
def ask (settings : Settings) (d : Deployment) (j : ℕ) (call : ApiCall) (c : Inventory.Call)
    (k : Result → ApiProg (Option Order)) (σ : ApiSession) : Deployment :=
  match overGrpc c with
  | some q =>
    match q.request with
    | some m => d.put j (.waiting call c k σ (.sent m))
    | none => d.put j (.done call .aborted none)
  | none =>
    { d.put j (.waiting call c k σ (.direct d.server.world.txs.length)) with
      server := { d.server with world := d.server.world.begun (Inventory.Call.body settings) c } }

/-- The next operation of job `j`. -/
def advance (settings : Settings) (d : Deployment) (j : ℕ) (inp : ApiInput) (call : ApiCall)
    (p : ApiProg (Option Order)) (σ : ApiSession) : Deployment :=
  match p.next d.orders inp σ with
  | .ret a => d.put j (.done call (.returned a) none)
  | .raise e => d.put j (.done call (.raised e) none)
  | .continue p' σ' => d.put j (.running call p' σ')
  | .call c k => d.ask settings j call c k σ
  | .commit p' orders => { d.put j (.running call p' .empty) with orders }
  | .publish m p' => { d.put j (.running call p' σ) with published := d.published ++ [m] }

/-- What job `j` waits for arrives, if it is there. -/
def answer (d : Deployment) (j : ℕ) (call : ApiCall) (k : Result → ApiProg (Option Order))
    (σ : ApiSession) : Exchange → Option Deployment
  | .replied r =>
    match received r with
    | .ok (some res) => some (d.put j (.running call (k res) σ))
    | .ok none => some (d.put j (.done call .aborted none))
    | .error err => some (d.put j (.done call (.raised (.domain err)) none))
  | .direct t =>
    match d.server.world.txs[t]? with
    | some (.done _ o) =>
      match rpcResult o with
      | .ok res => some (d.put j (.running call (k res) σ))
      | .error err => some (d.put j (.done call (.raised (.domain err)) none))
    | _ => none
  | .sent _ | .handled _ => none

/-- One step of the deployed system. -/
def step (cfg : DeploymentSettings) (d : Deployment) : DeploymentAction → Option Deployment
  | .begin call => some { d with jobs := d.jobs ++ [.running call call.body .empty] }
  | .advance j inp =>
    match d.jobs[j]? with
    | some (.running call p σ) =>
      if d.Blocked j p then none else some (d.advance cfg.inventory j inp call p σ)
    | some (.waiting call _ k σ e) => d.answer j call k σ e
    | _ => none
  | .fail j =>
    match d.jobs[j]? with
    | some (.running call _ _) => some (d.put j (.done call .aborted none))
    | some (.waiting call _ _ _ e) => some (d.put j (.done call .aborted (some e)))
    | _ => none
  | .receive j token =>
    match d.jobs[j]? with
    | some x =>
      match x.exchange with
      | some (.sent m) =>
        match m.read with
        | some q => (d.server.step cfg.lock cfg.inventory (.arrive q token)).map fun server =>
          { d.put j (x.goOn (.handled d.server.requests.length)) with
            server, owners := d.owners ++ [j] }
        | none => some (d.put j (x.goOn (.replied (.status
          ⟨.unknown, cfg.details
            (.inventory (.valueError "badly formed hexadecimal UUID string"))⟩))))
      | _ => none
    | none => none
  | .reply j =>
    match d.jobs[j]? with
    | some x =>
      match x.exchange with
      | some (.handled h) =>
        (servicerReply cfg d.server h).map fun r => d.put j (x.goOn (.replied r))
      | _ => none
    | none => none
  | .server a =>
    if ofServer a then
      (d.server.step cfg.lock cfg.inventory a).map fun server => { d with server }
    else none

/-! ## What a step can do -/

/-- The kinds of steps, with everything each of them does to the system. -/
inductive StepKind (cfg : DeploymentSettings) (d : Deployment) :
    DeploymentAction → Deployment → Prop
  | begin (call : ApiCall) : StepKind cfg d (.begin call)
      { d with jobs := d.jobs ++ [.running call call.body .empty] }
  | ret {j : ℕ} {inp : ApiInput} {call : ApiCall} {p : ApiProg (Option Order)} {σ : ApiSession}
      {a : Option Order} (hj : d.jobs[j]? = some (.running call p σ)) (hb : ¬ d.Blocked j p)
      (hn : p.next d.orders inp σ = .ret a) :
      StepKind cfg d (.advance j inp)
        (d.put j (.done call (.returned a) none))
  | raise {j : ℕ} {inp : ApiInput} {call : ApiCall} {p : ApiProg (Option Order)} {σ : ApiSession}
      {e : ApiError} (hj : d.jobs[j]? = some (.running call p σ)) (hb : ¬ d.Blocked j p)
      (hn : p.next d.orders inp σ = .raise e) :
      StepKind cfg d (.advance j inp)
        (d.put j (.done call (.raised e) none))
  | continue {j : ℕ} {inp : ApiInput} {call : ApiCall} {p p' : ApiProg (Option Order)}
      {σ σ' : ApiSession} (hj : d.jobs[j]? = some (.running call p σ)) (hb : ¬ d.Blocked j p)
      (hn : p.next d.orders inp σ = .continue p' σ') :
      StepKind cfg d (.advance j inp) (d.put j (.running call p' σ'))
  | commit {j : ℕ} {inp : ApiInput} {call : ApiCall} {p : ApiProg (Option Order)} {σ : ApiSession}
      (hj : d.jobs[j]? = some (.running call (.commit p) σ)) :
      StepKind cfg d (.advance j inp)
        { d.put j (.running call p .empty) with orders := σ.view d.orders }
  | publish {j : ℕ} {inp : ApiInput} {call : ApiCall} {m : Message} {p : ApiProg (Option Order)}
      {σ : ApiSession} (hj : d.jobs[j]? = some (.running call (.publish m p) σ)) :
      StepKind cfg d (.advance j inp)
        { d.put j (.running call p σ) with published := d.published ++ [m] }
  | send {j : ℕ} {inp : ApiInput} {call : ApiCall} {c : Inventory.Call}
      {k : Result → ApiProg (Option Order)} {σ : ApiSession} {q : Rpc} {m : RpcRequest}
      (hj : d.jobs[j]? = some (.running call (.rpc c k) σ)) (hc : overGrpc c = some q)
      (hm : q.request = some m) :
      StepKind cfg d (.advance j inp)
        (d.put j (.waiting call c k σ (.sent m)))
  | unsent {j : ℕ} {inp : ApiInput} {call : ApiCall} {c : Inventory.Call}
      {k : Result → ApiProg (Option Order)} {σ : ApiSession}
      (hj : d.jobs[j]? = some (.running call (.rpc c k) σ)) :
      StepKind cfg d (.advance j inp) (d.put j (.done call .aborted none))
  | ask {j : ℕ} {inp : ApiInput} {call : ApiCall} {c : Inventory.Call}
      {k : Result → ApiProg (Option Order)} {σ : ApiSession}
      (hj : d.jobs[j]? = some (.running call (.rpc c k) σ)) (hc : overGrpc c = none) :
      StepKind cfg d (.advance j inp)
        { d.put j (.waiting call c k σ (.direct d.server.world.txs.length)) with
          server := { d.server with
            world := d.server.world.begun (Inventory.Call.body cfg.inventory) c } }
  | answered {j : ℕ} {inp : ApiInput} {call : ApiCall} {c : Inventory.Call}
      {k : Result → ApiProg (Option Order)} {σ : ApiSession} {r : RpcReply} {res : Result}
      (hj : d.jobs[j]? = some (.waiting call c k σ (.replied r)))
      (hr : received r = .ok (some res)) :
      StepKind cfg d (.advance j inp) (d.put j (.running call (k res) σ))
  | unreadable {j : ℕ} {inp : ApiInput} {call : ApiCall} {c : Inventory.Call}
      {k : Result → ApiProg (Option Order)} {σ : ApiSession} {r : RpcReply}
      (hj : d.jobs[j]? = some (.waiting call c k σ (.replied r))) (hr : received r = .ok none) :
      StepKind cfg d (.advance j inp) (d.put j (.done call .aborted none))
  | refused {j : ℕ} {inp : ApiInput} {call : ApiCall} {c : Inventory.Call}
      {k : Result → ApiProg (Option Order)} {σ : ApiSession} {r : RpcReply} {err : DomainError}
      (hj : d.jobs[j]? = some (.waiting call c k σ (.replied r))) (hr : received r = .error err) :
      StepKind cfg d (.advance j inp)
        (d.put j (.done call (.raised (.domain err)) none))
  | returned {j : ℕ} {inp : ApiInput} {call : ApiCall} {c c' : Inventory.Call}
      {k : Result → ApiProg (Option Order)} {σ : ApiSession} {t : ℕ} {res : Result}
      (hj : d.jobs[j]? = some (.waiting call c k σ (.direct t)))
      (ht : d.server.world.txs[t]? = some (.done c' (.returned res))) :
      StepKind cfg d (.advance j inp) (d.put j (.running call (k res) σ))
  | raised {j : ℕ} {inp : ApiInput} {call : ApiCall} {c c' : Inventory.Call}
      {k : Result → ApiProg (Option Order)} {σ : ApiSession} {t : ℕ}
      {o : Outcome Inventory.InventoryError Result} {err : DomainError}
      (hj : d.jobs[j]? = some (.waiting call c k σ (.direct t)))
      (ht : d.server.world.txs[t]? = some (.done c' o)) (ho : rpcResult o = .error err) :
      StepKind cfg d (.advance j inp)
        (d.put j (.done call (.raised (.domain err)) none))
  | crash {j : ℕ} {call : ApiCall} {p : ApiProg (Option Order)} {σ : ApiSession}
      (hj : d.jobs[j]? = some (.running call p σ)) :
      StepKind cfg d (.fail j) (d.put j (.done call .aborted none))
  | giveUp {j : ℕ} {call : ApiCall} {c : Inventory.Call} {k : Result → ApiProg (Option Order)}
      {σ : ApiSession} {e : Exchange} (hj : d.jobs[j]? = some (.waiting call c k σ e)) :
      StepKind cfg d (.fail j) (d.put j (.done call .aborted (some e)))
  | receive {j : ℕ} {token : UUID} {x : Job} {m : RpcRequest} {q : Rpc} {server : Server}
      (hj : d.jobs[j]? = some x) (hx : x.exchange = some (.sent m)) (hm : m.read = some q)
      (hs : d.server.step cfg.lock cfg.inventory (.arrive q token) = some server) :
      StepKind cfg d (.receive j token)
        { d.put j (x.goOn (.handled d.server.requests.length)) with
          server, owners := d.owners ++ [j] }
  | misread {j : ℕ} {token : UUID} {x : Job} {m : RpcRequest} {r : RpcReply}
      (hj : d.jobs[j]? = some x) (hx : x.exchange = some (.sent m)) (hm : m.read = none) :
      StepKind cfg d (.receive j token) (d.put j (x.goOn (.replied r)))
  | reply {j : ℕ} {x : Job} {h : ℕ} {r : RpcReply} (hj : d.jobs[j]? = some x)
      (hx : x.exchange = some (.handled h))
      (hr : servicerReply cfg d.server h = some r) :
      StepKind cfg d (.reply j) (d.put j (x.goOn (.replied r)))
  | server {a : ServerAction} {server : Server} (ha : ofServer a = true)
      (hs : d.server.step cfg.lock cfg.inventory a = some server) :
      StepKind cfg d (.server a) { d with server }

/-- Every step is of one of the kinds. -/
theorem step_kind {cfg : DeploymentSettings} {d d' : Deployment} {a : DeploymentAction}
    (h : d.step cfg a = some d') : StepKind cfg d a d' := by
  cases a with
  | begin call => cases h; exact .begin call
  | advance j inp =>
    simp only [step] at h
    split at h
    · next call p σ hj =>
      split at h
      · cases h
      · next hb =>
        cases h
        unfold advance
        split
        · next hn => exact .ret hj hb hn
        · next hn => exact .raise hj hb hn
        · next hn => exact .continue hj hb hn
        · next c k hn =>
          obtain rfl := ApiProg.next_outside.1 c k hn
          unfold Deployment.ask
          split
          · next q hc =>
            split
            · next m hm => exact .send hj hc hm
            · exact .unsent hj
          · next hc => exact .ask hj hc
        · next p' orders hn =>
          obtain ⟨rfl, rfl⟩ := ApiProg.next_outside.2.1 p' orders hn
          exact .commit hj
        · next m p' hn =>
          obtain rfl := ApiProg.next_outside.2.2 m p' hn
          exact .publish hj
    · next call c k σ e hj =>
      cases e with
      | sent | handled => cases h
      | replied r =>
        simp only [answer] at h
        split at h
        · next hr => cases h; exact .answered hj hr
        · next hr => cases h; exact .unreadable hj hr
        · next hr => cases h; exact .refused hj hr
      | direct t =>
        simp only [answer] at h
        split at h
        · next c' o ht =>
          split at h
          · next res hres =>
            cases h
            cases o with
            | returned a => cases hres; exact .returned hj ht
            | raised | failed | aborted => cases hres
          · next ho => cases h; exact .raised hj ht ho
        · cases h
    · cases h
  | fail j =>
    simp only [step] at h
    split at h
    · next hj => cases h; exact .crash hj
    · next hj => cases h; exact .giveUp hj
    · cases h
  | receive j token =>
    simp only [step] at h
    split at h
    · next x hj =>
      split at h
      · next m hx =>
        split at h
        · next q hm =>
          obtain ⟨server, hs, rfl⟩ := Option.map_eq_some_iff.1 h
          exact .receive hj hx hm hs
        · next hm => cases h; exact .misread hj hx hm
      · cases h
    · cases h
  | reply j =>
    simp only [step] at h
    split at h
    · next x hj =>
      split at h
      · next n hx =>
        obtain ⟨r, hr, rfl⟩ := Option.map_eq_some_iff.1 h
        exact .reply hj hx hr
      · cases h
    · cases h
  | server a =>
    simp only [step] at h
    split at h
    · next ha =>
      obtain ⟨server, hs, rfl⟩ := Option.map_eq_some_iff.1 h
      exact .server ha hs
    · cases h

end Deployment

end EventSphere.Api
