import EventSphere.Inventory.Changes
import EventSphere.Inventory.Locking
import EventSphere.UnitOfWork.History

/-!
# The gRPC servicer

The five write methods of `InventoryServicer`
(`services/inventory/app/grpc_handlers/inventory_servicer.py`): each calls one method of the service
and maps the exceptions its `except` clauses name to a status; what no clause names arrives at the
caller as `UNKNOWN`.

`Server` is the service with its requests in flight. A request of a method that takes the event lock
is first a client of the lock; inside its section, and for the other methods at once, it is a
transaction of the interleaved database. Every way in which it can fail is a `ServiceError`.
-/

namespace EventSphere.Inventory

/-! ## Requests and their failures -/

/-- The write methods, with the fields of their requests. -/
inductive Rpc where
  | initializeInventory (eventId : UUID) (totalCapacity : ℤ)
  | adjustCapacity (eventId : UUID) (newTotalCapacity : ℤ)
  | reserveSeats (eventId orderId : UUID) (quantity : ℤ)
  | confirmReservation (reservationId : UUID)
  | releaseReservation (reservationId : UUID)
  deriving DecidableEq, Repr

/-- The call of the service that a method makes. -/
def Rpc.call : Rpc → Call
  | initializeInventory e n => .initializeInventory e n
  | adjustCapacity e n => .adjustCapacity e n
  | reserveSeats e o q => .reserveSeats e o q
  | confirmReservation r => .confirmReservation r
  | releaseReservation r => .releaseReservation r false

/-- The resource that the call locks first. Reference: `adjust_capacity` and `reserve_seats`
(`inventory_service.py:44`, `inventory_service.py:58`). -/
def Rpc.resource : Rpc → Option String
  | adjustCapacity e _ | reserveSeats e _ _ => some s!"event:{e}"
  | _ => none

/-- The exceptions that reach the servicer. -/
inductive ServiceError where
  | lockAcquisition (msg : String)
  | inventory (e : InventoryError)
  deriving DecidableEq, Repr

/-- The status codes of the servicer's clauses (`inventory_servicer.py:66`), and the one gRPC gives
an exception that reaches it. -/
inductive StatusCode where
  | notFound
  | failedPrecondition
  | aborted
  | resourceExhausted
  | unknown
  deriving DecidableEq, Repr

/-- How a failed request arrives at its caller. -/
structure RpcStatus where
  code : StatusCode
  details : String
  deriving DecidableEq, Repr

/-- The exception classes that the servicer's clauses name. -/
inductive ExceptionClass where
  | notFoundError
  | capacityExceededError
  | conflictError
  | lockAcquisitionError
  deriving DecidableEq, Repr

/-- `str(exc)`, if the exception is of the class. -/
def ExceptionClass.catches : ExceptionClass → ServiceError → Option String
  | notFoundError, .inventory (.domain (.notFound msg)) => some msg
  | capacityExceededError, .inventory (.domain (.capacityExceeded msg)) => some msg
  | conflictError, .inventory (.domain (.conflict msg)) => some msg
  | lockAcquisitionError, .lockAcquisition msg => some msg
  | _, _ => none

/-- The `except` clauses of a method, in order. Reference: `InventoryServicer`
(`inventory_servicer.py:62`). -/
def Rpc.clauses : Rpc → List (ExceptionClass × StatusCode)
  | initializeInventory .. => []
  | adjustCapacity .. | confirmReservation _ | releaseReservation _ =>
    [(.notFoundError, .notFound)]
  | reserveSeats .. =>
    [(.notFoundError, .notFound), (.capacityExceededError, .failedPrecondition),
      (.conflictError, .aborted), (.lockAcquisitionError, .resourceExhausted)]

/-- The status of a failed request: of the first clause that catches the exception, or `UNKNOWN`
with the details that gRPC makes up. -/
def Rpc.abort (details : ServiceError → String) (q : Rpc) (err : ServiceError) : RpcStatus :=
  (q.clauses.findSome? fun (cls, code) => (cls.catches err).map (RpcStatus.mk code)).getD
    ⟨.unknown, details err⟩

/-- The failures of a request that are due to others: a lost version race (also one that used up the
retries), a row that somebody else has inserted meanwhile, or a wait for the event lock that was too
long. Event rows are the only rows that two calls can insert under one key; the key of a reservation
is drawn at random by the call that inserts it. -/
def ServiceError.Contention (q : Rpc) : ServiceError → Prop
  | .lockAcquisition _ => True
  | .inventory (.flush .staleData) => True
  | .inventory (.domain (.conflict _)) => True
  | .inventory (.flush .integrity) => ∃ e n, q = .initializeInventory e n
  | _ => False

/-! ## Requests in flight -/

/-- Where a request is: waiting as a client of the event lock, in its transaction (inside the
section of its lock client, if it has one), or refused by the lock. -/
inductive Handling where
  | locking (q : Rpc) (client : ℕ)
  | serving (q : Rpc) (client : Option ℕ) (t : ℕ)
  | refused (q : Rpc)
  deriving DecidableEq, Repr

/-- The request that is being handled. -/
def Handling.rpc : Handling → Rpc
  | locking q _ | serving q _ _ | refused q => q

/-- The lock, the database with its transactions, and every request so far. -/
structure Server where
  locks : LockState
  world : InventoryWorld
  requests : List Handling

/-- The steps of the server. The transactions of the other entry points (the consumer, the reaper)
begin with an `inventory` step of their own. -/
inductive ServerAction where
  /-- A request arrives; if it has to lock, it draws this token. -/
  | arrive (q : Rpc) (token : UUID)
  /-- A lock client moves, or time passes. -/
  | lock (a : LockAction)
  /-- A request that has taken the lock opens its session. -/
  | enter (j : ℕ)
  /-- A request that could not take the lock fails. -/
  | refuse (j : ℕ)
  /-- A transaction moves, or one begins. -/
  | inventory (a : Action Call UUID)

namespace Server

/-- Before the first request. -/
def init : Server := ⟨.init, .init, []⟩

/-- The transaction has ended. -/
def ended (s : Server) (t : ℕ) : Bool :=
  match s.world.txs[t]? with
  | some (.done _ _) => true
  | _ => false

/-- A lock client leaves its section only when the session scope inside it has been left. -/
def mayLeave (s : Server) (c : ℕ) : Bool :=
  s.requests.all fun
    | .locking _ c' => c' != c
    | .serving _ c' t => c' != some c || s.ended t
    | .refused _ => true

/-- The lock steps that the requests leave open: a client arrives with its request. -/
def mayLock (s : Server) : LockAction → Bool
  | .begin .. => false
  | .leave c => s.mayLeave c
  | _ => true

/-- One step. -/
def step (lock : LockSettings) (settings : Settings) (s : Server) : ServerAction → Option Server
  | .arrive q token =>
    match q.resource with
    | some resource => do
      let locks ← s.locks.step lock (.begin resource token)
      return { s with locks, requests := s.requests ++ [.locking q s.locks.clients.length] }
    | none => do
      let world ← Inventory.step settings s.world (.begin q.call)
      return { s with world, requests := s.requests ++ [.serving q none s.world.txs.length] }
  | .lock a =>
    if s.mayLock a then do return { s with locks := ← s.locks.step lock a } else none
  | .enter j =>
    match s.requests[j]? with
    | some (.locking q c) =>
      match s.locks.clients[c]?.map LockClient.phase with
      | some (.inside _) => do
        let world ← Inventory.step settings s.world (.begin q.call)
        return { s with world, requests :=
          s.requests.set j (.serving q (some c) s.world.txs.length) }
      | _ => none
    | _ => none
  | .refuse j =>
    match s.requests[j]? with
    | some (.locking q c) =>
      match s.locks.clients[c]?.map LockClient.phase with
      | some .refused => some { s with requests := s.requests.set j (.refused q) }
      | _ => none
    | _ => none
  | .inventory a => do return { s with world := ← Inventory.step settings s.world a }

/-- The exception with which a request has failed, if it has. Reference: `LockAcquisitionError`
(`locking.py:67`). -/
def failure (s : Server) (j : ℕ) : Option ServiceError :=
  match s.requests[j]? with
  | some (.refused q) =>
    some (.lockAcquisition ("Could not acquire lock for resource='" ++ q.resource.getD "" ++ "'"))
  | some (.serving _ _ t) =>
    match s.world.txs[t]? with
    | some (.done _ (.raised e)) => some (.inventory e)
    | some (.done _ (.failed e)) => some (.inventory (.flush e))
    | _ => none
  | _ => none

/-- The kinds of steps, with everything each of them does to the requests and the database. -/
inductive StepKind (settings : Settings) (s : Server) : ServerAction → Server → Prop
  | queue {q : Rpc} {token : UUID} {locks : LockState} (hq : q.resource ≠ none) :
      StepKind settings s (.arrive q token)
        ⟨locks, s.world, s.requests ++ [.locking q s.locks.clients.length]⟩
  | serve {q : Rpc} {token : UUID} (hq : q.resource = none) :
      StepKind settings s (.arrive q token) ⟨s.locks, s.world.begun (Call.body settings) q.call,
        s.requests ++ [.serving q none s.world.txs.length]⟩
  | lock {a : LockAction} {locks : LockState} : StepKind settings s (.lock a) { s with locks }
  | enter {j : ℕ} {q : Rpc} {c : ℕ} (hj : s.requests[j]? = some (.locking q c)) :
      StepKind settings s (.enter j) ⟨s.locks, s.world.begun (Call.body settings) q.call,
        s.requests.set j (.serving q (some c) s.world.txs.length)⟩
  | refuse {j : ℕ} {q : Rpc} {c : ℕ} (hj : s.requests[j]? = some (.locking q c)) :
      StepKind settings s (.refuse j) { s with requests := s.requests.set j (.refused q) }
  | inventory {a : Action Call UUID} {world : InventoryWorld}
      (hw : Inventory.step settings s.world a = some world) :
      StepKind settings s (.inventory a) { s with world }

/-- Every step is of one of the kinds. -/
theorem step_kind {lock : LockSettings} {settings : Settings} {s s' : Server} {a : ServerAction}
    (hs : s.step lock settings a = some s') : StepKind settings s a s' := by
  cases a with
  | arrive q token =>
    simp only [step] at hs
    split at hs
    · next resource hq =>
      simp only [Option.bind_eq_bind, Option.bind_eq_some_iff] at hs
      obtain ⟨locks, -, hs⟩ := hs
      cases hs
      exact .queue (by rw [hq]; exact Option.some_ne_none resource)
    · next hq => cases hs; exact .serve hq
  | lock a =>
    simp only [step] at hs
    split at hs
    · simp only [Option.bind_eq_bind, Option.bind_eq_some_iff] at hs
      obtain ⟨locks, -, hs⟩ := hs
      cases hs
      exact .lock
    · cases hs
  | enter j =>
    simp only [step] at hs
    split at hs
    · next hj =>
      split at hs
      · cases hs; exact .enter hj
      · cases hs
    · cases hs
  | refuse j =>
    simp only [step] at hs
    split at hs
    · next hj =>
      split at hs
      · cases hs; exact .refuse hj
      · cases hs
    · cases hs
  | inventory a =>
    simp only [step, Option.bind_eq_bind, Option.bind_eq_some_iff] at hs
    obtain ⟨world, hw, hs⟩ := hs
    cases hs
    exact .inventory hw

end Server

/-! ## The invariant -/

namespace Server

/-- Every transaction answers as its call is held to, and every request in a transaction is in one
of its own call. -/
structure Inv (s : Server) : Prop where
  world : s.world.Inv Call.answers
  answered : s.world.Answered Call.answers
  serving : ∀ {j : ℕ} {q : Rpc} {c : Option ℕ} {t : ℕ}, s.requests[j]? = some (.serving q c t) →
    ∃ x, s.world.txs[t]? = some x ∧ x.call = q.call

theorem inv_init : Inv .init where
  world := World.inv_init
  answered h := nomatch h
  serving h := nomatch h

section
variable {lock : LockSettings} {settings : Settings} {s s' : Server} {a : ServerAction}

/-- A step of the database keeps the invariant, also if a request enters with it. -/
theorem Inv.world_step (h : s.Inv) {a : Action Call UUID} {w : InventoryWorld} {locks : LockState}
    {requests : List Handling} (hs : Inventory.step settings s.world a = some w)
    (hreq : ∀ {j : ℕ} {q : Rpc} {c : Option ℕ} {t : ℕ}, requests[j]? = some (.serving q c t) →
      s.requests[j]? = some (.serving q c t) ∨
      a = .begin q.call ∧ t = s.world.txs.length) :
    Inv ⟨locks, w, requests⟩ where
  world := World.Inv.step (Call.body_answers settings) h.world hs
  answered := World.Answered.step h.answered h.world hs
  serving {j q c t} hj := by
    rcases hreq hj with hj | ⟨rfl, rfl⟩
    · obtain ⟨x, hx, hcall⟩ := h.serving hj
      obtain ⟨x', hx', hcall'⟩ := World.tx_step hs hx
      exact ⟨x', hx', hcall'.trans hcall⟩
    · cases hs
      exact ⟨.running q.call (q.call.body settings) .init, by simp, rfl⟩

/-- **Every step keeps the invariant.** -/
theorem Inv.step (h : s.Inv) (hs : s.step lock settings a = some s') : s'.Inv := by
  cases a with
  | arrive q token =>
    simp only [Server.step] at hs
    split at hs
    · simp only [Option.bind_eq_bind, Option.bind_eq_some_iff] at hs
      obtain ⟨locks, -, hs⟩ := hs
      cases hs
      refine ⟨h.world, h.answered, fun hj => ?_⟩
      rcases getElem?_append_singleton hj with hj | ⟨-, he⟩
      · exact h.serving hj
      · cases he
    · simp only [Option.bind_eq_bind, Option.bind_eq_some_iff] at hs
      obtain ⟨w, hw, hs⟩ := hs
      cases hs
      refine h.world_step hw fun hj => ?_
      rcases getElem?_append_singleton hj with hj | ⟨-, he⟩
      · exact .inl hj
      · cases he; exact .inr ⟨rfl, rfl⟩
  | lock a =>
    simp only [Server.step] at hs
    split at hs
    · simp only [Option.bind_eq_bind, Option.bind_eq_some_iff] at hs
      obtain ⟨locks, -, hs⟩ := hs
      cases hs
      exact ⟨h.world, h.answered, h.serving⟩
    · cases hs
  | enter j =>
    simp only [Server.step] at hs
    split at hs
    · next q c hj =>
      split at hs
      · simp only [Option.bind_eq_bind, Option.bind_eq_some_iff] at hs
        obtain ⟨w, hw, hs⟩ := hs
        cases hs
        refine h.world_step hw fun {j' _ _ _} hj' => ?_
        rcases getElem?_set_inv hj' with ⟨-, heq⟩ | ⟨-, hj'⟩
        · cases heq; exact .inr ⟨rfl, rfl⟩
        · exact .inl hj'
      · cases hs
    · cases hs
  | refuse j =>
    simp only [Server.step] at hs
    split at hs
    · next q c hj =>
      split at hs
      · cases hs
        refine ⟨h.world, h.answered, fun {j' _ _ _} hj' => ?_⟩
        rcases getElem?_set_inv hj' with ⟨-, heq⟩ | ⟨-, hj'⟩
        · cases heq
        · exact h.serving hj'
      · cases hs
    · cases hs
  | inventory a =>
    simp only [Server.step, Option.bind_eq_bind, Option.bind_eq_some_iff] at hs
    obtain ⟨w, hw, hs⟩ := hs
    cases hs
    exact h.world_step hw .inl

/-- **A reservation request reports every lost version race as a conflict.** -/
theorem Inv.reserve_failure (h : s.Inv) {j : ℕ} {e o : UUID} {n : ℤ}
    (hj : s.requests[j]?.map Handling.rpc = some (.reserveSeats e o n)) :
    s.failure j ≠ some (.inventory (.flush .staleData)) := by
  intro hf
  unfold failure at hf
  split at hf
  · cases hf
  · next q c t hreq =>
    rw [hreq] at hj
    cases hj
    obtain ⟨x, hx, hcall⟩ := h.serving hreq
    split at hf
    · next call err htx =>
      cases hf
      cases htx.symm.trans hx
      cases h.answered htx with
      | raised hraise =>
        change call = _ at hcall
        subst hcall
        exact hraise rfl
    · next call err htx => nomatch h.answered htx
    · cases hf
  · cases hf

end

end Server

end EventSphere.Inventory
