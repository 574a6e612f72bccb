import EventSphere.Api.Atomic

/-!
# One client, attempt by attempt

A client that repeats its request until it succeeds: its attempts run one after the other, operation
by operation, and each can fail before any operation, which rolls its session back
(`get_db`, `session.py:16`). Between any two operations others may change the orders and the
inventory. An attempt that is left alone is the atomic handler of `ApiProg.exec`
(`Client.run_exec`).
-/

namespace EventSphere.Api

open Inventory (Settings)

/-- What an operation of an attempt did: a call of the Inventory service that returned, a commit, a
message, or the end of the attempt. -/
inductive Effect (α : Type) where
  | called (c : Inventory.Call)
  | committed
  | published (m : Message)
  | ended (r : Except ApiError α)

/-- The state of the system as one client works on it, with the running attempt and the effects of
all attempts so far. -/
structure Client (α : Type) where
  shop : Shop
  running : Option (ApiProg α × ApiSession)
  log : List (Effect α)

/-- The client sends its request, the attempt runs its next operation or fails before it, or others
change something. -/
inductive Turn where
  | attempt
  | advance (env : Env)
  | fail
  | others (shop : Shop)

/-- Something that others do. -/
def Turn.byOthers : Turn → Bool
  | others _ => true
  | _ => false

namespace Client

variable {α : Type}

/-- A client before its first attempt. -/
def start (shop : Shop) : Client α := ⟨shop, none, []⟩

/-- The next operation of the running attempt. -/
def advance (settings : Settings) (env : Env) (c : Client α) (p : ApiProg α) (σ : ApiSession) :
    Client α :=
  match p.next c.shop.orders env.api σ with
  | .ret a => ⟨c.shop, none, c.log ++ [.ended (.ok a)]⟩
  | .raise e => ⟨c.shop, none, c.log ++ [.ended (.error e)]⟩
  | .continue p' σ' => ⟨c.shop, some (p', σ'), c.log⟩
  | .call call k =>
    let (outcome, db) := (call.body settings).atomically c.shop.inventory env.inventory
    match rpcResult outcome with
    | .ok res => ⟨{ c.shop with inventory := db }, some (k res, σ), c.log ++ [.called call]⟩
    | .error e => ⟨{ c.shop with inventory := db }, none, c.log ++ [.ended (.error (.domain e))]⟩
  | .commit p' orders => ⟨{ c.shop with orders }, some (p', .empty), c.log ++ [.committed]⟩
  | .publish m p' =>
    ⟨{ c.shop with published := c.shop.published ++ [m] }, some (p', σ), c.log ++ [.published m]⟩

/-- One turn. -/
def step (settings : Settings) (request : ApiProg α) (c : Client α) : Turn → Option (Client α)
  | .attempt =>
    match c.running with
    | none => some { c with running := some (request, .empty) }
    | some _ => none
  | .advance env => c.running.map fun x => c.advance settings env x.1 x.2
  | .fail => c.running.map fun _ => { c with running := none }
  | .others shop => some { c with shop }

/-- Left alone, the attempt ends as the atomic handler does. -/
def Ends (settings : Settings) (request : ApiProg α) (env : Env) (p : ApiProg α) (σ : ApiSession)
    (s : Shop) (log : List (Effect α)) : Prop :=
  ∃ n effects, run (step settings request) ⟨s, some (p, σ), log⟩
      (List.replicate n (.advance env)) =
    some ⟨(p.exec settings env σ s).2, none,
      log ++ effects ++ [.ended (p.exec settings env σ s).1]⟩

section
variable {settings : Settings} {request p p' : ApiProg α} {env : Env} {σ σ' : ApiSession}
  {s : Shop} {log : List (Effect α)}

/-- An operation that goes on. -/
theorem Ends.cons (s' : Shop) (eff : List (Effect α))
    (hadv : advance settings env ⟨s, none, log⟩ p σ = ⟨s', some (p', σ'), log ++ eff⟩)
    (hexec : p.exec settings env σ s = p'.exec settings env σ' s')
    (h : Ends settings request env p' σ' s' (log ++ eff)) :
    Ends settings request env p σ s log := by
  obtain ⟨n, effects, hrun⟩ := h
  refine ⟨n + 1, eff ++ effects, ?_⟩
  rw [hexec, ← List.append_assoc, List.replicate_succ]
  exact run_cons.2 ⟨_, congrArg some hadv, hrun⟩

/-- The last operation. -/
theorem Ends.last (s' : Shop) (r : Except ApiError α)
    (hadv : advance settings env ⟨s, none, log⟩ p σ = ⟨s', none, log ++ [.ended r]⟩)
    (hexec : p.exec settings env σ s = (r, s')) : Ends settings request env p σ s log := by
  refine ⟨1, [], ?_⟩
  rw [hexec, List.append_nil]
  exact run_cons.2 ⟨_, congrArg some hadv, rfl⟩

end

/-- **An attempt that is left alone is the atomic handler.** -/
theorem run_exec (settings : Settings) (request p : ApiProg α) (σ : ApiSession) (env : Env)
    (s : Shop) (log : List (Effect α)) : Ends settings request env p σ s log := by
  induction p generalizing σ s log with
  | ret a => exact .last s (.ok a) rfl rfl
  | raise e => exact .last s (.error e) rfl rfl
  | getByIdempotencyKey user key k ih =>
    cases hq : scalarOneOrNone (ordersWithKey (σ.view s.orders) env.api.scan user key) with
    | error e =>
      exact .last s (.error e) (by simp only [advance, ApiProg.next, hq])
        (by simp only [ApiProg.exec, hq])
    | ok found =>
      cases found with
      | none =>
        exact .cons s [] (by simp only [advance, ApiProg.next, hq, List.append_nil])
          (by simp only [ApiProg.exec, hq]) (ih none { σ with missed := some (user, key) } s _)
      | some o =>
        exact .cons s [] (by simp only [advance, ApiProg.next, hq, List.append_nil])
          (by simp only [ApiProg.exec, hq]) (ih (some o) σ s _)
  | getForUser orderId user k ih | getOrder orderId k ih | getEvent eventId k ih | uuid4 k ih =>
    exact .cons s [] (congrArg _ (List.append_nil log).symm) rfl (ih _ _ _ _)
  | charge orderId amount k ih =>
    exact .cons s [] (congrArg _ (List.append_nil log).symm) rfl (ih _ _ _ _ _)
  | setStatus o st k ih =>
    exact .cons s [] (congrArg _ (List.append_nil log).symm) rfl (ih _ _ _)
  | rpc call k ih =>
    set db := ((call.body settings).atomically s.inventory env.inventory).2 with hdb
    cases hr : rpcResult ((call.body settings).atomically s.inventory env.inventory).1 with
    | error e =>
      exact .last { s with inventory := db } (.error (.domain e))
        (by simp only [advance, ApiProg.next, hr, hdb]) (by simp only [ApiProg.exec, hr, hdb])
    | ok res =>
      exact .cons { s with inventory := db } [.called call]
        (by simp only [advance, ApiProg.next, hr, hdb]) (by simp only [ApiProg.exec, hr, hdb])
        (ih res σ _ _)
  | addOrder o k ih =>
    cases hi : insertError (σ.view s.orders) env.api.event o with
    | some e =>
      exact .last s (.error e) (by simp only [advance, ApiProg.next, hi])
        (by simp only [ApiProg.exec, hi])
    | none =>
      exact .cons s [] (by simp only [advance, ApiProg.next, hi, List.append_nil])
        (by simp only [ApiProg.exec, hi]) (ih { σ with insert := some o } s _)
  | commit k ih => exact .cons { s with orders := σ.view s.orders } [.committed] rfl rfl (ih _ _ _)
  | publish m k ih =>
    exact .cons { s with published := s.published ++ [m] } [.published m] rfl rfl (ih _ _ _)

end Client

end EventSphere.Api
