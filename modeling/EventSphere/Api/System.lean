import EventSphere.Api.Session
import EventSphere.Inventory.Reservations

/-!
# The booking system, interleaved

Any number of requests, workers and rounds of the reaper (all called requests here), interleaved
operation by operation with each other and with the transactions of the Inventory service
(`System.step`). A call of the inventory begins a transaction there; its answer is picked up when
the transaction has ended. A request can fail at every step: it crashes, its response or its message
is lost, or a call times out while the transaction behind it goes on. Messages may be delivered in
any order and any number of times, so a worker may be handed any message at any time.
-/

namespace EventSphere.Api

open Inventory (Settings InventoryWorld)

/-- A request: running, perhaps waiting for the inventory transaction with a number, or ended. -/
inductive Request where
  | running (call : ApiCall) (prog : ApiProg (Option Order)) (session : ApiSession)
      (waiting : Option ℕ)
  | done (call : ApiCall) (outcome : Outcome ApiError (Option Order))

/-- What a request was asked for. -/
def Request.call : Request → ApiCall
  | running call _ _ _ => call
  | done call _ => call

/-- The request has ended. -/
def Request.ended : Request → Bool
  | running .. => false
  | done .. => true

/-- The order a request has inserted and not yet committed. -/
def Request.insert : Request → Option Order
  | running _ _ σ _ => σ.insert
  | done _ _ => none

/-- The key a request has looked up in vain and not yet committed an order for. -/
def Request.missed : Request → Option (UUID × String)
  | running _ _ σ _ => σ.missed
  | done _ _ => none

/-- The committed orders, the inventory, every request begun so far and the messages. `rpcs` records
which request began which inventory transaction. -/
structure System where
  orders : Table Order
  inventory : InventoryWorld
  requests : List Request
  rpcs : List (ℕ × ℕ)
  published : List Message

/-- A request arrives, runs its next operation or fails, or something happens in the inventory: a
transaction moves, or a call arrives from elsewhere. -/
inductive SystemAction where
  | begin (call : ApiCall)
  | advance (j : ℕ) (inp : ApiInput)
  | fail (j : ℕ)
  | inventory (a : Action Inventory.Call UUID)

/-- The action asks for the confirmation of a reservation. -/
def confirming : Action Inventory.Call UUID → Bool
  | .begin (.confirmReservation _) => true
  | _ => false

namespace System

/-- The system before the first request. -/
def init : System := ⟨.empty, .init, [], [], []⟩

/-- A worker is handed published messages only. -/
def HandsPublished (s : System) : SystemAction → Prop
  | .begin (.orderStatusWorker m) | .begin (.paymentWorker m) => m ∈ s.published
  | _ => True

instance (s : System) : ∀ a, Decidable (s.HandsPublished a)
  | .begin (.orderStatusWorker _) | .begin (.paymentWorker _) => inferInstanceAs (Decidable (_ ∈ _))
  | .begin (.bookTickets ..) | .begin (.cancelOrder ..) | .begin .reservationReaper
  | .advance .. | .fail _ | .inventory _ => inferInstanceAs (Decidable True)

/-- Replace the state of request `j`. -/
def put (s : System) (j : ℕ) (x : Request) : System := { s with requests := s.requests.set j x }

/-- The operation waits for another request: it inserts an order, and an order that clashes with it
has been inserted and not yet committed. -/
def Blocked (s : System) (j : ℕ) : ApiProg (Option Order) → Prop
  | .addOrder o _ => ∃ j' < s.requests.length, j' ≠ j ∧
    ∃ o' ∈ (s.requests[j']?).bind Request.insert, o.Clashes o'
  | _ => False

instance (s : System) (j : ℕ) : ∀ p, Decidable (s.Blocked j p)
  | .addOrder _ _ => inferInstanceAs (Decidable (∃ j' < _, _ ∧ ∃ o' ∈ _, _))
  | .ret _ | .raise _ | .getByIdempotencyKey .. | .getForUser .. | .getOrder .. | .getEvent ..
  | .uuid4 _ | .charge .. | .rpc .. | .setStatus .. | .commit _ | .publish .. =>
    inferInstanceAs (Decidable False)

/-- The next operation of request `j`. -/
def advance (settings : Settings) (s : System) (j : ℕ) (inp : ApiInput) (call : ApiCall)
    (p : ApiProg (Option Order)) (σ : ApiSession) : System :=
  match p.next s.orders inp σ with
  | .ret a => s.put j (.done call (.returned a))
  | .raise e => s.put j (.done call (.raised e))
  | .continue p' σ' => s.put j (.running call p' σ' none)
  | .call c _ =>
    { s.put j (.running call p σ (some s.inventory.txs.length)) with
      inventory := s.inventory.begun (Inventory.Call.body settings) c
      rpcs := s.rpcs ++ [(j, s.inventory.txs.length)] }
  | .commit p' orders => { s.put j (.running call p' .empty none) with orders }
  | .publish m p' =>
    { s.put j (.running call p' σ none) with published := s.published ++ [m] }

/-- The answer of an inventory transaction arrives at request `j`. -/
def answer (s : System) (j : ℕ) (call : ApiCall) (k : Inventory.Result → ApiProg (Option Order))
    (σ : ApiSession) (o : Outcome Inventory.InventoryError Inventory.Result) : System :=
  match rpcResult o with
  | .ok res => s.put j (.running call (k res) σ none)
  | .error e => s.put j (.done call (.raised (.domain e)))

/-- One step of the interleaved system. Only the API and its workers ask for confirmations. -/
def step (settings : Settings) (s : System) : SystemAction → Option System
  | .begin call => some { s with requests := s.requests ++ [.running call call.body .empty none] }
  | .advance j inp =>
    match s.requests[j]? with
    | some (.running call p σ none) =>
      if s.Blocked j p then none else some (s.advance settings j inp call p σ)
    | some (.running call (.rpc _ k) σ (some t)) =>
      match s.inventory.txs[t]? with
      | some (.done _ o) => some (s.answer j call k σ o)
      | _ => none
    | _ => none
  | .fail j =>
    match s.requests[j]? with
    | some (.running call _ _ _) => some (s.put j (.done call .aborted))
    | _ => none
  | .inventory a =>
    if confirming a then none
    else (Inventory.step settings s.inventory a).map fun w => { s with inventory := w }

/-! ## What a step can do -/

/-- The kinds of steps, with everything each of them does to the system. -/
inductive StepKind (settings : Settings) (s : System) : SystemAction → System → Prop
  | begin (call : ApiCall) :
      StepKind settings s (.begin call)
        { s with requests := s.requests ++ [.running call call.body .empty none] }
  | ret {j : ℕ} {inp : ApiInput} {call : ApiCall} {p : ApiProg (Option Order)} {σ : ApiSession}
      {a : Option Order} (hj : s.requests[j]? = some (.running call p σ none))
      (hn : p.next s.orders inp σ = .ret a) :
      StepKind settings s (.advance j inp) (s.put j (.done call (.returned a)))
  | raise {j : ℕ} {inp : ApiInput} {call : ApiCall} {p : ApiProg (Option Order)} {σ : ApiSession}
      {e : ApiError} (hj : s.requests[j]? = some (.running call p σ none))
      (hn : p.next s.orders inp σ = .raise e) :
      StepKind settings s (.advance j inp) (s.put j (.done call (.raised e)))
  | continue {j : ℕ} {inp : ApiInput} {call : ApiCall} {p p' : ApiProg (Option Order)}
      {σ σ' : ApiSession} (hj : s.requests[j]? = some (.running call p σ none))
      (hb : ¬ s.Blocked j p) (hn : p.next s.orders inp σ = .continue p' σ') :
      StepKind settings s (.advance j inp) (s.put j (.running call p' σ' none))
  | call {j : ℕ} {inp : ApiInput} {call : ApiCall} {c : Inventory.Call}
      {k : Inventory.Result → ApiProg (Option Order)} {σ : ApiSession}
      (hj : s.requests[j]? = some (.running call (.rpc c k) σ none)) :
      StepKind settings s (.advance j inp)
        { s.put j (.running call (.rpc c k) σ (some s.inventory.txs.length)) with
          inventory := s.inventory.begun (Inventory.Call.body settings) c
          rpcs := s.rpcs ++ [(j, s.inventory.txs.length)] }
  | commit {j : ℕ} {inp : ApiInput} {call : ApiCall} {p : ApiProg (Option Order)} {σ : ApiSession}
      (hj : s.requests[j]? = some (.running call (.commit p) σ none)) :
      StepKind settings s (.advance j inp)
        { s.put j (.running call p .empty none) with orders := σ.view s.orders }
  | publish {j : ℕ} {inp : ApiInput} {call : ApiCall} {m : Message} {p : ApiProg (Option Order)}
      {σ : ApiSession} (hj : s.requests[j]? = some (.running call (.publish m p) σ none)) :
      StepKind settings s (.advance j inp)
        { s.put j (.running call p σ none) with published := s.published ++ [m] }
  | answered {j : ℕ} {inp : ApiInput} {call : ApiCall} {c c' : Inventory.Call}
      {k : Inventory.Result → ApiProg (Option Order)} {σ : ApiSession} {t : ℕ}
      {res : Inventory.Result} (hj : s.requests[j]? = some (.running call (.rpc c k) σ (some t)))
      (ht : s.inventory.txs[t]? = some (.done c' (.returned res))) :
      StepKind settings s (.advance j inp) (s.put j (.running call (k res) σ none))
  | refused {j : ℕ} {inp : ApiInput} {call : ApiCall} {c c' : Inventory.Call}
      {k : Inventory.Result → ApiProg (Option Order)} {σ : ApiSession} {t : ℕ}
      {o : Outcome Inventory.InventoryError Inventory.Result} {e : DomainError}
      (hj : s.requests[j]? = some (.running call (.rpc c k) σ (some t)))
      (ht : s.inventory.txs[t]? = some (.done c' o)) (ho : rpcResult o = .error e) :
      StepKind settings s (.advance j inp) (s.put j (.done call (.raised (.domain e))))
  | fail {j : ℕ} {call : ApiCall} {p : ApiProg (Option Order)} {σ : ApiSession} {t : Option ℕ}
      (hj : s.requests[j]? = some (.running call p σ t)) :
      StepKind settings s (.fail j) (s.put j (.done call .aborted))
  | inventory {a : Action Inventory.Call UUID} {w : InventoryWorld} (ha : confirming a = false)
      (hw : Inventory.step settings s.inventory a = some w) :
      StepKind settings s (.inventory a) { s with inventory := w }

/-- Every step is of one of the kinds. -/
theorem step_kind {settings : Settings} {s s' : System} {a : SystemAction}
    (h : s.step settings a = some s') : StepKind settings s a s' := by
  cases a with
  | begin call => cases h; exact .begin call
  | advance j inp =>
    simp only [step] at h
    split at h
    · next call p σ hj =>
      split at h
      · cases h
      · next hb =>
        cases h
        unfold advance
        split
        · next hn => exact .ret hj hn
        · next hn => exact .raise hj hn
        · next hn => exact .continue hj hb hn
        · next c k hn =>
          obtain rfl := ApiProg.next_outside.1 c k hn
          exact .call hj
        · next p' orders hn =>
          obtain ⟨rfl, rfl⟩ := ApiProg.next_outside.2.1 p' orders hn
          exact .commit hj
        · next m p' hn =>
          obtain rfl := ApiProg.next_outside.2.2 m p' hn
          exact .publish hj
    · next call c k σ t hj =>
      split at h
      · next c' o ht =>
        cases h
        unfold answer
        split
        · next res hres =>
          cases o with
          | returned a => cases hres; exact .answered hj ht
          | raised | failed | aborted => cases hres
        · next e he => exact .refused hj ht he
      · cases h
    · cases h
  | fail j =>
    simp only [step] at h
    split at h
    · next hj => cases h; exact .fail hj
    · cases h
  | inventory a =>
    simp only [step] at h
    split at h
    · cases h
    · next ha =>
      obtain ⟨w, hw, rfl⟩ := Option.map_eq_some_iff.1 h
      exact .inventory (Bool.eq_false_iff.2 ha) hw

/-- What a step does to the requests. -/
inductive RequestsKind (s : System) : SystemAction → List Request → Prop
  | arrives (call : ApiCall) :
      RequestsKind s (.begin call) (s.requests ++ [.running call call.body .empty none])
  | moves {a : SystemAction} {j : ℕ} {r r' : Request} (hj : s.requests[j]? = some r)
      (hr : r.ended = false) (hc : r'.call = r.call) : RequestsKind s a (s.requests.set j r')
  | stays {a : SystemAction} : RequestsKind s a s.requests

/-- Requests arrive and move one at a time; those that have ended stay as they are. -/
theorem requests_kind {settings : Settings} {s s' : System} {a : SystemAction}
    (h : s.step settings a = some s') : RequestsKind s a s'.requests := by
  cases step_kind h with
  | begin call => exact .arrives call
  | ret hj | raise hj | «continue» hj | call hj | commit hj | publish hj | answered hj | refused hj
  | fail hj => exact .moves hj rfl rfl
  | inventory => exact .stays

/-- Requests stay in their place. -/
theorem length_requests_le {settings : Settings} {s s' : System} {a : SystemAction}
    (hs : s.step settings a = some s') : s.requests.length ≤ s'.requests.length := by
  have hkind := requests_kind hs
  generalize s'.requests = requests at hkind
  cases hkind with
  | arrives => rw [List.length_append]; omega
  | moves => rw [List.length_set]
  | stays => exact Nat.le_refl _

/-- Published messages stay published. -/
theorem published_append {settings : Settings} {s s' : System} {a : SystemAction}
    (hs : s.step settings a = some s') : ∃ ms, s'.published = s.published ++ ms := by
  cases step_kind hs with
  | publish => exact ⟨_, rfl⟩
  | begin | ret | raise | «continue» | call | commit | answered | refused | fail | inventory =>
    exact ⟨[], (List.append_nil _).symm⟩

/-- A step of the system is a step of the inventory, or leaves it alone. -/
theorem inventory_step {settings : Settings} {s s' : System} {a : SystemAction}
    (hs : s.step settings a = some s') :
    s'.inventory = s.inventory ∨
      ∃ b, Inventory.step settings s.inventory b = some s'.inventory := by
  cases step_kind hs with
  | begin | ret | raise | «continue» | commit | publish | answered | refused
  | fail => exact .inl rfl
  | @call j inp call c k σ hj => exact .inr ⟨.begin c, rfl⟩
  | @inventory b w _ hw => exact .inr ⟨b, hw⟩

/-- Every running request satisfies `P`, with its call. -/
def Everywhere (P : ApiCall → ApiProg (Option Order) → ApiSession → Prop) (s : System) : Prop :=
  ∀ ⦃j : ℕ⦄ ⦃call p σ w⦄, s.requests[j]? = some (.running call p σ w) → P call p σ

/-- What is true of a program and its session is true of the rest of the program after every
operation. -/
structure Closed (P : ApiCall → ApiProg (Option Order) → ApiSession → Prop) : Prop where
  next : ∀ {call : ApiCall} {p p' : ApiProg (Option Order)} {σ σ' : ApiSession}
    {orders : Table Order} {inp : ApiInput}, P call p σ →
    p.next orders inp σ = .continue p' σ' → P call p' σ'
  commit : ∀ {call : ApiCall} {p : ApiProg (Option Order)} {σ : ApiSession},
    P call (.commit p) σ → P call p .empty
  publish : ∀ {call : ApiCall} {p : ApiProg (Option Order)} {σ : ApiSession} {m : Message},
    P call (.publish m p) σ → P call p σ
  answer : ∀ {call : ApiCall} {k : Inventory.Result → ApiProg (Option Order)} {σ : ApiSession}
    {c : Inventory.Call} {res : Inventory.Result}, P call (.rpc c k) σ → P call (k res) σ

/-- The running requests after a move of one of them. -/
theorem Everywhere.move {P : ApiCall → ApiProg (Option Order) → ApiSession → Prop} {s s' : System}
    {j : ℕ} {r' : Request} (h : s.Everywhere P) (hreq : s'.requests = s.requests.set j r')
    (hr : ∀ {call p σ w}, r' = .running call p σ w → P call p σ) : s'.Everywhere P := by
  intro j' call p σ w hj'
  rw [hreq] at hj'
  rcases getElem?_set_inv hj' with ⟨-, hrun⟩ | ⟨-, hj'⟩
  · exact hr hrun.symm
  · exact h hj'

/-- **The rule for what every program keeps on its way**: it holds of every running request after a
step, if it holds of the program of a request that arrives. -/
theorem Everywhere.step {P : ApiCall → ApiProg (Option Order) → ApiSession → Prop}
    {settings : Settings} {s s' : System} {a : SystemAction} (h : s.Everywhere P) (hP : Closed P)
    (hs : s.step settings a = some s')
    (hbegin : ∀ call, a = .begin call → P call call.body .empty) : s'.Everywhere P := by
  cases step_kind hs with
  | begin call =>
    intro j' call' p' σ' w' hj'
    rcases getElem?_append_singleton hj' with hj' | ⟨-, he⟩
    · exact h hj'
    · cases he
      exact hbegin call rfl
  | ret | raise | refused | fail => exact h.move rfl nofun
  | «continue» hj _ hn => exact h.move rfl fun he => by cases he; exact hP.next (h hj) hn
  | call hj => exact h.move rfl fun he => by cases he; exact h hj
  | commit hj => exact h.move rfl fun he => by cases he; exact hP.commit (h hj)
  | publish hj => exact h.move rfl fun he => by cases he; exact hP.publish (h hj)
  | answered hj => exact h.move rfl fun he => by cases he; exact hP.answer (h hj)
  | inventory => exact h

/-! ## A paid order -/

/-- Request `j` runs `n` operations: its event exists, its payment succeeds, and a new order gets
the primary key `3 + j`. -/
def advances (j n : ℕ) : List SystemAction :=
  List.replicate n (.advance j ⟨⟨0, ⟨3 + j⟩, .ascending⟩, some ⟨1000⟩, true, "mock_txn_0"⟩)

/-- Inventory transaction `t` runs `n` operations. -/
def inventoryAdvances (t n : ℕ) : List SystemAction := (Inventory.advances 0 t n).map .inventory

/-- An event with one seat, and an order for it that has been paid. -/
def paidOrder : List SystemAction :=
  [.inventory (.begin (.initializeInventory ⟨1⟩ 1))] ++ inventoryAdvances 0 4 ++
  [.begin (.bookTickets ⟨2⟩ ⟨1⟩ 1 none)] ++ advances 0 3 ++ inventoryAdvances 1 7 ++ advances 0 5 ++
  [.begin (.paymentWorker (.orderCreated ⟨3⟩ ⟨1⟩ ⟨2⟩ 1 1000 ⟨101⟩))] ++ advances 1 3

end System

end EventSphere.Api
