import EventSphere.Api.Atomic
import EventSphere.Api.System

/-!
# The atomic system is one of the interleavings

`Shop` runs every handler at once, `System` operation by operation. What the one does the other can
do too (`shop_simulated`): a handler that nobody interrupts leaves what `ApiProg.exec` computes
(`exec_run`), so a run of the atomic system is a run of the interleaved one, in which one request
moves at a time and the workers are handed published messages only. What goes wrong in the atomic
system goes wrong in the interleaved one.
-/

namespace EventSphere.Api

open Inventory (Settings InventoryWorld InventoryDb)

/-- The action asks the inventory for the confirmation of a reservation, and no worker does. -/
def ShopAction.confirming : ShopAction → Bool
  | .inventory (.confirmReservation _) _ => true
  | _ => false

/-! ## One program -/

namespace ApiProg

variable {α β : Type} {settings : Settings} {env : Env}

variable (settings env) in
/-- A program whose value is looked at only once it has ended. -/
theorem exec_map (p : ApiProg α) (f : α → β) (σ : ApiSession) (s : Shop) :
    (do return f (← p) : ApiProg β).exec settings env σ s =
      ((p.exec settings env σ s).1.map f, (p.exec settings env σ s).2) := by
  induction p generalizing σ s with
  | ret a | raise e => rfl
  | getByIdempotencyKey user key k ih =>
    simp only [getByIdempotencyKey_bind, exec]
    split
    · rfl
    · exact ih _ _ _
    · exact ih _ _ _
  | getForUser _ _ k ih | getOrder _ k ih | getEvent _ k ih | uuid4 k ih => exact ih _ _ _
  | charge _ _ k ih => exact ih _ _ _ _
  | rpc c k ih =>
    simp only [rpc_bind, exec]
    split
    · rfl
    · exact ih _ _ _
  | addOrder o k ih =>
    simp only [addOrder_bind, exec]
    split
    · rfl
    · exact ih _ _
  | setStatus _ _ k ih | commit k ih | publish m k ih => exact ih _ _

end ApiProg

/-! ## One request alone -/

/-- The outcome that a request ends with. -/
def outcomeOf {α : Type} : Except ApiError α → Outcome ApiError α
  | .ok a => .returned a
  | .error e => .raised e

/-- The interleaved system in the state of the atomic one. -/
def Shop.system (s : Shop)
    (txs : List (TxState Inventory.Call Inventory.EventInventory UUID Inventory.Reservation UUID
      Inventory.InventoryError Inventory.Result))
    (requests : List Request) (rpcs : List (ℕ × ℕ)) : System :=
  ⟨s.orders, ⟨s.inventory, txs⟩, requests, rpcs, s.published⟩

namespace System

/-- A run without arrivals leads from one state to the other. -/
def Leads (settings : Settings) (t t' : System) : Prop :=
  ∃ bs, run (step settings) t bs = some t' ∧ ∀ b ∈ bs, ∀ call, b ≠ .begin call

section
variable {settings : Settings} {t t₁ t' : System}

theorem Leads.refl (settings : Settings) (t : System) : Leads settings t t :=
  ⟨[], rfl, nofun⟩

theorem Leads.head {a : SystemAction} (hs : t.step settings a = some t₁)
    (ha : ∀ call, a ≠ .begin call) (h : Leads settings t₁ t') : Leads settings t t' := by
  obtain ⟨bs, hr, hbs⟩ := h
  exact ⟨a :: bs, run_cons.2 ⟨t₁, hs, hr⟩, List.forall_mem_cons.2 ⟨ha, hbs⟩⟩

theorem Leads.advance (j : ℕ) (inp : ApiInput) (hs : t.step settings (.advance j inp) = some t₁)
    (h : Leads settings t₁ t') : Leads settings t t' :=
  .head hs (fun _ he => by cases he) h

theorem Leads.trans (h : Leads settings t t₁) (h' : Leads settings t₁ t') :
    Leads settings t t' := by
  obtain ⟨bs, hr, hbs⟩ := h
  obtain ⟨bs', hr', hbs'⟩ := h'
  exact ⟨bs ++ bs', run_append.2 ⟨t₁, hr, hr'⟩, List.forall_mem_append.2 ⟨hbs, hbs'⟩⟩

/-- What the inventory can do by itself, the system can do. -/
theorem Leads.inventory {as : List (Action Inventory.Call UUID)} {w : InventoryWorld}
    (has : ∀ a ∈ as, confirming a = false)
    (hr : run (Inventory.step settings) t.inventory as = some w) :
    Leads settings t { t with inventory := w } := by
  induction as generalizing t with
  | nil => cases hr; exact .refl settings t
  | cons a as ih =>
    obtain ⟨w₁, hs, hr⟩ := run_cons.1 hr
    have hstep : t.step settings (.inventory a) = some { t with inventory := w₁ } := by
      rw [step, if_neg (by rw [has a (.head _)]; exact Bool.false_ne_true), hs]
      rfl
    exact .head hstep (fun _ he => by cases he) (ih (fun b hb => has b (.tail _ hb)) hr)

end

/-! The last request moves; all others have ended. -/

section
variable {settings : Settings} {s : Shop} {before : List Request} {rpcs : List (ℕ × ℕ)}
  {txs : List (TxState Inventory.Call Inventory.EventInventory UUID Inventory.Reservation UUID
    Inventory.InventoryError Inventory.Result)}
  {call : ApiCall} {p : ApiProg (Option Order)} {σ : ApiSession}

/-- The last request is replaced. -/
theorem put_last (x y : Request) :
    (s.system txs (before ++ [x]) rpcs).put before.length y =
      s.system txs (before ++ [y]) rpcs := by
  simp [put, Shop.system]

/-- The last request does not wait for another one. -/
theorem not_blocked (hb : ∀ r ∈ before, r.ended = true) (x : Request) :
    ¬ (s.system txs (before ++ [x]) rpcs).Blocked before.length p := by
  cases p with
  | addOrder o k =>
    rintro ⟨j, hlt, hne, o', ho', -⟩
    have hj : j < before.length := by
      simp only [Shop.system, List.length_append, List.length_singleton] at hlt
      omega
    rw [Shop.system, List.getElem?_append_left hj, List.getElem?_eq_getElem hj] at ho'
    have hended := hb _ (List.getElem_mem hj)
    cases hr : before[j] with
    | running => rw [hr] at hended; cases hended
    | done => rw [hr] at ho'; cases ho'
  | ret | raise | getByIdempotencyKey | getForUser | getOrder | getEvent | uuid4 | charge | rpc
  | setStatus | commit | publish => exact id

/-- The next operation of the last request. -/
theorem step_last (hb : ∀ r ∈ before, r.ended = true) (inp : ApiInput) :
    (s.system txs (before ++ [.running call p σ none]) rpcs).step settings
        (.advance before.length inp) =
      some ((s.system txs (before ++ [.running call p σ none]) rpcs).advance settings
        before.length inp call p σ) := by
  have hj : (s.system txs (before ++ [.running call p σ none]) rpcs).requests[before.length]? =
      some (.running call p σ none) := List.getElem?_concat_length
  simp only [step, hj]
  exact if_neg (not_blocked hb _)

/-- An operation that leaves the program running. -/
theorem leads_continue {inp : ApiInput} {p' : ApiProg (Option Order)} {σ' : ApiSession}
    (hb : ∀ r ∈ before, r.ended = true) (hn : p.next s.orders inp σ = .continue p' σ') :
    Leads settings (s.system txs (before ++ [.running call p σ none]) rpcs)
      (s.system txs (before ++ [.running call p' σ' none]) rpcs) := by
  refine .advance _ _ (step_last hb inp) ?_
  have hn' : p.next (s.system txs (before ++ [.running call p σ none]) rpcs).orders inp σ =
      .continue p' σ' := hn
  rw [advance, hn']
  dsimp only
  rw [put_last]
  exact .refl ..

/-- An operation that raises. -/
theorem leads_raise (inp : ApiInput) {e : ApiError} (hb : ∀ r ∈ before, r.ended = true)
    (hn : p.next s.orders inp σ = .raise e) :
    Leads settings (s.system txs (before ++ [.running call p σ none]) rpcs)
      (s.system txs (before ++ [.done call (.raised e)]) rpcs) := by
  refine .advance _ _ (step_last hb inp) ?_
  have hn' : p.next (s.system txs (before ++ [.running call p σ none]) rpcs).orders inp σ =
      .raise e := hn
  rw [advance, hn']
  dsimp only
  rw [put_last]
  exact .refl ..

/-- A call of the inventory that runs alone, beside transactions that have ended. -/
theorem serve_run (settings : Settings) (db : InventoryDb) (htxs : ∀ x ∈ txs, ∃ c o, x = .done c o)
    (c : Inventory.Call) (inp : Input UUID) :
    ∃ n, run (Inventory.step settings) ⟨db, txs⟩
        (.begin c :: List.replicate n (.advance txs.length inp)) =
      some ⟨((c.body settings).atomically db inp).2,
        txs ++ [.done c ((c.body settings).atomically db inp).1]⟩ := by
  refine Prog.atomically_run (fun i => ?_) c inp
  unfold World.writesOf
  cases hx : txs[i]? with
  | none => rfl
  | some x =>
    obtain ⟨c, o, rfl⟩ := htxs x (List.mem_of_getElem? hx)
    rfl

variable (settings s rpcs call σ) in
/-- A call of the inventory, from its begin to its answer. -/
theorem leads_rpc (c : Inventory.Call) (k : Inventory.Result → ApiProg (Option Order)) (env : Env)
    (hb : ∀ r ∈ before, r.ended = true) (htxs : ∀ x ∈ txs, ∃ c o, x = .done c o) :
    let r := (c.body settings).atomically s.inventory env.inventory
    Leads settings (s.system txs (before ++ [.running call (.rpc c k) σ none]) rpcs)
      (({ s with inventory := r.2 } : Shop).system (txs ++ [.done c r.1])
        (before ++ [match rpcResult r.1 with
          | .ok res => .running call (k res) σ none
          | .error e => .done call (.raised (.domain e))])
        (rpcs ++ [(before.length, txs.length)])) := by
  intro r
  obtain ⟨n, hrun⟩ := serve_run settings s.inventory htxs c env.inventory
  obtain ⟨w, hbegin, hrun⟩ := run_cons.1 hrun
  cases hbegin
  -- the system while the request waits for its transaction
  have hasked : (s.system txs (before ++ [.running call (.rpc c k) σ none]) rpcs).step settings
      (.advance before.length env.api) = some ⟨s.orders, ⟨s.inventory, txs ++ [.running c
        (c.body settings) .init]⟩, before ++ [.running call (.rpc c k) σ (some txs.length)],
        rpcs ++ [(before.length, txs.length)], s.published⟩ := by
    rw [step_last hb, advance, ApiProg.next]
    dsimp only
    rw [put_last]
    rfl
  refine .advance _ _ hasked (.trans (.inventory (fun a ha => ?_) hrun) ?_)
  · rw [List.eq_of_mem_replicate ha]
    rfl
  -- the answer
  refine .advance before.length env.api ?_ (.refl settings _)
  have hj : (before ++ [Request.running call (.rpc c k) σ (some txs.length)])[before.length]? =
      some (.running call (.rpc c k) σ (some txs.length)) := List.getElem?_concat_length
  have ht : (txs ++ [TxState.done c r.1])[txs.length]? = some (.done c r.1) :=
    List.getElem?_concat_length
  simp only [step, hj]
  rw [ht]
  dsimp only [answer]
  cases hres : rpcResult r.1 with
  | ok res => simp [put, Shop.system, r]
  | error e => simp [put, Shop.system, r]

variable (settings s rpcs call p σ) in
/-- **A program that nobody interrupts leaves what `ApiProg.exec` computes.** -/
theorem exec_run (env : Env) (hb : ∀ r ∈ before, r.ended = true)
    (htxs : ∀ x ∈ txs, ∃ c o, x = .done c o) :
    ∃ txs' rpcs', (∀ x ∈ txs', ∃ c o, x = .done c o) ∧
      Leads settings (s.system txs (before ++ [.running call p σ none]) rpcs)
        ((p.exec settings env σ s).2.system txs'
          (before ++ [.done call (outcomeOf (p.exec settings env σ s).1)]) rpcs') := by
  -- an operation, and the rest of the program
  have hnext : ∀ {p p' : ApiProg (Option Order)} {σ σ' : ApiSession} {s : Shop} {txs rpcs},
      p.next s.orders env.api σ = .continue p' σ' →
      (∃ txs' rpcs', (∀ x ∈ txs', ∃ c o, x = .done c o) ∧
        Leads settings (s.system txs (before ++ [.running call p' σ' none]) rpcs)
          ((p'.exec settings env σ' s).2.system txs'
            (before ++ [.done call (outcomeOf (p'.exec settings env σ' s).1)]) rpcs')) →
      p.exec settings env σ s = p'.exec settings env σ' s →
      ∃ txs' rpcs', (∀ x ∈ txs', ∃ c o, x = .done c o) ∧
        Leads settings (s.system txs (before ++ [.running call p σ none]) rpcs)
          ((p.exec settings env σ s).2.system txs'
            (before ++ [.done call (outcomeOf (p.exec settings env σ s).1)]) rpcs') := by
    rintro p p' σ σ' s txs rpcs hn ⟨txs', rpcs', h, hl⟩ he
    rw [he]
    exact ⟨txs', rpcs', h, (leads_continue hb hn).trans hl⟩
  induction p generalizing σ s txs rpcs with
  | ret a =>
    refine ⟨txs, rpcs, htxs, .advance _ _ (step_last hb env.api) ?_⟩
    rw [advance, ApiProg.next]
    dsimp only
    rw [put_last]
    exact .refl ..
  | raise e => exact ⟨txs, rpcs, htxs, leads_raise env.api hb rfl⟩
  | getByIdempotencyKey user key k ih =>
    cases hscan : scalarOneOrNone (ordersWithKey (σ.view s.orders) env.api.scan user key) with
    | error e =>
      refine ⟨txs, rpcs, htxs, ?_⟩
      simp only [ApiProg.exec, hscan]
      exact leads_raise env.api hb (by simp only [ApiProg.next, hscan])
    | ok found =>
      cases found with
      | none =>
        have hn : (ApiProg.getByIdempotencyKey user key k).next s.orders env.api σ =
            .continue (k none) { σ with missed := some (user, key) } := by
          simp only [ApiProg.next, hscan]
        exact hnext hn (ih none _ _ _ htxs) (by simp only [ApiProg.exec, hscan])
      | some o =>
        have hn : (ApiProg.getByIdempotencyKey user key k).next s.orders env.api σ =
            .continue (k (some o)) σ := by
          simp only [ApiProg.next, hscan]
        exact hnext hn (ih (some o) _ _ _ htxs) (by simp only [ApiProg.exec, hscan])
  | getForUser _ _ k ih | getOrder _ k ih | getEvent _ k ih | uuid4 k ih =>
    exact hnext rfl (ih _ _ _ _ htxs) rfl
  | charge _ _ k ih => exact hnext rfl (ih _ _ _ _ _ htxs) rfl
  | rpc c k ih =>
    have htxs' : ∀ x ∈ txs ++ [.done c ((c.body settings).atomically s.inventory env.inventory).1],
        ∃ c o, x = .done c o :=
      List.forall_mem_append.2 ⟨htxs, fun x hx => ⟨_, _, List.mem_singleton.1 hx⟩⟩
    have hrpc := leads_rpc settings s rpcs call σ c k env hb htxs
    simp only [ApiProg.exec]
    cases hres : rpcResult ((c.body settings).atomically s.inventory env.inventory).1 with
    | error e =>
      simp only [hres] at hrpc
      exact ⟨_, _, htxs', hrpc⟩
    | ok res =>
      simp only [hres] at hrpc
      obtain ⟨txs'', rpcs'', hdone, hl⟩ := ih res _ _ _ htxs'
      exact ⟨txs'', rpcs'', hdone, hrpc.trans hl⟩
  | addOrder o k ih =>
    cases hins : insertError (σ.view s.orders) env.api.event o with
    | some e =>
      refine ⟨txs, rpcs, htxs, ?_⟩
      simp only [ApiProg.exec, hins]
      exact leads_raise env.api hb (by simp only [ApiProg.next, hins])
    | none =>
      have hn : (ApiProg.addOrder o k).next s.orders env.api σ =
          .continue k { σ with insert := some o } := by
        simp only [ApiProg.next, hins]
      exact hnext hn (ih _ _ _ htxs) (by simp only [ApiProg.exec, hins])
  | setStatus o st k ih => exact hnext rfl (ih _ _ _ htxs) rfl
  | commit k ih =>
    obtain ⟨txs', rpcs', h, hl⟩ := ih { s with orders := σ.view s.orders } rpcs .empty htxs
    refine ⟨txs', rpcs', h, .advance _ _ (step_last hb env.api) ?_⟩
    rw [advance, ApiProg.next]
    dsimp only
    rw [put_last]
    exact hl
  | publish m k ih =>
    obtain ⟨txs', rpcs', h, hl⟩ := ih { s with published := s.published ++ [m] } rpcs σ htxs
    refine ⟨txs', rpcs', h, .advance _ _ (step_last hb env.api) ?_⟩
    rw [advance, ApiProg.next]
    dsimp only
    rw [put_last]
    exact hl

end

/-! ## Whole runs -/

/-- The interleaved system is at rest in the state of the atomic one: every request and every
transaction has ended. -/
def Rests (t : System) (s : Shop) : Prop :=
  ∃ txs requests rpcs, t = s.system txs requests rpcs ∧ (∀ x ∈ txs, ∃ c o, x = .done c o) ∧
    ∀ r ∈ requests, r.ended = true

section
variable {settings : Settings} {s s' : Shop} {t : System}

/-- Runs without arrivals hand nothing to a worker. -/
theorem Leads.handsPublished {t' : System} (h : Leads settings t t') :
    ∃ bs, run (step settings) t bs = some t' ∧ Along (step settings) HandsPublished t bs := by
  obtain ⟨bs, hr, hbs⟩ := h
  refine ⟨bs, hr, along_of_inv (C := fun _ b => ∀ call, b ≠ .begin call) (I := fun _ => True)
    (fun _ _ _ => trivial) (fun {t b} _ hb => ?_) trivial (along_of_forall_mem hbs)⟩
  cases b with
  | begin call => exact absurd rfl (hb call)
  | advance | fail | inventory => exact trivial

variable (settings) in
/-- A request arrives where everything rests and is run to its end. -/
theorem Rests.serve (h : t.Rests s) (call : ApiCall) (env : Env)
    (hd : t.HandsPublished (.begin call)) :
    ∃ bs t', run (step settings) t bs = some t' ∧ Along (step settings) HandsPublished t bs ∧
      t'.Rests (call.body.exec settings env .empty s).2 := by
  obtain ⟨txs, requests, rpcs, rfl, htxs, hreqs⟩ := h
  obtain ⟨txs', rpcs', htxs', hl⟩ := exec_run settings s rpcs call call.body .empty env hreqs htxs
  obtain ⟨bs, hr, hbs⟩ := hl.handsPublished
  refine ⟨.begin call :: bs, _, run_cons.2 ⟨_, rfl, hr⟩, ⟨hd, fun t₁ hs => ?_⟩,
    txs', _, rpcs', rfl, htxs', ?_⟩
  · cases hs
    exact hbs
  · exact List.forall_mem_append.2 ⟨hreqs, fun r hr => List.mem_singleton.1 hr ▸ rfl⟩

/-- A note in the history is no part of the system. -/
theorem Rests.congr (h : t.Rests s) (ho : s'.orders = s.orders) (hi : s'.inventory = s.inventory)
    (hp : s'.published = s.published) : t.Rests s' := by
  obtain ⟨txs, requests, rpcs, rfl, htxs, hreqs⟩ := h
  exact ⟨txs, requests, rpcs, by simp only [Shop.system, ho, hi, hp], htxs, hreqs⟩

/-- A handler with a note in the history, as a request with another result. -/
theorem Rests.conclude {α β : Type} {note : Shop → Shop} {p : ApiProg α} {f : α → β} {env : Env}
    (hnote : ∀ s, (note s).orders = s.orders ∧ (note s).inventory = s.inventory ∧
      (note s).published = s.published)
    (h : t.Rests ((do return f (← p) : ApiProg β).exec settings env .empty s).2) :
    t.Rests (Shop.conclude note (p.exec settings env .empty s)) := by
  rw [ApiProg.exec_map] at h
  generalize p.exec settings env .empty s = r at h
  obtain ⟨_ | _, s'⟩ := r
  · exact h
  · obtain ⟨h1, h2, h3⟩ := hnote s'
    exact h.congr h1 h2 h3

/-- A call of the inventory that runs alone. -/
theorem Rests.inventory (h : t.Rests s) {c : Inventory.Call} (hc : confirming (.begin c) = false)
    (inp : Input UUID) :
    ∃ t', Leads settings t t' ∧ t'.Rests { s with
      inventory := ((c.body settings).atomically s.inventory inp).2 } := by
  obtain ⟨txs, requests, rpcs, rfl, htxs, hreqs⟩ := h
  obtain ⟨n, hrun⟩ := serve_run settings s.inventory htxs c inp
  refine ⟨_, .inventory (t := s.system txs requests rpcs) (fun a ha => ?_) hrun,
    txs ++ [.done c _], requests, rpcs, rfl, ?_, hreqs⟩
  · rcases List.mem_cons.1 ha with rfl | ha
    · exact hc
    · rw [List.eq_of_mem_replicate ha]
      rfl
  · exact List.forall_mem_append.2 ⟨htxs, fun x hx => ⟨_, _, List.mem_singleton.1 hx⟩⟩

/-- **One action of the atomic system** is a run of the interleaved one. -/
theorem Rests.step (h : t.Rests s) {a : ShopAction} (ha : a.confirming = false)
    (hs : s.step settings a = some s') :
    ∃ bs t', run (step settings) t bs = some t' ∧ Along (step settings) HandsPublished t bs ∧
      t'.Rests s' := by
  have hpublished : t.published = s.published := by
    obtain ⟨txs, requests, rpcs, rfl, -⟩ := h
    rfl
  cases a with
  | bookTickets user eventId quantity key env =>
    cases hs
    obtain ⟨bs, t', hr, hbs, ht'⟩ :=
      h.serve settings (.bookTickets user eventId quantity key) env trivial
    rw [ApiCall.body, ApiProg.exec_map] at ht'
    exact ⟨bs, t', hr, hbs, ht'⟩
  | cancelOrder orderId user env =>
    cases hs
    obtain ⟨bs, t', hr, hbs, ht'⟩ := h.serve settings (.cancelOrder orderId user) env trivial
    exact ⟨bs, t', hr, hbs, ht'.conclude fun _ => ⟨rfl, rfl, rfl⟩⟩
  | deliver n env =>
    obtain ⟨m, hm, rfl⟩ := Option.map_eq_some_iff.1 hs
    have hmem : m ∈ t.published := hpublished ▸ List.mem_of_getElem? hm
    cases m with
    | orderCreated =>
      obtain ⟨bs, t', hr, hbs, ht'⟩ := h.serve settings (.paymentWorker _) env hmem
      exact ⟨bs, t', hr, hbs, ht'.conclude fun _ => ⟨rfl, rfl, rfl⟩⟩
    | paymentProcessed | reservationExpired =>
      obtain ⟨bs, t', hr, hbs, ht'⟩ := h.serve settings (.orderStatusWorker _) env hmem
      exact ⟨bs, t', hr, hbs, ht'.conclude fun _ => ⟨rfl, rfl, rfl⟩⟩
    | ticketIssued | orderCancelled => exact ⟨[], t, rfl, trivial, h.congr rfl rfl rfl⟩
  | reservationReaper env =>
    cases hs
    obtain ⟨bs, t', hr, hbs, ht'⟩ := h.serve settings .reservationReaper env trivial
    rw [ApiCall.body, ApiProg.exec_map] at ht'
    exact ⟨bs, t', hr, hbs, ht'⟩
  | inventory call inp =>
    cases hs
    have hc : confirming (.begin call) = false := by
      cases call <;> first | rfl | cases ha
    obtain ⟨t', hl, ht'⟩ := h.inventory hc inp
    obtain ⟨bs, hr, hbs⟩ := hl.handsPublished
    exact ⟨bs, t', hr, hbs, ht'⟩

end

/-- **The atomic system is refined by the interleaved one.** Every run of atomic handlers and calls,
in which only the order status worker confirms reservations, is a run of the interleaved system: it
reaches a state with the same orders, inventory and messages, in which every request and every
transaction has ended, and its workers are handed published messages only. -/
theorem shop_simulated (settings : Settings) (as : List ShopAction)
    (has : ∀ a ∈ as, a.confirming = false) (s : Shop)
    (hr : run (Shop.step settings) .init as = some s) :
    ∃ bs t, run (step settings) .init bs = some t ∧ Along (step settings) HandsPublished .init bs ∧
      t.Rests s := by
  induction as using List.reverseRecOn generalizing s with
  | nil =>
    cases hr
    exact ⟨[], .init, rfl, trivial, [], [], [], rfl, List.forall_mem_nil _, List.forall_mem_nil _⟩
  | append_singleton as a ih =>
    obtain ⟨s₁, hr₁, hs⟩ := run_concat.1 hr
    obtain ⟨has₁, ha⟩ := List.forall_mem_append.1 has
    obtain ⟨bs, t, hr, hbs, ht⟩ := ih has₁ s₁ hr₁
    obtain ⟨bs', t', hr', hbs', ht'⟩ := ht.step (ha a (List.mem_singleton_self a)) hs
    exact ⟨bs ++ bs', t', run_append.2 ⟨t, hr, hr'⟩, (along_append hr).2 ⟨hbs, hbs'⟩, ht'⟩

/-- The late payment of the atomic system happens in the interleaved one. -/
theorem latePayment_simulated : ∃ s bs t, run (Shop.step .default) .init Shop.latePayment = some s ∧
    run (step .default) .init bs = some t ∧ Along (step .default) HandsPublished .init bs ∧
    t.Rests s ∧ s.published.length = 3 := by
  obtain ⟨s, hs, h⟩ : ∃ s, run (Shop.step .default) .init Shop.latePayment = some s ∧
      s.published.length = 3 := exists_of_run (by decide +kernel)
  obtain ⟨bs, t, hr, hbs, ht⟩ := shop_simulated .default Shop.latePayment (by decide) s hs
  exact ⟨s, bs, t, hs, hr, hbs, ht, h⟩

end System

end EventSphere.Api
