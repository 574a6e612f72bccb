import EventSphere.Api.Coherence
import EventSphere.Inventory.Progress

/-!
# Every request ends

A request of the booking system waits in two places: for the answer of the inventory, and with an
insert for another request that has inserted a clashing order and not yet committed it. Between its
insert and its commit a handler waits for nothing, so the system only stands still where the
inventory does, when two sweeps hold rows at the same time (`System.progress`). The operations of
every handler are bounded together with those of the inventory calls it makes (`ApiProg.EndsIn`), so
however the requests are interleaved, they come to an end (`System.requests_end`).
-/

namespace EventSphere.Api

open Inventory (Settings)

/-! ## Bounded programs -/

namespace ApiProg

/-- The program ends within `n` steps, of its own and of the inventory: a call counts with the steps
that it costs, and answers with what `R` allows. -/
def EndsIn {α : Type} (cost : Inventory.Call → ℕ) (R : Inventory.Result → Prop) :
    ℕ → ApiProg α → Prop
  | 0, _ => False
  | _ + 1, ret _ | _ + 1, raise _ => True
  | n + 1, getByIdempotencyKey _ _ f | n + 1, getForUser _ _ f | n + 1, getOrder _ f =>
    ∀ o, EndsIn cost R n (f o)
  | n + 1, getEvent _ f => ∀ e, EndsIn cost R n (f e)
  | n + 1, uuid4 f => ∀ i, EndsIn cost R n (f i)
  | n + 1, charge _ _ f => ∀ paid ref, EndsIn cost R n (f paid ref)
  | n + 1, rpc c f => ∃ m, cost c + m + 1 ≤ n ∧ ∀ res, R res → EndsIn cost R m (f res)
  | n + 1, addOrder _ f | n + 1, setStatus _ _ f | n + 1, commit f | n + 1, publish _ f =>
    EndsIn cost R n f

variable {α : Type} {cost : Inventory.Call → ℕ} {R : Inventory.Result → Prop} {n m : ℕ}
  {p p' : ApiProg α}

theorem not_endsIn_zero : ¬ p.EndsIn cost R 0 := by
  intro h
  cases p <;> exact h

theorem EndsIn.pos (h : p.EndsIn cost R n) : 0 < n := by
  cases n with
  | zero => exact absurd h not_endsIn_zero
  | succ n => omega

/-- A bound may be too large. -/
theorem EndsIn.mono (h : p.EndsIn cost R n) (hle : n ≤ m) : p.EndsIn cost R m := by
  induction n generalizing m p with
  | zero => exact absurd h not_endsIn_zero
  | succ n ih =>
    obtain ⟨m, rfl⟩ : ∃ m', m = m' + 1 := ⟨m - 1, by omega⟩
    have hle : n ≤ m := by omega
    cases p with
    | ret | raise => trivial
    | getByIdempotencyKey | getForUser | getOrder | getEvent | uuid4 => exact fun x => ih (h x) hle
    | charge => exact fun paid ref => ih (h paid ref) hle
    | rpc c f =>
      obtain ⟨l, hl, hf⟩ := h
      exact ⟨l, hl.trans hle, hf⟩
    | addOrder o f | setStatus o st f | commit f | publish msg f => exact ih (p := f) h hle

/-- Every operation uses up one step. -/
theorem EndsIn.next {orders : Table Order} {inp : ApiInput} {σ σ' : ApiSession}
    (h : p.EndsIn cost R n) (hn : p.next orders inp σ = .continue p' σ') :
    p'.EndsIn cost R (n - 1) := by
  cases n with
  | zero => exact absurd h not_endsIn_zero
  | succ n =>
    cases p with
    | getByIdempotencyKey user key f =>
      simp only [ApiProg.next] at hn
      split at hn
      · cases hn
      · cases hn; exact h _
      · cases hn; exact h _
    | addOrder o f =>
      simp only [ApiProg.next] at hn
      split at hn
      · cases hn
      · cases hn; exact h
    | setStatus o st f => cases hn; exact h
    | getForUser | getOrder | getEvent | uuid4 => cases hn; exact h _
    | charge => cases hn; exact h _ _
    | ret | raise | rpc | commit | publish => cases hn

theorem EndsIn.commit (h : (ApiProg.commit p).EndsIn cost R n) : p.EndsIn cost R (n - 1) := by
  cases n with
  | zero => exact h.elim
  | succ n => exact h

theorem EndsIn.publish {msg : Message} (h : (ApiProg.publish msg p).EndsIn cost R n) :
    p.EndsIn cost R (n - 1) := by
  cases n with
  | zero => exact h.elim
  | succ n => exact h

/-- Besides the steps that it costs, a call is one step and its answer another. -/
theorem EndsIn.rpc {c : Inventory.Call} {f : Inventory.Result → ApiProg α}
    (h : (ApiProg.rpc c f).EndsIn cost R n) :
    ∃ m, cost c + m + 2 ≤ n ∧ ∀ res, R res → (f res).EndsIn cost R m := by
  cases n with
  | zero => exact h.elim
  | succ n =>
    obtain ⟨m, hm, hf⟩ := h
    exact ⟨m, Nat.succ_le_succ hm, hf⟩

end ApiProg

/-! ## The handlers -/

/-- The most steps that a call needs, its own and those of the inventory. -/
def ApiCall.steps (settings : Settings) : ApiCall → ℕ
  | .bookTickets _ e q _ => Inventory.Call.operations settings (.reserveSeats e ⟨0⟩ q) + 9
  | .cancelOrder .. | .orderStatusWorker _ => 13
  | .paymentWorker _ => 3
  | .reservationReaper =>
    Inventory.Call.operations settings .sweepExpiredReservations + (Inventory.sweepLimit + 1) + 2

/-- The steps that an action brings into the system, its own included. -/
def SystemAction.brings (settings : Settings) : SystemAction → ℕ
  | .begin call => call.steps settings + 1
  | .inventory (.begin c) => Inventory.Call.operations settings c + 1
  | .advance .. | .fail _ | .inventory _ => 0

/-- The steps that the actions of a run bring. -/
def brought (settings : Settings) : List SystemAction → ℕ
  | [] => 0
  | a :: as => a.brings settings + brought settings as

section
variable {settings : Settings} {R : Inventory.Result → Prop}

/-- The part of `book_tickets` after the lookup. -/
theorem bookNewOrder_endsIn (user eventId : UUID) (quantity : ℤ) (idempotencyKey : Option String) :
    (do return some (← bookNewOrder user eventId quantity idempotencyKey) :
      ApiProg (Option Order)).EndsIn (Inventory.Call.operations settings) R
      (Inventory.Call.operations settings (.reserveSeats eventId ⟨0⟩ quantity) + 8) := by
  unfold bookNewOrder reserveSeats
  intro event
  cases event with
  | none => trivial
  | some event =>
    refine fun i => ⟨4, Nat.le_refl _, fun res _ => ?_⟩
    cases res <;> trivial

/-- `book_tickets`. -/
theorem bookTickets_endsIn (user eventId : UUID) (quantity : ℤ) (idempotencyKey : Option String) :
    (ApiCall.bookTickets user eventId quantity idempotencyKey).body.EndsIn
      (Inventory.Call.operations settings) R
      (Inventory.Call.operations settings (.reserveSeats eventId ⟨0⟩ quantity) + 9) := by
  unfold ApiCall.body bookTickets
  cases idempotencyKey with
  | none => exact (bookNewOrder_endsIn user eventId quantity none).mono (Nat.le_succ _)
  | some k =>
    dsimp only
    split
    · exact (bookNewOrder_endsIn user eventId quantity (some k)).mono (Nat.le_succ _)
    · intro o
      cases o with
      | none => exact bookNewOrder_endsIn user eventId quantity (some k)
      | some o => trivial

/-- `cancel_order`. -/
theorem cancelOrder_endsIn (orderId user : UUID) :
    (ApiCall.cancelOrder orderId user).body.EndsIn (Inventory.Call.operations settings) R 13 := by
  unfold ApiCall.body cancelOrder
  simp only [ApiProg.getForUser_bind, ApiProg.ret_bind]
  intro o
  cases o with
  | none => trivial
  | some o =>
    dsimp only
    split
    · trivial
    · split
      · trivial
      · exact ⟨4, Nat.le_refl 11, fun _ _ => trivial⟩

/-- `_handle_payment_processed`. -/
theorem handlePaymentProcessed_endsIn (orderId : UUID) (success : Bool) :
    (do handlePaymentProcessed orderId success; return none : ApiProg (Option Order)).EndsIn
      (Inventory.Call.operations settings) R 13 := by
  unfold handlePaymentProcessed
  simp only [ApiProg.getOrder_bind, ApiProg.ret_bind]
  intro o
  cases o with
  | none => trivial
  | some o =>
    dsimp only
    split
    · trivial
    · split
      · exact ⟨4, Nat.le_refl 11, fun _ _ => trivial⟩
      · exact ⟨4, Nat.le_refl 11, fun _ _ => trivial⟩

/-- `_handle_reservation_expired`. -/
theorem handleReservationExpired_endsIn (orderId : UUID) :
    (do handleReservationExpired orderId; return none : ApiProg (Option Order)).EndsIn
      (Inventory.Call.operations settings) R 13 := by
  unfold handleReservationExpired
  simp only [ApiProg.getOrder_bind, ApiProg.ret_bind]
  intro o
  cases o with
  | none => trivial
  | some o =>
    dsimp only
    split <;> trivial

/-- The reaper publishes one message for each reservation. -/
theorem publishExpired_endsIn (rs : List Inventory.Reservation) :
    (do publishExpired rs; return none : ApiProg (Option Order)).EndsIn
      (Inventory.Call.operations settings) R (rs.length + 1) := by
  induction rs with
  | nil => trivial
  | cons r rs ih => exact ih

/-- **Every handler ends after a number of steps that is known beforehand.** -/
theorem ApiCall.body_endsIn (settings : Settings) (call : ApiCall) :
    call.body.EndsIn (Inventory.Call.operations settings) Inventory.Result.Short
      (call.steps settings) := by
  cases call with
  | bookTickets user eventId quantity key => exact bookTickets_endsIn user eventId quantity key
  | cancelOrder orderId user => exact cancelOrder_endsIn orderId user
  | orderStatusWorker m =>
    cases m with
    | paymentProcessed orderId success ref => exact handlePaymentProcessed_endsIn orderId success
    | reservationExpired r orderId e => exact handleReservationExpired_endsIn orderId
    | orderCreated | ticketIssued | orderCancelled => trivial
  | paymentWorker m =>
    cases m with
    | orderCreated => exact fun _ _ => trivial
    | paymentProcessed | ticketIssued | orderCancelled | reservationExpired => trivial
  | reservationReaper =>
    refine ⟨Inventory.sweepLimit + 1, Nat.le_refl _, fun res hres => ?_⟩
    cases res with
    | reservations rs =>
      exact (publishExpired_endsIn rs).mono (Nat.succ_le_succ (hres rs rfl))
    | inventory | reservation => trivial

end

/-! ## Waiting -/

namespace System

/-- The request has not ended. -/
def Running (s : System) (j : ℕ) : Prop := ∃ call p σ w, s.requests[j]? = some (.running call p σ w)

/-- The request can take its next step, whatever that is answered. -/
def Ready (settings : Settings) (s : System) (j : ℕ) : Prop :=
  ∀ inp, ∃ s', s.step settings (.advance j inp) = some s'

/-- The transaction of the inventory can run its next operation, whatever that is answered. -/
def TxReady (settings : Settings) (s : System) (t : ℕ) : Prop :=
  ∀ inp, ∃ s', s.step settings (.inventory (.advance t inp)) = some s'

section
variable {settings : Settings} {s s' : System} {a : SystemAction} {j : ℕ} {call : ApiCall}
  {p : ApiProg (Option Order)} {σ : ApiSession}

/-- A request that waits for nothing is ready. -/
theorem ready_of_free (hj : s.requests[j]? = some (.running call p σ none)) (hb : ¬ s.Blocked j p) :
    s.Ready settings j := by
  intro inp
  simp only [step, hj, if_neg hb]
  exact ⟨_, rfl⟩

/-- A request whose transaction has ended is ready. -/
theorem ready_of_done {c c' : Inventory.Call} {k : Inventory.Result → ApiProg (Option Order)}
    {t : ℕ} {o : Outcome Inventory.InventoryError Inventory.Result}
    (hj : s.requests[j]? = some (.running call (.rpc c k) σ (some t)))
    (ht : s.inventory.txs[t]? = some (.done c' o)) : s.Ready settings j := by
  intro inp
  simp only [step, hj, ht]
  exact ⟨_, rfl⟩

/-- Between its insert and its commit a request waits for nothing. -/
theorem Inv.ready_of_insert {E : ApiCall → Prop} (h : s.Inv settings E) {x : Request} {o : Order}
    (hj : s.requests[j]? = some x) (hx : x.insert = some o) :
    s.Running j ∧ s.Ready settings j := by
  cases x with
  | done call out => cases hx
  | running call p σ w =>
    obtain ⟨F, hF⟩ := h.request hj
    have hσ : σ.insert = some o := hx
    have hclean : ¬ σ.Clean := fun hc => by
      rw [hc.insert] at hσ
      cases hσ
    refine ⟨⟨call, p, σ, w, hj⟩, ?_⟩
    cases w with
    | some t =>
      -- a request that waits for the inventory has inserted nothing
      obtain ⟨c, k, x, rfl, -, -⟩ := hF.waits rfl
      exact absurd hF.safe.1 hclean
    | none =>
      refine ready_of_free hj fun hb => ?_
      cases p with
      | addOrder o' f => exact hclean hF.safe.1
      | ret | raise | getByIdempotencyKey | getForUser | getOrder | getEvent | uuid4 | charge | rpc
      | setStatus | commit | publish => exact hb

/-- A transaction of the inventory that can move can do so in the system. -/
theorem txReady_of_ready {t : ℕ}
    (h : s.inventory.Ready (Inventory.Call.body settings) t) : s.TxReady settings t := by
  intro inp
  obtain ⟨w, hw⟩ := h inp
  refine ⟨{ s with inventory := w }, ?_⟩
  have hstep : Inventory.step settings s.inventory (.advance t inp) = some w := hw
  simp [step, confirming, hstep]

/-- The invariant of the waiting requests. -/
structure Live (settings : Settings) (s : System) : Prop where
  inv : s.Inv settings fun _ => True
  polite : s.inventory.AllPolite (· = .sweepExpiredReservations)
  bounded : s.inventory.Bounded (fun _ => Inventory.Result.Short)
    (Inventory.Call.operations settings)

theorem live_init (settings : Settings) : Live settings .init where
  inv := inv_init settings _
  polite := nofun
  bounded := ⟨nofun, nofun⟩

theorem Live.step (h : s.Live settings) (hs : System.step settings s a = some s') :
    s'.Live settings where
  inv := h.inv.step hs fun _ _ _ _ _ _ _ _ _ => trivial
  polite := by
    rcases inventory_step hs with hi | ⟨b, hb⟩
    · rw [hi]
      exact h.polite
    · exact h.polite.step (fun _ hcall => Inventory.Call.body_writesLast settings hcall) hb
  bounded := by
    rcases inventory_step hs with hi | ⟨b, hb⟩
    · rw [hi]
      exact h.bounded
    · exact h.bounded.step (Inventory.Call.body_endsIn settings) hb

/-- The system does not stand still: a request is ready, or a transaction is, or two sweeps hold
rows. -/
def Moving (settings : Settings) (s : System) : Prop :=
  (∃ j, s.Running j ∧ s.Ready settings j) ∨
  (∃ t c, s.inventory.Running t c ∧ s.TxReady settings t) ∨ Inventory.SweepsHold s.inventory

/-- While a transaction of the inventory runs, the system moves. -/
theorem Live.moving_of_tx (h : s.Live settings) {t : ℕ} {c : Inventory.Call}
    (ht : s.inventory.Running t c) : s.Moving settings := by
  rcases h.polite.progress (Inventory.Call.body settings) ht with
    ⟨t', c', ht', hready⟩ | ⟨t₁, t₂, _, _, hne, h1, h2, rfl, rfl, hw1, hw2⟩
  · exact .inr (.inl ⟨t', c', ht', txReady_of_ready hready⟩)
  · exact .inr (.inr ⟨t₁, t₂, hne, h1, h2, hw1, hw2⟩)

/-- **While a request runs, the system moves.** -/
theorem Live.progress (h : s.Live settings) (hj : s.Running j) : s.Moving settings := by
  obtain ⟨call, p, σ, w, hj⟩ := hj
  cases w with
  | none =>
    by_cases hb : s.Blocked j p
    · cases p with
      | addOrder o f =>
        obtain ⟨j', -, -, o', ho', -⟩ := hb
        obtain ⟨x, hx, ho'⟩ := Option.bind_eq_some_iff.1 ho'
        exact .inl ⟨j', h.inv.ready_of_insert hx ho'⟩
      | ret | raise | getByIdempotencyKey | getForUser | getOrder | getEvent | uuid4 | charge | rpc
      | setStatus | commit | publish => exact hb.elim
    · exact .inl ⟨j, ⟨call, p, σ, none, hj⟩, ready_of_free hj hb⟩
  | some t =>
    obtain ⟨F, hF⟩ := h.inv.request hj
    obtain ⟨c, k, x, rfl, hx, -⟩ := hF.waits rfl
    cases x with
    | done c' o => exact .inl ⟨j, ⟨call, _, σ, some t, hj⟩, ready_of_done hj hx⟩
    | running c' q k' => exact h.moving_of_tx ⟨q, k', hx⟩

/-! ## All requests end -/

/-- The rest of a request ends within `n` steps. While it waits for the inventory, the steps of the
call are no longer counted here. -/
def Within (settings : Settings) (n : ℕ) (p : ApiProg (Option Order)) : Option ℕ → Prop
  | none => p.EndsIn (Inventory.Call.operations settings) Inventory.Result.Short n
  | some _ => ∃ c f m, p = .rpc c f ∧ m + 1 ≤ n ∧ ∀ res : Inventory.Result, res.Short →
    (f res).EndsIn (Inventory.Call.operations settings) Inventory.Result.Short m

/-- Every request that runs ends within the steps that `left` gives it, and every transaction within
those that `txLeft` gives it. -/
structure Left (settings : Settings) (s : System) (left txLeft : ℕ → ℕ) : Prop where
  requests : ∀ {j : ℕ} {call p σ w}, s.requests[j]? = some (.running call p σ w) →
    Within settings (left j) p w
  txs : s.inventory.Left (fun _ => Inventory.Result.Short) txLeft

/-- The steps that requests and transactions have left. -/
def work (s : System) (left txLeft : ℕ → ℕ) : ℕ :=
  ∑ j ∈ Finset.range s.requests.length, left j +
    ∑ t ∈ Finset.range s.inventory.txs.length, txLeft t

theorem left_init (settings : Settings) : Left settings .init (fun _ => 0) (fun _ => 0) where
  requests := nofun
  txs := nofun

@[simp] theorem work_init (left txLeft : ℕ → ℕ) : work .init left txLeft = 0 := rfl

variable {left txLeft : ℕ → ℕ}

theorem Within.pos {w : Option ℕ} {n : ℕ} (h : Within settings n p w) : 0 < n := by
  cases w with
  | none => exact ApiProg.EndsIn.pos h
  | some t =>
    obtain ⟨c, f, m, -, hm, -⟩ := h
    omega

/-- The requests after a move of one of them that leaves it `n` steps. -/
theorem Left.put_requests (h : s.Left settings left txLeft) {x : Request} {n : ℕ}
    (hx : ∀ {call p σ w}, x = .running call p σ w → Within settings n p w) {j' : ℕ} {call p σ w}
    (hj : (s.requests.set j x)[j']? = some (.running call p σ w)) :
    Within settings (Function.update left j n j') p w := by
  rcases getElem?_set_inv hj with ⟨rfl, he⟩ | ⟨hne, hj⟩
  · rw [Function.update_self]
    exact hx he.symm
  · rw [Function.update_of_ne hne]
    exact h.requests hj

/-- A request that moves on its own uses up one of its steps. -/
theorem Left.move (h : s.Left settings left txLeft) {x y : Request} (hj : s.requests[j]? = some y)
    (hpos : 0 < left j) (hi : s'.inventory = s.inventory) (hreq : s'.requests = s.requests.set j x)
    (hx : ∀ {call p σ w}, x = .running call p σ w → Within settings (left j - 1) p w) :
    ∃ left' txLeft', s'.Left settings left' txLeft' ∧
      s'.work left' txLeft' + 1 ≤ s.work left txLeft := by
  refine ⟨Function.update left j (left j - 1), txLeft, ⟨fun hj' => ?_, ?_⟩, ?_⟩
  · rw [hreq] at hj'
    exact h.put_requests hx hj'
  · rw [hi]
    exact h.txs
  · have hsum := sum_update_add_le (v := left j - 1) (List.getElem?_eq_some_iff.1 hj).1
      (Nat.sub_add_cancel hpos).le
    rw [work, work, hi, hreq, List.length_set]
    omega

/-- **Every step uses up one** of those that have been brought. -/
theorem Left.step (h : s.Left settings left txLeft)
    (hb : s.inventory.Bounded (fun _ => Inventory.Result.Short)
      (Inventory.Call.operations settings))
    (hs : System.step settings s a = some s') :
    ∃ left' txLeft', s'.Left settings left' txLeft' ∧
      s'.work left' txLeft' + 1 ≤ s.work left txLeft + a.brings settings := by
  cases step_kind hs with
  | begin call =>
    refine ⟨Function.update left s.requests.length (call.steps settings), txLeft,
      ⟨fun hj => ?_, h.txs⟩, ?_⟩
    · rcases getElem?_append_singleton hj with hj | ⟨rfl, he⟩
      · rw [Function.update_of_ne (List.getElem?_eq_some_iff.1 hj).1.ne]
        exact h.requests hj
      · cases he
        rw [Function.update_self]
        exact call.body_endsIn settings
    · simp only [work, List.length_append, List.length_singleton, sum_update_succ,
        SystemAction.brings]
      omega
  | ret hj | raise hj | refused hj | fail hj => exact h.move hj (h.requests hj).pos rfl rfl nofun
  | «continue» hj _ hn =>
    refine h.move hj (h.requests hj).pos rfl rfl fun he => ?_
    cases he
    exact ApiProg.EndsIn.next (h.requests hj) hn
  | commit hj =>
    refine h.move hj (h.requests hj).pos rfl rfl fun he => ?_
    cases he
    exact ApiProg.EndsIn.commit (h.requests hj)
  | publish hj =>
    refine h.move hj (h.requests hj).pos rfl rfl fun he => ?_
    cases he
    exact ApiProg.EndsIn.publish (h.requests hj)
  | answered hj ht =>
    obtain ⟨c, f, m, he, hm, hf⟩ := h.requests hj
    cases he
    refine h.move hj (h.requests hj).pos rfl rfl fun he => ?_
    cases he
    exact (hf _ (hb.returned ht)).mono (by omega)
  | @call j inp call c k σ hj =>
    -- the steps that the call costs pass from the request to the transaction
    obtain ⟨m, hm, hf⟩ := ApiProg.EndsIn.rpc (h.requests hj)
    refine ⟨Function.update left j (m + 1), _, ⟨fun hj' => h.put_requests (fun he => ?_) hj',
      h.txs.begun (Inventory.Call.body_endsIn settings c)⟩, ?_⟩
    · cases he
      exact ⟨c, k, m, rfl, Nat.le_refl _, hf⟩
    · have hsum := sum_update_add_le (d := Inventory.Call.operations settings c + 1)
        (List.getElem?_eq_some_iff.1 hj).1 (show m + 1 + _ ≤ left j by omega)
      simp only [work, put, World.begun, List.length_set, List.length_append, List.length_singleton,
        sum_update_succ]
      omega
  | @inventory b w _ hw =>
    cases b with
    | begin c =>
      cases hw
      refine ⟨left, _, ⟨h.requests, h.txs.begun (Inventory.Call.body_endsIn settings c)⟩, ?_⟩
      simp only [work, List.length_append, List.length_singleton, sum_update_succ,
        SystemAction.brings]
      omega
    | advance t inp | abort t =>
      obtain ⟨txLeft', htxs, hlen, hsum⟩ := h.txs.step rfl hw
      refine ⟨left, txLeft', ⟨h.requests, htxs⟩, ?_⟩
      show ∑ j ∈ Finset.range s.requests.length, left j +
        ∑ t ∈ Finset.range w.txs.length, txLeft' t + 1 ≤ s.work left txLeft + 0
      rw [work, hlen]
      omega

/-- What has been brought bounds the steps of a run. -/
theorem Left.length_le {as : List SystemAction} (h : s.Left settings left txLeft)
    (hlive : s.Live settings) (hr : run (System.step settings) s as = some s') :
    as.length ≤ s.work left txLeft + brought settings as := by
  induction as generalizing s left txLeft with
  | nil => exact Nat.zero_le _
  | cons a as ih =>
    obtain ⟨s₁, hs, hr⟩ := run_cons.1 hr
    obtain ⟨left', txLeft', h', hle⟩ := h.step hlive.bounded hs
    have := ih h' (hlive.step hs) hr
    rw [List.length_cons, brought]
    omega

end

/-- **All requests end.** However requests, workers and the transactions of the inventory are
interleaved, a run has no more steps than what arrived in it has brought; and where nothing can move
any more, every request and every transaction has ended, or two sweeps hold rows at the same
time. -/
theorem requests_end (settings : Settings) (as : List SystemAction) (s : System)
    (hr : run (step settings) .init as = some s) :
    as.length ≤ brought settings as ∧
    ((∀ j inp, s.step settings (.advance j inp) = none) →
      (∀ t inp, s.step settings (.inventory (.advance t inp)) = none) →
      (∀ j, ¬ s.Running j) ∧ (∀ t c, ¬ s.inventory.Running t c) ∨
        Inventory.SweepsHold s.inventory) := by
  have hlive : s.Live settings := run_inv (fun h hs => h.step hs) hr (live_init settings)
  refine ⟨?_, fun hreq htx => ?_⟩
  · have hle := (left_init settings).length_le (live_init settings) hr
    rwa [work_init, Nat.zero_add] at hle
  · have hsweeps : s.Moving settings → Inventory.SweepsHold s.inventory := by
      rintro (⟨j, -, hready⟩ | ⟨t, c, -, hready⟩ | hsweeps)
      · obtain ⟨s', hs⟩ := hready ⟨⟨0, ⟨0⟩, .ascending⟩, none, false, ""⟩
        cases hs.symm.trans (hreq j _)
      · obtain ⟨s', hs⟩ := hready ⟨0, ⟨0⟩, .ascending⟩
        cases hs.symm.trans (htx t _)
      · exact hsweeps
    by_cases hrun : (∃ j, s.Running j) ∨ ∃ t c, s.inventory.Running t c
    · rcases hrun with ⟨j, hj⟩ | ⟨t, c, ht⟩
      · exact .inr (hsweeps (hlive.progress hj))
      · exact .inr (hsweeps (hlive.moving_of_tx ht))
    · simp only [not_or, not_exists] at hrun
      exact .inl hrun

/-- Two bookings with one idempotency key. Both look it up in vain and reserve a seat; one of them
inserts its order while the other has reached its own insert. -/
def racingForKey : List SystemAction :=
  [.inventory (.begin (.initializeInventory ⟨1⟩ 2))] ++ inventoryAdvances 0 4 ++
  [.begin (.bookTickets ⟨2⟩ ⟨1⟩ 1 (some "k")), .begin (.bookTickets ⟨2⟩ ⟨1⟩ 1 (some "k"))] ++
  advances 0 4 ++ advances 1 4 ++ inventoryAdvances 1 7 ++ inventoryAdvances 2 7 ++ advances 0 2 ++
  advances 1 1

/-- The second insert waits for the first. -/
example : (run (step .default) .init racingForKey).any
    (fun s => (run (step .default) s (advances 1 1)).isNone) = true := by decide +kernel

/-- Once the first booking has committed, both come to their end. -/
theorem racingForKey_ends : ∃ s,
    run (step .default) .init (racingForKey ++ advances 0 3 ++ advances 1 1) = some s ∧
    (∀ j, ¬ s.Running j) ∧ ∀ t c, ¬ s.inventory.Running t c := by
  obtain ⟨s, hs, hreq, htx⟩ : ∃ s,
      run (step .default) .init (racingForKey ++ advances 0 3 ++ advances 1 1) = some s ∧
      (∀ x ∈ s.requests, x.ended = true) ∧
      ∀ t < s.inventory.txs.length, Inventory.runningCall s.inventory t = none :=
    exists_of_run (by decide +kernel)
  have hended : ∀ t c, ¬ s.inventory.Running t c := by
    intro t c ht
    obtain ⟨p, k, hx⟩ := id ht
    cases (htx t (List.getElem?_eq_some_iff.1 hx).1).symm.trans (Inventory.runningCall_eq_some.2 ht)
  have hreqs : ∀ j inp, s.step .default (.advance j inp) = none := by
    intro j inp
    cases hx : s.requests[j]? with
    | none => simp only [step, hx]
    | some x =>
      cases x with
      | done call o => simp only [step, hx]
      | running call p σ w => cases hreq _ (List.mem_of_getElem? hx)
  have htxs : ∀ t inp, s.step .default (.inventory (.advance t inp)) = none := by
    intro t inp
    cases hx : s.inventory.txs[t]? with
    | none => simp [step, Inventory.step, World.step, hx]
    | some x =>
      cases x with
      | done c o => simp [step, Inventory.step, World.step, hx]
      | running c p k => exact absurd ⟨p, k, hx⟩ (hended t c)
  rcases (requests_end .default _ s hs).2 hreqs htxs with h | ⟨t₁, -, -, h1, -⟩
  · exact ⟨s, hs, h⟩
  · exact absurd h1 (hended t₁ _)

end System

end EventSphere.Api
