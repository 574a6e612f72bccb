import EventSphere.Api.Coherence

/-!
# What an error response means

No handler catches an exception: it becomes the response of a request (`main.py:91`), or makes the
consumer skip the commit of a message. A caller that gets an error repeats its request, so what
counts is what the failed one has left behind. `raised_quiet` is about the exceptions that the
services raise themselves, all of them before the commit (`ApiError`): a request that ended with one
has committed no order and published nothing, at any point of any run. `client_error_harmless` shows
that one that ended with a status below 500 has not changed the inventory either, by any of the
transactions it has begun. With a status of 500 a booking may leave a reservation behind; and one
whose publish fails after its commit, which is a failure from outside (`SystemAction.fail`), leaves
its order as well.
-/

namespace EventSphere.Api

open Inventory (Settings)

/-- Reference: `_ERROR_STATUS_MAP` (`main.py:32`). The base class has no entry. -/
def errorStatusMap : DomainError → Option ℕ
  | .notFound _ => some 404
  | .validation _ => some 422
  | .authentication _ => some 401
  | .authorization _ => some 403
  | .capacityExceeded _ => some 409
  | .conflict _ => some 409
  | .other _ => none

/-- The status of the response to a request that ended with an exception. Reference: `_make_handler`
(`main.py:91`); an exception without a handler is an internal server error. -/
def ApiError.statusCode : ApiError → ℕ
  | .domain e => (errorStatusMap e).getD 500
  | .integrity | .dataError | .multipleResults | .keyError _ => 500

/-- Only domain errors are reported as errors of the client. -/
theorem ApiError.domain_of_statusCode {e : ApiError} (h : e.statusCode < 500) :
    ∃ d, e = .domain d := by
  cases e with
  | domain d => exact ⟨d, rfl⟩
  | integrity | dataError | multipleResults | keyError => exact absurd h (Nat.lt_irrefl 500)

/-! ## Cautious programs -/

/-- The result answers the call. -/
def Fitting (c : Inventory.Call) (res : Inventory.Result) : Prop :=
  ∀ e o q, c = .reserveSeats e o q → ∃ r, res = .reservation r

namespace ApiProg

/-- The program only publishes from here on. -/
def Calm {α : Type} : ApiProg α → Prop
  | ret _ => True
  | publish _ f => Calm f
  | raise _ | getByIdempotencyKey .. | getForUser .. | getOrder .. | getEvent .. | uuid4 _
  | charge .. | rpc .. | addOrder .. | setStatus .. | commit _ => False

/-- The program asks the inventory at most once, raises no domain error after the inventory has
answered (`asked`), and only publishes once it has committed or published. -/
def Cautious {α : Type} (asked : Bool) : ApiProg α → Prop
  | ret _ => True
  | raise e => asked = true → ∀ d, e ≠ .domain d
  | getByIdempotencyKey _ _ f | getForUser _ _ f | getOrder _ f => ∀ o, Cautious asked (f o)
  | getEvent _ f => ∀ e, Cautious asked (f e)
  | uuid4 f => ∀ i, Cautious asked (f i)
  | charge _ _ f => ∀ paid ref, Cautious asked (f paid ref)
  | rpc c f => asked = false ∧ ∀ res, Fitting c res → Cautious true (f res)
  | addOrder _ f | setStatus _ _ f => Cautious asked f
  | commit f | publish _ f => Calm f

/-- A program that only publishes is cautious. -/
theorem Calm.cautious {α : Type} {p : ApiProg α} (h : p.Calm) (asked : Bool) :
    p.Cautious asked := by
  cases p with
  | ret => trivial
  | publish m f => exact h
  | raise | getByIdempotencyKey | getForUser | getOrder | getEvent | uuid4 | charge | rpc | addOrder
  | setStatus | commit => cases h

/-- The rest of a cautious program is cautious. -/
theorem Cautious.continue {α : Type} {asked : Bool} {orders : Table Order} {inp : ApiInput}
    {p p' : ApiProg α} {σ σ' : ApiSession} (h : p.Cautious asked)
    (hn : p.next orders inp σ = .continue p' σ') : p'.Cautious asked := by
  cases p with
  | getByIdempotencyKey user key f =>
    simp only [next] at hn
    split at hn
    · cases hn
    · cases hn; exact h _
    · cases hn; exact h _
  | addOrder o f =>
    simp only [next] at hn
    split at hn
    · cases hn
    · cases hn; exact h
  | setStatus o st f => cases hn; exact h
  | getForUser i user f | getOrder i f | getEvent i f | uuid4 f => cases hn; exact h _
  | charge i amount f => cases hn; exact h _ _
  | ret | raise | rpc | commit | publish => cases hn

/-- A program whose next operation raises a domain error has not been answered by the inventory: the
other operations raise other errors. -/
theorem Cautious.raise {α : Type} {asked : Bool} {orders : Table Order} {inp : ApiInput}
    {p : ApiProg α} {σ : ApiSession} {d : DomainError} (h : p.Cautious asked)
    (hn : p.next orders inp σ = .raise (.domain d)) : asked = false := by
  cases p with
  | raise e =>
    cases hn
    exact Bool.eq_false_iff.2 fun ha => h ha d rfl
  | getByIdempotencyKey user key f =>
    simp only [next] at hn
    split at hn
    · next herr =>
      cases hn
      unfold scalarOneOrNone at herr
      split at herr <;> cases herr
    · cases hn
    · cases hn
  | addOrder o f =>
    simp only [next] at hn
    split at hn
    · next herr =>
      cases hn
      unfold insertError at herr
      split at herr
      · cases herr
      · split at herr <;> cases herr
    · cases hn
  | ret | getForUser | getOrder | getEvent | uuid4 | charge | rpc | setStatus | commit | publish =>
    cases hn

end ApiProg

/-! ## The handlers -/

/-- The part of `book_tickets` after the lookup. -/
theorem bookNewOrder_cautious (user eventId : UUID) (quantity : ℤ)
    (idempotencyKey : Option String) :
    (do return some (← bookNewOrder user eventId quantity idempotencyKey) :
      ApiProg (Option Order)).Cautious false := by
  unfold bookNewOrder reserveSeats
  intro event
  cases event with
  | none => exact nofun
  | some event =>
    refine fun i => ⟨rfl, fun res hres => ?_⟩
    obtain ⟨r, rfl⟩ := hres _ _ _ rfl
    trivial

/-- `book_tickets`. -/
theorem bookTickets_cautious (user eventId : UUID) (quantity : ℤ) (idempotencyKey : Option String) :
    (ApiCall.bookTickets user eventId quantity idempotencyKey).body.Cautious false := by
  unfold ApiCall.body bookTickets
  cases idempotencyKey with
  | none => exact bookNewOrder_cautious _ _ _ _
  | some k =>
    dsimp only
    split
    · exact bookNewOrder_cautious _ _ _ _
    · intro o
      cases o with
      | none => exact bookNewOrder_cautious _ _ _ _
      | some o => trivial

/-- `cancel_order`. -/
theorem cancelOrder_cautious (orderId user : UUID) :
    (ApiCall.cancelOrder orderId user).body.Cautious false := by
  unfold ApiCall.body cancelOrder
  simp only [ApiProg.getForUser_bind, ApiProg.ret_bind]
  intro o
  cases o with
  | none => exact nofun
  | some o =>
    dsimp only
    split
    · exact nofun
    · split
      · exact nofun
      · exact ⟨rfl, fun _ _ => trivial⟩

/-- `_handle_payment_processed`. -/
theorem handlePaymentProcessed_cautious (orderId : UUID) (success : Bool) :
    (do handlePaymentProcessed orderId success; return none :
      ApiProg (Option Order)).Cautious false := by
  unfold handlePaymentProcessed
  simp only [ApiProg.getOrder_bind, ApiProg.ret_bind]
  intro o
  cases o with
  | none => trivial
  | some o =>
    dsimp only
    split
    · trivial
    · split
      · exact ⟨rfl, fun _ _ => trivial⟩
      · exact ⟨rfl, fun _ _ => trivial⟩

/-- `_handle_reservation_expired`. -/
theorem handleReservationExpired_cautious (orderId : UUID) :
    (do handleReservationExpired orderId; return none : ApiProg (Option Order)).Cautious false := by
  unfold handleReservationExpired
  simp only [ApiProg.getOrder_bind, ApiProg.ret_bind]
  intro o
  cases o with
  | none => trivial
  | some o =>
    dsimp only
    split <;> trivial

/-- The messages of the reaper. -/
theorem publishExpired_calm (rs : List Inventory.Reservation) :
    (do publishExpired rs; return none : ApiProg (Option Order)).Calm := by
  induction rs with
  | nil => trivial
  | cons r rs ih => exact ih

/-- **Every handler is cautious.** -/
theorem ApiCall.body_cautious (call : ApiCall) : call.body.Cautious false := by
  cases call with
  | bookTickets user eventId quantity key => exact bookTickets_cautious _ _ _ _
  | cancelOrder orderId user => exact cancelOrder_cautious _ _
  | orderStatusWorker m =>
    cases m with
    | paymentProcessed => exact handlePaymentProcessed_cautious _ _
    | reservationExpired => exact handleReservationExpired_cautious _
    | orderCreated | ticketIssued | orderCancelled => trivial
  | paymentWorker m =>
    cases m with
    | orderCreated => exact fun _ _ => trivial
    | paymentProcessed | ticketIssued | orderCancelled | reservationExpired => exact nofun
  | reservationReaper =>
    refine ⟨rfl, fun res _ => ?_⟩
    cases res with
    | reservations rs => exact (publishExpired_calm rs).cautious true
    | inventory | reservation => trivial

/-! ## The interleaved system -/

/-- The request only publishes from here on, or has ended without an exception. -/
def Request.Calm : Request → Prop
  | running _ p _ _ => p.Calm
  | done _ o => ∀ e, o ≠ .raised e

namespace System

/-- The step changes no order, no message and none of the tables of the inventory. -/
def LeavesAlone (settings : Settings) (s : System) (a : SystemAction) : Prop :=
  ∀ s', s.step settings a = some s' →
    s'.orders = s.orders ∧ s'.published = s.published ∧ s'.inventory.db = s.inventory.db

/-- Request `j` has acted: it has nothing left to do that can fail. -/
def Acted (s : System) (j : ℕ) : Prop := ∃ x, s.requests[j]? = some x ∧ x.Calm

/-- The invariant that carries the results on errors. `refused` is about a request that has ended
with a domain error: none of the transactions that it has begun has returned. -/
structure Careful (settings : Settings) (s : System) : Prop where
  inv : s.Inv settings fun _ => True
  request : ∀ {j : ℕ} {call p σ w}, s.requests[j]? = some (.running call p σ w) →
    ∃ asked, p.Cautious asked ∧ (asked = false → ∀ {t}, (j, t) ∈ s.rpcs → w = some t)
  refused : ∀ {j : ℕ} {call d}, s.requests[j]? = some (.done call (.raised (.domain d))) →
    ∀ {t}, (j, t) ∈ s.rpcs → ∃ c o, s.inventory.txs[t]? = some (.done c o) ∧
      ∀ res, o ≠ .returned res

theorem careful_init (settings : Settings) : Careful settings .init where
  inv := inv_init settings _
  request := nofun
  refused := nofun

section
variable {settings : Settings} {s s' : System} {a : SystemAction} {j : ℕ}

/-- The inventory answers a call as it should. -/
theorem Inv.fitting {E : ApiCall → Prop} (h : s.Inv settings E) {c : Inventory.Call}
    {res : Inventory.Result} {t : ℕ} (ht : s.inventory.txs[t]? = some (.done c (.returned res))) :
    Fitting c res := by
  rintro e o q rfl
  obtain ⟨r, hr, -⟩ := h.inventory.returned ht
  exact ⟨r, hr⟩

/-- A request keeps its invariant while others move. -/
theorem Careful.keep (h : s.Careful settings) (hinv : s'.Inv settings fun _ => True)
    (hext : s.Extends s') {x y : Request} {j : ℕ} (hj : s.requests[j]? = some y)
    (hreq : s'.requests = s.requests.set j x)
    (hrpcs : ∀ {j' t}, j' ≠ j → (j', t) ∈ s'.rpcs → (j', t) ∈ s.rpcs)
    (hrun : ∀ {call p σ w}, x = .running call p σ w →
      ∃ asked, p.Cautious asked ∧ (asked = false → ∀ {t}, (j, t) ∈ s'.rpcs → w = some t))
    (hdone : ∀ {call d}, x = .done call (.raised (.domain d)) → ∀ {t}, (j, t) ∈ s'.rpcs →
      ∃ c o, s.inventory.txs[t]? = some (.done c o) ∧ ∀ res, o ≠ .returned res) :
    s'.Careful settings where
  inv := hinv
  request {j' call p σ w} hj' := by
    rw [hreq] at hj'
    rcases getElem?_set_inv hj' with ⟨rfl, he⟩ | ⟨hne, hj'⟩
    · exact hrun he.symm
    · obtain ⟨asked, hp, hw⟩ := h.request hj'
      exact ⟨asked, hp, fun ha _ ht => hw ha (hrpcs hne ht)⟩
  refused {j' call d} hj' t ht := by
    rw [hreq] at hj'
    rcases getElem?_set_inv hj' with ⟨rfl, he⟩ | ⟨hne, hj'⟩
    · obtain ⟨c, o, htx, ho⟩ := hdone he.symm ht
      exact ⟨c, o, hext.ended htx, ho⟩
    · obtain ⟨c, o, htx, ho⟩ := h.refused hj' (hrpcs hne ht)
      exact ⟨c, o, hext.ended htx, ho⟩

/-- **One step keeps the invariant.** -/
theorem Careful.step (h : s.Careful settings) (hs : System.step settings s a = some s') :
    s'.Careful settings := by
  have hinv := h.inv.step hs fun _ _ _ _ _ _ _ _ _ => trivial
  have hext := h.inv.extends hs
  cases step_kind hs with
  | begin call =>
    refine ⟨hinv, fun {j' call' p σ w} hj' => ?_, fun {j' call' d} hj' t ht => ?_⟩
    · rcases getElem?_append_singleton hj' with hj' | ⟨rfl, he⟩
      · exact h.request hj'
      · cases he
        refine ⟨false, call.body_cautious, fun _ t ht => ?_⟩
        exact absurd (h.inv.rpcs ht) (Nat.lt_irrefl _)
    · rcases getElem?_append_singleton hj' with hj' | ⟨-, he⟩
      · exact h.refused hj' ht
      · cases he
  | ret hj | fail hj => exact h.keep hinv hext hj rfl (fun _ ht => ht) nofun nofun
  | raise hj hn =>
    refine h.keep hinv hext hj rfl (fun _ ht => ht) nofun fun he t ht => ?_
    cases he
    obtain ⟨asked, hp, hw⟩ := h.request hj
    cases hw (hp.raise hn) ht
  | «continue» hj _ hn =>
    refine h.keep hinv hext hj rfl (fun _ ht => ht) (fun he => ?_) nofun
    cases he
    obtain ⟨asked, hp, hw⟩ := h.request hj
    exact ⟨asked, hp.continue hn, hw⟩
  | call hj =>
    refine h.keep hinv hext hj rfl (fun hne ht => ?_) (fun he => ?_) nofun
    · rcases List.mem_append.1 ht with ht | ht
      · exact ht
      · cases List.mem_singleton.1 ht
        exact absurd rfl hne
    · cases he
      obtain ⟨asked, hp, hw⟩ := h.request hj
      refine ⟨asked, hp, fun ha t ht => ?_⟩
      rcases List.mem_append.1 ht with ht | ht
      · cases hw ha ht
      · cases List.mem_singleton.1 ht
        rfl
  | commit hj =>
    refine h.keep hinv hext hj rfl (fun _ ht => ht) (fun he => ?_) nofun
    cases he
    obtain ⟨asked, hp, hw⟩ := h.request hj
    exact ⟨true, ApiProg.Calm.cautious hp true, nofun⟩
  | publish hj =>
    refine h.keep hinv hext hj rfl (fun _ ht => ht) (fun he => ?_) nofun
    cases he
    obtain ⟨asked, hp, hw⟩ := h.request hj
    exact ⟨true, ApiProg.Calm.cautious hp true, nofun⟩
  | @answered _ inp call c c' k σ t res hj ht =>
    refine h.keep hinv hext hj rfl (fun _ ht => ht) (fun he => ?_) nofun
    cases he
    obtain ⟨asked, hp, hw⟩ := h.request hj
    obtain ⟨F, hreq⟩ := h.inv.request hj
    obtain ⟨c'', k', x, hp', hx, hc⟩ := hreq.waits rfl
    cases hp'
    cases ht.symm.trans hx
    cases hc
    exact ⟨true, hp.2 res (h.inv.fitting ht), nofun⟩
  | @refused _ inp call c c' k σ t o e hj ht ho =>
    refine h.keep hinv hext hj rfl (fun _ ht => ht) nofun fun he t' ht' => ?_
    cases he
    obtain ⟨asked, hp, hw⟩ := h.request hj
    -- the transaction that has just failed is the only one
    cases hw hp.1 ht'
    refine ⟨c', o, ht, ?_⟩
    rintro res rfl
    cases ho
  | inventory ha hw =>
    refine ⟨hinv, h.request, fun hj t ht => ?_⟩
    obtain ⟨c, o, htx, ho⟩ := h.refused hj ht
    exact ⟨c, o, hext.ended htx, ho⟩

/-- A request that has acted cannot fail any more. -/
theorem Acted.step (h : s.Acted j) (hs : System.step settings s a = some s') : s'.Acted j := by
  obtain ⟨x, hx, hcalm⟩ := h
  -- the moving request is another one, or goes on publishing
  have hmove : ∀ {j' : ℕ} {r r' : Request}, s.requests[j']? = some r →
      s'.requests = s.requests.set j' r' → (r.Calm → r'.Calm) → s'.Acted j := by
    intro j' r r' hj' hreq hr
    have hget : (s.requests.set j' r')[j]? = if j = j' then some r' else s.requests[j]? :=
      getElem?_set_of_getElem? hj'
    rw [Acted, hreq]
    split at hget
    · next he =>
      subst he
      cases hx.symm.trans hj'
      exact ⟨r', hget, hr hcalm⟩
    · exact ⟨x, hget.trans hx, hcalm⟩
  cases step_kind hs with
  | begin =>
    refine ⟨x, ?_, hcalm⟩
    rw [List.getElem?_append_left (List.getElem?_eq_some_iff.1 hx).1]
    exact hx
  | ret hj | fail hj => exact hmove hj rfl fun _ => nofun
  | @raise _ inp call p σ e hj hn =>
    refine hmove hj rfl fun hp => ?_
    cases p with
    | ret | publish => cases hn
    | _ => cases hp
  | @«continue» _ inp call p p' σ σ' hj _ hn =>
    refine hmove hj rfl fun hp => ?_
    cases p with
    | ret | publish => cases hn
    | _ => cases hp
  | publish hj => exact hmove hj rfl fun hp => hp
  | call hj | commit hj | answered hj | refused hj => exact hmove hj rfl fun hp => hp.elim
  | inventory => exact ⟨x, hx, hcalm⟩

/-- **A request that changes something has acted.** -/
theorem Careful.acted (h : s.Careful settings) {inp : ApiInput}
    (hs : System.step settings s (.advance j inp) = some s')
    (hne : ¬ LeavesAlone settings s (.advance j inp)) : s'.Acted j := by
  have hsame : ¬ (s'.orders = s.orders ∧ s'.published = s.published ∧
      s'.inventory.db = s.inventory.db) := fun he => hne fun s'' hs'' => by
    cases hs.symm.trans hs''
    exact he
  have hput : ∀ {r r' : Request}, s.requests[j]? = some r → s'.requests = s.requests.set j r' →
      r'.Calm → s'.Acted j := fun {r r'} hj hreq hr => by
    refine ⟨r', ?_, hr⟩
    rw [hreq, List.getElem?_set_self (List.getElem?_eq_some_iff.1 hj).1]
  cases step_kind hs with
  | ret | raise | «continue» | call | answered | refused => exact absurd ⟨rfl, rfl, rfl⟩ hsame
  | commit hj =>
    obtain ⟨asked, hp, -⟩ := h.request hj
    exact hput hj rfl hp
  | publish hj =>
    obtain ⟨asked, hp, -⟩ := h.request hj
    exact hput hj rfl hp

/-- Transaction `t` of the inventory has returned. -/
def Returned (s : System) (t : ℕ) : Prop :=
  ∃ c res, s.inventory.txs[t]? = some (.done c (.returned res))

/-- An inventory transaction that changes something has returned. -/
theorem Inv.returned {E : ApiCall → Prop} (h : s.Inv settings E) {t : ℕ} {inp : Input UUID}
    (hs : System.step settings s (.inventory (.advance t inp)) = some s')
    (hne : ¬ LeavesAlone settings s (.inventory (.advance t inp))) : s'.Returned t := by
  cases step_kind hs with
  | inventory _ hw =>
    rcases h.inventory.coherent.step_db hw with hdb | ⟨t', inp', call, res, k, ha, ht, -, htxs⟩
    · refine absurd (fun s'' hs'' => ?_) hne
      cases hs.symm.trans hs''
      exact ⟨rfl, rfl, hdb⟩
    · cases ha
      refine ⟨call, res, ?_⟩
      dsimp only
      rw [htxs, List.getElem?_set_self (List.getElem?_eq_some_iff.1 ht).1]

end

/-- The action is a step of request `j`, or of an inventory transaction that it begins in a run that
ends in `s`. -/
def StepOf (s : System) (j : ℕ) : SystemAction → Prop
  | .advance j' _ => j' = j
  | .inventory (.advance t _) => (j, t) ∈ s.rpcs
  | .begin _ | .fail _ | .inventory (.begin _) | .inventory (.abort _) => False

/-- **An exception of the program leaves no order and no message behind.** In every run of the
interleaved system, no step of a request that ends with an `ApiError` has changed the committed
orders or the published messages. A failure from outside, such as a publish that fails after the
commit, is none of these. -/
theorem raised_quiet (settings : Settings) (as : List SystemAction) (s : System) (j : ℕ)
    (call : ApiCall) (e : ApiError) (hr : run (step settings) .init as = some s)
    (hj : s.requests[j]? = some (.done call (.raised e))) :
    Along (step settings) (fun s a => ∀ inp, a = .advance j inp → LeavesAlone settings s a) .init
      as := by
  refine along_of_unmarked (I := Careful settings) (B := (Acted · j)) (fun h hs => h.step hs)
    (fun _ h hs => h.step hs) (fun h hs hn => ?_) hr (careful_init settings) ?_
  · obtain ⟨inp, hn⟩ := not_forall.1 hn
    obtain ⟨rfl, hne⟩ := Classical.not_imp.1 hn
    exact h.acted hs hne
  · rintro ⟨x, hx, hcalm⟩
    cases hj.symm.trans hx
    exact hcalm e rfl

/-- The call of request `j`, and what it has ended with. -/
def endOf (s : System) (j : ℕ) : Option (ApiCall × Outcome ApiError (Option Order)) :=
  match s.requests[j]? with
  | some (.done call o) => some (call, o)
  | _ => none

theorem endOf_eq_some {s : System} {j : ℕ} {call : ApiCall} {o : Outcome ApiError (Option Order)} :
    s.endOf j = some (call, o) ↔ s.requests[j]? = some (.done call o) := by
  unfold endOf
  split
  · next hj => rw [hj, Option.some.injEq, Option.some.injEq, Prod.mk.injEq, Request.done.injEq]
  · next hne => exact ⟨nofun, fun h => absurd h (hne call o)⟩

/-- An event is deleted after a booking has reserved a seat of it. -/
def eventDeleted : List SystemAction :=
  [.inventory (.begin (.initializeInventory ⟨1⟩ 1))] ++ inventoryAdvances 0 4 ++
  [.begin (.bookTickets ⟨2⟩ ⟨1⟩ 1 none)] ++ advances 0 3 ++ inventoryAdvances 1 7 ++ advances 0 1 ++
  [.advance 0 ⟨⟨0, ⟨3⟩, .ascending⟩, none, true, ""⟩]

theorem eventDeleted_raised : ∃ s, run (step .default) .init eventDeleted = some s ∧
    s.endOf 0 = some (.bookTickets ⟨2⟩ ⟨1⟩ 1 none, .raised .integrity) ∧
    (s.inventory.db.versioned.get ⟨1⟩).any (·.reservedCount = 1) :=
  exists_of_run (by decide +kernel)

/-- The insert fails, which leaves no order and no message, but the reservation. -/
theorem eventDeleted_quiet : ∃ s, run (step .default) .init eventDeleted = some s ∧
    (s.inventory.db.versioned.get ⟨1⟩).any (·.reservedCount = 1) ∧
    Along (step .default) (fun s a => ∀ inp, a = .advance 0 inp → LeavesAlone .default s a) .init
      eventDeleted := by
  obtain ⟨s, hr, hj, hseats⟩ := eventDeleted_raised
  exact ⟨s, hr, hseats, raised_quiet .default _ s 0 _ .integrity hr (endOf_eq_some.1 hj)⟩

/-- **An error below 500 leaves nothing behind.** In every run of the interleaved system, no step of
a request that ends with an exception which is answered by a status below 500, and no step of an
inventory transaction that it has begun, has changed the committed orders, the published messages or
the tables of the inventory. -/
theorem client_error_harmless (settings : Settings) (as : List SystemAction) (s : System) (j : ℕ)
    (call : ApiCall) (e : ApiError) (hr : run (step settings) .init as = some s)
    (hj : s.requests[j]? = some (.done call (.raised e))) (he : e.statusCode < 500) :
    Along (step settings) (fun s₀ a => s.StepOf j a → LeavesAlone settings s₀ a) .init as := by
  obtain ⟨d, rfl⟩ := ApiError.domain_of_statusCode he
  have hend := run_inv (I := Careful settings) (fun h hs => h.step hs) hr (careful_init settings)
  refine along_of_unmarked (I := Careful settings)
    (B := fun s₀ => s₀.Acted j ∨ ∃ t, (j, t) ∈ s.rpcs ∧ s₀.Returned t) (fun h hs => h.step hs)
    (fun h hB hs => ?_) (fun {s₀ a s₁} h hs hn => ?_) hr (careful_init settings) ?_
  · rcases hB with hacted | ⟨t, ht, c, res, hret⟩
    · exact .inl (hacted.step hs)
    · exact .inr ⟨t, ht, c, res, (h.inv.extends hs).ended hret⟩
  · obtain ⟨hof, hne⟩ := Classical.not_imp.1 hn
    cases a with
    | advance j' inp =>
      cases hof
      exact .inl (h.acted hs hne)
    | inventory b =>
      cases b with
      | advance t inp => exact .inr ⟨t, hof, h.inv.returned hs hne⟩
      | begin | abort => cases hof
    | begin | fail => cases hof
  · rintro (⟨x, hx, hcalm⟩ | ⟨t, ht, c, res, hret⟩)
    · cases hj.symm.trans hx
      exact hcalm _ rfl
    · obtain ⟨c', o, htx, ho⟩ := hend.refused hj ht
      cases hret.symm.trans htx
      exact ho res rfl

/-- The last seat is booked by somebody else. -/
def soldOut : List SystemAction :=
  paidOrder ++ [.begin (.bookTickets ⟨5⟩ ⟨1⟩ 1 none)] ++ advances 2 3 ++ inventoryAdvances 2 2 ++
  advances 2 1

theorem soldOut_raised : ∃ s, run (step .default) .init soldOut = some s ∧
    s.endOf 2 = some (.bookTickets ⟨5⟩ ⟨1⟩ 1 none, .raised (.domain (.capacityExceeded
      "Only 0 seat(s) left for event 00000000-0000-0000-0000-000000000001, requested 1"))) ∧
    (2, 2) ∈ s.rpcs :=
  exists_of_run (by decide +kernel)

/-- The booking that comes too late leaves nothing behind. -/
theorem soldOut_harmless : ∃ s, run (step .default) .init soldOut = some s ∧ (2, 2) ∈ s.rpcs ∧
    Along (step .default) (fun s₀ a => s.StepOf 2 a → LeavesAlone .default s₀ a) .init soldOut := by
  obtain ⟨s, hr, hj, hrpc⟩ := soldOut_raised
  exact ⟨s, hr, hrpc, client_error_harmless .default _ s 2 _ _ hr (endOf_eq_some.1 hj) (by decide)⟩

end System

end EventSphere.Api
