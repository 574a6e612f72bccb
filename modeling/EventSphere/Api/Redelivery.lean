import EventSphere.Api.Causality
import EventSphere.Api.ErrorResponses

/-!
# Messages that are delivered again

The consumer of the order status worker (`services/shared/kafka/consumer.py`) delivers every message
at least once, so its handlers are written to be safe to run twice: they look at the status of the
order first. `redelivery_harmless` says how far this goes, whatever else is interleaved with it:
once one payment result of an order has been handled, the same message again, another payment result
of the order or the expiry of its reservation changes nothing, asks the inventory for nothing and
raises nothing of its own. A handler that has returned has settled its order (`ApiProg.Settles`),
and an order that is settled stays so.
-/

namespace EventSphere.Api

open Inventory (Settings)

/-- The order that the order status worker looks up for a message. -/
def Message.order : Message → Option UUID
  | .paymentProcessed i _ _ | .reservationExpired _ i _ => some i
  | .orderCreated .. | .ticketIssued .. | .orderCancelled .. => none

namespace Request

/-- The request handles a payment result of the order. -/
def Pays (i : UUID) (x : Request) : Prop :=
  ∃ success ref, x.call = .orderStatusWorker (.paymentProcessed i success ref)

/-- The request is the order status worker with a message about the order. -/
def Handles (i : UUID) (x : Request) : Prop := ∃ m, x.call = .orderStatusWorker m ∧ m.order = some i

theorem Pays.handles {i : UUID} {x : Request} (h : x.Pays i) : x.Handles i := by
  obtain ⟨success, ref, hcall⟩ := h
  exact ⟨_, hcall, rfl⟩

end Request

/-! ## A handler that returns has settled its order -/

namespace ApiProg

/-- The program returns only after a commit that settles the order, if the order is there and
pending when it is looked up. -/
def Settles (i : UUID) : ApiProg (Option Order) → ApiSession → Prop
  | getOrder i' f, σ => i' = i ∧ σ.Clean ∧
    ∀ o, o.id = i → o.status = .pending → Settles i (f (some o)) σ
  | rpc _ f, σ => ∀ res, Settles i (f res) σ
  | setStatus o st f, σ => Settles i f { σ with status := some (o, st) }
  | commit _, σ => ∃ o st, σ.status = some (o, st) ∧ o.id = i ∧ st ≠ .pending
  | raise _, _ => True
  | _, _ => False

end ApiProg

/-- `_handle_payment_processed`. -/
theorem handlePaymentProcessed_settles (i : UUID) (success : Bool) :
    (do handlePaymentProcessed i success
        return none : ApiProg (Option Order)).Settles i .empty := by
  unfold handlePaymentProcessed
  simp only [ApiProg.getOrder_bind, ApiProg.ret_bind]
  refine ⟨rfl, ⟨rfl, rfl⟩, fun o hi hs => ?_⟩
  dsimp only
  rw [if_neg (not_not.2 hs)]
  cases success with
  | true => exact fun res => ⟨o, .confirmed, rfl, hi, nofun⟩
  | false => exact fun res => ⟨o, .cancelled, rfl, hi, nofun⟩

/-- The handler of a message about an order looks the order up and leaves it alone if it is not
pending. -/
theorem orderStatusWorker_skips {m : Message} {i : UUID} (hm : m.order = some i) :
    ∃ f, (ApiCall.orderStatusWorker m).body = .getOrder i f ∧
      ∀ o, o.status ≠ .pending → f (some o) = .ret none := by
  cases m with
  | paymentProcessed i' success ref =>
    cases hm
    refine ⟨_, rfl, fun o ho => ?_⟩
    show (ite (o.status ≠ .pending) _ _ : ApiProg Unit) >>= (fun _ => .ret none) = .ret none
    rw [if_pos ho]
    rfl
  | reservationExpired r i' e =>
    cases hm
    refine ⟨_, rfl, fun o ho => ?_⟩
    show (ite (o.status ≠ .pending) _ _ : ApiProg Unit) >>= (fun _ => .ret none) = .ret none
    rw [if_pos ho]
    rfl
  | orderCreated | ticketIssued | orderCancelled => cases hm

/-- The rest of a request only returns after it has settled the order, or it has failed. -/
def Request.Settles (i : UUID) : Request → Prop
  | running _ p σ _ => p.Settles i σ
  | done _ o => ∀ a, o ≠ .returned a

/-- The request has still to look the order up, or has found that there is nothing to do. -/
def Request.Skips : Request → Prop
  | running call p σ w => w = none ∧ σ = .empty ∧ (p = call.body ∨ p = .ret none)
  | done _ o => ∀ e, o ≠ .raised e

namespace System

/-- The order is not pending any more. -/
def Settled (s : System) (i : UUID) : Prop := ∃ o, s.orders.get i = some o ∧ o.status ≠ .pending

section
variable {settings : Settings} {s s' : System} {a : SystemAction} {i : UUID} {n : ℕ}

/-- **What is settled stays settled.** -/
theorem Extends.settled (hext : s.Extends s') (h : s.Settled i) : s'.Settled i := by
  obtain ⟨o, ho, hne⟩ := h
  obtain ⟨o', ho', hsucc⟩ := hext.orders ho
  exact ⟨o', ho', fun hp => hne (hsucc.pending hp)⟩

/-- The order of a payment result that a worker has been handed is committed. -/
theorem Truthful.order_of_pays (h : s.Truthful settings) {x : Request} (hx : x ∈ s.requests)
    (hpays : x.Pays i) : ∃ o, s.orders.get i = some o := by
  obtain ⟨success, ref, hcall⟩ := hpays
  have hmem : .paymentProcessed i success ref ∈ s.published :=
    h.handed x hx _ (by rw [hcall]; rfl)
  obtain ⟨before, after, hm⟩ := List.append_of_mem hmem
  obtain ⟨e, u, q, t, r, hcreated⟩ := h.genuine hm
  obtain ⟨b, b', rfl⟩ := List.append_of_mem hcreated
  obtain ⟨o, ho, -, -⟩ : s.Genuine b (.orderCreated i e u q t r) :=
    h.genuine (by rw [hm, List.append_assoc]; rfl)
  exact ⟨o, ho⟩

/-- The invariant of the payment results that are handled. -/
structure Handling (settings : Settings) (s : System) : Prop where
  truthful : s.Truthful settings
  request : ∀ {j : ℕ} {x i}, s.requests[j]? = some x → x.Pays i → s.Settled i ∨ x.Settles i

theorem handling_init (settings : Settings) : Handling settings .init where
  truthful := truthful_init settings
  request := nofun

/-- The invariant after a move of request `j`. -/
theorem Handling.move (h : s.Handling settings) (ht : s'.Truthful settings) (hext : s.Extends s')
    {j : ℕ} {x y : Request} (hj : s.requests[j]? = some y) (hreq : s'.requests = s.requests.set j x)
    (hcall : x.call = y.call)
    (hx : ∀ i, y.Pays i → y.Settles i → s'.Settled i ∨ x.Settles i) : s'.Handling settings where
  truthful := ht
  request {j' x' i} hj' hpays := by
    rw [hreq] at hj'
    rcases getElem?_set_inv hj' with ⟨-, rfl⟩ | ⟨-, hj'⟩
    · have hpays : y.Pays i := by
        obtain ⟨success, ref, he⟩ := hpays
        exact ⟨success, ref, hcall.symm.trans he⟩
      rcases h.request hj hpays with hs | hs
      · exact .inl (hext.settled hs)
      · exact hx i hpays hs
    · exact (h.request hj' hpays).imp_left hext.settled

/-- **One step keeps the invariant**, if workers are handed published messages. -/
theorem Handling.step (h : s.Handling settings) (hpub : s.HandsPublished a)
    (hs : System.step settings s a = some s') : s'.Handling settings := by
  have ht := h.truthful.step hs hpub
  have hext := h.truthful.refs.inv.extends hs
  cases step_kind hs with
  | begin call =>
    refine ⟨ht, fun {j x i} hj hpays => ?_⟩
    rcases getElem?_append_singleton hj with hj | ⟨-, rfl⟩
    · exact (h.request hj hpays).imp_left hext.settled
    · obtain ⟨success, ref, rfl⟩ := hpays
      exact .inr (handlePaymentProcessed_settles i success)
  | @ret j inp call p σ a hj hn =>
    refine h.move ht hext hj rfl rfl fun i _ hp => ?_
    cases ApiProg.next_ret hn
    exact hp.elim
  | raise hj | refused hj
  | fail hj => exact h.move ht hext hj rfl rfl fun _ _ _ => .inr fun _ he => by cases he
  | @«continue» j inp call p p' σ σ' hj hb hn =>
    refine h.move ht hext hj rfl rfl fun i hpays hp => ?_
    cases p with
    | getOrder i' f =>
      obtain ⟨rfl, hclean, hf⟩ := hp
      obtain ⟨o, ho⟩ := h.truthful.order_of_pays (List.mem_of_getElem? hj) hpays
      cases hn
      by_cases hst : o.status = .pending
      · rw [hclean.view, ho]
        exact .inr (hf o (s.orders.pk_of_get ho) hst)
      · exact .inl ⟨o, ho, hst⟩
    | setStatus o st f =>
      cases hn
      exact .inr hp
    | raise | rpc | commit => cases hn
    | _ => exact hp.elim
  | call hj => exact h.move ht hext hj rfl rfl fun _ _ hp => .inr hp
  | @commit j inp call p σ hj =>
    refine h.move ht hext hj rfl rfl fun i _ hp => .inl ?_
    obtain ⟨o, st, hstatus, rfl, hne⟩ := hp
    obtain ⟨F, hF⟩ := h.truthful.refs.inv.request hj
    have hkind := hF.commit_kind
    show ∃ o', (σ.view s.orders).get o.id = some o' ∧ o'.status ≠ .pending
    generalize σ.view s.orders = orders at hkind
    cases hkind with
    | nothing _ hnone | inserted _ hnone => cases hnone.symm.trans hstatus
    | @updated o' cur st' _ hs ho hcur hsucc =>
      cases hs.symm.trans hstatus
      refine ⟨{ cur with status := st }, ?_, hne⟩
      rw [← s.orders.pk_of_get hcur]
      exact get_set_order _ _
  | publish hj => exact h.move ht hext hj rfl rfl fun _ _ hp => hp.elim
  | answered hj => exact h.move ht hext hj rfl rfl fun _ _ hp => .inr (hp _)
  | inventory => exact ⟨ht, fun hj hpays => (h.request hj hpays).imp_left hext.settled⟩

/-! ## A handler of a settled order does nothing -/

/-- The invariant from where the order `i` is settled: the handlers of messages about it that begin
later, with the numbers from `n` on. -/
structure Skipping (settings : Settings) (i : UUID) (n : ℕ) (s : System) : Prop where
  inv : s.Inv settings fun _ => True
  settled : s.Settled i
  request : ∀ {j : ℕ} {x}, n ≤ j → s.requests[j]? = some x → x.Handles i →
    x.Skips ∧ ∀ t, (j, t) ∉ s.rpcs

/-- The invariant after a move of request `j`, which may begin a transaction only if it is no
handler of a message about the order. -/
theorem Skipping.move (h : s.Skipping settings i n) (hinv : s'.Inv settings fun _ => True)
    (hext : s.Extends s') {j : ℕ} {x y : Request} (hj : s.requests[j]? = some y)
    (hreq : s'.requests = s.requests.set j x) (hcall : x.call = y.call)
    (hrpcs : ∀ {j' t}, (j', t) ∈ s'.rpcs → (j', t) ∈ s.rpcs ∨ j' = j)
    (hx : n ≤ j → y.Handles i → y.Skips → x.Skips ∧ s'.rpcs = s.rpcs) :
    s'.Skipping settings i n where
  inv := hinv
  settled := hext.settled h.settled
  request {j' x'} hn hj' hh := by
    rw [hreq] at hj'
    rcases getElem?_set_inv hj' with ⟨rfl, rfl⟩ | ⟨hne, hj'⟩
    · have hh : y.Handles i := by
        obtain ⟨m, he, hm⟩ := hh
        exact ⟨m, hcall.symm.trans he, hm⟩
      obtain ⟨hskips, hnone⟩ := h.request hn hj hh
      obtain ⟨hskips', heq⟩ := hx hn hh hskips
      exact ⟨hskips', fun t ht => hnone t (heq ▸ ht)⟩
    · obtain ⟨hskips, hnone⟩ := h.request hn hj' hh
      exact ⟨hskips, fun t ht => hnone t ((hrpcs ht).resolve_right hne)⟩

/-- The next operation of a handler of a message about a settled order: it looks the order up, or
returns. -/
theorem Skipping.next (h : s.Skipping settings i n) {call : ApiCall} {p : ApiProg (Option Order)}
    {σ : ApiSession} {w : Option ℕ} (inp : ApiInput) (hh : (Request.running call p σ w).Handles i)
    (hskips : (Request.running call p σ w).Skips) :
    w = none ∧ (p.next s.orders inp σ = .continue (.ret none) .empty ∨
      p.next s.orders inp σ = .ret none) := by
  obtain ⟨m, rfl, hm⟩ := hh
  obtain ⟨rfl, rfl, rfl | rfl⟩ := hskips
  · obtain ⟨f, hbody, hf⟩ := orderStatusWorker_skips hm
    obtain ⟨o, ho, hne⟩ := h.settled
    refine ⟨rfl, .inl ?_⟩
    rw [hbody, ApiProg.next, ApiSession.view_empty, ho, hf o hne]
  · exact ⟨rfl, .inr rfl⟩

/-- **One step keeps the invariant.** -/
theorem Skipping.step (h : s.Skipping settings i n) (hs : System.step settings s a = some s') :
    s'.Skipping settings i n := by
  have hinv := h.inv.step hs fun _ _ _ _ _ _ _ _ _ => trivial
  have hext := h.inv.extends hs
  cases step_kind hs with
  | begin call =>
    refine ⟨hinv, hext.settled h.settled, fun {j x} hn hj hh => ?_⟩
    rcases getElem?_append_singleton hj with hj | ⟨rfl, rfl⟩
    · exact h.request hn hj hh
    · exact ⟨⟨rfl, rfl, .inl rfl⟩, fun t ht => absurd (h.inv.rpcs ht) (Nat.lt_irrefl _)⟩
  | ret hj | fail hj =>
    exact h.move hinv hext hj rfl rfl .inl fun _ _ _ => ⟨fun _ he => (by cases he), rfl⟩
  | @raise j inp call p σ e hj hn =>
    refine h.move hinv hext hj rfl rfl .inl fun _ hh hskips => ?_
    rcases (h.next inp hh hskips).2 with he | he <;> cases hn.symm.trans he
  | @«continue» j inp call p p' σ σ' hj _ hn =>
    refine h.move hinv hext hj rfl rfl .inl fun _ hh hskips => ?_
    rcases (h.next inp hh hskips).2 with he | he
    · cases hn.symm.trans he
      exact ⟨⟨rfl, rfl, .inr rfl⟩, rfl⟩
    · cases hn.symm.trans he
  | @call j inp call c k σ hj =>
    refine h.move hinv hext hj rfl rfl (fun ht => ?_) fun _ hh hskips => ?_
    · rcases List.mem_append.1 ht with ht | ht
      · exact .inl ht
      · cases List.mem_singleton.1 ht
        exact .inr rfl
    · rcases (h.next inp hh hskips).2 with he | he <;> cases he
  | @commit j inp call p σ hj =>
    refine h.move hinv hext hj rfl rfl .inl fun _ hh hskips => ?_
    rcases (h.next inp hh hskips).2 with he | he <;> cases he
  | @publish j inp call m p σ hj =>
    refine h.move hinv hext hj rfl rfl .inl fun _ hh hskips => ?_
    rcases (h.next inp hh hskips).2 with he | he <;> cases he
  | @answered j inp call c c' k σ t res hj ht =>
    refine h.move hinv hext hj rfl rfl .inl fun _ hh hskips => ?_
    cases (h.next inp hh hskips).1
  | @refused j inp call c c' k σ t o e hj ht ho =>
    refine h.move hinv hext hj rfl rfl .inl fun _ hh hskips => ?_
    cases (h.next inp hh hskips).1
  | inventory => exact ⟨hinv, hext.settled h.settled, h.request⟩

/-- **A handler of a message about a settled order changes nothing.** -/
theorem Skipping.leavesAlone (h : s.Skipping settings i n) {j : ℕ} {inp : ApiInput} {x : Request}
    (hn : n ≤ j) (hj : s.requests[j]? = some x) (hh : x.Handles i) :
    LeavesAlone settings s (.advance j inp) := by
  obtain ⟨hskips, -⟩ := h.request hn hj hh
  intro s' hs
  cases step_kind hs with
  | ret | raise | «continue» | answered | refused => exact ⟨rfl, rfl, rfl⟩
  | call hj' | commit hj' | publish hj' =>
    cases hj.symm.trans hj'
    rcases (h.next inp hh hskips).2 with he | he <;> cases he

end

/-- **Redelivered messages are harmless.** In every run of the interleaved system whose workers are
handed published messages only, if a handler of a payment result has returned, then however the run
goes on: no step of a later handler of a message about the order (the same one, another payment
result or an expiry) changes an order, a message or a table of the inventory, none of them calls the
inventory and none raises an exception of its own. -/
theorem redelivery_harmless (settings : Settings) (as : List SystemAction) (s : System)
    (hr : run (step settings) .init as = some s)
    (hpub : Along (step settings) HandsPublished .init as) (j : ℕ) (i : UUID) (success : Bool)
    (ref : String) (out : Option Order)
    (hj : s.requests[j]? =
      some (.done (.orderStatusWorker (.paymentProcessed i success ref)) (.returned out)))
    (bs : List SystemAction) (s' : System) (hr' : run (step settings) s bs = some s') :
    Along (step settings) (fun s₁ a => ∀ j' inp x, a = .advance j' inp → s.requests.length ≤ j' →
      s₁.requests[j']? = some x → x.Handles i → LeavesAlone settings s₁ a) s bs ∧
    ∀ j' x, s.requests.length ≤ j' → s'.requests[j']? = some x → x.Handles i →
      (∀ t, (j', t) ∉ s'.rpcs) ∧ ∀ call e, x ≠ .done call (.raised e) := by
  have h : s.Handling settings :=
    run_inv_along (fun h hC hs => h.step hC hs) hpub hr (handling_init settings)
  have hsettled : s.Settled i :=
    (h.request hj ⟨success, ref, rfl⟩).resolve_right fun hx => hx out rfl
  have hskip : s.Skipping settings i s.requests.length := by
    refine ⟨h.truthful.refs.inv, hsettled, fun hn hj' => ?_⟩
    exact absurd (List.getElem?_eq_some_iff.1 hj').1 (Nat.not_lt.2 hn)
  refine ⟨?_, fun j' x hn hx hh => ?_⟩
  · refine along_of_inv (C := fun _ _ => True) (fun h _ hs => Skipping.step h hs)
      (fun h _ => ?_) hskip
      (along_of_forall_mem (C := fun _ => True) fun _ _ => trivial)
    rintro j' inp x rfl hn hx hh
    exact h.leavesAlone hn hx hh
  · obtain ⟨hskips, hnone⟩ :=
      (run_inv (fun h hs => Skipping.step h hs) hr' hskip).request hn hx hh
    refine ⟨hnone, ?_⟩
    rintro call e rfl
    exact hskips e rfl

/-- After the confirmation of the order, its payment result arrives once more, and so does the
expiry of its reservation. -/
def redelivered : List SystemAction :=
  [.begin (.orderStatusWorker (.paymentProcessed ⟨3⟩ true "mock_txn_0")),
    .begin (.orderStatusWorker (.reservationExpired ⟨101⟩ ⟨3⟩ ⟨1⟩))] ++ advances 3 2 ++ advances 4 2

theorem redelivered_ends : ∃ s, run (step .default) .init confirmedOrder = some s ∧
    Along (step .default) HandsPublished .init confirmedOrder ∧ s.requests.length = 3 ∧
    s.endOf 2 =
      some (.orderStatusWorker (.paymentProcessed ⟨3⟩ true "mock_txn_0"), .returned none) ∧
    (run (step .default) s redelivered).any (fun s' =>
      s'.endOf 3 =
        some (.orderStatusWorker (.paymentProcessed ⟨3⟩ true "mock_txn_0"), .returned none) ∧
      s'.endOf 4 =
        some (.orderStatusWorker (.reservationExpired ⟨101⟩ ⟨3⟩ ⟨1⟩), .returned none)) = true :=
  exists_of_run (by decide +kernel)

/-- Both messages are handled without asking the inventory. -/
theorem redelivered_harmless : ∃ s s', run (step .default) .init confirmedOrder = some s ∧
    run (step .default) s redelivered = some s' ∧ ∀ t, (3, t) ∉ s'.rpcs ∧ (4, t) ∉ s'.rpcs := by
  obtain ⟨s, hr, hpub, hlen, hj, hs'⟩ := redelivered_ends
  obtain ⟨s', hr', h3, h4⟩ := exists_of_run hs'
  have h := (redelivery_harmless .default _ s hr hpub 2 ⟨3⟩ true "mock_txn_0" none
    (endOf_eq_some.1 hj) redelivered s' hr').2
  refine ⟨s, s', hr, hr', fun t => ⟨?_, ?_⟩⟩
  · exact (h 3 _ hlen.le (endOf_eq_some.1 h3) ⟨_, rfl, rfl⟩).1 t
  · exact (h 4 _ (hlen.le.trans (Nat.le_succ 3)) (endOf_eq_some.1 h4) ⟨_, rfl, rfl⟩).1 t

end System

end EventSphere.Api
