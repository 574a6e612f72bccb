import EventSphere.Api.Atomic
import EventSphere.Base.Runs

/-!
# Money and tickets

An order whose payment succeeded should end up confirmed, unless its user cancelled it. The workers
drop every message about an order that has left pending, so the first message to be handled decides:
a redelivered `ORDER_CREATED` may produce a failed payment beside a successful one, and the reaper
may expire an order that is being paid. `paid_confirmed` shows that these are the only ways to lose
a payment, and `paid_expired` is a run that loses one.
-/

namespace EventSphere.Api

/-- The message reports a successful payment of the order. -/
def Message.pays (i : UUID) : Message → Bool
  | paymentProcessed i' success _ => i' = i ∧ success
  | _ => false

/-- The messages that the payment worker and the order status worker wait for. -/
def Message.awaited : Message → Bool
  | orderCreated .. | paymentProcessed .. | reservationExpired .. => true
  | ticketIssued .. | orderCancelled .. => false

namespace Shop

open Inventory (Settings)

/-- The payment worker has published a successful payment of the order. -/
def Paid (s : Shop) (i : UUID) : Prop := ∃ m ∈ s.published, m.pays i = true

instance (s : Shop) (i : UUID) : Decidable (s.Paid i) := inferInstanceAs (Decidable (∃ m ∈ _, _))

/-- Every published message has been handled. -/
def Quiescent (s : Shop) : Prop :=
  ∀ n < s.published.length, ∀ m ∈ s.published[n]?, m.awaited = true → n ∈ s.handled

instance (s : Shop) : Decidable s.Quiescent :=
  inferInstanceAs (Decidable (∀ n < s.published.length, ∀ m ∈ _, _))

/-- The condition on a delivered message: a failed payment or an expiry of a pending order comes
only if no payment of it has succeeded, and a payment succeeds only for an order that has neither
expired nor been cancelled by a worker. -/
def KeepsPaid (s : Shop) (paid : Bool) : Message → Prop
  | .orderCreated i _ _ _ _ _ => paid = true →
    ∀ o ∈ s.orders.get i, o.status ≠ .expired ∧ (o.status = .cancelled → i ∈ s.cancelled)
  | .paymentProcessed i false _ | .reservationExpired _ i _ =>
    ∀ o ∈ s.orders.get i, o.status = .pending → ¬ s.Paid i
  | _ => True

/-- The condition on an action under which no payment is lost. -/
def KeepsPayments (s : Shop) : ShopAction → Prop
  | .deliver n env => ∀ m ∈ s.published[n]?, KeepsPaid s env.api.paid m
  | _ => True

instance (s : Shop) (paid : Bool) : ∀ m, Decidable (KeepsPaid s paid m)
  | .orderCreated _ _ _ _ _ _ => inferInstanceAs (Decidable (_ → ∀ o ∈ _, _))
  | .paymentProcessed _ false _ | .reservationExpired _ _ _ =>
    inferInstanceAs (Decidable (∀ o ∈ _, _ → _))
  | .paymentProcessed _ true _ | .ticketIssued _ _ _ | .orderCancelled _ _ =>
    inferInstanceAs (Decidable True)

instance (s : Shop) : ∀ a, Decidable (KeepsPayments s a)
  | .deliver _ _ => inferInstanceAs (Decidable (∀ m ∈ _, _))
  | .bookTickets .. | .cancelOrder .. | .reservationReaper .. | .inventory .. =>
    inferInstanceAs (Decidable True)

/-- The order of the successful payment at position `n` waits for it, is confirmed, or has been
cancelled by its user. -/
def Settled (s : Shop) (n : ℕ) (i : UUID) : Prop :=
  ∃ o, s.orders.get i = some o ∧ (o.status = .pending ∧ n ∉ s.handled ∨ o.status = .confirmed ∨
    o.status = .cancelled ∧ i ∈ s.cancelled)

/-- The invariant that carries `paid_confirmed`. -/
structure PaymentsKept (s : Shop) : Prop where
  created : ∀ {n : ℕ} {i e u q t r}, s.published[n]? = some (.orderCreated i e u q t r) →
    ∃ o, s.orders.get i = some o
  settled : ∀ {n : ℕ} {i ref}, s.published[n]? = some (.paymentProcessed i true ref) →
    s.Settled n i
  bound : ∀ {n : ℕ}, n ∈ s.handled → n < s.published.length

theorem paymentsKept_init : PaymentsKept .init where
  created := nofun
  settled := nofun
  bound := nofun

section
variable {settings : Settings} {s s' : Shop}

/-- A position of an extended log is an old one, or has one of the new messages. -/
theorem getElem?_published {l l' : List Message} {n : ℕ} {m : Message}
    (h : (l ++ l')[n]? = some m) : l[n]? = some m ∨ l.length ≤ n ∧ m ∈ l' := by
  rcases Nat.lt_or_ge n l.length with hn | hn
  · exact .inl (by rwa [List.getElem?_append_left hn] at h)
  · rw [List.getElem?_append_right hn] at h
    exact .inr ⟨hn, List.mem_of_getElem? h⟩

/-- What an action has to keep. -/
theorem PaymentsKept.next (h : s.PaymentsKept) {l : List Message}
    (hpub : s'.published = s.published ++ l)
    (hkeys : ∀ i o, s.orders.get i = some o → ∃ o', s'.orders.get i = some o')
    (hold : ∀ (n : ℕ) i ref, s.published[n]? = some (.paymentProcessed i true ref) → s.Settled n i →
      s'.Settled n i)
    (hcreated : ∀ i e u q t r, .orderCreated i e u q t r ∈ l → ∃ o, s'.orders.get i = some o)
    (hpaid : ∀ n i ref, s.published.length ≤ n → .paymentProcessed i true ref ∈ l →
      s'.Settled n i)
    (hhandled : ∀ n ∈ s'.handled, n ∈ s.handled ∨ n < s.published.length) : s'.PaymentsKept where
  created hm := by
    rw [hpub] at hm
    rcases getElem?_published hm with hm | ⟨-, hm⟩
    · obtain ⟨o, ho⟩ := h.created hm
      exact hkeys _ o ho
    · exact hcreated _ _ _ _ _ _ hm
  settled hm := by
    rw [hpub] at hm
    rcases getElem?_published hm with hm | ⟨hn, hm⟩
    · exact hold _ _ _ hm (h.settled hm)
    · exact hpaid _ _ _ hn hm
  bound {n} hn := by
    have := (hhandled n hn).elim h.bound id
    rw [hpub, List.length_append]
    omega

/-- A changed status leaves every order in the table. -/
theorem exists_get_set {i : UUID} {o o' : Order} (h : s.orders.get i = some o') :
    ∃ o'', (s.orders.set o).get i = some o'' := by
  rw [Table.get_set]
  split
  · exact ⟨_, rfl⟩
  · exact ⟨_, h⟩

/-- An order that is not touched stays settled. -/
theorem Settled.keep {n : ℕ} {i : UUID} (h : s.Settled n i)
    (hget : s'.orders.get i = s.orders.get i) (hn : n ∈ s'.handled → n ∈ s.handled)
    (hc : i ∈ s.cancelled → i ∈ s'.cancelled) : s'.Settled n i := by
  obtain ⟨o, ho, hs⟩ := h
  refine ⟨o, hget.trans ho, ?_⟩
  rcases hs with ⟨hp, hh⟩ | hs | ⟨hs, hi⟩
  · exact .inl ⟨hp, fun h' => hh (hn h')⟩
  · exact .inr (.inl hs)
  · exact .inr (.inr ⟨hs, hc hi⟩)

/-- A message that is not a successful payment is at another position than one that is. -/
theorem ne_of_pays {n n' : ℕ} {i : UUID} {ref : String} {m : Message}
    (h : s.published[n]? = some (.paymentProcessed i true ref)) (h' : s.published[n']? = some m)
    (hm : m.pays i = false) : n ≠ n' := by
  rintro rfl
  cases h.symm.trans h'
  simp [Message.pays] at hm

/-- A published success is a payment. -/
theorem paid_of_getElem? {n : ℕ} {i : UUID} {ref : String}
    (h : s.published[n]? = some (.paymentProcessed i true ref)) : s.Paid i :=
  ⟨_, List.mem_of_getElem? h, by simp [Message.pays]⟩

/-- The invariant after a step that publishes neither an order nor a successful payment. -/
theorem PaymentsKept.next_quiet (h : s.PaymentsKept) {l : List Message}
    (hpub : s'.published = s.published ++ l)
    (hl : ∀ m ∈ l, (∀ i e u q t r, m ≠ .orderCreated i e u q t r) ∧
      ∀ i ref, m ≠ .paymentProcessed i true ref)
    (hkeys : ∀ i o, s.orders.get i = some o → ∃ o', s'.orders.get i = some o')
    (hold : ∀ (n : ℕ) i ref, s.published[n]? = some (.paymentProcessed i true ref) → s.Settled n i →
      s'.Settled n i)
    (hhandled : ∀ n ∈ s'.handled, n ∈ s.handled ∨ n < s.published.length) : s'.PaymentsKept :=
  h.next hpub hkeys hold (fun _ _ _ _ _ _ hm => absurd rfl ((hl _ hm).1 _ _ _ _ _ _))
    (fun _ _ _ _ hm => absurd rfl ((hl _ hm).2 _ _)) hhandled

/-- **One action keeps the payments.** -/
theorem PaymentsKept.step (h : s.PaymentsKept) {a : ShopAction} (hc : KeepsPayments s a)
    (hs : s.step settings a = some s') : s'.PaymentsKept := by
  -- a handled position is one of the log
  have hlt : ∀ {n : ℕ} {m : Message}, s.published[n]? = some m → ∀ n' ∈ s.handled ++ [n],
      n' ∈ s.handled ∨ n' < s.published.length := fun hm n' hn' => by
    rcases List.mem_append.1 hn' with hn' | hn'
    · exact .inl hn'
    · exact .inr (List.mem_singleton.1 hn' ▸ (List.getElem?_eq_some_iff.1 hm).1)
  -- a message that is no success leaves the others waiting
  have hmem : ∀ {n n' : ℕ}, n ≠ n' → n ∈ s.handled ++ [n'] → n ∈ s.handled := fun hne hn =>
    (List.mem_append.1 hn).resolve_right fun h' => hne (List.mem_singleton.1 h')
  cases step_kind hs with
  | idle db =>
    exact h.next_quiet (l := []) (List.append_nil _).symm (by simp) (fun _ o ho => ⟨o, ho⟩)
      (fun _ _ _ _ hset => hset.keep rfl id id) fun _ hn => .inl hn
  | booked db hp ho =>
    refine h.next rfl (fun _ _ => exists_get_set) (fun n i ref hm hset => ?_) ?_ ?_
      fun _ hn => .inl hn
    · obtain ⟨o', ho', -⟩ := id hset
      refine hset.keep (Table.get_set_of_ne _ ?_) id id
      rintro rfl
      cases ho.symm.trans ho'
    · intro i e u q t r hm
      cases List.mem_singleton.1 hm
      exact ⟨_, get_set_order _ _⟩
    · intro n i ref _ hm
      cases List.mem_singleton.1 hm
  | @cancelled orderId user env db o ho hst =>
    refine h.next_quiet rfl (by simp) (fun _ _ => exists_get_set) (fun n i ref hm hset => ?_)
      fun _ hn => .inl hn
    by_cases hi : i = o.id
    · subst hi
      obtain rfl : o.id = orderId := s.orders.pk_of_get ho
      exact ⟨_, get_set_order _ { o with status := .cancelled },
        .inr (.inr ⟨rfl, List.mem_append_right _ (List.mem_singleton_self _)⟩)⟩
    · exact hset.keep (Table.get_set_of_ne _ hi) id (List.mem_append_left _)
  | @skipped n' env m hm hst =>
    refine h.next_quiet (l := []) (List.append_nil _).symm (by simp) (fun _ o ho => ⟨o, ho⟩)
      (fun n i ref hm' hset => ?_) (hlt hm)
    by_cases hn : n = n'
    · subst hn
      cases hm.symm.trans hm'
      obtain ⟨o, ho, hs | hs⟩ := hset
      · exact absurd hs.1 (hst _ _ _ rfl o ho)
      · exact ⟨o, ho, .inr hs⟩
    · exact hset.keep rfl (hmem hn) id
  | @charged n' env i e u r q t hm =>
    refine h.next rfl (fun _ o ho => ⟨o, ho⟩)
      (fun n i' ref hm' hset => hset.keep rfl (hmem (ne_of_pays hm' hm rfl)) id)
      (fun _ _ _ _ _ _ hm => by cases List.mem_singleton.1 hm) (fun n i' ref hn hm' => ?_) (hlt hm)
    obtain ⟨o, ho⟩ := h.created hm
    simp only [List.mem_singleton, Message.paymentProcessed.injEq] at hm'
    obtain ⟨rfl, hpaid, -⟩ := hm'
    obtain ⟨hne, hcan⟩ := hc _ hm hpaid.symm o ho
    refine ⟨o, ho, ?_⟩
    cases hst : o.status with
    | pending =>
      refine .inl ⟨rfl, fun hn' => ?_⟩
      have := (hlt hm n hn').elim h.bound id
      omega
    | confirmed => exact .inr (.inl rfl)
    | cancelled => exact .inr (.inr ⟨rfl, hcan hst⟩)
    | expired => exact absurd hst hne
  | @confirmed n' env i ref o hm ho hst res hres =>
    refine h.next_quiet rfl (by simp) (fun _ _ => exists_get_set)
      (fun n i' ref' hm' hset => ?_) (hlt hm)
    by_cases hi : i' = o.id
    · subst hi
      exact ⟨_, get_set_order _ { o with status := .confirmed }, .inr (.inl rfl)⟩
    · refine hset.keep (Table.get_set_of_ne _ hi) (hmem ?_) id
      rintro rfl
      cases hm.symm.trans hm'
      exact hi (s.orders.pk_of_get ho).symm
  | @refused n' env i ref db o hm ho hst =>
    refine h.next_quiet rfl (by simp) (fun _ _ => exists_get_set)
      (fun n i' ref' hm' hset => ?_) (hlt hm)
    refine hset.keep (Table.get_set_of_ne _ fun hi => ?_)
      (hmem (ne_of_pays hm' hm (by simp [Message.pays]))) id
    rw [hi] at hm'
    exact hc _ hm o ho hst (s.orders.pk_of_get ho ▸ paid_of_getElem? hm')
  | @expired n' env r i e o hm ho hst =>
    refine h.next_quiet (l := []) (List.append_nil _).symm (by simp)
      (fun _ _ => exists_get_set) (fun n i' ref' hm' hset => ?_) (hlt hm)
    refine hset.keep (Table.get_set_of_ne _ fun hi => ?_) (hmem (ne_of_pays hm' hm rfl)) id
    rw [hi] at hm'
    exact hc _ hm o ho hst (s.orders.pk_of_get ho ▸ paid_of_getElem? hm')
  | reaped db rs =>
    exact h.next_quiet rfl (by simp) (fun _ o ho => ⟨o, ho⟩)
      (fun _ _ _ _ hset => hset.keep rfl id id) fun _ hn => .inl hn

end

/-- **Money and tickets agree unless a payment is lost.** In every run whose actions meet the
condition, in every state where all messages have been handled, an order with a successful payment
that its user did not cancel is confirmed. -/
theorem paid_confirmed (settings : Settings) (as : List ShopAction) (s : Shop)
    (hc : Along (step settings) KeepsPayments .init as)
    (hr : run (step settings) .init as = some s) (hq : s.Quiescent) (i : UUID) (hp : s.Paid i)
    (hu : i ∉ s.cancelled) : ∃ o, s.orders.get i = some o ∧ o.status = .confirmed := by
  have h := run_inv_along (I := PaymentsKept) (fun h hc hs => h.step hc hs) hc hr paymentsKept_init
  obtain ⟨m, hm, hpays⟩ := hp
  obtain ⟨n, hn, hget⟩ := List.getElem_of_mem hm
  cases m with
  | paymentProcessed i' success ref =>
    obtain ⟨rfl, rfl⟩ := of_decide_eq_true hpays
    have hm' : s.published[n]? = some (.paymentProcessed i' true ref) := by
      rw [List.getElem?_eq_getElem hn, hget]
    obtain ⟨o, ho, ⟨-, hn'⟩ | hs | ⟨-, hi⟩⟩ := h.settled hm'
    · exact absurd (hq n hn _ hm' rfl) hn'
    · exact ⟨o, ho, hs⟩
    · exact absurd hi hu
  | orderCreated | ticketIssued | orderCancelled | reservationExpired => cases hpays

/-- An order that is paid in time. -/
def promptPayment : List ShopAction :=
  [.inventory (.initializeInventory ⟨1⟩ 1) ⟨0, ⟨0⟩, .ascending⟩,
    .bookTickets ⟨2⟩ ⟨1⟩ 1 none (answers 0), .deliver 0 (answers 1), .deliver 1 (answers 2)]

theorem promptPayment_confirmed : ∃ s o, run (step .default) .init promptPayment = some s ∧
    s.Quiescent ∧ s.Paid ⟨3⟩ ∧ s.orders.get ⟨3⟩ = some o ∧ o.status = .confirmed := by
  obtain ⟨s, hs, hq, hp, hu⟩ : ∃ s, run (step .default) .init promptPayment = some s ∧
      s.Quiescent ∧ s.Paid ⟨3⟩ ∧ ⟨3⟩ ∉ s.cancelled :=
    exists_of_run (by decide +kernel)
  obtain ⟨o, ho⟩ := paid_confirmed .default promptPayment s (by decide +kernel) hs hq ⟨3⟩ hp hu
  exact ⟨s, o, hs, hq, hp, ho⟩

/-- **A paid order can expire**: the expiry is handled before the payment, which is then dropped. -/
theorem paid_expired : ∃ s o, run (step .default) .init
    (latePayment ++ [.deliver 1 (answers 600000003), .deliver 2 (answers 600000004)]) = some s ∧
    s.Quiescent ∧ s.Paid ⟨3⟩ ∧ ⟨3⟩ ∉ s.cancelled ∧ s.orders.get ⟨3⟩ = some o ∧
    o.status = .expired := by
  obtain ⟨s, hs, hq, hp, hu, h⟩ : ∃ s, run (step .default) .init
      (latePayment ++ [.deliver 1 (answers 600000003), .deliver 2 (answers 600000004)]) = some s ∧
      s.Quiescent ∧ s.Paid ⟨3⟩ ∧ ⟨3⟩ ∉ s.cancelled ∧
      (s.orders.get ⟨3⟩).any (·.status = .expired) :=
    exists_of_run (by decide +kernel)
  obtain ⟨o, ho, h⟩ := (Option.any_eq_true _ _).1 h
  exact ⟨s, o, hs, hq, hp, hu, ho, of_decide_eq_true h⟩

end Shop

end EventSphere.Api
