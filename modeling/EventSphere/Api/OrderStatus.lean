import EventSphere.Api.Coherence

/-!
# Order statuses over time

An order should only move forward: a pending order is confirmed, cancelled or expires, a confirmed
one is cancelled, and that is the end. Every writer reads the status first and moves it forward from
there, but the `UPDATE` of its commit does not check that the status is still the one it has read.
`order_status_monotone` shows that orders move forward in exactly those runs whose commits find the
status they were decided on, the one they write, or a confirmed order to cancel; `order_revived` is
a run in which a cancelled order is confirmed.
-/

namespace EventSphere.Api.System

open Inventory (Settings)

/-- What a committed step may do to an order: nothing, insert it as pending, or move it forward. -/
def StatusStep (o o' : Option Order) : Prop :=
  o' = o ∨ (∃ x', o = none ∧ o' = some x' ∧ x'.status = .pending) ∨
  ∃ x x', o = some x ∧ o' = some x' ∧ (x'.status = x.status ∨ Moves x.status x'.status)

/-- The step commits only moves forward. -/
def StatusesFollow (settings : Settings) (s : System) (a : SystemAction) : Prop :=
  ∀ s', s.step settings a = some s' → ∀ i, StatusStep (s.orders.get i) (s'.orders.get i)

/-- The status a step commits, with the order it was read from. -/
def committing (s : System) : SystemAction → Option (Order × OrderStatus)
  | .advance j _ =>
    match s.requests[j]? with
    | some (.running _ (.commit _) σ none) => σ.status
    | _ => none
  | _ => none

/-- The order still has the status that was read, or has the one that is written, or is confirmed
and cancelled. -/
def KeepsStatus (s : System) (a : SystemAction) : Prop :=
  ∀ x ∈ committing s a, ∀ cur ∈ s.orders.get x.1.id,
    cur.status = x.1.status ∨ cur.status = x.2 ∨ cur.status = .confirmed ∧ x.2 = .cancelled

section
variable {settings : Settings} {s : System}

/-- A commit is always possible. -/
theorem step_commit {j : ℕ} (inp : ApiInput) {call : ApiCall} {p : ApiProg (Option Order)}
    {σ : ApiSession} (hj : s.requests[j]? = some (.running call (.commit p) σ none)) :
    s.step settings (.advance j inp) =
      some { s.put j (.running call p .empty none) with orders := σ.view s.orders } := by
  have hb : ¬ s.Blocked j (.commit p) := id
  simp only [step, hj, if_neg hb]
  rfl

/-- **One step moves orders forward exactly when it meets the condition.** -/
theorem statusesFollow_iff (h : s.Inv settings fun _ => True) {a : SystemAction} :
    StatusesFollow settings s a ↔ KeepsStatus s a := by
  constructor
  · intro hP x hx cur hcur
    obtain ⟨o, st⟩ := x
    cases a with
    | advance j inp =>
      simp only [committing] at hx
      split at hx
      · next call p σ hj =>
        obtain ⟨F, hF⟩ := h.request hj
        have hstep := hP _ (step_commit inp hj) o.id
        have hkind := hF.commit_kind
        dsimp only at hstep hcur ⊢
        generalize σ.view s.orders = orders at hkind hstep
        cases hkind with
        | nothing _ hst | inserted _ hst => rw [hst] at hx; cases hx
        | updated hi hst ho hcur' hsucc =>
          cases hst.symm.trans hx
          cases hcur.symm.trans hcur'
          rw [hcur, ← hsucc.id_eq, get_set_order] at hstep
          rcases hstep with he | ⟨_, he, -⟩ | ⟨_, _, he, he', hst' | hm⟩
          · exact .inr (.inl (congrArg Order.status (Option.some.inj he)).symm)
          · cases he
          · cases he; cases he'; exact .inr (.inl hst'.symm)
          · cases he; cases he'
            rcases hm with ⟨hp, -⟩ | hm
            · exact .inl (hp.trans (hsucc.pending hp).symm)
            · exact .inr (.inr hm)
      · cases hx
    | begin | fail | inventory => cases hx
  · intro hQ s' hs i
    cases step_kind hs with
    | begin | ret | raise | «continue» | call | publish | answered | refused | fail | inventory =>
      exact .inl rfl
    | @commit j inp call p σ hj =>
      obtain ⟨F, hF⟩ := h.request hj
      have hx : ∀ x, σ.status = some x → x ∈ committing s (.advance j inp) := fun x hx => by
        simp only [committing, hj, hx, Option.mem_def]
      have hkind := hF.commit_kind
      dsimp only
      generalize σ.view s.orders = orders at hkind
      cases hkind with
      | nothing => exact .inl rfl
      | @inserted o hi _ ho =>
        rw [Table.get_set]
        split
        · next he =>
          exact .inr (.inl ⟨o, he ▸ (h.new hj hi).get_eq_none, rfl, ho.status⟩)
        · exact .inl rfl
      | @updated o cur st hi hst ho hcur hsucc =>
        rw [Table.get_set]
        split
        · next he =>
          rw [he, pk_order, hsucc.id_eq]
          refine .inr (.inr ⟨cur, _, hcur, rfl, ?_⟩)
          rcases hQ _ (hx _ hst) cur hcur with hc | hc | hc
          · exact .inr (hc ▸ ho.moves)
          · exact .inl hc.symm
          · exact .inr (.inr hc)
        · exact .inl rfl

end

/-- **Orders move forward exactly without stale statuses.** For every interleaving of requests, the
committed status of every order only moves forward if and only if every commit of a status finds the
status it was decided on, the one it writes, or a confirmed order to cancel. -/
theorem order_status_monotone (settings : Settings) (as : List SystemAction) :
    Along (step settings) (StatusesFollow settings) .init as ↔
      Along (step settings) KeepsStatus .init as :=
  along_iff (I := fun s => s.Inv settings fun _ => True)
    (fun h _ hs => h.step hs fun _ _ _ _ _ _ _ _ _ => trivial) (fun h => statusesFollow_iff h)
    (inv_init settings _)

/-! ## The run that revives an order -/

/-- The order status worker reads the order as pending; before it confirms the reservation, the user
cancels the order. -/
def overtaken : List SystemAction :=
  paidOrder ++ [.begin (.orderStatusWorker (.paymentProcessed ⟨3⟩ true "mock_txn_0"))] ++
  advances 2 1 ++ [.begin (.cancelOrder ⟨3⟩ ⟨2⟩)] ++ advances 3 2 ++ inventoryAdvances 2 6 ++
  advances 3 5 ++ advances 2 1 ++ inventoryAdvances 3 2 ++ advances 2 2

/-- **A cancelled order can be confirmed.** -/
theorem order_revived : ¬ Along (step .default) (StatusesFollow .default) .init
    (overtaken ++ advances 2 1) := by
  obtain ⟨s, hs, hold, h⟩ : ∃ s, run (step .default) .init overtaken = some s ∧
      (s.orders.get ⟨3⟩).any (·.status = .cancelled) ∧
      (run (step .default) s (advances 2 1)).any fun s' =>
        (s'.orders.get ⟨3⟩).any (·.status = .confirmed) :=
    exists_of_run (by decide +kernel)
  obtain ⟨s', hs', hnew⟩ := (Option.any_eq_true _ _).1 h
  obtain ⟨o, ho, h1⟩ := (Option.any_eq_true _ _).1 hold
  obtain ⟨o', ho', h2⟩ := (Option.any_eq_true _ _).1 hnew
  have h1 := of_decide_eq_true h1
  have h2 := of_decide_eq_true h2
  intro hA
  obtain ⟨s₁, hs₁, hnil⟩ := run_cons.1 hs'
  cases hnil
  have hstep := ((along_append hs).1 hA).2.1 s' hs₁ ⟨3⟩
  rw [ho, ho'] at hstep
  rcases hstep with he | ⟨_, he, -⟩ | ⟨_, _, he, he', hm⟩
  · cases he
    rw [h1] at h2
    cases h2
  · cases he
  · cases he; cases he'
    rw [h1, h2] at hm
    revert hm
    decide

end EventSphere.Api.System
