import EventSphere.Api.Coherence

/-!
# References between the services

An order names its reservation by id, across two databases and without a foreign key. The two rows
are written by two steps with failures in between: a booking may be lost after its reservation was
made, and then the reservation stays behind. The other direction never happens (`references_hold`):
every committed order has its reservation, for itself alone, and only reservations of committed
orders are confirmed.
-/

namespace EventSphere.Api.System

open Inventory (Settings ReservedFor Called)

/-- The invariant that carries `references_hold`. -/
structure Referenced (settings : Settings) (s : System) : Prop where
  inv : s.Inv settings fun _ => True
  backed : ∀ {i o}, s.orders.get i = some o →
    ReservedFor s.inventory.db o.reservationId o.eventId o.id o.quantity
  confirms : ∀ {i}, Called s.inventory (.confirmReservation i) →
    ∃ k o, s.orders.get k = some o ∧ o.reservationId = i

theorem referenced_init (settings : Settings) : Referenced settings .init where
  inv := inv_init settings _
  backed := nofun
  confirms := by
    rintro i ⟨t, x, hx, -⟩
    cases hx

section
variable {settings : Settings} {s s' : System}

/-- A confirmation that a request asks for is of the reservation of a committed order. -/
theorem RequestInv.confirms {E : ApiCall → Prop} {j : ℕ} {call : ApiCall} {c : Inventory.Call}
    {k : Inventory.Result → ApiProg (Option Order)} {σ : ApiSession} {w : Option ℕ} {F : List Fact}
    (h : RequestInv E s j call (.rpc c k) σ w F) {i : UUID} (hc : c = .confirmReservation i) :
    ∃ k o, s.orders.get k = some o ∧ o.reservationId = i := by
  obtain ⟨o, ho, rfl⟩ := h.safe.2.1.confirms i hc
  obtain ⟨cur, hcur, hsucc⟩ := h.holds _ ho
  exact ⟨o.id, cur, hcur, hsucc.reservationId_eq⟩

/-- An order that is committed has its reservation. -/
theorem Referenced.inserted (h : s.Referenced settings) {key : Option (UUID × String)} {o : Order}
    {F : List Fact} (ho : MayAdd key o F) (hF : ∀ f ∈ F, s.Holds f) :
    ReservedFor s.inventory.db o.reservationId o.eventId o.id o.quantity := by
  obtain ⟨r, hr, hid⟩ := ho.reserved
  obtain ⟨t, ht⟩ := hF _ hr
  obtain ⟨r', he, hres⟩ := h.inv.inventory.returned ht
  cases he
  rw [hid]
  exact hres

/-- **One step keeps the references.** -/
theorem Referenced.step (h : s.Referenced settings) {a : SystemAction}
    (hs : s.step settings a = some s') : s'.Referenced settings := by
  have hinv := h.inv.step hs fun _ _ _ _ _ _ _ _ _ => trivial
  cases step_kind hs with
  | begin | ret | raise | «continue» | publish | answered | refused | fail =>
    exact ⟨hinv, h.backed, h.confirms⟩
  | @call j inp call c k σ hj =>
    obtain ⟨F, hF⟩ := h.inv.request hj
    have hbegin : Inventory.step settings s.inventory (.begin c) =
        some (s.inventory.begun (Inventory.Call.body settings) c) := rfl
    refine ⟨hinv, h.backed, fun hcall => ?_⟩
    rcases hcall.of_step hbegin with hcall | hcall
    · exact h.confirms hcall
    · exact hF.confirms (Option.some.inj hcall)
  | @commit j inp call p σ hj =>
    obtain ⟨F, hF⟩ := h.inv.request hj
    have hkind := hF.commit_kind
    have hext : s.Extends { s with orders := σ.view s.orders } :=
      hkind.extend (fun ho => h.inv.new hj ho) rfl rfl
    refine ⟨hinv, fun {i o} ho => ?_, fun hcall => ?_⟩
    · dsimp only at ho ⊢
      generalize σ.view s.orders = orders at hkind ho
      cases hkind with
      | nothing => exact h.backed ho
      | inserted hi _ hadd =>
        rcases Table.get_set_inv ho with ⟨-, rfl⟩ | ho
        · exact h.inserted hadd hF.holds
        · exact h.backed ho
      | updated _ _ _ hcur _ =>
        rcases Table.get_set_inv ho with ⟨-, rfl⟩ | ho
        · have := h.backed hcur
          exact this
        · exact h.backed ho
    · obtain ⟨k, o, ho, hid⟩ := h.confirms hcall
      obtain ⟨o', ho', hsucc⟩ := hext.orders ho
      exact ⟨k, o', ho', hsucc.reservationId_eq.trans hid⟩
  | @inventory a w ha hw =>
    refine ⟨hinv, fun ho => (h.backed ho).step h.inv.inventory.coherent hw, fun hcall => ?_⟩
    rcases hcall.of_step hw with hcall | hcall
    · exact h.confirms hcall
    · cases a with
      | begin c => cases hcall; cases ha
      | advance | abort => cases hcall

end

/-- **The references hold.** In every run of the composed system, with every interleaving and every
failure: each committed order has its reservation, with its id, event and quantity; no two orders
share a reservation; and every confirmed reservation is that of a committed order. -/
theorem references_hold (settings : Settings) (as : List SystemAction) (s : System)
    (hr : run (step settings) .init as = some s) :
    (∀ i o, s.orders.get i = some o → ∃ r, s.inventory.db.plain.get o.reservationId = some r ∧
      r.orderId = o.id ∧ r.eventId = o.eventId ∧ r.quantity = o.quantity) ∧
    (∀ i i' o o', s.orders.get i = some o → s.orders.get i' = some o' →
      o.reservationId = o'.reservationId → i = i') ∧
    ∀ i r, s.inventory.db.plain.get i = some r → r.status = .confirmed →
      ∃ k o, s.orders.get k = some o ∧ o.reservationId = i := by
  have h := run_inv (I := Referenced settings) (fun h hs => h.step hs) hr (referenced_init settings)
  refine ⟨fun i o ho => ?_, fun i i' o o' ho ho' hid => ?_, fun i r hr hst => ?_⟩
  · obtain ⟨r, hr, h1, h2, h3⟩ := h.backed ho
    exact ⟨r, hr, h2, h1, h3⟩
  · -- the reservation names the one order it is for
    obtain ⟨r, hr, -, h2, -⟩ := h.backed ho
    obtain ⟨r', hr', -, h2', -⟩ := h.backed ho'
    rw [hid] at hr
    cases hr.symm.trans hr'
    exact (s.orders.pk_of_get ho).symm.trans
      ((h2.symm.trans h2').trans (s.orders.pk_of_get ho'))
  · exact h.confirms (h.inv.inventory.confirmed hr hst)

/-- The payment of an order is handled. -/
def confirmedOrder : List SystemAction :=
  paidOrder ++ [.begin (.orderStatusWorker (.paymentProcessed ⟨3⟩ true "mock_txn_0"))] ++
  advances 2 2 ++ inventoryAdvances 2 6 ++ advances 2 5

/-- The confirmed reservation of a run is that of its order. -/
theorem confirmedOrder_references : ∃ s k o, run (step .default) .init confirmedOrder = some s ∧
    (s.inventory.db.plain.get ⟨101⟩).any (·.status = .confirmed) = true ∧
    s.orders.get k = some o ∧ o.reservationId = ⟨101⟩ := by
  obtain ⟨s, hs, h⟩ : ∃ s, run (step .default) .init confirmedOrder = some s ∧
      (s.inventory.db.plain.get ⟨101⟩).any (·.status = .confirmed) :=
    exists_of_run (by decide +kernel)
  obtain ⟨r, hr, hst⟩ := (Option.any_eq_true _ _).1 h
  obtain ⟨k, o, ho⟩ := (references_hold .default confirmedOrder s hs).2.2 ⟨101⟩ r hr
    (of_decide_eq_true hst)
  exact ⟨s, k, o, hs, h, ho⟩

end EventSphere.Api.System
