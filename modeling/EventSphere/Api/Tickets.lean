import EventSphere.Api.Atomic
import EventSphere.Base.Runs
import EventSphere.Inventory.Isolated

/-!
# Tickets and seats

A ticket is issued when a successful payment moves an order to confirmed; it should be backed by a
confirmed reservation. `ConfirmReservation` answers a reservation that is no longer pending with
success, and the worker does not look at the answer, so the ticket is backed exactly when the
reservation has not been released or expired before the payment is handled (`tickets_backed`).
`unbacked_ticket` is the run in which the reaper comes first.
-/

namespace EventSphere.Api.Shop

open Inventory (Settings)

/-- The seats of the order are sold: its reservation is confirmed, and its quantity is among the
confirmed seats of the event. -/
def Backed (s : Shop) (o : Order) : Prop :=
  ∃ r row, s.inventory.plain.get o.reservationId = some r ∧ r.status = .confirmed ∧
    s.inventory.versioned.get r.eventId = some row ∧ r.quantity ≤ row.confirmedCount

/-- Every order that the action moves to confirmed is backed. -/
def TicketsBacked (settings : Settings) (s : Shop) (a : ShopAction) : Prop :=
  ∀ s', s.step settings a = some s' → ∀ i o, s'.orders.get i = some o → o.status = .confirmed →
    (∀ o₀, s.orders.get i = some o₀ → o₀.status ≠ .confirmed) → s'.Backed o

/-- A successful payment of a pending order is handled only while its reservation holds its
seats. -/
def LiveReservation (s : Shop) : ShopAction → Prop
  | .deliver n _ => ∀ m ∈ s.published[n]?, ∀ i ref, m = .paymentProcessed i true ref →
    ∀ o ∈ s.orders.get i, o.status = .pending →
    ∀ r ∈ s.inventory.plain.get o.reservationId, r.status = .pending ∨ r.status = .confirmed
  | _ => True

section
variable {settings : Settings} {s s' : Shop}

/-- A payment is handled to its end if the inventory answers the confirmation. -/
theorem step_confirmed {n : ℕ} (env : Env) {i : UUID} {ref : String} {o : Order}
    {res : Inventory.Result} (hm : s.published[n]? = some (.paymentProcessed i true ref))
    (ho : s.orders.get i = some o) (hs : o.status = .pending)
    (hres : rpcResult (((Inventory.Call.confirmReservation o.reservationId).body
      settings).atomically s.inventory env.inventory).1 = .ok res) :
    s.step settings (.deliver n env) = some ⟨s.orders.set { o with status := .confirmed },
      Inventory.serve settings s.inventory (.confirmReservation o.reservationId, env.inventory),
      s.published ++ [.ticketIssued o.id o.userId o.eventId], s.handled ++ [n], s.cancelled⟩ := by
  obtain rfl : o.id = i := s.orders.pk_of_get ho
  rcases exec_settle settings env ho (.confirmReservation o.reservationId) .confirmed
    (.ticketIssued o.id o.userId o.eventId) () with ⟨e, he, -⟩ | ⟨-, he⟩
  · rw [hres] at he
    cases he
  · have hexec : (worker (.paymentProcessed o.id true ref)).exec settings env .empty s =
        (ApiProg.rpc (.confirmReservation o.reservationId) fun _ => .setStatus o .confirmed
          (.commit (.publish (.ticketIssued o.id o.userId o.eventId) (.ret ())))).exec settings env
          .empty s := by
      simp [worker, orderStatusWorker, handlePaymentProcessed, confirmReservation, ApiProg.exec,
        ho, hs]
    rw [step, hm, Option.map_some, hexec, he]
    rfl

/-- A confirmed reservation is counted. -/
theorem backed_of_confirmed (h : Inventory.Accounted s.inventory) {o : Order}
    {r : Inventory.Reservation} (hr : s.inventory.plain.get o.reservationId = some r)
    (hs : r.status = .confirmed) : s.Backed o := by
  obtain ⟨row, hrow⟩ := Table.exists_get (h.inv.fk hr)
  rw [Inventory.fk_reservation] at hrow
  refine ⟨r, row, hr, hs, hrow, ?_⟩
  have hsum := h.confirmed r.eventId
  rw [Table.term_of_get _ hrow] at hsum
  have hle := Table.le_sum (h.seats_nonneg (· = .confirmed) r.eventId) hr
  simp only [Inventory.seats_self, hs, decide_true, if_true] at hle
  omega

/-- The confirmation that a handled payment makes leaves a live reservation confirmed. -/
theorem confirmed_after (h : Inventory.Accounted s.inventory) {i : UUID} {inp : Input UUID}
    {res : Inventory.Result}
    (hres : rpcResult (((Inventory.Call.confirmReservation i).body settings).atomically
      s.inventory inp).1 = .ok res)
    (hlive : ∀ r ∈ s.inventory.plain.get i, r.status = .pending ∨ r.status = .confirmed) :
    ∃ r, (Inventory.serve settings s.inventory (.confirmReservation i, inp)).plain.get i = some r ∧
      r.status = .confirmed := by
  cases hr : s.inventory.plain.get i with
  | none =>
    rw [Inventory.confirm_missing settings inp hr] at hres
    cases hres
  | some r =>
    obtain rfl : r.id = i := s.inventory.plain.pk_of_get hr
    rcases hlive r hr with hs | hs
    · obtain ⟨row, hrow⟩ := Inventory.exists_eventRow h.inv hr
      refine ⟨{ r with status := .confirmed }, ?_, rfl⟩
      rw [Inventory.serve, Inventory.confirm_pending settings inp h.inv hr hs hrow]
      exact Inventory.get_set_reservation _ { r with status := .confirmed }
    · refine ⟨r, ?_, hs⟩
      rw [Inventory.serve, Inventory.confirm_other settings inp hr (by rw [hs]; nofun)]
      exact hr

/-- **One action backs its tickets exactly when it meets the condition.** -/
theorem ticketsBacked_iff (h : Inventory.Accounted s.inventory) {a : ShopAction} :
    TicketsBacked settings s a ↔ LiveReservation s a := by
  constructor
  · -- otherwise the confirmation is answered and the reservation stays as it is
    intro hP
    cases a with
    | deliver n env =>
      rintro m hm i ref rfl o ho hs r hr
      obtain rfl : o.id = i := s.orders.pk_of_get ho
      by_contra hdead
      obtain ⟨h1, h2⟩ := not_or.1 hdead
      have hid : r.id = o.reservationId := s.inventory.plain.pk_of_get hr
      have hconf := Inventory.confirm_other settings env.inventory (hid.symm ▸ hr) h1
      rw [hid] at hconf
      have hstep := step_confirmed env hm ho hs (congrArg (rpcResult ·.1) hconf)
      obtain ⟨r', -, hr', hs', -⟩ := hP _ hstep o.id { o with status := .confirmed }
        (get_set_order _ { o with status := .confirmed }) rfl
        fun o₀ ho₀ => by
          cases ho.symm.trans ho₀
          rw [hs]; nofun
      rw [Inventory.serve, hconf] at hr'
      cases hr.symm.trans hr'
      exact h2 hs'
    | bookTickets | cancelOrder | reservationReaper | inventory => trivial
  · intro hQ s' hstep i o ho hs hold
    -- an order that was there before was confirmed before
    have hkeep : s.orders.get i = some o → s'.Backed o := fun h' => absurd hs (hold o h')
    have hset : ∀ {o' : Order}, o'.status ≠ .confirmed → (s.orders.set o').get i = some o →
        s'.Backed o := fun hne hget => by
      rcases Table.get_set_inv hget with ⟨-, rfl⟩ | hget
      · exact absurd hs hne
      · exact hkeep hget
    have hacc := accounted_step hstep h
    cases step_kind hstep with
    | idle | skipped | charged | reaped => exact hkeep ho
    | booked _ hp => exact hset (by rw [hp]; decide) ho
    | cancelled | refused | expired => exact hset (by simp) ho
    | confirmed hm ho' hs' hres =>
      rcases Table.get_set_inv ho with ⟨-, rfl⟩ | ho
      · obtain ⟨r, hr, hrs⟩ := confirmed_after h hres (hQ _ hm _ _ rfl _ ho' hs')
        exact backed_of_confirmed hacc hr hrs
      · exact hkeep ho

end

/-- **Tickets are backed by seats exactly while reservations are live.** In every run of the
composed system, every order that is moved to confirmed has a confirmed and counted reservation if
and only if every successful payment of a pending order is handled before its reservation is
released or expires. -/
theorem tickets_backed (settings : Settings) (as : List ShopAction) :
    Along (step settings) (TicketsBacked settings) .init as ↔
      Along (step settings) LiveReservation .init as :=
  along_iff (I := fun s => Inventory.Accounted s.inventory) (fun h _ hs => accounted_step hs h)
    (fun h => ticketsBacked_iff h) Inventory.accounted_empty

/-! ## The run that issues a ticket without seats -/

/-- **A ticket can be issued without seats**: the payment is handled before the expiry. -/
theorem unbacked_ticket : ¬ Along (step .default) (TicketsBacked .default) .init
    (latePayment ++ [.deliver 2 (answers 600000003)]) := by
  obtain ⟨s, hs, hold, h⟩ : ∃ s, run (step .default) .init latePayment = some s ∧
      (s.orders.get ⟨3⟩).any (·.status = .pending) ∧
      (s.step .default (.deliver 2 (answers 600000003))).any fun s' =>
        (s'.orders.get ⟨3⟩).any (fun o => o.status = .confirmed ∧ o.reservationId = ⟨4⟩) ∧
        (s'.inventory.plain.get ⟨4⟩).any (·.status = .expired) :=
    exists_of_run (by decide +kernel)
  obtain ⟨s', hs', h⟩ := (Option.any_eq_true _ _).1 h
  obtain ⟨hnew, hres⟩ := of_decide_eq_true h
  obtain ⟨o, ho, h1⟩ := (Option.any_eq_true _ _).1 hnew
  obtain ⟨h1, h2⟩ := of_decide_eq_true h1
  intro hA
  obtain ⟨r, -, hr, hconf, -⟩ := ((along_append hs).1 hA).2.1 s' hs' ⟨3⟩ o ho h1 fun o₀ ho₀ => by
    rw [ho₀] at hold
    rw [of_decide_eq_true hold]
    decide
  rw [h2] at hr
  rw [hr] at hres
  have := of_decide_eq_true hres
  rw [hconf] at this
  cases this

end EventSphere.Api.Shop
