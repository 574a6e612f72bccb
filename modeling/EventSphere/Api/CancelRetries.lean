import EventSphere.Api.Client
import EventSphere.Inventory.Redelivery

/-!
# Cancelling an order until it works

`cancel_order` releases the reservation in one database and then cancels the order in another.
Between the two it can fail, and then the order still looks live and is cancelled again. What makes
the repetition safe is that a second release of a reservation is answered and does nothing
(`Inventory.release_other`): the seats are returned by the first release that is executed
(`cancel_retries`), and the first commit ends the matter.
-/

namespace EventSphere.Api.Client

open Inventory (Settings Accounted EventInventory)

/-- The effect is the release of the reservation `i`. -/
def releases (i : UUID) : Effect Order → Bool
  | .called (.releaseReservation i' _) => i' = i
  | _ => false

/-- The effect is a commit. -/
def commits : Effect Order → Bool
  | .committed => true
  | _ => false

/-- The seats that the event counts as taken, held or sold. -/
def taken (s : Shop) (e : UUID) : ℤ := s.inventory.versioned.term EventInventory.taken e

/-- What a cancelled order answers to its cancellation. -/
def alreadyCancelled : ApiError := .domain (.validation "Order is already cancelled")

/-- Others leave the order and its reservation alone, and the inventory in order. -/
def Elsewhere (o : Order) (c : Client Order) (t : Turn) : Prop :=
  ∀ shop, t = .others shop → shop.orders.get o.id = c.shop.orders.get o.id ∧
    shop.inventory.plain.get o.reservationId = c.shop.inventory.plain.get o.reservationId ∧
    Accounted shop.inventory

/-- The seats of the order are returned with its first release, and no seats otherwise. -/
def SeatsFollow (o : Order) (c c' : Client Order) : Prop :=
  taken c'.shop o.eventId = taken c.shop o.eventId -
    if c'.log.any (releases o.reservationId) ∧ ¬ c.log.any (releases o.reservationId)
    then o.quantity else 0

/-- The turn returns the seats of the order if it executes the first release, and no seats
otherwise. -/
def ReturnsSeatsOnce (settings : Settings) (o : Order) (c : Client Order) (t : Turn) : Prop :=
  ∀ c', c.step settings (cancelOrder o.id o.userId) t = some c' → t.byOthers = false →
    SeatsFollow o c c'

/-- The turn changes nothing, and an attempt that ends with it is refused. -/
def Refuses (settings : Settings) (o : Order) (c : Client Order) (t : Turn) : Prop :=
  ∀ c', c.step settings (cancelOrder o.id o.userId) t = some c' → t.byOthers = false →
    c'.shop = c.shop ∧ (c'.log = c.log ∨ c'.log = c.log ++ [.ended (.error alreadyCancelled)])

/-! ## The stages of an attempt -/

/-- The order, cancelled. -/
abbrev cancelledOrder (o : Order) : Order := { o with status := .cancelled }

/-- The last operations of `cancel_order`, from the message on. -/
def publishing (o : Order) : ApiProg Order :=
  .publish (.orderCancelled o.id o.reservationId) (.ret (cancelledOrder o))

/-- The operations of `cancel_order` after the status of the order has been checked. -/
def releasing (o : Order) : ApiProg Order :=
  .rpc (.releaseReservation o.reservationId false) fun _ =>
    .setStatus o .cancelled (.commit (publishing o))

/-- Where the running attempt can be, by whether the reservation has been released and the order
committed as cancelled. -/
inductive Stage (o : Order) : Bool → Bool → Option (ApiProg Order × ApiSession) → Prop
  | idle {released committed : Bool} : Stage o released committed none
  | begin {released committed : Bool} :
      Stage o released committed (some (cancelOrder o.id o.userId, .empty))
  | refused : Stage o true true (some (.raise alreadyCancelled, .empty))
  | release {released : Bool} : Stage o released false (some (releasing o, .empty))
  | assign : Stage o true false (some (.setStatus o .cancelled (.commit (publishing o)), .empty))
  | commit : Stage o true false (some (.commit (publishing o), ⟨none, some (o, .cancelled), none⟩))
  | publish : Stage o true true (some (publishing o, .empty))
  | ret : Stage o true true (some (.ret (cancelledOrder o), .empty))

/-- The invariant of the attempts: what has become of the order and of its reservation, and where
the running attempt is. -/
structure Cancelling (o : Order) (r : Inventory.Reservation) (c : Client Order) : Prop where
  accounted : Accounted c.shop.inventory
  order : c.shop.orders.get o.id = some (if c.log.any commits then cancelledOrder o else o)
  reservation : c.shop.inventory.plain.get o.reservationId =
    some (if c.log.any (releases o.reservationId) then { r with status := .released } else r)
  stage : Stage o (c.log.any (releases o.reservationId)) (c.log.any commits) c.running
  released : c.log.any commits = true → c.log.any (releases o.reservationId) = true

/-- The system after the release of the order's reservation. -/
def afterRelease (settings : Settings) (s : Shop) (o : Order) (inp : Input UUID) : Shop :=
  let call := Inventory.Call.releaseReservation o.reservationId false
  { s with inventory := Inventory.serve settings s.inventory (call, inp) }

/-- The kinds of operations of an attempt, with everything each of them does. -/
inductive AdvanceKind (settings : Settings) (o : Order) (r : Inventory.Reservation)
    (c : Client Order) : Client Order → Prop
  | looked {running : Option (ApiProg Order × ApiSession)}
      (h : Stage o (c.log.any (releases o.reservationId)) (c.log.any commits) running)
      (hidle : c.log.any commits = true → running = some (.raise alreadyCancelled, .empty)) :
      AdvanceKind settings o r c ⟨c.shop, running, c.log⟩
  | refused (h : c.log.any commits = true) :
      AdvanceKind settings o r c ⟨c.shop, none, c.log ++ [.ended (.error alreadyCancelled)]⟩
  | released (h : c.log.any (releases o.reservationId) = false)
      (hc : c.log.any commits = false) (env : Env) :
      AdvanceKind settings o r c ⟨afterRelease settings c.shop o env.inventory,
        some (.setStatus o .cancelled (.commit (publishing o)), .empty),
        c.log ++ [.called (.releaseReservation o.reservationId false)]⟩
  | releasedAgain (h : c.log.any (releases o.reservationId) = true)
      (hc : c.log.any commits = false) :
      AdvanceKind settings o r c ⟨c.shop,
        some (.setStatus o .cancelled (.commit (publishing o)), .empty),
        c.log ++ [.called (.releaseReservation o.reservationId false)]⟩
  | committed (h : c.log.any (releases o.reservationId) = true)
      (hc : c.log.any commits = false) :
      AdvanceKind settings o r c ⟨{ c.shop with orders := c.shop.orders.set (cancelledOrder o) },
        some (publishing o, .empty), c.log ++ [.committed]⟩
  | published (h : c.log.any (releases o.reservationId) = true)
      (hc : c.log.any commits = true) (hrun : c.running = some (publishing o, .empty)) :
      AdvanceKind settings o r c
        ⟨{ c.shop with published := c.shop.published ++ [.orderCancelled o.id o.reservationId] },
          some (.ret (cancelledOrder o), .empty),
          c.log ++ [.published (.orderCancelled o.id o.reservationId)]⟩
  | returned (h : c.log.any (releases o.reservationId) = true) (hc : c.log.any commits = true)
      (hrun : c.running = some (.ret (cancelledOrder o), .empty)) :
      AdvanceKind settings o r c ⟨c.shop, none, c.log ++ [.ended (.ok (cancelledOrder o))]⟩

section
variable {settings : Settings} {o : Order} {r : Inventory.Reservation} {c c' : Client Order}
  {s : Shop} {env : Env} {p : ApiProg Order} {σ : ApiSession}

/-- `cancel_order` for the owner of the order. -/
theorem cancelOrder_eq (o : Order) : cancelOrder o.id o.userId =
    .getForUser o.id o.userId fun
      | none => raiseDomain (.notFound s!"No order {o.id}")
      | some order =>
        if order.userId ≠ o.userId then
          raiseDomain (.authorization "You do not have permission to cancel this order")
        else if order.status = .cancelled ∨ order.status = .expired then
          raiseDomain (.validation s!"Order is already {order.status.value}")
        else releasing order := by
  unfold cancelOrder releaseReservation
  rfl

/-- The first operation finds a live order. -/
theorem next_live (ho : s.orders.get o.id = some o)
    (hlive : o.status = .pending ∨ o.status = .confirmed) :
    (cancelOrder o.id o.userId).next s.orders env.api .empty = .continue (releasing o) .empty := by
  have hdead : ¬ (o.status = .cancelled ∨ o.status = .expired) := by
    rcases hlive with h | h <;> simp [h]
  rw [cancelOrder_eq]
  simp [ApiProg.next, ho, hdead, Option.filter]

/-- The first operation finds the order cancelled. -/
theorem next_cancelled (ho : s.orders.get o.id = some (cancelledOrder o)) :
    (cancelOrder o.id o.userId).next s.orders env.api .empty =
      .continue (.raise alreadyCancelled) .empty := by
  rw [cancelOrder_eq]
  simp [ApiProg.next, ho, Option.filter, raiseDomain, alreadyCancelled, OrderStatus.value]
  rfl

/-- The reservation before its first release. -/
theorem Cancelling.unreleased (h : Cancelling o r c)
    (hrel : c.log.any (releases o.reservationId) = false) :
    c.shop.inventory.plain.get o.reservationId = some r := by
  have hres := h.reservation
  rwa [hrel] at hres

/-- **What an operation of an attempt does.** -/
theorem Cancelling.advance_kind (h : Cancelling o r c)
    (hos : o.status = .pending ∨ o.status = .confirmed)
    (hrs : r.status = .pending ∨ r.status = .confirmed) (hrun : c.running = some (p, σ)) :
    AdvanceKind settings o r c (c.advance settings env p σ) := by
  have hstage := h.stage
  have horder := h.order
  have hres := h.reservation
  rw [hrun] at hstage
  generalize hrel : c.log.any (releases o.reservationId) = rel at hstage hres
  generalize hcom : c.log.any commits = com at hstage horder
  cases hstage with
  | begin =>
    cases com with
    | true =>
      have hnext : (cancelOrder o.id o.userId).next c.shop.orders env.api .empty = _ :=
        next_cancelled horder
      simp only [advance, hnext]
      exact .looked (by rw [h.released hcom, hcom]; exact .refused) fun _ => rfl
    | false =>
      have hnext : (cancelOrder o.id o.userId).next c.shop.orders env.api .empty = _ :=
        next_live horder hos
      simp only [advance, hnext]
      exact .looked (hcom ▸ .release) fun hc => by rw [hcom] at hc; cases hc
  | refused => exact .refused hcom
  | release =>
    cases rel with
    | false =>
      have hget := h.unreleased hrel
      obtain ⟨row, hrow⟩ := Inventory.exists_eventRow h.accounted.inv hget
      have hout := congrArg Prod.fst (Inventory.release_active settings env.inventory
        h.accounted.inv false hget hrs hrow)
      simp only [advance, releasing, ApiProg.next, hout, rpcResult]
      exact .released hrel hcom env
    | true =>
      have hinactive : ReservationStatus.released ≠ .pending ∧
          ReservationStatus.released ≠ .confirmed := by decide
      have hexec := Inventory.release_other settings env.inventory false hres hinactive
      simp only [advance, releasing, ApiProg.next, hexec, rpcResult]
      exact .releasedAgain hrel hcom
  | assign => exact .looked (hrel ▸ hcom ▸ .commit) fun hc => by rw [hcom] at hc; cases hc
  | commit =>
    have hview : ApiSession.view ⟨none, some (o, .cancelled), none⟩ c.shop.orders =
        c.shop.orders.set (cancelledOrder o) := ApiSession.view_status horder _ _
    simp only [advance, ApiProg.next, hview]
    exact .committed hrel hcom
  | publish => exact .published hrel hcom hrun
  | ret => exact .returned hrel hcom hrun

/-! ## What the operations keep -/

@[simp] theorem any_append_singleton {α : Type} (l : List α) (a : α) (p : α → Bool) :
    (l ++ [a]).any p = (l.any p || p a) := by
  simp

variable (settings) in
/-- The release of a live reservation. -/
theorem release_taken (h : Accounted s.inventory) (inp : Input UUID)
    (hr : s.inventory.plain.get o.reservationId = some r)
    (hrs : r.status = .pending ∨ r.status = .confirmed) (e : UUID) :
    (afterRelease settings s o inp).inventory.plain.get o.reservationId =
        some { r with status := .released } ∧
      taken (afterRelease settings s o inp) e =
        taken s e - if r.eventId = e then r.quantity else 0 := by
  obtain ⟨row, hrow⟩ := Inventory.exists_eventRow h.inv hr
  have hserve : (afterRelease settings s o inp).inventory = _ :=
    congrArg Prod.snd (Inventory.release_active settings inp h.inv false hr hrs hrow)
  have hid : r.id = o.reservationId := s.inventory.plain.pk_of_get hr
  have he : row.eventId = r.eventId := s.inventory.versioned.pk_of_get hrow
  refine ⟨?_, ?_⟩
  · rw [hserve, ← hid]
    exact Inventory.get_set_reservation _ { r with status := .released }
  · rw [taken, hserve, Table.term_set, taken]
    simp only [Inventory.pk_inventory, Inventory.bump_eventId, Inventory.giveBack_eventId,
      Inventory.bump_taken, Inventory.giveBack_taken, he]
    by_cases hev : r.eventId = e
    · subst hev
      rw [if_pos rfl, if_pos rfl, Table.term_of_get _ hrow]
    · rw [if_neg (Ne.symm hev), if_neg hev, sub_zero]

/-- An operation keeps the invariant. -/
theorem AdvanceKind.cancelling (hk : AdvanceKind settings o r c c') (h : Cancelling o r c)
    (hrs : r.status = .pending ∨ r.status = .confirmed) : Cancelling o r c' := by
  have horder := h.order
  have hres := h.reservation
  cases hk with
  | looked hstage => exact ⟨h.accounted, horder, hres, hstage, h.released⟩
  | refused hcom | returned _ hcom =>
    exact ⟨h.accounted, by simpa [commits] using horder, by simpa [releases] using hres, .idle,
      by simpa [commits, releases] using h.released⟩
  | released hrel hcom env =>
    rw [hcom] at horder
    obtain ⟨hrelease, -⟩ := release_taken settings h.accounted env.inventory
      (h.unreleased hrel) hrs o.eventId
    exact ⟨h.accounted.serve _, by simpa [commits, hcom, afterRelease] using horder,
      by simpa [releases] using hrelease, by simpa [commits, releases, hcom] using .assign,
      by simp [releases]⟩
  | releasedAgain hrel hcom =>
    exact ⟨h.accounted, by simpa [commits, hcom] using horder, by simpa [releases, hrel] using hres,
      by simpa [commits, releases, hcom] using .assign, by simp [releases]⟩
  | committed hrel hcom =>
    refine ⟨h.accounted, ?_, by simpa [releases, hrel] using hres,
      by simpa [commits, releases, hrel] using .publish, by simp [releases, hrel]⟩
    simp [commits, get_set_order c.shop.orders (cancelledOrder o)]
  | published hrel hcom =>
    exact ⟨h.accounted, by simpa [commits, hcom] using horder, by simpa [releases, hrel] using hres,
      by simpa [commits, releases, hrel, hcom] using .ret, fun _ => by simp [releases, hrel]⟩

/-- **One turn keeps the invariant.** -/
theorem Cancelling.step (h : Cancelling o r c) (hos : o.status = .pending ∨ o.status = .confirmed)
    (hrs : r.status = .pending ∨ r.status = .confirmed) {t : Turn} (ht : Elsewhere o c t)
    (hs : c.step settings (cancelOrder o.id o.userId) t = some c') : Cancelling o r c' := by
  cases t with
  | attempt =>
    simp only [Client.step] at hs
    split at hs
    · cases hs; exact ⟨h.accounted, h.order, h.reservation, .begin, h.released⟩
    · cases hs
  | advance env =>
    obtain ⟨x, hrun, rfl⟩ := Option.map_eq_some_iff.1 hs
    exact (h.advance_kind hos hrs hrun).cancelling h hrs
  | fail =>
    obtain ⟨-, -, rfl⟩ := Option.map_eq_some_iff.1 hs
    exact ⟨h.accounted, h.order, h.reservation, .idle, h.released⟩
  | others shop =>
    cases hs
    obtain ⟨horder, hres, hacc⟩ := ht shop rfl
    exact ⟨hacc, horder.trans h.order, hres.trans h.reservation, h.stage, h.released⟩

/-- A turn that leaves the inventory alone and is not the first release. -/
theorem seatsFollow_quiet (hinv : c'.shop.inventory = c.shop.inventory)
    (hlog : c'.log.any (releases o.reservationId) = true →
      c.log.any (releases o.reservationId) = true) : SeatsFollow o c c' := by
  rw [SeatsFollow, if_neg fun h => h.2 (hlog h.1), sub_zero, taken, taken, hinv]

/-- An operation returns the seats at the first release only. -/
theorem AdvanceKind.seatsFollow (hk : AdvanceKind settings o r c c') (h : Cancelling o r c)
    (hrs : r.status = .pending ∨ r.status = .confirmed) (hev : r.eventId = o.eventId)
    (hq : r.quantity = o.quantity) : SeatsFollow o c c' := by
  cases hk with
  | looked => exact seatsFollow_quiet rfl id
  | refused | returned => exact seatsFollow_quiet rfl (by simp [releases])
  | releasedAgain hrel | committed hrel
  | published hrel => exact seatsFollow_quiet rfl fun _ => hrel
  | released hrel hcom env =>
    obtain ⟨-, hrelease⟩ := release_taken settings h.accounted env.inventory
      (h.unreleased hrel) hrs o.eventId
    rw [if_pos hev, hq] at hrelease
    rw [SeatsFollow, hrelease, if_pos]
    simp [releases, hrel]

/-- **One turn returns the seats at the first release only.** -/
theorem Cancelling.returnsSeatsOnce (h : Cancelling o r c)
    (hos : o.status = .pending ∨ o.status = .confirmed)
    (hrs : r.status = .pending ∨ r.status = .confirmed) (hev : r.eventId = o.eventId)
    (hq : r.quantity = o.quantity) (t : Turn) : ReturnsSeatsOnce settings o c t := by
  intro c' hs ht
  cases t with
  | attempt =>
    simp only [Client.step] at hs
    split at hs
    · cases hs; exact seatsFollow_quiet rfl id
    · cases hs
  | advance env =>
    obtain ⟨x, hrun, rfl⟩ := Option.map_eq_some_iff.1 hs
    exact (h.advance_kind hos hrs hrun).seatsFollow h hrs hev hq
  | fail =>
    obtain ⟨-, -, rfl⟩ := Option.map_eq_some_iff.1 hs
    exact seatsFollow_quiet rfl id
  | others shop => cases ht

/-! ## After the commit -/

/-- No attempt that could change anything is running: the order has been cancelled, and the running
attempt, if there is one, has begun since. -/
def Settled (o : Order) (c : Client Order) : Prop :=
  c.log.any commits = true ∧
    ∀ x ∈ c.running, x = (cancelOrder o.id o.userId, .empty) ∨ x = (.raise alreadyCancelled, .empty)

/-- An operation after the commit. -/
theorem AdvanceKind.settled (hk : AdvanceKind settings o r c c') (hset : Settled o c)
    (hrun : c.running = some (p, σ)) :
    Settled o c' ∧ c'.shop = c.shop ∧
      (c'.log = c.log ∨ c'.log = c.log ++ [.ended (.error alreadyCancelled)]) := by
  obtain ⟨hcom, hprog⟩ := hset
  have hprog := hprog _ hrun
  cases hk with
  | looked hstage hidle =>
    refine ⟨⟨hcom, fun x hx => ?_⟩, rfl, .inl rfl⟩
    rw [hidle hcom] at hx
    cases hx
    exact .inr rfl
  | refused => exact ⟨⟨by simp [hcom], by rintro _ ⟨⟩⟩, rfl, .inr rfl⟩
  | released _ hcom' | releasedAgain _ hcom' | committed _ hcom' =>
    rw [hcom] at hcom'
    cases hcom'
  | published _ _ hrun' =>
    rw [hrun] at hrun'
    cases hrun'
    rcases hprog with h | h <;> simp [publishing, cancelOrder_eq] at h
  | returned _ _ hrun' =>
    rw [hrun] at hrun'
    cases hrun'
    rcases hprog with h | h <;> simp [cancelOrder_eq] at h

/-- **One turn after the commit changes nothing**, and it stays so. -/
theorem Cancelling.refuses (h : Cancelling o r c)
    (hos : o.status = .pending ∨ o.status = .confirmed)
    (hrs : r.status = .pending ∨ r.status = .confirmed) (hset : Settled o c) {t : Turn}
    (hs : c.step settings (cancelOrder o.id o.userId) t = some c') :
    Settled o c' ∧ (t.byOthers = false → c'.shop = c.shop ∧
      (c'.log = c.log ∨ c'.log = c.log ++ [.ended (.error alreadyCancelled)])) := by
  cases t with
  | attempt =>
    simp only [Client.step] at hs
    split at hs
    · cases hs
      refine ⟨⟨hset.1, fun x hx => ?_⟩, fun _ => ⟨rfl, .inl rfl⟩⟩
      cases hx
      exact .inl rfl
    · cases hs
  | advance env =>
    obtain ⟨x, hrun, rfl⟩ := Option.map_eq_some_iff.1 hs
    have hk : AdvanceKind settings o r c (advance settings env c x.1 x.2) :=
      h.advance_kind hos hrs hrun
    obtain ⟨h1, h2⟩ := hk.settled hset hrun
    exact ⟨h1, fun _ => h2⟩
  | fail =>
    obtain ⟨-, -, rfl⟩ := Option.map_eq_some_iff.1 hs
    exact ⟨⟨hset.1, by rintro _ ⟨⟩⟩, fun _ => ⟨rfl, .inl rfl⟩⟩
  | others shop =>
    cases hs
    exact ⟨hset, by rintro ⟨⟩⟩

/-- A whole attempt on a cancelled order. -/
theorem exec_cancelled (env : Env) (ho : s.orders.get o.id = some (cancelledOrder o)) :
    (cancelOrder o.id o.userId).exec settings env .empty s = (.error alreadyCancelled, s) := by
  rw [cancelOrder_eq]
  simp [ApiProg.exec, ho, Option.filter, raiseDomain, alreadyCancelled, OrderStatus.value]
  rfl

end

/-- **Retried cancellations return the seats exactly once.** Take an order that is pending or
confirmed with its reservation, which is pending or confirmed too and for the event and the quantity
of the order (`System.references_hold`), in a system whose inventory satisfies the seat-accounting
equations, and any sequence of attempts of the owner to cancel it, each of which may fail before any
of its operations, while others leave the order and the reservation alone. Then
* the seats that the event counts as taken decrease by the quantity of the order with the first
  release that is executed, and by no other operation of an attempt;
* once an attempt has committed, the order is cancelled and its reservation released;
* from then on, further attempts change nothing: one that is left alone ends with the
  `ValidationError`, and no operation of any of them has an effect. -/
theorem cancel_retries (settings : Settings) (s : Shop) (o : Order) (r : Inventory.Reservation)
    (ts : List Turn) (hacc : Accounted s.inventory) (ho : s.orders.get o.id = some o)
    (hos : o.status = .pending ∨ o.status = .confirmed)
    (hr : s.inventory.plain.get o.reservationId = some r)
    (hrs : r.status = .pending ∨ r.status = .confirmed)
    (hfor : r.eventId = o.eventId ∧ r.quantity = o.quantity)
    (hothers : Along (step settings (cancelOrder o.id o.userId)) (Elsewhere o) (start s) ts) :
    Along (step settings (cancelOrder o.id o.userId)) (ReturnsSeatsOnce settings o) (start s) ts ∧
    ∀ pre post c, ts = pre ++ post →
      run (step settings (cancelOrder o.id o.userId)) (start s) pre = some c →
      c.log.any commits = true →
      c.shop.orders.get o.id = some { o with status := .cancelled } ∧
      c.shop.inventory.plain.get o.reservationId = some { r with status := .released } ∧
      (c.running = none →
        (∀ env, (cancelOrder o.id o.userId).exec settings env .empty c.shop =
          (.error alreadyCancelled, c.shop)) ∧
        Along (step settings (cancelOrder o.id o.userId)) (Refuses settings o) c post) := by
  have hstart : Cancelling o r (start s) :=
    ⟨hacc, ho, hr, .idle, by rintro ⟨⟩⟩
  refine ⟨along_of_inv (I := Cancelling o r) (fun h ht hs => h.step hos hrs ht hs)
    (fun h _ => h.returnsSeatsOnce hos hrs hfor.1 hfor.2 _) hstart hothers, ?_⟩
  rintro pre post c rfl hrun hcom
  obtain ⟨hpre, hpost⟩ := (along_append hrun).1 hothers
  have h : Cancelling o r c := run_inv_along (I := Cancelling o r)
    (fun h ht hs => h.step hos hrs ht hs) hpre hrun hstart
  have horder := h.order
  have hres := h.reservation
  rw [hcom] at horder
  rw [h.released hcom] at hres
  refine ⟨horder, hres, fun hidle => ⟨fun env => exec_cancelled env horder, ?_⟩⟩
  have hset : Settled o c := ⟨hcom, by rw [hidle]; rintro _ ⟨⟩⟩
  exact along_of_inv (C := Elsewhere o) (I := fun c => Cancelling o r c ∧ Settled o c)
    (fun h ht hs => ⟨h.1.step hos hrs ht hs, (h.1.refuses hos hrs h.2 hs).1⟩)
    (fun h _ c' hs => (h.1.refuses hos hrs h.2 hs).2) ⟨h, hset⟩ hpost

/-- A client that nobody interferes with. -/
theorem elsewhere_of_own {settings : Settings} {request : ApiProg Order} {o : Order}
    {c : Client Order} {ts : List Turn} (h : ∀ t ∈ ts, t.byOthers = false) :
    Along (step settings request) (Elsewhere o) c ts := by
  refine along_of_inv (C := fun _ t => t.byOthers = false) (I := fun _ => True)
    (fun _ _ _ => trivial) (fun _ ht shop he => ?_) trivial (along_of_forall_mem h)
  rw [he] at ht
  cases ht

/-- An order for one held seat. -/
def heldOrder : Order := ⟨⟨2⟩, ⟨5⟩, ⟨1⟩, ⟨100⟩, 1, 1000, 1000, .pending, none⟩

/-- The system with the order. -/
def heldShop : Shop :=
  ⟨.set .empty heldOrder, Inventory.serveAll .default Inventory.heldSeat, [], [], []⟩

/-- The answer to the first release is lost, and the cancellation is repeated. -/
def lostAnswer : List Turn :=
  [.attempt, .advance (Shop.answers 0), .advance (Shop.answers 0), .fail, .attempt] ++
    List.replicate 6 (.advance (Shop.answers 0))

/-- The repeated cancellation goes through, and the seat is returned once. -/
theorem cancel_retries_lostAnswer : ∃ c,
    run (step .default (cancelOrder ⟨2⟩ ⟨5⟩)) (start heldShop) lostAnswer = some c ∧
    c.shop.orders.get ⟨2⟩ = some { heldOrder with status := .cancelled } ∧
    Along (step .default (cancelOrder ⟨2⟩ ⟨5⟩)) (ReturnsSeatsOnce .default heldOrder)
      (start heldShop) lostAnswer := by
  obtain ⟨c, hc, hcom⟩ : ∃ c, run (step .default (cancelOrder ⟨2⟩ ⟨5⟩)) (start heldShop)
      lostAnswer = some c ∧ c.log.any commits = true := exists_of_run (by decide +kernel)
  have h := cancel_retries .default heldShop heldOrder
    ⟨⟨100⟩, ⟨1⟩, ⟨2⟩, 1, .pending, 600000000⟩ lostAnswer
    (Inventory.accounted_serveAll .default Inventory.heldSeat) rfl (.inl rfl)
    (by decide +kernel) (.inl rfl) ⟨rfl, rfl⟩ (elsewhere_of_own (by decide))
  exact ⟨c, hc, (h.2 lostAnswer [] c (List.append_nil _).symm hc hcom).1, h.1⟩

end EventSphere.Api.Client
