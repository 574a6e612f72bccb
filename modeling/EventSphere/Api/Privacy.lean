import EventSphere.Api.Atomic
import EventSphere.Api.Listings
import EventSphere.Api.References

/-!
# The orders of one user

What a user is shown of orders, and what a user's cancellation changes. The queries of `get_order`,
`list_orders` and the lookup of an idempotency key (`order_repository.py:14`) select by the user, so
their results are a function of the user's rows (`SameOrders`). A cancellation releases the
reservation that its order names; nobody else's order names it (`references_hold`), so no other
order is touched, in either database (`Private.frame`).
-/

namespace EventSphere.Api

open Inventory (Settings ReleaseLocked)

/-! ## What a user is shown -/

/-- Reference: `get_order` (`booking_service.py:101`). -/
def getOrder (orderId user : UUID) : ApiProg Order := do
  match ← .getForUser orderId user .ret with
  | none => raiseDomain (.notFound s!"No order {orderId}")
  | some order => return order

/-- The replay branch of `book_tickets` (`booking_service.py:59`): the order that it returns. -/
def replay (user : UUID) (idempotencyKey : Option String) : ApiProg (Option Order) :=
  match idempotencyKey with
  | none => return none
  | some key => if key = "" then return none else .getByIdempotencyKey user key .ret

/-- A booking starts with its replay branch. -/
theorem bookTickets_eq (user eventId : UUID) (quantity : ℤ) (idempotencyKey : Option String) :
    bookTickets user eventId quantity idempotencyKey = (do
      match ← replay user idempotencyKey with
      | some existing => return existing
      | none => bookNewOrder user eventId quantity idempotencyKey) := by
  cases idempotencyKey with
  | none => rfl
  | some key =>
    show (if key = "" then _ else _) = (if key = "" then _ else _ : ApiProg _) >>= _
    split
    · rfl
    · refine congrArg (ApiProg.getByIdempotencyKey user key) (funext fun o => ?_)
      show _ = ApiProg.bind (.ret o) _
      cases o with
      | none => rfl
      | some o => rfl

/-- The columns of the orders that the programs read. -/
def columns (orders : Table OrderRow) : Table Order where
  keys := orders.keys
  get i := (orders.get i).map OrderRow.toOrder
  mem_keys i := by simp [orders.mem_keys]
  pk_of_get {i o} h := by
    obtain ⟨o', ho', rfl⟩ := Option.map_eq_some_iff.1 h
    exact orders.pk_of_get ho'

/-- The response shows the row of the order that a program returns. Reference:
`OrderRead.model_validate` (`orders.py:36`). -/
def orderRead (orders : Table OrderRow) (order : Order) : Option OrderRow := orders.get order.id

/-- Two states of the database have the same orders of the user. -/
def SameOrders (user : UUID) (orders orders' : Table OrderRow) : Prop :=
  ∀ o : OrderRow, o.userId = user → (orders.get o.id = some o ↔ orders'.get o.id = some o)

namespace SameOrders

variable {user : UUID} {orders orders' : Table OrderRow}

theorem symm (h : SameOrders user orders orders') : SameOrders user orders' orders :=
  fun o ho => (h o ho).symm

/-- The user's order under a key is the same. -/
theorem get_columns (h : SameOrders user orders orders') (i : UUID) :
    ((columns orders).get i).filter (·.userId = user) =
      ((columns orders').get i).filter (·.userId = user) := by
  have hsub {orders orders' : Table OrderRow} (h : SameOrders user orders orders') {o : Order}
      (ho : ((columns orders).get i).filter (·.userId = user) = some o) :
      ((columns orders').get i).filter (·.userId = user) = some o := by
    obtain ⟨ho, hu⟩ := Option.filter_eq_some_iff.1 ho
    obtain ⟨o', ho', rfl⟩ := Option.map_eq_some_iff.1 ho
    obtain rfl : o'.id = i := orders.pk_of_get ho'
    have := (h o' (of_decide_eq_true hu)).1 ho'
    exact Option.filter_eq_some_iff.2 ⟨by simp [columns, this], hu⟩
  exact Option.ext fun o => ⟨hsub h, hsub h.symm⟩

/-- The rows that a listing selects are the same. -/
theorem select_eq (h : SameOrders user orders orders') :
    (orders.select fun o => o.userId = user) = orders'.select fun o => o.userId = user := by
  ext o
  rw [Table.mem_select, Table.mem_select]
  refine and_congr_left fun hu => ?_
  exact h o (of_decide_eq_true hu)

/-- An order of the user under a key is the same. -/
theorem columns_get (h : SameOrders user orders orders') {i : UUID} {o : Order}
    (ho : (columns orders).get i = some o) (hu : o.userId = user) :
    (columns orders').get i = some o := by
  have hfilter : ((columns orders).get i).filter (·.userId = user) = some o :=
    Option.filter_eq_some_iff.2 ⟨ho, decide_eq_true hu⟩
  rw [h.get_columns] at hfilter
  exact (Option.filter_eq_some_iff.1 hfilter).1

/-- The lookup of a key finds the same orders. -/
theorem ordersWithKey_eq (h : SameOrders user orders orders') (scan : ScanOrder UUID)
    (key : String) :
    ordersWithKey (columns orders) scan user key =
      ordersWithKey (columns orders') scan user key := by
  have hsub {orders orders' : Table OrderRow} (h : SameOrders user orders orders') {i : UUID}
      (hi : ((columns orders).get i).any (·.HasKey user key) = true) :
      (columns orders').get i = (columns orders).get i := by
    obtain ⟨o, ho, hk⟩ := (Option.any_eq_true _ _).1 hi
    rw [ho, h.columns_get ho (of_decide_eq_true hk).1]
  have hkeys : (columns orders).keys.filter
        (fun i => ((columns orders).get i).any (·.HasKey user key)) =
      (columns orders').keys.filter fun i => ((columns orders').get i).any (·.HasKey user key) := by
    ext i
    simp only [Finset.mem_filter]
    constructor
    · rintro ⟨hi, hk⟩
      rw [(columns orders').mem_keys, hsub h hk, ← (columns orders).mem_keys]
      exact ⟨hi, hk⟩
    · rintro ⟨hi, hk⟩
      rw [(columns orders).mem_keys, hsub h.symm hk, ← (columns orders').mem_keys]
      exact ⟨hi, hk⟩
  rw [ordersWithKey, ordersWithKey, ← hkeys]
  refine List.filterMap_congr fun i hi => ?_
  rw [scan.mem_order, Finset.mem_filter] at hi
  exact (hsub h hi.2).symm

/-- The response to an order of the user is the same. -/
theorem orderRead_eq (h : SameOrders user orders orders') {o : Order}
    (ho : (columns orders).get o.id = some o) (hu : o.userId = user) :
    orderRead orders o = orderRead orders' o := by
  obtain ⟨row, hrow, rfl⟩ := Option.map_eq_some_iff.1 ho
  have hid : row.id = row.toOrder.id := orders.pk_of_get hrow
  rw [orderRead, orderRead, hrow, ← hid, (h row hu).1 (hid ▸ hrow)]

/-- `get_order` answers the same. -/
theorem getOrder_eq (h : SameOrders user orders orders') (settings : Settings) (env : Env)
    (orderId : UUID) (s s' : Shop) :
    ((getOrder orderId user).exec settings env .empty { s with orders := columns orders }).1.map
        (orderRead orders) =
      ((getOrder orderId user).exec settings env .empty { s' with orders := columns orders' }).1.map
        (orderRead orders') := by
  have hget := h.get_columns orderId
  simp only [getOrder, ApiProg.getForUser_bind, ApiProg.ret_bind, ApiProg.exec,
    ApiSession.view_empty, ← hget]
  cases ho : ((columns orders).get orderId).filter (·.userId = user) with
  | none => rfl
  | some o =>
    obtain ⟨hfound, hu⟩ := Option.filter_eq_some_iff.1 ho
    obtain rfl : o.id = orderId := (columns orders).pk_of_get hfound
    exact congrArg Except.ok (h.orderRead_eq hfound (of_decide_eq_true hu))

/-- The replay branch answers the same. -/
theorem replay_eq (h : SameOrders user orders orders') (settings : Settings) (env : Env)
    (idempotencyKey : Option String) (s s' : Shop) :
    ((replay user idempotencyKey).exec settings env .empty
      { s with orders := columns orders }).1.map
        (Option.map (orderRead orders)) =
      ((replay user idempotencyKey).exec settings env .empty
        { s' with orders := columns orders' }).1.map (Option.map (orderRead orders')) := by
  cases idempotencyKey with
  | none => rfl
  | some key =>
    have hkey := h.ordersWithKey_eq env.api.scan key
    by_cases hk : key = ""
    · simp [replay, hk, ApiProg.exec, Except.map]
    · simp only [replay, if_neg hk, ApiProg.exec, ApiSession.view_empty, ← hkey]
      cases hq : scalarOneOrNone (ordersWithKey (columns orders) env.api.scan user key) with
      | error => rfl
      | ok found =>
        cases found with
        | none => rfl
        | some o =>
          obtain ⟨hfound, hu, -⟩ := mem_ordersWithKey.1
            (scalarOneOrNone_eq_some.1 hq ▸ List.mem_singleton_self o)
          exact congrArg (Except.ok ∘ some) (h.orderRead_eq hfound hu)

end SameOrders

/-! ## What a cancellation may do -/

/-- The program of a cancellation by the user, from a state of its session and with the order that
it has loaded: it releases the order's reservation and writes the order's status, and nothing
else. -/
def ApiProg.Cancels (orderId user : UUID) :
    ApiProg (Option Order) → ApiSession → Option Order → Prop
  | ret _, _, _ | raise _, _, _ => True
  | getForUser i u k, σ, l => σ.Clean ∧ i = orderId ∧ u = user ∧ Cancels orderId user (k none) σ l ∧
    ∀ o, o.id = orderId → o.userId = user → Cancels orderId user (k (some o)) σ (some o)
  | rpc c k, σ, l => (∃ o ∈ l, c = .releaseReservation o.reservationId false) ∧
    ∀ res, Cancels orderId user (k res) σ l
  | setStatus o st k, σ, l => o ∈ l ∧ Cancels orderId user k { σ with status := some (o, st) } l
  | commit k, σ, l => σ.insert = none ∧ (∀ o st, σ.status = some (o, st) → o ∈ l) ∧
    Cancels orderId user k .empty l
  | publish _ k, σ, l => Cancels orderId user k σ l
  | getByIdempotencyKey .., _, _ | getOrder .., _, _ | getEvent .., _, _ | uuid4 .., _, _
  | charge .., _, _ | addOrder .., _, _ => False

/-- `cancel_order` does nothing else. -/
theorem cancelOrder_cancels (orderId user : UUID) :
    (ApiCall.cancelOrder orderId user).body.Cancels orderId user .empty none := by
  unfold ApiCall.body cancelOrder
  simp only [ApiProg.getForUser_bind, ApiProg.ret_bind]
  refine ⟨clean_missed _, rfl, rfl, trivial, fun o hid hu => ?_⟩
  dsimp only
  split
  · exact trivial
  · split
    · exact trivial
    · exact ⟨⟨o, rfl, rfl⟩, fun _ => ⟨rfl, rfl, fun o' st h => by cases h; rfl, trivial⟩⟩

namespace System

/-- The order is the user's, under the id, as it was committed but for its status. -/
structure Own (s : System) (orderId user : UUID) (o : Order) : Prop where
  id : o.id = orderId
  user : o.userId = user
  known : s.Holds (.known o)

/-- The invariant that carries the frame of a cancellation. -/
structure Private (settings : Settings) (s : System) : Prop where
  referenced : s.Referenced settings
  locked : s.inventory.Holds ReleaseLocked
  cancels : ∀ {j : ℕ} {orderId user p σ w},
    s.requests[j]? = some (.running (.cancelOrder orderId user) p σ w) →
    ∃ l, p.Cancels orderId user σ l ∧ ∀ o ∈ l, s.Own orderId user o
  asked : ∀ {j t x orderId user}, (j, t) ∈ s.rpcs → s.requests[j]? = some x →
    x.call = .cancelOrder orderId user → ∃ o, s.Own orderId user o ∧
      ∃ y, s.inventory.txs[t]? = some y ∧ y.call = .releaseReservation o.reservationId false

theorem private_init (settings : Settings) : Private settings .init where
  referenced := referenced_init settings
  locked := nofun
  cancels := nofun
  asked := nofun

section
variable {settings : Settings} {s s' : System} {a : SystemAction}

theorem Extends.own (h : s.Extends s') {orderId user : UUID} {o : Order}
    (ho : s.Own orderId user o) : s'.Own orderId user o :=
  ⟨ho.id, ho.user, h.holds ho.known⟩

/-- A request has the call that it came with. -/
theorem call_of_step (hs : s.step settings a = some s') {j : ℕ} (hj : j < s.requests.length)
    {x' : Request} (hx' : s'.requests[j]? = some x') :
    ∃ x, s.requests[j]? = some x ∧ x'.call = x.call := by
  have hkind := requests_kind hs
  generalize s'.requests = requests at hkind hx'
  cases hkind with
  | arrives call =>
    rw [List.getElem?_append_left hj] at hx'
    exact ⟨x', hx', rfl⟩
  | moves hold _ hc =>
    rcases getElem?_set_inv hx' with ⟨rfl, rfl⟩ | ⟨-, hx'⟩
    · exact ⟨_, hold, hc⟩
    · exact ⟨x', hx', rfl⟩
  | stays => exact ⟨x', hx', rfl⟩

/-- A release that was asked for before a step was asked for after it. -/
theorem Private.asked_extends (h : s.Private settings) (hext : s.Extends s')
    (hs : s.step settings a = some s') {j t : ℕ} {x' : Request} {orderId user : UUID}
    (hrpc : (j, t) ∈ s.rpcs) (hx' : s'.requests[j]? = some x')
    (hcall : x'.call = .cancelOrder orderId user) : ∃ o, s'.Own orderId user o ∧
      ∃ y, s'.inventory.txs[t]? = some y ∧ y.call = .releaseReservation o.reservationId false := by
  obtain ⟨x, hx, hc⟩ := call_of_step hs (h.referenced.inv.rpcs hrpc) hx'
  obtain ⟨o, ho, y, hy, hyc⟩ := h.asked hrpc hx (hc ▸ hcall)
  obtain ⟨y', hy', hyc'⟩ := hext.called hy
  exact ⟨o, hext.own ho, y', hy', hyc'.trans hyc⟩

/-- The running cancellations after a move of request `j`. -/
theorem Private.cancels_move (h : s.Private settings) (hext : s.Extends s') {j : ℕ} {r' : Request}
    (hreq : s'.requests = s.requests.set j r')
    (hr : ∀ {orderId user p σ w}, r' = .running (.cancelOrder orderId user) p σ w →
      ∃ l, p.Cancels orderId user σ l ∧ ∀ o ∈ l, s.Own orderId user o)
    {j' : ℕ} {orderId user : UUID} {p : ApiProg (Option Order)} {σ : ApiSession} {w : Option ℕ}
    (hj' : s'.requests[j']? = some (.running (.cancelOrder orderId user) p σ w)) :
    ∃ l, p.Cancels orderId user σ l ∧ ∀ o ∈ l, s'.Own orderId user o := by
  have hold : ∃ l, p.Cancels orderId user σ l ∧ ∀ o ∈ l, s.Own orderId user o := by
    rw [hreq] at hj'
    rcases getElem?_set_inv hj' with ⟨-, hrun⟩ | ⟨-, hj'⟩
    · exact hr hrun.symm
    · exact h.cancels hj'
  obtain ⟨l, hl, hown⟩ := hold
  exact ⟨l, hl, fun o ho => hext.own (hown o ho)⟩

/-- The next operation of a cancellation leaves a cancellation. -/
theorem Private.continue (h : s.Private settings) {j : ℕ} {inp : ApiInput} {orderId user : UUID}
    {p p' : ApiProg (Option Order)} {σ σ' : ApiSession}
    (hj : s.requests[j]? = some (.running (.cancelOrder orderId user) p σ none))
    (hn : p.next s.orders inp σ = .continue p' σ') :
    ∃ l, p'.Cancels orderId user σ' l ∧ ∀ o ∈ l, s.Own orderId user o := by
  obtain ⟨l, hl, hown⟩ := h.cancels hj
  cases p with
  | getForUser i u k =>
    obtain ⟨hclean, rfl, rfl, hnone, hsome⟩ := hl
    simp only [ApiProg.next, hclean.view] at hn
    cases hn
    cases ho : (s.orders.get i).filter (·.userId = u) with
    | none => exact ⟨l, hnone, hown⟩
    | some o =>
      obtain ⟨hget, hu⟩ := Option.filter_eq_some_iff.1 ho
      obtain rfl : o.id = i := s.orders.pk_of_get hget
      have hu := of_decide_eq_true hu
      refine ⟨some o, hsome o rfl hu, ?_⟩
      intro o' ho'
      obtain rfl : o = o' := Option.some.inj ho'
      exact ⟨rfl, hu, o, hget, .refl o⟩
  | setStatus o st k => cases hn; exact ⟨l, hl.2, hown⟩
  | ret | raise | rpc | commit | publish => cases hn
  | getByIdempotencyKey | getOrder | getEvent | uuid4 | charge | addOrder => exact hl.elim

/-- **One step keeps the frame's invariant.** -/
theorem Private.step (h : s.Private settings) (hs : s.step settings a = some s') :
    s'.Private settings := by
  have href := h.referenced.step hs
  have hext := h.referenced.inv.extends hs
  have hold {j t : ℕ} {x' : Request} {orderId user : UUID} :=
    @asked_extends _ _ _ _ h hext hs j t x' orderId user
  cases step_kind hs with
  | begin call =>
    refine ⟨href, h.locked, fun hj => ?_, hold⟩
    rcases getElem?_append_singleton hj with hj | ⟨-, he⟩
    · obtain ⟨l, hl, hown⟩ := h.cancels hj
      exact ⟨l, hl, fun o ho => hext.own (hown o ho)⟩
    · cases he
      exact ⟨none, cancelOrder_cancels _ _, by rintro o ⟨⟩⟩
  | ret | raise | refused | fail =>
    exact ⟨href, h.locked, h.cancels_move hext rfl (by rintro _ _ _ _ _ ⟨⟩), hold⟩
  | «continue» hj _ hn =>
    refine ⟨href, h.locked, h.cancels_move hext rfl fun he => ?_, hold⟩
    cases he
    exact h.continue hj hn
  | @call j inp call c k σ hj =>
    have hbegin : Inventory.step settings s.inventory (.begin c) =
        some (s.inventory.begun (Inventory.Call.body settings) c) := rfl
    refine ⟨href, Inventory.releaseLocked_step h.referenced.inv.inventory.coherent h.locked hbegin,
      h.cancels_move hext rfl fun he => by cases he; exact h.cancels hj, ?_⟩
    intro j' t x' orderId user hrpc hx' hcall
    rcases List.mem_append.1 hrpc with hrpc | hrpc
    · exact hold hrpc hx' hcall
    · cases List.mem_singleton.1 hrpc
      rcases getElem?_set_inv hx' with ⟨-, rfl⟩ | ⟨hne, -⟩
      · obtain rfl : call = _ := hcall
        obtain ⟨l, ⟨⟨o, ho, rfl⟩, -⟩, hown⟩ := h.cancels hj
        exact ⟨o, hext.own (hown o ho), _, List.getElem?_concat_length, rfl⟩
      · exact absurd rfl hne
  | commit hj =>
    refine ⟨href, h.locked, h.cancels_move hext rfl fun he => ?_, hold⟩
    cases he
    obtain ⟨l, hl, hown⟩ := h.cancels hj
    exact ⟨l, hl.2.2, hown⟩
  | publish hj =>
    refine ⟨href, h.locked, h.cancels_move hext rfl fun he => ?_, hold⟩
    cases he
    obtain ⟨l, hl, hown⟩ := h.cancels hj
    exact ⟨l, hl, hown⟩
  | answered hj =>
    refine ⟨href, h.locked, h.cancels_move hext rfl fun he => ?_, hold⟩
    cases he
    obtain ⟨l, hl, hown⟩ := h.cancels hj
    exact ⟨l, hl.2 _, hown⟩
  | inventory _ hw =>
    refine ⟨href, Inventory.releaseLocked_step h.referenced.inv.inventory.coherent h.locked hw,
      fun hj => ?_, hold⟩
    obtain ⟨l, hl, hown⟩ := h.cancels hj
    exact ⟨l, hl, fun o ho => hext.own (hown o ho)⟩

/-! ## What a cancellation changes -/

/-- The step is one of request `j`, or of an inventory transaction that it has begun. -/
inductive ActsFor (s : System) (j : ℕ) : SystemAction → Prop
  | advance (inp : ApiInput) : ActsFor s j (.advance j inp)
  | fail : ActsFor s j (.fail j)
  | transaction {t : ℕ} (inp : Input UUID) (h : (j, t) ∈ s.rpcs) :
      ActsFor s j (.inventory (.advance t inp))
  | abort {t : ℕ} (h : (j, t) ∈ s.rpcs) : ActsFor s j (.inventory (.abort t))

/-- A committed order that is not the user's is not the one that the user cancels, and has another
reservation. -/
theorem Private.other (h : s.Private settings) {orderId user : UUID} {o : Order}
    (ho : s.Own orderId user o) {i : UUID} {o' : Order} (ho' : s.orders.get i = some o')
    (hu : o'.userId ≠ user) : i ≠ orderId ∧ o'.reservationId ≠ o.reservationId := by
  obtain ⟨cur, hcur, hsucc⟩ := ho.known
  have hcuru : cur.userId = user := by
    rw [hsucc.columns]
    exact ho.user
  have hne : i ≠ o.id := by
    rintro rfl
    cases hcur.symm.trans ho'
    exact hu hcuru
  refine ⟨fun he => hne (he.trans ho.id.symm), fun hid => hne ?_⟩
  -- the reservation names the one order that it is for
  obtain ⟨r, hr, -, horder, -⟩ := h.referenced.backed hcur
  obtain ⟨r', hr', -, horder', -⟩ := h.referenced.backed ho'
  rw [hsucc.reservationId_eq, ← hid] at hr
  cases hr.symm.trans hr'
  rw [← s.orders.pk_of_get ho', pk_order, ← horder', horder, hsucc.id_eq]

/-- The commit of a cancellation writes no order of another user. -/
theorem Private.commit_frame (h : s.Private settings) {j : ℕ} {orderId user : UUID}
    {p : ApiProg (Option Order)} {σ : ApiSession}
    (hj : s.requests[j]? = some (.running (.cancelOrder orderId user) (.commit p) σ none))
    {i : UUID} {o : Order} (hu : o.userId ≠ user) :
    (σ.view s.orders).get i = some o ↔ s.orders.get i = some o := by
  obtain ⟨l, ⟨hins, hst, -⟩, hown⟩ := h.cancels hj
  obtain ⟨insert, status, missed⟩ := σ
  obtain rfl : insert = none := hins
  rcases status with - | ⟨o₁, st⟩
  · exact Iff.rfl
  · have ho₁ := hown o₁ (hst o₁ st rfl)
    obtain ⟨cur, hcur, hsucc⟩ := ho₁.known
    have hcuru : cur.userId = user := by
      rw [hsucc.columns]
      exact ho₁.user
    have hid : cur.id = o₁.id := hsucc.id_eq
    rw [ApiSession.view_status hcur, Table.get_set]
    split
    · next hi =>
      refine iff_of_false (fun he => ?_) fun he => ?_
      · cases he
        exact hu hcuru
      · rw [hi, pk_order, hid, hcur] at he
        cases he
        exact hu hcuru
    · exact Iff.rfl

/-- **A cancellation touches no order of another user**, and no reservation of such an order. -/
theorem Private.frame (h : s.Private settings) (hs : s.step settings a = some s') {j : ℕ}
    {x : Request} {orderId user : UUID} (hx : s.requests[j]? = some x)
    (hcall : x.call = .cancelOrder orderId user) (ha : s.ActsFor j a) {i : UUID}
    {o : Order} (hu : o.userId ≠ user) :
    (s'.orders.get i = some o ↔ s.orders.get i = some o) ∧
    (s.orders.get i = some o →
      s'.inventory.db.plain.get o.reservationId = s.inventory.db.plain.get o.reservationId) := by
  cases step_kind hs with
  | begin => cases ha
  | ret | raise | «continue» | call | publish | answered | refused | fail =>
    exact ⟨Iff.rfl, fun _ => rfl⟩
  | commit hj =>
    cases ha with
    | advance =>
      cases hj.symm.trans hx
      obtain rfl : _ = ApiCall.cancelOrder orderId user := hcall
      exact ⟨h.commit_frame hj hu, fun _ => rfl⟩
  | inventory _ hw =>
    refine ⟨Iff.rfl, fun ho => ?_⟩
    have hcoherent := h.referenced.inv.inventory.coherent
    cases ha with
    | transaction inp hrpc =>
      obtain ⟨o₁, ho₁, y, hy, hyc⟩ := h.asked hrpc hx hcall
      exact Inventory.release_frame hcoherent h.locked hy hyc hw (h.other ho₁ ho hu).2
    | abort hrpc =>
      rcases hcoherent.step_db hw with hdb | ⟨_, _, _, _, _, hadv, -⟩
      · exact congrArg (fun db => db.plain.get o.reservationId) hdb
      · cases hadv

/-- The invariant holds in every reachable state. -/
theorem private_run {as : List SystemAction} (hr : run (step settings) .init as = some s) :
    s.Private settings :=
  run_inv (I := Private settings) (fun h hs => h.step hs) hr (private_init settings)

end

/-- **Orders are private.** On databases with the same orders of a user, the user is answered the
same: by `get_order`, by a page of `list_orders`, and by the lookup of a key that a booking starts
with. In every run of the composed system, with every interleaving and every failure, no step that
is made for the user's cancellation changes an order of another user or the reservation of such an
order. -/
theorem order_privacy (settings : Settings) (user : UUID) :
    (∀ orders orders', SameOrders user orders orders' → ∀ (env : Env) (s s' : Shop),
      (∀ orderId,
        ((getOrder orderId user).exec settings env .empty { s with orders := columns orders }).1.map
            (orderRead orders) =
          ((getOrder orderId user).exec settings env .empty
            { s' with orders := columns orders' }).1.map (orderRead orders')) ∧
      (∀ (db : ListingOrder) (pagination : PaginationParams),
        listOrders pagination (db.rows orders user) =
          listOrders pagination (db.rows orders' user)) ∧
      ∀ idempotencyKey,
        (∀ eventId quantity, bookTickets user eventId quantity idempotencyKey = (do
          match ← replay user idempotencyKey with
          | some existing => return existing
          | none => bookNewOrder user eventId quantity idempotencyKey)) ∧
        ((replay user idempotencyKey).exec settings env .empty
            { s with orders := columns orders }).1.map (Option.map (orderRead orders)) =
          ((replay user idempotencyKey).exec settings env .empty
            { s' with orders := columns orders' }).1.map (Option.map (orderRead orders'))) ∧
    ∀ as s, run (step settings) .init as = some s → ∀ j x orderId, s.requests[j]? = some x →
      x.call = .cancelOrder orderId user → ∀ a s', s.ActsFor j a → s.step settings a = some s' →
      ∀ i o, o.userId ≠ user →
        (s'.orders.get i = some o ↔ s.orders.get i = some o) ∧
        (s.orders.get i = some o →
          s'.inventory.db.plain.get o.reservationId =
            s.inventory.db.plain.get o.reservationId) := by
  constructor
  · intro orders orders' h env s s'
    refine ⟨fun orderId => h.getOrder_eq settings env orderId s s', fun db pagination => ?_,
      fun idempotencyKey =>
        ⟨fun eventId quantity => bookTickets_eq user eventId quantity idempotencyKey,
        h.replay_eq settings env idempotencyKey s s'⟩⟩
    rw [ListingOrder.rows, ListingOrder.rows, h.select_eq]
  · intro as s hr j x orderId hx hcall a s' ha hs i o hu
    exact (private_run hr).frame hs hx hcall ha hu

/-- The order of a user. -/
def orderOf (id user : UUID) : OrderRow :=
  ⟨⟨id, user, ⟨1⟩, ⟨101⟩, 1, 1000, 1000, .pending, some "retry-me"⟩, 0, 0⟩

/-- The orders of two users, and those of one of them. -/
theorem sameOrders_set : SameOrders ⟨2⟩ ((Table.empty.set (orderOf ⟨3⟩ ⟨2⟩)).set (orderOf ⟨4⟩ ⟨9⟩))
    (Table.empty.set (orderOf ⟨3⟩ ⟨2⟩)) := by
  intro o hu
  rw [Table.get_set]
  split
  · next hid =>
    have hid : o.id = ⟨4⟩ := hid
    refine iff_of_false (fun h => ?_) fun h => ?_
    · cases h
      exact absurd hu (by decide)
    · rw [hid] at h
      cases h
  · exact Iff.rfl

/-- A user is answered the same without the orders of another, who asks for the cancellation of the
order of the first one and changes nothing. -/
theorem order_privacy_two_users :
    (∀ (db : ListingOrder),
      listOrders ⟨1, 20⟩ (db.rows ((Table.empty.set (orderOf ⟨3⟩ ⟨2⟩)).set (orderOf ⟨4⟩ ⟨9⟩)) ⟨2⟩) =
        listOrders ⟨1, 20⟩ (db.rows (Table.empty.set (orderOf ⟨3⟩ ⟨2⟩)) ⟨2⟩)) ∧
    ∃ s s' o, run (step .default) .init (paidOrder ++ [.begin (.cancelOrder ⟨3⟩ ⟨9⟩)]) = some s ∧
      run (step .default) s (advances 2 1) = some s' ∧ s.orders.get ⟨3⟩ = some o ∧
      s'.orders.get ⟨3⟩ = some o ∧
      s'.inventory.db.plain.get o.reservationId = s.inventory.db.plain.get o.reservationId := by
  have hshown := (order_privacy .default ⟨2⟩).1 _ _ sameOrders_set
    ⟨⟨⟨0, ⟨3⟩, .ascending⟩, none, true, ""⟩, ⟨0, ⟨3⟩, .ascending⟩⟩ .init .init
  refine ⟨fun db => hshown.2.1 db ⟨1, 20⟩, ?_⟩
  obtain ⟨s, hs, hj, ho, hnext⟩ : ∃ s,
      run (step .default) .init (paidOrder ++ [.begin (.cancelOrder ⟨3⟩ ⟨9⟩)]) = some s ∧
      s.requests[2]?.any (·.call = .cancelOrder ⟨3⟩ ⟨9⟩) = true ∧
      (s.orders.get ⟨3⟩).any (·.userId ≠ ⟨9⟩) = true ∧
      (run (step .default) s (advances 2 1)).isSome = true :=
    exists_of_run (by decide +kernel)
  obtain ⟨x, hx, hcall⟩ := (Option.any_eq_true _ _).1 hj
  obtain ⟨o, ho, hu⟩ := (Option.any_eq_true _ _).1 ho
  obtain ⟨s', hs'⟩ := Option.isSome_iff_exists.1 hnext
  obtain ⟨s₁, hstep, rfl⟩ : ∃ s₁, s.step .default (.advance 2 _) = some s₁ ∧ s₁ = s' := by
    simpa [advances, run, Option.bind_eq_some_iff] using hs'
  obtain ⟨horder, hreserved⟩ := (order_privacy .default ⟨9⟩).2 _ s hs 2 x ⟨3⟩ hx
    (of_decide_eq_true hcall) _ s₁ (.advance _) hstep ⟨3⟩ o (of_decide_eq_true hu)
  exact ⟨s, s₁, o, hs, hs', ho, horder.2 ho, hreserved ho⟩

end System

end EventSphere.Api
