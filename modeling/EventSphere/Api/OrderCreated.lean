import EventSphere.Api.Announcements
import EventSphere.Api.Idempotency

/-!
# A retried booking and its `ORDER_CREATED`

The `ORDER_CREATED` of an order is what starts its payment (`booking_service.py:22`). A booking
publishes it after the commit of the order; a retry with the same key finds the committed order and
returns it without publishing anything (`booking_service.py:61`). So a booking that fails between
its commit and its message leaves an order that every retry returns and that is never paid for
(`replay_unpublished`). That is the only way: if no booking with the key fails there, every order
that a booking with the key has returned has been announced (`returned_published`).
-/

namespace EventSphere.Api

open Inventory (Settings)

/-- A request that owes a message is running. -/
theorem Request.ended_of_owed {r : Request} {m : Message} (h : r.owed = some m) :
    r.ended = false := by
  cases r with
  | running => rfl
  | done => cases h

namespace System

/-- Request `j` is a booking with the user and the key that has not ended. -/
def ActiveAt (s : System) (x : UUID × String) (j : ℕ) : Prop :=
  ∃ r, s.requests[j]? = some r ∧ r.call.key = some x ∧ r.ended = false

/-- The bookings with the user and the key are serial: one begins when all earlier ones have
ended. -/
def Serial (x : UUID × String) (s : System) : SystemAction → Prop
  | .begin call => call.key = some x → ∀ r ∈ s.requests, r.call.key = some x → r.ended = true
  | _ => True

instance (x : UUID × String) (s : System) : ∀ a, Decidable (Serial x s a)
  | .begin _ => inferInstanceAs (Decidable (_ → ∀ r ∈ _, _ → _))
  | .advance _ _ | .fail _ | .inventory _ => inferInstanceAs (Decidable True)

/-- No booking with the user and the key fails between its commit and the message about it. -/
def Delivers (x : UUID × String) (s : System) : SystemAction → Prop
  | .fail j => ∀ r ∈ s.requests[j]?, r.call.key = some x → r.owed = none
  | _ => True

instance (x : UUID × String) (s : System) : ∀ a, Decidable (Delivers x s a)
  | .fail _ => inferInstanceAs (Decidable (∀ r ∈ _, _ → _))
  | .begin _ | .advance _ _ | .inventory _ => inferInstanceAs (Decidable True)

/-- Every order that a booking with the user and the key has returned has been announced. -/
def Announced (x : UUID × String) (s : System) : Prop :=
  ∀ r ∈ s.requests, ∀ call o, r = .done call (.returned (some o)) → call.key = some x →
    o.created ∈ s.published

/-- The invariant that carries `returned_published`: the committed orders of the key are announced,
or the booking that has inserted the order still owes the message. -/
structure Announcing (settings : Settings) (x : UUID × String) (s : System) : Prop where
  inv : s.Inv settings fun _ => True
  tells : s.Telling
  sole : ∀ {j j'}, s.ActiveAt x j → s.ActiveAt x j' → j = j'
  created : ∀ {i o}, s.orders.get i = some o → o.HasKey x.1 x.2 →
    o.created ∈ s.announced ∨ ∃ j, s.KeyedAt x j ∧ s.owedAt j = some o.created
  returned : ∀ {j : ℕ} {call o}, s.requests[j]? = some (.done call (.returned (some o))) →
    call.key = some x → o.created ∈ s.announced

theorem announcing_init (settings : Settings) (x : UUID × String) :
    Announcing settings x .init where
  inv := inv_init settings _
  tells := telling_init
  sole := fun ⟨_, h, _⟩ => nomatch h
  created := nofun
  returned := nofun

section
variable {settings : Settings} {x : UUID × String} {s s' : System} {j : ℕ} {r r' : Request}
  {a : SystemAction}

/-- Requests keep their place and their call. -/
theorem keyedAt_step (h : s.KeyedAt x j) (hs : s.step settings a = some s') : s'.KeyedAt x j := by
  have hkind := requests_kind hs
  generalize hreq : s'.requests = requests at hkind
  cases hkind with
  | arrives call =>
    obtain ⟨r, hr, hx⟩ := h
    refine ⟨r, ?_, hx⟩
    rw [hreq, List.getElem?_append_left (List.getElem?_eq_some_iff.1 hr).1]
    exact hr
  | moves hj _ hc => exact (keyedAt_set hj hreq hc).2 h
  | stays => rw [KeyedAt, hreq]; exact h

/-- A request that moves was active before, if it is after. -/
theorem activeAt_set (hj : s.requests[j]? = some r) (hreq : s'.requests = s.requests.set j r')
    (hc : r'.call = r.call) (hr : r.ended = false) {j' : ℕ} (h : s'.ActiveAt x j') :
    s.ActiveAt x j' := by
  obtain ⟨y, hy, hx, he⟩ := h
  rw [hreq] at hy
  rcases getElem?_set_inv hy with ⟨heq, rfl⟩ | ⟨-, hy⟩
  · rw [heq]
    exact ⟨r, hj, hc ▸ hx, hr⟩
  · exact ⟨y, hy, hx, he⟩

/-- Serial bookings never overlap. -/
theorem Serial.sole (hS : Serial x s a) (hs : s.step settings a = some s')
    (h : ∀ {j j'}, s.ActiveAt x j → s.ActiveAt x j' → j = j') {j j' : ℕ} (hj : s'.ActiveAt x j)
    (hj' : s'.ActiveAt x j') : j = j' := by
  have hkind := requests_kind hs
  generalize hreq : s'.requests = requests at hkind
  cases hkind with
  | arrives call =>
    -- if the new request has the key, nobody else is active
    have hold : ∀ {j₁ : ℕ} {y}, call.key = some x → s.requests[j₁]? = some y →
        y.call.key = some x → y.ended ≠ false := fun hc hy hk he => by
      have := hS hc _ (List.mem_of_getElem? hy) hk
      rw [he] at this
      cases this
    obtain ⟨y, hy, hk, he⟩ := hj
    obtain ⟨y', hy', hk', he'⟩ := hj'
    rw [hreq] at hy hy'
    rcases getElem?_append_singleton hy with hy | ⟨rfl, rfl⟩
    · rcases getElem?_append_singleton hy' with hy' | ⟨rfl, rfl⟩
      · exact h ⟨y, hy, hk, he⟩ ⟨y', hy', hk', he'⟩
      · exact absurd he (hold hk' hy hk)
    · rcases getElem?_append_singleton hy' with hy' | ⟨rfl, -⟩
      · exact absurd he' (hold hk hy' hk')
      · rfl
  | moves hk hr hc => exact h (activeAt_set hk hreq hc hr hj) (activeAt_set hk hreq hc hr hj')
  | stays =>
    rw [ActiveAt, hreq] at hj hj'
    exact h hj hj'

/-- A booking that owes a message is active. -/
theorem activeAt_of_owed {m : Message} (h : s.KeyedAt x j) (hm : s.owedAt j = some m) :
    s.ActiveAt x j := by
  obtain ⟨r, hr, hx⟩ := h
  rw [owedAt, hr] at hm
  exact ⟨r, hr, hx, Request.ended_of_owed hm⟩

/-- Announcements stay announced. -/
theorem TellKind.announced_subset (h : TellKind s a s') {m : Message} (hm : m ∈ s.announced) :
    m ∈ s'.announced := by
  cases h with
  | quiet _ hp | commits _ _ hp | drops _ _ hp => rw [hp]; exact hm
  | publishes _ _ hp => rw [hp]; exact List.mem_append_left _ hm

/-- The orders of the key after a commit: those of before, and one that the committing request has
inserted. -/
theorem CommitKind.keyed {key : Option (UUID × String)} {σ : ApiSession} {F : List Fact}
    {orders : Table Order} (h : CommitKind key s σ F orders) (hne : x.2 ≠ "") {i : UUID} {o : Order}
    (ho : orders.get i = some o) (hk : o.HasKey x.1 x.2) :
    (∃ o', s.orders.get i = some o' ∧ o'.HasKey x.1 x.2 ∧ o'.created = o.created) ∨
      key = some x ∧ σ.announcement = some o.created := by
  cases h with
  | nothing => exact .inl ⟨o, ho, hk, rfl⟩
  | inserted hi hs hadd =>
    rcases Table.get_set_inv ho with ⟨-, rfl⟩ | ho
    · refine .inr ⟨(hadd.keyed x hne).1 hk, ?_⟩
      rw [ApiSession.announcement, hi]
    · exact .inl ⟨o, ho, hk, rfl⟩
  | @updated o' cur st hi hs hassign hcur hsucc =>
    rcases Table.get_set_inv ho with ⟨he, rfl⟩ | ho
    · refine .inl ⟨cur, ?_, hk, rfl⟩
      rw [he, pk_order, hsucc.id_eq]
      exact hcur
    · exact .inl ⟨o, ho, hk, rfl⟩

/-- The orders of the key stay announced or owed. -/
theorem Announcing.created_step (h : s.Announcing settings x) (hne : x.2 ≠ "")
    (hD : Delivers x s a) (hs : s.step settings a = some s') {i : UUID} {o : Order}
    (ho : s'.orders.get i = some o) (hk : o.HasKey x.1 x.2) :
    o.created ∈ s'.announced ∨ ∃ j, s'.KeyedAt x j ∧ s'.owedAt j = some o.created := by
  have hkind := h.tells.tell_kind hs
  cases hkind with
  | quiet ho' hp hw =>
    rw [ho'] at ho
    rw [hp, hw]
    exact (h.created ho hk).imp_right fun ⟨j, hx, hj⟩ => ⟨j, keyedAt_step hx hs, hj⟩
  | @commits j inp call p σ _ hj ho' hp hw =>
    obtain ⟨F, hF⟩ := h.inv.request hj
    rw [ho'] at ho
    rw [hp, hw]
    rcases hF.commit_kind.keyed hne ho hk with ⟨o', hget, hk', he⟩ | ⟨hx, hann⟩
    · rw [← he]
      refine (h.created hget hk').imp_right fun ⟨j', hx, hj'⟩ => ⟨j', keyedAt_step hx hs, ?_⟩
      rw [Function.update_of_ne, hj']
      rintro rfl
      rw [owedAt, hj] at hj'
      cases hj'
    · refine .inr ⟨j, keyedAt_step ⟨_, hj, hx⟩ hs, ?_⟩
      rw [Function.update_self, hann]
  | @publishes j inp m _ hm ho' hp hw =>
    rw [ho'] at ho
    rw [hp, hw]
    rcases h.created ho hk with hmem | ⟨j', hx, hj'⟩
    · exact .inl (List.mem_append_left _ hmem)
    · by_cases hne' : j' = j
      · obtain rfl := hne'
        cases hm.symm.trans hj'
        exact .inl (List.mem_append_right _ (List.mem_singleton_self _))
      · refine .inr ⟨j', keyedAt_step hx hs, ?_⟩
        rw [Function.update_of_ne hne', hj']
  | @drops j m _ hm ho' hp hw =>
    rw [ho'] at ho
    rw [hp, hw]
    refine (h.created ho hk).imp_right fun ⟨j', hx, hj'⟩ => ⟨j', keyedAt_step hx hs, ?_⟩
    rw [Function.update_of_ne, hj']
    rintro rfl
    obtain ⟨r, hr, hxr⟩ := hx
    have hnone := hD r hr hxr
    rw [owedAt, hr, Option.bind_some, hnone] at hj'
    cases hj'

/-- **What a booking with the key returns has been announced.** -/
theorem Announcing.ret (h : s.Announcing settings x) {call : ApiCall} {σ : ApiSession}
    {w : Option ℕ} {b : Option Order} (hj : s.requests[j]? = some (.running call (.ret b) σ w))
    (hx : call.key = some x) : ∃ o, b = some o ∧ o.created ∈ s.announced := by
  obtain ⟨F, hF⟩ := h.inv.request hj
  obtain ⟨o, rfl, hmem, hk⟩ := hF.safe x hx
  obtain ⟨cur, hcur, hsucc⟩ := hF.holds _ hmem
  refine ⟨o, rfl, ?_⟩
  rw [← hsucc.created_eq]
  refine (h.created hcur (hsucc.hasKey_iff.2 hk)).resolve_right fun ⟨j', hx', hj'⟩ => ?_
  -- the booking that would owe the message is this one, which is about to return
  obtain rfl : j' = j := h.sole (activeAt_of_owed hx' hj') ⟨_, hj, hx, rfl⟩
  rw [owedAt, hj] at hj'
  cases hj'

/-- Every step in which no booking with the key fails between its commit and its message keeps the
invariant. -/
theorem Announcing.step (h : s.Announcing settings x) (hne : x.2 ≠ "") (hS : Serial x s a)
    (hD : Delivers x s a) (hs : s.step settings a = some s') : s'.Announcing settings x where
  inv := h.inv.step hs fun _ _ _ _ _ _ _ _ _ => trivial
  tells := h.tells.step hs
  sole := hS.sole hs h.sole
  created := h.created_step hne hD hs
  returned {j call o} hj hx := by
    have hmono : ∀ {m}, m ∈ s.announced → m ∈ s'.announced :=
      (h.tells.tell_kind hs).announced_subset
    -- a request that has not just returned an order has returned it before
    have hold : ∀ {j₁ : ℕ} {y z : Request}, s.requests[j₁]? = some y →
        s'.requests = s.requests.set j₁ z → z ≠ .done call (.returned (some o)) →
        o.created ∈ s'.announced := by
      intro j₁ y z hj₁ hreq hz
      rw [hreq] at hj
      rcases getElem?_set_inv hj with ⟨-, hret⟩ | ⟨-, hj⟩
      · exact absurd hret.symm hz
      · exact hmono (h.returned hj hx)
    cases step_kind hs with
    | begin call' =>
      rcases getElem?_append_singleton hj with hj | ⟨-, he⟩
      · exact hmono (h.returned hj hx)
      · cases he
    | @ret j₁ inp call₁ p σ b hk hn =>
      obtain rfl := ApiProg.next_ret hn
      by_cases hz : Request.done call₁ (.returned b) = .done call (.returned (some o))
      · cases hz
        obtain ⟨o', he, hmem⟩ := h.ret hk hx
        cases he
        exact hmono hmem
      · exact hold hk rfl hz
    | raise hk | «continue» hk | call hk | commit hk | publish hk | answered hk | refused hk
    | fail hk => exact hold hk rfl nofun
    | inventory => exact hmono (h.returned hj hx)

/-- What the invariant says about the returned orders. -/
theorem Announcing.announces (h : s.Announcing settings x) : Announced x s := by
  rintro r hr call o rfl hx
  obtain ⟨j, hj⟩ := List.mem_iff_getElem?.1 hr
  exact List.mem_of_mem_filter (h.returned hj hx)

end

/-- **A returned order has been announced.** For every user and every key, and every interleaving in
which the bookings with the key are serial and may fail at any step: if none of them fails between
its commit and the message about it, an `ORDER_CREATED` of every order that one of them has returned
has been published. -/
theorem returned_published (settings : Settings) (user : UUID) (key : String) (hne : key ≠ "")
    (as : List SystemAction) (s : System) (hr : run (step settings) .init as = some s)
    (hS : Along (step settings) (Serial (user, key)) .init as)
    (hD : Along (step settings) (Delivers (user, key)) .init as) : Announced (user, key) s := by
  have h := run_inv_along (I := Announcing settings (user, key))
    (fun h hC hs => h.step hne hC.1 hC.2 hs) (hS.and hD) hr (announcing_init settings (user, key))
  exact h.announces

/-! ## A retry after a lost message -/

/-- An event with one seat, a booking with a key that runs `n` operations around its reservation and
then fails, and a retry of it that runs to its end. -/
def failedBooking (n : ℕ) : List SystemAction :=
  [.inventory (.begin (.initializeInventory ⟨1⟩ 1))] ++ inventoryAdvances 0 4 ++
  [.begin (.bookTickets ⟨2⟩ ⟨1⟩ 1 (some "retry-me"))] ++ advances 0 4 ++ inventoryAdvances 1 7 ++
  advances 0 n ++ [.fail 0, .begin (.bookTickets ⟨2⟩ ⟨1⟩ 1 (some "retry-me"))] ++ advances 1 2

/-- The first booking fails when its message is out, before it returns. -/
def lateFailure : List SystemAction := failedBooking 4

/-- The retry returns the order of the first booking, which has been announced. -/
theorem lateFailure_published : ∃ s, run (step .default) .init lateFailure = some s ∧
    Announced (⟨2⟩, "retry-me") s ∧
    (s.requests[1]?).bind outcome = some (.returned (s.orders.get ⟨3⟩)) ∧
    s.orders.get ⟨3⟩ ≠ none := by
  obtain ⟨s, hs, h⟩ : ∃ s, run (step .default) .init lateFailure = some s ∧
      (s.requests[1]?).bind outcome = some (.returned (s.orders.get ⟨3⟩)) ∧
      s.orders.get ⟨3⟩ ≠ none :=
    exists_of_run (by decide +kernel)
  refine ⟨s, hs, ?_, h⟩
  exact returned_published .default ⟨2⟩ "retry-me" (by decide) lateFailure s hs
    (by decide +kernel) (by decide +kernel)

/-- The first booking fails between its commit and its message. -/
def lostMessage : List SystemAction := failedBooking 3

/-- **A retry can return an order that was never announced.** The bookings are serial, the second
one returns the order of the first, and no message has been published. -/
theorem replay_unpublished :
    Along (step .default) (Serial (⟨2⟩, "retry-me")) .init lostMessage ∧
    ∃ s o, run (step .default) .init lostMessage = some s ∧
      (s.requests[1]?).bind outcome = some (.returned (some o)) ∧ s.published = [] ∧
      ¬ Announced (⟨2⟩, "retry-me") s := by
  refine ⟨by decide +kernel, ?_⟩
  obtain ⟨s, hs, hout, hsome, hp, hkey⟩ : ∃ s, run (step .default) .init lostMessage = some s ∧
      ((s.requests[1]?).bind outcome).any (fun out => out = .returned (s.orders.get ⟨3⟩)) = true ∧
      (s.orders.get ⟨3⟩) ≠ none ∧ s.published = [] ∧
      (s.requests[1]?).any (·.call.key = some (⟨2⟩, "retry-me")) = true :=
    exists_of_run (by decide +kernel)
  obtain ⟨o, ho⟩ := Option.ne_none_iff_exists'.1 hsome
  obtain ⟨out, hout, he⟩ := (Option.any_eq_true _ _).1 hout
  obtain rfl := of_decide_eq_true he
  rw [ho] at hout
  refine ⟨s, o, hs, hout, hp, fun hA => ?_⟩
  obtain ⟨r, hr, hr'⟩ := Option.bind_eq_some_iff.1 hout
  rw [hr, Option.any_some, decide_eq_true_eq] at hkey
  cases r with
  | running => cases hr'
  | done call out =>
    cases hr'
    have hmem := hA _ (List.mem_of_getElem? hr) call o rfl hkey
    rw [hp] at hmem
    cases hmem

end System

end EventSphere.Api
