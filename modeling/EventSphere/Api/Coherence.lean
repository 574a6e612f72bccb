import EventSphere.Api.Orders
import EventSphere.Api.Spec
import EventSphere.Api.System

/-!
# Coherence of the interleaved booking system

What a handler has learned stays true: committed orders are never deleted and keep everything but
their status, which does not become pending again, and an inventory transaction that has ended stays
as it ended. So the promises of `EventSphere.Api.Spec`, which are about one handler alone, hold of
every request at every point of every run (`System.Inv.step`).
-/

namespace EventSphere.Api

open Inventory (Settings)

theorem MayAdd.mono {key : Option (UUID × String)} {o : Order} {F F' : List Fact}
    (h : MayAdd key o F) (hsub : F ⊆ F') : MayAdd key o F' :=
  { h with reserved := h.reserved.imp fun _ hr => ⟨hsub hr.1, hr.2⟩ }

theorem MayAssign.mono {o : Order} {st : OrderStatus} {F F' : List Fact} (h : MayAssign o st F)
    (hsub : F ⊆ F') : MayAssign o st F' :=
  { h with known := hsub h.known }

/-! ## Orders over time -/

/-- The order `o'` is what has become of the order `o`. -/
structure Order.Succeeds (o' o : Order) : Prop where
  columns : o' = { o with status := o'.status }
  pending : o'.status = .pending → o.status = .pending

namespace Order.Succeeds

variable {o o' o'' : Order}

theorem refl (o : Order) : o.Succeeds o := ⟨rfl, fun h => h⟩

theorem trans (h' : o''.Succeeds o') (h : o'.Succeeds o) : o''.Succeeds o := by
  refine ⟨?_, fun hp => h.pending (h'.pending hp)⟩
  have h1 := h'.columns
  rw [h.columns] at h1
  exact h1

theorem id_eq (h : o'.Succeeds o) : o'.id = o.id := by rw [h.columns]

theorem reservationId_eq (h : o'.Succeeds o) : o'.reservationId = o.reservationId := by
  rw [h.columns]

theorem hasKey_iff (h : o'.Succeeds o) {user : UUID} {key : String} :
    o'.HasKey user key ↔ o.HasKey user key := by
  rw [h.columns]
  exact Iff.rfl

end Order.Succeeds

/-! ## The next operation of a safe program -/

/-- What a request learns or writes with its next operation. -/
inductive Learns (key : Option (UUID × String)) (orders : Table Order) (inp : ApiInput)
    (p p' : ApiProg (Option Order)) (σ : ApiSession) (F : List Fact) :
    ApiSession → List Fact → Prop
  | nothing : Learns key orders inp p p' σ F σ F
  | order {o : Order} (ho : orders.get o.id = some o) :
      Learns key orders inp p p' σ F σ (.known o :: F)
  | missed {x : UUID × String} {f : Option Order → ApiProg (Option Order)}
      (hp : p = .getByIdempotencyKey x.1 x.2 f) (hx : key = some x)
      (hnone : ∀ i o, orders.get i = some o → ¬ o.HasKey x.1 x.2) :
      Learns key orders inp p p' σ F { σ with missed := some x } (.missed x.1 x.2 :: F)
  | noEvent {e : UUID} {f : Option Event → ApiProg (Option Order)} (hp : p = .getEvent e f)
      (he : inp.event = none) : Learns key orders inp p p' σ F σ (.noEvent :: F)
  | added {o : Order} (hp : p = .addOrder o p') (hc : σ.Clean) (hw : Window key F)
      (ho : MayAdd key o F) (hnew : o.IsNew orders) :
      Learns key orders inp p p' σ F { σ with insert := some o } F
  | assigned {o : Order} {st : OrderStatus} (hc : σ.Clean) (ho : MayAssign o st F) :
      Learns key orders inp p p' σ F { σ with status := some (o, st) } F

/-- **The next operation of a safe program leaves a safe program**, with what it has learned. -/
theorem ApiProg.Safe.continue {key : Option (UUID × String)} {orders : Table Order} {inp : ApiInput}
    {p p' : ApiProg (Option Order)} {σ σ' : ApiSession} {F : List Fact} (h : p.Safe key σ F)
    (hn : p.next orders inp σ = .continue p' σ') :
    ∃ F', p'.Safe key σ' F' ∧ Learns key orders inp p p' σ F σ' F' := by
  cases p with
  | getByIdempotencyKey user k f =>
    obtain ⟨hc, hkey, hsome, hnone⟩ := h
    simp only [next, hc.view] at hn
    split at hn
    · cases hn
    · next hres =>
      cases hn
      refine ⟨_, hnone, .missed (x := (user, k)) rfl hkey fun i o ho hk => ?_⟩
      obtain rfl : o.id = i := orders.pk_of_get ho
      have hmem : o ∈ ordersWithKey orders inp.scan user k := mem_ordersWithKey.2 ⟨ho, hk⟩
      rw [scalarOneOrNone_eq_none.1 hres] at hmem
      cases hmem
    · next o hres =>
      cases hn
      have hmem : o ∈ ordersWithKey orders inp.scan user k := by
        rw [scalarOneOrNone_eq_some.1 hres]
        exact List.mem_singleton_self o
      obtain ⟨ho, hk⟩ := mem_ordersWithKey.1 hmem
      exact ⟨_, hsome o hk, .order ho⟩
  | getForUser orderId user f =>
    obtain ⟨hc, hsome, hnone⟩ := h
    simp only [next, hc.view] at hn
    cases hn
    cases ho : (orders.get orderId).filter (·.userId = user) with
    | none => exact ⟨_, hnone, .nothing⟩
    | some o =>
      have ho := (Option.filter_eq_some_iff.1 ho).1
      obtain rfl : o.id = orderId := orders.pk_of_get ho
      exact ⟨_, hsome o, .order ho⟩
  | getOrder orderId f =>
    obtain ⟨hc, hsome, hnone⟩ := h
    simp only [next, hc.view] at hn
    cases hn
    cases ho : orders.get orderId with
    | none => exact ⟨_, hnone, .nothing⟩
    | some o =>
      obtain rfl : o.id = orderId := orders.pk_of_get ho
      exact ⟨_, hsome o, .order ho⟩
  | getEvent e f =>
    cases hn
    cases he : inp.event with
    | none => exact ⟨_, h.2, .noEvent rfl he⟩
    | some ev => exact ⟨_, h.1 ev, .nothing⟩
  | uuid4 f => cases hn; exact ⟨_, h _, .nothing⟩
  | charge i amount f => cases hn; exact ⟨_, h _ _, .nothing⟩
  | addOrder o f =>
    obtain ⟨hc, hw, hadd, hf⟩ := h
    simp only [next, hc.view] at hn
    split at hn
    · cases hn
    · next hins =>
      cases hn
      exact ⟨_, hf, .added rfl hc hw hadd (insertError_eq_none.1 hins).2.2.1⟩
  | setStatus o st f =>
    obtain ⟨hc, hassign, hf⟩ := h
    cases hn
    exact ⟨_, hf, .assigned hc hassign⟩
  | ret | raise | rpc | commit | publish => cases hn

/-! ## The invariant -/

namespace System

/-- What a fact says about the system. -/
def Holds (s : System) : Fact → Prop
  | .known o => ∃ cur, s.orders.get o.id = some cur ∧ cur.Succeeds o
  | .answered c res => ∃ t : ℕ, s.inventory.txs[t]? = some (.done c (.returned res))
  | .missed _ _ | .noEvent => True

/-- Nothing that was there is lost: orders change only their status, transactions keep their call,
and those that have ended do not change. -/
structure Extends (s s' : System) : Prop where
  orders : ∀ {i o}, s.orders.get i = some o → ∃ o', s'.orders.get i = some o' ∧ o'.Succeeds o
  ended : ∀ {t : ℕ} {c o}, s.inventory.txs[t]? = some (.done c o) →
    s'.inventory.txs[t]? = some (.done c o)
  called : ∀ {t : ℕ} {x}, s.inventory.txs[t]? = some x →
    ∃ x', s'.inventory.txs[t]? = some x' ∧ x'.call = x.call

/-- What is known of a running request with the facts `F`. `E` says for which calls an event may be
missing. -/
structure RequestInv (E : ApiCall → Prop) (s : System) (j : ℕ) (call : ApiCall)
    (p : ApiProg (Option Order)) (σ : ApiSession) (w : Option ℕ) (F : List Fact) : Prop where
  safe : p.Safe call.key σ F
  holds : ∀ f ∈ F, s.Holds f
  event : .noEvent ∈ F → E call
  single : σ.insert = none ∨ σ.status = none
  insert : ∀ {o}, σ.insert = some o → MayAdd call.key o F
  status : ∀ {o st}, σ.status = some (o, st) → MayAssign o st F
  missed : ∀ x ∈ call.key, .missed x.1 x.2 ∈ F →
    σ.missed = some x ∨ ∃ o, .known o ∈ F ∧ o.HasKey x.1 x.2
  own : ∀ {x}, σ.missed = some x → call.key = some x
  inserting : σ.insert ≠ none → ∀ x ∈ call.key, σ.missed = some x
  waits : ∀ {t}, w = some t → ∃ c k x, p = .rpc c k ∧ s.inventory.txs[t]? = some x ∧ x.call = c
  asked : ∀ {t}, (j, t) ∈ s.rpcs → w = some t ∨ ∃ c res, .answered c res ∈ F

/-- The invariant of the interleaved system. -/
structure Inv (settings : Settings) (E : ApiCall → Prop) (s : System) : Prop where
  inventory : Inventory.Reserving settings s.inventory
  request : ∀ {j : ℕ} {call p σ w}, s.requests[j]? = some (.running call p σ w) →
    ∃ F, RequestInv E s j call p σ w F
  new : ∀ {j : ℕ} {x o}, s.requests[j]? = some x → x.insert = some o → o.IsNew s.orders
  apart : ∀ {j j' : ℕ} {x x' o o'}, j ≠ j' → s.requests[j]? = some x → s.requests[j']? = some x' →
    x.insert = some o → x'.insert = some o' → ¬ o.Clashes o'
  rpcs : ∀ {j t}, (j, t) ∈ s.rpcs → j < s.requests.length

theorem inv_init (settings : Settings) (E : ApiCall → Prop) : Inv settings E .init where
  inventory := Inventory.reserving_init settings
  request := nofun
  new := nofun
  apart _ h := nomatch h
  rpcs := nofun

section
variable {settings : Settings} {E : ApiCall → Prop} {s s' : System} {j : ℕ} {call : ApiCall}
  {p : ApiProg (Option Order)} {σ : ApiSession} {w : Option ℕ} {F : List Fact}

theorem Extends.of_eq (h : s'.orders = s.orders) (h' : s'.inventory = s.inventory) :
    s.Extends s' where
  orders ho := ⟨_, h ▸ ho, .refl _⟩
  ended ht := h' ▸ ht
  called ht := ⟨_, h' ▸ ht, rfl⟩

/-- A step of the inventory loses nothing. -/
theorem Extends.of_inventory {a : Action Inventory.Call UUID} (h : s'.orders = s.orders)
    (h' : Inventory.step settings s.inventory a = some s'.inventory) : s.Extends s' where
  orders ho := ⟨_, h ▸ ho, .refl _⟩
  ended ht := World.other_step ht (World.done_step ht h') h'
  called ht := World.tx_step h' ht

/-- What was true stays true. -/
theorem Extends.holds (h : s.Extends s') {f : Fact} (hf : s.Holds f) : s'.Holds f := by
  cases f with
  | known o =>
    obtain ⟨cur, hcur, hsucc⟩ := hf
    obtain ⟨cur', hcur', hsucc'⟩ := h.orders hcur
    exact ⟨cur', hcur', hsucc'.trans hsucc⟩
  | answered c res =>
    obtain ⟨t, ht⟩ := hf
    exact ⟨t, h.ended ht⟩
  | missed | noEvent => trivial

/-- A request that does not move keeps its invariant. -/
theorem RequestInv.extend (h : RequestInv E s j call p σ w F) (hext : s.Extends s')
    (hr : ∀ t, (j, t) ∈ s'.rpcs → (j, t) ∈ s.rpcs) : RequestInv E s' j call p σ w F where
  safe := h.safe
  holds f hf := hext.holds (h.holds f hf)
  event := h.event
  single := h.single
  insert := h.insert
  status := h.status
  missed := h.missed
  own := h.own
  inserting := h.inserting
  waits hw := by
    obtain ⟨c, k, x, hp, hx, hc⟩ := h.waits hw
    obtain ⟨x', hx', hc'⟩ := hext.called hx
    exact ⟨c, k, x', hp, hx', hc'.trans hc⟩
  asked {t} ht := h.asked (hr t ht)

/-- A booking between its failed lookup and its commit remembers the key. -/
theorem RequestInv.window (h : RequestInv E s j call p σ w F) (hw : Window call.key F)
    {x : UUID × String} (hx : call.key = some x) : σ.missed = some x :=
  (h.missed x hx (hw x hx).1).resolve_right fun ⟨o, ho, _⟩ => (hw x hx).2 o ho

/-- What a commit does to the orders. -/
inductive CommitKind (key : Option (UUID × String)) (s : System) (σ : ApiSession) (F : List Fact) :
    Table Order → Prop
  | nothing (hi : σ.insert = none) (hs : σ.status = none) : CommitKind key s σ F s.orders
  | inserted {o : Order} (hi : σ.insert = some o) (hs : σ.status = none) (ho : MayAdd key o F) :
      CommitKind key s σ F (s.orders.set o)
  | updated {o cur : Order} {st : OrderStatus} (hi : σ.insert = none)
      (hs : σ.status = some (o, st)) (ho : MayAssign o st F)
      (hcur : s.orders.get o.id = some cur) (hsucc : cur.Succeeds o) :
      CommitKind key s σ F (s.orders.set { cur with status := st })

/-- Every commit is of one of the kinds. -/
theorem RequestInv.commit_kind (h : RequestInv E s j call p σ w F) :
    CommitKind call.key s σ F (σ.view s.orders) := by
  cases hi : σ.insert with
  | some o =>
    have hs : σ.status = none := h.single.resolve_left (by rw [hi]; nofun)
    have : σ.view s.orders = s.orders.set o := by rw [ApiSession.view, hi, hs]; rfl
    rw [this]
    exact .inserted hi hs (h.insert hi)
  | none =>
    cases hs : σ.status with
    | none =>
      rw [ApiSession.Clean.view ⟨hi, hs⟩]
      exact .nothing hi hs
    | some x =>
      obtain ⟨o, st⟩ := x
      obtain ⟨cur, hcur, hsucc⟩ := h.holds _ (h.status hs).known
      have : σ.view s.orders = s.orders.set { cur with status := st } := by
        rw [ApiSession.view, hi, hs]
        simp [ApiSession.update, hcur]
      rw [this]
      exact .updated hi hs (h.status hs) hcur hsucc

/-! ## One step -/

/-- The inserted order of request `j` clashes neither with a committed one nor with one that another
request has inserted. -/
structure Fresh (s s' : System) (j : ℕ) (o : Order) : Prop where
  new : o.IsNew s'.orders
  apart : ∀ {j' : ℕ} {y o'}, j' ≠ j → s.requests[j']? = some y → y.insert = some o' →
    ¬ o.Clashes o'

/-- An inserted order stays fresh while the committed orders do not change. -/
theorem Inv.fresh (h : s.Inv settings E) {y : Request} {o : Order} (hj : s.requests[j]? = some y)
    (ho : y.insert = some o) (horders : s'.orders = s.orders) : Fresh s s' j o where
  new := horders ▸ h.new hj ho
  apart hne hj' ho' := h.apart (Ne.symm hne) hj hj' ho ho'

/-- The invariant after a move of request `j`. -/
theorem Inv.move (h : s.Inv settings E) {x y : Request} (hj : s.requests[j]? = some y)
    (hreq : s'.requests = s.requests.set j x)
    (hinv : Inventory.Reserving settings s'.inventory) (hext : s.Extends s')
    (hrpcs : ∀ {j' t}, (j', t) ∈ s'.rpcs → (j', t) ∈ s.rpcs ∨ j' = j)
    (hx : ∀ {call p σ w}, x = .running call p σ w → ∃ F, RequestInv E s' j call p σ w F)
    (hins : ∀ {o}, x.insert = some o → Fresh s s' j o)
    (hnew : ∀ {j' : ℕ} {y' o'}, j' ≠ j → s.requests[j']? = some y' → y'.insert = some o' →
      o'.IsNew s'.orders) : s'.Inv settings E where
  inventory := hinv
  request {j' call' p' σ' w'} hj' := by
    rw [hreq] at hj'
    rcases getElem?_set_inv hj' with ⟨rfl, hrun⟩ | ⟨hne, hj'⟩
    · exact hx hrun.symm
    · obtain ⟨F, hF⟩ := h.request hj'
      exact ⟨F, hF.extend hext fun t ht => (hrpcs ht).resolve_right hne⟩
  new {j' x' o'} hj' ho' := by
    rw [hreq] at hj'
    rcases getElem?_set_inv hj' with ⟨-, rfl⟩ | ⟨hne, hj'⟩
    · exact (hins ho').new
    · exact hnew hne hj' ho'
  apart {j₁ j₂ x₁ x₂ o₁ o₂} hne h1 h2 ho1 ho2 := by
    rw [hreq] at h1 h2
    rcases getElem?_set_inv h1 with ⟨he1, rfl⟩ | ⟨hne1, hold1⟩ <;>
      rcases getElem?_set_inv h2 with ⟨he2, rfl⟩ | ⟨hne2, hold2⟩
    · exact absurd (he1.trans he2.symm) hne
    · exact (hins ho1).apart hne2 hold2 ho2
    · exact fun hc => (hins ho2).apart hne1 hold1 ho1 hc.symm
    · exact h.apart hne hold1 hold2 ho1 ho2
  rpcs {j' t} ht := by
    rw [hreq, List.length_set]
    rcases hrpcs ht with ht | rfl
    · exact h.rpcs ht
    · exact (List.getElem?_eq_some_iff.1 hj).1

/-- The invariant after the end of a request. -/
theorem Inv.finish (h : s.Inv settings E) {y : Request} (hj : s.requests[j]? = some y)
    (o : Outcome ApiError (Option Order)) : (s.put j (.done call o)).Inv settings E :=
  h.move hj rfl h.inventory (.of_eq rfl rfl) .inl nofun nofun fun _ => h.new

/-- A request that has moved without writing, with more facts than before. -/
theorem RequestInv.grow {p' : ApiProg (Option Order)} {σ' : ApiSession} {F' : List Fact}
    (h : RequestInv E s j call p σ w F) (hsub : F ⊆ F') (hs : p'.Safe call.key σ' F')
    (hholds : ∀ f ∈ F', f ∈ F ∨ s.Holds f) (hE : .noEvent ∈ F' → .noEvent ∈ F ∨ E call)
    (hi : σ'.insert = σ.insert) (hst : σ'.status = σ.status)
    (hm : ∀ x ∈ call.key, .missed x.1 x.2 ∈ F' →
      σ'.missed = some x ∨ ∃ o, .known o ∈ F' ∧ o.HasKey x.1 x.2)
    (hown : σ'.missed = σ.missed ∨ σ'.missed = call.key)
    (ha : ∀ {t}, (j, t) ∈ s.rpcs → ∃ c res, .answered c res ∈ F') :
    RequestInv E s j call p' σ' none F' where
  safe := hs
  holds f hf := (hholds f hf).elim (h.holds f) id
  event hf := (hE hf).elim h.event id
  single := by rw [hi, hst]; exact h.single
  insert ho := (h.insert (hi ▸ ho)).mono hsub
  status ho := (h.status (hst ▸ ho)).mono hsub
  missed := hm
  own {x} hx := by
    rcases hown with he | he
    · exact h.own (he ▸ hx)
    · exact he ▸ hx
  inserting hne x hx := by
    rcases hown with he | he
    · rw [he]; exact h.inserting (hi ▸ hne) x hx
    · exact he.trans hx
  waits := nofun
  asked ht := .inr (ha ht)

/-- What a request learns keeps its invariant. -/
theorem RequestInv.learn {p' : ApiProg (Option Order)} {σ' : ApiSession} {F' : List Fact}
    {inp : ApiInput} (h : RequestInv E s j call p σ none F) (hs : p'.Safe call.key σ' F')
    (hl : Learns call.key s.orders inp p p' σ F σ' F')
    (hE : ∀ e f, p = .getEvent e f → inp.event = none → E call) :
    RequestInv E s j call p' σ' none F' := by
  have hasked : ∀ {t}, (j, t) ∈ s.rpcs → ∃ c res, Fact.answered c res ∈ F := fun ht =>
    (h.asked ht).resolve_left nofun
  -- one more fact that is true and says nothing about the key
  have hcons : ∀ {f : Fact}, s.Holds f → (f = .noEvent → E call) → (∀ u k, f ≠ .missed u k) →
      p'.Safe call.key σ (f :: F) → RequestInv E s j call p' σ none (f :: F) :=
    fun hf he hne hs => h.grow (List.subset_cons_self ..) hs
      (fun f' hf' => (List.mem_cons.1 hf').elim (fun he => .inr (he ▸ hf)) .inl)
      (fun hf' => (List.mem_cons.1 hf').elim (fun h' => .inr (he h'.symm)) .inl) rfl rfl
      (fun x hx hmem => by
        rcases List.mem_cons.1 hmem with hmem | hmem
        · exact absurd hmem.symm (hne _ _)
        · exact (h.missed x hx hmem).imp_right fun ⟨o, ho, hk⟩ =>
            ⟨o, List.mem_cons_of_mem _ ho, hk⟩)
      (.inl rfl) fun ht => (hasked ht).imp fun c => Exists.imp fun res => List.mem_cons_of_mem _
  cases hl with
  | nothing =>
    exact h.grow (List.Subset.refl _) hs (fun _ => .inl) .inl rfl rfl h.missed (.inl rfl) hasked
  | order ho => exact hcons ⟨_, ho, .refl _⟩ nofun nofun hs
  | noEvent hp he => exact hcons trivial (fun _ => hE _ _ hp he) nofun hs
  | missed hp hx hnone =>
    refine h.grow (List.subset_cons_self ..) hs
      (fun f hf => (List.mem_cons.1 hf).elim (fun he => .inr (he ▸ trivial)) .inl)
      (fun hf => (List.mem_cons.1 hf).elim nofun .inl) rfl rfl (fun x' hx' _ => ?_)
      (.inr hx.symm) fun ht => (hasked ht).imp fun c => Exists.imp fun res => List.mem_cons_of_mem _
    exact .inl (hx.symm.trans hx')
  | added hp hc hw ho hnew =>
    exact { h with
      safe := hs
      single := .inr hc.status
      insert := fun hi => by cases hi; exact ho
      status := fun hst => by rw [hc.status] at hst; cases hst
      inserting := fun _ x hx => h.window hw hx
      waits := nofun }
  | assigned hc ho =>
    exact { h with
      safe := hs
      single := .inl hc.insert
      insert := fun hi => by rw [hc.insert] at hi; cases hi
      status := fun hst => by cases hst; exact ho
      waits := nofun }

/-- A commit loses no order. -/
theorem CommitKind.extend {key : Option (UUID × String)} {orders : Table Order}
    (h : CommitKind key s σ F orders) (hnew : ∀ {o}, σ.insert = some o → o.IsNew s.orders)
    (horders : s'.orders = orders) (hinv : s'.inventory = s.inventory) : s.Extends s' where
  orders {i o} ho := by
    rw [horders]
    cases h with
    | nothing => exact ⟨o, ho, .refl o⟩
    | @inserted o' hi hs hadd =>
      refine ⟨o, (Table.get_set_of_ne _ ?_).trans ho, .refl o⟩
      rintro rfl
      cases (hnew hi).get_eq_none.symm.trans ho
    | @updated o' cur st hi hs hassign hcur hsucc =>
      rw [Table.get_set]
      split
      · next he =>
        rw [he, pk_order, hsucc.id_eq] at ho
        cases hcur.symm.trans ho
        refine ⟨_, rfl, rfl, fun hp => ?_⟩
        rcases hassign.moves with ⟨-, hne⟩ | ⟨-, hst⟩
        · exact absurd hp hne
        · rw [hst] at hp; cases hp
      · exact ⟨o, ho, .refl o⟩
  ended ht := hinv ▸ ht
  called ht := ⟨_, hinv ▸ ht, rfl⟩

/-- What a request knows after its commit. -/
theorem RequestInv.commit {p' : ApiProg (Option Order)}
    (h : RequestInv E s j call (.commit p') σ none F) (hext : s.Extends s')
    (horders : s'.orders = σ.view s.orders) (hrpcs : s'.rpcs = s.rpcs) :
    RequestInv E s' j call p' .empty none (committedFacts σ F) := by
  have hkind := h.commit_kind
  obtain ⟨hins, hsafe⟩ := h.safe
  have hsub : F ⊆ committedFacts σ F := by
    unfold committedFacts
    split
    · exact List.subset_cons_self ..
    · exact List.Subset.refl _
  have hmem : ∀ f ∈ committedFacts σ F, f ∈ F ∨ ∃ o, σ.insert = some o ∧ f = .known o := by
    unfold committedFacts
    split
    · next o ho => exact fun f hf => (List.mem_cons.1 hf).elim (fun he => .inr ⟨o, ho, he⟩) .inl
    · exact fun f hf => .inl hf
  refine ⟨hsafe, fun f hf => ?_, fun hf => ?_, .inl rfl, nofun, nofun, fun x hx _ => ?_, nofun,
    fun hne => absurd rfl hne, nofun, fun ht => ?_⟩
  · rcases hmem f hf with hf | ⟨o, ho, rfl⟩
    · exact hext.holds (h.holds f hf)
    · refine ⟨o, ?_, .refl o⟩
      rw [horders]
      generalize σ.view s.orders = orders at hkind
      cases hkind with
      | nothing hi | updated hi => rw [hi] at ho; cases ho
      | inserted hi => cases hi.symm.trans ho; exact get_set_order _ o
  · rcases hmem _ hf with hf | ⟨o, -, he⟩
    · exact h.event hf
    · cases he
  · cases hi : σ.insert with
    | none => exact absurd hi (hins x hx)
    | some o =>
      refine .inr ⟨o, ?_, ((h.insert hi).keyed x (ApiCall.key_ne_empty hx)).2 hx⟩
      rw [committedFacts, hi]
      exact List.mem_cons_self ..
  · rw [hrpcs] at ht
    obtain ⟨c, res, hf⟩ := (h.asked ht).resolve_left nofun
    exact .inr ⟨c, res, hsub hf⟩

/-- What a request knows once the inventory has answered. -/
theorem RequestInv.answer {c c' : Inventory.Call} {k : Inventory.Result → ApiProg (Option Order)}
    {t : ℕ} {res : Inventory.Result} (h : RequestInv E s j call (.rpc c k) σ (some t) F)
    (ht : s.inventory.txs[t]? = some (.done c' (.returned res))) :
    RequestInv E s j call (k res) σ none (.answered c res :: F) := by
  obtain ⟨c'', k', x, hp, hx, hc⟩ := h.waits rfl
  cases hp
  cases ht.symm.trans hx
  obtain rfl : c' = c := hc
  refine h.grow (List.subset_cons_self ..) (h.safe.2.2 res)
    (fun f hf => (List.mem_cons.1 hf).elim (fun he => .inr (he ▸ ⟨t, ht⟩)) .inl)
    (fun hf => (List.mem_cons.1 hf).elim nofun .inl) rfl rfl (fun x hx hm => ?_)
    (.inl rfl) fun _ => ⟨_, _, List.mem_cons_self ..⟩
  refine (h.missed x hx ((List.mem_cons.1 hm).resolve_left nofun)).imp_right fun ⟨o, ho, hk⟩ => ?_
  exact ⟨o, List.mem_cons_of_mem _ ho, hk⟩

/-- The invariant after the arrival of a request. -/
theorem Inv.begin (h : s.Inv settings E) (call : ApiCall) :
    Inv settings E { s with requests := s.requests ++ [.running call call.body .empty none] } where
  inventory := h.inventory
  request {j' call' p' σ' w'} hj' := by
    rcases getElem?_append_singleton hj' with hj' | ⟨rfl, he⟩
    · obtain ⟨F, hF⟩ := h.request hj'
      exact ⟨F, hF.extend (.of_eq rfl rfl) fun _ => id⟩
    · cases he
      exact ⟨[], call.body_safe, nofun, nofun, .inl rfl, nofun, nofun, nofun, nofun,
        fun hne => absurd rfl hne, nofun, fun ht => absurd (h.rpcs ht) (Nat.lt_irrefl _)⟩
  new hj' ho' := by
    rcases getElem?_append_singleton hj' with hj' | ⟨-, rfl⟩
    · exact h.new hj' ho'
    · cases ho'
  apart hne h1 h2 ho1 ho2 := by
    rcases getElem?_append_singleton h1 with h1 | ⟨-, rfl⟩
    · rcases getElem?_append_singleton h2 with h2 | ⟨-, rfl⟩
      · exact h.apart hne h1 h2 ho1 ho2
      · cases ho2
    · cases ho1
  rpcs ht := by
    have := h.rpcs ht
    simp only [List.length_append, List.length_singleton]
    omega

/-- The invariant after a commit. -/
theorem Inv.commit (h : s.Inv settings E)
    (hj : s.requests[j]? = some (.running call (.commit p) σ none)) :
    Inv settings E { s.put j (.running call p .empty none) with orders := σ.view s.orders } := by
  obtain ⟨F, hF⟩ := h.request hj
  have hkind := hF.commit_kind
  have hext : s.Extends
      { s.put j (.running call p .empty none) with orders := σ.view s.orders } :=
    hkind.extend (fun ho => h.new hj ho) rfl rfl
  refine h.move hj rfl h.inventory hext .inl (fun he => ?_) nofun fun {j' y' o'} hne hj' ho' => ?_
  · cases he
    exact ⟨_, hF.commit hext rfl rfl⟩
  · have hnew := h.new hj' ho'
    dsimp only
    generalize σ.view s.orders = orders at hkind
    cases hkind with
    | nothing => exact hnew
    | inserted hi => exact hnew.set (h.apart hne hj' hj ho' hi)
    | updated _ _ _ hcur =>
      exact hnew.set fun hc => hnew.not_clashes hcur (Order.clashes_status.1 hc)

/-- **Every step keeps the invariant**, if events are missing only where they may be. -/
theorem Inv.step (h : s.Inv settings E) {a : SystemAction} (hs : s.step settings a = some s')
    (hE : ∀ j inp call e f σ, a = .advance j inp →
      s.requests[j]? = some (.running call (.getEvent e f) σ none) → inp.event = none → E call) :
    s'.Inv settings E := by
  cases step_kind hs with
  | begin call => exact h.begin call
  | ret hj | raise hj | refused hj | fail hj => exact h.finish hj _
  | @«continue» j inp call p p' σ σ' hj hb hn =>
    obtain ⟨F, hF⟩ := h.request hj
    obtain ⟨F', hsafe, hl⟩ := hF.safe.continue hn
    have hF' := hF.learn hsafe hl fun e f hp he => hE j inp call e f σ rfl (hp ▸ hj) he
    refine h.move hj rfl h.inventory (.of_eq rfl rfl) .inl (fun he => ?_) (fun {o} ho => ?_)
      fun _ => h.new
    · cases he
      exact ⟨F', hF'.extend (.of_eq rfl rfl) fun _ => id⟩
    · cases hl with
      | nothing | order | missed | noEvent | assigned => exact h.fresh hj ho rfl
      | added hp hc hw hadd hnew =>
        cases ho
        refine ⟨hnew, fun {j' y o'} hne hj' ho' hc => hb ?_⟩
        rw [hp]
        exact ⟨j', (List.getElem?_eq_some_iff.1 hj').1, hne, o', by simp [hj', ho'], hc⟩
  | @call j inp call c k σ hj =>
    obtain ⟨F, hF⟩ := h.request hj
    have hbegin : Inventory.step settings s.inventory (.begin c) =
        some (s.inventory.begun (Inventory.Call.body settings) c) := rfl
    have hext : s.Extends
        { s.put j (.running call (.rpc c k) σ (some s.inventory.txs.length)) with
          inventory := s.inventory.begun (Inventory.Call.body settings) c
          rpcs := s.rpcs ++ [(j, s.inventory.txs.length)] } := .of_inventory rfl hbegin
    refine h.move hj rfl (h.inventory.step hbegin) hext (fun ht => ?_) (fun he => ?_)
      (fun ho => ⟨h.new hj ho, fun hne hj' ho' => h.apart (Ne.symm hne) hj hj' ho ho'⟩)
      fun _ => h.new
    · rcases List.mem_append.1 ht with ht | ht
      · exact .inl ht
      · cases List.mem_singleton.1 ht; exact .inr rfl
    · cases he
      refine ⟨F, { hF with
        holds := fun f hf => hext.holds (hF.holds f hf)
        waits := fun ht => ?_
        asked := fun ht => ?_ }⟩
      · cases ht
        exact ⟨c, k, _, rfl, List.getElem?_concat_length, rfl⟩
      · rcases List.mem_append.1 ht with ht | ht
        · exact .inr ((hF.asked ht).resolve_left nofun)
        · cases List.mem_singleton.1 ht; exact .inl rfl
  | commit hj => exact h.commit hj
  | @publish j inp call m p σ hj =>
    obtain ⟨F, hF⟩ := h.request hj
    refine h.move hj rfl h.inventory (.of_eq rfl rfl) .inl (fun he => ?_)
      (fun ho => h.fresh hj ho rfl) fun _ => h.new
    cases he
    refine ⟨F, RequestInv.extend ?_ (.of_eq rfl rfl) fun _ => id⟩
    exact { hF with safe := hF.safe, waits := nofun }
  | @answered j inp call c c' k σ t res hj ht =>
    obtain ⟨F, hF⟩ := h.request hj
    refine h.move hj rfl h.inventory (.of_eq rfl rfl) .inl (fun he => ?_)
      (fun ho => h.fresh hj ho rfl) fun _ => h.new
    cases he
    exact ⟨_, (hF.answer ht).extend (.of_eq rfl rfl) fun _ => id⟩
  | @inventory a w ha hw =>
    have hext : s.Extends { s with inventory := w } := .of_inventory rfl hw
    refine ⟨h.inventory.step hw, fun hj => ?_, h.new, h.apart, h.rpcs⟩
    obtain ⟨F, hF⟩ := h.request hj
    exact ⟨F, hF.extend hext fun _ => id⟩

/-- **Every step loses nothing.** -/
theorem Inv.extends (h : s.Inv settings E) {a : SystemAction} (hs : s.step settings a = some s') :
    s.Extends s' := by
  cases step_kind hs with
  | begin | ret | raise | «continue» | publish | answered | refused | fail => exact .of_eq rfl rfl
  | @call j inp call c k σ hj => exact .of_inventory (a := .begin c) rfl rfl
  | commit hj =>
    obtain ⟨F, hF⟩ := h.request hj
    exact hF.commit_kind.extend (fun ho => h.new hj ho) rfl rfl
  | inventory _ hw => exact .of_inventory rfl hw

end

end System

end EventSphere.Api
