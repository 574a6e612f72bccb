import EventSphere.Api.Coherence

/-!
# Idempotency keys

A retried booking with the same idempotency key should return the order of the first one. The lookup
of the key and the insert of the order are separated by a call of the Inventory service, and the
unique index only stops the second insert: a booking that looks the key up while another one is
between its own lookup and its commit reserves seats of its own and then fails (`booked_twice`).
`idempotent` shows that nothing else can go wrong: if no booking does so, and no step fails for an
outside reason, there is at most one reservation and one order for the key, and every booking that
has ended has returned that order.
-/

namespace EventSphere.Api.System

open Inventory (Settings)

/-- Request `j` is a booking with the user and the key. -/
def KeyedAt (s : System) (x : UUID × String) (j : ℕ) : Prop :=
  ∃ r, s.requests[j]? = some r ∧ r.call.key = some x

/-- Request `j` has looked the key up in vain and not yet committed its order. -/
def MissedAt (s : System) (x : UUID × String) (j : ℕ) : Prop :=
  ∃ r, s.requests[j]? = some r ∧ r.missed = some x

/-- Request `j` is a booking with the user and the key, and has begun inventory transaction `t`. -/
def Spent (s : System) (x : UUID × String) (j t : ℕ) : Prop := (j, t) ∈ s.rpcs ∧ s.KeyedAt x j

/-- An order with the user and the key is committed. -/
def Ordered (s : System) (x : UUID × String) : Prop :=
  ∃ i o, s.orders.get i = some o ∧ o.HasKey x.1 x.2

/-- The request is about to look the key up. -/
def LooksUp (x : UUID × String) : Request → Prop
  | .running _ (.getByIdempotencyKey u k _) _ none => (u, k) = x
  | _ => False

instance (x : UUID × String) : ∀ r, Decidable (LooksUp x r)
  | .running _ (.getByIdempotencyKey _ _ _) _ none => inferInstanceAs (Decidable (_ = x))
  | .running _ (.getByIdempotencyKey _ _ _) _ (some _) => inferInstanceAs (Decidable False)
  | .running _ (.ret _) _ _ | .running _ (.raise _) _ _ | .running _ (.getForUser ..) _ _
  | .running _ (.getOrder ..) _ _ | .running _ (.getEvent ..) _ _ | .running _ (.uuid4 _) _ _
  | .running _ (.charge ..) _ _ | .running _ (.rpc ..) _ _ | .running _ (.addOrder ..) _ _
  | .running _ (.setStatus ..) _ _ | .running _ (.commit _) _ _ | .running _ (.publish ..) _ _
  | .done _ _ => inferInstanceAs (Decidable False)

/-- No lookup of the key comes between the failed lookup of another booking and its commit. -/
def Apart (x : UUID × String) (s : System) : SystemAction → Prop
  | .advance j _ => (∃ r ∈ s.requests[j]?, LooksUp x r) → ∀ r ∈ s.requests, r.missed ≠ some x
  | _ => True

instance (x : UUID × String) (s : System) : ∀ a, Decidable (Apart x s a)
  | .advance _ _ => inferInstanceAs (Decidable ((∃ r ∈ _, _) → ∀ r ∈ _, _))
  | .begin _ | .fail _ | .inventory _ => inferInstanceAs (Decidable True)

/-- The operation does not fail for an outside reason: the event is found, and an inserted order has
a new primary key, prices that fit their columns and an event that still exists. -/
def Accepts (s : System) (inp : ApiInput) : ApiProg (Option Order) → Prop
  | .getEvent _ _ => inp.event ≠ none
  | .addOrder o _ => inp.event ≠ none ∧ s.orders.get o.id = none ∧
    Int32 o.quantity ∧ Int32 o.unitPriceCents ∧ Int32 o.totalPriceCents
  | _ => True

instance (s : System) (inp : ApiInput) : ∀ p, Decidable (s.Accepts inp p)
  | .getEvent _ _ => inferInstanceAs (Decidable (_ ≠ _))
  | .addOrder _ _ => inferInstanceAs (Decidable (_ ∧ _))
  | .ret _ | .raise _ | .getByIdempotencyKey .. | .getForUser .. | .getOrder .. | .uuid4 _
  | .charge .. | .rpc .. | .setStatus .. | .commit _ | .publish .. =>
    inferInstanceAs (Decidable True)

/-- The next step of a request does not fail for an outside reason: its operation does not, and the
inventory transaction it waits for returns. -/
def Succeeds (s : System) (inp : ApiInput) : Request → Prop
  | .running _ p _ none => s.Accepts inp p
  | .running _ _ _ (some t) =>
    (s.inventory.txs[t]?).all fun
      | .running _ _ _ => true
      | .done _ o => (rpcResult o).isOk
  | .done _ _ => True

instance (s : System) (inp : ApiInput) : ∀ r, Decidable (s.Succeeds inp r)
  | .running _ p _ none => inferInstanceAs (Decidable (s.Accepts inp p))
  | .running _ _ _ (some _) => inferInstanceAs (Decidable (_ = true))
  | .done _ _ => inferInstanceAs (Decidable True)

/-- No step of a booking with the user and the key fails for an outside reason. A total price that
does not fit its column counts as one (`Accepts`): the insert is refused whoever else books. -/
def Undisturbed (x : UUID × String) (s : System) : SystemAction → Prop
  | .advance j inp => ∀ r ∈ s.requests[j]?, r.call.key = some x → s.Succeeds inp r
  | .fail j => ∀ r ∈ s.requests[j]?, r.call.key ≠ some x
  | _ => True

instance (x : UUID × String) (s : System) : ∀ a, Decidable (Undisturbed x s a)
  | .advance _ _ => inferInstanceAs (Decidable (∀ r ∈ _, _ → _))
  | .fail _ => inferInstanceAs (Decidable (∀ r ∈ _, _))
  | .begin _ | .inventory _ => inferInstanceAs (Decidable True)

/-- The bookings with the user and the key share one order: no two orders have the key, the bookings
have made at most one reservation, every booking that has ended has returned the order, and none is
stuck. A booking that is still running can take its next step, or waits for the inventory, or for
another request that is inserting an order with the same primary key. -/
structure Idempotent (settings : Settings) (x : UUID × String) (s : System) : Prop where
  order : ∀ {i i' o o'}, s.orders.get i = some o → s.orders.get i' = some o' →
    o.HasKey x.1 x.2 → o'.HasKey x.1 x.2 → i = i'
  reservation : ∀ {j j' t t' c c' r r'}, s.Spent x j t → s.Spent x j' t' →
    s.inventory.txs[t]? = some (.done c (.returned (.reservation r))) →
    s.inventory.txs[t']? = some (.done c' (.returned (.reservation r'))) → r = r'
  returned : ∀ {j : ℕ} {call out}, s.requests[j]? = some (.done call out) → call.key = some x →
    ∃ o cur, out = .returned (some o) ∧ o.HasKey x.1 x.2 ∧ s.orders.get o.id = some cur ∧
      cur.Succeeds o
  progress : ∀ {j : ℕ} {call p σ w} (inp : ApiInput),
    s.requests[j]? = some (.running call p σ w) → call.key = some x →
    s.step settings (.advance j inp) ≠ none ∨
    (∃ t c q k, w = some t ∧ s.inventory.txs[t]? = some (.running c q k)) ∨
    ∃ o f j' r o', p = .addOrder o f ∧ j' ≠ j ∧ s.requests[j']? = some r ∧ r.insert = some o' ∧
      o'.id = o.id

/-- No two committed orders clash. -/
def Unique (s : System) : Prop :=
  ∀ ⦃i i' o o'⦄, s.orders.get i = some o → s.orders.get i' = some o' → i ≠ i' → ¬ o.Clashes o'

/-- The invariant that carries `idempotent`. -/
structure Keyed (settings : Settings) (x : UUID × String) (s : System) : Prop where
  inv : s.Inv settings fun call => call.key ≠ some x
  unique : s.Unique
  closed : ∀ {j}, s.MissedAt x j → ¬ s.Ordered x
  sole : ∀ {j j'}, s.MissedAt x j → s.MissedAt x j' → j = j'
  owner : ∀ {j j' t}, s.MissedAt x j → s.Spent x j' t → j' = j
  spent : ∀ {j t}, s.Spent x j t → s.MissedAt x j ∨ s.Ordered x
  once : ∀ {j j' t t'}, s.Spent x j t → s.Spent x j' t' → j = j' ∧ t = t'
  returned : ∀ {j : ℕ} {call out}, s.requests[j]? = some (.done call out) → call.key = some x →
    ∃ o, out = .returned (some o) ∧ o.HasKey x.1 x.2 ∧ s.Holds (.known o)

theorem keyed_init (settings : Settings) (x : UUID × String) : Keyed settings x .init where
  inv := inv_init settings _
  unique _ _ _ _ h := nomatch h
  closed := fun ⟨_, h, _⟩ => nomatch h
  sole := fun ⟨_, h, _⟩ => nomatch h
  owner := fun ⟨_, h, _⟩ => nomatch h
  spent := fun ⟨h, _⟩ => nomatch h
  once := fun ⟨h, _⟩ => nomatch h
  returned := nofun

section
variable {settings : Settings} {x : UUID × String} {s s' : System} {j : ℕ} {r r' : Request}

theorem Unique.of_eq (h : s.Unique) (horders : s'.orders = s.orders) : s'.Unique := by
  unfold Unique
  rw [horders]
  exact h

/-- Committed orders stay. -/
theorem Extends.ordered (hext : s.Extends s') (h : s.Ordered x) : s'.Ordered x := by
  obtain ⟨i, o, ho, hk⟩ := h
  obtain ⟨o', ho', hsucc⟩ := hext.orders ho
  exact ⟨i, o', ho', hsucc.hasKey_iff.2 hk⟩

/-- A step that changes nothing about the key. -/
theorem Keyed.congr (h : s.Keyed settings x)
    (hinv : s'.Inv settings fun call => call.key ≠ some x) (hext : s.Extends s')
    (hunique : s'.Unique) (ho : s'.Ordered x → s.Ordered x)
    (hm : ∀ {j}, s'.MissedAt x j ↔ s.MissedAt x j)
    (hs : ∀ {j t}, s'.Spent x j t ↔ s.Spent x j t)
    (hret : ∀ {j : ℕ} {call out}, s'.requests[j]? = some (.done call out) → call.key = some x →
      ∃ o, out = .returned (some o) ∧ o.HasKey x.1 x.2 ∧ s.Holds (.known o)) :
    s'.Keyed settings x where
  inv := hinv
  unique := hunique
  closed h1 h2 := h.closed (hm.1 h1) (ho h2)
  sole h1 h2 := h.sole (hm.1 h1) (hm.1 h2)
  owner h1 h2 := h.owner (hm.1 h1) (hs.1 h2)
  spent h1 := (h.spent (hs.1 h1)).imp hm.2 hext.ordered
  once h1 h2 := h.once (hs.1 h1) (hs.1 h2)
  returned hj hk := (hret hj hk).imp fun _ ho => ⟨ho.1, ho.2.1, hext.holds ho.2.2⟩

/-- The bookings after a move of one request. -/
theorem keyedAt_set (hj : s.requests[j]? = some r) (hreq : s'.requests = s.requests.set j r')
    (hc : r'.call = r.call) {j' : ℕ} : s'.KeyedAt x j' ↔ s.KeyedAt x j' := by
  unfold KeyedAt
  rw [hreq, getElem?_set_of_getElem? hj]
  split
  · next he => rw [he, hj]; simp [hc]
  · exact Iff.rfl

/-- The open windows after a move of one request. -/
theorem missedAt_set (hj : s.requests[j]? = some r) (hreq : s'.requests = s.requests.set j r')
    {j' : ℕ} : s'.MissedAt x j' ↔ if j' = j then r'.missed = some x else s.MissedAt x j' := by
  unfold MissedAt
  rw [hreq, getElem?_set_of_getElem? hj]
  split
  · simp
  · exact Iff.rfl

/-- A request moves, and neither opens nor closes a window of the key. -/
theorem Keyed.move (h : s.Keyed settings x)
    (hinv : s'.Inv settings fun call => call.key ≠ some x) (hj : s.requests[j]? = some r)
    (hreq : s'.requests = s.requests.set j r') (hc : r'.call = r.call)
    (horders : s'.orders = s.orders) (hinventory : s'.inventory = s.inventory)
    (hrpcs : s'.rpcs = s.rpcs) (hm : r'.missed = some x ↔ r.missed = some x)
    (hret : ∀ {call out}, r' = .done call out → call.key = some x →
      ∃ o, out = .returned (some o) ∧ o.HasKey x.1 x.2 ∧ s.Holds (.known o)) :
    s'.Keyed settings x := by
  refine h.congr hinv (.of_eq horders hinventory) (h.unique.of_eq horders)
    (by rw [Ordered, Ordered, horders]; exact id) (fun {j'} => ?_) (fun {j' t} => ?_)
    fun hj' hk => ?_
  · rw [missedAt_set hj hreq]
    split
    · next he => rw [he, hm]; simp [MissedAt, hj]
    · exact Iff.rfl
  · rw [Spent, Spent, hrpcs, keyedAt_set hj hreq hc]
  · rw [hreq] at hj'
    rcases getElem?_set_inv hj' with ⟨-, hdone⟩ | ⟨-, hj'⟩
    · exact hret hdone.symm hk
    · exact h.returned hj' hk

/-- A lookup of the key finds at most one order. -/
theorem Keyed.lookup (h : s.Keyed settings x) {scan : ScanOrder UUID} {e : ApiError} :
    scalarOneOrNone (ordersWithKey s.orders scan x.1 x.2) ≠ .error e :=
  Indexed.scalarOneOrNone_ne_error h.unique

section
variable {call : ApiCall} {p : ApiProg (Option Order)} {σ : ApiSession} {w : Option ℕ}
  {inp : ApiInput}

/-- The insert of a booking is accepted. -/
theorem Keyed.insert (h : s.Keyed settings x) {o : Order} {F : List Fact} {event : Option Event}
    (hj : s.requests[j]? = some (.running call (.addOrder o p) σ w)) (hx : call.key = some x)
    (hF : RequestInv (fun call => call.key ≠ some x) s j call (.addOrder o p) σ w F)
    (hlen : x.2.length ≤ 128) (he : event ≠ none) (hid : s.orders.get o.id = none)
    (hint : Int32 o.quantity ∧ Int32 o.unitPriceCents ∧ Int32 o.totalPriceCents) :
    insertError s.orders event o = none := by
  obtain ⟨hc, hw, hadd, -⟩ := hF.safe
  have hk : o.HasKey x.1 x.2 := (hadd.keyed x (ApiCall.key_ne_empty hx)).2 hx
  obtain ⟨r, hr, -⟩ := hadd.reserved
  obtain ⟨t, ht⟩ := hF.holds _ hr
  obtain ⟨r', -, r'', hr'', -, -, hq⟩ := h.inv.inventory.returned ht
  refine insertError_eq_none.2 ⟨⟨hint.1, hint.2.1, hint.2.2, fun key hkey => ?_⟩, ?_, ?_, he⟩
  · cases hk.2.symm.trans hkey
    exact hlen
  · rw [← hq]
    exact h.inv.inventory.coherent.db.valid hr''
  · rintro i - o' ho' (hclash | ⟨hu, hkey, -⟩)
    · obtain rfl : o'.id = i := s.orders.pk_of_get ho'
      rw [← hclash, Option.mem_def, hid] at ho'
      cases ho'
    · exact h.closed ⟨_, hj, hF.window hw hx⟩ ⟨i, o', ho', hu.symm.trans hk.1,
        hkey.symm.trans hk.2⟩

/-- **A booking that nothing disturbs raises nothing.** -/
theorem Keyed.no_raise (h : s.Keyed settings x)
    (hj : s.requests[j]? = some (.running call p σ none))
    (hx : call.key = some x) (hlen : x.2.length ≤ 128)
    (hs : s.Succeeds inp (.running call p σ none)) (e : ApiError) :
    p.next s.orders inp σ ≠ .raise e := by
  obtain ⟨F, hF⟩ := h.inv.request hj
  intro hn
  cases p with
  | raise e =>
    rcases hF.safe x hx with hf | ⟨e, o, q, res, hf, hne⟩
    · exact hF.event hf hx
    · obtain ⟨t, ht⟩ := hF.holds _ hf
      obtain ⟨r, hr, -⟩ := h.inv.inventory.returned ht
      exact hne r hr
  | getByIdempotencyKey u k f =>
    obtain ⟨hc, hkey, -⟩ := hF.safe
    cases hkey.symm.trans hx
    simp only [ApiProg.next, hc.view] at hn
    split at hn
    · next he => exact h.lookup he
    · cases hn
    · cases hn
  | addOrder o f =>
    have hc := hF.safe.1
    simp only [ApiProg.next, hc.view, h.insert hj hx hF hlen hs.1 hs.2.1 hs.2.2] at hn
    cases hn
  | ret | getForUser | getOrder | getEvent | uuid4 | charge | rpc | setStatus | commit | publish =>
    cases hn

/-- What a booking returns is the committed order with its key. -/
theorem Keyed.ret (h : s.Keyed settings x) {a : Option Order}
    (hj : s.requests[j]? = some (.running call (.ret a) σ w)) (hx : call.key = some x) :
    ∃ o, a = some o ∧ o.HasKey x.1 x.2 ∧ s.Holds (.known o) := by
  obtain ⟨F, hF⟩ := h.inv.request hj
  obtain ⟨o, ha, ho, hk⟩ := hF.safe x hx
  exact ⟨o, ha, hk, hF.holds _ ho⟩

/-- A request that is no booking with the key is not between its lookup and its commit. -/
theorem Keyed.not_missed (h : s.Keyed settings x)
    (hj : s.requests[j]? = some (.running call p σ w)) (hx : call.key ≠ some x) :
    σ.missed ≠ some x := by
  obtain ⟨F, hF⟩ := h.inv.request hj
  exact fun hm => hx (hF.own hm)

/-- A failed lookup opens a window, if none is open. -/
theorem Keyed.opened (h : s.Keyed settings x) {p' : ApiProg (Option Order)} {σ' : ApiSession}
    (hinv : (s.put j (.running call p' σ' none)).Inv settings fun call => call.key ≠ some x)
    (hj : s.requests[j]? = some (.running call p σ none)) (hclosed : ∀ j', ¬ s.MissedAt x j')
    (hnone : ¬ s.Ordered x) : (s.put j (.running call p' σ' none)).Keyed settings x := by
  -- nobody has spent anything on the key
  have hspent : ∀ {j' t}, ¬ (s.put j (.running call p' σ' none)).Spent x j' t := fun hsp => by
    obtain ⟨hmem, hk⟩ := hsp
    rw [keyedAt_set hj (show _ = s.requests.set j (.running call p' σ' none) from rfl) rfl] at hk
    exact (h.spent ⟨hmem, hk⟩).elim (hclosed _) hnone
  have hj' : ∀ {j'}, (s.put j (.running call p' σ' none)).MissedAt x j' → j' = j :=
    fun {j'} hm => by
      rw [missedAt_set hj rfl] at hm
      split at hm
      · assumption
      · exact absurd hm (hclosed _)
  refine ⟨hinv, h.unique, fun _ => hnone, fun h1 h2 => (hj' h1).trans (hj' h2).symm,
    fun _ hsp => absurd hsp hspent, fun hsp => absurd hsp hspent, fun hsp => absurd hsp hspent,
    fun hd hk => ?_⟩
  rcases getElem?_set_inv hd with ⟨-, hdone⟩ | ⟨-, hd⟩
  · cases hdone
  · exact h.returned hd hk

/-- A call of the inventory by a booking with the key is its first and the only one. -/
theorem Keyed.asked (h : s.Keyed settings x) {c : Inventory.Call}
    {k : Inventory.Result → ApiProg (Option Order)}
    (hinv : s'.Inv settings fun call => call.key ≠ some x)
    (hj : s.requests[j]? = some (.running call (.rpc c k) σ none)) (hext : s.Extends s')
    (horders : s'.orders = s.orders) {t : ℕ}
    (hreq : s'.requests = s.requests.set j (.running call (.rpc c k) σ (some t)))
    (hrpcs : s'.rpcs = s.rpcs ++ [(j, t)]) : s'.Keyed settings x := by
  have hret : ∀ {j' : ℕ} {call' out}, s'.requests[j']? = some (.done call' out) →
      call'.key = some x → ∃ o, out = .returned (some o) ∧ o.HasKey x.1 x.2 ∧ s.Holds (.known o) :=
    fun hd hk => by
      rw [hreq] at hd
      rcases getElem?_set_inv hd with ⟨-, hdone⟩ | ⟨-, hd⟩
      · cases hdone
      · exact h.returned hd hk
  have ho : s'.Ordered x ↔ s.Ordered x := by rw [Ordered, Ordered, horders]
  have hm : ∀ {j'}, s'.MissedAt x j' ↔ s.MissedAt x j' := fun {j'} => by
    rw [missedAt_set hj hreq]
    split
    · next he => rw [he]; simp [MissedAt, hj, Request.missed]
    · exact Iff.rfl
  have hkeyed : ∀ {j'}, s'.KeyedAt x j' ↔ s.KeyedAt x j' := keyedAt_set hj hreq rfl
  -- the new transaction, or an old one
  have hsp : ∀ {j' t'}, s'.Spent x j' t' → s.Spent x j' t' ∨
      (j' = j ∧ t' = t ∧ call.key = some x) := fun hsp => by
    obtain ⟨hmem, hk⟩ := hsp
    rw [hrpcs] at hmem
    rcases List.mem_append.1 hmem with hmem | hmem
    · exact .inl ⟨hmem, hkeyed.1 hk⟩
    · cases List.mem_singleton.1 hmem
      obtain ⟨r, hr, hk⟩ := hkeyed.1 hk
      cases hj.symm.trans hr
      exact .inr ⟨rfl, rfl, hk⟩
  by_cases hx : call.key = some x
  · obtain ⟨F, hF⟩ := h.inv.request hj
    obtain ⟨-, hask, -⟩ := hF.safe
    have hmj : s.MissedAt x j := ⟨_, hj, hF.window hask.window hx⟩
    -- the booking has asked for nothing before, and nobody else has
    have hnone : ∀ {j' t'}, ¬ s.Spent x j' t' := fun h' => by
      have hmem := h'.1
      rw [h.owner hmj h'] at hmem
      obtain ⟨c', res, hf⟩ := (hF.asked hmem).resolve_left nofun
      exact hask.once (by rw [hx]; nofun) c' res hf
    have hnew : ∀ {j' t'}, s'.Spent x j' t' → j' = j ∧ t' = t := fun hsp' =>
      (hsp hsp').elim (fun h' => absurd h' hnone) fun h' => ⟨h'.1, h'.2.1⟩
    exact
      { inv := hinv
        unique := h.unique.of_eq horders
        closed := fun h1 h2 => h.closed (hm.1 h1) (ho.1 h2)
        sole := fun h1 h2 => h.sole (hm.1 h1) (hm.1 h2)
        owner := fun h1 h2 => (hnew h2).1.trans (h.sole hmj (hm.1 h1))
        spent := fun h1 => .inl ((hnew h1).1 ▸ hm.2 hmj)
        once := fun h1 h2 =>
          ⟨(hnew h1).1.trans (hnew h2).1.symm, (hnew h1).2.trans (hnew h2).2.symm⟩
        returned := fun hd hk =>
          (hret hd hk).imp fun _ ho => ⟨ho.1, ho.2.1, hext.holds ho.2.2⟩ }
  · refine h.congr hinv hext (h.unique.of_eq horders) ho.1 hm
      (fun {j' t'} => ⟨fun h' => ?_, fun h' => ?_⟩) hret
    · exact (hsp h').resolve_right fun h'' => hx h''.2.2
    · refine ⟨?_, hkeyed.2 h'.2⟩
      rw [hrpcs]
      exact List.mem_append_left _ h'.1

/-- A commit keeps primary keys and idempotency keys unique. -/
theorem Keyed.unique_commit (h : s.Keyed settings x) {F : List Fact} {orders : Table Order}
    (hj : s.requests[j]? = some (.running call p σ w)) (hk : CommitKind call.key s σ F orders)
    {i i' : UUID} {o o' : Order} (ho : orders.get i = some o) (ho' : orders.get i' = some o')
    (hne : i ≠ i') : ¬ o.Clashes o' := by
  cases hk with
  | nothing => exact h.unique ho ho' hne
  | inserted hi => exact Indexed.set h.unique (h.inv.new hj hi) ho ho' hne
  | @updated o'' cur st hi hst hassign hcur hsucc =>
    have hid : pk { cur with status := st } = o''.id := hsucc.id_eq
    rw [Table.get_set, hid] at ho ho'
    split at ho
    · next he =>
      cases ho
      rw [if_neg fun he' => hne (he.trans he'.symm)] at ho'
      exact fun hc => h.unique hcur ho' (he ▸ hne) hc
    · split at ho'
      · next he' =>
        cases ho'
        exact fun hc => h.unique ho hcur (he' ▸ hne) (Order.clashes_status.1 hc)
      · exact h.unique ho ho' hne

/-- Only a booking with the key commits an order with the key. -/
theorem CommitKind.ordered {F : List Fact} {orders : Table Order} (hx : call.key ≠ some x)
    (hne : x.2 ≠ "") (h : CommitKind call.key s σ F orders) {i : UUID} {o : Order}
    (ho : orders.get i = some o) (hk : o.HasKey x.1 x.2) : s.Ordered x := by
  cases h with
  | nothing => exact ⟨i, o, ho, hk⟩
  | @inserted o' _ _ hadd =>
    rcases Table.get_set_inv ho with ⟨-, rfl⟩ | ho
    · exact absurd ((hadd.keyed x hne).1 hk) hx
    · exact ⟨i, o, ho, hk⟩
  | @updated o' cur st _ _ _ hcur =>
    rcases Table.get_set_inv ho with ⟨-, rfl⟩ | ho
    · exact ⟨_, cur, hcur, hk⟩
    · exact ⟨i, o, ho, hk⟩

/-- A commit, which closes the window of a booking with the key. -/
theorem Keyed.commit (h : s.Keyed settings x) (hne : x.2 ≠ "")
    (hj : s.requests[j]? = some (.running call (.commit p) σ none)) :
    Keyed settings x { s.put j (.running call p .empty none) with orders := σ.view s.orders } := by
  have hinv := h.inv.commit hj
  obtain ⟨F, hF⟩ := h.inv.request hj
  have hkind := hF.commit_kind
  have hext : s.Extends
      { s.put j (.running call p .empty none) with orders := σ.view s.orders } :=
    hkind.extend (fun ho => h.inv.new hj ho) rfl rfl
  generalize hs' : { s.put j (.running call p .empty none) with
    orders := σ.view s.orders } = s' at hinv hext ⊢
  have hreq : s'.requests = s.requests.set j (.running call p .empty none) := by rw [← hs']; rfl
  have horders : s'.orders = σ.view s.orders := by rw [← hs']
  have hrpcs : s'.rpcs = s.rpcs := by rw [← hs']; rfl
  have hunique : s'.Unique := by
    unfold Unique
    rw [horders]
    exact fun _ _ _ _ => h.unique_commit hj hkind
  have hsp : ∀ {j' t}, s'.Spent x j' t ↔ s.Spent x j' t := fun {j' t} => by
    rw [Spent, Spent, hrpcs, keyedAt_set hj hreq rfl]
  have hret : ∀ {j' : ℕ} {call' out}, s'.requests[j']? = some (.done call' out) →
      call'.key = some x → ∃ o, out = .returned (some o) ∧ o.HasKey x.1 x.2 ∧ s.Holds (.known o) :=
    fun hd hk => by
      rw [hreq] at hd
      rcases getElem?_set_inv hd with ⟨-, hdone⟩ | ⟨-, hd⟩
      · cases hdone
      · exact h.returned hd hk
  by_cases hx : call.key = some x
  · cases hi : σ.insert with
    | none => exact absurd hi (hF.safe.1 x hx)
    | some o =>
      have hins : σ.insert ≠ none := by rw [hi]; exact Option.some_ne_none _
      have hmj : s.MissedAt x j := ⟨_, hj, hF.inserting hins x hx⟩
      have hclosed : ∀ {j'}, ¬ s'.MissedAt x j' := fun {j'} hm => by
        rw [missedAt_set hj hreq] at hm
        split at hm
        · cases hm
        · next hne => exact hne (h.sole hm hmj)
      have hordered : s'.Ordered x := by
        obtain ⟨cur, hcur, hsucc⟩ := (hF.commit hext horders hrpcs).holds (.known o)
          (by rw [committedFacts, hi]; exact List.mem_cons_self ..)
        exact ⟨o.id, cur, hcur, hsucc.hasKey_iff.2 (((hF.insert hi).keyed x hne).2 hx)⟩
      exact
        { inv := hinv
          unique := hunique
          closed := fun h1 => absurd h1 hclosed
          sole := fun h1 => absurd h1 hclosed
          owner := fun h1 => absurd h1 hclosed
          spent := fun _ => .inr hordered
          once := fun h1 h2 => h.once (hsp.1 h1) (hsp.1 h2)
          returned := fun hd hk =>
            (hret hd hk).imp fun _ ho => ⟨ho.1, ho.2.1, hext.holds ho.2.2⟩ }
  · refine h.congr hinv hext hunique ?_ (fun {j'} => ?_) hsp hret
    · rintro ⟨i, o, ho, hk⟩
      exact hkind.ordered hx hne (horders ▸ ho) hk
    · rw [missedAt_set hj hreq]
      split
      · next he =>
        rw [he]
        constructor
        · exact fun hm => by cases hm
        rintro ⟨r, hr, hm⟩
        cases hj.symm.trans hr
        exact absurd hm (h.not_missed hj hx)
      · exact Iff.rfl

/-- The end of a request that is no booking with the key. -/
theorem Keyed.finish (h : s.Keyed settings x) (hj : s.requests[j]? = some (.running call p σ w))
    (hx : call.key ≠ some x) (out : Outcome ApiError (Option Order)) :
    (s.put j (.done call out)).Keyed settings x := by
  refine h.move (h.inv.finish hj out) hj rfl rfl rfl rfl rfl ⟨nofun, fun hm => ?_⟩ fun he hk => ?_
  · exact absurd hm (h.not_missed hj hx)
  · cases he
    exact absurd hk hx

/-- The arrival of a request. -/
theorem Keyed.begin (h : s.Keyed settings x) (call : ApiCall) :
    Keyed settings x
      { s with requests := s.requests ++ [.running call call.body .empty none] } := by
  have hold : ∀ {j : ℕ} {r}, s.requests[j]? = some r →
      (s.requests ++ [.running call call.body .empty none])[j]? = some r := fun hj => by
    rw [List.getElem?_append_left (List.getElem?_eq_some_iff.1 hj).1]
    exact hj
  refine h.congr (h.inv.begin call) (.of_eq rfl rfl) (h.unique.of_eq rfl) id
    ⟨fun ⟨r, hr, hm⟩ => ?_, fun ⟨r, hr, hm⟩ => ⟨r, hold hr, hm⟩⟩
    ⟨fun ⟨ht, r, hr, hk⟩ => ?_, fun ⟨ht, r, hr, hk⟩ => ⟨ht, r, hold hr, hk⟩⟩ fun hd hk => ?_
  · rcases getElem?_append_singleton hr with hr | ⟨-, rfl⟩
    · exact ⟨r, hr, hm⟩
    · cases hm
  · rcases getElem?_append_singleton hr with hr | ⟨rfl, -⟩
    · exact ⟨ht, r, hr, hk⟩
    · exact absurd (h.inv.rpcs ht) (Nat.lt_irrefl _)
  · rcases getElem?_append_singleton hd with hd | ⟨-, he⟩
    · exact h.returned hd hk
    · cases he

/-- **One step keeps the invariant**, if the bookings stay apart and nothing disturbs them. -/
theorem Keyed.step (h : s.Keyed settings x) (hne : x.2 ≠ "") (hlen : x.2.length ≤ 128)
    {a : SystemAction} (hU : Undisturbed x s a) (hA : Apart x s a)
    (hs : s.step settings a = some s') : s'.Keyed settings x := by
  have hinv : s'.Inv settings fun call => call.key ≠ some x := by
    refine h.inv.step hs fun j inp call e f σ ha hj he hx => ?_
    subst ha
    exact hU _ hj hx he
  cases step_kind hs with
  | begin call => exact h.begin call
  | @ret j inp call p σ o hj hn =>
    obtain rfl := ApiProg.next_ret hn
    refine h.move hinv hj rfl rfl rfl rfl rfl ⟨nofun, fun hm => ?_⟩ fun he hk => ?_
    · -- a booking that returns has found or committed its order
      by_cases hx : call.key = some x
      · obtain ⟨o, -, hk, cur, hcur, hsucc⟩ := h.ret hj hx
        exact absurd ⟨_, cur, hcur, hsucc.hasKey_iff.2 hk⟩ (h.closed ⟨_, hj, hm⟩)
      · exact absurd hm (h.not_missed hj hx)
    · cases he
      obtain ⟨o, rfl, ho⟩ := h.ret hj hk
      exact ⟨o, rfl, ho⟩
  | @raise j inp call p σ e hj hn =>
    exact h.finish hj (fun hx => h.no_raise hj hx hlen (hU _ hj hx) e hn) _
  | @refused j inp call c c' k σ t o e hj ht ho =>
    refine h.finish hj (fun hx => ?_) _
    have hok := hU _ hj hx
    simp only [Succeeds, ht, Option.all_some, ho] at hok
    cases hok
  | fail hj => exact h.finish hj (hU _ hj) _
  | @«continue» j inp call p p' σ σ' hj hb hn =>
    obtain ⟨F, hF⟩ := h.inv.request hj
    obtain ⟨F', -, hl⟩ := hF.safe.continue hn
    cases hl with
    | nothing | order | noEvent | added | assigned =>
      exact h.move hinv hj rfl rfl rfl rfl rfl Iff.rfl nofun
    | @missed y f hp hy hnone =>
      by_cases hyx : y = x
      · subst hyx
        subst hp
        refine h.opened hinv hj (fun j' hm => ?_) fun ⟨i, o, ho, hk⟩ => hnone i o ho hk
        obtain ⟨r, hr, hm⟩ := hm
        exact hA ⟨_, hj, rfl⟩ r (List.mem_of_getElem? hr) hm
      · have hx : call.key ≠ some x := fun hx => hyx (Option.some.inj (hy.symm.trans hx))
        refine h.move hinv hj rfl rfl rfl rfl rfl ⟨fun hm => ?_, fun hm => ?_⟩ nofun
        · exact absurd (Option.some.inj hm) hyx
        · exact absurd hm (h.not_missed hj hx)
  | @call j inp call c k σ hj =>
    have hbegin : Inventory.step settings s.inventory (.begin c) =
        some (s.inventory.begun (Inventory.Call.body settings) c) := rfl
    exact h.asked hinv hj (.of_inventory rfl hbegin) rfl rfl rfl
  | commit hj => exact h.commit hne hj
  | publish hj | answered hj => exact h.move hinv hj rfl rfl rfl rfl rfl Iff.rfl nofun
  | inventory ha hw =>
    exact h.congr hinv (.of_inventory rfl hw) (h.unique.of_eq rfl) id Iff.rfl Iff.rfl h.returned

/-- A booking with the key waits for nobody else's key. -/
theorem Keyed.blocked (h : s.Keyed settings x) (hj : s.requests[j]? = some (.running call p σ none))
    (hx : call.key = some x) (hb : s.Blocked j p) :
    ∃ o f j' r o', p = .addOrder o f ∧ j' ≠ j ∧ s.requests[j']? = some r ∧ r.insert = some o' ∧
      o'.id = o.id := by
  cases p with
  | addOrder o f =>
    obtain ⟨j', -, hne, o', ho', hclash⟩ := hb
    obtain ⟨r, hr, ho'⟩ := Option.bind_eq_some_iff.1 ho'
    refine ⟨o, f, j', r, o', rfl, hne, hr, ho', ?_⟩
    rcases hclash with hid | ⟨hu, hkey, -⟩
    · exact hid.symm
    · -- the other request would be a booking with the key, and in its window too
      obtain ⟨F, hF⟩ := h.inv.request hj
      obtain ⟨-, hw, hadd, -⟩ := hF.safe
      have hne' := ApiCall.key_ne_empty hx
      have hk := (hadd.keyed x hne').2 hx
      cases r with
      | done => cases ho'
      | running call' p' σ' w' =>
        obtain ⟨F', hF'⟩ := h.inv.request hr
        have hx' : call'.key = some x := ((hF'.insert ho').keyed x hne').1
          ⟨hu.symm.trans hk.1, hkey.symm.trans hk.2⟩
        have hm' : σ'.missed = some x := hF'.inserting (fun hi => by cases hi.symm.trans ho') x hx'
        exact absurd (h.sole ⟨_, hr, hm'⟩ ⟨_, hj, hF.window hw hx⟩) hne
  | ret | raise | getByIdempotencyKey | getForUser | getOrder | getEvent | uuid4 | charge | rpc
  | setStatus | commit | publish => cases hb

/-- What the invariant says about the key. -/
theorem Keyed.shared (h : s.Keyed settings x) : s.Idempotent settings x where
  order ho ho' hk hk' := by
    by_contra hne
    refine h.unique ho ho' hne (.inr ⟨hk.1.trans hk'.1.symm, hk.2.trans hk'.2.symm, ?_⟩)
    rw [hk.2]
    exact Option.some_ne_none _
  reservation h1 h2 ht ht' := by
    rw [(h.once h1 h2).2, ht'] at ht
    cases ht
    rfl
  returned hd hk := by
    obtain ⟨o, hout, hkey, cur, hcur, hsucc⟩ := h.returned hd hk
    exact ⟨o, cur, hout, hkey, hcur, hsucc⟩
  progress {j call p σ w} inp hj hx := by
    cases w with
    | none =>
      by_cases hb : s.Blocked j p
      · exact .inr (.inr (h.blocked hj hx hb))
      · refine .inl ?_
        simp only [System.step, hj, if_neg hb]
        exact Option.some_ne_none _
    | some t =>
      obtain ⟨F, hF⟩ := h.inv.request hj
      obtain ⟨c, k, y, rfl, hy, -⟩ := hF.waits rfl
      cases y with
      | running c' q work => exact .inr (.inl ⟨t, c', q, work, rfl, hy⟩)
      | done c' o =>
        refine .inl ?_
        simp only [System.step, hj, hy]
        exact Option.some_ne_none _

end

end

/-- **Bookings that stay apart are idempotent.** For every user and every key, and every
interleaving of requests in which no step of a booking with the key fails for an outside reason: if
no booking looks the key up while another one is between its own lookup and its commit, the bookings
with the key share one order. -/
theorem idempotent (settings : Settings) (user : UUID) (key : String) (hne : key ≠ "")
    (hlen : key.length ≤ 128) (as : List SystemAction) (s : System)
    (hr : run (step settings) .init as = some s)
    (hU : Along (step settings) (Undisturbed (user, key)) .init as)
    (hA : Along (step settings) (Apart (user, key)) .init as) :
    s.Idempotent settings (user, key) := by
  have h := run_inv_along (I := Keyed settings (user, key))
    (fun h hC hs => h.step hne hlen hC.1 hC.2 hs) (hU.and hA) hr (keyed_init settings (user, key))
  exact h.shared

/-! ## Two bookings with one key -/

/-- An event with two seats, and two bookings with one key. -/
def twoBookings : List SystemAction :=
  [.inventory (.begin (.initializeInventory ⟨1⟩ 2))] ++ inventoryAdvances 0 4 ++
  List.replicate 2 (.begin (.bookTickets ⟨2⟩ ⟨1⟩ 1 (some "retry-me")))

/-- What a request has ended with. -/
def outcome : Request → Option (Outcome ApiError (Option Order))
  | .running _ _ _ _ => none
  | .done _ o => some o

/-- The second booking looks the key up when the first one has ended. -/
def retried : List SystemAction :=
  twoBookings ++ advances 0 4 ++ inventoryAdvances 1 7 ++ advances 0 5 ++ advances 1 2

/-- Both bookings return the order of the first. -/
theorem retried_idempotent : ∃ s, run (step .default) .init retried = some s ∧
    s.Idempotent .default (⟨2⟩, "retry-me") ∧ s.orders.get ⟨3⟩ ≠ none ∧ s.requests.length = 2 ∧
    ∀ r ∈ s.requests, outcome r = some (.returned (s.orders.get ⟨3⟩)) := by
  obtain ⟨s, hs, h⟩ : ∃ s, run (step .default) .init retried = some s ∧
      s.orders.get ⟨3⟩ ≠ none ∧ s.requests.length = 2 ∧
      ∀ r ∈ s.requests, outcome r = some (.returned (s.orders.get ⟨3⟩)) :=
    exists_of_run (by decide +kernel)
  refine ⟨s, hs, ?_, h⟩
  exact idempotent .default ⟨2⟩ "retry-me" (by decide) (by decide) retried s hs
    (by decide +kernel) (by decide +kernel)

/-- Both bookings look the key up before either has committed. -/
def overlapping : List SystemAction :=
  twoBookings ++ advances 0 1 ++ advances 1 1 ++ advances 0 3 ++ inventoryAdvances 1 7 ++
  advances 1 3 ++ inventoryAdvances 2 7 ++ advances 0 5 ++ advances 1 2

/-- **A key can be booked twice.** Nothing disturbs the bookings, yet the second one holds a
reservation of its own and has raised an integrity error. -/
theorem booked_twice : Along (step .default) (Undisturbed (⟨2⟩, "retry-me")) .init overlapping ∧
    ∃ s, run (step .default) .init overlapping = some s ∧
      (s.inventory.db.plain.get ⟨101⟩).any (·.status = .pending) = true ∧
      (s.inventory.db.plain.get ⟨102⟩).any (·.status = .pending) = true ∧
      (s.requests[1]?).bind outcome = some (.raised .integrity) ∧
      ¬ s.Idempotent .default (⟨2⟩, "retry-me") := by
  refine ⟨by decide +kernel, ?_⟩
  obtain ⟨s, hs, h101, h102, hout, hkey⟩ : ∃ s, run (step .default) .init overlapping = some s ∧
      (s.inventory.db.plain.get ⟨101⟩).any (·.status = .pending) = true ∧
      (s.inventory.db.plain.get ⟨102⟩).any (·.status = .pending) = true ∧
      (s.requests[1]?).bind outcome = some (.raised .integrity) ∧
      (s.requests[1]?).any (·.call.key = some (⟨2⟩, "retry-me")) = true :=
    exists_of_run (by decide +kernel)
  refine ⟨s, hs, h101, h102, hout, fun hi => ?_⟩
  obtain ⟨r, hr, ho⟩ := Option.bind_eq_some_iff.1 hout
  rw [hr, Option.any_some, decide_eq_true_eq] at hkey
  cases r with
  | running => cases ho
  | done call out =>
    cases ho
    obtain ⟨o, cur, he, -⟩ := hi.returned hr hkey
    cases he

end EventSphere.Api.System
