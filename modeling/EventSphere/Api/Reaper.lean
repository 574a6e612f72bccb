import EventSphere.Api.Operations
import EventSphere.Api.Coherence
import EventSphere.Inventory.Expiry

/-!
# Expired reservations and their messages

A round of the reaper sweeps the expired reservations in one transaction and then publishes a
`RESERVATION_EXPIRED` for each of them (`reservation_reaper.py:36`). A reservation that is `EXPIRED`
is never swept again, so a round that fails after the commit of its sweep takes the messages it has
not published with it, and no later round makes up for them (`expiry_lost`). `expiry_published`
shows that this is the only way: if no round fails between the commit of its sweep and its last
message, every reservation that has become `EXPIRED` has been announced when a later round
completes.
-/

namespace EventSphere.Api

open Inventory (Settings InventoryWorld Reservation)

/-- The reservations whose expiries a program publishes next, one after the other. -/
def ApiProg.expiries {α : Type} : ApiProg α → List UUID
  | publish (.reservationExpired reservationId _ _) p => reservationId :: p.expiries
  | publish _ p => p.expiries
  | _ => []

/-- The expired reservations that a request still has to announce: those of the messages ahead, or
those of the sweep it waits for, once that has been committed. -/
def Request.expiries (w : InventoryWorld) : Request → List UUID
  | running _ p _ none => p.expiries
  | running _ _ _ (some t) =>
    match w.txs[t]? with
    | some (.done .sweepExpiredReservations (.returned (.reservations rs))) => rs.map Reservation.id
    | _ => []
  | done _ _ => []

/-- The request waits for the inventory transaction with the number. -/
def Request.waitsFor (t : ℕ) : Request → Bool
  | running _ _ _ (some t') => t' = t
  | _ => false

namespace System

/-- Transaction `t` of the inventory is a sweep that is about to commit. -/
def sweepsAt (s : System) (t : ℕ) : Bool :=
  match s.inventory.txs[t]? with
  | some (.running .sweepExpiredReservations (.ret _) _) => true
  | _ => false

/-- Only the reaper expires reservations: from elsewhere, the inventory is asked for other
things. -/
def Inhouse : SystemAction → Prop
  | .inventory (.begin c) => c.expires = false
  | _ => True

instance : ∀ a, Decidable (Inhouse a)
  | .inventory (.begin _) => inferInstanceAs (Decidable (_ = false))
  | .inventory (.advance _ _) | .inventory (.abort _) | .begin _ | .advance _ _ | .fail _ =>
    inferInstanceAs (Decidable True)

/-- The rounds of the reaper follow each other: one begins when all earlier ones have ended. -/
def OneReaper (s : System) : SystemAction → Prop
  | .begin call => call = .reservationReaper →
    ∀ r ∈ s.requests, r.call = .reservationReaper → r.ended = true
  | _ => True

instance (s : System) : ∀ a, Decidable (OneReaper s a)
  | .begin _ => inferInstanceAs (Decidable (_ → ∀ r ∈ _, _ → _))
  | .advance _ _ | .fail _ | .inventory _ => inferInstanceAs (Decidable True)

/-- No round fails between the commit of its sweep and its last message: it does not fail while it
has expiries to announce, and its sweep is committed only while it waits for it. -/
def Finishes (s : System) : SystemAction → Prop
  | .fail j => ∀ r ∈ s.requests[j]?, r.expiries s.inventory = []
  | .inventory (.advance t _) => s.sweepsAt t = true → ∃ r ∈ s.requests, r.waitsFor t = true
  | _ => True

instance (s : System) : ∀ a, Decidable (Finishes s a)
  | .fail _ => inferInstanceAs (Decidable (∀ r ∈ _, _))
  | .inventory (.advance _ _) => inferInstanceAs (Decidable (_ → ∃ r ∈ _, _))
  | .inventory (.begin _) | .inventory (.abort _) | .begin _ | .advance _ _ =>
    inferInstanceAs (Decidable True)

/-- The expiry of reservation `i` has been announced. -/
def ExpiryPublished (i : UUID) (s : System) : Prop :=
  ∃ orderId eventId, Message.reservationExpired i orderId eventId ∈ s.published

/-- Round `j` of the reaper still has to announce the expiry of reservation `i`. -/
def ExpiryOwed (i : UUID) (s : System) (j : ℕ) : Prop :=
  ∃ r, s.requests[j]? = some r ∧ r.call = .reservationReaper ∧ i ∈ r.expiries s.inventory

end System

/-! ## The program of the reaper -/

/-- No inventory calls. -/
def callFree : Permission := ⟨fun _ => False, fun _ _ => True, True⟩

/-- No calls that expire reservations. -/
def sparing : Permission := ⟨fun c => c.expires = false, fun _ _ => True, True⟩

/-- The reaper sweeps and then only publishes; nobody else expires reservations. -/
def Reaps (call : ApiCall) (p : ApiProg (Option Order)) : Prop :=
  (call = .reservationReaper → p = call.body ∨ p.Within callFree) ∧
  (call ≠ .reservationReaper → p.Within sparing)

/-- Nobody but the reaper needs to expire reservations. -/
theorem ApiCall.needs_sparing {call : ApiCall} (h : call ≠ .reservationReaper) :
    call.Needs sparing := by
  cases call with
  | bookTickets => exact fun _ => rfl
  | cancelOrder => exact fun _ _ => ⟨rfl, trivial⟩
  | orderStatusWorker m =>
    cases m with
    | paymentProcessed => exact fun _ _ => ⟨⟨rfl, trivial⟩, rfl, trivial⟩
    | reservationExpired => exact fun _ _ => trivial
    | orderCreated | ticketIssued | orderCancelled => trivial
  | paymentWorker => trivial
  | reservationReaper => exact absurd rfl h

/-- Requests keep to that from their beginning. -/
theorem ApiCall.body_reaps (call : ApiCall) : Reaps call call.body :=
  ⟨fun _ => .inl rfl, fun h => ApiCall.body_within (ApiCall.needs_sparing h)⟩

/-- What the reaper does with the answer of its sweep calls the inventory no more. -/
theorem reaper_answer {c : Inventory.Call} {k : Inventory.Result → ApiProg (Option Order)}
    (h : ApiProg.rpc c k = ApiCall.reservationReaper.body) (res : Inventory.Result) :
    (k res).Within callFree := by
  cases h
  cases res with
  | reservations rs => exact publishExpired_within rs
  | inventory | reservation => trivial

/-- Requests keep to that to their end. -/
theorem System.closed_reaps : Closed fun call p _ => Reaps call p where
  next {call p p' σ σ' orders inp} h hn := by
    refine ⟨fun hc => .inr ?_, fun hc => ((h.2 hc).continue (fun _ _ _ => trivial) hn).1⟩
    rcases h.1 hc with he | hw
    · subst hc
      rw [he] at hn
      cases hn
    · exact (hw.continue (fun _ _ _ => trivial) hn).1
  commit {call p σ} h := by
    refine ⟨fun hc => .inr ?_, h.2⟩
    rcases h.1 hc with he | hw
    · subst hc; cases he
    · exact hw
  publish {call p σ m} h := by
    refine ⟨fun hc => .inr ?_, h.2⟩
    rcases h.1 hc with he | hw
    · subst hc; cases he
    · exact hw
  answer {call k σ c res} h := by
    refine ⟨fun hc => .inr ?_, fun hc => (h.2 hc).2 _⟩
    rcases h.1 hc with he | hw
    · subst hc; exact reaper_answer he res
    · exact hw.1.elim

/-- The reaper announces every reservation of the list. -/
theorem expiries_publishExpired (rs : List Reservation) :
    (do publishExpired rs; return none : ApiProg (Option Order)).expiries =
      rs.map Reservation.id := by
  induction rs with
  | nil => rfl
  | cons r rs ih => exact congrArg (r.id :: ·) ih

/-- A request that sweeps is a round of the reaper, and announces what the sweep returns. -/
theorem Reaps.sweep {call : ApiCall} {k : Inventory.Result → ApiProg (Option Order)}
    (h : Reaps call (.rpc .sweepExpiredReservations k)) :
    call = .reservationReaper ∧
      ∀ rs, (k (.reservations rs)).expiries = rs.map Reservation.id := by
  by_cases hc : call = .reservationReaper
  · refine ⟨hc, fun rs => ?_⟩
    rcases h.1 hc with he | hw
    · subst hc
      cases he
      exact expiries_publishExpired rs
    · exact hw.1.elim
  · cases (h.2 hc).1

/-- A program whose next operation publishes nothing announces nothing. -/
theorem ApiProg.expiries_eq_nil {α : Type} {orders : Table Order} {inp : ApiInput} {p : ApiProg α}
    {σ : ApiSession} {n : ApiNext α} (h : p.next orders inp σ = n)
    (hne : ∀ m p', n ≠ .publish m p') : p.expiries = [] := by
  cases p with
  | publish m p' => exact absurd h.symm (hne m p')
  | ret | raise | getByIdempotencyKey | getForUser | getOrder | getEvent | uuid4 | charge | rpc
  | addOrder | setStatus | commit => rfl

/-! ## What is expired is announced or owed -/

namespace System

/-- A call that expires reservations is a sweep. -/
def SweepsOnly (c : Inventory.Call) : Prop := c.expires = true → c = .sweepExpiredReservations

/-- The invariant that carries `expiry_published`. -/
structure Reaping (settings : Settings) (s : System) : Prop where
  inv : s.Inv settings fun _ => True
  sweeping : Inventory.Sweeping settings s.inventory
  calls : s.inventory.Calls SweepsOnly
  reaps : s.Everywhere fun call p _ => Reaps call p
  covered : ∀ {i r}, s.inventory.db.plain.get i = some r → r.status = .expired →
    s.ExpiryPublished i ∨ ∃ j, s.ExpiryOwed i j

theorem reaping_init (settings : Settings) : Reaping settings .init where
  inv := inv_init settings _
  sweeping := Inventory.sweeping_init settings
  calls := nofun
  reaps _ _ _ _ _ h := nomatch h
  covered := nofun

section
variable {settings : Settings} {s s' : System} {a : SystemAction} {i : UUID} {j : ℕ}

/-- What has been announced stays announced. -/
theorem ExpiryPublished.step (h : s.ExpiryPublished i) (hs : s.step settings a = some s') :
    s'.ExpiryPublished i := by
  obtain ⟨o, e, hm⟩ := h
  obtain ⟨ms, hms⟩ := published_append hs
  refine ⟨o, e, ?_⟩
  rw [hms]
  exact List.mem_append_left _ hm

/-- A request that does not move owes what it owed. -/
theorem ExpiryOwed.frame (h : s.ExpiryOwed i j) (hj : s'.requests[j]? = s.requests[j]?)
    (hended : ∀ {t : ℕ} {c o}, s.inventory.txs[t]? = some (.done c o) →
      s'.inventory.txs[t]? = some (.done c o)) : s'.ExpiryOwed i j := by
  obtain ⟨r, hr, hc, hi⟩ := h
  refine ⟨r, hj.trans hr, hc, ?_⟩
  cases r with
  | done => cases hi
  | running call p σ w =>
    cases w with
    | none => exact hi
    | some t =>
      simp only [Request.expiries] at hi ⊢
      split at hi
      · next ht => rw [hended ht]; exact hi
      · cases hi

/-- A request that moves owes what it owed, or has announced it. -/
theorem ExpiryOwed.move {r r' : Request} (h : s.ExpiryOwed i j) {j₁ : ℕ}
    (hj : s.requests[j₁]? = some r) (hreq : s'.requests = s.requests.set j₁ r')
    (hended : ∀ {t : ℕ} {c o}, s.inventory.txs[t]? = some (.done c o) →
      s'.inventory.txs[t]? = some (.done c o))
    (hr : r.call = .reservationReaper → i ∈ r.expiries s.inventory →
      s'.ExpiryPublished i ∨ r'.call = .reservationReaper ∧ i ∈ r'.expiries s'.inventory) :
    s'.ExpiryPublished i ∨ s'.ExpiryOwed i j := by
  by_cases he : j = j₁
  · subst he
    obtain ⟨y, hy, hc, hi⟩ := h
    cases hj.symm.trans hy
    refine (hr hc hi).imp_right fun ⟨hc', hi'⟩ => ⟨r', ?_, hc', hi'⟩
    rw [hreq, getElem?_set_of_getElem? hj, if_pos rfl]
  · refine .inr (h.frame ?_ hended)
    rw [hreq, getElem?_set_of_getElem? hj, if_neg he]

/-- The answer of a sweep that the request owes. -/
theorem Request.mem_expiries_waiting {w : InventoryWorld} {call : ApiCall}
    {p : ApiProg (Option Order)} {σ : ApiSession} {t : ℕ}
    (h : i ∈ (Request.running call p σ (some t)).expiries w) :
    ∃ rs, w.txs[t]? = some (.done .sweepExpiredReservations (.returned (.reservations rs))) ∧
      i ∈ rs.map Reservation.id := by
  simp only [Request.expiries] at h
  split at h
  · next rs ht => exact ⟨rs, ht, h⟩
  · cases h

/-- **An expiry that is owed stays owed until it is announced**, if no round fails before its last
message. -/
theorem Reaping.owed_step (h : s.Reaping settings) (hF : Finishes s a)
    (hs : s.step settings a = some s') (ho : s.ExpiryOwed i j) :
    s'.ExpiryPublished i ∨ s'.ExpiryOwed i j := by
  -- a request that publishes nothing next owes nothing
  have hnone : ∀ {p : ApiProg (Option Order)} {call : ApiCall} {σ : ApiSession} {Q : Prop},
      p.expiries = [] → i ∈ (Request.running call p σ none).expiries s.inventory → Q := by
    intro p call σ Q hp hi
    rw [Request.expiries, hp] at hi
    cases hi
  cases step_kind hs with
  | begin call =>
    refine .inr (ho.frame ?_ id)
    obtain ⟨r, hr, -⟩ := ho
    exact List.getElem?_append_left (List.getElem?_eq_some_iff.1 hr).1
  | ret hj hn | raise hj hn =>
    exact ho.move hj rfl id fun _ => hnone (ApiProg.expiries_eq_nil hn nofun)
  | «continue» hj _ hn =>
    exact ho.move hj rfl id fun _ => hnone (ApiProg.expiries_eq_nil hn nofun)
  | @call j inp call c k σ hj =>
    have hbegin : Inventory.step settings s.inventory (.begin c) =
        some (s.inventory.begun (Inventory.Call.body settings) c) := rfl
    exact ho.move hj rfl (fun ht => World.other_step ht (World.done_step ht hbegin) hbegin)
      fun _ => hnone rfl
  | commit hj => exact ho.move hj rfl id fun _ => hnone rfl
  | @publish j inp call m p σ hj =>
    refine ho.move hj rfl id fun hc hi => ?_
    cases m with
    | reservationExpired r o e =>
      rcases List.mem_cons.1 hi with rfl | hi
      · exact .inl ⟨o, e, List.mem_append_right _ (List.mem_singleton_self _)⟩
      · exact .inr ⟨hc, hi⟩
    | orderCreated | paymentProcessed | ticketIssued | orderCancelled => exact .inr ⟨hc, hi⟩
  | @answered j inp call c c' k σ t res hj ht =>
    refine ho.move hj rfl id fun hc hi => .inr ⟨hc, ?_⟩
    obtain ⟨rs, ht', hmem⟩ := Request.mem_expiries_waiting hi
    cases ht.symm.trans ht'
    obtain ⟨F, hFs⟩ := h.inv.request hj
    obtain ⟨c'', k', x, hp, hx, hcall⟩ := hFs.waits rfl
    cases hp
    cases ht.symm.trans hx
    obtain rfl : Inventory.Call.sweepExpiredReservations = c := hcall
    rw [Request.expiries, (h.reaps hj).sweep.2 rs]
    exact hmem
  | refused hj ht he =>
    refine ho.move hj rfl id fun hc hi => ?_
    obtain ⟨rs, ht', -⟩ := Request.mem_expiries_waiting hi
    cases ht.symm.trans ht'
    cases he
  | fail hj =>
    refine ho.move hj rfl id fun hc hi => ?_
    rw [hF _ hj] at hi
    cases hi
  | inventory _ hw =>
    exact .inr (ho.frame rfl fun ht => World.other_step ht (World.done_step ht hw) hw)

/-- The transactions after a step expire reservations only in sweeps. -/
theorem Reaping.calls_step (h : s.Reaping settings) (hI : Inhouse a)
    (hs : s.step settings a = some s') : s'.inventory.Calls SweepsOnly := by
  cases step_kind hs with
  | begin | ret | raise | «continue» | commit | publish | answered | refused | fail =>
    exact h.calls
  | @call j inp call c k σ hj =>
    have hbegin : Inventory.step settings s.inventory (.begin c) =
        some (s.inventory.begun (Inventory.Call.body settings) c) := rfl
    -- the reaper only sweeps, and the others do not expire reservations
    have hnew : SweepsOnly c := by
      intro he
      by_cases hc : call = .reservationReaper
      · rcases (h.reaps hj).1 hc with hp | hw
        · subst hc
          cases hp
          rfl
        · exact hw.1.elim
      · have hfalse : c.expires = false := ((h.reaps hj).2 hc).1
        rw [hfalse] at he
        cases he
    intro t x hx
    refine World.Calls.step (P := SweepsOnly) h.calls hbegin (fun c' hc' => ?_) hx
    cases hc'
    exact hnew
  | @inventory a' w _ hw =>
    intro t x hx
    refine World.Calls.step (P := SweepsOnly) h.calls hw (fun c hc he => ?_) hx
    cases a' with
    | begin c' =>
      cases hc
      rw [show c.expires = false from hI] at he
      cases he
    | advance | abort => cases hc

/-- What is expired after a step is announced or owed. -/
theorem Reaping.covered_step (h : s.Reaping settings) (hF : Finishes s a)
    (hs : s.step settings a = some s') {r : Reservation}
    (hr : s'.inventory.db.plain.get i = some r) (hst : r.status = .expired) :
    s'.ExpiryPublished i ∨ ∃ j, s'.ExpiryOwed i j := by
  -- what was expired before was announced or owed before
  have hold : ∀ {r₀ : Reservation}, s.inventory.db.plain.get i = some r₀ → r₀.status = .expired →
      s'.ExpiryPublished i ∨ ∃ j, s'.ExpiryOwed i j := by
    intro r₀ hr₀ hst₀
    rcases h.covered hr₀ hst₀ with hp | ⟨j, hj⟩
    · exact .inl (hp.step hs)
    · exact (h.owed_step hF hs hj).imp_right fun hj' => ⟨j, hj'⟩
  cases step_kind hs with
  | begin | ret | raise | «continue» | call | commit | publish | answered | refused | fail =>
    exact hold hr hst
  | @inventory a' w _ hw =>
    rcases h.sweeping.expired_step hw hr hst with ⟨r₀, hr₀, hst₀⟩ |
      ⟨t, inp, call, res, k, rfl, ht, htxs, hexp, hsweep⟩
    · exact hold hr₀ hst₀
    · -- the sweep that commits is one that a round of the reaper waits for
      obtain rfl : call = .sweepExpiredReservations := h.calls ht hexp
      obtain ⟨rs, rfl, hi⟩ := hsweep rfl
      obtain ⟨y, hy, hwait⟩ := hF (by rw [sweepsAt, ht])
      obtain ⟨j, hj⟩ := List.mem_iff_getElem?.1 hy
      cases y with
      | done => cases hwait
      | running call p σ v =>
        cases v with
        | none => cases hwait
        | some t' =>
          obtain rfl : t' = t := of_decide_eq_true hwait
          obtain ⟨F, hFs⟩ := h.inv.request hj
          obtain ⟨c, k', x, rfl, hx, hcall⟩ := hFs.waits rfl
          cases ht.symm.trans hx
          obtain rfl : Inventory.Call.sweepExpiredReservations = c := hcall
          refine .inr ⟨j, _, hj, (h.reaps hj).sweep.1, ?_⟩
          have hdone : w.txs[t']? = some (.done .sweepExpiredReservations
              (.returned (.reservations rs))) := by
            rw [htxs, getElem?_set_of_getElem? ht, if_pos rfl]
          simp only [Request.expiries, hdone]
          exact hi

/-- Every step in which no round fails before its last message keeps the invariant. -/
theorem Reaping.step (h : s.Reaping settings) (hI : Inhouse a) (hF : Finishes s a)
    (hs : s.step settings a = some s') : s'.Reaping settings where
  inv := h.inv.step hs fun _ _ _ _ _ _ _ _ _ => trivial
  sweeping := by
    cases step_kind hs with
    | begin | ret | raise | «continue» | commit | publish | answered | refused | fail =>
      exact h.sweeping
    | @call j inp call c k σ hj =>
      have hbegin : Inventory.step settings s.inventory (.begin c) =
          some (s.inventory.begun (Inventory.Call.body settings) c) := rfl
      exact h.sweeping.step hbegin
    | inventory _ hw => exact h.sweeping.step hw
  calls := h.calls_step hI hs
  reaps := Everywhere.step h.reaps closed_reaps hs fun call _ => call.body_reaps
  covered := h.covered_step hF hs

/-! ## Until a later round completes -/

/-- The expiry of reservation `i` has been announced, or an earlier round than the `n`-th request
owes it and no later one has begun. -/
structure Awaiting (settings : Settings) (i : UUID) (n : ℕ) (s : System) : Prop where
  reaping : s.Reaping settings
  length : n ≤ s.requests.length
  owed : s.ExpiryPublished i ∨ (∃ j, s.ExpiryOwed i j) ∧
    ∀ j r, n ≤ j → s.requests[j]? = some r → r.call ≠ .reservationReaper

/-- A request that owes an announcement has not ended. -/
theorem ExpiryOwed.active (h : s.ExpiryOwed i j) :
    ∃ r ∈ s.requests, r.call = .reservationReaper ∧ r.ended = false := by
  obtain ⟨r, hr, hc, hi⟩ := h
  refine ⟨r, List.mem_of_getElem? hr, hc, ?_⟩
  cases r with
  | running => rfl
  | done => cases hi

/-- No later round begins before the announcement. -/
theorem Awaiting.step {n : ℕ} (h : s.Awaiting settings i n) (hI : Inhouse a) (hO : OneReaper s a)
    (hF : Finishes s a) (hs : s.step settings a = some s') : s'.Awaiting settings i n where
  reaping := h.reaping.step hI hF hs
  length := h.length.trans (length_requests_le hs)
  owed := by
    rcases h.owed with hp | ⟨⟨j, hj⟩, hlate⟩
    · exact .inl (hp.step hs)
    · refine (h.reaping.owed_step hF hs hj).imp_right fun hj' => ⟨⟨j, hj'⟩, fun j₁ r hle hr => ?_⟩
      obtain ⟨y, hy, hyc, hye⟩ := hj.active
      have hkind := requests_kind hs
      generalize hreq : s'.requests = requests at hkind
      rw [hreq] at hr
      cases hkind with
      | arrives call =>
        rcases getElem?_append_singleton hr with hr | ⟨-, rfl⟩
        · exact hlate j₁ r hle hr
        · intro hc
          have hend := hO hc y hy hyc
          rw [hye] at hend
          cases hend
      | moves hk _ hc =>
        rcases getElem?_set_inv hr with ⟨he, rfl⟩ | ⟨-, hr⟩
        · rw [hc]
          exact hlate j₁ _ hle (he ▸ hk)
        · exact hlate j₁ r hle hr
      | stays => exact hlate j₁ r hle hr

end

/-- **No expiry is lost.** For every run, with any number of rounds of the reaper one after the
other and failures at any step, in which no round fails between the commit of its sweep and its last
message: a `RESERVATION_EXPIRED` of every reservation that is `EXPIRED` at some point has been
published by the time a later round completes. -/
theorem expiry_published (settings : Settings) (as bs : List SystemAction) (s s' : System)
    (hr : run (step settings) .init as = some s) (hr' : run (step settings) s bs = some s')
    (hI : ∀ a ∈ as ++ bs, Inhouse a) (hO : Along (step settings) OneReaper .init (as ++ bs))
    (hF : Along (step settings) Finishes .init (as ++ bs)) {i : UUID} {r : Reservation}
    (hi : s.inventory.db.plain.get i = some r) (hst : r.status = .expired) {j : ℕ}
    {a : Option Order} (hj : s.requests.length ≤ j)
    (hd : s'.requests[j]? = some (.done .reservationReaper (.returned a))) :
    s'.ExpiryPublished i := by
  have hIF := (along_of_forall_mem hI).and hF
  have h := run_inv_along (I := Reaping settings) (fun h hC hs => h.step hC.1 hC.2 hs)
    ((along_append hr).1 hIF).1 hr (reaping_init settings)
  have hstart : s.Awaiting settings i s.requests.length := by
    refine ⟨h, Nat.le_refl _, (h.covered hi hst).imp_right fun ho => ⟨ho, fun j₁ r₁ hle hr₁ => ?_⟩⟩
    have := (List.getElem?_eq_some_iff.1 hr₁).1
    omega
  have hend := run_inv_along (I := Awaiting settings i s.requests.length)
    (fun h hC hs => h.step hC.1.1 hC.2 hC.1.2 hs) ((along_append hr).1 (hIF.and hO)).2 hr' hstart
  exact hend.owed.resolve_right fun ⟨_, hlate⟩ => hlate j _ hj hd rfl

/-! ## A round that fails after its sweep -/

/-- Inventory transaction `t` runs `n` operations when the first reservation has expired. -/
def lateAdvances (t n : ℕ) : List SystemAction := (Inventory.advances 600000001 t n).map .inventory

/-- An event with one seat and a reservation of it that expires; a round of the reaper has committed
its sweep. -/
def sweptReservation : List SystemAction :=
  [.inventory (.begin (.initializeInventory ⟨1⟩ 1))] ++ inventoryAdvances 0 4 ++
  [.inventory (.begin (.reserveSeats ⟨1⟩ ⟨2⟩ 1))] ++ inventoryAdvances 1 7 ++
  [.begin .reservationReaper] ++ advances 0 1 ++ lateAdvances 2 8

/-- The next round of the reaper, which finds nothing to sweep. -/
def nextRound : List SystemAction :=
  [.begin .reservationReaper] ++ advances 1 1 ++ lateAdvances 3 3 ++ advances 1 2

/-- The first round publishes its message, and the next round completes. -/
def finishedRounds : List SystemAction := advances 0 3 ++ nextRound

/-- The round is one of the reaper and has completed. -/
def completed : Request → Bool
  | .done .reservationReaper (.returned none) => true
  | _ => false

/-- What a completed round looks like. -/
theorem completed_eq {r : Request} (h : completed r = true) :
    r = .done .reservationReaper (.returned none) := by
  cases r with
  | running => cases h
  | done call o =>
    cases call <;> cases o <;> first | cases h | skip
    next a => cases a with
      | none => rfl
      | some => cases h

/-- The expiry has been announced. -/
theorem finishedRounds_published : ∃ s s', run (step .default) .init sweptReservation = some s ∧
    run (step .default) s finishedRounds = some s' ∧ s'.ExpiryPublished ⟨101⟩ := by
  obtain ⟨s, hs, hexp, hlen, h⟩ : ∃ s, run (step .default) .init sweptReservation = some s ∧
      (s.inventory.db.plain.get ⟨101⟩).any (·.status = .expired) = true ∧ s.requests.length ≤ 1 ∧
      (run (step .default) s finishedRounds).any (fun s' =>
        (s'.requests[1]?).any completed) = true :=
    exists_of_run (by decide +kernel)
  obtain ⟨s', hs', h⟩ := (Option.any_eq_true _ _).1 h
  obtain ⟨r, hr, hst⟩ := (Option.any_eq_true _ _).1 hexp
  obtain ⟨y, hy, hdone⟩ := (Option.any_eq_true _ _).1 h
  rw [completed_eq hdone] at hy
  refine ⟨s, s', hs, hs', ?_⟩
  exact expiry_published .default sweptReservation finishedRounds s s' hs hs' (by decide +kernel)
    (by decide +kernel) (by decide +kernel) hr (of_decide_eq_true hst) hlen hy

/-- The first round fails after the commit of its sweep, and the next round completes. -/
def failedRound : List SystemAction := [.fail 0] ++ nextRound

/-- **An expiry can be lost.** The reservation is expired and a later round has completed, but
nothing has been published. -/
theorem expiry_lost :
    (∀ a ∈ sweptReservation ++ failedRound, Inhouse a) ∧
    Along (step .default) OneReaper .init (sweptReservation ++ failedRound) ∧
    ∃ s s', run (step .default) .init sweptReservation = some s ∧
      run (step .default) s failedRound = some s' ∧
      (s.inventory.db.plain.get ⟨101⟩).any (·.status = .expired) = true ∧
      s.requests.length ≤ 1 ∧
      s'.requests[1]? = some (.done .reservationReaper (.returned none)) ∧
      s'.published = [] ∧ ¬ s'.ExpiryPublished ⟨101⟩ := by
  refine ⟨by decide +kernel, by decide +kernel, ?_⟩
  obtain ⟨s, hs, hexp, hlen, h⟩ : ∃ s, run (step .default) .init sweptReservation = some s ∧
      (s.inventory.db.plain.get ⟨101⟩).any (·.status = .expired) = true ∧ s.requests.length ≤ 1 ∧
      (run (step .default) s failedRound).any (fun s' =>
        (s'.requests[1]?).any completed = true ∧ s'.published = []) = true :=
    exists_of_run (by decide +kernel)
  obtain ⟨s', hs', hdone, hp⟩ := exists_of_run h
  obtain ⟨y, hy, hdone⟩ := (Option.any_eq_true _ _).1 hdone
  rw [completed_eq hdone] at hy
  refine ⟨s, s', hs, hs', hexp, hlen, hy, hp, fun ⟨o, e, hm⟩ => ?_⟩
  rw [hp] at hm
  cases hm

end System

end EventSphere.Api
