import EventSphere.Api.Exchanges

/-!
# The deployed system refines the interleaved one

Whatever the deployed system does, with its messages under way, its event lock and its callers that
give up, `System` can do too (`deployment_refines`), so that what holds of the runs of `System`
holds of the deployed program. A call begins in `System` when its transaction does: until then the
request there stands before its call, also when the job has given up already (`Job.Mirrors`). The
text of an error without a clause is not the same in both, and a request that was refused the lock,
for which `System` has no answer, fails there without one (`Alike`).
-/

namespace EventSphere.Api

open Inventory (Settings Server ServerAction Rpc RpcRequest RpcReply Result InventoryError)

/-! ## The relation between the two systems -/

/-- How far a call has come: its transaction has not begun, or is the one with this number. Only a
reservation request of the API waits for the lock. -/
inductive Stands (cfg : DeploymentSettings) (s : Server) (c : Inventory.Call) :
    Exchange → Option ℕ → Prop
  | sent {q : Rpc} {m : RpcRequest} (hc : overGrpc c = some q) (hm : q.request = some m) :
      Stands cfg s c (.sent m) none
  | locking {h client : ℕ} {e o : UUID} {n : ℤ} (hc : c = .reserveSeats e o n)
      (hh : s.requests[h]? = some (.locking (.reserveSeats e o n) client)) :
      Stands cfg s c (.handled h) none
  | refused {h : ℕ} {e o : UUID} {n : ℤ} (hc : c = .reserveSeats e o n)
      (hh : s.requests[h]? = some (.refused (.reserveSeats e o n))) :
      Stands cfg s c (.handled h) none
  | serving {h t : ℕ} {q : Rpc} {client : Option ℕ} (hc : overGrpc c = some q)
      (hh : s.requests[h]? = some (.serving q client t)) : Stands cfg s c (.handled h) (some t)
  | unlocked {e o : UUID} {n : ℤ} (hc : c = .reserveSeats e o n) :
      Stands cfg s c (.replied (.status ((Rpc.reserveSeats e o n).abort cfg.details
        (lockError (.reserveSeats e o n))))) none
  | answered {t : ℕ} {q : Rpc} {o : Outcome InventoryError Result} {r : RpcReply}
      (hc : overGrpc c = some q) (ht : s.world.txs[t]? = some (.done c o))
      (hr : q.reply cfg.timestamp cfg.details o = some r) : Stands cfg s c (.replied r) (some t)
  | direct {t : ℕ} : Stands cfg s c (.direct t) (some t)

/-- A job and its request in `System`. A job that has given up before its call has begun still
stands before it there. -/
inductive Job.Mirrors (cfg : DeploymentSettings) (s : Server) : Job → Request → Prop
  | running {call : ApiCall} {p : ApiProg (Option Order)} {σ : ApiSession} :
      Mirrors cfg s (.running call p σ) (.running call p σ none)
  | waiting {call : ApiCall} {c : Inventory.Call} {k : Result → ApiProg (Option Order)}
      {σ : ApiSession} {e : Exchange} {w : Option ℕ} (h : Stands cfg s c e w) :
      Mirrors cfg s (.waiting call c k σ e) (.running call (.rpc c k) σ w)
  | done {call : ApiCall} {o o' : Outcome ApiError (Option Order)} (h : Alike o o') :
      Mirrors cfg s (.done call o none) (.done call o')
  | pending {call : ApiCall} {c : Inventory.Call} {k : Result → ApiProg (Option Order)}
      {σ : ApiSession} {e : Exchange} (h : Stands cfg s c e none) :
      Mirrors cfg s (.done call .aborted (some e)) (.running call (.rpc c k) σ none)
  | begun {call : ApiCall} {c : Inventory.Call} {e : Exchange} {t : ℕ}
      (h : Stands cfg s c e (some t)) :
      Mirrors cfg s (.done call .aborted (some e)) (.done call .aborted)

/-- Every job mirrors its request. -/
structure Mirrored (cfg : DeploymentSettings) (s : Server) (jobs : List Job)
    (requests : List Request) : Prop where
  length : requests.length = jobs.length
  job : ∀ {j : ℕ} {x : Job}, jobs[j]? = some x →
    ∃ y, requests[j]? = some y ∧ x.Mirrors cfg s y

/-- The relation. -/
structure Deployment.Refines (cfg : DeploymentSettings) (d : Deployment) (s : System) : Prop where
  linked : Linked d.server d.owners d.jobs
  orders : s.orders = d.orders
  inventory : s.inventory = d.server.world
  published : s.published = d.published
  mirrored : Mirrored cfg d.server d.jobs s.requests
  remote : s.Everywhere System.remote

section
variable {cfg : DeploymentSettings} {s s' : Server} {c : Inventory.Call} {e : Exchange}
  {w : Option ℕ} {x x' : Job} {y y' : Request} {jobs : List Job} {requests : List Request} {j : ℕ}

/-- A call stands where it did if its request and its transaction do. -/
theorem Stands.mono (h : Stands cfg s c e w)
    (hreq : ∀ n z, e = .handled n → s.requests[n]? = some z → s'.requests[n]? = some z)
    (htx : ∀ {t : ℕ} {c : Inventory.Call} {o : Outcome InventoryError Result},
      s.world.txs[t]? = some (.done c o) → s'.world.txs[t]? = some (.done c o)) :
    Stands cfg s' c e w := by
  cases h with
  | sent hc hm => exact .sent hc hm
  | locking hc hh => exact .locking hc (hreq _ _ rfl hh)
  | refused hc hh => exact .refused hc (hreq _ _ rfl hh)
  | serving hc hh => exact .serving hc (hreq _ _ rfl hh)
  | unlocked hc => exact .unlocked hc
  | answered hc ht hr => exact .answered hc (htx ht) hr
  | direct => exact .direct

/-- A job mirrors its request as long as its call stands where it did. -/
theorem Job.Mirrors.mono (h : x.Mirrors cfg s y)
    (hst : ∀ {c e w}, x.exchange = some e → Stands cfg s c e w → Stands cfg s' c e w) :
    x.Mirrors cfg s' y := by
  cases h with
  | running => exact .running
  | waiting h => exact .waiting (hst rfl h)
  | done h => exact .done h
  | pending h => exact .pending (hst rfl h)
  | begun h => exact .begun (hst rfl h)

/-- One job moves, with its request, while the other calls stand where they did. -/
theorem Mirrored.set (h : Mirrored cfg s jobs requests) (hj : jobs[j]? = some x)
    (hm : x'.Mirrors cfg s' y')
    (hst : ∀ {j' z c e w}, j' ≠ j → jobs[j']? = some z → z.exchange = some e →
      Stands cfg s c e w → Stands cfg s' c e w) :
    Mirrored cfg s' (jobs.set j x') (requests.set j y') where
  length := by rw [List.length_set, List.length_set, h.length]
  job {j' z} hz := by
    obtain ⟨y, hy, -⟩ := h.job hj
    rw [getElem?_set_of_getElem? hy]
    rcases getElem?_set_inv hz with ⟨rfl, rfl⟩ | ⟨hne, hz⟩
    · exact ⟨y', if_pos rfl, hm⟩
    · obtain ⟨y, hy, hmirror⟩ := h.job hz
      exact ⟨y, by rw [if_neg hne, hy], hmirror.mono (hst hne hz)⟩

/-- One job moves while its request stands still. -/
theorem Mirrored.stutter (h : Mirrored cfg s jobs requests) (hj : jobs[j]? = some x)
    (hy : requests[j]? = some y) (hm : x'.Mirrors cfg s' y)
    (hst : ∀ {j' z c e w}, j' ≠ j → jobs[j']? = some z → z.exchange = some e →
      Stands cfg s c e w → Stands cfg s' c e w) :
    Mirrored cfg s' (jobs.set j x') requests := by
  have hself : requests.set j y = requests := by
    obtain ⟨hlt, rfl⟩ := List.getElem?_eq_some_iff.1 hy
    exact List.set_getElem_self hlt
  have := h.set hj hm hst
  rwa [hself] at this

/-- The server changes while every call stands where it did. -/
theorem Mirrored.mono (h : Mirrored cfg s jobs requests)
    (hst : ∀ {j : ℕ} {z : Job} {c e w}, jobs[j]? = some z → z.exchange = some e →
      Stands cfg s c e w → Stands cfg s' c e w) : Mirrored cfg s' jobs requests where
  length := h.length
  job hz := by
    obtain ⟨y, hy, hm⟩ := h.job hz
    exact ⟨y, hy, hm.mono (hst hz)⟩

/-- The insert of a job is that of its request: nothing is pending where a call has not begun. -/
theorem Job.Mirrors.insert (h : x.Mirrors cfg s y)
    (hr : ∀ {call p σ w}, y = .running call p σ w → System.remote call p σ) :
    x.insert = y.insert := by
  cases h with
  | running | waiting | done | begun => rfl
  | pending h =>
    obtain ⟨hσ, -⟩ := hr rfl
    exact (Option.isSome_eq_false_iff.1 hσ |> Option.isNone_iff_eq_none.1).symm

/-- A job whose call has not begun. -/
theorem Job.Mirrors.unbegun (h : x.Mirrors cfg s y) (he : x.exchange = some e)
    (hnot : ∀ {c t}, ¬ Stands cfg s c e (some t)) :
    ∃ call c k σ, y = .running call (.rpc c k) σ none ∧ Stands cfg s c e none ∧
      (x = .waiting call c k σ e ∨ x = .done call .aborted (some e)) := by
  cases h with
  | running | done => cases he
  | @waiting call c k σ e' w hst =>
    cases he
    cases w with
    | none => exact ⟨call, c, k, σ, rfl, hst, .inl rfl⟩
    | some t => exact absurd hst hnot
  | pending hst => cases he; exact ⟨_, _, _, _, rfl, hst, .inr rfl⟩
  | begun hst => cases he; exact absurd hst hnot

end

/-! ## Steps of `System` -/

namespace System

section
variable (settings : Settings) {s s' : System} {j : ℕ} {call : ApiCall}

variable {settings} in
/-- One step is a run. -/
theorem Leads.single {a : SystemAction} (hs : s.step settings a = some s')
    (ha : ∀ call, a ≠ .begin call) : Leads settings s s' :=
  .head hs ha (.refl settings s')

/-- A request moves on. -/
theorem leads_advance {p : ApiProg (Option Order)} {σ : ApiSession} (inp : ApiInput)
    (hj : s.requests[j]? = some (.running call p σ none)) (hb : ¬ s.Blocked j p) :
    Leads settings s (s.advance settings j inp call p σ) := by
  refine .single (a := .advance j inp) ?_ nofun
  simp only [step, hj]
  exact if_neg hb

/-- A request fails. -/
theorem leads_fail {p : ApiProg (Option Order)} {σ : ApiSession} {w : Option ℕ}
    (hj : s.requests[j]? = some (.running call p σ w)) :
    Leads settings s (s.put j (.done call .aborted)) := by
  refine .single (a := .fail j) ?_ nofun
  simp only [step, hj]

/-- A request begins its call. -/
theorem leads_begun {c : Inventory.Call} {k : Result → ApiProg (Option Order)} {σ : ApiSession}
    (hj : s.requests[j]? = some (.running call (.rpc c k) σ none)) :
    Leads settings s { s.put j (.running call (.rpc c k) σ (some s.inventory.txs.length)) with
      inventory := s.inventory.begun (Inventory.Call.body settings) c
      rpcs := s.rpcs ++ [(j, s.inventory.txs.length)] } :=
  leads_advance settings ⟨⟨0, ⟨0⟩, .ascending⟩, none, false, ""⟩ hj id

/-- A request gets the answer of its transaction. -/
theorem leads_answer {c c' : Inventory.Call} {k : Result → ApiProg (Option Order)} {σ : ApiSession}
    {t : ℕ} {o : Outcome InventoryError Result}
    (hj : s.requests[j]? = some (.running call (.rpc c k) σ (some t)))
    (ht : s.inventory.txs[t]? = some (.done c' o)) :
    Leads settings s (s.answer j call k σ o) := by
  refine .single (a := .advance j ⟨⟨0, ⟨0⟩, .ascending⟩, none, false, ""⟩) ?_ nofun
  simp only [step, hj, ht]

end

end System

/-! ## What the relation says -/

namespace Deployment.Refines

section
variable {cfg : DeploymentSettings} {d : Deployment} {s s' : System} {j : ℕ} {call : ApiCall}
  {x x' : Job} {y' : Request}

/-- The request of a running job. -/
theorem running (h : d.Refines cfg s) {p : ApiProg (Option Order)} {σ : ApiSession}
    (hj : d.jobs[j]? = some (.running call p σ)) :
    s.requests[j]? = some (.running call p σ none) := by
  obtain ⟨y, hy, hm⟩ := h.mirrored.job hj
  cases hm
  exact hy

/-- The request of a waiting job. -/
theorem waiting (h : d.Refines cfg s) {c : Inventory.Call} {k : Result → ApiProg (Option Order)}
    {σ : ApiSession} {e : Exchange} (hj : d.jobs[j]? = some (.waiting call c k σ e)) :
    ∃ w, s.requests[j]? = some (.running call (.rpc c k) σ w) ∧ Stands cfg d.server c e w := by
  obtain ⟨y, hy, hm⟩ := h.mirrored.job hj
  cases hm with
  | waiting hst => exact ⟨_, hy, hst⟩

/-- What blocks a request blocks its job. -/
theorem not_blocked (h : d.Refines cfg s) {p : ApiProg (Option Order)} (hb : ¬ d.Blocked j p) :
    ¬ s.Blocked j p := by
  cases p with
  | addOrder o k =>
    rintro ⟨j', hlt, hne, o', ho', hclash⟩
    rw [h.mirrored.length] at hlt
    obtain ⟨y, hy, hm⟩ := h.mirrored.job (List.getElem?_eq_getElem hlt)
    have hins := hm.insert fun he => h.remote (he ▸ hy)
    refine hb ⟨j', hlt, hne, o', ?_, hclash⟩
    rw [hy, Option.bind_some, ← hins] at ho'
    rw [List.getElem?_eq_getElem hlt]
    exact ho'
  | ret | raise | getByIdempotencyKey | getForUser | getOrder | getEvent | uuid4 | charge | rpc
  | setStatus | commit | publish => exact id

/-- A job and its request move. -/
theorem move (h : d.Refines cfg s) {orders : Table Order} {published : List Message}
    (hj : d.jobs[j]? = some x) (hlead : System.Leads cfg.inventory s s')
    (hinv : s'.inventory = s.inventory) (hreq : s'.requests = s.requests.set j y')
    (hm : x'.Mirrors cfg d.server y') (ho : s'.orders = orders) (hp : s'.published = published)
    (hx : ∀ n, x'.exchange = some (.handled n) ↔ x.exchange = some (.handled n)) :
    Refines cfg ⟨orders, d.server, d.owners, d.jobs.set j x', published⟩ s' where
  linked := h.linked.put hj (fun n => (hx n).1) fun n _ _ hn _ => (hx n).2 hn
  orders := ho
  inventory := hinv.trans h.inventory
  published := hp
  mirrored := by
    rw [hreq]
    exact h.mirrored.set hj hm fun _ _ _ hst => hst
  remote := hlead.remote h.remote

/-- A job moves while its request stands still. -/
theorem stutter (h : d.Refines cfg s) {y : Request} (hj : d.jobs[j]? = some x)
    (hy : s.requests[j]? = some y) (hm : x'.Mirrors cfg d.server y)
    (hl : Linked d.server d.owners (d.jobs.set j x')) : Refines cfg (d.put j x') s where
  linked := hl
  orders := h.orders
  inventory := h.inventory
  published := h.published
  mirrored := h.mirrored.stutter hj hy hm fun _ _ _ hst => hst
  remote := h.remote

/-- A call begins whose job waits for it or has given up. -/
theorem begins (h : d.Refines cfg s) {c : Inventory.Call} {k : Result → ApiProg (Option Order)}
    {σ : ApiSession} {e : Exchange} (hy : s.requests[j]? = some (.running call (.rpc c k) σ none))
    (hx : x = .waiting call c k σ e ∨ x = .done call .aborted (some e)) :
    ∃ s' y', System.Leads cfg.inventory s s' ∧ s'.orders = s.orders ∧ s'.published = s.published ∧
      s'.inventory = d.server.world.begun (Inventory.Call.body cfg.inventory) c ∧
      s'.requests = s.requests.set j y' ∧ s'.Everywhere System.remote ∧
      ∀ {sv e'}, Stands cfg sv c e' (some d.server.world.txs.length) →
        (x.goOn e').Mirrors cfg sv y' := by
  have hlead := System.leads_begun cfg.inventory hy
  rw [h.inventory] at hlead
  rcases hx with rfl | rfl
  · exact ⟨_, _, hlead, rfl, rfl, rfl, rfl, hlead.remote h.remote, fun hst => .waiting hst⟩
  · -- the job has given up: the request fails as soon as its call has begun
    have hget :
        (s.requests.set j (.running call (.rpc c k) σ (some d.server.world.txs.length)))[j]? =
        some (.running call (.rpc c k) σ (some d.server.world.txs.length)) :=
      List.getElem?_set_self (List.getElem?_eq_some_iff.1 hy).1
    have hlead' := hlead.trans (System.leads_fail cfg.inventory hget)
    refine ⟨_, _, hlead', rfl, rfl, rfl, ?_, hlead'.remote h.remote, fun hst => .begun hst⟩
    exact List.set_set ..

/-! ## One step -/

/-- A job runs an operation of its own. -/
theorem operation (h : d.Refines cfg s) {inp : ApiInput} {p : ApiProg (Option Order)}
    {σ : ApiSession} (hj : d.jobs[j]? = some (.running call p σ)) (hb : ¬ d.Blocked j p)
    (hp : ∀ c k, p ≠ .rpc c k) :
    ∃ s', System.Leads cfg.inventory s s' ∧
      (d.advance cfg.inventory j inp call p σ).Refines cfg s' := by
  have hlead := System.leads_advance cfg.inventory inp (h.running hj) (h.not_blocked hb)
  refine ⟨_, hlead, ?_⟩
  revert hlead
  unfold Deployment.advance System.advance
  rw [h.orders]
  cases hn : p.next d.orders inp σ with
  | ret a | raise e =>
    exact fun hlead => h.move hj hlead rfl rfl (.done (.same _)) h.orders h.published fun _ =>
      Iff.rfl
  | «continue» p' σ' =>
    exact fun hlead => h.move hj hlead rfl rfl .running h.orders h.published fun _ => Iff.rfl
  | call c k => exact absurd (ApiProg.next_outside.1 c k hn) (hp c k)
  | commit p' orders =>
    exact fun hlead => h.move hj hlead rfl rfl .running rfl h.published fun _ => Iff.rfl
  | publish m p' =>
    exact fun hlead => h.move hj hlead rfl rfl .running h.orders
      (congrArg (· ++ [m]) h.published) fun _ => Iff.rfl

/-- A job makes a call. -/
theorem ask (h : d.Refines cfg s) {c : Inventory.Call} {k : Result → ApiProg (Option Order)}
    {σ : ApiSession} (hj : d.jobs[j]? = some (.running call (.rpc c k) σ)) :
    ∃ s', System.Leads cfg.inventory s s' ∧ (d.ask cfg.inventory j call c k σ).Refines cfg s' := by
  have hy := h.running hj
  unfold Deployment.ask
  split
  · next q hc =>
    split
    · next m hm =>
      refine ⟨s, .refl _ s, h.stutter hj hy (.waiting (.sent hc hm)) ?_⟩
      exact h.linked.put hj (fun _ he => by cases he) fun _ _ _ he => by cases he
    · have hlead := System.leads_fail cfg.inventory hy
      exact ⟨_, hlead, h.move hj hlead rfl rfl (.done (.same _)) h.orders h.published fun _ =>
        Iff.rfl⟩
  · next hc =>
    have hlead := System.leads_begun cfg.inventory hy
    rw [h.inventory] at hlead
    have hfit : c.Fits := by
      cases c with
      | reserveSeats => cases hc
      | initializeInventory | adjustCapacity | getAvailability | confirmReservation
      | releaseReservation | sweepExpiredReservations => trivial
    refine ⟨_, hlead, ⟨?_, h.orders, rfl, h.published, ?_, hlead.remote h.remote⟩⟩
    · refine (h.linked.begun hfit).put hj (fun _ he => by cases he) fun _ _ _ he => by cases he
    · refine h.mirrored.set hj (.waiting .direct) fun {j' z c e w} _ _ _ hst => hst.mono ?_ ?_
      · exact fun _ _ _ hz => hz
      · exact fun {t c o} ht => World.other_step (a := .begin _) ht nofun rfl

/-- A job whose call has come back with a result goes on with it. -/
theorem resumes (h : d.Refines cfg s) {c c' : Inventory.Call} {k : Result → ApiProg (Option Order)}
    {σ : ApiSession} {e : Exchange} {t : ℕ} {o : Outcome InventoryError Result} {res : Result}
    (hj : d.jobs[j]? = some (.waiting call c k σ e)) (he : ∀ n, e ≠ .handled n)
    (hy : s.requests[j]? = some (.running call (.rpc c k) σ (some t)))
    (ht : d.server.world.txs[t]? = some (.done c' o)) (hres : rpcResult o = .ok res) :
    ∃ s', System.Leads cfg.inventory s s' ∧ (d.put j (.running call (k res) σ)).Refines cfg s' := by
  have hlead := System.leads_answer cfg.inventory hy (h.inventory ▸ ht)
  unfold System.answer at hlead
  rw [hres] at hlead
  refine ⟨_, hlead, h.move hj hlead rfl rfl .running h.orders h.published fun n => ?_⟩
  refine ⟨fun hn => ?_, fun hn => absurd (Option.some.inj hn) (he n)⟩
  cases hn

/-- A job whose call has come back with an error raises one like it. -/
theorem raises (h : d.Refines cfg s) {c c' : Inventory.Call} {k : Result → ApiProg (Option Order)}
    {σ : ApiSession} {e : Exchange} {t : ℕ} {o : Outcome InventoryError Result} {err : DomainError}
    {o' : Outcome ApiError (Option Order)} (hj : d.jobs[j]? = some (.waiting call c k σ e))
    (he : ∀ n, e ≠ .handled n) (hy : s.requests[j]? = some (.running call (.rpc c k) σ (some t)))
    (ht : d.server.world.txs[t]? = some (.done c' o)) (hres : rpcResult o = .error err)
    (ho : Alike o' (.raised (.domain err))) :
    ∃ s', System.Leads cfg.inventory s s' ∧ (d.put j (.done call o' none)).Refines cfg s' := by
  have hlead := System.leads_answer cfg.inventory hy (h.inventory ▸ ht)
  unfold System.answer at hlead
  rw [hres] at hlead
  refine ⟨_, hlead, h.move hj hlead rfl rfl (.done ho) h.orders h.published fun n => ?_⟩
  refine ⟨fun hn => ?_, fun hn => absurd (Option.some.inj hn) (he n)⟩
  cases hn

/-- A job gets what it waits for. -/
theorem answer (h : d.Refines cfg s) {c : Inventory.Call} {k : Result → ApiProg (Option Order)}
    {σ : ApiSession} {e : Exchange} {d' : Deployment}
    (hj : d.jobs[j]? = some (.waiting call c k σ e)) (ha : d.answer j call k σ e = some d') :
    ∃ s', System.Leads cfg.inventory s s' ∧ d'.Refines cfg s' := by
  obtain ⟨w, hy, hst⟩ := h.waiting hj
  obtain ⟨-, hapi, hid, -⟩ := h.remote hy
  cases hst with
  | sent | locking | refused | serving => cases ha
  | unlocked hc =>
    cases ha
    have hlead := System.leads_fail cfg.inventory hy
    refine ⟨_, hlead, h.move hj hlead rfl rfl (.done (.refused _)) h.orders h.published fun n => ?_⟩
    constructor <;> intro hn <;> cases hn
  | answered hc ht hr =>
    have htells := tells_of_reply hapi hc
      (fun res ho => h.linked.sendable.returned (ho ▸ ht))
      (fun e ho => h.linked.sendable.raised (ho ▸ ht)) hr
    have hsent : ∀ {r : RpcReply} n, Exchange.replied r ≠ .handled n := fun _ he => by cases he
    simp only [Deployment.answer] at ha
    cases htells with
    | reservation hid' hr ho =>
      rw [hr] at ha
      cases ha
      subst ho
      rw [hid _ _ hid']
      exact h.resumes hj hsent hy ht rfl
    | error hr ho halike =>
      rw [hr] at ha
      cases ha
      exact h.raises hj hsent hy ht ho halike
  | direct =>
    have hdirect : ∀ {t} n, Exchange.direct t ≠ .handled n := fun _ he => by cases he
    simp only [Deployment.answer] at ha
    split at ha
    · next ht =>
      split at ha
      · next hres => cases ha; exact h.resumes hj hdirect hy ht hres
      · next hres => cases ha; exact h.raises hj hdirect hy ht hres (.same _)
    · cases ha

/-- A job fails. -/
theorem fail (h : d.Refines cfg s) {d' : Deployment}
    (hs : d.step cfg (.fail j) = some d') :
    ∃ s', System.Leads cfg.inventory s s' ∧ d'.Refines cfg s' := by
  cases step_kind hs with
  | crash hj =>
    have hlead := System.leads_fail cfg.inventory (h.running hj)
    exact ⟨_, hlead, h.move hj hlead rfl rfl (.done (.same _)) h.orders h.published fun _ =>
      Iff.rfl⟩
  | giveUp hj =>
    obtain ⟨w, hy, hst⟩ := h.waiting hj
    cases w with
    | none =>
      refine ⟨s, .refl _ s, h.stutter hj hy (.pending hst) ?_⟩
      exact h.linked.put hj (fun _ he => he) fun _ _ _ he _ => he
    | some t =>
      have hlead := System.leads_fail cfg.inventory hy
      exact ⟨_, hlead, h.move hj hlead rfl rfl (.begun hst) h.orders h.published fun _ => Iff.rfl⟩

/-- The servicer receives a message. -/
theorem receive (h : d.Refines cfg s) {token : UUID} {d' : Deployment}
    (hs : d.step cfg (.receive j token) = some d') :
    ∃ s', System.Leads cfg.inventory s s' ∧ d'.Refines cfg s' := by
  have hcalls : ∀ {x m}, d.jobs[j]? = some x → x.exchange = some (.sent m) →
      ∃ call c k σ q, s.requests[j]? = some (.running call (.rpc c k) σ none) ∧
        overGrpc c = some q ∧ q.request = some m ∧ OfApi c ∧
        (x = .waiting call c k σ (.sent m) ∨ x = .done call .aborted (some (.sent m))) := by
    intro x m hj hx
    obtain ⟨y, hy, hm⟩ := h.mirrored.job hj
    obtain ⟨call, c, k, σ, rfl, hst, hx'⟩ := hm.unbegun hx fun hst => by cases hst
    obtain ⟨-, hapi, -⟩ := h.remote hy
    cases hst with
    | sent hc hq => exact ⟨call, c, k, σ, _, hy, hc, hq, hapi, hx'⟩
  cases step_kind hs with
  | misread hj hx hm =>
    obtain ⟨-, -, -, -, q, -, -, hq, -⟩ := hcalls hj hx
    rw [Rpc.read_request hq] at hm
    cases hm
  | @receive j token x m q server hj hx hm hserver =>
    obtain ⟨call, c, k, σ, q', hy, hc, hq, hapi, hx'⟩ := hcalls hj hx
    cases hm.symm.trans (Rpc.read_request hq)
    have hgo : (x.goOn (.handled d.server.requests.length)).exchange =
        some (.handled d.server.requests.length) := by
      rcases hx' with rfl | rfl <;> rfl
    have hlinked := h.linked.receive (fits_of_read hm) hj
      (fun n he => by rw [hx] at he; cases he) hgo
      hserver
    have happend : ∀ {z : Inventory.Handling} {n z'}, d.server.requests[n]? = some z' →
        (d.server.requests ++ [z])[n]? = some z' := fun hz => by
      rw [List.getElem?_append_left (List.getElem?_eq_some_iff.1 hz).1, hz]
    cases Server.step_kind hserver with
    | queue hres =>
      -- only a reservation request has a resource
      obtain ⟨e, o, n, rfl, rfl⟩ : ∃ e o n, c = .reserveSeats e o n ∧ q = .reserveSeats e o n := by
        cases hapi with
        | reserveSeats e o n => cases hc; exact ⟨e, o, n, rfl, rfl⟩
        | confirmReservation | releaseReservation => cases hc; exact absurd rfl hres
        | sweepExpiredReservations => cases hc
      refine ⟨s, .refl _ s, hlinked, h.orders, h.inventory, h.published, ?_, h.remote⟩
      refine h.mirrored.stutter hj hy ?_ fun _ _ _ hst => hst.mono (fun _ _ _ hz => happend hz) id
      have hst : ∀ {locks client}, Stands cfg ⟨locks, d.server.world, d.server.requests ++
          [.locking (.reserveSeats e o n) client]⟩ (.reserveSeats e o n)
          (.handled d.server.requests.length) none := .locking rfl List.getElem?_concat_length
      rcases hx' with rfl | rfl
      · exact .waiting hst
      · exact .pending hst
    | serve =>
      obtain ⟨s', y', hlead, ho, hp, hi, hreq, hrem, hm'⟩ := h.begins hy hx'
      refine ⟨s', hlead, hlinked, ho.trans h.orders, ?_, hp.trans h.published, ?_, hrem⟩
      · rw [call_of_overGrpc hc]
        exact hi
      · rw [hreq]
        refine h.mirrored.set hj (hm' (.serving hc List.getElem?_concat_length)) fun _ _ _ hst =>
          hst.mono (fun _ _ _ hz => happend hz) fun {t c o} ht => ?_
        exact World.other_step (a := .begin q.call) ht nofun rfl

/-- The servicer answers. -/
theorem reply (h : d.Refines cfg s) {d' : Deployment} (hs : d.step cfg (.reply j) = some d') :
    d'.Refines cfg s := by
  cases step_kind hs with
  | @reply _ x n r hj hx hr =>
    obtain ⟨y, hy, hm⟩ := h.mirrored.job hj
    -- the call stands where it did, with the reply
    have hst : ∀ {c w}, Stands cfg d.server c (.handled n) w →
        Stands cfg d.server c (.replied r) w ∧
          ∀ q client, d.server.requests[n]? ≠ some (.locking q client) := by
      intro c w hst
      unfold servicerReply at hr
      cases hst with
      | locking _ hh => rw [hh] at hr; cases hr
      | refused hc hh =>
        rw [hh] at hr
        cases hr
        refine ⟨.unlocked hc, fun q client he => ?_⟩
        rw [hh] at he
        cases he
      | serving hc hh =>
        rw [hh] at hr
        dsimp only at hr
        split at hr
        · next c' o ht =>
          split at hr
          · refine ⟨.answered hc ?_ hr, fun q client he => by rw [hh] at he; cases he⟩
            obtain ⟨z, hz, hcall⟩ := h.linked.inv.serving hh
            cases ht.symm.trans hz
            rw [ht, ← call_of_overGrpc hc, ← hcall]
            rfl
          · cases hr
        · cases hr
    have hput : ∀ {c w}, Stands cfg d.server c (.handled n) w →
        Linked d.server d.owners (d.jobs.set j (x.goOn (.replied r))) := fun h' => by
      refine h.linked.put hj (fun n' he => ?_) fun n' q client he hn => ?_
      · cases x <;> cases he
      · cases hx.symm.trans he
        exact absurd hn ((hst h').2 q client)
    cases hm with
    | running | done => cases hx
    | waiting h' => cases hx; exact h.stutter hj hy (.waiting (hst h').1) (hput h')
    | pending h' => cases hx; exact h.stutter hj hy (.pending (hst h').1) (hput h')
    | begun h' => cases hx; exact h.stutter hj hy (.begun (hst h').1) (hput h')

/-- The job behind a request that waits for the lock: its call is a reservation that has not begun.
-/
theorem owner (h : d.Refines cfg s) {n client : ℕ} {q : Rpc}
    (hn : d.server.requests[n]? = some (.locking q client)) :
    ∃ (j : ℕ) (x : Job) (call : ApiCall) (e o : UUID) (m : ℤ) (k : Result → ApiProg (Option Order))
      (σ : ApiSession), d.owners[n]? = some j ∧ d.jobs[j]? = some x ∧ q = .reserveSeats e o m ∧
      s.requests[j]? = some (.running call (.rpc (.reserveSeats e o m) k) σ none) ∧
      (x = .waiting call (.reserveSeats e o m) k σ (.handled n) ∨
        x = .done call .aborted (some (.handled n))) := by
  obtain ⟨-, j, x, ho, hj, hx⟩ := h.linked.locking hn
  obtain ⟨y, hy, hm⟩ := h.mirrored.job hj
  obtain ⟨call, c, k, σ, rfl, hst, hx'⟩ := hm.unbegun hx fun hst => by
    cases hst with
    | serving _ hh => rw [hn] at hh; cases hh
  cases hst with
  | refused _ hh => rw [hn] at hh; cases hh
  | @locking _ _ e o m hc hh =>
    cases hn.symm.trans hh
    subst hc
    exact ⟨j, x, call, e, o, m, k, σ, ho, hj, rfl, hy, hx'⟩

/-- When a request of the servicer goes on, the calls of all jobs but its owner stand where they
did. -/
theorem others (h : d.Refines cfg s) {n : ℕ} {z₀ z₁ : Inventory.Handling} {world}
    (hn : d.server.requests[n]? = some z₀) (ho : d.owners[n]? = some j)
    (htx : ∀ {t : ℕ} {c : Inventory.Call} {o : Outcome InventoryError Result},
      d.server.world.txs[t]? = some (.done c o) → world.txs[t]? = some (.done c o))
    {j' : ℕ} {z : Job} {c : Inventory.Call} {e : Exchange} {w : Option ℕ} (hne : j' ≠ j)
    (hz : d.jobs[j']? = some z) (he : z.exchange = some e) (hst : Stands cfg d.server c e w) :
    Stands cfg ⟨d.server.locks, world, d.server.requests.set n z₁⟩ c e w := by
  refine hst.mono (fun n' z' hn' hz' => ?_) htx
  subst hn'
  have hne' : n' ≠ n := by
    rintro rfl
    exact hne (Option.some.inj ((h.linked.handled hz he).symm.trans ho))
  rw [getElem?_set_of_getElem? hn, if_neg hne', hz']

/-- Something happens at the service. -/
theorem server (h : d.Refines cfg s) {a : ServerAction} {d' : Deployment}
    (hs : d.step cfg (.server a) = some d') :
    ∃ s', System.Leads cfg.inventory s s' ∧ d'.Refines cfg s' := by
  cases step_kind hs with
  | @server _ server ha hserver =>
    have hlinked := h.linked.server ha hserver
    cases Server.step_kind hserver with
    | queue | serve => cases ha
    | lock =>
      refine ⟨s, .refl _ s, hlinked, h.orders, h.inventory, h.published, ?_, h.remote⟩
      exact h.mirrored.mono fun _ _ hst => hst.mono (fun _ _ _ hz => hz) id
    | @enter n q client hn =>
      obtain ⟨j, x, call, e, o, m, k, σ, howner, hj, rfl, hy, hx'⟩ := h.owner hn
      obtain ⟨s', y', hlead, ho, hp, hi, hreq, hrem, hm'⟩ := h.begins hy hx'
      refine ⟨s', hlead, hlinked, ho.trans h.orders, hi, hp.trans h.published, ?_, hrem⟩
      rw [hreq]
      have hself : x.goOn (.handled n) = x := by rcases hx' with rfl | rfl <;> rfl
      have hserving : Stands cfg ⟨d.server.locks,
          d.server.world.begun (Inventory.Call.body cfg.inventory) (.reserveSeats e o m),
          d.server.requests.set n (.serving (.reserveSeats e o m) (some client)
            d.server.world.txs.length)⟩ (.reserveSeats e o m) (.handled n)
          (some d.server.world.txs.length) :=
        .serving rfl (List.getElem?_set_self (List.getElem?_eq_some_iff.1 hn).1)
      have hmirror := h.mirrored.set hj (hm' hserving) (h.others hn howner fun {t c o} ht =>
        World.other_step (a := .begin _) ht (fun he => by cases he) rfl)
      obtain ⟨hlt, rfl⟩ := List.getElem?_eq_some_iff.1 hj
      rw [hself, List.set_getElem_self hlt] at hmirror
      exact hmirror
    | @refuse n q client hn =>
      obtain ⟨j, x, call, e, o, m, k, σ, howner, hj, rfl, hy, hx'⟩ := h.owner hn
      refine ⟨s, .refl _ s, hlinked, h.orders, h.inventory, h.published, ?_, h.remote⟩
      have hrefused : Stands cfg ⟨d.server.locks, d.server.world, d.server.requests.set n
          (.refused (.reserveSeats e o m))⟩ (.reserveSeats e o m) (.handled n) none :=
        .refused rfl (List.getElem?_set_self (List.getElem?_eq_some_iff.1 hn).1)
      have hm' : x.Mirrors cfg ⟨d.server.locks, d.server.world, d.server.requests.set n
          (.refused (.reserveSeats e o m))⟩
            (.running call (.rpc (.reserveSeats e o m) k) σ none) := by
        rcases hx' with rfl | rfl
        · exact .waiting hrefused
        · exact .pending hrefused
      have hmirror := h.mirrored.stutter hj hy hm' (h.others hn howner id)
      obtain ⟨hlt, rfl⟩ := List.getElem?_eq_some_iff.1 hj
      rwa [List.set_getElem_self hlt] at hmirror
    | @inventory b world hw =>
      have hconf : confirming b = false := by
        cases b with
        | begin c =>
          simp only [ofServer, Bool.and_eq_true, Bool.not_eq_true'] at ha
          exact ha.1
        | advance | abort => rfl
      have hlead : System.Leads cfg.inventory s { s with inventory := world } := by
        refine .single (a := .inventory b) ?_ fun _ he => by cases he
        rw [System.step, if_neg (by rw [hconf]; exact Bool.false_ne_true), h.inventory, hw]
        rfl
      refine ⟨_, hlead, hlinked, h.orders, rfl, h.published, ?_, hlead.remote h.remote⟩
      exact h.mirrored.mono fun _ _ hst => hst.mono (fun _ _ _ hz => hz) fun {t c o} ht =>
        World.other_step ht (World.done_step ht hw) hw

/-- A job arrives. -/
theorem arrive (h : d.Refines cfg s) (call : ApiCall) :
    Refines cfg { d with jobs := d.jobs ++ [.running call call.body .empty] }
      { s with requests := s.requests ++ [.running call call.body .empty none] } where
  linked := h.linked.arrive rfl
  orders := h.orders
  inventory := h.inventory
  published := h.published
  mirrored := by
    refine ⟨by rw [List.length_append, List.length_append, h.mirrored.length]; rfl, fun hz => ?_⟩
    rcases getElem?_append_singleton hz with hz | ⟨rfl, rfl⟩
    · obtain ⟨y, hy, hm⟩ := h.mirrored.job hz
      refine ⟨y, ?_, hm⟩
      rw [List.getElem?_append_left (List.getElem?_eq_some_iff.1 hy).1, hy]
    · refine ⟨_, ?_, .running⟩
      rw [← h.mirrored.length]
      exact List.getElem?_concat_length
  remote := by
    have hstep : s.step cfg.inventory (.begin call) =
        some { s with requests := s.requests ++ [.running call call.body .empty none] } := rfl
    exact h.remote.step System.closed_remote hstep fun call' he => by
      cases he
      exact ApiProg.body_remote call

/-- **One step** of the deployed system is a run of the interleaved one, with an arrival if it is
one. -/
theorem step (h : d.Refines cfg s) {a : DeploymentAction} {d' : Deployment}
    (hs : d.step cfg a = some d') :
    ∃ bs s', run (System.step cfg.inventory) s bs = some s' ∧ d'.Refines cfg s' ∧
      (d.HandsPublished a → Along (System.step cfg.inventory) System.HandsPublished s bs) := by
  -- all steps but an arrival
  have hleads : (∃ s', System.Leads cfg.inventory s s' ∧ d'.Refines cfg s') →
      ∃ bs s', run (System.step cfg.inventory) s bs = some s' ∧ d'.Refines cfg s' ∧
        (d.HandsPublished a → Along (System.step cfg.inventory) System.HandsPublished s bs) := by
    rintro ⟨s', hlead, hd'⟩
    obtain ⟨bs, hr, hbs⟩ := hlead.handsPublished
    exact ⟨bs, s', hr, hd', fun _ => hbs⟩
  cases a with
  | begin call =>
    cases hs
    refine ⟨[.begin call], _, rfl, h.arrive call, fun hd => ⟨?_, fun _ _ => trivial⟩⟩
    cases call with
    | orderStatusWorker m | paymentWorker m =>
      change m ∈ s.published
      rw [h.published]
      exact hd
    | bookTickets | cancelOrder | reservationReaper => trivial
  | advance j inp =>
    refine hleads ?_
    simp only [Deployment.step] at hs
    split at hs
    · next call p σ hj =>
      split at hs
      · cases hs
      · next hb =>
        cases hs
        by_cases hp : ∃ c k, p = .rpc c k
        · obtain ⟨c, k, rfl⟩ := hp
          exact h.ask hj
        · exact h.operation hj hb fun c k he => hp ⟨c, k, he⟩
    · next hj => exact h.answer hj hs
    · cases hs
  | fail j => exact hleads (h.fail hs)
  | receive j token => exact hleads (h.receive hs)
  | reply j => exact hleads ⟨s, .refl _ s, h.reply hs⟩
  | server a => exact hleads (h.server hs)

end

end Deployment.Refines

/-! ## Whole runs -/

/-- The request is where the job is: in the same place of the same program, or ended alike. -/
inductive Job.ShowsAs : Job → Request → Prop
  | running {call : ApiCall} {p : ApiProg (Option Order)} {σ : ApiSession} :
      ShowsAs (.running call p σ) (.running call p σ none)
  | waiting {call : ApiCall} {c : Inventory.Call} {k : Result → ApiProg (Option Order)}
      {σ : ApiSession} {e : Exchange} {w : Option ℕ} :
      ShowsAs (.waiting call c k σ e) (.running call (.rpc c k) σ w)
  | done {call : ApiCall} {o o' : Outcome ApiError (Option Order)} {e : Option Exchange}
      (h : Alike o o') : ShowsAs (.done call o e) (.done call o')

/-- The interleaved system is where the deployed one is. -/
structure Deployment.ShowsAs (d : Deployment) (s : System) : Prop where
  orders : s.orders = d.orders
  inventory : s.inventory = d.server.world
  published : s.published = d.published
  length : s.requests.length = d.jobs.length
  job : ∀ {j : ℕ} {x : Job}, d.jobs[j]? = some x → ∃ y, s.requests[j]? = some y ∧ x.ShowsAs y

namespace Deployment

variable {cfg : DeploymentSettings} {d : Deployment} {s : System}

/-- The requests whose jobs have given up fail. -/
theorem Refines.settle (h : d.Refines cfg s) :
    ∃ s', System.Leads cfg.inventory s s' ∧ d.ShowsAs s' := by
  -- the requests before `n` have been settled
  have hbefore : ∀ n, ∃ s', System.Leads cfg.inventory s s' ∧ s'.orders = d.orders ∧
      s'.inventory = d.server.world ∧ s'.published = d.published ∧
      s'.requests.length = d.jobs.length ∧ ∀ {j : ℕ} {x : Job}, d.jobs[j]? = some x →
        ∃ y, s'.requests[j]? = some y ∧ (x.ShowsAs y ∨ n ≤ j ∧ x.Mirrors cfg d.server y) := by
    intro n
    induction n with
    | zero =>
      refine ⟨s, .refl _ s, h.orders, h.inventory, h.published, h.mirrored.length, fun hx => ?_⟩
      obtain ⟨y, hy, hm⟩ := h.mirrored.job hx
      exact ⟨y, hy, .inr ⟨Nat.zero_le _, hm⟩⟩
    | succ n ih =>
      obtain ⟨s', hlead, ho, hi, hp, hlen, hjob⟩ := ih
      -- only the request of a job that has given up has to move
      by_cases hpend : ∃ call c k σ, s'.requests[n]? = some (.running call (.rpc c k) σ none) ∧
          ∃ e, d.jobs[n]? = some (.done call .aborted (some e))
      · obtain ⟨call, c, k, σ, hn, e, hd⟩ := hpend
        refine ⟨_, hlead.trans (System.leads_fail cfg.inventory hn), ho, hi, hp,
          (List.length_set ..).trans hlen, fun {j x} hx => ?_⟩
        change ∃ y, (s'.requests.set n _)[j]? = some y ∧ _
        rw [getElem?_set_of_getElem? hn]
        split
        · next hj =>
          subst hj
          cases hd.symm.trans hx
          exact ⟨_, rfl, .inl (.done (.same _))⟩
        · next hj =>
          obtain ⟨y, hy, hor⟩ := hjob hx
          exact ⟨y, hy, hor.imp_right fun ⟨hle, hm⟩ => ⟨by omega, hm⟩⟩
      · refine ⟨s', hlead, ho, hi, hp, hlen, fun {j x} hx => ?_⟩
        obtain ⟨y, hy, hshow | ⟨hle, hm⟩⟩ := hjob hx
        · exact ⟨y, hy, .inl hshow⟩
        · refine ⟨y, hy, ?_⟩
          rcases Nat.eq_or_lt_of_le hle with rfl | hlt
          · cases hm with
            | running => exact .inl .running
            | waiting => exact .inl .waiting
            | done ha => exact .inl (.done ha)
            | pending => exact absurd ⟨_, _, _, _, hy, _, hx⟩ hpend
            | begun => exact .inl (.done (.same _))
          · exact .inr ⟨hlt, hm⟩
  obtain ⟨s', hlead, ho, hi, hp, hlen, hjob⟩ := hbefore d.jobs.length
  refine ⟨s', hlead, ho, hi, hp, hlen, fun {j x} hx => ?_⟩
  obtain ⟨y, hy, hshow | ⟨hle, -⟩⟩ := hjob hx
  · exact ⟨y, hy, hshow⟩
  · exact absurd (List.getElem?_eq_some_iff.1 hx).1 (Nat.not_lt.2 hle)

theorem refines_init (cfg : DeploymentSettings) : Refines cfg .init .init where
  linked := linked_init
  orders := rfl
  inventory := rfl
  published := rfl
  mirrored := ⟨rfl, fun hx => by cases hx⟩
  remote := fun _ _ _ _ _ hj => by cases hj

/-- **The deployed system refines the interleaved one.** Every state that the deployed system
reaches, with messages, replies and the event lock between the API and the Inventory service, and
with callers that give up on calls that go on, is one that the interleaved system reaches: with the
same orders, database of the inventory and published messages, and every job where its request is.
If the workers are handed published messages only in the one run, so are they in the other. -/
theorem deployment_refines (cfg : DeploymentSettings) (as : List DeploymentAction) (d : Deployment)
    (hr : run (step cfg) .init as = some d) :
    ∃ bs s, run (System.step cfg.inventory) .init bs = some s ∧ d.ShowsAs s ∧
      (Along (step cfg) HandsPublished .init as →
        Along (System.step cfg.inventory) System.HandsPublished .init bs) := by
  obtain ⟨bs, s, hrun, hd, hbs⟩ : ∃ bs s, run (System.step cfg.inventory) .init bs = some s ∧
      d.Refines cfg s ∧ (Along (step cfg) HandsPublished .init as →
        Along (System.step cfg.inventory) System.HandsPublished .init bs) := by
    induction as using List.reverseRecOn generalizing d with
    | nil => cases hr; exact ⟨[], .init, rfl, refines_init cfg, fun _ => trivial⟩
    | append_singleton as a ih =>
      obtain ⟨d₁, hr₁, hs⟩ := run_concat.1 hr
      obtain ⟨bs, s, hrun, hd, hbs⟩ := ih d₁ hr₁
      obtain ⟨bs', s', hrun', hd', hbs'⟩ := hd.step hs
      refine ⟨bs ++ bs', s', run_append.2 ⟨s, hrun, hrun'⟩, hd', fun halong => ?_⟩
      obtain ⟨h₁, h₂⟩ := (along_append hr₁).1 halong
      exact (along_append hrun).2 ⟨hbs h₁, hbs' h₂.1⟩
  obtain ⟨s', hlead, hshow⟩ := hd.settle
  obtain ⟨bs', hrun', hbs'⟩ := hlead.handsPublished
  exact ⟨bs ++ bs', s', run_append.2 ⟨s, hrun, hrun'⟩, hshow, fun halong =>
    (along_append hrun).2 ⟨hbs halong, hbs'⟩⟩

/-! ## A reservation whose caller has given up -/

/-- A deployment for the run below. -/
def aDeployment : DeploymentSettings where
  inventory := .default
  lock := .default
  timestamp now := now / 1000000
  details _ := "Unexpected exception"

/-- Job `j` runs `n` operations: its event exists, and a new order gets the primary key `3 + j`. -/
def operations (j n : ℕ) : List DeploymentAction :=
  List.replicate n (.advance j ⟨⟨0, ⟨3 + j⟩, .ascending⟩, some ⟨1000⟩, true, "mock_txn_0"⟩)

/-- The servicer serves its request `h` as transaction `t`, inside the section of lock client `h`.
-/
def handles (h t : ℕ) : List DeploymentAction :=
  [.server (.lock (.attempt h)), .server (.enter h)] ++ (serves t 7).map .server ++
    [.server (.lock (.leave h)), .server (.lock (.release h))]

/-- A booking gives up before the servicer has received its message, and is repeated. -/
def lateReservation : List DeploymentAction :=
  [.server (.inventory (.begin (.initializeInventory ⟨1⟩ 2)))] ++ (serves 0 4).map .server ++
  [.begin (.bookTickets ⟨2⟩ ⟨1⟩ 1 none)] ++ operations 0 3 ++ [.fail 0, .receive 0 ⟨8⟩] ++
  handles 0 1 ++ [.begin (.bookTickets ⟨2⟩ ⟨1⟩ 1 none)] ++ operations 1 3 ++
  [.receive 1 ⟨9⟩] ++ handles 1 2 ++ [.reply 1] ++ operations 1 5

/-- Both reservations are made, also in the interleaved system. -/
theorem lateReservation_refined : ∃ d bs s, run (step aDeployment) .init lateReservation = some d ∧
    run (System.step .default) .init bs = some s ∧ d.ShowsAs s ∧ s.published.length = 1 ∧
    (s.inventory.db.versioned.get ⟨1⟩).any (·.reservedCount = 2) := by
  obtain ⟨d, hr, hp, hseats⟩ : ∃ d, run (step aDeployment) .init lateReservation = some d ∧
      d.published.length = 1 ∧ (d.server.world.db.versioned.get ⟨1⟩).any (·.reservedCount = 2) :=
    exists_of_run (by decide +kernel)
  obtain ⟨bs, s, hs, hshow, -⟩ := deployment_refines aDeployment lateReservation d hr
  exact ⟨d, bs, s, hr, hs, hshow, hshow.published ▸ hp, hshow.inventory ▸ hseats⟩

end Deployment

end EventSphere.Api
