import EventSphere.Base.Expiring
import EventSphere.Base.Runs
import EventSphere.Shared.Basic

/-!
# The event lock

`RedisLock` (`services/inventory/app/services/locking.py`): any number of clients that each run
`acquire` on a resource, interleaved command by command. A client takes the lock with `SET NX PX`,
which writes its random token under the key of the resource for `ttl_ms`, and gives it back with a
script that deletes the key only if it still holds that token. The key may expire at any point of
the client's section; the client is not told.

What ties the clients to the store is `LockInv`: as long as its time has not elapsed, a client that
has taken the lock finds its own entry under the key. `lock_safety` is the safety of the lock.
-/

namespace EventSphere.Inventory

/-- The settings of the lock, with milliseconds as the unit of time. Redis refuses an expiry of
zero. Reference: `RedisLock.__init__` (`locking.py:41`). -/
structure LockSettings where
  ttlMs : ℕ
  retryAttempts : ℕ
  ttlMs_pos : 0 < ttlMs

/-- Reference: the defaults of `RedisLock.__init__` (`locking.py:45`). -/
def LockSettings.default : LockSettings :=
  { ttlMs := 5000, retryAttempts := 10, ttlMs_pos := by decide }

/-- Where a client is in `acquire`. -/
inductive LockPhase where
  /-- In the loop, with this many attempts left. -/
  | trying (attempts : ℕ)
  /-- In the critical section; its entry was written to expire at `deadline`. -/
  | inside (deadline : ℕ)
  /-- In the `finally` block, after the section has ended or raised. -/
  | releasing (deadline : ℕ)
  /-- Past the `finally` block. -/
  | finished
  /-- Ended by `LockAcquisitionError`. -/
  | refused
  /-- Ended by an exception of the `SET` command. -/
  | broken
  deriving DecidableEq, Repr

/-- A client: the resource it locks, its token and its place in the program. -/
structure LockClient where
  resource : String
  token : UUID
  phase : LockPhase
  deriving DecidableEq, Repr

/-- The key of a resource. Reference: `key` (`locking.py:57`). -/
def lockKey (resource : String) : String := "lock:" ++ resource

/-- The Redis clock and store, and every client so far; a client's number is its place in the
list. -/
structure LockState where
  now : ℕ
  store : Store String UUID ℕ
  clients : List LockClient

/-- The steps of the system. `applied` says whether a command that failed for its caller has been
executed by Redis. -/
inductive LockAction where
  /-- A client calls `acquire` and draws its token. -/
  | begin (resource : String) (token : UUID)
  /-- An attempt of the loop. -/
  | attempt (c : ℕ)
  /-- An attempt whose `SET` raises. -/
  | attemptRaises (c : ℕ) (applied : Bool)
  /-- The loop is over. -/
  | giveUp (c : ℕ)
  /-- The critical section completes or raises. -/
  | leave (c : ℕ)
  /-- The script is evaluated. -/
  | release (c : ℕ)
  /-- The call that evaluates the script fails, which is logged and swallowed. -/
  | releaseFails (c : ℕ) (applied : Bool)
  /-- Time passes. -/
  | tick (ms : ℕ)
  deriving DecidableEq, Repr

/-- The client that takes the step. -/
def LockAction.client : LockAction → Option ℕ
  | attempt c | attemptRaises c _ | giveUp c | leave c | release c | releaseFails c _ => some c
  | begin .. | tick _ => none

/-- Reference: `_RELEASE_SCRIPT` (`locking.py:13`). -/
def releaseScript (store : Store String UUID ℕ) (now : ℕ) (key : String) (token : UUID) :
    Store String UUID ℕ :=
  if store.get now key = some token then store.del key else store

namespace LockState

/-- Before the first client. -/
def init : LockState := ⟨0, .empty, []⟩

/-- Move a client on. -/
def goto (s : LockState) (c : ℕ) (client : LockClient) (phase : LockPhase) : LockState :=
  { s with clients := s.clients.set c { client with phase } }

/-- `SET key token NX PX ttl`, as the attempt of a client: it writes only if the key is free. -/
def setNx (cfg : LockSettings) (s : LockState) (client : LockClient) :
    Option (Store String UUID ℕ) :=
  match s.store.get s.now (lockKey client.resource) with
  | some _ => none
  | none => some (s.store.set (lockKey client.resource) ⟨client.token, s.now + cfg.ttlMs⟩)

/-- The store after the script of a client. -/
def released (s : LockState) (client : LockClient) : Store String UUID ℕ :=
  releaseScript s.store s.now (lockKey client.resource) client.token

/-- One step. Reference: `RedisLock.acquire` (`locking.py:55`). -/
def step (cfg : LockSettings) (s : LockState) : LockAction → Option LockState
  | .begin resource token =>
    some { s with clients := s.clients ++ [⟨resource, token, .trying cfg.retryAttempts⟩] }
  | .attempt c => do
    let client ← s.clients[c]?
    let .trying (n + 1) := client.phase | none
    match s.setNx cfg client with
    | some store => return { s.goto c client (.inside (s.now + cfg.ttlMs)) with store }
    | none => return s.goto c client (.trying n)
  | .attemptRaises c applied => do
    let client ← s.clients[c]?
    let .trying (_ + 1) := client.phase | none
    let store := if applied then (s.setNx cfg client).getD s.store else s.store
    return { s.goto c client .broken with store }
  | .giveUp c => do
    let client ← s.clients[c]?
    let .trying 0 := client.phase | none
    return s.goto c client .refused
  | .leave c => do
    let client ← s.clients[c]?
    let .inside deadline := client.phase | none
    return s.goto c client (.releasing deadline)
  | .release c => do
    let client ← s.clients[c]?
    let .releasing _ := client.phase | none
    return { s.goto c client .finished with store := s.released client }
  | .releaseFails c applied => do
    let client ← s.clients[c]?
    let .releasing _ := client.phase | none
    let store := if applied then s.released client else s.store
    return { s.goto c client .finished with store }
  | .tick ms => some { s with now := s.now + ms }

end LockState

/-! ## The steps -/

/-- What a client can do next: the phase it goes to and the store it leaves. -/
inductive LockMove (cfg : LockSettings) (s : LockState) (client : LockClient) :
    LockPhase → Store String UUID ℕ → Prop
  | taken {n : ℕ} (hphase : client.phase = .trying (n + 1))
      (hfree : s.store.get s.now (lockKey client.resource) = none) :
      LockMove cfg s client (.inside (s.now + cfg.ttlMs))
        (s.store.set (lockKey client.resource) ⟨client.token, s.now + cfg.ttlMs⟩)
  | lost {n : ℕ} (hphase : client.phase = .trying (n + 1)) :
      LockMove cfg s client (.trying n) s.store
  | broken {n : ℕ} (hphase : client.phase = .trying (n + 1)) : LockMove cfg s client .broken s.store
  | takenBroken {n : ℕ} (hphase : client.phase = .trying (n + 1))
      (hfree : s.store.get s.now (lockKey client.resource) = none) :
      LockMove cfg s client .broken
        (s.store.set (lockKey client.resource) ⟨client.token, s.now + cfg.ttlMs⟩)
  | refused (hphase : client.phase = .trying 0) : LockMove cfg s client .refused s.store
  | left {d : ℕ} (hphase : client.phase = .inside d) : LockMove cfg s client (.releasing d) s.store
  | released {d : ℕ} (hphase : client.phase = .releasing d) :
      LockMove cfg s client .finished (s.released client)
  | unreleased {d : ℕ} (hphase : client.phase = .releasing d) :
      LockMove cfg s client .finished s.store

/-- The kinds of steps: a client arrives, time passes, or a client moves. -/
inductive LockStep (cfg : LockSettings) (s : LockState) : LockAction → LockState → Prop
  | begin (resource : String) (token : UUID) :
      LockStep cfg s (.begin resource token)
        { s with clients := s.clients ++ [⟨resource, token, .trying cfg.retryAttempts⟩] }
  | tick (ms : ℕ) : LockStep cfg s (.tick ms) { s with now := s.now + ms }
  | move {a : LockAction} {c : ℕ} {client : LockClient} {phase : LockPhase}
      {store : Store String UUID ℕ} (ha : a.client = some c) (hc : s.clients[c]? = some client)
      (hmove : LockMove cfg s client phase store) :
      LockStep cfg s a ⟨s.now, store, s.clients.set c { client with phase }⟩

section
variable {cfg : LockSettings} {s s' : LockState} {a : LockAction}

/-- A `SET` that writes found the key free. -/
theorem LockState.setNx_eq_some {client : LockClient} {store : Store String UUID ℕ}
    (h : s.setNx cfg client = some store) :
    s.store.get s.now (lockKey client.resource) = none ∧
      store = s.store.set (lockKey client.resource) ⟨client.token, s.now + cfg.ttlMs⟩ := by
  unfold setNx at h
  split at h
  · cases h
  · next hfree => cases h; exact ⟨hfree, rfl⟩

/-- Every step is of one of the kinds. -/
theorem LockState.step_kind (h : s.step cfg a = some s') : LockStep cfg s a s' := by
  cases a with
  | begin resource token => cases h; exact .begin resource token
  | tick ms => cases h; exact .tick ms
  | attempt c =>
    simp only [step, Option.bind_eq_bind, Option.bind_eq_some_iff] at h
    obtain ⟨client, hc, h⟩ := h
    split at h
    · next n hphase =>
      split at h
      · next store hset =>
        cases h
        obtain ⟨hfree, rfl⟩ := setNx_eq_some hset
        exact .move rfl hc (.taken hphase hfree)
      · cases h
        exact .move rfl hc (.lost hphase)
    · cases h
  | attemptRaises c applied =>
    simp only [step, Option.bind_eq_bind, Option.bind_eq_some_iff] at h
    obtain ⟨client, hc, h⟩ := h
    split at h
    · next n hphase =>
      cases h
      cases applied with
      | false => exact .move rfl hc (.broken hphase)
      | true =>
        cases hset : s.setNx cfg client with
        | none => exact .move rfl hc (by simpa [hset] using .broken hphase)
        | some store =>
          obtain ⟨hfree, rfl⟩ := setNx_eq_some hset
          exact .move rfl hc (by simpa [hset] using .takenBroken hphase hfree)
    · cases h
  | giveUp c | leave c | release c =>
    simp only [step, Option.bind_eq_bind, Option.bind_eq_some_iff] at h
    obtain ⟨client, hc, h⟩ := h
    split at h
    · next hphase =>
      cases h
      first
        | exact .move rfl hc (.refused hphase)
        | exact .move rfl hc (.left hphase)
        | exact .move rfl hc (.released hphase)
    · cases h
  | releaseFails c applied =>
    simp only [step, Option.bind_eq_bind, Option.bind_eq_some_iff] at h
    obtain ⟨client, hc, h⟩ := h
    split at h
    · next hphase =>
      cases h
      cases applied with
      | false => exact .move rfl hc (.unreleased hphase)
      | true => exact .move rfl hc (.released hphase)
    · cases h

end

/-! ## The invariant -/

/-- The deadline of a client that has taken the lock and not given it back. -/
def LockPhase.holding : LockPhase → Option ℕ
  | inside d | releasing d => some d
  | _ => none

/-- A client in this phase may have written an entry that expires at `d`. -/
def LockPhase.Wrote (d : ℕ) : LockPhase → Prop
  | inside d' | releasing d' => d' = d
  | finished | broken => True
  | trying _ | refused => False

/-- A client in this phase has not taken the lock. -/
def LockPhase.Waiting : LockPhase → Prop
  | trying _ | refused => True
  | _ => False

/-- Tokens are random: an arriving client draws one that no client has. -/
def FreshToken (s : LockState) : LockAction → Prop
  | .begin _ token => ∀ x ∈ s.clients, x.token ≠ token
  | _ => True

instance (s : LockState) : DecidablePred (FreshToken s)
  | .begin _ token => inferInstanceAs (Decidable (∀ x ∈ s.clients, x.token ≠ token))
  | .attempt _ | .attemptRaises .. | .giveUp _ | .leave _ | .release _ | .releaseFails ..
  | .tick _ => inferInstanceAs (Decidable True)

/-- What ties the clients to the store. -/
structure LockInv (s : LockState) : Prop where
  /-- No two clients have one token. -/
  token_inj : ∀ {c c' : ℕ} {x y : LockClient}, s.clients[c]? = some x → s.clients[c']? = some y →
    x.token = y.token → c = c'
  /-- A client that holds the lock finds its entry until it expires. -/
  holds : ∀ {c : ℕ} {x : LockClient} {d : ℕ}, s.clients[c]? = some x →
    x.phase.holding = some d → s.now < d → s.store (lockKey x.resource) = some ⟨x.token, d⟩
  /-- Every entry was written by a client, under the key of its resource. -/
  owned : ∀ {key : String} {e : Entry UUID ℕ}, s.store key = some e →
    ∃ (c : ℕ) (x : LockClient), s.clients[c]? = some x ∧ x.token = e.value ∧
      lockKey x.resource = key ∧ x.phase.Wrote e.expiresAt

theorem lockInv_init : LockInv .init where
  token_inj h := nomatch h
  holds h := nomatch h
  owned h := nomatch h

section
variable {cfg : LockSettings} {s s' : LockState} {a : LockAction} {c c' : ℕ} {client x : LockClient}
  {phase : LockPhase} {store : Store String UUID ℕ}

/-- **The rule of moves.** A client that moves keeps the invariant if it leaves the entries of the
other holders alone, has its own entry if it now holds the lock, and leaves no entry that nobody
wrote. -/
theorem LockInv.move (h : LockInv s) (hc : s.clients[c]? = some client)
    (hother : ∀ c' ≠ c, ∀ x d, s.clients[c']? = some x → x.phase.holding = some d → s.now < d →
      store (lockKey x.resource) = s.store (lockKey x.resource))
    (hself : ∀ d, phase.holding = some d → s.now < d →
      store (lockKey client.resource) = some ⟨client.token, d⟩)
    (howned : ∀ key e, store key = some e →
      s.store key = some e ∧ (client.phase.Wrote e.expiresAt → phase.Wrote e.expiresAt) ∨
      key = lockKey client.resource ∧ e.value = client.token ∧ phase.Wrote e.expiresAt) :
    LockInv ⟨s.now, store, s.clients.set c { client with phase }⟩ where
  token_inj {c₁ c₂ x y} hx hy ht := by
    rcases getElem?_set_inv hx with ⟨rfl, rfl⟩ | ⟨-, hx'⟩ <;>
      rcases getElem?_set_inv hy with ⟨rfl, rfl⟩ | ⟨-, hy'⟩
    · rfl
    · exact h.token_inj hc hy' ht
    · exact h.token_inj hx' hc ht
    · exact h.token_inj hx' hy' ht
  holds {c' x d} hx hd hnow := by
    rcases getElem?_set_inv hx with ⟨rfl, rfl⟩ | ⟨hne, hx⟩
    · exact hself d hd hnow
    · exact (hother c' hne x d hx hd hnow).trans (h.holds hx hd hnow)
  owned {key e} he := by
    have hmoved : (s.clients.set c { client with phase })[c]? = some { client with phase } := by
      rw [getElem?_set_of_getElem? hc, if_pos rfl]
    rcases howned key e he with ⟨he, hwrote⟩ | ⟨rfl, hv, hwrote⟩
    · obtain ⟨c', x, hx, htoken, hkey, hw⟩ := h.owned he
      by_cases hne : c' = c
      · subst hne
        cases hc.symm.trans hx
        exact ⟨c', _, hmoved, htoken, hkey, hwrote hw⟩
      · refine ⟨c', x, ?_, htoken, hkey, hw⟩
        rw [getElem?_set_of_getElem? hc, if_neg hne]
        exact hx
    · exact ⟨c, _, hmoved, hv.symm, rfl, hwrote⟩

/-- A move that leaves the store alone. -/
theorem LockInv.keep (h : LockInv s) (hc : s.clients[c]? = some client)
    (hholding : ∀ d, phase.holding = some d → client.phase.holding = some d)
    (hwrote : ∀ d, client.phase.Wrote d → phase.Wrote d) :
    LockInv ⟨s.now, s.store, s.clients.set c { client with phase }⟩ :=
  h.move hc (fun _ _ _ _ _ _ _ => rfl) (fun d hd hnow => h.holds hc (hholding d hd) hnow)
    fun _ _ he => .inl ⟨he, hwrote _⟩

/-- A `SET` that finds the key free takes nobody's lock. -/
theorem LockInv.take (h : LockInv s) (hc : s.clients[c]? = some client) {n d : ℕ}
    (hphase : client.phase = .trying n)
    (hfree : s.store.get s.now (lockKey client.resource) = none)
    (hholding : ∀ d', phase.holding = some d' → d' = d) (hwrote : phase.Wrote d) :
    LockInv ⟨s.now, s.store.set (lockKey client.resource) ⟨client.token, d⟩,
      s.clients.set c { client with phase }⟩ := by
  refine h.move hc (fun c' hne x d' hx hd hnow => ?_) (fun d' hd _ => ?_) fun key e he => ?_
  · have hentry := h.holds hx hd hnow
    rw [Store.set_apply, if_neg]
    intro he
    rw [he] at hentry
    rw [Store.get_of_entry hentry hnow] at hfree
    cases hfree
  · rw [Store.set_apply, if_pos rfl, hholding d' hd]
  · rw [Store.set_apply] at he
    split at he
    · next hkey => cases he; exact .inr ⟨hkey, rfl, hwrote⟩
    · refine .inl ⟨he, fun hw => ?_⟩
      rw [hphase] at hw
      exact hw.elim

/-- The script of a client deletes an entry of its own, and only before it expires. -/
theorem LockInv.released_eq (h : LockInv s) (hc : s.clients[c]? = some client) {d : ℕ}
    (hphase : client.phase = .releasing d) :
    s.released client = s.store ∨
      s.store.get s.now (lockKey client.resource) = some client.token ∧ s.now < d ∧
        s.released client = s.store.del (lockKey client.resource) := by
  unfold LockState.released releaseScript
  split
  · next hget =>
    refine .inr ⟨hget, ?_, rfl⟩
    obtain ⟨e, he, hnow, hv⟩ := Store.get_eq_some.1 hget
    obtain ⟨c', x, hx, htoken, -, hw⟩ := h.owned he
    obtain rfl : c' = c := h.token_inj hx hc (htoken.trans hv)
    cases hc.symm.trans hx
    rw [hphase] at hw
    exact hw ▸ hnow
  · exact .inl rfl

/-- The script of a client takes nobody else's lock. -/
theorem LockInv.give (h : LockInv s) (hc : s.clients[c]? = some client) {d : ℕ}
    (hphase : client.phase = .releasing d) :
    LockInv ⟨s.now, s.released client, s.clients.set c { client with phase := .finished }⟩ := by
  rcases h.released_eq hc hphase with he | ⟨hget, -, he⟩
  · rw [he]
    exact h.keep hc nofun fun _ _ => trivial
  · rw [he]
    refine h.move hc (fun c' hne x d' hx hd hnow => ?_) nofun fun key e hentry => ?_
    · have hentry := h.holds hx hd hnow
      rw [Store.del_apply, if_neg]
      intro hkey
      rw [hkey] at hentry
      rw [Store.get_of_entry hentry hnow] at hget
      exact hne (h.token_inj hx hc (Option.some.inj hget))
    · rw [Store.del_apply] at hentry
      split at hentry
      · cases hentry
      · exact .inl ⟨hentry, fun _ => trivial⟩

/-- Every move keeps the invariant. -/
theorem LockInv.moved (h : LockInv s) (hc : s.clients[c]? = some client)
    (hmove : LockMove cfg s client phase store) :
    LockInv ⟨s.now, store, s.clients.set c { client with phase }⟩ := by
  cases hmove with
  | taken hphase hfree => exact h.take hc hphase hfree (fun _ hd => (Option.some.inj hd).symm) rfl
  | takenBroken hphase hfree => exact h.take hc hphase hfree nofun trivial
  | lost hphase | broken hphase | refused hphase =>
    refine h.keep hc nofun fun d hw => ?_
    rw [hphase] at hw
    exact hw.elim
  | left hphase =>
    refine h.keep hc (fun d hd => ?_) fun d hw => ?_
    · rw [hphase]; exact hd
    · rw [hphase] at hw; exact hw
  | released hphase => exact h.give hc hphase
  | unreleased hphase => exact h.keep hc nofun fun _ _ => trivial

/-- **Every step keeps the invariant.** -/
theorem LockInv.step (h : LockInv s) (hfresh : FreshToken s a) (hs : s.step cfg a = some s') :
    LockInv s' := by
  cases LockState.step_kind hs with
  | move ha hc hmove => exact h.moved hc hmove
  | tick ms =>
    refine ⟨h.token_inj, fun hx hd hnow => h.holds hx hd ?_, h.owned⟩
    change s.now + ms < _ at hnow
    omega
  | begin resource token =>
    have hold : ∀ {c : ℕ} {x : LockClient}, s.clients[c]? = some x → x.token ≠ token :=
      fun hx => hfresh _ (List.mem_of_getElem? hx)
    refine ⟨fun {c c' x y} hx hy ht => ?_, fun {c x d} hx hd hnow => ?_, fun {key e} he => ?_⟩
    · rcases getElem?_append_singleton hx with hx | ⟨hlen, rfl⟩ <;>
        rcases getElem?_append_singleton hy with hy | ⟨hlen', rfl⟩
      · exact h.token_inj hx hy ht
      · exact absurd ht (hold hx)
      · exact absurd ht.symm (hold hy)
      · omega
    · rcases getElem?_append_singleton hx with hx | ⟨-, rfl⟩
      · exact h.holds hx hd hnow
      · cases hd
    · obtain ⟨c, x, hx, hrest⟩ := h.owned he
      exact ⟨c, x, List.getElem?_append_left (List.getElem?_eq_some_iff.1 hx).1 ▸ hx, hrest⟩

/-! ## Whole runs -/

/-- A client that has taken the lock or ended otherwise never raises `LockAcquisitionError`. -/
theorem not_waiting_step (h : ∃ x, s.clients[c]? = some x ∧ ¬x.phase.Waiting)
    (hs : s.step cfg a = some s') : ∃ x, s'.clients[c]? = some x ∧ ¬x.phase.Waiting := by
  obtain ⟨x, hx, hw⟩ := h
  cases LockState.step_kind hs with
  | tick ms => exact ⟨x, hx, hw⟩
  | begin resource token =>
    exact ⟨x, (List.getElem?_append_left (List.getElem?_eq_some_iff.1 hx).1).trans hx, hw⟩
  | @move _ c' client phase store ha hc hmove =>
    by_cases he : c = c'
    · subst he
      cases hx.symm.trans hc
      refine ⟨{ x with phase }, by rw [getElem?_set_of_getElem? hc, if_pos rfl], ?_⟩
      cases hmove with
      | taken | broken | takenBroken | left | released | unreleased => exact id
      | lost hphase | refused hphase => rw [hphase] at hw; exact absurd trivial hw
    · refine ⟨x, ?_, hw⟩
      rw [getElem?_set_of_getElem? hc, if_neg he]
      exact hx

/-- A step of a client after which it still waits leaves the store alone. -/
theorem store_of_waiting (hs : s.step cfg a = some s') (ha : a.client = some c)
    (hw : ∀ x, s'.clients[c]? = some x → x.phase.Waiting) : s'.store = s.store := by
  cases LockState.step_kind hs with
  | tick ms | begin resource token => rfl
  | @move _ c' client phase store ha' hc hmove =>
    obtain rfl : c' = c := Option.some.inj (ha'.symm.trans ha)
    have hphase : phase.Waiting := hw { client with phase } (by
      rw [getElem?_set_of_getElem? hc, if_pos rfl])
    cases hmove with
    | lost | refused => rfl
    | taken | broken | takenBroken | left | released | unreleased => exact hphase.elim

/-- A client runs its script, or fails to, only in its `finally` block. -/
theorem release_step (ha : a = .release c ∨ ∃ applied, a = .releaseFails c applied)
    (hs : s.step cfg a = some s') :
    ∃ x d, s.clients[c]? = some x ∧ x.phase = .releasing d ∧
      (s'.store = s.released x ∨ s'.store = s.store) := by
  rcases ha with rfl | ⟨applied, rfl⟩
  · simp only [LockState.step, Option.bind_eq_bind, Option.bind_eq_some_iff] at hs
    obtain ⟨x, hx, hs⟩ := hs
    split at hs
    · next d hphase => cases hs; exact ⟨x, d, hx, hphase, .inl rfl⟩
    · cases hs
  · simp only [LockState.step, Option.bind_eq_bind, Option.bind_eq_some_iff] at hs
    obtain ⟨x, hx, hs⟩ := hs
    split at hs
    · next d hphase =>
      cases hs
      refine ⟨x, d, hx, hphase, ?_⟩
      cases applied
      · exact .inr rfl
      · exact .inl rfl
    · cases hs

end

/-- **Safety of the lock.** In every run in which no two clients draw one token: (1) of the clients
inside their section with time left, no two have the same resource; (2) the script of a client, also
in a call that fails for it, leaves the store as it is or deletes the key that holds the client's
own token, the latter only before the client's time has elapsed; (3) a client that ends with
`LockAcquisitionError` was never inside its section, and none of its steps touched the store. -/
theorem lock_safety (cfg : LockSettings) (as : List LockAction) (s : LockState)
    (hfresh : Along (LockState.step cfg) FreshToken .init as)
    (hr : run (LockState.step cfg) .init as = some s) :
    (∀ (c c' : ℕ) (x y : LockClient) (d d' : ℕ), s.clients[c]? = some x →
      s.clients[c']? = some y → x.resource = y.resource → x.phase = .inside d →
      y.phase = .inside d' → s.now < d → s.now < d' → c = c') ∧
    (∀ a c s', (a = .release c ∨ ∃ applied, a = .releaseFails c applied) →
      s.step cfg a = some s' → ∃ x d, s.clients[c]? = some x ∧ x.phase = .releasing d ∧
        (s'.store = s.store ∨
          s.store.get s.now (lockKey x.resource) = some x.token ∧ s.now < d ∧
            s'.store = s.store.del (lockKey x.resource))) ∧
    ∀ c x, s.clients[c]? = some x → x.phase = .refused →
      ∀ before a after s₁ s₂, as = before ++ a :: after →
        run (LockState.step cfg) .init before = some s₁ → s₁.step cfg a = some s₂ →
        (∀ y, s₂.clients[c]? = some y → y.phase.Waiting) ∧
        (a.client = some c → s₂.store = s₁.store) := by
  have h := run_inv_along (I := LockInv) (fun h hf hs => h.step hf hs) hfresh hr lockInv_init
  refine ⟨fun c c' x y d d' hx hy hres hd hd' hnow hnow' => ?_, fun a c s' ha hs => ?_,
    fun c x hx hrefused before a after s₁ s₂ has hbefore hs => ?_⟩
  · have h1 := h.holds hx (by rw [hd]; rfl) hnow
    have h2 := h.holds hy (by rw [hd']; rfl) hnow'
    rw [hres, h2] at h1
    exact h.token_inj hx hy (congrArg Entry.value (Option.some.inj h1)).symm
  · obtain ⟨x, d, hx, hphase, hstore⟩ := release_step ha hs
    refine ⟨x, d, hx, hphase, ?_⟩
    rcases hstore with hstore | hstore
    · rw [hstore]
      exact h.released_eq hx hphase
    · exact .inl hstore
  · have hw : ∀ y, s₂.clients[c]? = some y → y.phase.Waiting := by
      intro y hy
      by_contra hn
      rw [has, run_append] at hr
      obtain ⟨s₁', hbefore', hafter⟩ := hr
      obtain rfl := Option.some.inj (hbefore'.symm.trans hbefore)
      obtain ⟨s₂', hs', hafter⟩ := run_cons.1 hafter
      obtain rfl := Option.some.inj (hs'.symm.trans hs)
      obtain ⟨z, hz, hn⟩ := run_inv (I := fun s => ∃ x, s.clients[c]? = some x ∧ ¬x.phase.Waiting)
        not_waiting_step hafter ⟨y, hy, hn⟩
      cases hz.symm.trans hx
      rw [hrefused] at hn
      exact hn trivial
    exact ⟨hw, fun ha => store_of_waiting hs ha hw⟩

/-- Two clients of one event: the first takes the lock and stays past its time, the second takes it
over, a third gives up, and the first ends. -/
def expiredSchedule : List LockAction :=
  [.begin "event:1" ⟨1⟩, .begin "event:1" ⟨2⟩, .begin "event:1" ⟨3⟩, .attempt 0] ++
    List.replicate 10 (.attempt 2) ++ [.giveUp 2, .attempt 1, .tick 5000, .attempt 1, .leave 0]

/-- In that run the script of the first client leaves the lock of the second one alone. -/
theorem expired_holder_harmless :
    ∃ s s', run (LockState.step .default) .init expiredSchedule = some s ∧
      s.step .default (.release 0) = some s' ∧ s'.store = s.store := by
  obtain ⟨s, hs, h⟩ : ∃ s, run (LockState.step .default) .init expiredSchedule = some s ∧
      (s.step .default (.release 0)).isSome && s.now == 5000 &&
        s.clients[0]? == some ⟨"event:1", ⟨1⟩, .releasing 5000⟩ :=
    exists_of_run (by decide +kernel)
  simp only [Bool.and_eq_true, beq_iff_eq] at h
  obtain ⟨⟨hstep, hnow⟩, hclient⟩ := h
  obtain ⟨s', hs'⟩ := Option.isSome_iff_exists.1 hstep
  obtain ⟨x, d, hx, hd, hstore⟩ := (lock_safety .default expiredSchedule s (by decide +kernel)
    hs).2.1 (.release 0) 0 s' (.inl rfl) hs'
  refine ⟨s, s', hs, hs', hstore.resolve_right fun h => ?_⟩
  cases hclient.symm.trans hx
  cases hd
  have := h.2.1
  omega

end EventSphere.Inventory
