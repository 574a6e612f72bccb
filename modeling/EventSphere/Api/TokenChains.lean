import EventSphere.Api.AuthExec
import EventSphere.Api.RefreshTokens

/-!
# Chains of refresh tokens

Logins, refreshes and logouts, one call at a time. A login starts a chain, and a refresh appends the
token of its pair to the chain of the token that it was given. Nothing in Redis says which token
belongs to which chain; `TokenChains.issued` keeps it for the proofs. `refresh_chains` characterises
the keys and the answers by the chains: only the last token of a chain can have a key, and it is
accepted until it expires or is passed to `logout`.
-/

namespace EventSphere.Api

/-- The token that a call presents. -/
def AuthCall.token : AuthCall → Option Token
  | login .. => none
  | refresh token | logout token => some token

/-- The time of the last call, Redis, the refresh tokens in the order in which they were issued,
each with the number of its chain, the number of chains, and the tokens that were passed to
`logout`. -/
structure TokenChains where
  now : Instant
  redis : Store UUID UUID Instant
  issued : List (ℕ × Payload)
  started : ℕ
  loggedOut : List Token

namespace TokenChains

/-- The state before the first login. -/
def init (now : Instant) : TokenChains := ⟨now, .empty, [], 0, []⟩

/-- The tokens of a chain, the last one issued at the end. -/
def chain (s : TokenChains) (c : ℕ) : List Payload := (s.issued.filter (·.1 = c)).map Prod.snd

/-- The chain of a token. -/
def chainOf (s : TokenChains) (p : Payload) : Option ℕ := (s.issued.find? (·.2 = p)).map Prod.fst

/-- The record after a call. -/
def record (s : TokenChains) (call : AuthCall)
    (result : Except DomainError (Option TokenResponse)) :
    TokenChains :=
  match call, result with
  | .login .., .ok (some ⟨_, .signed p⟩) =>
    { s with issued := s.issued ++ [(s.started, p)], started := s.started + 1 }
  | .refresh (.signed old), .ok (some ⟨_, .signed p⟩) =>
    match s.chainOf old with
    | some c => { s with issued := s.issued ++ [(c, p)] }
    | none => s
  | .logout token, _ => { s with loggedOut := s.loggedOut ++ [token] }
  | _, _ => s

/-- One call, no earlier than the one before. -/
def step (env : AuthEnv) (s : TokenChains) (op : AuthCall × AuthInput) : Option TokenChains :=
  let x := op.1.exec env op.2 s.redis
  if s.now ≤ op.2.now then some ({ s with now := op.2.now, redis := x.2 }.record op.1 x.1) else none

/-- Identifiers are random: a new refresh token has one that no other has. -/
def Fresh (s : TokenChains) (op : AuthCall × AuthInput) : Prop :=
  ∀ x ∈ s.issued, x.2.jti ≠ op.2.uuids 1

/-- Signatures cannot be forged: a text that verifies as a refresh token is one that was issued. -/
def Genuine (s : TokenChains) : Token → Prop
  | .signed p => p.type = .refresh → p ∈ s.issued.map Prod.snd
  | .malformed => True

/-- The assumptions on a call: it draws a fresh identifier, and its token is genuine. -/
def Honest (s : TokenChains) (op : AuthCall × AuthInput) : Prop :=
  s.Fresh op ∧ ∀ token ∈ op.1.token, s.Genuine token

instance (s : TokenChains) (op : AuthCall × AuthInput) : Decidable (s.Fresh op) :=
  inferInstanceAs (Decidable (∀ x ∈ s.issued, _))

instance (s : TokenChains) : ∀ token, Decidable (s.Genuine token)
  | .signed p => inferInstanceAs (Decidable (p.type = .refresh → p ∈ s.issued.map Prod.snd))
  | .malformed => inferInstanceAs (Decidable True)

instance (s : TokenChains) (op : AuthCall × AuthInput) : Decidable (s.Honest op) :=
  inferInstanceAs (Decidable (_ ∧ ∀ token ∈ op.1.token, s.Genuine token))

/-- A refresh with the token returns a pair. -/
def Accepts (env : AuthEnv) (s : TokenChains) (inp : AuthInput) (token : Token) : Prop :=
  ∃ pair, ((AuthCall.refresh token).exec env inp s.redis).1 = .ok (some pair)

/-- The token is an unexpired refresh token, the last one of its chain, and has not been passed to
`logout`. -/
def Current (s : TokenChains) (now : Instant) (token : Token) : Prop :=
  ∃ c p, token = .signed p ∧ p.type = .refresh ∧ now < p.exp * second ∧
    (s.chain c).getLast? = some p ∧ token ∉ s.loggedOut

/-- The token is not one that a refresh could be given: it is no text of the API, an access token,
an expired one, or a token that is not the last of its chain. -/
def Useless (s : TokenChains) (now : Instant) (token : Token) : Prop :=
  token = .malformed ∨ ∃ p, token = .signed p ∧
    (p.type = .access ∨ p.exp * second ≤ now ∨ ∃ c, p ∈ (s.chain c).dropLast)

/-- A chain has one live key at most, and it holds the `sub` of its token. -/
def OneLiveKey (s : TokenChains) (now : Instant) : Prop :=
  ∀ c, ∀ p ∈ s.chain c, ∀ v, s.redis.get now p.jti = some v →
    v = p.sub ∧ ∀ q ∈ s.chain c, (s.redis.get now q.jti).isSome → q = p

/-! ## Chains -/

section
variable {s : TokenChains} {c d : ℕ} {p q : Payload}

theorem mem_chain : p ∈ s.chain c ↔ (c, p) ∈ s.issued := by
  unfold chain
  constructor
  · intro h
    obtain ⟨⟨c', p'⟩, hx, rfl⟩ := List.mem_map.1 h
    obtain ⟨hmem, hc⟩ := List.mem_filter.1 hx
    rwa [← of_decide_eq_true hc]
  · intro h
    exact List.mem_map.2 ⟨(c, p), List.mem_filter.2 ⟨h, decide_eq_true rfl⟩, rfl⟩

/-- The chains after a token has been issued. -/
theorem chain_append (now : Instant) (redis : Store UUID UUID Instant) (started : ℕ)
    (loggedOut : List Token) :
    (⟨now, redis, s.issued ++ [(c, q)], started, loggedOut⟩ : TokenChains).chain d =
      s.chain d ++ if c = d then [q] else [] := by
  unfold chain
  rw [List.filter_append, List.map_append]
  by_cases h : c = d
  · simp [h]
  · simp [h]

/-- A token of a chain is the last one or not. -/
theorem mem_dropLast_or (h : p ∈ s.chain c) :
    p ∈ (s.chain c).dropLast ∨ (s.chain c).getLast? = some p := by
  have hne : s.chain c ≠ [] := List.ne_nil_of_mem h
  rw [← List.dropLast_append_getLast hne] at h
  rcases List.mem_append.1 h with h | h
  · exact .inl h
  · rw [List.mem_singleton.1 h]
    exact .inr (List.getLast?_eq_some_getLast hne)

end

/-! ## The invariant -/

/-- The invariant of the chains. -/
structure Chained (env : AuthEnv) (s : TokenChains) : Prop where
  refresh : ∀ x ∈ s.issued, x.2.type = .refresh ∧ x.2.iat * second ≤ s.now
  numbered : ∀ x ∈ s.issued, x.1 < s.started
  days : ∀ x ∈ s.issued, 0 < env.settings.refreshTokenExpireDays
  distinct : (s.issued.map fun x => x.2.jti).Nodup
  known : ∀ p, .signed p ∈ s.loggedOut → p.type = .refresh → p ∈ s.issued.map Prod.snd
  value : ∀ x ∈ s.issued, ∀ e, s.redis x.2.jti = some e → e.value = x.2.sub
  /-- A token that is not the last of its chain has been exchanged, and its key deleted. -/
  rotated : ∀ c, ∀ p ∈ (s.chain c).dropLast, s.redis p.jti = none
  live : ∀ c p, (s.chain c).getLast? = some p → .signed p ∉ s.loggedOut →
    ∃ e, s.redis p.jti = some e ∧ p.exp * second ≤ e.expiresAt
  /-- A logout of an expired token leaves its key. -/
  dead : ∀ c p, (s.chain c).getLast? = some p → .signed p ∈ s.loggedOut →
    s.redis p.jti = none ∨ p.exp * second ≤ s.now

theorem chained_init (env : AuthEnv) (now : Instant) : Chained env (init now) where
  refresh _ h := nomatch h
  numbered _ h := nomatch h
  days _ h := nomatch h
  distinct := .nil
  known _ h := nomatch h
  value _ h := nomatch h
  rotated _ _ h := nomatch h
  live _ _ h := nomatch h
  dead _ _ h := nomatch h

section
variable {env : AuthEnv} {s s' : TokenChains} {c d : ℕ} {p q : Payload} {inp : AuthInput}
  {token : Token} {now : Instant}

/-- Two tokens with one identifier are the same token, of the same chain. -/
theorem Chained.eq_of_jti (h : Chained env s) (hp : p ∈ s.chain c) (hq : q ∈ s.chain d)
    (hjti : p.jti = q.jti) : c = d ∧ p = q := by
  have := List.inj_on_of_nodup_map h.distinct (mem_chain.1 hp) (mem_chain.1 hq) hjti
  exact Prod.mk.inj this

/-- Only the last token of a chain has a key. -/
theorem Chained.last_of_key (h : Chained env s) (hp : p ∈ s.chain c) (hkey : s.redis p.jti ≠ none) :
    (s.chain c).getLast? = some p :=
  (mem_dropLast_or hp).resolve_left fun hd => hkey (h.rotated c p hd)

/-- A genuine refresh token belongs to a chain. -/
theorem Genuine.exists_chain (h : s.Genuine (.signed p)) (hp : p.type = .refresh) :
    ∃ c, p ∈ s.chain c := by
  obtain ⟨⟨c, p'⟩, hmem, rfl⟩ := List.mem_map.1 (h hp)
  exact ⟨c, mem_chain.2 hmem⟩

/-- **One live key a chain.** -/
theorem Chained.oneLiveKey (h : Chained env s) (now : Instant) : s.OneLiveKey now := by
  intro c p hp v hv
  obtain ⟨e, he, -, rfl⟩ := Store.get_eq_some.1 hv
  refine ⟨h.value (c, p) (mem_chain.1 hp) e he, fun q hq hlive => ?_⟩
  obtain ⟨v', hv'⟩ := Option.isSome_iff_exists.1 hlive
  obtain ⟨e', he', -⟩ := Store.get_eq_some.1 hv'
  have h1 := h.last_of_key hp (he ▸ Option.some_ne_none e)
  have h2 := h.last_of_key hq (he' ▸ Option.some_ne_none e')
  exact Option.some.inj (h2.symm.trans h1)

/-- A token that decodes is an unexpired refresh token. -/
theorem decodeToken_ok (h : decodeToken now .refresh token = .ok p) :
    token = .signed p ∧ p.type = .refresh ∧ now < p.exp * second := by
  obtain rfl := decodeToken_eq_ok h
  simp only [decodeToken] at h
  split at h
  · cases h
  · split at h
    · cases h
    · next hexp =>
      split at h
      · cases h
      · next htype => exact ⟨rfl, not_not.1 htype, not_le.1 hexp⟩

/-- An unexpired refresh token of a chain decodes. -/
theorem Chained.decodes (h : Chained env s) (hnow : s.now ≤ now) (hp : p ∈ s.chain c)
    (hexp : now < p.exp * second) : decodeToken now .refresh (.signed p) = .ok p := by
  obtain ⟨htype, hiat⟩ := h.refresh (c, p) (mem_chain.1 hp)
  simp only [decodeToken, if_neg (not_lt.2 (hiat.trans hnow)), if_neg (not_le.2 hexp)]
  exact if_neg (not_not.2 htype)

/-- **A refresh succeeds exactly with the current token of a chain.** -/
theorem Chained.accepts_iff (h : Chained env s) (hnow : s.now ≤ inp.now) (hg : s.Genuine token) :
    Accepts env s inp token ↔ s.Current inp.now token := by
  unfold Accepts
  rw [refresh_exec]
  constructor
  · rintro ⟨pair, hok⟩
    cases hd : decodeToken inp.now .refresh token with
    | error e => rw [hd] at hok; cases hok
    | ok p =>
      rw [hd] at hok
      obtain ⟨rfl, htype, hexp⟩ := decodeToken_ok hd
      obtain ⟨c, hp⟩ := hg.exists_chain htype
      cases hk : s.redis.get inp.now p.jti with
      | none => simp only [hk] at hok; cases hok
      | some v =>
        obtain ⟨e, he, -⟩ := Store.get_eq_some.1 hk
        have hlast := h.last_of_key hp (he ▸ Option.some_ne_none e)
        refine ⟨c, p, rfl, htype, hexp, hlast, fun hout => ?_⟩
        rcases h.dead c p hlast hout with hnone | hold
        · rw [hnone] at he
          cases he
        · exact absurd (hold.trans hnow) (not_le.2 hexp)
  · rintro ⟨c, p, rfl, htype, hexp, hlast, hout⟩
    have hp : p ∈ s.chain c := List.mem_of_getLast? hlast
    obtain ⟨e, he, hle⟩ := h.live c p hlast hout
    have hdays := h.days (c, p) (mem_chain.1 hp)
    rw [h.decodes hnow hp hexp]
    simp only [Store.get_of_entry he (hexp.trans_le hle), issue, if_pos hdays]
    exact ⟨_, rfl⟩

/-- **A logout with a useless token leaves Redis as it is.** -/
theorem Chained.logout_useless (h : Chained env s) (hu : s.Useless inp.now token) :
    (AuthCall.logout token).exec env inp s.redis = (.ok none, s.redis) := by
  rw [logout_exec]
  cases hd : decodeToken inp.now .refresh token with
  | error e => rfl
  | ok p =>
    obtain ⟨rfl, htype, hexp⟩ := decodeToken_ok hd
    rcases hu with hu | ⟨q, hq, hu⟩
    · cases hu
    · cases hq
      rcases hu with hu | hu | ⟨c, hc⟩
      · rw [htype] at hu; cases hu
      · exact absurd hu (not_le.2 hexp)
      · have hdel : s.redis.del p.jti = s.redis := by
          funext x
          rw [Store.del_apply]
          split
          · next hx => rw [hx, h.rotated c p hc]
          · rfl
        simp only [hdel]

/-! ## Steps -/

/-- Time passes. -/
theorem Chained.later (h : Chained env s) (hnow : s.now ≤ now) :
    Chained env { s with now := now } where
  refresh x hx := ⟨(h.refresh x hx).1, (h.refresh x hx).2.trans hnow⟩
  numbered := h.numbered
  days := h.days
  distinct := h.distinct
  known := h.known
  value := h.value
  rotated := h.rotated
  live := h.live
  dead c p hp hout := (h.dead c p hp hout).imp id hnow.trans'

/-- A token is issued at the end of a chain whose other tokens have no key. -/
theorem Chained.append (h : Chained env s) {redis : Store UUID UUID Instant} {started : ℕ}
    {e : Entry UUID Instant} (hdays : 0 < env.settings.refreshTokenExpireDays)
    (hfresh : ∀ x ∈ s.issued, x.2.jti ≠ q.jti) (hq : q.type = .refresh ∧ q.iat * second ≤ s.now)
    (hstarted : s.started ≤ started) (hc : c < started)
    (hset : redis q.jti = some e ∧ e.value = q.sub ∧ q.exp * second ≤ e.expiresAt)
    (hchain : ∀ p ∈ s.chain c, redis p.jti = none)
    (hkeep : ∀ d ≠ c, ∀ p ∈ s.chain d, redis p.jti = s.redis p.jti) :
    Chained env ⟨s.now, redis, s.issued ++ [(c, q)], started, s.loggedOut⟩ := by
  have hself : (⟨s.now, redis, s.issued ++ [(c, q)], started, s.loggedOut⟩ : TokenChains).chain c =
      s.chain c ++ [q] := by rw [chain_append, if_pos rfl]
  have hother : ∀ d ≠ c,
      (⟨s.now, redis, s.issued ++ [(c, q)], started, s.loggedOut⟩ : TokenChains).chain d =
        s.chain d := by
    intro d hd
    rw [chain_append, if_neg hd.symm, List.append_nil]
  refine ⟨?_, ?_, fun _ _ => hdays, ?_, ?_, ?_, fun d p hp => ?_, fun d p hp hout => ?_,
    fun d p hp hout => ?_⟩
  · exact List.forall_mem_append.2 ⟨h.refresh, List.forall_mem_singleton.2 hq⟩
  · exact List.forall_mem_append.2
      ⟨fun x hx => (h.numbered x hx).trans_le hstarted, List.forall_mem_singleton.2 hc⟩
  · rw [List.map_append, List.nodup_append']
    refine ⟨h.distinct, List.nodup_singleton _, fun x hx hx' => ?_⟩
    obtain ⟨y, hy, rfl⟩ := List.mem_map.1 hx
    exact hfresh y hy (List.mem_singleton.1 hx')
  · intro p hp htype
    rw [List.map_append]
    exact List.mem_append_left _ (h.known p hp htype)
  · refine List.forall_mem_append.2 ⟨fun x hx e' he' => ?_, List.forall_mem_singleton.2 ?_⟩
    · have hx : x.2 ∈ s.chain x.1 := mem_chain.2 hx
      by_cases hd : x.1 = c
      · have hnone := hchain x.2 (hd ▸ hx)
        cases hnone.symm.trans he'
      · exact h.value x (mem_chain.1 hx) e' ((hkeep _ hd _ hx).symm.trans he')
    · intro e' he'
      cases hset.1.symm.trans he'
      exact hset.2.1
  · by_cases hd : d = c
    · subst hd
      rw [hself, List.dropLast_concat] at hp
      exact hchain p hp
    · rw [hother d hd] at hp
      exact (hkeep d hd p (List.mem_of_mem_dropLast hp)).trans (h.rotated d p hp)
  · by_cases hd : d = c
    · subst hd
      rw [hself, List.getLast?_concat] at hp
      cases hp
      exact ⟨e, hset.1, hset.2.2⟩
    · rw [hother d hd] at hp
      obtain ⟨e', he', hle⟩ := h.live d p hp hout
      exact ⟨e', (hkeep d hd p (List.mem_of_getLast? hp)).trans he', hle⟩
  · by_cases hd : d = c
    · subst hd
      rw [hself, List.getLast?_concat] at hp
      cases hp
      -- a token that has been passed to `logout` is an old one
      obtain ⟨x, hx, hxq⟩ := List.mem_map.1 (h.known q hout hq.1)
      exact absurd (congrArg Payload.jti hxq) (hfresh x hx)
    · rw [hother d hd] at hp
      exact (h.dead d p hp hout).imp ((hkeep d hd p (List.mem_of_getLast? hp)).trans) id

/-- A token is passed to `logout`: its key is gone, or it has expired. -/
theorem Chained.revoke (h : Chained env s) (hg : s.Genuine token) {redis : Store UUID UUID Instant}
    (hsub : ∀ x, redis x = s.redis x ∨ redis x = none)
    (hother : ∀ c, ∀ p ∈ s.chain c, .signed p ≠ token → redis p.jti = s.redis p.jti)
    (hself : ∀ c, ∀ p ∈ s.chain c, .signed p = token → redis p.jti = none ∨
      p.exp * second ≤ s.now) :
    Chained env { s with redis, loggedOut := s.loggedOut ++ [token] } := by
  have hnone : ∀ {x}, s.redis x = none → redis x = none := fun {x} hx => by
    rcases hsub x with he | he
    · rw [he, hx]
    · exact he
  refine ⟨h.refresh, h.numbered, h.days, h.distinct, fun p hp htype => ?_, fun x hx e he => ?_,
    fun c p hp => hnone (h.rotated c p hp), fun c p hp hout => ?_, fun c p hp hout => ?_⟩
  · rcases List.mem_append.1 hp with hp | hp
    · exact h.known p hp htype
    · obtain rfl := List.mem_singleton.1 hp
      exact hg htype
  · rcases hsub x.2.jti with he' | he'
    · exact h.value x hx e (he'.symm.trans he)
    · cases he'.symm.trans he
  · obtain ⟨e, he, hle⟩ := h.live c p hp fun hin => hout (List.mem_append_left _ hin)
    have hne : .signed p ≠ token := fun heq => hout (List.mem_append_right _ (heq ▸ .head _))
    exact ⟨e, (hother c p (List.mem_of_getLast? hp) hne).trans he, hle⟩
  · rcases List.mem_append.1 hout with hout | hout
    · exact (h.dead c p hp hout).imp hnone id
    · exact hself c p (List.mem_of_getLast? hp) (List.mem_singleton.1 hout)

/-- A logout. -/
theorem Chained.logout (h : Chained env s) (hg : s.Genuine token) (hnow : s.now = inp.now) :
    Chained env { s with
      redis := ((AuthCall.logout token).exec env inp s.redis).2
      loggedOut := s.loggedOut ++ [token] } := by
  rw [logout_exec]
  cases hd : decodeToken inp.now .refresh token with
  | error e =>
    refine h.revoke hg (fun _ => .inl rfl) (fun _ _ _ _ => rfl) fun c p hp heq => .inr ?_
    subst heq
    by_contra hexp
    rw [hnow] at hexp
    cases hd.symm.trans (h.decodes hnow.le hp (not_le.1 hexp))
  | ok q =>
    obtain ⟨rfl, htype, -⟩ := decodeToken_ok hd
    obtain ⟨d, hq⟩ := hg.exists_chain htype
    dsimp only
    refine h.revoke hg (fun x => ?_) (fun c p hp hne => ?_) fun c p hp heq => .inl ?_
    · rw [Store.del_apply]
      split
      · exact .inr rfl
      · exact .inl rfl
    · rw [Store.del_apply, if_neg]
      intro hjti
      exact hne (congrArg _ (h.eq_of_jti hp hq hjti).2)
    · cases heq
      rw [Store.del_apply, if_pos rfl]

/-- The refresh token of a new pair, issued at the end of a chain whose other tokens have no key. -/
theorem Chained.issue (h : Chained env s) (hnow : s.now = inp.now) (userId : UUID)
    {redis : Store UUID UUID Instant} {started : ℕ}
    (hdays : 0 < env.settings.refreshTokenExpireDays)
    (hfresh : ∀ x ∈ s.issued, x.2.jti ≠ inp.uuids 1) (hstarted : s.started ≤ started)
    (hc : c < started) (hchain : ∀ p ∈ s.chain c, redis p.jti = none)
    (hkeep : ∀ d ≠ c, ∀ p ∈ s.chain d, redis p.jti = s.redis p.jti) :
    Chained env ⟨s.now, redis.set (inp.uuids 1)
        ⟨userId, inp.now + env.settings.refreshTokenExpireDays * day⟩,
      s.issued ++
        [(c, newPayload userId .refresh (env.settings.refreshTokenExpireDays * day) inp.now
        (inp.uuids 1))], started, s.loggedOut⟩ := by
  have hne : ∀ {d p}, p ∈ s.chain d → p.jti ≠ inp.uuids 1 := fun hp => hfresh _ (mem_chain.1 hp)
  refine h.append hdays hfresh ⟨rfl, ?_⟩ hstarted hc
    ⟨by rw [Store.set_apply]; exact if_pos rfl, rfl, ?_⟩
    (fun p hp => ?_) fun d hd p hp => ?_
  · rw [hnow]
    exact Int.ediv_mul_le _ (by decide)
  · exact Int.ediv_mul_le _ (by decide)
  · rw [Store.set_apply, if_neg (hne hp)]
    exact hchain p hp
  · rw [Store.set_apply, if_neg (hne hp)]
    exact hkeep d hd p hp

/-- The record finds the chain of a token. -/
theorem Chained.chainOf_eq (h : Chained env s) (hp : p ∈ s.chain c) : s.chainOf p = some c := by
  unfold chainOf
  cases hf : s.issued.find? (·.2 = p) with
  | none =>
    have := List.find?_eq_none.1 hf (c, p) (mem_chain.1 hp)
    simp at this
  | some x =>
    obtain ⟨d, q⟩ := x
    obtain rfl : q = p := by simpa using List.find?_some hf
    obtain ⟨rfl, -⟩ := h.eq_of_jti hp (mem_chain.2 (List.mem_of_find?_eq_some hf)) rfl
    rfl

theorem record_refresh_error (s : TokenChains) (token : Token) (e : DomainError) :
    s.record (.refresh token) (.error e) = s := by
  cases token <;> rfl

/-- A login. -/
theorem Chained.login (h : Chained env s) (hnow : s.now = inp.now)
    (hfresh : ∀ x ∈ s.issued, x.2.jti ≠ inp.uuids 1) (email password : String) :
    Chained env ({ s with redis := ((AuthCall.login email password).exec env inp s.redis).2 }.record
      (.login email password) ((AuthCall.login email password).exec env inp s.redis).1) := by
  rw [login_exec]
  cases inp.users.find? (·.email = email) with
  | none => exact h
  | some user =>
    dsimp only
    split
    · exact h
    · split
      · exact h
      · unfold Api.issue
        split
        · next hdays =>
          have hnew : s.chain s.started = [] := by
            refine List.eq_nil_iff_forall_not_mem.2 fun p hp => ?_
            exact (h.numbered _ (mem_chain.1 hp)).false
          exact h.issue hnow user.id hdays hfresh (Nat.le_succ _) (Nat.lt_succ_self _)
            (by rw [hnew]; exact List.forall_mem_nil _) fun _ _ _ _ => rfl
        · exact h

/-- A refresh. -/
theorem Chained.refresh_step (h : Chained env s) (hnow : s.now = inp.now)
    (hfresh : ∀ x ∈ s.issued, x.2.jti ≠ inp.uuids 1) (hg : s.Genuine token) :
    Chained env ({ s with redis := ((AuthCall.refresh token).exec env inp s.redis).2 }.record
      (.refresh token) ((AuthCall.refresh token).exec env inp s.redis).1) := by
  rw [refresh_exec]
  cases hd : decodeToken inp.now .refresh token with
  | error e =>
    dsimp only
    rw [record_refresh_error]
    exact h
  | ok p =>
    obtain ⟨rfl, htype, -⟩ := decodeToken_ok hd
    obtain ⟨c, hp⟩ := hg.exists_chain htype
    dsimp only
    cases hk : s.redis.get inp.now p.jti with
    | none => exact h
    | some v =>
      obtain ⟨e, he, -⟩ := Store.get_eq_some.1 hk
      have hlast := h.last_of_key hp (he ▸ Option.some_ne_none e)
      have hdays := h.days (c, p) (mem_chain.1 hp)
      -- the token was the last of its chain, and its key is deleted
      have hchain : ∀ p' ∈ s.chain c, (s.redis.del p.jti) p'.jti = none := by
        intro p' hp'
        rw [Store.del_apply]
        split
        · rfl
        · next hne =>
          refine (mem_dropLast_or hp').elim (h.rotated c p') fun hl => absurd ?_ hne
          rw [Option.some.inj (hl.symm.trans hlast)]
      have hkeep : ∀ d ≠ c, ∀ p' ∈ s.chain d, (s.redis.del p.jti) p'.jti = s.redis p'.jti := by
        intro d hdc p' hp'
        rw [Store.del_apply, if_neg]
        exact fun hjti => hdc (h.eq_of_jti hp' hp hjti).1
      have hc : s.chainOf p = some c := h.chainOf_eq hp
      have hnew := h.issue hnow p.sub hdays hfresh le_rfl
        (h.numbered _ (mem_chain.1 hp)) hchain hkeep
      unfold chainOf at hc
      simp only [Api.issue, if_pos hdays, record, newPair, chainOf, hc]
      exact hnew

/-- **A call keeps the invariant.** -/
theorem Chained.step {op : AuthCall × AuthInput} (h : Chained env s) (ho : s.Honest op)
    (hs : s.step env op = some s') : Chained env s' := by
  obtain ⟨call, inp⟩ := op
  obtain ⟨hfresh, hgenuine⟩ := ho
  unfold TokenChains.step at hs
  dsimp only at hs
  split at hs
  · next hnow =>
    cases hs
    have hl : Chained env { s with now := inp.now } := h.later hnow
    cases call with
    | login email password => exact hl.login rfl hfresh email password
    | refresh token => exact hl.refresh_step rfl hfresh (hgenuine token rfl)
    | logout token => exact hl.logout (hgenuine token rfl) rfl
  · cases hs

/-! ## Closed chains -/

/-- What a call adds to the record: the first token of a chain, or one at the end of the chain of a
token with which a refresh has succeeded. -/
theorem record_issued (s : TokenChains) (call : AuthCall)
    (result : Except DomainError (Option TokenResponse)) :
    (s.record call result).issued = s.issued ∨
    ∃ c q, (s.record call result).issued = s.issued ++ [(c, q)] ∧
      (c = s.started ∨ ∃ old pair, call = .refresh (.signed old) ∧ result = .ok (some pair) ∧
        s.chainOf old = some c) := by
  unfold record
  split
  · exact .inr ⟨_, _, rfl, .inl rfl⟩
  · split
    · next c hc => exact .inr ⟨c, _, rfl, .inr ⟨_, _, rfl, rfl, hc⟩⟩
    · exact .inl rfl
  · exact .inl rfl
  · exact .inl rfl

/-- A logout is not forgotten. -/
theorem mem_loggedOut_record (s : TokenChains) (call : AuthCall)
    (result : Except DomainError (Option TokenResponse)) (h : token ∈ s.loggedOut) :
    token ∈ (s.record call result).loggedOut := by
  unfold record
  split
  · exact h
  · split
    · exact h
    · exact h
  · exact List.mem_append_left _ h
  · exact h

/-- The chain `c` ends with a token that has been passed to `logout`. -/
def Closed (s : TokenChains) (c : ℕ) : Prop :=
  ∃ p, (s.chain c).getLast? = some p ∧ .signed p ∈ s.loggedOut

/-- **A closed chain gets no more tokens.** -/
theorem Chained.closed_step {op : AuthCall × AuthInput} (h : Chained env s) (ho : s.Honest op)
    (hs : s.step env op = some s') (hc : s.Closed c) : s'.chain c = s.chain c ∧ s'.Closed c := by
  obtain ⟨p, hp, hout⟩ := hc
  obtain ⟨call, inp⟩ := op
  unfold TokenChains.step at hs
  dsimp only at hs
  split at hs
  · next hnow =>
    cases hs
    suffices hchain : ∀ s' : TokenChains, s' = ({ s with
        now := inp.now, redis := (call.exec env inp s.redis).2 }.record call
          (call.exec env inp s.redis).1) → s'.chain c = s.chain c by
      have he := hchain _ rfl
      exact ⟨he, p, he ▸ hp, mem_loggedOut_record _ _ _ hout⟩
    rintro s' hs'
    have hmem : p ∈ s.chain c := List.mem_of_getLast? hp
    have hissued := record_issued
      { s with now := inp.now, redis := (call.exec env inp s.redis).2 } call
      (call.exec env inp s.redis).1
    rw [← hs'] at hissued
    unfold chain
    rcases hissued with he | ⟨d, q, he, hd⟩
    · rw [he]
    · have hne : d ≠ c := by
        rintro rfl
        rcases hd with hd | ⟨old, pair, rfl, hok, hof⟩
        · exact (h.numbered _ (mem_chain.1 hmem)).ne hd
        · -- the refresh was given the last token of its chain, which is closed
          have hacc : Accepts env s inp (.signed old) := ⟨pair, hok⟩
          obtain ⟨c', p', hp', -, -, hlast, hnot⟩ :=
            (h.accepts_iff hnow (ho.2 _ rfl)).1 hacc
          cases hp'
          have hof' := h.chainOf_eq (List.mem_of_getLast? hlast)
          cases hof.symm.trans hof'
          cases hp.symm.trans hlast
          exact hnot hout
      rw [he, List.filter_append]
      simp [hne]
  · cases hs

/-- No token of a closed chain is accepted. -/
theorem Chained.closed_rejects (h : Chained env s) (hc : s.Closed c) (hp : p ∈ s.chain c)
    (hnow : s.now ≤ inp.now) : ¬ Accepts env s inp (.signed p) := by
  intro hacc
  have hg : s.Genuine (.signed p) := fun _ => List.mem_map.2 ⟨(c, p), mem_chain.1 hp, rfl⟩
  obtain ⟨d, p', hp', -, -, hlast, hnot⟩ := (h.accepts_iff hnow hg).1 hacc
  cases hp'
  obtain ⟨rfl, -⟩ := h.eq_of_jti hp (List.mem_of_getLast? hlast) rfl
  obtain ⟨q, hq, hout⟩ := hc
  cases hq.symm.trans hlast
  exact hnot hout

end

/-- **Chains of refresh tokens.** Take a run of logins, refreshes and logouts, one at a time, in
which new tokens get fresh identifiers and no signature is forged. At every later time a chain has
one live key at most, which holds the `sub` of its token. A refresh succeeds exactly with an
unexpired token that is the last of its chain and has not been passed to `logout`. Once the last
token of a chain has been, the chain gets no more tokens, and none of its tokens is ever accepted
again. A logout with any other text, a token that has been exchanged, an expired token or an access
token, leaves Redis as it is. -/
theorem refresh_chains (env : AuthEnv) (start : Instant) (ops : List (AuthCall × AuthInput))
    (s : TokenChains) (hh : Along (step env) Honest (init start) ops)
    (hr : run (step env) (init start) ops = some s) :
    (∀ now, s.now ≤ now → s.OneLiveKey now) ∧
    (∀ inp token, s.now ≤ inp.now → s.Genuine token →
      (Accepts env s inp token ↔ s.Current inp.now token)) ∧
    (∀ c, s.Closed c → ∀ later s', Along (step env) Honest s later →
      run (step env) s later = some s' → s'.chain c = s.chain c ∧
        ∀ p ∈ s.chain c, ∀ inp, s'.now ≤ inp.now → ¬ Accepts env s' inp (.signed p)) ∧
    ∀ inp token, s.now ≤ inp.now → s.Useless inp.now token →
      (AuthCall.logout token).exec env inp s.redis = (.ok none, s.redis) := by
  have h : Chained env s :=
    run_inv_along (fun h ho hs => h.step ho hs) hh hr (chained_init env start)
  refine ⟨fun now _ => h.oneLiveKey now, fun inp token hnow hg => h.accepts_iff hnow hg, ?_,
    fun inp token _ hu => h.logout_useless hu⟩
  intro c hc later s' hh' hr'
  have hclosed : Chained env s' ∧ s'.Closed c ∧ s'.chain c = s.chain c := by
    refine run_inv_along (I := fun s' => Chained env s' ∧ s'.Closed c ∧ s'.chain c = s.chain c)
      ?_ hh' hr' ⟨h, hc, rfl⟩
    rintro t op t' ⟨ht, htc, heq⟩ ho hs
    obtain ⟨he, hc'⟩ := ht.closed_step ho hs htc
    exact ⟨ht.step ho hs, hc', he.trans heq⟩
  obtain ⟨h', hc', heq⟩ := hclosed
  exact ⟨heq, fun p hp inp hnow => h'.closed_rejects hc' (heq ▸ hp) hnow⟩

/-- What a call reads at a second; the identifiers that it draws are `100` times the second and
up. -/
def atSecond (t : ℕ) : AuthInput :=
  ⟨t * second, fun i => ⟨100 * t + i⟩, [⟨⟨7⟩, "ann", "secret", true⟩]⟩

/-- The refresh token that the user `7` is issued at a second. -/
def issuedAt (t : ℕ) : Payload :=
  newPayload ⟨7⟩ .refresh (7 * day) (t * second) ⟨100 * t + 1⟩

/-- A login, a refresh and a logout. -/
def loggedOutChain : List (AuthCall × AuthInput) :=
  [(.login "ann" "secret", atSecond 1), (.refresh (.signed (issuedAt 1)), atSecond 2),
    (.logout (.signed (issuedAt 2)), atSecond 3)]

/-- Neither token of a chain is accepted after the logout of the second. -/
theorem refresh_chains_loggedOut : ∃ s, run (step plainEnv) (init 0) loggedOutChain = some s ∧
    s.chain 0 = [issuedAt 1, issuedAt 2] ∧
    ∀ p ∈ s.chain 0, ¬ Accepts plainEnv s (atSecond 4) (.signed p) := by
  obtain ⟨s, hs, hchain, hout, hnow⟩ : ∃ s, run (step plainEnv) (init 0) loggedOutChain = some s ∧
      s.chain 0 = [issuedAt 1, issuedAt 2] ∧ .signed (issuedAt 2) ∈ s.loggedOut ∧
      s.now ≤ 4 * second := exists_of_run (by decide +kernel)
  have hclosed : s.Closed 0 := ⟨issuedAt 2, by rw [hchain]; rfl, hout⟩
  obtain ⟨-, -, hdead, -⟩ := refresh_chains plainEnv 0 loggedOutChain s (by decide +kernel) hs
  exact ⟨s, hs, hchain, fun p hp => (hdead 0 hclosed [] s trivial rfl).2 p hp (atSecond 4) hnow⟩

end TokenChains

end EventSphere.Api
