import EventSphere.Api.AuthService

/-!
# Refresh tokens are used once

A refresh looks its key up, deletes it and issues a new pair: three commands, of which the second
does not say whether it deleted anything. So two refreshes of one token that overlap both succeed,
and a refresh that has found its key survives a logout. `refresh_single_use` says that nothing else
goes wrong: if no refresh finds the key while another one has found it and not deleted it, and no
logout deletes the key under a refresh that has found it, a token is exchanged at most once, and
never after its logout. `refreshed_twice` is the run of two overlapping refreshes.
-/

namespace EventSphere.Api

/-! ## What is left of a program -/

/-- The program goes on to issue a pair. -/
def AuthProg.Issues : AuthProg (Option TokenResponse) → Prop
  | .now k => ∀ t, (k t).Issues
  | .uuid4 k => ∀ i, (k i).Issues
  | .redisSet _ _ _ k => ∃ a, k = .ret a
  | .raise _ => True
  | _ => False

/-- The program deletes the key and goes on to issue a pair. -/
def AuthProg.Rotates (x : UUID) : AuthProg (Option TokenResponse) → Prop
  | .redisDelete x' k => x' = x ∧ k.Issues
  | _ => False

/-- The program of a refresh that has not found its key. -/
def AuthProg.Asks (token : Token) : AuthProg (Option TokenResponse) → Prop
  | .now k => ∀ t, (k t).Asks token
  | .raise _ => True
  | .redisGet x k => token.jti = some x ∧ (∃ e, k none = .raise e) ∧ ∀ v, (k (some v)).Rotates x
  | _ => False

/-- The program of a logout. -/
def AuthProg.Revokes (token : Token) : AuthProg (Option TokenResponse) → Prop
  | .now k => ∀ t, (k t).Revokes token
  | .redisDelete x k => token.jti = some x ∧ ∃ a, k = .ret a
  | .ret _ => True
  | _ => False

/-- The program of a login. -/
def AuthProg.SignsIn : AuthProg (Option TokenResponse) → Prop
  | .getByEmail _ k => ∀ u, (k u).Issues
  | p => p.Issues

/-- The program of a request is where its stage says. -/
def AuthRequest.Shaped : AuthRequest → Prop
  | running (.refresh token) p .before => p.Asks token
  | running (.refresh token) p .found => ∃ x, token.jti = some x ∧ p.Rotates x
  | running (.refresh token) p .deleted => (∃ x, token.jti = some x) ∧ p.Issues
  | running (.login ..) p .before => p.SignsIn
  | running (.logout token) p _ => p.Revokes token
  | running _ p .issued => ∃ a, p = .ret a
  | running (.login ..) _ _ => False
  | _ => True

/-- The end of every method that issues a pair. -/
theorem issueTokens_issues (settings : TokenSettings) (userId : UUID) :
    (issueTokens settings userId >>= fun r => AuthProg.ret (some r)).Issues := by
  simp only [issueTokens, createToken, decode, AuthProg.now_bind, AuthProg.uuid4_bind,
    AuthProg.ret_bind, AuthProg.pure_eq]
  intro t i t' i' t''
  dsimp only
  cases decodeToken t'' .refresh
    (.signed (newPayload userId .refresh (settings.refreshTokenExpireDays * day) t' i')) with
  | error e => trivial
  | ok payload => exact ⟨_, rfl⟩

/-- Every program starts in its first stage. -/
theorem AuthCall.body_shaped (env : AuthEnv) (call : AuthCall) :
    (AuthRequest.running call (call.body env) .before).Shaped := by
  cases call with
  | login email password =>
    simp only [AuthCall.body, Api.login, AuthProg.getByEmail_bind, AuthProg.ret_bind]
    intro user
    cases user with
    | none => trivial
    | some user =>
      dsimp only
      split
      · trivial
      · split
        · trivial
        · exact issueTokens_issues env.settings user.id
  | refresh token =>
    simp only [AuthCall.body, Api.refresh, decode, AuthProg.now_bind, AuthProg.ret_bind]
    intro t
    dsimp only
    cases h : decodeToken t .refresh token with
    | error e => trivial
    | ok payload =>
      refine ⟨?_, ⟨_, rfl⟩, fun v => ⟨rfl, issueTokens_issues env.settings payload.sub⟩⟩
      rw [decodeToken_eq_ok h]
      rfl
  | logout token =>
    simp only [AuthCall.body, Api.logout, AuthProg.now_bind, AuthProg.ret_bind]
    intro t
    dsimp only
    cases h : decodeToken t .refresh token with
    | error e => trivial
    | ok payload =>
      refine ⟨?_, _, rfl⟩
      rw [decodeToken_eq_ok h]
      rfl

/-! ## The schedule -/

/-- The stage of a refresh of the token `x`. -/
def AuthRequest.stageAt (x : UUID) : AuthRequest → Option KeyStage
  | running (.refresh token) _ stage => if token.jti = some x then some stage else none
  | _ => none

/-- A refresh of the token `x` that has found its key and not issued its pair. -/
def AuthRequest.Open (x : UUID) (r : AuthRequest) : Prop :=
  r.stageAt x = some .found ∨ r.stageAt x = some .deleted

instance (x : UUID) (r : AuthRequest) : Decidable (r.Open x) := inferInstanceAs (Decidable (_ ∨ _))

/-- The token of an event. -/
def AuthEvent.jti : AuthEvent → UUID
  | exchanged _ x | revoked _ x => x

/-- The request that runs its next operation. -/
def AuthState.acting (s : AuthState) : AuthAction → Option AuthRequest
  | .advance j _ => s.requests[j]?
  | _ => none

/-- The key that the step writes. -/
def AuthState.setting (s : AuthState) (a : AuthAction) : Option UUID :=
  match s.acting a with
  | some (.running _ (.redisSet x _ _ _) _) => some x
  | _ => none

/-- The key that a refresh finds with the step. -/
def AuthState.finding (s : AuthState) (a : AuthAction) : Option UUID :=
  match s.acting a with
  | some (.running (.refresh _) (.redisGet x _) _) =>
    if (s.redis.get s.now x).isSome then some x else none
  | _ => none

/-- The key that a logout deletes with the step. -/
def AuthState.revoking (s : AuthState) (a : AuthAction) : Option UUID :=
  match s.acting a with
  | some (.running (.logout _) (.redisDelete x _) _) => some x
  | _ => none

/-- Identifiers are random: the token of a new pair is none that has been presented. -/
def FreshJti (s : AuthState) (a : AuthAction) : Prop :=
  ∀ x ∈ s.setting a, ∀ r ∈ s.requests, r.call.jti ≠ some x

/-- The condition on a step. A refresh does not find the key of a token while another refresh has
found it and not yet deleted it, and a logout does not delete the key while a refresh that has found
it has not yet issued its pair. -/
def Undisturbed (s : AuthState) (a : AuthAction) : Prop :=
  (∀ x ∈ s.finding a, ∀ r ∈ s.requests, r.stageAt x ≠ some .found) ∧
  ∀ x ∈ s.revoking a, ∀ r ∈ s.requests, ¬r.Open x

instance (s : AuthState) (a : AuthAction) : Decidable (FreshJti s a) :=
  inferInstanceAs (Decidable (∀ x ∈ s.setting a, ∀ r ∈ s.requests, r.call.jti ≠ some x))

instance (s : AuthState) (a : AuthAction) : Decidable (Undisturbed s a) :=
  inferInstanceAs (Decidable ((∀ x ∈ s.finding a, ∀ r ∈ s.requests, r.stageAt x ≠ some .found) ∧
    ∀ x ∈ s.revoking a, ∀ r ∈ s.requests, ¬r.Open x))

/-! ## The invariant -/

/-- The invariant for one token `x`. -/
structure Rotated (x : UUID) (s : AuthState) : Prop where
  shaped : ∀ {j : ℕ} {r : AuthRequest}, s.requests[j]? = some r → r.Shaped
  /-- At most one refresh is open. -/
  unique : ∀ {j k : ℕ} {r r' : AuthRequest}, s.requests[j]? = some r → s.requests[k]? = some r' →
    r.Open x → r'.Open x → j = k
  /-- While one is, nobody has exchanged or revoked the token. -/
  unspent : ∀ {j : ℕ} {r : AuthRequest}, s.requests[j]? = some r → r.Open x →
    ∀ e ∈ s.history, e.jti ≠ x
  /-- A refresh that has deleted the key does not leave it behind. -/
  deleted : ∀ {j : ℕ} {r : AuthRequest}, s.requests[j]? = some r →
    r.stageAt x = some .deleted → s.redis x = none
  /-- Nor do the exchanges and logouts of the past. -/
  spent : ∀ e ∈ s.history, e.jti = x → s.redis x = none
  /-- The token of an event has been presented. -/
  presented : ∀ e ∈ s.history, e.jti = x → ∃ r ∈ s.requests, r.call.jti = some x
  once : ∀ j k, .exchanged j x ∈ s.history → .exchanged k x ∈ s.history → j = k
  ordered : ∀ h₁ h₂ j, s.history = h₁ ++ .revoked j x :: h₂ → ∀ k, .exchanged k x ∉ h₂

section
variable {x : UUID} {env : AuthEnv} {s s' : AuthState} {j : ℕ} {r r' : AuthRequest}

theorem AuthRequest.jti_of_stageAt {stage : KeyStage} (h : r.stageAt x = some stage) :
    r.call.jti = some x := by
  cases r with
  | running call p st =>
    cases call with
    | refresh token =>
      simp only [stageAt] at h
      split at h
      · next hx => exact hx
      · cases h
    | _ => cases h
  | _ => cases h

/-- **The rule of moves.** What has to be checked when a request moves. -/
theorem Rotated.move (h : Rotated x s) (r' : AuthRequest) (hj : s.requests[j]? = some r)
    (hcall : r'.call = r.call) (hshaped : r'.Shaped)
    {redis : Store UUID UUID Instant} {history : List AuthEvent}
    (hopen : r'.Open x → (∀ k r'', s.requests[k]? = some r'' → r''.Open x → k = j) ∧
      ∀ e ∈ history, e.jti ≠ x)
    (hothers : ∀ k ≠ j, ∀ r'', s.requests[k]? = some r'' → r''.Open x → ∀ e ∈ history, e.jti ≠ x)
    (hredis : ∀ r'' ∈ s.requests, r''.call.jti = some x →
      (r'.stageAt x = some .deleted ∨ s.redis x = none) → redis x = none)
    (hspent : ∀ e ∈ history, e.jti = x → redis x = none ∧ ∃ r ∈ s.requests, r.call.jti = some x)
    (honce : ∀ i k, .exchanged i x ∈ history → .exchanged k x ∈ history → i = k)
    (hordered : ∀ h₁ h₂ i, history = h₁ ++ .revoked i x :: h₂ → ∀ k, .exchanged k x ∉ h₂) :
    Rotated x ⟨s.now, redis, s.users, s.requests.set j r', history⟩ := by
  refine ⟨?_, ?_, ?_, ?_, fun e he hx => (hspent e he hx).1, ?_, honce, hordered⟩
  · intro k r'' hk
    rcases getElem?_set_inv hk with ⟨-, rfl⟩ | ⟨-, hk⟩
    · exact hshaped
    · exact h.shaped hk
  · intro k k' r₁ r₂ hk hk' ho ho'
    rcases getElem?_set_inv hk with ⟨rfl, rfl⟩ | ⟨hne, hk₁⟩ <;>
      rcases getElem?_set_inv hk' with ⟨rfl, rfl⟩ | ⟨hne', hk₂⟩
    · rfl
    · exact ((hopen ho).1 _ _ hk₂ ho').symm
    · exact (hopen ho').1 _ _ hk₁ ho
    · exact h.unique hk₁ hk₂ ho ho'
  · intro k r'' hk ho
    rcases getElem?_set_inv hk with ⟨-, rfl⟩ | ⟨hne, hk⟩
    · exact (hopen ho).2
    · exact hothers k hne r'' hk ho
  · intro k r'' hk hdel
    rcases getElem?_set_inv hk with ⟨-, rfl⟩ | ⟨hne, hk⟩
    · refine hredis r (List.mem_of_getElem? hj) ?_ (.inl hdel)
      rw [← hcall]
      exact AuthRequest.jti_of_stageAt hdel
    · exact hredis r'' (List.mem_of_getElem? hk) (AuthRequest.jti_of_stageAt hdel)
        (.inr (h.deleted hk hdel))
  · intro e he hx
    obtain ⟨-, r'', hmem, hjti⟩ := hspent e he hx
    obtain ⟨k, hk⟩ := List.getElem?_of_mem hmem
    by_cases hkj : k = j
    · subst hkj
      cases hj.symm.trans hk
      refine ⟨r', List.mem_of_getElem? (i := k) ?_, hcall ▸ hjti⟩
      rw [getElem?_set_of_getElem? hj, if_pos rfl]
    · refine ⟨r'', List.mem_of_getElem? (i := k) ?_, hjti⟩
      rw [getElem?_set_of_getElem? hj, if_neg hkj]
      exact hk

/-- A request that moves without touching its key. -/
theorem Rotated.quiet (h : Rotated x s) (r' : AuthRequest) (hj : s.requests[j]? = some r)
    (hcall : r'.call = r.call) (hshaped : r'.Shaped)
    (hstage : r'.stageAt x = r.stageAt x ∨ r'.stageAt x = none) :
    Rotated x (s.put j r') := by
  have hback : ∀ {stage}, r'.stageAt x = some stage → r.stageAt x = some stage := by
    intro stage hst
    rcases hstage with he | he
    · exact he ▸ hst
    · rw [he] at hst; cases hst
  have hopen : r'.Open x → r.Open x := Or.imp hback hback
  refine h.move r' hj hcall hshaped (fun ho => ⟨fun k r'' hk ho' => ?_, ?_⟩)
    (fun k _ r'' hk ho => h.unspent hk ho) (fun r'' _ _ hor => ?_)
    (fun e he hx => ⟨h.spent e he hx, h.presented e he hx⟩) h.once h.ordered
  · exact h.unique hk hj ho' (hopen ho)
  · exact h.unspent hj (hopen ho)
  · exact hor.elim (fun hdel => h.deleted hj (hback hdel)) id

/-! ## The commands -/

variable {token : Token} {y : UUID} {k : AuthProg (Option TokenResponse)}

theorem stageAt_refresh (p : AuthProg (Option TokenResponse)) (stage : KeyStage)
    (hy : token.jti = some y) :
    (AuthRequest.running (.refresh token) p stage).stageAt x =
      if y = x then some stage else none := by
  simp [AuthRequest.stageAt, hy]

/-- The `GET` of a refresh finds its key. -/
theorem Rotated.found {f : Option UUID → AuthProg (Option TokenResponse)} {v : UUID}
    (h : Rotated x s)
    (hj : s.requests[j]? = some (.running (.refresh token) (.redisGet y f) .before))
    (hy : token.jti = some y) (hk : (f (some v)).Rotates y)
    (hlive : s.redis.get s.now y = some v) (hc : ∀ r ∈ s.requests, r.stageAt y ≠ some .found) :
    Rotated x (s.put j (.running (.refresh token) (f (some v)) .found)) := by
  have hshaped : (AuthRequest.running (.refresh token) (f (some v)) .found).Shaped := ⟨y, hy, hk⟩
  by_cases hyx : y = x
  · subst hyx
    -- the key is there, so nobody has deleted it for good
    have hkey : s.redis y ≠ none := by
      obtain ⟨e, he, -, -⟩ := Store.get_eq_some.1 hlive
      rw [he]
      exact nofun
    have hclosed : ∀ {k : ℕ} {r : AuthRequest}, s.requests[k]? = some r → ¬r.Open y := by
      rintro k r hk (ho | ho)
      · exact hc r (List.mem_of_getElem? hk) ho
      · exact hkey (h.deleted hk ho)
    refine h.move (.running (.refresh token) (f (some v)) .found) hj rfl hshaped
      (fun _ => ⟨fun k r hk ho => absurd ho (hclosed hk), ?_⟩)
      (fun k _ r hk ho => absurd ho (hclosed hk)) (fun r _ _ hor => ?_)
      (fun e he hx => ⟨h.spent e he hx, h.presented e he hx⟩) h.once h.ordered
    · exact fun e he hx => hkey (h.spent e he hx)
    · rcases hor with hdel | hnone
      · rw [stageAt_refresh _ _ hy, if_pos rfl] at hdel
        cases hdel
      · exact hnone
  · refine h.quiet (.running (.refresh token) (f (some v)) .found) hj rfl hshaped (.inr ?_)
    rw [stageAt_refresh _ _ hy, if_neg hyx]

/-- The `DEL` of a refresh. -/
theorem Rotated.rotate (h : Rotated x s)
    (hj : s.requests[j]? = some (.running (.refresh token) (.redisDelete y k) .found))
    (hy : token.jti = some y) (hk : k.Issues) :
    Rotated x { s.put j (.running (.refresh token) k .deleted) with redis := s.redis.del y } := by
  have hshaped : (AuthRequest.running (.refresh token) k .deleted).Shaped := ⟨⟨y, hy⟩, hk⟩
  have hopen : (AuthRequest.running (.refresh token) k .deleted).Open x →
      (AuthRequest.running (.refresh token) (.redisDelete y k) .found).Open x := by
    intro ho
    refine .inl ?_
    rw [stageAt_refresh _ _ hy]
    split
    · rfl
    · next hne => simp [AuthRequest.Open, stageAt_refresh _ _ hy, hne] at ho
  have hdel : s.redis x = none → s.redis.del y x = none := by
    intro hnone
    rw [Store.del_apply]
    split
    · rfl
    · exact hnone
  refine h.move (.running (.refresh token) k .deleted) hj rfl hshaped
    (fun ho => ⟨fun k r hk ho' => ?_, h.unspent hj (hopen ho)⟩)
    (fun k _ r hk ho => h.unspent hk ho) (fun r _ _ hor => ?_)
    (fun e he hx => ⟨hdel (h.spent e he hx), h.presented e he hx⟩) h.once h.ordered
  · exact h.unique hk hj ho' (hopen ho)
  · refine hor.elim (fun hstage => ?_) hdel
    rw [stageAt_refresh _ _ hy] at hstage
    split at hstage
    · next he => rw [Store.del_apply, if_pos he.symm]
    · cases hstage

/-- An event of the other kind at the end, or of another token, changes nothing in the order. -/
theorem ordered_concat {history : List AuthEvent} {e : AuthEvent}
    (h : ∀ h₁ h₂ i, history = h₁ ++ .revoked i x :: h₂ → ∀ k, .exchanged k x ∉ h₂)
    (he : (∀ k, e ≠ .exchanged k x) ∨ ∀ e' ∈ history, e'.jti ≠ x) (h₁ h₂ : List AuthEvent) (i : ℕ)
    (heq : history ++ [e] = h₁ ++ .revoked i x :: h₂) (k : ℕ) : .exchanged k x ∉ h₂ := by
  rcases List.eq_nil_or_concat h₂ with rfl | ⟨h₂, e', rfl⟩
  · exact List.not_mem_nil
  · rw [List.concat_eq_append, ← List.cons_append, ← List.append_assoc] at heq
    obtain ⟨rfl, heq⟩ := List.append_inj' heq rfl
    obtain rfl : e = e' := by simpa using heq
    rw [List.concat_eq_append, List.mem_append, List.mem_singleton]
    rintro (hmem | rfl)
    · exact h _ _ _ rfl k hmem
    · rcases he with he | he
      · exact he k rfl
      · exact he (.revoked i x) (by simp) rfl

/-- The `DEL` of a logout. -/
theorem Rotated.revoke {stage : KeyStage} {a : Option TokenResponse} (h : Rotated x s)
    (hj : s.requests[j]? = some (.running (.logout token) (.redisDelete y (.ret a)) stage))
    (hy : token.jti = some y) (hc : ∀ r ∈ s.requests, ¬r.Open y) :
    Rotated x { s.put j (.running (.logout token) (.ret a) .deleted) with
      redis := s.redis.del y, history := s.history ++ [AuthEvent.revoked j y] } := by
  have hevent : ∀ e ∈ s.history ++ [AuthEvent.revoked j y], e.jti = x → e ∈ s.history ∨ y = x := by
    intro e he hx
    rcases List.mem_append.1 he with he | he
    · exact .inl he
    · rw [List.mem_singleton] at he
      subst he
      exact .inr hx
  have hdel : s.redis x = none ∨ y = x → s.redis.del y x = none := by
    intro hor
    rw [Store.del_apply]
    split
    · rfl
    · next hne => exact hor.resolve_right fun he => hne he.symm
  have hunspent : ∀ {k : ℕ} {r : AuthRequest}, s.requests[k]? = some r → r.Open x →
      ∀ e ∈ s.history ++ [AuthEvent.revoked j y], e.jti ≠ x := by
    intro k r hk ho e he hx
    rcases hevent e he hx with he | rfl
    · exact h.unspent hk ho e he hx
    · exact hc r (List.mem_of_getElem? hk) ho
  have hold : ∀ {i}, .exchanged i x ∈ s.history ++ [AuthEvent.revoked j y] →
      .exchanged i x ∈ s.history := by
    intro i hi
    simpa using hi
  refine h.move (.running (.logout token) (.ret a) .deleted) hj rfl trivial
    (fun ho => by rcases ho with ho | ho <;> cases ho)
    (fun k _ r hk ho => hunspent hk ho) (fun r _ _ hor => ?_) (fun e he hx => ?_)
    (fun i k hi hk => h.once i k (hold hi) (hold hk)) (ordered_concat h.ordered (.inl nofun))
  · exact hdel (.inl (hor.resolve_left nofun))
  · rcases hevent e he hx with he | rfl
    · exact ⟨hdel (.inl (h.spent e he hx)), h.presented e he hx⟩
    · exact ⟨hdel (.inr rfl), _, List.mem_of_getElem? hj, hy⟩

/-- The `SET` of a new token leaves every presented one alone. -/
theorem set_of_presented {z v : UUID} {ttl : Instant}
    (hfresh : ∀ r ∈ s.requests, r.call.jti ≠ some z)
    (hp : ∃ r ∈ s.requests, r.call.jti = some x) (hnone : s.redis x = none) :
    s.redis.set z ⟨v, ttl⟩ x = none := by
  obtain ⟨r, hr, hjti⟩ := hp
  rw [Store.set_apply, if_neg]
  · exact hnone
  · rintro rfl
    exact hfresh r hr hjti

/-- The `SET` of a login. -/
theorem Rotated.signIn {email password : String} {stage : KeyStage} {z v : UUID} {ttl : Instant}
    {a : Option TokenResponse} (h : Rotated x s)
    (hj : s.requests[j]? =
      some (.running (.login email password) (.redisSet z v ttl (.ret a)) stage))
    (hfresh : ∀ r ∈ s.requests, r.call.jti ≠ some z) :
    Rotated x { s.put j (.running (.login email password) (.ret a) .issued) with
      redis := s.redis.set z ⟨v, s.now + ttl⟩ } := by
  refine h.move (.running (.login email password) (.ret a) .issued) hj rfl ⟨a, rfl⟩
    (fun ho => by rcases ho with ho | ho <;> cases ho)
    (fun k _ r hk ho => h.unspent hk ho) (fun r hr hjti hor => ?_)
      (fun e he hx => ?_) h.once h.ordered
  · exact set_of_presented hfresh ⟨r, hr, hjti⟩ (hor.resolve_left nofun)
  · exact ⟨set_of_presented hfresh (h.presented e he hx) (h.spent e he hx), h.presented e he hx⟩

/-- The `SET` of a refresh. -/
theorem Rotated.exchange {payload : Payload} {z v : UUID} {ttl : Instant} {a : Option TokenResponse}
    (h : Rotated x s)
    (hj : s.requests[j]? =
      some (.running (.refresh (.signed payload)) (.redisSet z v ttl (.ret a)) .deleted))
    (hfresh : ∀ r ∈ s.requests, r.call.jti ≠ some z) :
    Rotated x { s.put j (.running (.refresh (.signed payload)) (.ret a) .issued) with
      redis := s.redis.set z ⟨v, s.now + ttl⟩
      history := s.history ++ [AuthEvent.exchanged j payload.jti] } := by
  have hstage : (AuthRequest.running (.refresh (.signed payload)) (.redisSet z v ttl (.ret a))
      .deleted).stageAt x = if payload.jti = x then some .deleted else none :=
    stageAt_refresh _ _ rfl
  -- if the token is `x`, the request is the open one and nothing has happened to `x` yet
  have hself : payload.jti = x → ∀ e ∈ s.history, e.jti ≠ x := by
    intro he
    rw [if_pos he] at hstage
    exact h.unspent hj (.inr hstage)
  have hevent : ∀ e ∈ s.history ++ [AuthEvent.exchanged j payload.jti], e.jti = x →
      e ∈ s.history ∨ payload.jti = x := by
    intro e he hx
    rcases List.mem_append.1 he with he | he
    · exact .inl he
    · rw [List.mem_singleton] at he
      subst he
      exact .inr hx
  have hclosed : ¬(AuthRequest.running (.refresh (.signed payload)) (.ret a) .issued).Open x := by
    intro ho
    have hissued : (AuthRequest.running (.refresh (.signed payload)) (.ret a) .issued).stageAt x =
        if payload.jti = x then some .issued else none := stageAt_refresh _ _ rfl
    unfold AuthRequest.Open at ho
    rw [hissued] at ho
    split at ho <;> rcases ho with ho | ho <;> cases ho
  refine h.move (.running (.refresh (.signed payload)) (.ret a) .issued) hj rfl ⟨a, rfl⟩
    (fun ho => absurd ho hclosed) (fun k hne r hk ho e he hx => ?_)
    (fun r hr hjti hor => ?_) (fun e he hx => ?_) (fun i k hi hk => ?_)
    (ordered_concat h.ordered ?_)
  · rcases hevent e he hx with he | heq
    · exact h.unspent hk ho e he hx
    · rw [if_pos heq] at hstage
      exact hne (h.unique hk hj ho (.inr hstage))
  · exact set_of_presented hfresh ⟨r, hr, hjti⟩
      (hor.resolve_left fun hdel => hclosed (.inr hdel))
  · rcases hevent e he hx with he | heq
    · exact ⟨set_of_presented hfresh (h.presented e he hx) (h.spent e he hx), h.presented e he hx⟩
    · rw [if_pos heq] at hstage
      have hp : ∃ r ∈ s.requests, r.call.jti = some x :=
        ⟨_, List.mem_of_getElem? hj, AuthRequest.jti_of_stageAt hstage⟩
      exact ⟨set_of_presented hfresh hp (h.deleted hj hstage), hp⟩
  · by_cases heq : payload.jti = x
    · have hlast : ∀ {i}, .exchanged i x ∈ s.history ++ [AuthEvent.exchanged j payload.jti] →
          i = j := by
        intro i hi
        rcases List.mem_append.1 hi with hi | hi
        · exact absurd rfl (hself heq _ hi)
        · rw [List.mem_singleton] at hi
          cases hi
          rfl
      rw [hlast hi, hlast hk]
    · have hold : ∀ {i}, .exchanged i x ∈ s.history ++ [AuthEvent.exchanged j payload.jti] →
          .exchanged i x ∈ s.history := fun hi => (hevent _ hi rfl).resolve_right heq
      exact h.once i k (hold hi) (hold hk)
  · by_cases heq : payload.jti = x
    · exact .inr (hself heq)
    · refine .inl fun k he => heq ?_
      cases he
      rfl

/-! ## Every step -/

variable {uuid : UUID} {p : AuthProg (Option TokenResponse)} {stage : KeyStage}

/-- The next operation of a refresh. -/
theorem Rotated.next_refresh (h : Rotated x s)
    (hj : s.requests[j]? = some (.running (.refresh token) p stage))
    (hfresh : FreshJti s (.advance j uuid)) (hc : Undisturbed s (.advance j uuid)) :
    Rotated x (s.next j uuid (.refresh token) stage p) := by
  have hshaped := h.shaped hj
  cases stage with
  | before =>
    cases p with
    | now f => exact h.quiet _ hj rfl (hshaped s.now) (.inl rfl)
    | raise e => exact h.quiet (.done _ _) hj rfl trivial (.inr rfl)
    | redisGet y f =>
      obtain ⟨hy, ⟨e, he⟩, hk⟩ := hshaped
      simp only [AuthState.next]
      cases hv : s.redis.get s.now y with
      | some v =>
        refine h.found hj hy (hk v) hv (hc.1 y ?_)
        simp [AuthState.finding, AuthState.acting, hj, hv]
      | none =>
        refine h.quiet (.running (.refresh token) (f none) .before) hj rfl ?_ (.inl rfl)
        rw [he]
        trivial
    | _ => exact hshaped.elim
  | found =>
    obtain ⟨y, hy, hk⟩ := hshaped
    cases p with
    | redisDelete y' k =>
      obtain ⟨rfl, hk⟩ := hk
      exact h.rotate hj hy hk
    | _ => exact hk.elim
  | deleted =>
    obtain ⟨⟨y, hy⟩, hk⟩ := hshaped
    cases p with
    | now f => exact h.quiet _ hj rfl ⟨⟨y, hy⟩, hk s.now⟩ (.inl rfl)
    | uuid4 f => exact h.quiet _ hj rfl ⟨⟨y, hy⟩, hk uuid⟩ (.inl rfl)
    | raise e => exact h.quiet (.done _ _) hj rfl trivial (.inr rfl)
    | redisSet z v ttl k =>
      obtain ⟨a, rfl⟩ := hk
      cases token with
      | malformed => cases hy
      | signed payload =>
        refine h.exchange hj (hfresh z ?_)
        simp [AuthState.setting, AuthState.acting, hj]
    | _ => exact hk.elim
  | issued =>
    obtain ⟨a, rfl⟩ := hshaped
    exact h.quiet (.done _ _) hj rfl trivial (.inr rfl)

/-- The next operation of a logout. -/
theorem Rotated.next_logout (h : Rotated x s)
    (hj : s.requests[j]? = some (.running (.logout token) p stage))
    (hc : Undisturbed s (.advance j uuid)) :
    Rotated x (s.next j uuid (.logout token) stage p) := by
  have hshaped := h.shaped hj
  have hrevokes : p.Revokes token := by cases stage <;> exact hshaped
  cases p with
  | now f =>
    have hnext : (AuthRequest.running (.logout token) (f s.now) stage).Shaped := by
      cases stage <;> exact hrevokes s.now
    exact h.quiet _ hj rfl hnext (.inl rfl)
  | ret a => exact h.quiet (.done _ _) hj rfl trivial (.inr rfl)
  | redisDelete y k =>
    obtain ⟨hy, a, rfl⟩ := hrevokes
    refine h.revoke hj hy (hc.2 y ?_)
    simp [AuthState.revoking, AuthState.acting, hj]
  | _ => exact hrevokes.elim

/-- The next operation of a login. -/
theorem Rotated.next_login {email password : String} (h : Rotated x s)
    (hj : s.requests[j]? = some (.running (.login email password) p stage))
    (hfresh : FreshJti s (.advance j uuid)) :
    Rotated x (s.next j uuid (.login email password) stage p) := by
  have hshaped := h.shaped hj
  cases stage with
  | before =>
    -- a program that issues is also one of a login
    have hissues : ∀ {p : AuthProg (Option TokenResponse)}, p.Issues →
        (AuthRequest.running (.login email password) p .before).Shaped := by
      intro p hp
      cases p with
      | getByEmail => exact hp.elim
      | _ => exact hp
    cases p with
    | getByEmail e f => exact h.quiet _ hj rfl (hissues (hshaped _)) (.inl rfl)
    | now f => exact h.quiet _ hj rfl (hissues (hshaped s.now)) (.inl rfl)
    | uuid4 f => exact h.quiet _ hj rfl (hissues (hshaped uuid)) (.inl rfl)
    | raise e => exact h.quiet (.done _ _) hj rfl trivial (.inr rfl)
    | redisSet z v ttl k =>
      obtain ⟨a, rfl⟩ := hshaped
      refine h.signIn hj (hfresh z ?_)
      simp [AuthState.setting, AuthState.acting, hj]
    | _ => exact hshaped.elim
  | issued =>
    obtain ⟨a, rfl⟩ := hshaped
    exact h.quiet (.done _ _) hj rfl trivial (.inr rfl)
  | _ => exact hshaped.elim

/-- **Every step that meets the condition keeps the invariant.** -/
theorem Rotated.step {a : AuthAction} (h : Rotated x s) (hfresh : FreshJti s a)
    (hc : Undisturbed s a) (hs : s.step env a = some s') : Rotated x s' := by
  cases a with
  | tick d =>
    cases hs
    exact ⟨h.shaped, h.unique, h.unspent, h.deleted, h.spent, h.presented, h.once, h.ordered⟩
  | begin call =>
    cases hs
    have hnew : ¬(AuthRequest.running call (call.body env) .before).Open x := by
      intro ho
      cases call with
      | refresh token =>
        simp only [AuthRequest.Open, AuthRequest.stageAt] at ho
        split at ho <;> rcases ho with ho | ho <;> cases ho
      | _ => rcases ho with ho | ho <;> cases ho
    have hget : ∀ {k : ℕ} {r : AuthRequest},
        (s.requests ++ [.running call (call.body env) .before])[k]? = some r → r.Open x →
        s.requests[k]? = some r := by
      intro k r hk ho
      rcases getElem?_append_singleton hk with hk | ⟨-, rfl⟩
      · exact hk
      · exact absurd ho hnew
    refine ⟨fun hk => ?_, fun hk hk' ho ho' => h.unique (hget hk ho) (hget hk' ho') ho ho',
      fun hk ho => h.unspent (hget hk ho) ho,
      fun hk hdel => h.deleted (hget hk (.inr hdel)) hdel, h.spent, fun e he hx => ?_, h.once,
      h.ordered⟩
    · rcases getElem?_append_singleton hk with hk | ⟨-, rfl⟩
      · exact h.shaped hk
      · exact call.body_shaped env
    · obtain ⟨r, hr, hjti⟩ := h.presented e he hx
      exact ⟨r, List.mem_append_left _ hr, hjti⟩
  | fail j =>
    simp only [AuthState.step] at hs
    split at hs
    · next hj => cases hs; exact h.quiet (.failed _) hj rfl trivial (.inr rfl)
    · cases hs
  | advance j uuid =>
    simp only [AuthState.step] at hs
    split at hs
    · next call p stage hj =>
      cases hs
      cases call with
      | refresh token => exact h.next_refresh hj hfresh hc
      | logout token => exact h.next_logout hj hc
      | login email password => exact h.next_login hj hfresh
    · cases hs

end

/-- The state before the first request, with the sessions of the past. -/
def AuthState.initial (now : Instant) (redis : Store UUID UUID Instant) (users : List User) :
    AuthState :=
  { now, redis, users, requests := [], history := [] }

theorem rotated_initial (x : UUID) (now : Instant) (redis : Store UUID UUID Instant)
    (users : List User) : Rotated x (.initial now redis users) where
  shaped h := nomatch h
  unique h := nomatch h
  unspent h := nomatch h
  deleted h := nomatch h
  spent _ h := nomatch h
  presented _ h := nomatch h
  once _ _ h := nomatch h
  ordered h₁ _ _ h := by cases h₁ <;> cases h

/-- **Refresh tokens are single-use.** From any stored sessions, in every run in which new tokens
get fresh identifiers and every step meets the condition, each refresh token is exchanged by at most
one refresh, and by none after a logout has deleted its key. -/
theorem refresh_single_use (env : AuthEnv) (now : Instant) (redis : Store UUID UUID Instant)
    (users : List User) (as : List AuthAction) (s : AuthState)
    (hfresh : Along (AuthState.step env) FreshJti (.initial now redis users) as)
    (hc : Along (AuthState.step env) Undisturbed (.initial now redis users) as)
    (hr : run (AuthState.step env) (.initial now redis users) as = some s) (x : UUID) :
    (∀ j k, .exchanged j x ∈ s.history → .exchanged k x ∈ s.history → j = k) ∧
    ∀ h₁ h₂ j, s.history = h₁ ++ .revoked j x :: h₂ → ∀ k, .exchanged k x ∉ h₂ := by
  have h : Rotated x s := run_inv_along (fun h hf hs => h.step hf.1 hf.2 hs) (hfresh.and hc) hr
    (rotated_initial x now redis users)
  exact ⟨h.once, h.ordered⟩

/-! ## Overlapping refreshes -/

/-- The default settings, with passwords kept as they are. -/
def plainEnv : AuthEnv := ⟨.default, fun password hashed => password == hashed⟩

/-- A refresh token of the user `7`. -/
def oldToken : Token := .signed ⟨⟨7⟩, .refresh, 0, 604800, ⟨1⟩⟩

/-- Its session is stored. -/
def oneSession : AuthState :=
  .initial 0 (Store.empty.set ⟨1⟩ ⟨⟨7⟩, 604800 * second⟩) []

/-- Request `j` runs `n` operations; the identifiers it draws are `100 + j`. -/
def authAdvances (j n : ℕ) : List AuthAction := List.replicate n (.advance j ⟨100 + j⟩)

/-- A refresh, a second one with the same token, and a logout of it, one after the other. -/
def serialRefreshes : List AuthAction :=
  [.begin (.refresh oldToken)] ++ authAdvances 0 10 ++ [.begin (.refresh oldToken)] ++
    authAdvances 1 3 ++ [.begin (.logout oldToken)] ++ authAdvances 2 3

theorem serialRefreshes_single_use :
    ∃ s, run (AuthState.step plainEnv) oneSession serialRefreshes = some s ∧
      .exchanged 0 ⟨1⟩ ∈ s.history ∧ ∀ k, .exchanged k ⟨1⟩ ∈ s.history → k = 0 := by
  obtain ⟨s, hs, h⟩ : ∃ s, run (AuthState.step plainEnv) oneSession serialRefreshes = some s ∧
      s.history.contains (.exchanged 0 ⟨1⟩) :=
    exists_of_run (by decide +kernel)
  have hmem : .exchanged 0 ⟨1⟩ ∈ s.history := List.contains_iff_mem.1 h
  exact ⟨s, hs, hmem, fun k hk => (refresh_single_use plainEnv _ _ _ serialRefreshes s
    (by decide +kernel) (by decide +kernel) hs ⟨1⟩).1 k 0 hk hmem⟩

/-- Two refreshes of one token; both look the key up before either deletes it. -/
def overlappingRefreshes : List AuthAction :=
  [.begin (.refresh oldToken), .begin (.refresh oldToken)] ++ authAdvances 0 2 ++
    authAdvances 1 2 ++ authAdvances 0 8 ++ authAdvances 1 8

/-- A refresh that has found its key when a logout deletes it. -/
def refreshPastLogout : List AuthAction :=
  [.begin (.refresh oldToken), .begin (.logout oldToken)] ++ authAdvances 0 2 ++
    authAdvances 1 3 ++ authAdvances 0 8

/-- **A token can be exchanged twice, and after its logout.** -/
theorem refreshed_twice :
    (∃ s, run (AuthState.step plainEnv) oneSession overlappingRefreshes = some s ∧
      Along (AuthState.step plainEnv) FreshJti oneSession overlappingRefreshes ∧
      s.history = [.exchanged 0 ⟨1⟩, .exchanged 1 ⟨1⟩]) ∧
    ∃ s, run (AuthState.step plainEnv) oneSession refreshPastLogout = some s ∧
      Along (AuthState.step plainEnv) FreshJti oneSession refreshPastLogout ∧
      s.history = [.revoked 1 ⟨1⟩, .exchanged 0 ⟨1⟩] := by
  obtain ⟨s, hs, h1⟩ : ∃ s, run (AuthState.step plainEnv) oneSession overlappingRefreshes = some s ∧
      s.history = [.exchanged 0 ⟨1⟩, .exchanged 1 ⟨1⟩] :=
    exists_of_run (by decide +kernel)
  obtain ⟨s', hs', h2⟩ : ∃ s, run (AuthState.step plainEnv) oneSession refreshPastLogout = some s ∧
      s.history = [.revoked 1 ⟨1⟩, .exchanged 0 ⟨1⟩] :=
    exists_of_run (by decide +kernel)
  exact ⟨⟨s, hs, by decide +kernel, h1⟩, s', hs', by decide +kernel, h2⟩

end EventSphere.Api
