import EventSphere.Api.AuthService

/-!
# One call at a time

`AuthProg.exec` runs a call at one moment with nobody else around. `exec_run` says that this is one
of the interleavings of `AuthState.step`; the equations of the three methods say what they return
and what they leave in Redis.
-/

namespace EventSphere.Api

/-- What a call reads besides Redis: the clock, the random keys in the order in which it draws them,
and the users. -/
structure AuthInput where
  now : Instant
  uuids : ℕ → UUID
  users : List User

/-- Run a program at once; it has drawn `n` random keys. -/
def AuthProg.exec {α : Type} (inp : AuthInput) :
    AuthProg α → ℕ → Store UUID UUID Instant → Except DomainError α × Store UUID UUID Instant
  | .ret a, _, redis => (.ok a, redis)
  | .raise e, _, redis => (.error e, redis)
  | .now k, n, redis => (k inp.now).exec inp n redis
  | .uuid4 k, n, redis => (k (inp.uuids n)).exec inp (n + 1) redis
  | .getByEmail email k, n, redis => (k (inp.users.find? (·.email = email))).exec inp n redis
  | .redisGet jti k, n, redis => (k (redis.get inp.now jti)).exec inp n redis
  | .redisDelete jti k, n, redis => k.exec inp n (redis.del jti)
  | .redisSet jti value ttl k, n, redis => k.exec inp n (redis.set jti ⟨value, inp.now + ttl⟩)

/-- Run a call at once. -/
def AuthCall.exec (env : AuthEnv) (inp : AuthInput) (call : AuthCall)
    (redis : Store UUID UUID Instant) :
    Except DomainError (Option TokenResponse) × Store UUID UUID Instant :=
  (call.body env).exec inp 0 redis

/-- The pair that a call issues. -/
def newPair (settings : TokenSettings) (inp : AuthInput) (userId : UUID) : TokenResponse where
  accessToken := .signed (newPayload userId .access (settings.accessTokenExpireMinutes * minute)
    inp.now (inp.uuids 0))
  refreshToken := .signed (newPayload userId .refresh (settings.refreshTokenExpireDays * day)
    inp.now (inp.uuids 1))

/-- What issuing a pair returns and leaves in Redis. A refresh token that expires at once is refused
when it is decoded for its `jti`. -/
def issue (settings : TokenSettings) (inp : AuthInput) (userId : UUID)
    (redis : Store UUID UUID Instant) :
    Except DomainError (Option TokenResponse) × Store UUID UUID Instant :=
  if 0 < settings.refreshTokenExpireDays then
    (.ok (some (newPair settings inp userId)),
      redis.set (inp.uuids 1) ⟨userId, inp.now + settings.refreshTokenExpireDays * day⟩)
  else (.error (.authentication "Token has expired"), redis)

/-- A call has run to its end with nobody else around, after the requests `rs`. -/
structure AuthState.RanAlone (inp : AuthInput) (call : AuthCall) (rs : List AuthRequest)
    (x : Except DomainError (Option TokenResponse) × Store UUID UUID Instant) (s : AuthState) :
    Prop where
  now : s.now = inp.now
  users : s.users = inp.users
  redis : s.redis = x.2
  requests : s.requests = rs ++ [.done call x.1]

section
variable {env : AuthEnv} {inp : AuthInput} {call : AuthCall} {rs : List AuthRequest} {s : AuthState}
  {p : AuthProg (Option TokenResponse)} {stage : KeyStage}

/-- The next operation of the request that has arrived last. -/
theorem AuthState.step_last (hreq : s.requests = rs ++ [.running call p stage]) (i : UUID) :
    AuthState.step env s (.advance rs.length i) = some (s.next rs.length i call stage p) := by
  simp only [AuthState.step, hreq, List.getElem?_concat_length]

theorem AuthState.put_last (hreq : s.requests = rs ++ [.running call p stage]) (r : AuthRequest) :
    (s.put rs.length r).requests = rs ++ [r] := by
  simp [AuthState.put, hreq]

/-- What the rest of the operations reach is reached with the next one first. -/
theorem AuthState.exists_run_last {Q : AuthState → Prop}
    (hreq : s.requests = rs ++ [.running call p stage]) (i : UUID)
    (h : ∃ as s', run (AuthState.step env) (s.next rs.length i call stage p) as = some s' ∧ Q s') :
    ∃ as s', run (AuthState.step env) s as = some s' ∧ Q s' := by
  obtain ⟨as, s', hrun, hQ⟩ := h
  exact ⟨_, s', run_cons.2 ⟨_, step_last hreq i, hrun⟩, hQ⟩

/-- The operations of a request that is left alone. -/
theorem AuthProg.exec_advances (n : ℕ) (hnow : s.now = inp.now) (husers : s.users = inp.users)
    (hreq : s.requests = rs ++ [.running call p stage]) :
    ∃ as s', run (AuthState.step env) s as = some s' ∧
      s'.RanAlone inp call rs (p.exec inp n s.redis) := by
  induction p generalizing n stage s with
  | ret a | raise e =>
    exact AuthState.exists_run_last hreq (inp.uuids n)
      ⟨[], _, rfl, hnow, husers, rfl, AuthState.put_last hreq _⟩
  | now k ih =>
    rw [AuthProg.exec, ← hnow]
    exact AuthState.exists_run_last hreq (inp.uuids n)
      (ih s.now n hnow husers (AuthState.put_last hreq _))
  | uuid4 k ih =>
    exact AuthState.exists_run_last hreq (inp.uuids n)
      (ih (inp.uuids n) (n + 1) hnow husers (AuthState.put_last hreq _))
  | getByEmail email k ih =>
    rw [AuthProg.exec, ← husers]
    exact AuthState.exists_run_last hreq (inp.uuids n)
      (ih _ n hnow husers (AuthState.put_last hreq _))
  | redisGet jti k ih =>
    rw [AuthProg.exec, ← hnow]
    exact AuthState.exists_run_last hreq (inp.uuids n)
      (ih _ n hnow husers (AuthState.put_last hreq _))
  | redisDelete jti k ih =>
    exact AuthState.exists_run_last hreq (inp.uuids n)
      (ih n hnow husers (AuthState.put_last hreq _))
  | redisSet jti value ttl k ih =>
    rw [AuthProg.exec, ← hnow]
    exact AuthState.exists_run_last hreq (inp.uuids n)
      (ih n hnow husers (AuthState.put_last hreq _))

/-- **A call that is run at once is one of the interleavings**: it arrives and runs to its end while
nobody else does anything. -/
theorem AuthCall.exec_run (call : AuthCall) (hnow : s.now = inp.now)
    (husers : s.users = inp.users) :
    ∃ as s', run (AuthState.step env) s (.begin call :: as) = some s' ∧
      s'.RanAlone inp call s.requests (call.exec env inp s.redis) := by
  let arrived : AuthState :=
    { s with requests := s.requests ++ [.running call (call.body env) .before] }
  have hrest : ∃ as s', run (AuthState.step env) arrived as = some s' ∧
      s'.RanAlone inp call s.requests (call.exec env inp s.redis) :=
    AuthProg.exec_advances 0 hnow husers rfl
  obtain ⟨as, s', hrun, halone⟩ := hrest
  exact ⟨as, s', run_cons.2 ⟨_, rfl, hrun⟩, halone⟩

end

section
variable {settings : TokenSettings} {env : AuthEnv} {inp : AuthInput}
  {redis : Store UUID UUID Instant}

/-- A moment some days after a whole second has passed exactly if there are no days. -/
theorem days_passed (now days : ℤ) :
    (now / 1000000 + days * 86400) * 1000000 ≤ now ↔ ¬ 0 < days := by
  omega

/-- A new refresh token decodes, if refresh tokens live for a day at least. -/
theorem decodeToken_newPayload (days : ℤ) (userId jti : UUID) (now : Instant) :
    decodeToken now .refresh (.signed (newPayload userId .refresh (days * day) now jti)) =
      if 0 < days then .ok (newPayload userId .refresh (days * day) now jti)
      else .error (.authentication "Token has expired") := by
  have hday : days * day = second * (days * 86400) := by
    unfold day minute second
    omega
  have hexp : (now + days * day) / second = now / second + days * 86400 := by
    rw [hday, Int.add_mul_ediv_left _ _ (by decide)]
  have hle : now / second * second ≤ now := Int.ediv_mul_le _ (by decide)
  have hlate : (now / second + days * 86400) * second ≤ now ↔ ¬ 0 < days := days_passed now days
  simp only [decodeToken, newPayload, hexp, if_neg (not_lt.2 hle), hlate]
  by_cases hpos : 0 < days
  · simp only [hpos, not_true, if_true, if_false, ne_eq]
  · simp only [hpos, not_false_eq_true, if_true, if_false]

/-- The end of every method that issues a pair. -/
theorem issueTokens_exec (userId : UUID) :
    (issueTokens settings userId >>= fun r => AuthProg.ret (some r)).exec inp 0 redis =
      issue settings inp userId redis := by
  simp only [issueTokens, createToken, decode, AuthProg.now_bind, AuthProg.uuid4_bind,
    AuthProg.ret_bind, AuthProg.pure_eq, AuthProg.exec, decodeToken_newPayload, issue]
  by_cases hpos : 0 < settings.refreshTokenExpireDays
  · simp only [if_pos hpos]
    rfl
  · simp only [if_neg hpos]
    rfl

/-- A login. -/
theorem login_exec (email password : String) :
    (AuthCall.login email password).exec env inp redis =
      match inp.users.find? (·.email = email) with
      | none => (.error (.authentication "Incorrect email or password"), redis)
      | some user =>
        if ¬ env.verifyPassword password user.hashedPassword then
          (.error (.authentication "Incorrect email or password"), redis)
        else if ¬ user.isActive then
          (.error (.authentication "This account has been deactivated"), redis)
        else issue env.settings inp user.id redis := by
  simp only [AuthCall.exec, AuthCall.body, Api.login, AuthProg.getByEmail_bind, AuthProg.ret_bind,
    AuthProg.exec]
  cases inp.users.find? (·.email = email) with
  | none => rfl
  | some user =>
    dsimp only
    split
    · rfl
    · split
      · rfl
      · exact issueTokens_exec user.id

/-- A refresh. -/
theorem refresh_exec (token : Token) :
    (AuthCall.refresh token).exec env inp redis =
      match decodeToken inp.now .refresh token with
      | .error e => (.error e, redis)
      | .ok payload =>
        match redis.get inp.now payload.jti with
        | none =>
          (.error (.authentication "Refresh token has been revoked or has expired"), redis)
        | some _ => issue env.settings inp payload.sub (redis.del payload.jti) := by
  simp only [AuthCall.exec, AuthCall.body, Api.refresh, decode, AuthProg.now_bind,
    AuthProg.ret_bind, AuthProg.exec]
  cases decodeToken inp.now .refresh token with
  | error e => rfl
  | ok payload =>
    simp only [AuthProg.pure_eq, AuthProg.ret_bind, AuthProg.redisGet_bind, AuthProg.exec]
    cases redis.get inp.now payload.jti with
    | none => rfl
    | some v => exact issueTokens_exec payload.sub

/-- A logout. -/
theorem logout_exec (token : Token) :
    (AuthCall.logout token).exec env inp redis =
      match decodeToken inp.now .refresh token with
      | .error _ => (.ok none, redis)
      | .ok payload => (.ok none, redis.del payload.jti) := by
  simp only [AuthCall.exec, AuthCall.body, Api.logout, AuthProg.now_bind, AuthProg.ret_bind,
    AuthProg.exec]
  cases decodeToken inp.now .refresh token with
  | error e => rfl
  | ok payload => rfl

end

end EventSphere.Api
