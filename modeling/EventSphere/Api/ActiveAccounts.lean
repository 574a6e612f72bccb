import EventSphere.Api.Registration
import EventSphere.Api.RefreshTokens

/-!
# Tokens of deactivated accounts

Logins, refreshes and logouts in flight, interleaved command by command with registrations, with
changes of `is_active` and with deletions of accounts. A login checks that its account is active
(`auth_service.py:45`), and so does every request with an access token (`deps.py:29`); a refresh
does not, so an account that has been deactivated can refresh its tokens for ever
(`deactivated_refreshes`). `issued_to_active` says that nothing else goes wrong: if no refresh finds
its key while the account of its token is not active, and no account is deactivated or deleted under
a request that has passed its check, every pair is issued to an active account.
-/

namespace EventSphere.Api

/-- The row of the account exists and is active. -/
def Active (users : List User) (id : UUID) : Prop := ∃ u ∈ users, u.id = id ∧ u.isActive = true

instance (users : List User) (id : UUID) : Decidable (Active users id) :=
  inferInstanceAs (Decidable (∃ u ∈ users, _))

/-- The accounts of a pair. -/
def TokenResponse.subs (pair : TokenResponse) : List UUID :=
  pair.accessToken.sub.toList ++ pair.refreshToken.sub.toList

/-! ## The system -/

/-- A step of a login, a refresh or a logout; a registration inserts its row; an account is
activated, deactivated or deleted. -/
inductive AccountAction where
  | auth (a : AuthAction)
  | register (user : User) (fullName : String)
  | setActive (id : UUID) (active : Bool)
  | delete (id : UUID)

/-- One step. A new account is active (`models/user.py:39`). -/
def AuthState.accountStep (env : AuthEnv) (s : AuthState) : AccountAction → Option AuthState
  | .auth a => s.step env a
  | .register user fullName =>
    if user.isActive ∧ userInsertError s.users user fullName = none then
      some { s with users := s.users ++ [user] }
    else none
  | .setActive id active =>
    some { s with users := s.users.map fun u =>
      if u.id = id then { u with isActive := active } else u }
  | .delete id => some { s with users := s.users.filter (·.id ≠ id) }

/-- The accounts to which the next operation issues a pair: by the `SET` of its key, or by returning
it. -/
def AuthProg.issuing : AuthProg (Option TokenResponse) → List UUID
  | .redisSet _ value _ _ => [value]
  | .ret (some pair) => pair.subs
  | _ => []

/-- The accounts to which a step issues a pair. -/
def AuthState.issuing (s : AuthState) : AccountAction → List UUID
  | .auth a =>
    match s.acting a with
    | some (.running _ p _) => p.issuing
    | _ => []
  | _ => []

/-- Every account to which the step issues a pair exists and is active. -/
def IssuesToActive (s : AuthState) (a : AccountAction) : Prop :=
  ∀ id ∈ s.issuing a, Active s.users id

instance (s : AuthState) (a : AccountAction) : Decidable (IssuesToActive s a) :=
  inferInstanceAs (Decidable (∀ id ∈ s.issuing a, Active s.users id))

/-- The token of a refresh that finds its key with the step. -/
def AuthState.refreshing (s : AuthState) (a : AuthAction) : Option Payload :=
  match s.acting a with
  | some (.running (.refresh (.signed p)) (.redisGet x _) _) =>
    if (s.redis.get s.now x).isSome then some p else none
  | _ => none

/-- The program has its checks behind it and nothing to raise. -/
def AuthProg.passed : AuthProg (Option TokenResponse) → Bool
  | .getByEmail .. | .raise _ => false
  | _ => true

/-- A request that has passed its check for the account: a login that has found it and the password
right, or a refresh that has found the key of its token. -/
def AuthRequest.Passed (users : List User) (id : UUID) : AuthRequest → Prop
  | running (.login email _) p _ => p.passed = true ∧ ∃ u ∈ users, u.id = id ∧ u.email = email
  | running (.refresh (.signed payload)) p stage =>
    stage ≠ .before ∧ p.passed = true ∧ payload.sub = id
  | _ => False

instance (users : List User) (id : UUID) : ∀ r : AuthRequest, Decidable (r.Passed users id)
  | .running (.login email _) p _ =>
    inferInstanceAs (Decidable (p.passed = true ∧ ∃ u ∈ users, u.id = id ∧ u.email = email))
  | .running (.refresh (.signed payload)) p stage =>
    inferInstanceAs (Decidable (stage ≠ .before ∧ p.passed = true ∧ payload.sub = id))
  | .running (.refresh .malformed) .. | .running (.logout _) .. | .done .. | .failed _ =>
    inferInstanceAs (Decidable False)

/-- The condition on a step: a refresh finds its key only while the account of its token is active,
and no account is deactivated or deleted while a request is between its check for it and its end. -/
def Supervised (s : AuthState) : AccountAction → Prop
  | .auth a => ∀ p ∈ s.refreshing a, Active s.users p.sub
  | .setActive id active => active = true ∨ ∀ r ∈ s.requests, ¬ r.Passed s.users id
  | .delete id => ∀ r ∈ s.requests, ¬ r.Passed s.users id
  | .register .. => True

instance (s : AuthState) : ∀ a, Decidable (Supervised s a)
  | .auth a => inferInstanceAs (Decidable (∀ p ∈ s.refreshing a, Active s.users p.sub))
  | .setActive _ active =>
    inferInstanceAs (Decidable (active = true ∨ ∀ r ∈ s.requests, ¬ r.Passed s.users _))
  | .delete _ => inferInstanceAs (Decidable (∀ r ∈ s.requests, ¬ r.Passed s.users _))
  | .register .. => inferInstanceAs (Decidable True)

/-! ## What is left of a program -/

/-- The program goes on to issue a pair to the account, or raises. -/
def AuthProg.IssuesTo (id : UUID) : AuthProg (Option TokenResponse) → Prop
  | .now k => ∀ t, (k t).IssuesTo id
  | .uuid4 k => ∀ i, (k i).IssuesTo id
  | .redisDelete _ k => k.IssuesTo id
  | .redisSet _ value _ k => value = id ∧ k.IssuesTo id
  | .ret a => ∀ pair ∈ a, ∀ x ∈ pair.subs, x = id
  | .raise _ => True
  | _ => False

/-- The program of a login that has not looked its account up. -/
def AuthProg.LooksUp (email : String) : AuthProg (Option TokenResponse) → Prop
  | .getByEmail email' k => email' = email ∧ ∀ user, (∃ e, k user = .raise e) ∨
    ∃ u, user = some u ∧ u.isActive = true ∧ (k (some u)).IssuesTo u.id
  | _ => False

/-- The program of a refresh that has not found its key. -/
def AuthProg.AsksFor (token : Token) : AuthProg (Option TokenResponse) → Prop
  | .now k => ∀ t, (k t).AsksFor token
  | .raise _ => True
  | .redisGet _ k => (∃ e, k none = .raise e) ∧
    ∃ p, token = .signed p ∧ ∀ v, (k (some v)).IssuesTo p.sub
  | _ => False

/-- The program of a logout. -/
def AuthProg.IssuesNothing : AuthProg (Option TokenResponse) → Prop
  | .now k => ∀ t, (k t).IssuesNothing
  | .redisDelete _ k => k.IssuesNothing
  | .ret a => a = none
  | _ => False

/-- The end of every method that issues a pair. -/
theorem issueTokens_issuesTo (settings : TokenSettings) (userId : UUID) :
    (issueTokens settings userId >>= fun r => AuthProg.ret (some r)).IssuesTo userId := by
  simp only [issueTokens, createToken, decode, AuthProg.now_bind, AuthProg.uuid4_bind,
    AuthProg.ret_bind, AuthProg.pure_eq]
  intro t i t' i' t''
  dsimp only
  cases decodeToken t'' .refresh
    (.signed (newPayload userId .refresh (settings.refreshTokenExpireDays * day) t' i')) with
  | error e => trivial
  | ok payload =>
    refine ⟨rfl, ?_⟩
    rintro _ ⟨⟩ x hx
    simp only [TokenResponse.subs, Token.sub, newPayload, Option.toList_some, List.cons_append,
      List.nil_append, List.mem_cons, List.not_mem_nil, or_false, or_self] at hx
    exact hx

/-- A request that has passed its check has passed it for an active account. -/
def AuthRequest.Vouched (users : List User) : AuthRequest → Prop
  | running (.login email _) p _ => p.LooksUp email ∨ (∃ e, p = .raise e) ∨
    ∃ u ∈ users, u.email = email ∧ u.isActive = true ∧ p.IssuesTo u.id
  | running (.refresh token) p stage => stage = .before ∧ p.AsksFor token ∨ (∃ e, p = .raise e) ∨
    stage ≠ .before ∧ ∃ payload, token = .signed payload ∧ Active users payload.sub ∧
      p.IssuesTo payload.sub
  | running (.logout _) p _ => p.IssuesNothing
  | _ => True

/-- The invariant. -/
def AuthState.Vouched (s : AuthState) : Prop := ∀ r ∈ s.requests, r.Vouched s.users

/-- A request that has just arrived. -/
theorem AuthCall.body_vouched (env : AuthEnv) (call : AuthCall) (users : List User) :
    (AuthRequest.running call (call.body env) .before).Vouched users := by
  cases call with
  | login email password =>
    refine .inl ?_
    simp only [AuthCall.body, Api.login, AuthProg.getByEmail_bind, AuthProg.ret_bind]
    refine ⟨rfl, fun user => ?_⟩
    cases user with
    | none => exact .inl ⟨_, rfl⟩
    | some user =>
      by_cases hpassword : env.verifyPassword password user.hashedPassword = true
      · by_cases hactive : user.isActive = true
        · refine .inr ⟨user, rfl, hactive, ?_⟩
          simp only [hpassword, hactive, not_true, if_false]
          exact issueTokens_issuesTo env.settings user.id
        · refine .inl ⟨.authentication "This account has been deactivated", ?_⟩
          simp only [hpassword, hactive, not_true, if_false]
          rfl
      · refine .inl ⟨.authentication "Incorrect email or password", ?_⟩
        simp only [hpassword]
        rfl
  | refresh token =>
    refine .inl ⟨rfl, ?_⟩
    simp only [AuthCall.body, Api.refresh, decode, AuthProg.now_bind, AuthProg.ret_bind]
    intro t
    dsimp only
    cases h : decodeToken t .refresh token with
    | error e => trivial
    | ok payload =>
      exact ⟨⟨_, rfl⟩, payload, decodeToken_eq_ok h, fun v =>
        issueTokens_issuesTo env.settings payload.sub⟩
  | logout token =>
    simp only [AuthCall.body, Api.logout, AuthProg.now_bind, AuthProg.ret_bind]
    intro t
    dsimp only
    cases decodeToken t .refresh token with
    | error e => rfl
    | ok payload => rfl

/-! ## The steps -/

section
variable {env : AuthEnv} {s s' : AuthState} {users users' : List User} {r : AuthRequest} {j : ℕ}
  {id : UUID} {call : AuthCall} {stage : KeyStage} {p : AuthProg (Option TokenResponse)}

/-- A program that goes on to issue has passed the checks, or raises. -/
theorem AuthProg.IssuesTo.passed (h : p.IssuesTo id) : (∃ e, p = .raise e) ∨ p.passed = true := by
  cases p with
  | raise e => exact .inl ⟨e, rfl⟩
  | getByEmail email k => exact h.elim
  | _ => exact .inr rfl

/-- A request stays vouched for while the active account it has passed its check for stays as it
is. -/
theorem AuthRequest.Vouched.change (h : r.Vouched users)
    (hkeep : ∀ u ∈ users, u.isActive = true → r.Passed users u.id →
      ∃ u' ∈ users', u'.id = u.id ∧ u'.email = u.email ∧ u'.isActive = true) :
    r.Vouched users' := by
  cases r with
  | done call result => trivial
  | failed call => trivial
  | running call p stage =>
    cases call with
    | logout token => exact h
    | login email password =>
      rcases h with hlook | hraise | ⟨u, hu, hemail, hactive, hp⟩
      · exact .inl hlook
      · exact .inr (.inl hraise)
      · rcases hp.passed with hraise | hpassed
        · exact .inr (.inl hraise)
        · obtain ⟨u', hu', hid, hemail', hactive'⟩ :=
            hkeep u hu hactive ⟨hpassed, u, hu, rfl, hemail⟩
          exact .inr (.inr ⟨u', hu', hemail'.trans hemail, hactive', hid ▸ hp⟩)
    | refresh token =>
      rcases h with hasks | hraise | ⟨hstage, payload, rfl, ⟨u, hu, hid, hactive⟩, hp⟩
      · exact .inl hasks
      · exact .inr (.inl hraise)
      · rcases hp.passed with hraise | hpassed
        · exact .inr (.inl hraise)
        · obtain ⟨u', hu', hid', -, hactive'⟩ :=
            hkeep u hu hactive ⟨hstage, hpassed, hid.symm⟩
          exact .inr (.inr ⟨hstage, payload, rfl, ⟨u', hu', hid'.trans hid, hactive'⟩, hp⟩)

variable {uuid : UUID}

/-- **The rule of moves.** The other requests and the accounts are left as they are. -/
theorem AuthState.Vouched.put (r' : AuthRequest) (h : s.Vouched) (hr' : r'.Vouched s.users) :
    (s.put j r').Vouched := by
  intro r hr
  rcases List.mem_or_eq_of_mem_set hr with hr | rfl
  · exact h r hr
  · exact hr'

/-- The next operation of a program that goes on to issue a pair. -/
theorem AuthState.Vouched.next_issuesTo (h : s.Vouched) (hp : p.IssuesTo id)
    (hgoes : ∀ (p' : AuthProg (Option TokenResponse)) (stage' : KeyStage), p'.IssuesTo id →
      stage' = stage ∨ stage' ≠ .before → (AuthRequest.running call p' stage').Vouched s.users) :
    (s.next j uuid call stage p).Vouched := by
  cases p with
  | ret a => exact h.put (.done call (.ok a)) trivial
  | raise e => exact h.put (.done call (.error e)) trivial
  | now k => exact h.put _ (hgoes (k s.now) stage (hp s.now) (.inl rfl))
  | uuid4 k => exact h.put _ (hgoes (k uuid) stage (hp uuid) (.inl rfl))
  | getByEmail email k => exact hp.elim
  | redisGet jti k => exact hp.elim
  | redisDelete jti k => exact h.put _ (hgoes k .deleted hp (.inr KeyStage.noConfusion))
  | redisSet jti value ttl k => exact h.put _ (hgoes k .issued hp.2 (.inr KeyStage.noConfusion))

/-- The next operation of a login. -/
theorem AuthState.Vouched.next_login {email password : String} (h : s.Vouched)
    (hj : s.requests[j]? = some (.running (.login email password) p stage)) :
    (s.next j uuid (.login email password) stage p).Vouched := by
  rcases h _ (List.mem_of_getElem? hj) with hlook | ⟨e, rfl⟩ | ⟨u, hu, hemail, hactive, hp⟩
  · cases p with
    | getByEmail email' k =>
      obtain ⟨rfl, hk⟩ := hlook
      refine h.put _ ?_
      rcases hk (s.users.find? (·.email = email')) with hraise | ⟨u, hfind, hactive, hp⟩
      · exact .inr (.inl hraise)
      · rw [hfind]
        have hemail : u.email = email' := by simpa using List.find?_some hfind
        exact .inr (.inr ⟨u, List.mem_of_find?_eq_some hfind, hemail, hactive, hp⟩)
    | _ => exact hlook.elim
  · exact h.put (.done _ (.error e)) trivial
  · exact h.next_issuesTo hp fun p' stage' hp' _ => .inr (.inr ⟨u, hu, hemail, hactive, hp'⟩)

/-- The next operation of a refresh. -/
theorem AuthState.Vouched.next_refresh {token : Token} (h : s.Vouched)
    (hj : s.requests[j]? = some (.running (.refresh token) p stage))
    (hc : Supervised s (.auth (.advance j uuid))) :
    (s.next j uuid (.refresh token) stage p).Vouched := by
  rcases h _ (List.mem_of_getElem? hj) with
    ⟨rfl, hasks⟩ | ⟨e, rfl⟩ | ⟨hstage, payload, rfl, hactive, hp⟩
  · cases p with
    | now k => exact h.put _ (.inl ⟨rfl, hasks s.now⟩)
    | raise e => exact h.put (.done _ (.error e)) trivial
    | redisGet jti k =>
      obtain ⟨hnone, payload, rfl, hk⟩ := hasks
      refine h.put _ ?_
      cases hget : s.redis.get s.now jti with
      | none => exact .inr (.inl hnone)
      | some v =>
        -- the refresh finds its key, while the account is active
        have hactive : Active s.users payload.sub := by
          refine hc payload ?_
          simp [AuthState.refreshing, AuthState.acting, hj, hget]
        exact .inr (.inr ⟨KeyStage.noConfusion, payload, rfl, hactive, hk v⟩)
    | _ => exact hasks.elim
  · exact h.put (.done _ (.error e)) trivial
  · refine h.next_issuesTo hp fun p' stage' hp' hor => .inr (.inr ⟨?_, payload, rfl, hactive, hp'⟩)
    rcases hor with rfl | hne
    · exact hstage
    · exact hne

/-- The next operation of a logout. -/
theorem AuthState.Vouched.next_logout {token : Token} (h : s.Vouched)
    (hj : s.requests[j]? = some (.running (.logout token) p stage)) :
    (s.next j uuid (.logout token) stage p).Vouched := by
  have hp := h _ (List.mem_of_getElem? hj)
  cases p with
  | now k => exact h.put _ (hp s.now)
  | redisDelete jti k => exact h.put _ hp
  | ret a => exact h.put (.done _ (.ok a)) trivial
  | _ => exact hp.elim

/-- A step of a request. -/
theorem AuthState.Vouched.step {a : AuthAction} (h : s.Vouched) (hc : Supervised s (.auth a))
    (hs : s.step env a = some s') : s'.Vouched := by
  cases a with
  | tick d =>
    cases hs
    exact h
  | begin call =>
    cases hs
    intro r hr
    rcases List.mem_append.1 hr with hr | hr
    · exact h r hr
    · rw [List.mem_singleton.1 hr]
      exact call.body_vouched env s.users
  | fail j =>
    simp only [AuthState.step] at hs
    split at hs
    · cases hs
      exact h.put (.failed _) trivial
    · cases hs
  | advance j uuid =>
    simp only [AuthState.step] at hs
    split at hs
    · next call p stage hj =>
      cases hs
      cases call with
      | login email password => exact h.next_login hj
      | refresh token => exact h.next_refresh hj hc
      | logout token => exact h.next_logout hj
    · cases hs

/-- **Every supervised step keeps the invariant.** -/
theorem AuthState.Vouched.accountStep {a : AccountAction} (h : s.Vouched) (hc : Supervised s a)
    (hs : s.accountStep env a = some s') : s'.Vouched := by
  cases a with
  | auth a => exact h.step hc hs
  | register user fullName =>
    simp only [AuthState.accountStep] at hs
    split at hs
    · cases hs
      intro r hr
      refine (h r hr).change fun u hu hactive _ => ?_
      exact ⟨u, List.mem_append_left _ hu, rfl, rfl, hactive⟩
    · cases hs
  | setActive id active =>
    cases hs
    intro r hr
    refine (h r hr).change fun u hu hactive hpassed => ?_
    refine ⟨_, List.mem_map.2 ⟨u, hu, rfl⟩, ?_⟩
    split
    · next hid =>
      rcases hc with rfl | hfree
      · exact ⟨rfl, rfl, rfl⟩
      · exact absurd (hid ▸ hpassed) (hfree r hr)
    · exact ⟨rfl, rfl, hactive⟩
  | delete id =>
    cases hs
    intro r hr
    refine (h r hr).change fun u hu hactive hpassed => ?_
    have hid : u.id ≠ id := fun hid => hc r hr (hid ▸ hpassed)
    exact ⟨u, List.mem_filter.2 ⟨hu, by simpa using hid⟩, rfl, rfl, hactive⟩

/-- A program that goes on to issue a pair to an account issues it to no other one. -/
theorem AuthProg.IssuesTo.eq_of_mem {x : UUID} (h : p.IssuesTo id) (hx : x ∈ p.issuing) :
    x = id := by
  cases p with
  | redisSet jti value ttl k =>
    rw [List.mem_singleton.1 hx]
    exact h.1
  | ret a =>
    cases a with
    | none => cases hx
    | some pair => exact h pair rfl x hx
  | _ => cases hx

/-- The accounts to which a request issues a pair are active. -/
theorem AuthRequest.Vouched.active {x : UUID} (h : (AuthRequest.running call p stage).Vouched users)
    (hx : x ∈ p.issuing) : Active users x := by
  cases call with
  | login email password =>
    rcases h with hlook | ⟨e, rfl⟩ | ⟨u, hu, -, hactive, hp⟩
    · cases p with
      | getByEmail email' k => cases hx
      | _ => exact hlook.elim
    · cases hx
    · exact ⟨u, hu, (hp.eq_of_mem hx).symm, hactive⟩
  | refresh token =>
    rcases h with ⟨-, hasks⟩ | ⟨e, rfl⟩ | ⟨-, payload, -, hactive, hp⟩
    · cases p with
      | now k => cases hx
      | raise e => cases hx
      | redisGet jti k => cases hx
      | _ => exact hasks.elim
    · cases hx
    · exact hp.eq_of_mem hx ▸ hactive
  | logout token =>
    cases p with
    | now k => cases hx
    | redisDelete jti k => cases hx
    | ret a =>
      obtain rfl : a = none := h
      cases hx
    | _ => exact h.elim

/-- A step issues pairs to active accounts. -/
theorem AuthState.Vouched.issuesToActive {a : AccountAction} (h : s.Vouched) :
    IssuesToActive s a := by
  intro x hx
  cases a with
  | auth a =>
    simp only [AuthState.issuing] at hx
    split at hx
    · next call p stage hacting =>
      cases a with
      | advance j uuid => exact (h _ (List.mem_of_getElem? hacting)).active hx
      | _ => cases hacting
    · cases hx
  | _ => cases hx

end

theorem vouched_initial (now : Instant) (redis : Store UUID UUID Instant) (users : List User) :
    (AuthState.initial now redis users).Vouched := by
  intro r hr
  cases hr

/-- **Tokens are issued to active accounts.** From any stored sessions and accounts, in every run in
which no refresh finds its key while the account of its token is not active, and no account is
deactivated or deleted under a request that has passed its check for it, every pair is issued to an
account that exists and is active. -/
theorem issued_to_active (env : AuthEnv) (now : Instant) (redis : Store UUID UUID Instant)
    (users : List User) (as : List AccountAction)
    (hc : Along (AuthState.accountStep env) Supervised (.initial now redis users) as) :
    Along (AuthState.accountStep env) IssuesToActive (.initial now redis users) as :=
  along_of_inv (I := AuthState.Vouched) (fun h hc hs => h.accountStep hc hs)
    (fun h _ => h.issuesToActive) (vouched_initial now redis users) hc

/-! ## A deactivated account -/

/-- No sessions and no accounts. -/
def noAccounts : AuthState := .initial 0 Store.empty []

/-- An account. -/
def annAccount : User := ⟨⟨7⟩, "ann@example.com", "password1", true⟩

/-- The refresh token of its first login. -/
def annToken : Token := .signed (newPayload ⟨7⟩ .refresh (7 * day) 0 ⟨100⟩)

/-- A login of the account arrives. -/
def annLogin : AccountAction := .auth (.begin (.login "ann@example.com" "password1"))

/-- A refresh with the token arrives. -/
def annRefresh : AccountAction := .auth (.begin (.refresh annToken))

/-- The account is activated or deactivated. -/
def annActive (active : Bool) : AccountAction := .setActive ⟨7⟩ active

/-- An account registers and logs in. -/
def signedIn : List AccountAction :=
  AccountAction.register annAccount "Ann" :: annLogin :: (authAdvances 0 8).map .auth

/-- It is deactivated, which refuses a second login, then activated again, and refreshes. -/
def suspended : List AccountAction :=
  signedIn ++ annActive false :: annLogin :: (authAdvances 1 2).map .auth ++
    annActive true :: annRefresh :: (authAdvances 2 10).map .auth

theorem issued_to_active_suspended :
    (run (AuthState.accountStep plainEnv) noAccounts suspended).isSome ∧
      Along (AuthState.accountStep plainEnv) IssuesToActive noAccounts suspended :=
  ⟨by decide +kernel, issued_to_active plainEnv _ _ _ suspended (by decide +kernel)⟩

/-- An account that is deactivated and then refreshes. -/
def deactivated : List AccountAction :=
  signedIn ++ annActive false :: annRefresh :: (authAdvances 1 10).map .auth

/-- **A deactivated account can refresh its tokens.** -/
theorem deactivated_refreshes :
    (∃ s, run (AuthState.accountStep plainEnv) noAccounts deactivated = some s ∧
      s.history = [.exchanged 1 ⟨100⟩] ∧ ¬ Active s.users ⟨7⟩) ∧
    ¬ Along (AuthState.accountStep plainEnv) IssuesToActive noAccounts deactivated :=
  ⟨exists_of_run (by decide +kernel), by decide +kernel⟩

end EventSphere.Api
