import EventSphere.Api.Security
import EventSphere.Base.Expiring
import EventSphere.Base.Runs

/-!
# Sessions of the API's users

`AuthService.login`, `refresh` and `logout` (`services/api/app/services/auth_service.py`) as
programs over Redis, and any number of their calls in flight, interleaved command by command. The
key `refresh:{jti}` of a refresh token is written when the token is issued and deleted when it is
exchanged or revoked; it is kept here under the `jti` itself. `AuthState.history` is a record for
the proofs: which call exchanged or revoked which token, in the order of their commands.
-/

namespace EventSphere.Api

/-- Reference: `User` (`user.py:13`), what a login reads of it. -/
structure User where
  id : UUID
  email : String
  hashedPassword : String
  isActive : Bool
  deriving DecidableEq, Repr

/-- Reference: `TokenResponse` (`schemas/auth.py:16`). -/
structure TokenResponse where
  accessToken : Token
  refreshToken : Token
  deriving DecidableEq, Repr

/-- A program that returns an `α`. -/
inductive AuthProg (α : Type) where
  | ret (a : α)
  | raise (e : DomainError)
  /-- `datetime.now(UTC)`. -/
  | now (k : Instant → AuthProg α)
  /-- `uuid.uuid4()`. -/
  | uuid4 (k : UUID → AuthProg α)
  /-- `UserRepository.get_by_email` (`user_repository.py:12`). -/
  | getByEmail (email : String) (k : Option User → AuthProg α)
  /-- `GET refresh:{jti}`. -/
  | redisGet (jti : UUID) (k : Option UUID → AuthProg α)
  /-- `DEL refresh:{jti}`. -/
  | redisDelete (jti : UUID) (k : AuthProg α)
  /-- `SET refresh:{jti} value EX ttl`. -/
  | redisSet (jti value : UUID) (ttl : Instant) (k : AuthProg α)

namespace AuthProg

variable {α β : Type}

/-- Sequencing: exceptions pass through, everything else continues. -/
def bind : AuthProg α → (α → AuthProg β) → AuthProg β
  | ret a, f => f a
  | raise e, _ => raise e
  | now k, f => now fun t => (k t).bind f
  | uuid4 k, f => uuid4 fun i => (k i).bind f
  | getByEmail email k, f => getByEmail email fun u => (k u).bind f
  | redisGet jti k, f => redisGet jti fun v => (k v).bind f
  | redisDelete jti k, f => redisDelete jti (k.bind f)
  | redisSet jti value ttl k, f => redisSet jti value ttl (k.bind f)

instance : Monad AuthProg where
  pure := ret
  bind := bind

/-! The equations below run a `do` block one operation at a time. -/

@[simp] theorem pure_eq (a : α) : (pure a : AuthProg α) = ret a := rfl

@[simp] theorem ret_bind (a : α) (f : α → AuthProg β) : ret a >>= f = f a := rfl

@[simp] theorem raise_bind (e : DomainError) (f : α → AuthProg β) : raise e >>= f = raise e := rfl

@[simp] theorem now_bind (k : Instant → AuthProg α) (f : α → AuthProg β) :
    now k >>= f = now fun t => k t >>= f := rfl

@[simp] theorem uuid4_bind (k : UUID → AuthProg α) (f : α → AuthProg β) :
    uuid4 k >>= f = uuid4 fun i => k i >>= f := rfl

@[simp] theorem getByEmail_bind (email : String) (k : Option User → AuthProg α)
    (f : α → AuthProg β) : getByEmail email k >>= f = getByEmail email fun u => k u >>= f := rfl

@[simp] theorem redisGet_bind (jti : UUID) (k : Option UUID → AuthProg α) (f : α → AuthProg β) :
    redisGet jti k >>= f = redisGet jti fun v => k v >>= f := rfl

@[simp] theorem redisDelete_bind (jti : UUID) (k : AuthProg α) (f : α → AuthProg β) :
    redisDelete jti k >>= f = redisDelete jti (k >>= f) := rfl

@[simp] theorem redisSet_bind (jti value : UUID) (ttl : Instant) (k : AuthProg α)
    (f : α → AuthProg β) : redisSet jti value ttl k >>= f = redisSet jti value ttl (k >>= f) := rfl

end AuthProg

/-! ## The methods -/

/-- Reference: `create_access_token` and `create_refresh_token` (`security.py:39`,
`security.py:46`). -/
def createToken (userId : UUID) (type : TokenType) (expiresDelta : Instant) : AuthProg Token := do
  let now ← .now .ret
  let jti ← .uuid4 .ret
  return .signed (newPayload userId type expiresDelta now jti)

/-- `decode_token`, which raises. -/
def decode (token : Token) : AuthProg Payload := do
  match decodeToken (← .now .ret) .refresh token with
  | .ok payload => return payload
  | .error e => .raise e

/-- Reference: `_issue_tokens` (`auth_service.py:70`). -/
def issueTokens (settings : TokenSettings) (userId : UUID) : AuthProg TokenResponse := do
  let accessToken ← createToken userId .access (settings.accessTokenExpireMinutes * minute)
  let refreshToken ← createToken userId .refresh (settings.refreshTokenExpireDays * day)
  let payload ← decode refreshToken
  .redisSet payload.jti userId (settings.refreshTokenExpireDays * day) (.ret ())
  return { accessToken, refreshToken }

/-- Reference: `login` (`auth_service.py:41`). `verifyPassword` is bcrypt's answer
(`security.py:20`). -/
def login (settings : TokenSettings) (verifyPassword : String → String → Bool)
    (email password : String) : AuthProg TokenResponse := do
  match ← .getByEmail email .ret with
  | none => .raise (.authentication "Incorrect email or password")
  | some user =>
    if ¬verifyPassword password user.hashedPassword then
      .raise (.authentication "Incorrect email or password")
    else if ¬user.isActive then .raise (.authentication "This account has been deactivated")
    else issueTokens settings user.id

/-- Reference: `refresh` (`auth_service.py:50`). -/
def refresh (settings : TokenSettings) (refreshToken : Token) : AuthProg TokenResponse := do
  let payload ← decode refreshToken
  match ← .redisGet payload.jti .ret with
  | none => .raise (.authentication "Refresh token has been revoked or has expired")
  | some _ =>
    .redisDelete payload.jti (.ret ())
    issueTokens settings payload.sub

/-- Reference: `logout` (`auth_service.py:63`). -/
def logout (refreshToken : Token) : AuthProg Unit := do
  match decodeToken (← .now .ret) .refresh refreshToken with
  | .error _ => return
  | .ok payload => .redisDelete payload.jti (.ret ())

/-- The calls. -/
inductive AuthCall where
  | login (email password : String)
  | refresh (token : Token)
  | logout (token : Token)
  deriving DecidableEq, Repr

/-- What a call runs with: the token settings and the password check. -/
structure AuthEnv where
  settings : TokenSettings
  verifyPassword : String → String → Bool

/-- The program of a call. -/
def AuthCall.body (env : AuthEnv) : AuthCall → AuthProg (Option TokenResponse)
  | login email password => return some (← Api.login env.settings env.verifyPassword email password)
  | refresh token => return some (← Api.refresh env.settings token)
  | logout token => do
    Api.logout token
    return none

/-- The token that a call presents. -/
def AuthCall.jti : AuthCall → Option UUID
  | login .. => none
  | refresh token | logout token => token.jti

/-! ## Calls in flight -/

/-- How far a call has come with the key of its token. -/
inductive KeyStage where
  /-- It has not found it. -/
  | before
  /-- Its `GET` has found it. -/
  | found
  /-- It has sent its `DEL`. -/
  | deleted
  /-- It has written the key of a new token. -/
  | issued
  deriving DecidableEq, Repr

/-- A call: running, ended, or ended from outside (a crash, a lost connection). -/
inductive AuthRequest where
  | running (call : AuthCall) (prog : AuthProg (Option TokenResponse)) (stage : KeyStage)
  | done (call : AuthCall) (result : Except DomainError (Option TokenResponse))
  | failed (call : AuthCall)

/-- The call of a request. -/
def AuthRequest.call : AuthRequest → AuthCall
  | running call _ _ | done call _ | failed call => call

/-- What the record keeps: request `j` has issued a pair for the token, or has deleted its key for a
logout. -/
inductive AuthEvent where
  | exchanged (j : ℕ) (jti : UUID)
  | revoked (j : ℕ) (jti : UUID)
  deriving DecidableEq, Repr

/-- The clock, Redis, the users, every request so far and the record. -/
structure AuthState where
  now : Instant
  redis : Store UUID UUID Instant
  users : List User
  requests : List AuthRequest
  history : List AuthEvent

/-- A call arrives, a request runs its next operation with the given random key, a request is ended
from outside, or time passes. -/
inductive AuthAction where
  | begin (call : AuthCall)
  | advance (j : ℕ) (uuid : UUID)
  | fail (j : ℕ)
  | tick (d : ℕ)

namespace AuthState

/-- Replace the state of a request. -/
def put (s : AuthState) (j : ℕ) (r : AuthRequest) : AuthState :=
  { s with requests := s.requests.set j r }

/-- The next operation of a request. -/
def next (s : AuthState) (j : ℕ) (uuid : UUID) (call : AuthCall) (stage : KeyStage) :
    AuthProg (Option TokenResponse) → AuthState
  | .ret a => s.put j (.done call (.ok a))
  | .raise e => s.put j (.done call (.error e))
  | .now k => s.put j (.running call (k s.now) stage)
  | .uuid4 k => s.put j (.running call (k uuid) stage)
  | .getByEmail email k =>
    s.put j (.running call (k (s.users.find? (·.email = email))) stage)
  | .redisGet jti k =>
    let v := s.redis.get s.now jti
    s.put j (.running call (k v) (if v.isSome then .found else stage))
  | .redisDelete jti k =>
    { s.put j (.running call k .deleted) with
      redis := s.redis.del jti
      history := match call with
        | .logout _ => s.history ++ [.revoked j jti]
        | _ => s.history }
  | .redisSet jti value ttl k =>
    { s.put j (.running call k .issued) with
      redis := s.redis.set jti ⟨value, s.now + ttl⟩
      history := match call with
        | .refresh (.signed payload) => s.history ++ [.exchanged j payload.jti]
        | _ => s.history }

/-- One step. -/
def step (env : AuthEnv) (s : AuthState) : AuthAction → Option AuthState
  | .begin call => some { s with requests := s.requests ++ [.running call (call.body env) .before] }
  | .advance j uuid =>
    match s.requests[j]? with
    | some (.running call prog stage) => some (s.next j uuid call stage prog)
    | _ => none
  | .fail j =>
    match s.requests[j]? with
    | some (.running call _ _) => some (s.put j (.failed call))
    | _ => none
  | .tick d => some { s with now := s.now + d }

end AuthState

end EventSphere.Api
