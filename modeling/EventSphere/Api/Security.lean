import EventSphere.Shared.Basic

/-!
# Tokens

`services/api/app/core/security.py`: the payload of a token, how it is made and how it is read back.
A token is a signed text. Only who has the key of the API can make one that verifies, so a text is
either the token of a payload or one that `jwt.decode` rejects. Points in time are microseconds, and
the claims of a token are whole seconds.
-/

namespace EventSphere.Api

open EventSphere

/-- Reference: the values of `type` (`security.py:28`). -/
inductive TokenType where
  | access
  | refresh
  deriving DecidableEq, Repr

/-- The text of the `type` claim. -/
def TokenType.value : TokenType → String
  | access => "access"
  | refresh => "refresh"

/-- The claims of a token. Reference: `payload` (`security.py:30`). -/
structure Payload where
  sub : UUID
  type : TokenType
  iat : ℤ
  exp : ℤ
  jti : UUID
  deriving DecidableEq, Repr

/-- What is presented as a token. -/
inductive Token where
  | signed (payload : Payload)
  | malformed
  deriving DecidableEq, Repr

/-- The identifier of a token that verifies. -/
def Token.jti : Token → Option UUID
  | signed p => some p.jti
  | malformed => none

/-- The account of a token. -/
def Token.sub : Token → Option UUID
  | signed p => some p.sub
  | malformed => none

/-- The token settings. A lifetime that ends after the year 9999 makes `datetime` raise; such
settings are left out. -/
structure TokenSettings where
  accessTokenExpireMinutes : ℤ
  refreshTokenExpireDays : ℤ

/-- Reference: the defaults of `Settings` (`config.py:31`). -/
def TokenSettings.default : TokenSettings :=
  { accessTokenExpireMinutes := 30, refreshTokenExpireDays := 7 }

/-- A second, a minute and a day in microseconds. -/
def second : Instant := 1000000

@[inherit_doc second] def minute : Instant := 60 * second

@[inherit_doc second] def day : Instant := 24 * 60 * minute

/-- The payload of a new token. Reference: `_create_token` (`security.py:28`); the library writes
the points in time as whole seconds. -/
def newPayload (subject : UUID) (type : TokenType) (expiresDelta now : Instant) (jti : UUID) :
    Payload :=
  { sub := subject, type, iat := now / second, exp := (now + expiresDelta) / second, jti }

/-- Reference: `decode_token` (`security.py:53`). The library checks `iat` before `exp`. -/
def decodeToken (now : Instant) (expectedType : TokenType) : Token → Except DomainError Payload
  | .malformed => .error (.authentication "Invalid token")
  | .signed payload =>
    if now < payload.iat * second then .error (.authentication "Invalid token")
    else if payload.exp * second ≤ now then .error (.authentication "Token has expired")
    else if payload.type ≠ expectedType then
      .error (.authentication ("Expected a " ++ expectedType.value ++ " token"))
    else .ok payload

/-- A token that decodes is one that the API has signed. -/
theorem decodeToken_eq_ok {now : Instant} {type : TokenType} {token : Token} {payload : Payload}
    (h : decodeToken now type token = .ok payload) : token = .signed payload := by
  cases token with
  | malformed => cases h
  | signed p =>
    simp only [decodeToken] at h
    split at h
    · cases h
    · split at h
      · cases h
      · split at h
        · cases h
        · cases h; rfl

end EventSphere.Api
