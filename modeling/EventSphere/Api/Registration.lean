import EventSphere.Api.AuthExec
import Mathlib

/-!
# Registration and login

`AuthService.register` (`services/api/app/services/auth_service.py:30`) behind its request schema,
and the login that follows it. The two take the credentials by different ways: the schema normalises
the email (`EmailStr`), the form of a login hands it over as it was typed; and bcrypt takes no
password of more than 72 bytes, while the schema counts characters. `registered_login_iff` says
which credentials can register and then log in.

The address validation and bcrypt are libraries, and parameters of the model.
-/

namespace EventSphere.Api

/-- The addresses that pydantic's `EmailStr` (`schemas/auth.py:7`) accepts, each with its normalised
form. The normalised form of an address is an address in normalised form, and it is short and
printable. -/
structure EmailStr where
  validate : String → Option String
  normalised : ∀ {email e}, validate email = some e → validate e = some e
  fits : ∀ {email e}, validate email = some e → FitsString e

/-- bcrypt, for passwords of up to 72 bytes: the hash of a password with a salt, and the check of a
password, which accepts the one that was hashed. -/
structure Bcrypt where
  hashpw : String → String → String
  checkpw : String → String → Bool
  accepts : ∀ {p salt}, p.utf8ByteSize ≤ 72 → checkpw p (hashpw p salt) = true
  fits : ∀ {p salt}, p.utf8ByteSize ≤ 72 → FitsString (hashpw p salt)

/-- What ends a registration: the validation of the request, an error of the service, bcrypt's
`ValueError`, or an error of the `INSERT`. -/
inductive RegisterError where
  | unprocessable
  | domain (e : DomainError)
  | valueError
  | dataError
  | integrityError
  deriving DecidableEq, Repr

/-- Reference: `hash_password` (`security.py:14`); bcrypt refuses what is too long for it. -/
def hashPassword (bcrypt : Bcrypt) (password salt : String) : Except RegisterError String :=
  if 72 < password.utf8ByteSize then .error .valueError else .ok (bcrypt.hashpw password salt)

/-- Reference: `verify_password` (`security.py:18`), which takes bcrypt's refusal for a mismatch. -/
def verifyPassword (bcrypt : Bcrypt) (password hashed : String) : Bool :=
  if 72 < password.utf8ByteSize then false else bcrypt.checkpw password hashed

/-- Reference: `RegisterRequest` (`schemas/auth.py:6`). -/
structure RegisterRequest where
  email : String
  password : String
  fullName : String
  deriving DecidableEq, Repr

/-- The request of a submitted email, password and name. -/
def RegisterRequest.validate (emailStr : EmailStr) (email password fullName : String) :
    Option RegisterRequest :=
  match emailStr.validate email with
  | none => none
  | some e =>
    if 8 ≤ password.length ∧ password.length ≤ 128 ∧ 1 ≤ fullName.length ∧
      fullName.length ≤ 255 then
      some ⟨e, password, fullName⟩
    else none

/-- What the `INSERT` of a user is refused for: a column, or the unique keys
(`models/user.py:26`). -/
def userInsertError (users : List User) (user : User) (fullName : String) : Option RegisterError :=
  if ¬ FitsString user.email ∨ ¬ FitsString user.hashedPassword ∨ ¬ FitsString fullName then
    some .dataError
  else if ∃ u ∈ users, u.id = user.id ∨ u.email = user.email then some .integrityError
  else none

/-- A registration: what is submitted, and the random identifier and salt that it draws. -/
structure SignUp where
  email : String
  password : String
  fullName : String
  id : UUID
  salt : String

/-- Reference: `register` (`auth_service.py:30`). -/
def register (bcrypt : Bcrypt) (users : List User) (request : RegisterRequest) (id : UUID)
    (salt : String) : Except RegisterError User × List User :=
  match users.find? (·.email = request.email) with
  | some _ => (.error (.domain (.validation "An account with this email already exists")), users)
  | none =>
    match hashPassword bcrypt request.password salt with
    | .error e => (.error e, users)
    | .ok hashedPassword =>
      let user : User := { id, email := request.email, hashedPassword, isActive := true }
      match userInsertError users user request.fullName with
      | some e => (.error e, users)
      | none => (.ok user, users ++ [user])

/-- The endpoint. Reference: `register` (`api/v1/auth.py:21`). -/
def postRegister (emailStr : EmailStr) (bcrypt : Bcrypt) (users : List User) (signUp : SignUp) :
    Except RegisterError User × List User :=
  match RegisterRequest.validate emailStr signUp.email signUp.password signUp.fullName with
  | none => (.error .unprocessable, users)
  | some request => register bcrypt users request signUp.id signUp.salt

/-- What happens to the accounts: a registration, a change of `is_active`, a deletion. -/
inductive AccountChange where
  | register (signUp : SignUp)
  | setActive (id : UUID) (active : Bool)
  | delete (id : UUID)

/-- The users after a change. -/
def AccountChange.apply (emailStr : EmailStr) (bcrypt : Bcrypt) (users : List User) :
    AccountChange → List User
  | register signUp => (postRegister emailStr bcrypt users signUp).2
  | setActive id active => users.map fun u => if u.id = id then { u with isActive := active } else u
  | delete id => users.filter (·.id ≠ id)

/-- The users after any changes, from the empty table. -/
def accounts (emailStr : EmailStr) (bcrypt : Bcrypt) (changes : List AccountChange) : List User :=
  changes.foldl (AccountChange.apply emailStr bcrypt) []

section
variable {emailStr : EmailStr} {bcrypt : Bcrypt} {users : List User} {signUp : SignUp}
  {request : RegisterRequest} {email password fullName salt : String} {id : UUID}

/-! ## Registrations -/

/-- An accepted request. -/
theorem validate_eq_some
    (h : RegisterRequest.validate emailStr email password fullName = some request) :
    emailStr.validate email = some request.email ∧ request.password = password ∧
      request.fullName = fullName ∧ fullName.length ≤ 255 := by
  unfold RegisterRequest.validate at h
  split at h
  · cases h
  · next e he =>
    split at h
    · next hlen => cases h; exact ⟨he, rfl, rfl, hlen.2.2.2⟩
    · cases h

variable (bcrypt users request id salt) in
/-- What a registration returns, and the users it leaves. -/
theorem register_cases :
    (∃ e, register bcrypt users request id salt = (.error e, users)) ∨
    ∃ hashed, register bcrypt users request id salt =
      (.ok ⟨id, request.email, hashed, true⟩, users ++ [⟨id, request.email, hashed, true⟩]) := by
  unfold register
  split
  · exact .inl ⟨_, rfl⟩
  · split
    · exact .inl ⟨_, rfl⟩
    · next hashed _ =>
      dsimp only
      split
      · exact .inl ⟨_, rfl⟩
      · exact .inr ⟨hashed, rfl⟩

/-- A registration with a free email succeeds exactly if bcrypt takes the password and the table
takes the name. -/
theorem register_free (h : RegisterRequest.validate emailStr email password fullName = some request)
    (hfree : ∀ u ∈ users, u.email ≠ request.email) (hid : ∀ u ∈ users, u.id ≠ id) :
    register bcrypt users request id salt =
      if 72 < password.utf8ByteSize then (.error .valueError, users)
      else if nul ∈ fullName.toList then (.error .dataError, users)
      else (.ok ⟨id, request.email, bcrypt.hashpw password salt, true⟩,
        users ++ [⟨id, request.email, bcrypt.hashpw password salt, true⟩]) := by
  obtain ⟨hemail, rfl, rfl, hlen⟩ := validate_eq_some h
  have hfind : users.find? (·.email = request.email) = none :=
    List.find?_eq_none.2 fun u hu => by simpa using hfree u hu
  unfold register hashPassword
  rw [hfind]
  by_cases hsize : 72 < request.password.utf8ByteSize
  · simp only [if_pos hsize]
  · have hhash : FitsString (bcrypt.hashpw request.password salt) := bcrypt.fits (not_lt.1 hsize)
    have hunique : ¬ ∃ u ∈ users, u.id = id ∨ u.email = request.email := by
      rintro ⟨u, hu, he | he⟩
      · exact hid u hu he
      · exact hfree u hu he
    have hname : FitsString request.fullName ↔ nul ∉ request.fullName.toList :=
      ⟨And.right, fun hn => ⟨hlen, hn⟩⟩
    simp only [if_neg hsize, userInsertError, emailStr.fits hemail, hhash, hname, not_true,
      false_or, not_not, hunique, if_false]
    by_cases hnul : nul ∈ request.fullName.toList
    · simp only [if_pos hnul]
    · simp only [if_neg hnul]

/-- The emails of the users are in normalised form. -/
def Normalised (emailStr : EmailStr) (users : List User) : Prop :=
  ∀ u ∈ users, emailStr.validate u.email = some u.email

/-- A registration stores a normalised email. -/
theorem Normalised.postRegister (h : Normalised emailStr users) (signUp : SignUp) :
    Normalised emailStr (postRegister emailStr bcrypt users signUp).2 := by
  unfold Api.postRegister
  cases hreq : RegisterRequest.validate emailStr signUp.email signUp.password signUp.fullName with
  | none => exact h
  | some request =>
    dsimp only
    rcases register_cases bcrypt users request signUp.salt signUp.id with ⟨e, he⟩ | ⟨hashed, he⟩
    · rw [he]; exact h
    · rw [he]
      refine List.forall_mem_append.2 ⟨h, List.forall_mem_singleton.2 ?_⟩
      exact emailStr.normalised (validate_eq_some hreq).1

/-- A change keeps the emails normalised. -/
theorem Normalised.apply (h : Normalised emailStr users) (change : AccountChange) :
    Normalised emailStr (change.apply emailStr bcrypt users) := by
  cases change with
  | register signUp => exact h.postRegister signUp
  | setActive id active =>
    intro u hu
    obtain ⟨v, hv, rfl⟩ := List.mem_map.1 hu
    have hv := h v hv
    split
    · exact hv
    · exact hv
  | delete id => exact fun u hu => h u (List.mem_filter.1 hu).1

variable (emailStr bcrypt) in
/-- **Stored emails are normalised**, whatever happens to the accounts. -/
theorem normalised_accounts (changes : List AccountChange) :
    Normalised emailStr (accounts emailStr bcrypt changes) :=
  List.foldlRecOn changes (AccountChange.apply emailStr bcrypt) (fun _ h => nomatch h)
    fun _ h change _ => h.apply change

/-! ## The login -/

/-- The account that a login finds after a registration: the new one, if the email was submitted in
normalised form, and else none. -/
theorem find_registered (user : User) (h : Normalised emailStr users)
    (hvalid : emailStr.validate email = some user.email)
    (hfree : ∀ u ∈ users, u.email ≠ user.email) :
    (users ++ [user]).find? (·.email = email) =
      if emailStr.validate email = some email then some user else none := by
  by_cases hemail : user.email = email
  · rw [hemail] at hvalid hfree
    have hnone : users.find? (·.email = email) = none :=
      List.find?_eq_none.2 fun u hu => by simpa using hfree u hu
    rw [if_pos hvalid, List.find?_append, hnone]
    simp [hemail]
  · have hnot : emailStr.validate email ≠ some email := by
      rw [hvalid]
      exact fun he => hemail (Option.some.inj he)
    have hnone : ∀ u ∈ users ++ [user], ¬ u.email = email := by
      refine List.forall_mem_append.2 ⟨fun u hu he => hnot ?_, List.forall_mem_singleton.2 hemail⟩
      rw [← he]
      exact h u hu
    rw [if_neg hnot]
    exact List.find?_eq_none.2 fun u hu => by simpa using hnone u hu

variable (bcrypt salt id) in
/-- The login after a registration returns a pair for the new account, exactly if the email was
submitted in normalised form and refresh tokens live for a day at least. -/
theorem login_registered (settings : TokenSettings) (inp : AuthInput)
    (redis : Store UUID UUID Instant) (h : Normalised emailStr users)
    (hvalid : emailStr.validate email = some request.email)
    (hfree : ∀ u ∈ users, u.email ≠ request.email) (hsize : password.utf8ByteSize ≤ 72) :
    ((AuthCall.login email password).exec ⟨settings, verifyPassword bcrypt⟩
        { inp with users := users ++ [⟨id, request.email, bcrypt.hashpw password salt, true⟩] }
        redis).1 = .ok (some (newPair settings inp id)) ↔
      emailStr.validate email = some email ∧ 0 < settings.refreshTokenExpireDays := by
  have hverify : verifyPassword bcrypt password (bcrypt.hashpw password salt) = true := by
    rw [verifyPassword, if_neg (not_lt.2 hsize)]
    exact bcrypt.accepts hsize
  have hfind := find_registered
    ⟨id, request.email, bcrypt.hashpw password salt, true⟩ h hvalid hfree
  simp only [login_exec, hfind]
  by_cases hnorm : emailStr.validate email = some email
  · simp only [if_pos hnorm, hverify, not_true, if_false, issue]
    by_cases hdays : 0 < settings.refreshTokenExpireDays
    · simp only [if_pos hdays]
      exact ⟨fun _ => ⟨hnorm, hdays⟩, fun _ => rfl⟩
    · simp only [if_neg hdays]
      refine ⟨fun hok => ?_, fun h => absurd h.2 hdays⟩
      cases hok
  · simp only [if_neg hnorm]
    refine ⟨fun hok => ?_, fun h => absurd h.1 hnorm⟩
    cases hok

end

/-- **Who registers can log in, exactly if** the email was submitted in normalised form, the
password has no more than 72 bytes, the name has no NUL character, and refresh tokens live for a day
at least. Take the users after any registrations, changes and deletions of accounts, and credentials
that the schema accepts, with an email that is not taken. Then the registration succeeds, and a
login with the email and the password as they were submitted returns a pair for the new account. -/
theorem registered_login_iff (emailStr : EmailStr) (bcrypt : Bcrypt) (settings : TokenSettings)
    (changes : List AccountChange) (signUp : SignUp) (request : RegisterRequest) (inp : AuthInput)
    (redis : Store UUID UUID Instant)
    (hvalid : RegisterRequest.validate emailStr signUp.email signUp.password signUp.fullName =
      some request)
    (hfree : ∀ u ∈ accounts emailStr bcrypt changes, u.email ≠ request.email)
    (hid : ∀ u ∈ accounts emailStr bcrypt changes, u.id ≠ signUp.id) :
    let x := postRegister emailStr bcrypt (accounts emailStr bcrypt changes) signUp
    (∃ user, x.1 = .ok user ∧
      ((AuthCall.login signUp.email signUp.password).exec ⟨settings, verifyPassword bcrypt⟩
        { inp with users := x.2 } redis).1 = .ok (some (newPair settings inp user.id))) ↔
    emailStr.validate signUp.email = some signUp.email ∧ signUp.password.utf8ByteSize ≤ 72 ∧
      nul ∉ signUp.fullName.toList ∧ 0 < settings.refreshTokenExpireDays := by
  have hemail : emailStr.validate signUp.email = some request.email := (validate_eq_some hvalid).1
  dsimp only
  simp only [postRegister, hvalid, register_free hvalid hfree hid]
  by_cases hsize : 72 < signUp.password.utf8ByteSize
  · simp only [if_pos hsize]
    refine ⟨?_, fun h => absurd hsize (not_lt.2 h.2.1)⟩
    rintro ⟨user, hok, -⟩
    cases hok
  · by_cases hnul : nul ∈ signUp.fullName.toList
    · simp only [if_neg hsize, if_pos hnul]
      refine ⟨?_, fun h => absurd hnul h.2.2.1⟩
      rintro ⟨user, hok, -⟩
      cases hok
    · have hle : signUp.password.utf8ByteSize ≤ 72 := not_lt.1 hsize
      simp only [if_neg hsize, if_neg hnul]
      have hlogin := login_registered bcrypt signUp.salt signUp.id settings inp redis
        (normalised_accounts emailStr bcrypt changes) hemail hfree hle
      constructor
      · rintro ⟨user, hok, hpair⟩
        cases hok
        obtain ⟨hnorm, hdays⟩ := hlogin.1 hpair
        exact ⟨hnorm, hle, hnul, hdays⟩
      · rintro ⟨hnorm, -, -, hdays⟩
        exact ⟨_, rfl, hlogin.2 ⟨hnorm, hdays⟩⟩

/-! ## Two libraries -/

/-- The address with its domain in lower case. -/
def lowerDomain : List Char → List Char
  | [] => []
  | c :: cs => if c = '@' then c :: cs.map Char.toLower else c :: lowerDomain cs

theorem lowerDomain_lowerDomain (cs : List Char) :
    lowerDomain (lowerDomain cs) = lowerDomain cs := by
  induction cs with
  | nil => rfl
  | cons c cs ih =>
    by_cases h : c = '@'
    · simp [lowerDomain, h]
    · simp [lowerDomain, h, ih]

/-- Addresses of at most 254 characters with an `@`, in lower case behind it. -/
def simpleEmailStr : EmailStr where
  validate email :=
    let cs := lowerDomain email.toList
    if '@' ∈ cs ∧ cs.length ≤ 254 ∧ nul ∉ cs then some (String.ofList cs) else none
  normalised {email e} h := by
    dsimp only at h ⊢
    split at h
    · next hc =>
      cases h
      rw [String.toList_ofList, lowerDomain_lowerDomain, if_pos hc]
    · cases h
  fits {email e} h := by
    dsimp only at h
    split at h
    · next hc =>
      cases h
      rw [FitsString, String.length_ofList, String.toList_ofList]
      exact ⟨hc.2.1.trans (by decide), hc.2.2⟩
    · cases h

/-- A text without NUL characters that tells the password. -/
def escapeNul : List Char → List Char
  | [] => []
  | c :: cs => if c = nul then '0' :: '0' :: escapeNul cs else '1' :: c :: escapeNul cs

theorem nul_notMem_escapeNul (cs : List Char) : nul ∉ escapeNul cs := by
  induction cs with
  | nil => exact List.not_mem_nil
  | cons c cs ih =>
    have h0 : nul ≠ '0' := by decide
    have h1 : nul ≠ '1' := by decide
    unfold escapeNul
    split
    · simp [ih, h0]
    · next hc => simp [ih, h1, Ne.symm hc]

theorem length_escapeNul (cs : List Char) : (escapeNul cs).length = 2 * cs.length := by
  induction cs with
  | nil => rfl
  | cons c cs ih =>
    unfold escapeNul
    split <;> (simp only [List.length_cons, ih]; omega)

/-- A character has a byte at least. -/
theorem length_le_utf8Len (cs : List Char) : cs.length ≤ String.utf8Len cs := by
  induction cs with
  | nil => exact le_rfl
  | cons c cs ih =>
    have := c.utf8Size_pos
    rw [List.length_cons, String.utf8Len_cons]
    omega

/-- Passwords that are kept as they are, but for the NUL characters. -/
def plainBcrypt : Bcrypt where
  hashpw p _ := String.ofList (escapeNul p.toList)
  checkpw q hashed := hashed = String.ofList (escapeNul q.toList)
  accepts _ := decide_eq_true rfl
  fits {p salt} h := by
    have hlen := length_le_utf8Len p.toList
    rw [String.utf8Len_toList] at hlen
    rw [FitsString, String.length_ofList, String.toList_ofList, length_escapeNul]
    exact ⟨by omega, nul_notMem_escapeNul _⟩

/-- What `ann` submits. -/
def annSignUp (email password : String) : SignUp := ⟨email, password, "Ann", ⟨7⟩, ""⟩

/-- A clock at zero. -/
def atZero : AuthInput := ⟨0, fun i => ⟨100 + i⟩, []⟩

/-- An address in lower case and a password of nine bytes. -/
theorem registered_login_ann :
    let x := postRegister simpleEmailStr plainBcrypt [] (annSignUp "ann@example.com" "password1")
    ∃ user, x.1 = .ok user ∧
      ((AuthCall.login "ann@example.com" "password1").exec ⟨.default, verifyPassword plainBcrypt⟩
        { atZero with users := x.2 } .empty).1 = .ok (some (newPair .default atZero user.id)) :=
  (registered_login_iff simpleEmailStr plainBcrypt .default []
    (annSignUp "ann@example.com" "password1") ⟨"ann@example.com", "password1", "Ann"⟩ atZero .empty
    (by decide +kernel) (by rintro _ ⟨⟩) (by rintro _ ⟨⟩)).2 (by decide +kernel)

/-- **Who registers with a capital letter in the domain cannot log in with the same address, and who
chooses a password of more than 72 bytes cannot register**, though the schema accepts both. -/
theorem capitals_locked_out :
    (RegisterRequest.validate simpleEmailStr "ann@Example.com" "password1" "Ann" =
        some ⟨"ann@example.com", "password1", "Ann"⟩ ∧
      let x := postRegister simpleEmailStr plainBcrypt [] (annSignUp "ann@Example.com" "password1")
      x.1.isOk ∧
      ((AuthCall.login "ann@Example.com" "password1").exec ⟨.default, verifyPassword plainBcrypt⟩
        { atZero with users := x.2 } .empty).1 =
        .error (.authentication "Incorrect email or password")) ∧
    let long := String.ofList (List.replicate 73 'a')
    (RegisterRequest.validate simpleEmailStr "ann@example.com" long "Ann").isSome ∧
      (postRegister simpleEmailStr plainBcrypt [] (annSignUp "ann@example.com" long)).1 =
        .error .valueError := by
  decide +kernel

end EventSphere.Api
