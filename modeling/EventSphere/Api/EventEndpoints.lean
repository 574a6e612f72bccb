import EventSphere.Api.EventService
import EventSphere.Api.Security

/-!
# The event endpoints

`POST /events`, `PATCH /events/{event_id}` and `DELETE /events/{event_id}`
(`services/api/app/api/v1/events.py`), with the dependencies that authenticate a request and check
the role of its user (`services/api/app/api/deps.py`). A request is a program; any number of them
run interleaved, operation by operation, while roles and accounts change (`Endpoints.step`).

The guard stands in two places: the router lets organizers and admins pass, and the service lets an
organizer pass only for an event of their own (`EndpointProg.Guarded`). The owner that the service
has read is still the owner when the request writes, since no update sets `organizer_id` and no key
is used twice (`Endpoints.Owned`).
-/

namespace EventSphere.Api

/-! ## Users, calls and programs -/

/-- What the endpoints read of a row of the `users` table (`models/user.py:15`). -/
structure UserRow where
  id : UUID
  role : UserRole
  isActive : Bool
  deriving DecidableEq, Repr

/-- Reference: `UUIDPrimaryKeyMixin.id` (`base.py:24`). -/
instance : PrimaryKey UserRow UUID := ⟨UserRow.id⟩

/-- Reference: the values of `UserRole` (`enums.py:12`). -/
def UserRole.value : UserRole → String
  | attendee => "attendee"
  | organizer => "organizer"
  | admin => "admin"

/-- The requests of the endpoints; a body has been accepted by its schema. -/
inductive EndpointCall where
  | createEvent (data : EventCreate)
  | updateEvent (eventId : UUID) (data : EventUpdate)
  | deleteEvent (eventId : UUID)
  deriving DecidableEq, Repr

/-- The event that a request is about. -/
def EndpointCall.eventId : EndpointCall → Option UUID
  | createEvent _ => none
  | updateEvent eventId _ | deleteEvent eventId => some eventId

/-- A program that returns an `α`: the operations of the event service, and what the dependencies
and `EventService.delete` need besides. -/
inductive EndpointProg (α : Type) where
  | ret (a : α)
  | raise (e : EventError)
  /-- `jwt.decode` reads the clock. -/
  | now (k : Instant → EndpointProg α)
  /-- `UserRepository.get`: the user is the one of the request from here on. -/
  | getUser (id : UUID) (k : Option UserRow → EndpointProg α)
  | getEvent (eventId : UUID) (k : Option EventRow → EndpointProg α)
  | uuid4 (k : UUID → EndpointProg α)
  | addEvent (event : EventRow) (k : EndpointProg α)
  | setattrs (event : EventRow) (data : EventUpdate) (k : EndpointProg α)
  /-- `EventRepository.delete`: delete the event and flush. -/
  | deleteEvent (event : EventRow) (k : EndpointProg α)
  | commit (k : EndpointProg α)
  | publish (m : EventMessage) (k : EndpointProg α)

namespace EndpointProg

variable {α β : Type}

/-- Sequencing: exceptions pass through, everything else continues. -/
def bind : EndpointProg α → (α → EndpointProg β) → EndpointProg β
  | ret a, f => f a
  | raise e, _ => raise e
  | now k, f => now fun t => (k t).bind f
  | getUser id k, f => getUser id fun user => (k user).bind f
  | getEvent eventId k, f => getEvent eventId fun event => (k event).bind f
  | uuid4 k, f => uuid4 fun i => (k i).bind f
  | addEvent event k, f => addEvent event (k.bind f)
  | setattrs event data k, f => setattrs event data (k.bind f)
  | deleteEvent event k, f => deleteEvent event (k.bind f)
  | commit k, f => commit (k.bind f)
  | publish m k, f => publish m (k.bind f)

instance : Monad EndpointProg where
  pure := ret
  bind := bind

/-- A program of the event service. -/
def service : EventProg α → EndpointProg α
  | .ret a => ret a
  | .raise e => raise e
  | .getEvent eventId k => getEvent eventId fun event => service (k event)
  | .uuid4 k => uuid4 fun i => service (k i)
  | .addEvent event k => addEvent event (service k)
  | .setattrs event data k => setattrs event data (service k)
  | .commit k => commit (service k)
  | .publish m k => publish m (service k)

end EndpointProg

/-- Reference: `get_current_user` (`deps.py:26`). -/
def getCurrentUser (token : Token) : EndpointProg UserRow := do
  let now ← .now .ret
  match decodeToken now .access token with
  | .error e => .raise (.domain e)
  | .ok payload =>
    match ← .getUser payload.sub .ret with
    | none => .raise (.domain (.authentication "User not found or inactive"))
    | some user =>
      if ¬ user.isActive then .raise (.domain (.authentication "User not found or inactive"))
      else return user

/-- Reference: `require_roles` (`deps.py:37`). -/
def requireRoles (roles : List UserRole) (currentUser : UserRow) : EndpointProg CurrentUser :=
  if currentUser.role ∉ roles then
    .raise (.domain (.authorization
      ("Requires one of roles: " ++ ", ".intercalate (roles.map UserRole.value))))
  else return ⟨currentUser.id, currentUser.role⟩

/-- Reference: `EventService.delete` (`event_service.py:67`). -/
def deleteEvent (eventId : UUID) (currentUser : CurrentUser) : EndpointProg Unit := do
  let event ← .service (getEvent eventId)
  .service (requireOwnerOrAdmin event currentUser)
  .deleteEvent event (.ret ())
  .commit (.ret ())

/-- The program of a request: the dependencies and then the service. Reference: `OrganizerUser`
(`events.py:22`), `create_event`, `update_event`, `delete_event` (`events.py:54`). -/
def EndpointCall.body (call : EndpointCall) (token : Token) : EndpointProg (Option EventRow) := do
  let currentUser ← getCurrentUser token
  let currentUser ← requireRoles [.organizer, .admin] currentUser
  match call with
  | createEvent data => return some (← .service (Api.createEvent data currentUser))
  | updateEvent eventId data => return some (← .service (Api.updateEvent eventId data currentUser))
  | deleteEvent eventId =>
    Api.deleteEvent eventId currentUser
    return none

/-! ## Sessions and the next operation -/

/-- The state of a session: that of the event service, the event that is deleted, the user and the
event that have been loaded, and the key that has been drawn for a new event. -/
structure EndpointSession extends EventSession where
  delete : Option UUID
  user : Option UserRow
  event : Option EventRow
  key : Option UUID
  deriving DecidableEq, Repr

namespace EndpointSession

/-- A new session. -/
def empty : EndpointSession := ⟨.empty, none, none, none, none⟩

/-- What a commit makes of the committed events. -/
def commit (σ : EndpointSession) (events : Table EventRow) : Except EventError (Table EventRow) :=
  (σ.toEventSession.commit events).map fun events => σ.delete.elim events events.erase

/-- The session after a commit: what has been loaded stays loaded. -/
def committed (σ : EndpointSession) : EndpointSession :=
  { EventSession.empty with delete := none, user := σ.user, event := σ.event, key := none }

end EndpointSession

/-- What the environment supplies to one operation: the time, the key that is drawn, and whether
there is an order for the event. -/
structure EndpointInput where
  now : Instant
  uuid : UUID
  ordered : Bool

/-- What the next operation of a program does. -/
inductive EndpointNext (α : Type) where
  | ret (a : α)
  | raise (e : EventError)
  | continue (p : EndpointProg α) (σ : EndpointSession)
  | draw (i : UUID) (p : EndpointProg α)
  | commit (p : EndpointProg α) (events : Table EventRow)
  | publish (m : EventMessage) (p : EndpointProg α)

/-- The next operation of a program. The `DELETE` of an event is refused by the foreign key of an
order for it (`order.py:39`). -/
def EndpointProg.next {α : Type} (users : Table UserRow) (events : Table EventRow)
    (inp : EndpointInput) : EndpointProg α → EndpointSession → EndpointNext α
  | ret a, _ => .ret a
  | raise e, _ => .raise e
  | now k, σ => .continue (k inp.now) σ
  | getUser id k, σ => .continue (k (users.get id)) { σ with user := users.get id }
  | getEvent eventId k, σ =>
    .continue (k (events.get eventId)) { σ with event := events.get eventId }
  | uuid4 k, _ => .draw inp.uuid (k inp.uuid)
  | addEvent event k, σ =>
    match event.insertError events with
    | some e => .raise e
    | none => .continue k { σ with insert := some event }
  | setattrs event data k, σ =>
    .continue k { σ with changes := some (event.id, data.changes event) }
  | deleteEvent event k, σ =>
    if inp.ordered then .raise .integrity else .continue k { σ with delete := some event.id }
  | commit k, σ =>
    match σ.commit events with
    | .error e => .raise e
    | .ok events' => .commit k events'
  | publish m k, _ => .publish m k

/-! ## The interleaved system -/

/-- A request: running, ended, or cut off. -/
inductive EndpointRequest where
  | running (call : EndpointCall) (token : Token) (prog : EndpointProg (Option EventRow))
      (session : EndpointSession)
  | done (call : EndpointCall) (outcome : Except EventError (Option EventRow))
  | failed (call : EndpointCall)

/-- The session of a running request. -/
def EndpointRequest.session : EndpointRequest → Option EndpointSession
  | running _ _ _ σ => some σ
  | done .. | failed _ => none

/-- The request has ended with an `AuthorizationError`. -/
def EndpointRequest.refused : EndpointRequest → Bool
  | done _ (.error (.domain (.authorization _))) => true
  | running .. | done .. | failed _ => false

/-- A refused request has ended with an error. -/
theorem EndpointRequest.eq_of_refused {r : EndpointRequest} (h : r.refused = true) :
    ∃ call e, r = .done call (.error e) := by
  unfold refused at h
  split at h
  · exact ⟨_, _, rfl⟩
  all_goals cases h

/-- The committed users and events, the keys that have been drawn, every request so far and every
message so far. -/
structure Endpoints where
  users : Table UserRow
  events : Table EventRow
  drawn : Finset UUID
  requests : List EndpointRequest
  published : List EventMessage

/-- The steps of the system. -/
inductive EndpointAction where
  /-- The users change in any way: new accounts, other roles, deactivations. -/
  | users (users : Table UserRow)
  /-- A request arrives. -/
  | begin (call : EndpointCall) (token : Token)
  /-- A request runs its next operation. -/
  | advance (j : ℕ) (inp : EndpointInput)
  /-- A request is cut off, and its session is rolled back. -/
  | fail (j : ℕ)

/-- The step is one of request `j`. -/
def EndpointAction.Moves (j : ℕ) : EndpointAction → Prop
  | users _ | begin .. => False
  | advance j' _ | fail j' => j' = j

namespace Endpoints

/-- The system before the first request, with the users and the events that there are. -/
def start (users : Table UserRow) (events : Table EventRow) : Endpoints :=
  ⟨users, events, events.keys, [], []⟩

/-- Replace the state of request `j`. -/
def put (s : Endpoints) (j : ℕ) (r : EndpointRequest) : Endpoints :=
  { s with requests := s.requests.set j r }

/-- The next operation of request `j`. A key that is drawn has not been drawn before. -/
def advance (s : Endpoints) (j : ℕ) (inp : EndpointInput) (call : EndpointCall) (token : Token)
    (p : EndpointProg (Option EventRow)) (σ : EndpointSession) : Option Endpoints :=
  match p.next s.users s.events inp σ with
  | .ret a => some (s.put j (.done call (.ok a)))
  | .raise e => some (s.put j (.done call (.error e)))
  | .continue p' σ' => some (s.put j (.running call token p' σ'))
  | .draw i p' =>
    if i ∈ s.drawn then none
    else
      some { s.put j (.running call token p' { σ with key := some i }) with
        drawn := insert i s.drawn }
  | .commit p' events => some { s.put j (.running call token p' σ.committed) with events }
  | .publish m p' =>
    some { s.put j (.running call token p' σ) with published := s.published ++ [m] }

/-- One step of the interleaved system. -/
def step (s : Endpoints) : EndpointAction → Option Endpoints
  | .users users => some { s with users }
  | .begin call token =>
    some { s with requests := s.requests ++ [.running call token (call.body token) .empty] }
  | .advance j inp =>
    match s.requests[j]? with
    | some (.running call token p σ) => s.advance j inp call token p σ
    | _ => none
  | .fail j =>
    match s.requests[j]? with
    | some (.running call _ _ _) => some (s.put j (.failed call))
    | _ => none

end Endpoints

/-! ## The guard -/

/-- The user may modify the event: as an admin, or as the organizer that the event belongs to. -/
def UserRow.MayModify (user : UserRow) (event : EventRow) : Prop :=
  user.role = .admin ∨ user.role = .organizer ∧ user.id = event.organizerId

instance (user : UserRow) (event : EventRow) : Decidable (user.MayModify event) :=
  inferInstanceAs (Decidable (_ ∨ _ ∧ _))

/-- The session may write the event with the key: the request is about it, and the user of its
token, as it was loaded, may modify the event as it was loaded. -/
def EndpointSession.MayWrite (σ : EndpointSession) (call : EndpointCall) (token : Token)
    (i : UUID) : Prop :=
  call.eventId = some i ∧ ∃ event ∈ σ.event, event.id = i ∧
    ∃ user ∈ σ.user, token.sub = some user.id ∧ user.isActive = true ∧ user.MayModify event

namespace EndpointProg

/-- The program of a request that has committed publishes and returns. -/
def Settled : EndpointProg (Option EventRow) → Prop
  | ret _ => True
  | publish _ k => k.Settled
  | raise _ | now _ | getUser .. | getEvent .. | uuid4 _ | addEvent .. | setattrs ..
  | deleteEvent ..
  | commit _ => False

/-- Whatever the operations answer, the program commits once, an event with the key that it has
drawn or changes of an event that it may write, and publishes nothing before. -/
def Guarded (call : EndpointCall) (token : Token) :
    EndpointProg (Option EventRow) → EndpointSession → Prop
  | ret _, _ | raise _, _ => True
  | now k, σ => ∀ t, (k t).Guarded call token σ
  | getUser id k, σ => ∀ user : Option UserRow, (∀ u ∈ user, u.id = id) →
    (k user).Guarded call token { σ with user }
  | getEvent i k, σ => ∀ event : Option EventRow, (∀ e ∈ event, e.id = i) →
    (k event).Guarded call token { σ with event }
  | uuid4 k, σ => ∀ i, (k i).Guarded call token { σ with key := some i }
  | addEvent event k, σ => k.Guarded call token { σ with insert := some event }
  | setattrs event data k, σ =>
    k.Guarded call token { σ with changes := some (event.id, data.changes event) }
  | deleteEvent event k, σ => k.Guarded call token { σ with delete := some event.id }
  | commit k, σ => (∀ event ∈ σ.insert, σ.key = some event.id) ∧
    (∀ x ∈ σ.changes, σ.MayWrite call token x.1) ∧
    (∀ i ∈ σ.delete, σ.MayWrite call token i) ∧ k.Settled
  | publish _ _, _ => False

end EndpointProg

section
variable {call : EndpointCall} {token : Token}

/-- The dependency that authenticates a request goes on with the active user of its token. -/
theorem getCurrentUser_guarded {f : UserRow → EndpointProg (Option EventRow)}
    (hf : ∀ user, token.sub = some user.id → user.isActive = true →
      (f user).Guarded call token { EndpointSession.empty with user := some user }) :
    (getCurrentUser token >>= f).Guarded call token .empty := by
  intro now
  show (EndpointProg.bind (match decodeToken now .access token with
    | .error e => _
    | .ok payload => _) f).Guarded call token .empty
  cases hd : decodeToken now .access token with
  | error e => trivial
  | ok payload =>
    intro user hid
    cases user with
    | none => trivial
    | some user =>
      have hsub : token.sub = some user.id := by
        rw [decodeToken_eq_ok hd, hid user rfl]
        rfl
      show (EndpointProg.bind (if ¬ user.isActive then _ else _) f).Guarded call token _
      split
      · trivial
      · next ha => exact hf user hsub (not_not.1 ha)

/-- The dependency that checks roles lets organizers and admins pass. -/
theorem requireRoles_guarded {user : UserRow} {f : CurrentUser → EndpointProg (Option EventRow)}
    {σ : EndpointSession}
    (hf : user.role = .organizer ∨ user.role = .admin →
      (f ⟨user.id, user.role⟩).Guarded call token σ) :
    (requireRoles [.organizer, .admin] user >>= f).Guarded call token σ := by
  show (EndpointProg.bind (if user.role ∉ [UserRole.organizer, .admin] then _ else _) f).Guarded ..
  split
  · trivial
  · next h => exact hf (by simpa [or_iff_not_imp_left] using h)

/-- The check of the owner lets an organizer or admin pass who may modify the event. -/
theorem requireOwnerOrAdmin_cases {user : UserRow}
    (hrole : user.role = .organizer ∨ user.role = .admin) (event : EventRow) :
    requireOwnerOrAdmin event ⟨user.id, user.role⟩ = .ret () ∧ user.MayModify event ∨
      ∃ e, requireOwnerOrAdmin event ⟨user.id, user.role⟩ = .raise e := by
  unfold requireOwnerOrAdmin
  split
  · exact .inr ⟨_, rfl⟩
  · next h =>
    refine .inl ⟨rfl, ?_⟩
    rcases hrole with hrole | hrole
    · have howner : event.organizerId = user.id := by
        by_contra hne
        exact h ⟨by simp [hrole], hne⟩
      exact .inr ⟨hrole, howner.symm⟩
    · exact .inl hrole

end

/-- **Every request is guarded.** -/
theorem EndpointCall.body_guarded (call : EndpointCall) (token : Token) :
    (call.body token).Guarded call token .empty := by
  refine getCurrentUser_guarded fun user hsub hactive => requireRoles_guarded fun hrole => ?_
  cases call with
  | createEvent data =>
    intro i
    refine ⟨fun event he => ?_, nofun, nofun, trivial⟩
    cases he
    rfl
  | updateEvent eventId data =>
    intro event hid
    cases event with
    | none => trivial
    | some event =>
      show (EndpointProg.bind (.service (.bind (requireOwnerOrAdmin event _) _)) _).Guarded ..
      rcases requireOwnerOrAdmin_cases hrole event with ⟨he, hmay⟩ | ⟨e, he⟩
      · rw [he]
        refine ⟨nofun, fun x hx => ?_, nofun, ?_⟩
        · cases hx
          exact ⟨congrArg some (hid event rfl).symm, event, rfl, rfl, user, rfl, hsub, hactive,
            hmay⟩
        · show (EndpointProg.bind (.service
            (if data.totalSeats.join.any (· ≠ event.totalSeats) then _ else _)) _).Settled
          split
          · trivial
          · trivial
      · rw [he]
        trivial
  | deleteEvent eventId =>
    intro event hid
    cases event with
    | none => trivial
    | some event =>
      show (EndpointProg.bind (.bind (.service (requireOwnerOrAdmin event _)) _) _).Guarded ..
      rcases requireOwnerOrAdmin_cases hrole event with ⟨he, hmay⟩ | ⟨e, he⟩
      · rw [he]
        refine ⟨nofun, nofun, fun i hi => ?_, trivial⟩
        cases hi
        exact ⟨congrArg some (hid event rfl).symm, event, rfl, rfl, user, rfl, hsub, hactive, hmay⟩
      · rw [he]
        trivial

/-! ## Steps -/

/-- What an operation does to its session: it draws no key, and what it loads is in the tables. -/
structure EndpointSession.Loads (users : Table UserRow) (events : Table EventRow)
    (σ σ' : EndpointSession) : Prop where
  key : σ'.key = σ.key
  event : ∀ event ∈ σ'.event, event ∈ σ.event ∨ events.get event.id = some event
  user : ∀ user ∈ σ'.user, user ∈ σ.user ∨ users.get user.id = some user

namespace EndpointProg

variable {users : Table UserRow} {events : Table EventRow} {inp : EndpointInput}
  {p p' : EndpointProg (Option EventRow)} {σ σ' : EndpointSession}

/-- An operation that goes on loads what it finds. -/
theorem loads_of_next (hn : p.next users events inp σ = .continue p' σ') :
    σ.Loads users events σ' := by
  have hsame : σ.Loads users events σ := ⟨rfl, fun _ => .inl, fun _ => .inl⟩
  cases p with
  | now k => cases hn; exact hsame
  | setattrs event data k => cases hn; exact ⟨rfl, fun _ => .inl, fun _ => .inl⟩
  | getUser id k =>
    cases hn
    refine ⟨rfl, fun _ => .inl, fun user hu => .inr ?_⟩
    have hid : user.id = id := users.pk_of_get hu
    exact hid ▸ hu
  | getEvent eventId k =>
    cases hn
    refine ⟨rfl, fun event he => .inr ?_, fun _ => .inl⟩
    have hid : event.id = eventId := events.pk_of_get he
    exact hid ▸ he
  | addEvent event k =>
    simp only [next] at hn
    split at hn
    · cases hn
    · cases hn; exact ⟨rfl, fun _ => .inl, fun _ => .inl⟩
  | deleteEvent event k =>
    simp only [next] at hn
    split at hn
    · cases hn
    · cases hn; exact ⟨rfl, fun _ => .inl, fun _ => .inl⟩
  | commit k => simp only [next] at hn; split at hn <;> cases hn
  | ret | raise | uuid4 | publish => cases hn

/-- The next operation of a guarded program leaves a guarded one. -/
theorem Guarded.continue {call : EndpointCall} {token : Token} (h : p.Guarded call token σ)
    (hn : p.next users events inp σ = .continue p' σ') : p'.Guarded call token σ' := by
  cases p with
  | now k => cases hn; exact h _
  | getUser id k => cases hn; exact h _ fun u hu => users.pk_of_get hu
  | getEvent eventId k => cases hn; exact h _ fun e he => events.pk_of_get he
  | setattrs event data k => cases hn; exact h
  | addEvent event k =>
    simp only [next] at hn
    split at hn
    · cases hn
    · cases hn; exact h
  | deleteEvent event k =>
    simp only [next] at hn
    split at hn
    · cases hn
    · cases hn; exact h
  | commit k => simp only [next] at hn; split at hn <;> cases hn
  | ret | raise | uuid4 | publish => cases hn

end EndpointProg

namespace EndpointSession

variable {σ : EndpointSession} {events events' : Table EventRow}

/-- An accepted commit, as that of the event service and the deletion. -/
theorem commit_eq_ok (hc : σ.commit events = .ok events') :
    ∃ written, σ.toEventSession.commit events = .ok written ∧
      events' = σ.delete.elim written written.erase := by
  unfold commit at hc
  cases hw : σ.toEventSession.commit events with
  | error e => rw [hw] at hc; cases hc
  | ok written => rw [hw] at hc; cases hc; exact ⟨written, rfl, rfl⟩

/-- The rows after a commit: those that were there, the inserted one and the changed one. -/
theorem commit_get (hc : σ.commit events = .ok events') {i : UUID} {event : EventRow}
    (he : events'.get i = some event) :
    events.get i = some event ∨ σ.insert = some event ∧ event.id = i ∨
      ∃ data cur, events.get i = some cur ∧ event = EventUpdate.apply data cur := by
  obtain ⟨written, hw, rfl⟩ := commit_eq_ok hc
  have he : written.get i = some event := by
    cases hd : σ.delete with
    | none => rwa [hd] at he
    | some k =>
      rw [hd, Option.elim_some, Table.get_erase] at he
      split at he
      · cases he
      · exact he
  rcases EventSession.commit_eq_ok hw with ⟨-, rfl⟩ | ⟨-, -, rfl⟩ | ⟨k, data, cur, -, -, hcur, rfl⟩
  · cases hi : σ.insert with
    | none => rw [hi] at he; exact .inl he
    | some new =>
      rw [hi] at he
      rcases Table.get_set_inv he with ⟨hid, rfl⟩ | he
      · exact .inr (.inl ⟨rfl, hid.symm⟩)
      · exact .inl he
  · exact .inl he
  · rcases Table.get_set_inv he with ⟨hid, rfl⟩ | he
    · have hk : cur.id = k := events.pk_of_get hcur
      obtain rfl : i = k := hid.trans hk
      exact .inr (.inr ⟨data, cur, hcur, rfl⟩)
    · exact .inl he

/-- A row stays in a commit that does not write its key. -/
theorem commit_frame (hc : σ.commit events = .ok events') {i : UUID} {event : EventRow}
    (he : events.get i = some event) (hinsert : ∀ new ∈ σ.insert, new.id ≠ i)
    (hchanges : ∀ x ∈ σ.changes, x.1 ≠ i) (hdelete : i ∉ σ.delete) :
    events'.get i = some event := by
  obtain ⟨written, hw, rfl⟩ := commit_eq_ok hc
  have hwritten : written.get i = some event := by
    rcases EventSession.commit_eq_ok hw with ⟨-, rfl⟩ | ⟨-, -, rfl⟩ |
      ⟨k, data, cur, hk, -, hcur, rfl⟩
    · cases hi : σ.insert with
      | none => exact he
      | some new => exact (Table.get_set_of_ne _ (Ne.symm (hinsert new hi))).trans he
    · exact he
    · have hid : cur.id = k := events.pk_of_get hcur
      have hne : i ≠ (data.apply cur).id := fun h => hchanges _ hk (hid.symm.trans h.symm)
      exact (Table.get_set_of_ne _ hne).trans he
  cases hd : σ.delete with
  | none => exact hwritten
  | some k =>
    rw [Option.elim_some, Table.get_erase, if_neg fun hk : i = k => hdelete (hk ▸ hd)]
    exact hwritten

end EndpointSession

namespace Endpoints

/-- The step as one of its kinds. -/
inductive StepKind (s : Endpoints) : EndpointAction → Endpoints → Prop
  | users (users : Table UserRow) : StepKind s (.users users) { s with users }
  | begin (call : EndpointCall) (token : Token) : StepKind s (.begin call token)
      { s with requests := s.requests ++ [.running call token (call.body token) .empty] }
  /-- A request ends; after its commit it does so without an error. -/
  | ended {j : ℕ} {a : EndpointAction} {call : EndpointCall} {token : Token}
      {p : EndpointProg (Option EventRow)} {σ : EndpointSession} {r : EndpointRequest}
      (hj : s.requests[j]? = some (.running call token p σ)) (hr : r.session = none)
      (hp : p.Settled → ∀ call' e, r ≠ .done call' (.error e)) : StepKind s a (s.put j r)
  | continue {j : ℕ} {inp : EndpointInput} {call : EndpointCall} {token : Token}
      {p p' : EndpointProg (Option EventRow)} {σ σ' : EndpointSession}
      (hj : s.requests[j]? = some (.running call token p σ))
      (hn : p.next s.users s.events inp σ = .continue p' σ') :
      StepKind s (.advance j inp) (s.put j (.running call token p' σ'))
  | draw {j : ℕ} {inp : EndpointInput} {call : EndpointCall} {token : Token}
      {k : UUID → EndpointProg (Option EventRow)} {σ : EndpointSession}
      (hj : s.requests[j]? = some (.running call token (.uuid4 k) σ))
      (hfresh : inp.uuid ∉ s.drawn) :
      StepKind s (.advance j inp)
        { s.put j (.running call token (k inp.uuid) { σ with key := some inp.uuid }) with
          drawn := insert inp.uuid s.drawn }
  | commit {j : ℕ} {inp : EndpointInput} {call : EndpointCall} {token : Token}
      {p : EndpointProg (Option EventRow)} {σ : EndpointSession} {events : Table EventRow}
      (hj : s.requests[j]? = some (.running call token (.commit p) σ))
      (hc : σ.commit s.events = .ok events) :
      StepKind s (.advance j inp) { s.put j (.running call token p σ.committed) with events }
  | publish {j : ℕ} {inp : EndpointInput} {call : EndpointCall} {token : Token} {m : EventMessage}
      {p : EndpointProg (Option EventRow)} {σ : EndpointSession}
      (hj : s.requests[j]? = some (.running call token (.publish m p) σ)) :
      StepKind s (.advance j inp)
        { s.put j (.running call token p σ) with published := s.published ++ [m] }

variable {s s' : Endpoints} {a : EndpointAction}

/-- Every step is of one of the kinds. -/
theorem step_kind (hs : s.step a = some s') : StepKind s a s' := by
  cases a with
  | users users => cases hs; exact .users users
  | begin call token => cases hs; exact .begin call token
  | fail j =>
    simp only [step] at hs
    split at hs
    · next call token p σ hj =>
      cases hs
      exact .ended hj rfl fun _ _ _ h => by cases h
    · cases hs
  | advance j inp =>
    simp only [step] at hs
    split at hs
    · next call token p σ hj =>
      unfold advance at hs
      cases p with
      | ret x => cases hs; exact .ended hj rfl fun _ _ _ h => by cases h
      | raise e => cases hs; exact .ended hj rfl fun h => h.elim
      | now | getUser | getEvent | setattrs => cases hs; exact .continue hj rfl
      | uuid4 k =>
        simp only [EndpointProg.next] at hs
        split at hs
        · cases hs
        · next hfresh => cases hs; exact .draw hj hfresh
      | addEvent event k =>
        simp only [EndpointProg.next] at hs
        cases he : event.insertError s.events with
        | some e => rw [he] at hs; cases hs; exact .ended hj rfl fun h => h.elim
        | none =>
          rw [he] at hs
          cases hs
          exact .continue hj (by simp only [EndpointProg.next, he])
      | deleteEvent event k =>
        simp only [EndpointProg.next] at hs
        by_cases ho : inp.ordered = true
        · rw [if_pos ho] at hs
          cases hs
          exact .ended hj rfl fun h => h.elim
        · rw [if_neg ho] at hs
          cases hs
          exact .continue hj (by simp only [EndpointProg.next, if_neg ho])
      | commit k =>
        simp only [EndpointProg.next] at hs
        cases hc : σ.commit s.events with
        | error e => rw [hc] at hs; cases hs; exact .ended hj rfl fun h => h.elim
        | ok events => rw [hc] at hs; cases hs; exact .commit hj hc
      | publish m k => cases hs; exact .publish hj
    · cases hs

/-! ## Owners -/

/-- The session of a running request. -/
def session (s : Endpoints) (j : ℕ) : Option EndpointSession := (s.requests[j]?).bind (·.session)

/-- The sessions after a move of one request. -/
theorem session_set {j : ℕ} {r r' : EndpointRequest} (hj : s.requests[j]? = some r)
    (hreq : s'.requests = s.requests.set j r') :
    s'.session = Function.update s.session j r'.session := by
  funext j'
  rw [session, hreq, getElem?_set_of_getElem? hj, Function.update_apply]
  split
  · rfl
  · rfl

/-- `owner` knows the organizer of every event that has ever been committed: of the events that
there are, and of those that a request has loaded. A key that a request has drawn for a new event is
in no other hands. -/
structure OwnedBy (owner : UUID → Option UUID) (s : Endpoints) : Prop where
  events : ∀ {i event}, s.events.get i = some event → owner i = some event.organizerId
  drawn : ∀ {i}, i ∉ s.drawn → owner i = none
  running : ∀ {j : ℕ} {call token p σ}, s.requests[j]? =
    some (EndpointRequest.running call token p σ) →
    p.Guarded call token σ ∨ p.Settled
  loaded : ∀ {j σ}, s.session j = some σ →
    ∀ event ∈ σ.event, owner event.id = some event.organizerId
  key : ∀ {j σ}, s.session j = some σ → ∀ i ∈ σ.key, i ∈ s.drawn ∧ owner i = none
  keys : ∀ {j j' σ σ' i}, s.session j = some σ → s.session j' = some σ' → σ.key = some i →
    σ'.key = some i → j = j'

/-- The owners before the first request. -/
theorem ownedBy_start (users : Table UserRow) (events : Table EventRow) :
    (start users events).OwnedBy fun i => (events.get i).map EventRow.organizerId where
  events h := congrArg (Option.map EventRow.organizerId) h
  drawn h := congrArg (Option.map EventRow.organizerId) (Table.get_eq_none.2 h)
  running := nofun
  loaded := nofun
  key := nofun
  keys := nofun

/-- The owners after a move of request `j`. -/
theorem OwnedBy.move {owner owner' : UUID → Option UUID} (h : s.OwnedBy owner) {j : ℕ}
    {r r' : EndpointRequest} (hj : s.requests[j]? = some r)
    (hreq : s'.requests = s.requests.set j r')
    (howner : ∀ {i o}, owner i = some o → owner' i = some o)
    (hevents : ∀ {i event}, s'.events.get i = some event → owner' i = some event.organizerId)
    (hdrawn : ∀ {i}, i ∉ s'.drawn → owner' i = none) (hsub : s.drawn ⊆ s'.drawn)
    (hother : ∀ {j' σ i}, j' ≠ j → s.session j' = some σ → σ.key = some i → owner' i = none)
    (hr : ∀ {call token p σ}, r' = EndpointRequest.running call token p σ →
      p.Guarded call token σ ∨ p.Settled)
    (hloaded : ∀ {σ}, r'.session = some σ →
      ∀ event ∈ σ.event, owner event.id = some event.organizerId)
    (hkey : ∀ {σ i}, r'.session = some σ → σ.key = some i → i ∈ s'.drawn ∧ owner' i = none ∧
      ∀ {j' σ'}, j' ≠ j → s.session j' = some σ' → σ'.key ≠ some i) : s'.OwnedBy owner' := by
  have hold {j' : ℕ} {σ : EndpointSession} (hσ : s'.session j' = some σ) :
      j' = j ∧ r'.session = some σ ∨ j' ≠ j ∧ s.session j' = some σ := by
    rw [session_set hj hreq, Function.update_apply] at hσ
    split at hσ
    · next he => exact .inl ⟨he, hσ⟩
    · next hne => exact .inr ⟨hne, hσ⟩
  refine ⟨hevents, hdrawn, fun hx => ?_, fun hσ event he => ?_, fun hσ i hi => ?_,
    fun hσ hσ' hi hi' => ?_⟩
  · rw [hreq] at hx
    rcases getElem?_set_inv hx with ⟨-, he⟩ | ⟨-, hx⟩
    · exact hr he.symm
    · exact h.running hx
  · rcases hold hσ with ⟨-, hσ⟩ | ⟨-, hσ⟩
    · exact howner (hloaded hσ event he)
    · exact howner (h.loaded hσ event he)
  · rcases hold hσ with ⟨-, hσ⟩ | ⟨hne, hσ⟩
    · exact ⟨(hkey hσ hi).1, (hkey hσ hi).2.1⟩
    · exact ⟨hsub (h.key hσ i hi).1, hother hne hσ hi⟩
  · rcases hold hσ with ⟨rfl, hσ⟩ | ⟨hne, hσ⟩
    · rcases hold hσ' with ⟨rfl, -⟩ | ⟨hne', hσ'⟩
      · rfl
      · exact absurd hi' ((hkey hσ hi).2.2 hne' hσ')
    · rcases hold hσ' with ⟨rfl, hσ'⟩ | ⟨-, hσ'⟩
      · exact absurd hi ((hkey hσ' hi').2.2 hne hσ)
      · exact h.keys hσ hσ' hi hi'

/-- The commit of a request makes known the organizer of the event that it has inserted. -/
theorem OwnedBy.commit {owner : UUID → Option UUID} (h : s.OwnedBy owner) {j : ℕ}
    {call : EndpointCall} {token : Token} {p : EndpointProg (Option EventRow)} {σ : EndpointSession}
    {events : Table EventRow} (hj : s.requests[j]? = some (.running call token (.commit p) σ))
    (hc : σ.commit s.events = .ok events) :
    ∃ owner', OwnedBy owner' { s.put j (.running call token p σ.committed) with events } ∧
      ∀ {i o}, owner i = some o → owner' i = some o := by
  have hσ : s.session j = some σ := by rw [session, hj]; rfl
  obtain ⟨hins, -, -, hp⟩ := (h.running hj).resolve_right id
  have hfree : ∀ event ∈ σ.insert, owner event.id = none := fun event he =>
    (h.key hσ _ (hins event he)).2
  let owner' : UUID → Option UUID :=
    σ.insert.elim owner fun event => Function.update owner event.id (some event.organizerId)
  have hold {i : UUID} (hi : ∀ event ∈ σ.insert, i ≠ event.id) : owner' i = owner i := by
    unfold owner'
    cases he : σ.insert with
    | none => rfl
    | some event => exact Function.update_of_ne (hi event he) ..
  have howner {i o : UUID} (ho : owner i = some o) : owner' i = some o := by
    refine (hold fun event he hi => ?_).trans ho
    rw [hi, hfree event he] at ho
    cases ho
  refine ⟨owner', h.move hj rfl howner (fun {i event} he => ?_) (fun {i} hi => ?_)
    (Finset.Subset.refl _) (fun {j' σ' i} hne hσ' hi => ?_) (fun he => by cases he; exact .inr hp)
    (fun {σ'} hσ' event he => ?_) (fun {σ' i} hσ' hi => ?_), howner⟩
  · rcases EndpointSession.commit_get hc he with he | ⟨hi, rfl⟩ | ⟨data, cur, hcur, rfl⟩
    · exact howner (h.events he)
    · simp [owner', hi]
    · have ho : owner i = some cur.organizerId := h.events hcur
      exact howner ho
  · refine (hold fun event he hid => hi ?_).trans (h.drawn hi)
    exact hid ▸ (h.key hσ _ (hins event he)).1
  · refine (hold fun event he hid => hne ?_).trans (h.key hσ' i hi).2
    exact h.keys hσ' hσ (hid ▸ hi) (hins event he)
  · cases hσ'
    exact h.loaded hσ event he
  · cases hσ'
    cases hi

/-- **One step keeps the owners**, and the owner of a committed event does not change. -/
theorem OwnedBy.step {owner : UUID → Option UUID} (h : s.OwnedBy owner) (hs : s.step a = some s') :
    ∃ owner', s'.OwnedBy owner' ∧ ∀ {i o}, owner i = some o → owner' i = some o := by
  cases step_kind hs with
  | users users => exact ⟨owner, ⟨h.events, h.drawn, h.running, h.loaded, h.key, h.keys⟩, id⟩
  | begin call token =>
    have hsession {j : ℕ} {σ : EndpointSession}
        (hσ : session { s with requests := s.requests ++
          [.running call token (call.body token) .empty] } j = some σ) :
        s.session j = some σ ∨ σ = .empty := by
      obtain ⟨r, hr, hσ⟩ := Option.bind_eq_some_iff.1 hσ
      rcases getElem?_append_singleton hr with hr | ⟨-, rfl⟩
      · exact .inl (Option.bind_eq_some_iff.2 ⟨r, hr, hσ⟩)
      · exact .inr (Option.some.inj hσ).symm
    refine ⟨owner, ⟨h.events, h.drawn, fun hx => ?_, fun hσ event he => ?_, fun hσ i hi => ?_,
      fun hσ hσ' hi hi' => ?_⟩, id⟩
    · rcases getElem?_append_singleton hx with hx | ⟨-, he⟩
      · exact h.running hx
      · cases he
        exact .inl (EndpointCall.body_guarded call token)
    · rcases hsession hσ with hσ | rfl
      · exact h.loaded hσ event he
      · cases he
    · rcases hsession hσ with hσ | rfl
      · exact h.key hσ i hi
      · cases hi
    · rcases hsession hσ with hσ | rfl
      · rcases hsession hσ' with hσ' | rfl
        · exact h.keys hσ hσ' hi hi'
        · cases hi'
      · cases hi
  | ended hj hr =>
    refine ⟨owner, h.move hj rfl id h.events h.drawn (Finset.Subset.refl _)
      (fun _ hσ hi => (h.key hσ _ hi).2) (fun he => ?_) (fun hσ => ?_) fun hσ => ?_, id⟩
    · rw [he] at hr
      cases hr
    · rw [hr] at hσ
      cases hσ
    · rw [hr] at hσ
      cases hσ
  | @«continue» j inp call token p p' σ σ' hj hn =>
    have hσ : s.session j = some σ := by rw [session, hj]; rfl
    have hloads := EndpointProg.loads_of_next hn
    refine ⟨owner, h.move hj rfl id h.events h.drawn (Finset.Subset.refl _)
      (fun _ hσ hi => (h.key hσ _ hi).2) (fun he => ?_) (fun hσ' event he => ?_)
      (fun {_ i} hσ' hi => ?_), id⟩
    · cases he
      rcases h.running hj with hp | hp
      · exact .inl (hp.continue hn)
      · cases p with
        | ret | publish => cases hn
        | raise | now | getUser | getEvent | uuid4 | addEvent | setattrs | deleteEvent | commit =>
          exact hp.elim
    · cases hσ'
      rcases hloads.event event he with he | he
      · exact h.loaded hσ event he
      · exact h.events he
    · cases hσ'
      rw [hloads.key] at hi
      refine ⟨(h.key hσ i hi).1, (h.key hσ i hi).2, fun hne hσ'' hi'' => hne ?_⟩
      exact h.keys hσ'' hσ hi'' hi
  | @draw j inp call token k σ hj hfresh =>
    have hσ : s.session j = some σ := by rw [session, hj]; rfl
    refine ⟨owner, h.move hj rfl id h.events (fun hi => h.drawn fun hi' => hi ?_)
      (Finset.subset_insert _ _) (fun _ hσ hi => (h.key hσ _ hi).2) (fun he => ?_)
      (fun hσ' event he => ?_) (fun {_ i} hσ' hi => ?_), id⟩
    · exact Finset.mem_insert_of_mem hi'
    · cases he
      exact .inl ((h.running hj).resolve_right id _)
    · cases hσ'
      exact h.loaded hσ event he
    · cases hσ'
      cases hi
      refine ⟨Finset.mem_insert_self _ _, h.drawn hfresh, fun _ hσ'' hi'' => hfresh ?_⟩
      exact (h.key hσ'' _ hi'').1
  | commit hj hc => exact h.commit hj hc
  | @publish j inp call token m p σ hj =>
    have hσ : s.session j = some σ := by rw [session, hj]; rfl
    have hp : p.Settled := (h.running hj).resolve_left id
    refine ⟨owner, h.move hj rfl id h.events h.drawn (Finset.Subset.refl _)
      (fun _ hσ hi => (h.key hσ _ hi).2) (fun he => by cases he; exact .inr hp)
      (fun hσ' event he => ?_) (fun {_ i} hσ' hi => ?_), id⟩
    · cases hσ'
      exact h.loaded hσ event he
    · cases hσ'
      refine ⟨(h.key hσ i hi).1, (h.key hσ i hi).2, fun hne hσ'' hi'' => hne ?_⟩
      exact h.keys hσ'' hσ hi'' hi

/-- **Only who may modify an event writes it**: the user of a request about it. -/
theorem OwnedBy.writes {owner : UUID → Option UUID} (h : s.OwnedBy owner) (hs : s.step a = some s')
    {i : UUID} {event : EventRow} (he : s.events.get i = some event) :
    s'.events.get i = some event ∨ ∃ j inp call token p σ, a = .advance j inp ∧
      s.requests[j]? = some (.running call token p σ) ∧ call.eventId = some i ∧
      ∃ user ∈ σ.user, token.sub = some user.id ∧ user.isActive = true ∧ user.MayModify event := by
  cases step_kind hs with
  | @commit j inp call token p σ events hj hc =>
    have hσ : s.session j = some σ := by rw [session, hj]; rfl
    obtain ⟨hins, hchanges, hdelete, -⟩ := (h.running hj).resolve_right id
    by_cases hw : σ.MayWrite call token i
    · obtain ⟨hcall, event', he', hid, user, hu, hsub, hactive, hmay⟩ := hw
      have howner : event'.organizerId = event.organizerId := by
        have hloaded := h.loaded hσ event' he'
        rw [hid, h.events he] at hloaded
        exact (Option.some.inj hloaded).symm
      refine .inr ⟨j, inp, call, token, .commit p, σ, rfl, hj, hcall, user, hu, hsub, hactive, ?_⟩
      rwa [UserRow.MayModify, ← howner]
    · refine .inl (EndpointSession.commit_frame hc he (fun new hnew hid => ?_) (fun x hx hk => ?_)
        fun hd => hw (hdelete i hd))
      · have hfree := (h.key hσ _ (hins new hnew)).2
        rw [hid, h.events he] at hfree
        cases hfree
      · exact hw (hk ▸ hchanges x hx)
  | users | begin | ended | «continue» | draw | publish => exact .inl he

/-! ## Refused requests -/

/-- The request has committed: it will end without an error, unless it is cut off. -/
def Settled (s : Endpoints) (j : ℕ) : Prop :=
  ∃ r, s.requests[j]? = some r ∧
    ((∃ call token p σ, r = .running call token p σ ∧ p.Settled) ∨
      r.session = none ∧ ∀ call e, r ≠ .done call (.error e))

/-- A request that has committed stays so. -/
theorem Settled.step {j : ℕ} (h : s.Settled j) (hs : s.step a = some s') : s'.Settled j := by
  obtain ⟨r, hj, hr⟩ := h
  -- the request itself moves to `r'`, or another one moves
  have hput {j' : ℕ} {r' : EndpointRequest} {requests : List EndpointRequest}
      (hreq : requests = s.requests.set j' r')
      (hr' : j' = j → (∃ call token p σ, r' = .running call token p σ ∧ p.Settled) ∨
        r'.session = none ∧ ∀ call e, r' ≠ .done call (.error e)) :
      ∃ r, requests[j]? = some r ∧ ((∃ call token p σ, r = .running call token p σ ∧ p.Settled) ∨
        r.session = none ∧ ∀ call e, r ≠ .done call (.error e)) := by
    rw [hreq]
    by_cases he : j' = j
    · subst he
      have hlt := (List.getElem?_eq_some_iff.1 hj).1
      exact ⟨r', List.getElem?_set_self hlt, hr' rfl⟩
    · exact ⟨r, (List.getElem?_set_ne he).trans hj, hr⟩
  -- a running request that has committed runs a settled program
  have hsettled {j' : ℕ} {call token p σ}
      (hj' : s.requests[j']? = some (EndpointRequest.running call token p σ)) (he : j' = j) :
      p.Settled := by
    subst he
    cases hj.symm.trans hj'
    rcases hr with ⟨_, _, _, _, he, hp⟩ | ⟨hnone, -⟩
    · cases he
      exact hp
    · cases hnone
  cases step_kind hs with
  | users users => exact ⟨r, hj, hr⟩
  | begin call token =>
    have hlt := (List.getElem?_eq_some_iff.1 hj).1
    exact ⟨r, (List.getElem?_append_left hlt).trans hj, hr⟩
  | ended hj' hr' hp => exact hput rfl fun he => .inr ⟨hr', hp (hsettled hj' he)⟩
  | @«continue» j' inp call token p p' σ σ' hj' hn =>
    refine hput rfl fun he => ?_
    have hp := hsettled hj' he
    cases p with
    | ret | publish => cases hn
    | raise | now | getUser | getEvent | uuid4 | addEvent | setattrs | deleteEvent | commit =>
      exact hp.elim
  | draw hj' => exact hput rfl fun he => (hsettled hj' he).elim
  | commit hj' => exact hput rfl fun he => (hsettled hj' he).elim
  | publish hj' =>
    refine hput rfl fun he => ?_
    have hp := hsettled hj' he
    exact .inl ⟨_, _, _, _, rfl, hp⟩

/-- A request that has written or published has committed. -/
theorem OwnedBy.settles {owner : UUID → Option UUID} (h : s.OwnedBy owner) (hs : s.step a = some s')
    {j : ℕ} (ha : a.Moves j) :
    s'.events = s.events ∧ s'.published = s.published ∨ s'.Settled j := by
  cases step_kind hs with
  | users | begin => exact ha.elim
  | ended | «continue» | draw => exact .inl ⟨rfl, rfl⟩
  | commit hj =>
    obtain rfl : _ = j := ha
    have hlt := (List.getElem?_eq_some_iff.1 hj).1
    obtain ⟨-, -, -, hp⟩ := (h.running hj).resolve_right id
    exact .inr ⟨_, List.getElem?_set_self hlt, .inl ⟨_, _, _, _, rfl, hp⟩⟩
  | publish hj =>
    obtain rfl : _ = j := ha
    have hlt := (List.getElem?_eq_some_iff.1 hj).1
    have hp := (h.running hj).resolve_left id
    exact .inr ⟨_, List.getElem?_set_self hlt, .inl ⟨_, _, _, _, rfl, hp⟩⟩

/-! ## Runs -/

/-- The user of a request after a step was its user before, or has just been loaded. -/
theorem user_of_step (hs : s.step a = some s') {j : ℕ} {σ' : EndpointSession}
    (hσ' : s'.session j = some σ') {user : UserRow} (hu : user ∈ σ'.user) :
    (∃ σ, s.session j = some σ ∧ user ∈ σ.user) ∨ s.users.get user.id = some user := by
  have hput {j' : ℕ} {r r' : EndpointRequest} {s' : Endpoints} (hj : s.requests[j']? = some r)
      (hreq : s'.requests = s.requests.set j' r') (hσ' : s'.session j = some σ') :
      r'.session = some σ' ∧ s.session j = r.session ∨ s.session j = some σ' := by
    rw [session_set hj hreq, Function.update_apply] at hσ'
    split at hσ'
    · next he => subst he; exact .inl ⟨hσ', by rw [session, hj]; rfl⟩
    · exact .inr hσ'
  cases step_kind hs with
  | users users => exact .inl ⟨σ', hσ', hu⟩
  | begin call token =>
    obtain ⟨r, hr, hσ'⟩ := Option.bind_eq_some_iff.1 hσ'
    rcases getElem?_append_singleton hr with hr | ⟨-, rfl⟩
    · exact .inl ⟨σ', Option.bind_eq_some_iff.2 ⟨r, hr, hσ'⟩, hu⟩
    · cases hσ'
      cases hu
  | ended hj hr =>
    rcases hput hj rfl hσ' with ⟨he, -⟩ | hσ
    · rw [hr] at he
      cases he
    · exact .inl ⟨σ', hσ, hu⟩
  | «continue» hj hn =>
    rcases hput hj rfl hσ' with ⟨he, hσ⟩ | hσ
    · cases he
      exact ((EndpointProg.loads_of_next hn).user user hu).imp_left fun hu => ⟨_, hσ, hu⟩
    · exact .inl ⟨σ', hσ, hu⟩
  | draw hj | commit hj | publish hj =>
    rcases hput hj rfl hσ' with ⟨he, hσ⟩ | hσ
    · cases he
      exact .inl ⟨_, hσ, hu⟩
    · exact .inl ⟨σ', hσ, hu⟩

/-- The user of a request was in the table at some point of the run. -/
theorem user_of_run {users : Table UserRow} {events : Table EventRow} {as : List EndpointAction}
    (hr : run step (start users events) as = some s) {j : ℕ} {σ : EndpointSession}
    (hσ : s.session j = some σ) {user : UserRow} (hu : user ∈ σ.user) :
    ∃ before after t, as = before ++ after ∧ run step (start users events) before = some t ∧
      t.users.get user.id = some user := by
  induction as using List.reverseRecOn generalizing s σ with
  | nil =>
    cases hr
    cases hσ
  | append_singleton as a ih =>
    obtain ⟨t, ht, hs⟩ := run_concat.1 hr
    rcases user_of_step hs hσ hu with ⟨σ₀, hσ₀, hu₀⟩ | hget
    · obtain ⟨before, after, t', rfl, ht', hget⟩ := ih ht hσ₀ hu₀
      exact ⟨before, after ++ [a], t', by rw [List.append_assoc], ht', hget⟩
    · exact ⟨as, [a], t, rfl, ht, hget⟩

/-- Every reachable state has owners. -/
theorem exists_ownedBy {users : Table UserRow} {events : Table EventRow} {as : List EndpointAction}
    (hr : run step (start users events) as = some s) : ∃ owner, s.OwnedBy owner :=
  run_inv (I := fun s => ∃ owner, s.OwnedBy owner)
    (fun ⟨_, h⟩ hs => (h.step hs).imp fun _ h => h.1) hr ⟨_, ownedBy_start users events⟩

/-- **Events belong to their organizers.** In every run of the endpoints, with every interleaving,
every failure and every change of the users: a row that is there is changed or deleted only by a
request about it whose user, as `get_current_user` has found it active under the token's id, is an
admin or the organizer of the row; no row's key or organizer changes; and a request that ends with
an `AuthorizationError` has changed no row and published nothing. -/
theorem events_owned (users : Table UserRow) (events : Table EventRow) (as : List EndpointAction)
    (s : Endpoints) (hr : run step (start users events) as = some s) :
    (∀ a s', s.step a = some s' → ∀ i event, s.events.get i = some event →
      (s'.events.get i = some event ∨ ∃ j inp call token p σ, a = .advance j inp ∧
        s.requests[j]? = some (.running call token p σ) ∧ call.eventId = some i ∧
        ∃ user ∈ σ.user, token.sub = some user.id ∧ user.isActive = true ∧
          (user.role = .admin ∨ user.role = .organizer ∧ user.id = event.organizerId) ∧
          ∃ before after t, as = before ++ after ∧ run step (start users events) before = some t ∧
            t.users.get user.id = some user) ∧
      ∀ event', s'.events.get i = some event' →
        event'.id = event.id ∧ event'.organizerId = event.organizerId) ∧
    ∀ j r, s.requests[j]? = some r → r.refused = true →
      ∀ before a after t t', as = before ++ a :: after →
        run step (start users events) before = some t → t.step a = some t' → a.Moves j →
        t'.events = t.events ∧ t'.published = t.published := by
  constructor
  · intro a s' hs i event he
    obtain ⟨owner, h⟩ := exists_ownedBy hr
    constructor
    · refine (h.writes hs he).imp_right ?_
      rintro ⟨j, inp, call, token, p, σ, ha, hj, hcall, user, hu, hsub, hactive, hmay⟩
      have hσ : s.session j = some σ := by rw [session, hj]; rfl
      exact ⟨j, inp, call, token, p, σ, ha, hj, hcall, user, hu, hsub, hactive, hmay,
        user_of_run hr hσ hu⟩
    · intro event' he'
      obtain ⟨owner', h', hext⟩ := h.step hs
      have howner := hext (h.events he)
      rw [h'.events he'] at howner
      exact ⟨(s'.events.pk_of_get he').trans (s.events.pk_of_get he).symm, Option.some.inj howner⟩
  · rintro j r hj hrefused before a after t t' rfl ht hs ha
    obtain ⟨owner, h⟩ := exists_ownedBy ht
    refine (h.settles hs ha).resolve_right fun hsettled => ?_
    have hafter : run step t' after = some s := by
      obtain ⟨t₁, ht₁, hrest⟩ := run_append.1 hr
      cases ht.symm.trans ht₁
      obtain ⟨t₂, hs₂, hrest⟩ := run_cons.1 hrest
      cases hs.symm.trans hs₂
      exact hrest
    obtain ⟨r', hj', hend⟩ := run_inv (I := (Settled · j)) (fun h hs => h.step hs) hafter hsettled
    cases hj.symm.trans hj'
    obtain ⟨call, e, rfl⟩ := EndpointRequest.eq_of_refused hrefused
    rcases hend with ⟨_, _, _, _, he, -⟩ | ⟨-, hne⟩
    · cases he
    · exact hne _ _ rfl

/-- An access token of a user. -/
def accessToken (user : UUID) : Token :=
  .signed { sub := user, type := .access, iat := 0, exp := 1800, jti := ⟨0⟩ }

/-- Request `j` runs `n` operations; a new event gets the key `50`. -/
def advances (j n : ℕ) : List EndpointAction := List.replicate n (.advance j ⟨0, ⟨50⟩, false⟩)

/-- Two organizers, and the same users after one of them has lost the role and the other is an
admin. -/
def organizers : Table UserRow :=
  (Table.empty.set ⟨⟨2⟩, .organizer, true⟩).set ⟨⟨9⟩, .organizer, true⟩

@[inherit_doc organizers]
def promoted : Table UserRow := (Table.empty.set ⟨⟨2⟩, .attendee, true⟩).set ⟨⟨9⟩, .admin, true⟩

/-- An organizer creates an event, another one is refused its change, and goes on as an admin up to
the commit. -/
def takeover : List EndpointAction :=
  [.begin (.createEvent ⟨"Gig", none, "Hall", 0, 10, 1000⟩) (accessToken ⟨2⟩)] ++ advances 0 7 ++
  [.begin (.updateEvent ⟨50⟩ { title := some (some "Mine") }) (accessToken ⟨9⟩)] ++ advances 1 4 ++
  [.users promoted, .begin (.updateEvent ⟨50⟩ { title := some (some "Ours") }) (accessToken ⟨9⟩)] ++
  advances 2 4

/-- The admin changes the event of the organizer, whose event it stays, and the refused change has
written and published nothing. -/
theorem takeover_owned : ∃ s s' event event',
    run step (start organizers .empty) takeover = some s ∧
    run step s (advances 2 1) = some s' ∧ s.events.get ⟨50⟩ = some event ∧
    s'.events.get ⟨50⟩ = some event' ∧ event'.title = "Ours" ∧
      event'.organizerId = event.organizerId ∧
    (∃ call token p σ, s.requests[2]? = some (.running call token p σ) ∧ ∃ user ∈ σ.user,
      user.role = .admin ∨ user.role = .organizer ∧ user.id = event.organizerId) ∧
    ∃ t t', run step (start organizers .empty) (takeover.take 12) = some t ∧
      run step t (advances 1 1) = some t' ∧ t'.events = t.events ∧ t'.published = t.published := by
  obtain ⟨s, hs, hevent, hnext, hrefused⟩ :
      ∃ s, run step (start organizers .empty) takeover = some s ∧
      (s.events.get ⟨50⟩).any (·.title = "Gig") = true ∧
      (run step s (advances 2 1)).any
        (fun s' => (s'.events.get ⟨50⟩).any fun event => event.title = "Ours") = true ∧
      (s.requests[1]?).any EndpointRequest.refused = true :=
    exists_of_run (by decide +kernel)
  obtain ⟨event, he, htitle⟩ := (Option.any_eq_true _ _).1 hevent
  obtain ⟨s', hs', hevent'⟩ := (Option.any_eq_true _ _).1 hnext
  obtain ⟨event', he', htitle'⟩ := (Option.any_eq_true _ _).1 hevent'
  obtain ⟨r, hr, hrefused⟩ := (Option.any_eq_true _ _).1 hrefused
  obtain ⟨s₁, hstep, rfl⟩ : ∃ s₁, s.step (.advance 2 _) = some s₁ ∧ s₁ = s' := by
    simpa [advances, run, Option.bind_eq_some_iff] using hs'
  obtain ⟨howned, hquiet⟩ := events_owned organizers .empty takeover s hs
  obtain ⟨hwrites, hkeeps⟩ := howned _ s₁ hstep ⟨50⟩ event he
  have hchanged : s₁.events.get ⟨50⟩ ≠ some event := by
    intro hsame
    cases he'.symm.trans hsame
    have hboth := (of_decide_eq_true htitle).symm.trans (of_decide_eq_true htitle')
    exact absurd hboth (by decide)
  obtain ⟨j, inp, call, token, p, σ, ha, hj, -, user, hu, -, -, hmay, -⟩ :=
    hwrites.resolve_left hchanged
  cases ha
  refine ⟨s, s₁, event, event', hs, hs', he, he', of_decide_eq_true htitle', (hkeeps event' he').2,
    ⟨call, token, p, σ, hj, user, hu, hmay⟩, ?_⟩
  obtain ⟨t, ht, hnext⟩ : ∃ t, run step (start organizers .empty) (takeover.take 12) = some t ∧
      (run step t (advances 1 1)).isSome = true := exists_of_run (by decide +kernel)
  obtain ⟨t', ht'⟩ := Option.isSome_iff_exists.1 hnext
  obtain ⟨t₁, hstep, rfl⟩ : ∃ t₁, t.step (.advance 1 _) = some t₁ ∧ t₁ = t' := by
    simpa [advances, run, Option.bind_eq_some_iff] using ht'
  exact ⟨t, t₁, ht, ht',
    hquiet 1 r hr hrefused (takeover.take 12) _ (takeover.drop 13) t t₁ rfl ht hstep
    rfl⟩

end Endpoints

end EventSphere.Api
