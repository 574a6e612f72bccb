import EventSphere.Inventory.Ranges
import EventSphere.Inventory.Servicer
import EventSphere.Shared.UuidText
import EventSphere.UnitOfWork.Rows

/-!
# The messages of the gRPC service

The messages of `inventory.proto` as the client builds and the servicer reads them, and the replies
that the servicer makes of what its call has come to
(`services/inventory/app/grpc_handlers/inventory_servicer.py`). UUIDs travel as text, numbers as
`int32` fields, and the constructor of a message raises for a number that does not fit.

A request is read back as it was meant (`Rpc.read_request`). The replies lose an exception that no
clause of the servicer names, and could lose a response that does not fit; `Call.body_keeps` says
which exceptions and numbers there are.
-/

namespace EventSphere.Inventory

/-! ## Requests -/

/-- The value of an `int32` field. -/
abbrev Int32Field := {n : ℤ // FitsInt32 n}

/-- Setting an `int32` field raises a `ValueError` for a number that does not fit. -/
def int32Field (n : ℤ) : Option Int32Field := if h : FitsInt32 n then some ⟨n, h⟩ else none

/-- Reference: the request messages (`inventory.proto:35`). -/
inductive RpcRequest where
  | initializeInventory (eventId : String) (totalCapacity : Int32Field)
  | adjustCapacity (eventId : String) (newTotalCapacity : Int32Field)
  | reserveSeats (eventId orderId : String) (quantity : Int32Field)
  | confirmReservation (reservationId : String)
  | releaseReservation (reservationId : String)
  deriving DecidableEq, Repr

/-- The message that the client sends, if its numbers fit. Reference: the methods of
`InventoryClient` (`inventory_client.py:55`). -/
def Rpc.request : Rpc → Option RpcRequest
  | initializeInventory e n => (int32Field n).map (.initializeInventory e.str)
  | adjustCapacity e n => (int32Field n).map (.adjustCapacity e.str)
  | reserveSeats e o q => (int32Field q).map (.reserveSeats e.str o.str)
  | confirmReservation r => some (.confirmReservation r.str)
  | releaseReservation r => some (.releaseReservation r.str)

/-- `uuid.UUID(text)`, for the texts that `str` makes of a UUID, the only ones that the client
sends. Of its other spellings (capitals, braces, no hyphens) `uuid.UUID` reads a UUID, and this
none. -/
def uuid (text : String) : Option UUID := UUID.read text.toList

@[simp] theorem uuid_str (u : UUID) : uuid u.str = some u := UUID.read_str u

/-- The request that the servicer reads, unless a text is no UUID. Reference: the methods of
`InventoryServicer` (`inventory_servicer.py:62`). -/
def RpcRequest.read : RpcRequest → Option Rpc
  | initializeInventory e n => do return .initializeInventory (← uuid e) n
  | adjustCapacity e n => do return .adjustCapacity (← uuid e) n
  | reserveSeats e o q => do return .reserveSeats (← uuid e) (← uuid o) q
  | confirmReservation r => do return .confirmReservation (← uuid r)
  | releaseReservation r => do return .releaseReservation (← uuid r)

/-- A number that fits its field is what the field holds. -/
theorem int32Field_eq_some {n : ℤ} {f : Int32Field} (h : int32Field n = some f) : f.val = n := by
  unfold int32Field at h
  split at h
  · cases h; rfl
  · cases h

/-- **The servicer reads what the client means.** -/
theorem Rpc.read_request {q : Rpc} {m : RpcRequest} (h : q.request = some m) : m.read = some q := by
  cases q with
  | initializeInventory | adjustCapacity | reserveSeats =>
    obtain ⟨f, hf, rfl⟩ := Option.map_eq_some_iff.1 h
    simp [RpcRequest.read, int32Field_eq_some hf]
  | confirmReservation | releaseReservation =>
    cases h
    simp [RpcRequest.read]

/-- The quantity of a reservation request that was sent fits 32 bits. -/
def Call.Fits : Call → Prop
  | reserveSeats _ _ q => FitsInt32 q
  | initializeInventory .. | adjustCapacity .. | getAvailability _ | confirmReservation _
  | releaseReservation .. | sweepExpiredReservations => True

instance : ∀ call : Call, Decidable call.Fits
  | .reserveSeats _ _ q => inferInstanceAs (Decidable (FitsInt32 q))
  | .initializeInventory .. | .adjustCapacity .. | .getAvailability _ | .confirmReservation _
  | .releaseReservation .. | .sweepExpiredReservations => inferInstanceAs (Decidable True)

/-! ## Replies -/

/-- The numbers of the enum `ReservationStatus` of the messages. Reference: `_status_to_proto`
(`inventory_servicer.py:18`), `inventory.proto:59`. -/
def statusToProto : ReservationStatus → ℕ
  | .pending => 1
  | .confirmed => 2
  | .released => 3
  | .expired => 4

/-- Reference: `ReservationResponse` (`inventory.proto:67`). -/
structure ReservationResponse where
  success : Bool
  message : String
  reservationId : String
  eventId : String
  orderId : String
  quantity : Int32Field
  status : ℕ
  expiresAtUnix : ℤ
  deriving DecidableEq, Repr

/-- The message of a reservation, if its quantity fits; `timestamp` is `int(datetime.timestamp())`.
Reference: `_reservation_to_proto` (`inventory_servicer.py:32`). -/
def reservationToProto (timestamp : Instant → ℤ) (reservation : Reservation) (message : String) :
    Option ReservationResponse :=
  (int32Field reservation.quantity).map fun quantity =>
    { success := true, message, reservationId := reservation.id.str,
      eventId := reservation.eventId.str, orderId := reservation.orderId.str, quantity,
      status := statusToProto reservation.status, expiresAtUnix := timestamp reservation.expiresAt }

/-- What the servicer answers: a message, or the status of a failed request. -/
inductive RpcReply where
  | reservation (m : ReservationResponse)
  | inventory (m : InventoryResponse)
  | status (st : RpcStatus)

/-- The texts of the responses. Reference: `InventoryServicer` (`inventory_servicer.py:64`). -/
def Rpc.message : Rpc → String
  | initializeInventory .. => "Inventory initialised"
  | adjustCapacity .. => "Capacity updated"
  | reserveSeats .. => "Reservation created"
  | confirmReservation _ => "Reservation confirmed"
  | releaseReservation _ => "Reservation released"

/-- The message of a result, if it fits. -/
def Rpc.response (timestamp : Instant → ℤ) (q : Rpc) : Result → Option RpcReply
  | .reservation r => (reservationToProto timestamp r q.message).map .reservation
  | .inventory i => (inventoryToProto i q.message).map .inventory
  | .reservations _ => none

/-- The reply to a request whose transaction has ended; an aborted one is not replied to. A response
that does not fit raises after the commit. -/
def Rpc.reply (timestamp : Instant → ℤ) (details : ServiceError → String) (q : Rpc) :
    Outcome InventoryError Result → Option RpcReply
  | .returned res =>
    some ((q.response timestamp res).getD
      (.status (q.abort details (.inventory (.valueError "Value out of range")))))
  | .raised e => some (.status (q.abort details (.inventory e)))
  | .failed e => some (.status (q.abort details (.inventory (.flush e))))
  | .aborted => none

/-! ## What the calls come to -/

/-- What a call can return: the methods on reservations return one that can be sent. -/
def Call.Returns (call : Call) (res : Result) : Prop :=
  match call with
  | reserveSeats .. | confirmReservation _ | releaseReservation .. =>
    ∃ r, res = .reservation r ∧ FitsInt32 r.quantity
  | initializeInventory .. | adjustCapacity .. | getAvailability _
  | sweepExpiredReservations => True

/-- What a call can raise: a confirmation and a release do not find their reservation, or do not get
their flush through. -/
def Call.Raises (call : Call) (e : InventoryError) : Prop :=
  match call with
  | confirmReservation _ | releaseReservation .. =>
    (∃ msg, e = .domain (.notFound msg)) ∨ ∃ f, e = .flush f
  | reserveSeats .. | initializeInventory .. | adjustCapacity .. | getAvailability _
  | sweepExpiredReservations => True

section
variable {R : InventoryError → Prop} {α : Type}

/-- A quantity that can be sent. -/
abbrev CanSend (r : Reservation) : Prop := FitsInt32 r.quantity

/-- The flush that nobody catches. -/
theorem flush_keeps {Q : α → Prop} {p : InventoryM α} (hR : ∀ f, R (.flush f))
    (h : p.Keeps CanSend Q R) : (flush >>= fun _ => p).Keeps CanSend Q R := by
  intro e
  cases e with
  | none => exact h
  | some f => exact hR f

/-- The loop of a reservation request. -/
theorem reserveAttempts_keeps {e o : UUID} {q ttl : ℤ} {max n : ℕ} (hq : FitsInt32 q) :
    (reserveAttempts e o q ttl max n).Keeps CanSend CanSend fun _ => True := by
  induction n with
  | zero => trivial
  | succ n ih =>
    intro row
    cases row with
    | none => trivial
    | some row =>
      change Prog.Keeps _ _ _ (if row.available < q then _ else _)
      split
      · trivial
      · intro now id
        refine ⟨hq, fun f => ?_⟩
        cases f with
        | none => exact hq
        | some f =>
          cases f with
          | staleData => exact ih
          | integrity => trivial

theorem confirm_keeps {i : UUID} (hR : ∀ f, R (.flush f))
    (hnone : ∀ msg, R (.domain (.notFound msg))) : (confirm i).Keeps CanSend CanSend R := by
  intro found hfound
  cases found with
  | none => exact hnone _
  | some r =>
    have hr : CanSend r := hfound r rfl
    change Prog.Keeps _ _ _ (if r.status ≠ .pending then _ else _)
    split
    · exact hr
    · intro row
      cases row with
      | none => exact ⟨hr, flush_keeps hR hr⟩
      | some row => exact ⟨hr, flush_keeps hR hr⟩

theorem release_keeps {i : UUID} {expired : Bool} (hR : ∀ f, R (.flush f))
    (hnone : ∀ msg, R (.domain (.notFound msg))) : (release i expired).Keeps CanSend CanSend R := by
  intro found hfound
  cases found with
  | none => exact hnone _
  | some r =>
    have hr : CanSend r := hfound r rfl
    change Prog.Keeps _ _ _ (if r.status ≠ .pending ∧ r.status ≠ .confirmed then _ else _)
    split
    · exact hr
    · intro row
      cases row with
      | none => exact ⟨hr, flush_keeps hR hr⟩
      | some row => exact ⟨hr, flush_keeps hR hr⟩

theorem releaseAll_keeps (rs : List Reservation) :
    (releaseAll rs).Keeps CanSend (fun _ => True) fun _ => True := by
  induction rs with
  | nil => trivial
  | cons r rs ih =>
    refine Prog.keeps_bind
      ((release_keeps (fun _ => trivial) fun _ => trivial).mono ?_ fun _ h => h)
    intro released _
    exact Prog.keeps_bind (ih.mono (fun _ _ => trivial) fun _ h => h)

/-- **What the calls come to**, if the quantities were sent. -/
theorem Call.body_keeps (settings : Settings) {call : Call} (h : call.Fits) :
    (call.body settings).Keeps CanSend call.Returns call.Raises := by
  cases call with
  | initializeInventory e n =>
    intro row
    cases row with
    | some row => trivial
    | none =>
      intro f
      cases f with
      | none | some => trivial
  | adjustCapacity e n =>
    intro row
    cases row with
    | none => trivial
    | some row =>
      intro f
      cases f with
      | none => exact fun _ => trivial
      | some f => trivial
  | getAvailability e =>
    intro row
    cases row with
    | none => trivial
    | some row => trivial
  | reserveSeats e o q =>
    refine Prog.keeps_bind ?_
    unfold reserve
    split
    · trivial
    · exact (reserveAttempts_keeps h).mono (fun r hr => ⟨r, rfl, hr⟩) fun _ h => h
  | confirmReservation i =>
    have hkeeps : (confirm i).Keeps CanSend CanSend (Call.confirmReservation i).Raises :=
      confirm_keeps (fun f => .inr ⟨f, rfl⟩) fun msg => .inl ⟨msg, rfl⟩
    exact Prog.keeps_bind (hkeeps.mono (fun r hr => ⟨r, rfl, hr⟩) fun _ h => h)
  | releaseReservation i expired =>
    have hkeeps : (release i expired).Keeps CanSend CanSend
        (Call.releaseReservation i expired).Raises :=
      release_keeps (fun f => .inr ⟨f, rfl⟩) fun msg => .inl ⟨msg, rfl⟩
    exact Prog.keeps_bind (hkeeps.mono (fun r hr => ⟨r, rfl, hr⟩) fun _ h => h)
  | sweepExpiredReservations =>
    intro now rs hrs
    exact Prog.keeps_bind ((releaseAll_keeps rs).mono (fun _ _ => trivial) fun _ h => h)

end

end EventSphere.Inventory
