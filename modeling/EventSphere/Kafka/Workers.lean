import EventSphere.Api.Models
import EventSphere.Base.Json

/-!
# The workers and the messages they are handed

`BaseKafkaConsumer.run` (`services/shared/kafka/consumer.py:59`) on raw message values, with the
four handlers that it is run with. A value is decoded by the `value_deserializer`, inside the
iterator; the handler gets the decoded value, and what it raises is caught and logged (`_process`).
So a message whose envelope or payload is wrong is skipped, as the docstring says, but a value that
does not decode ends the loop, with every message after it unread. `survives_iff` says that this is
the only thing that does.
-/

namespace EventSphere.Kafka

open Api (Order)

/-! ## Payloads -/

/-- What a handler can raise: the errors of the accesses to its message, or that of an operation. -/
inductive HandlerError where
  | attributeError
  | typeError
  | keyError (key : String)
  | valueError
  | service (error : String)
  deriving DecidableEq, Repr

/-- The code points of a text. -/
def codePoints (s : String) : List ℕ := s.toList.map Char.toNat

/-- The member of an object under a key; the last one counts. -/
def lookup (members : List (List ℕ × Json)) (key : String) : Option Json :=
  (members.reverse.find? (·.1 = codePoints key)).map (·.2)

/-- `message.get(key, default)`: only an object has it. -/
def get (key : String) (default : Json) : Json → Except HandlerError Json
  | .object members => .ok ((lookup members key).getD default)
  | .null | .bool _ | .int _ | .float _ | .string _ | .array _ => .error .attributeError

/-- `payload[key]`. -/
def getItem (key : String) : Json → Except HandlerError Json
  | .object members =>
    match lookup members key with
    | none => .error (.keyError key)
    | some value => .ok value
  | .null | .bool _ | .int _ | .float _ | .string _ | .array _ => .error .typeError

/-- The value is the text. -/
def isText (s : String) : Json → Bool
  | .string t => t = codePoints s
  | .null | .bool _ | .int _ | .float _ | .array _ | .object _ => false

/-- What the environment answers while a handler runs: the reading of a text by `uuid.UUID`, whether
a float is zero, and every operation, which may raise. -/
structure WorkerEnv where
  uuid : List ℕ → Option UUID
  isZero : List Char → Bool
  getOrder : UUID → Except HandlerError (Option Order)
  hasUser : UUID → Except HandlerError Bool
  confirmReservation : UUID → Except HandlerError Unit
  releaseReservation : UUID → Except HandlerError Unit
  /-- Assign a status to a loaded order and commit. -/
  commit : Order → OrderStatus → Except HandlerError Unit
  /-- `_mock_charge` (`payment_worker.py:19`), which only logs the amount. -/
  mockCharge : UUID → Json → Bool × String
  publish : Api.Message → Except HandlerError Unit
  initializeInventory : UUID → Json → Except HandlerError Unit
  adjustCapacity : UUID → Json → Except HandlerError Unit

/-- `uuid.UUID(value)`. -/
def WorkerEnv.toUUID (env : WorkerEnv) : Json → Except HandlerError UUID
  | .string s =>
    match env.uuid s with
    | none => .error .valueError
    | some i => .ok i
  | .null => .error .typeError
  | .bool _ | .int _ | .float _ | .array _ | .object _ => .error .attributeError

/-- Whether a value counts as true. -/
def WorkerEnv.truthy (env : WorkerEnv) : Json → Bool
  | .null => false
  | .bool b => b
  | .int n => n ≠ 0
  | .float t => !env.isZero t
  | .string s => s ≠ []
  | .array items => !items.isEmpty
  | .object members => !members.isEmpty

/-! ## The handlers -/

/-- A handler runs on a decoded message. -/
abbrev Handler := WorkerEnv → Json → Except HandlerError Unit

/-- Reference: `_handle_message` (`event_sync_consumer.py:16`). -/
def eventSync : Handler := fun env message => do
  let eventType ← get "event_type" .null message
  let payload ← get "payload" (.object []) message
  if isText "eventsphere.events.created" eventType then
    let eventId ← env.toUUID (← getItem "event_id" payload)
    env.initializeInventory eventId (← getItem "total_seats" payload)
  else if isText "eventsphere.events.updated" eventType then
    let eventId ← env.toUUID (← getItem "event_id" payload)
    env.adjustCapacity eventId (← getItem "total_seats" payload)
  else return ()

/-- Reference: `_handle_message` (`payment_worker.py:33`). -/
def payment : Handler := fun env message => do
  let payload ← get "payload" (.object []) message
  let orderId ← env.toUUID (← getItem "order_id" payload)
  let charged := env.mockCharge orderId (← getItem "total_price_cents" payload)
  env.publish (.paymentProcessed orderId charged.1 charged.2)

/-- Reference: `_handle_payment_processed` (`order_status_worker.py:21`). -/
def handlePaymentProcessed : Handler := fun env payload => do
  let orderId ← env.toUUID (← getItem "order_id" payload)
  match ← env.getOrder orderId with
  | none => return ()
  | some order =>
    if order.status ≠ .pending then return ()
    else if env.truthy (← getItem "success" payload) then
      env.confirmReservation order.reservationId
      env.commit order .confirmed
      env.publish (.ticketIssued order.id order.userId order.eventId)
    else
      env.releaseReservation order.reservationId
      env.commit order .cancelled
      env.publish (.orderCancelled order.id order.reservationId)

/-- Reference: `_handle_reservation_expired` (`order_status_worker.py:52`). -/
def handleReservationExpired : Handler := fun env payload => do
  let orderId ← env.toUUID (← getItem "order_id" payload)
  match ← env.getOrder orderId with
  | none => return ()
  | some order => if order.status ≠ .pending then return () else env.commit order .expired

/-- Reference: `_handle_message` (`order_status_worker.py:63`). -/
def orderStatus : Handler := fun env message => do
  let eventType ← get "event_type" .null message
  let payload ← get "payload" (.object []) message
  if isText "eventsphere.payments.processed" eventType then handlePaymentProcessed env payload
  else if isText "eventsphere.reservations.expired" eventType
    then handleReservationExpired env payload
  else return ()

/-- Reference: `_handle_message` (`notification_worker.py:26`). The e-mails are log entries. -/
def notification : Handler := fun env message => do
  let _ ← get "event_type" .null message
  let payload ← get "payload" (.object []) message
  let orderId ← env.toUUID (← getItem "order_id" payload)
  match ← env.getOrder orderId with
  | none => return ()
  | some order =>
    let _ ← env.hasUser order.userId
    return ()

/-- The workers. -/
inductive Worker where
  | eventSync
  | orderStatus
  | payment
  | notification
  deriving DecidableEq, Repr

/-- The handler that a worker runs its consumer with. -/
def Worker.handler : Worker → Handler
  | eventSync => Kafka.eventSync
  | orderStatus => Kafka.orderStatus
  | payment => Kafka.payment
  | notification => Kafka.notification

/-! ## The loop -/

/-- A record of the topic: its raw value, what the environment answers to its handler, and what the
commit of its offset does. -/
structure Record where
  value : ByteArray
  env : WorkerEnv
  commit : Except HandlerError Unit

/-- What the deserializer can raise. -/
inductive DeserializerError where
  | unicode
  | json (e : Json.DecodeError)
  deriving DecidableEq, Repr

/-- `value_deserializer` (`consumer.py:72`): `json.loads(v.decode("utf-8"))`. -/
def deserialize (limits : Json.Limits) (value : ByteArray) : Except DeserializerError Json :=
  match String.fromUTF8? value with
  | none => .error .unicode
  | some s => (Json.loads limits s.toList).mapError .json

/-- What `_process` does with a message: it commits, or it logs what the handler or the commit has
raised. -/
inductive Processed where
  | committed
  | failed (e : HandlerError)
  deriving DecidableEq, Repr

/-- Reference: `_process` (`consumer.py:85`). -/
def process (handler : Handler) (r : Record) (message : Json) : Processed :=
  match (do handler r.env message; r.commit) with
  | .ok () => .committed
  | .error e => .failed e

/-- What a run has done: the messages that it has handed to the handler, with what has become of
them, and what it has raised. -/
structure ConsumerRun where
  handed : List (Json × Processed)
  raised : Option DeserializerError

/-- Reference: `run` (`consumer.py:59`), from the start of the iteration to the end of the records,
without a stop request. The iterator raises what the deserializer raises. -/
def run (limits : Json.Limits) (handler : Handler) : List Record → ConsumerRun
  | [] => ⟨[], none⟩
  | r :: records =>
    match deserialize limits r.value with
    | .error e => ⟨[], some e⟩
    | .ok message =>
      let rest := run limits handler records
      ⟨(message, process handler r message) :: rest.handed, rest.raised⟩

/-! ## Which runs reach the end -/

/-- The value is the UTF-8 of a JSON text. -/
def IsJson (limits : Json.Limits) (value : ByteArray) (v : Json) : Prop :=
  ∃ s : String, value = s.toUTF8 ∧ Json.Text limits s.toList v

/-- The texts that the bytes of a value may be. -/
theorem fromUTF8?_eq_some {value : ByteArray} {s : String} :
    String.fromUTF8? value = some s ↔ value = s.toUTF8 := by
  rw [String.fromUTF8?, String.toUTF8_eq_toByteArray]
  constructor
  · intro h
    split at h
    · cases h
      rfl
    · cases h
  · rintro rfl
    exact dif_pos s.isValidUTF8

/-- What decodes is JSON within the limits. -/
theorem deserialize_eq_ok {limits : Json.Limits} {value : ByteArray} {v : Json} :
    deserialize limits value = .ok v ↔ IsJson limits value v := by
  rw [deserialize]
  constructor
  · intro h
    split at h
    · cases h
    · next s hs =>
      refine ⟨s, fromUTF8?_eq_some.1 hs, Json.loads_eq_ok.1 ?_⟩
      cases hl : Json.loads limits s.toList with
      | error e => rw [hl] at h; cases h
      | ok v' => rw [hl] at h; cases h; rfl
  · rintro ⟨s, hs, hv⟩
    rw [fromUTF8?_eq_some.2 hs]
    dsimp only
    rw [Json.loads_eq_ok.2 hv]
    rfl

/-- The bytes of a JSON text derive one value, whatever the limits. -/
theorem IsJson.unique {limits limits' : Json.Limits} {value : ByteArray} {v v' : Json}
    (h : IsJson limits value v) (h' : IsJson limits' value v') : v = v' := by
  obtain ⟨s, rfl, hv⟩ := h
  obtain ⟨s', hs, hv'⟩ := h'
  rw [String.toUTF8_eq_toByteArray, String.toUTF8_eq_toByteArray, String.toByteArray_inj] at hs
  subst hs
  exact hv.unique hv'

section
variable {limits : Json.Limits} {handler : Handler} {records : List Record}

/-- A run raises exactly if a value does not decode. -/
theorem raised_eq_none :
    (run limits handler records).raised = none ↔ ∀ r ∈ records, ∃ v, IsJson limits r.value v := by
  induction records with
  | nil => exact iff_of_true rfl nofun
  | cons r records ih =>
    rw [run, List.forall_mem_cons]
    cases hd : deserialize limits r.value with
    | error e =>
      refine iff_of_false nofun fun h => ?_
      obtain ⟨v, hv⟩ := h.1
      rw [deserialize_eq_ok.2 hv] at hd
      cases hd
    | ok v => exact ih.trans (and_iff_right ⟨v, deserialize_eq_ok.1 hd⟩).symm

/-- A run that does not raise hands every value over, decoded, and goes on after it. -/
theorem handed_of_raised (h : (run limits handler records).raised = none) {i : ℕ} {r : Record}
    (hi : records[i]? = some r) :
    ∃ v, IsJson limits r.value v ∧
      (run limits handler records).handed[i]? = some (v, process handler r v) := by
  induction records generalizing i with
  | nil => cases hi
  | cons r' records ih =>
    rw [run] at h ⊢
    cases hd : deserialize limits r'.value with
    | error e => rw [hd] at h; cases h
    | ok v =>
      rw [hd] at h
      cases i with
      | zero => cases hi; exact ⟨v, deserialize_eq_ok.1 hd, rfl⟩
      | succ i => exact ih h hi

end

/-- **Which values the consumer survives.** With each of the workers' handlers, whatever the handler
does, a run reaches the end of the records without raising and hands every JSON value to the
handler, exactly if every value is the UTF-8 of a JSON text, nested no deeper and with no longer
integers than the decoder allows. -/
theorem survives_iff (limits : Json.Limits) (worker : Worker) (records : List Record) :
    ((run limits worker.handler records).raised = none ∧
      ∀ (i : ℕ) (r : Record), records[i]? = some r → ∀ limits' v, IsJson limits' r.value v →
        ((run limits worker.handler records).handed[i]?).map Prod.fst = some v) ↔
    ∀ r ∈ records, ∃ v, IsJson limits r.value v := by
  rw [raised_eq_none.symm]
  refine and_iff_left_of_imp fun h i r hi limits' v hv => ?_
  obtain ⟨v', hv', hhanded⟩ := handed_of_raised h hi
  rw [hhanded, hv.unique hv']
  rfl

/-- Nothing is in the database, and every operation goes through. -/
def idleEnv : WorkerEnv where
  uuid _ := none
  isZero _ := false
  getOrder _ := .ok none
  hasUser _ := .ok false
  confirmReservation _ := .ok ()
  releaseReservation _ := .ok ()
  commit _ _ := .ok ()
  mockCharge _ _ := (true, "")
  publish _ := .ok ()
  initializeInventory _ _ := .ok ()
  adjustCapacity _ _ := .ok ()

/-- A record with a text as its value. -/
def record (text : String) : Record := ⟨text.toUTF8, idleEnv, .ok ()⟩

/-- The decoder on the text of a record. -/
theorem deserialize_record (limits : Json.Limits) (text : String) :
    deserialize limits (record text).value = (Json.loads limits text.toList).mapError .json := by
  have htext : String.fromUTF8? (record text).value = some text := fromUTF8?_eq_some.2 rfl
  rw [deserialize, htext]

/-- A value that is no JSON ends the run of a worker, and the JSON value after it is not handed
over. -/
theorem malformed_value_stops :
    IsJson ⟨1000, 4300⟩ (record "{}").value (.object []) ∧
    (run ⟨1000, 4300⟩ Worker.payment.handler [record "oops", record "{}"]).raised =
      some (.json .malformed) ∧
    ¬ ((run ⟨1000, 4300⟩ Worker.payment.handler [record "oops", record "{}"]).raised = none ∧
      ∀ (i : ℕ) (r : Record), [record "oops", record "{}"][i]? = some r → ∀ limits' v,
        IsJson limits' r.value v →
        ((run ⟨1000, 4300⟩ Worker.payment.handler [record "oops", record "{}"]).handed[i]?).map
          Prod.fst = some v) := by
  have hobject : Json.loads ⟨1000, 4300⟩ "{}".toList = .ok (.object []) := rfl
  have hraised : (run ⟨1000, 4300⟩ Worker.payment.handler [record "oops", record "{}"]).raised =
      some (.json .malformed) := by
    have hvalue : Json.loads ⟨1000, 4300⟩ "oops".toList = .error .malformed := rfl
    rw [run, deserialize_record, hvalue]
    rfl
  refine ⟨deserialize_eq_ok.1 ?_, hraised, fun h => ?_⟩
  · rw [deserialize_record, hobject]
    rfl
  · rw [hraised] at h
    cases h.1

end EventSphere.Kafka
