import EventSphere.Api.Atomic
import EventSphere.Kafka.Schemas

/-!
# From the producer to the handler

What the producer sends for a message is read by the worker of its topic as that message: the value
decodes to the envelope (`deserialize_publish`), and the handler does with the envelope what the
program of the worker does with the message (`handler_json`). So a worker whose topic has only the
producer's records never stops and handles them all (`topic_handled`), and no two envelopes have one
value (`publish_injective`).
-/

namespace EventSphere.Kafka

open Api (Order ApiProg ApiError Int32)

/-! ## Texts and members -/

theorem codePoints_injective {s t : String} (h : codePoints s = codePoints t) : s = t := by
  have hlist : s.toList = t.toList :=
    List.map_injective_iff.2 (fun _ _ he => Char.toNat_inj.1 he) h
  exact String.toList_inj.1 hlist

/-- The code points of a text are scalar values. -/
theorem scalars_codePoints (s : String) : Json.Scalars (codePoints s) := by
  intro n hn
  obtain ⟨c, -, rfl⟩ := List.mem_map.1 hn
  exact c.valid

/-- The member of an object of fields. -/
theorem lookup_object (fields : List (String × Json)) (key : String) :
    lookup (fields.map fun f => (codePoints f.1, f.2)) key =
      (fields.reverse.find? (·.1 = key)).map (·.2) := by
  have hkey : ∀ f : String × Json, decide (codePoints f.1 = codePoints key) = decide (f.1 = key) :=
    fun f => decide_eq_decide.2 ⟨codePoints_injective, congrArg codePoints⟩
  rw [lookup, ← List.map_reverse, List.find?_map, Option.map_map]
  simp only [Function.comp_def, hkey]

@[simp] theorem get_object (key : String) (default : Json) (fields : List (String × Json)) :
    get key default (object fields) =
      .ok (((fields.reverse.find? (·.1 = key)).map (·.2)).getD default) := by
  rw [object, get, lookup_object]

@[simp] theorem getItem_object (key : String) (fields : List (String × Json)) :
    getItem key (object fields) =
      match (fields.reverse.find? (·.1 = key)).map (·.2) with
      | none => .error (.keyError key)
      | some value => .ok value :=
  congrArg (fun found : Option Json => match found with
    | none => Except.error (HandlerError.keyError key)
    | some value => Except.ok value) (lookup_object fields key)

@[simp] theorem isText_text (s t : String) : isText s (Payload.text t) = decide (t = s) :=
  decide_eq_decide.2 ⟨codePoints_injective, congrArg codePoints⟩

/-! ## Values -/

/-- The integers of a payload fit their columns. -/
def Payload.Fits : Payload → Prop
  | event m => Int32 m.totalSeats
  | order (.orderCreated _ _ _ quantity totalPriceCents _) => Int32 quantity ∧ Int32 totalPriceCents
  | order _ => True

/-- An integer of a column has at most ten digits. -/
theorem plain_int {digits depth : ℕ} (hdigits : 10 ≤ digits) {n : ℤ} (hn : Int32 n) :
    Json.Plain digits depth (.int n) := by
  obtain ⟨hlo, hhi⟩ := hn
  refine .int (((Nat.length_toDigits_le_iff (by decide) (by decide)).2 ?_).trans hdigits)
  omega

theorem plain_text {digits depth : ℕ} (s : String) : Json.Plain digits depth (Payload.text s) :=
  .string (scalars_codePoints s)

theorem plain_object {digits depth : ℕ} {fields : List (String × Json)}
    (h : ∀ f ∈ fields, Json.Plain digits depth f.2) :
    Json.Plain digits (depth + 1) (object fields) := by
  refine .object (fun m hm => ?_) fun m hm => ?_
  · obtain ⟨f, -, rfl⟩ := List.mem_map.1 hm
    exact scalars_codePoints f.1
  · obtain ⟨f, hf, rfl⟩ := List.mem_map.1 hm
    exact h f hf

/-- The fields of a payload are texts, short integers and booleans. -/
theorem Payload.plain_fields {digits depth : ℕ} (hdigits : 10 ≤ digits) {p : Payload}
    (hp : p.Fits) :
    ∀ f ∈ p.fields, Json.Plain digits depth f.2 := by
  cases p with
  | event m =>
    cases m <;> simp only [fields, List.forall_mem_cons, List.not_mem_nil, false_imp_iff,
      implies_true, and_true] <;> exact ⟨plain_text _, plain_int hdigits hp⟩
  | order m =>
    cases m <;> simp only [fields, List.forall_mem_cons, List.not_mem_nil, false_imp_iff,
      implies_true, and_true]
    case orderCreated =>
      exact ⟨plain_text _, plain_text _, plain_text _, plain_int hdigits hp.1,
        plain_int hdigits hp.2, plain_text _⟩
    case paymentProcessed => exact ⟨plain_text _, .bool _, plain_text _⟩
    case ticketIssued => exact ⟨plain_text _, plain_text _, plain_text _⟩
    case orderCancelled => exact ⟨plain_text _, plain_text _⟩
    case reservationExpired => exact ⟨plain_text _, plain_text _, plain_text _⟩

/-- Envelopes nest two objects. -/
theorem EventEnvelope.plain_json {digits depth : ℕ} (hdigits : 10 ≤ digits) (hdepth : 2 ≤ depth)
    {e : EventEnvelope} (he : e.payload.Fits) : Json.Plain digits depth e.json := by
  obtain ⟨depth, rfl⟩ : ∃ d, depth = d + 2 := ⟨depth - 2, by omega⟩
  refine plain_object ?_
  simp only [List.forall_mem_cons, List.not_mem_nil, false_imp_iff, implies_true, and_true]
  exact ⟨plain_text _, plain_text _, plain_text _, plain_object (Payload.plain_fields hdigits he)⟩

/-- `model_dump_json` writes the values of envelopes as JSON texts of them. -/
def WritesJson (limits : Json.Limits) (modelDumpJson : Json → String) : Prop :=
  ∀ e : EventEnvelope, e.payload.Fits → Json.Text limits (modelDumpJson e.json).toList e.json

/-- The library's writer is one of these. -/
theorem writesJson_write {limits : Json.Limits} (hdigits : 10 ≤ limits.digits)
    (hdepth : 2 ≤ limits.depth) : WritesJson limits fun v => String.ofList v.write := by
  intro e he
  rw [String.toList_ofList]
  exact (EventEnvelope.plain_json hdigits hdepth he).text

section
variable {limits : Json.Limits} {modelDumpJson : Json → String} {e : EventEnvelope}

/-- **What the producer sends decodes to the envelope.** -/
theorem deserialize_publish (hdumps : WritesJson limits modelDumpJson) (he : e.payload.Fits) :
    deserialize limits (publish modelDumpJson e).value = .ok e.json :=
  deserialize_eq_ok.2 ⟨modelDumpJson e.json, rfl, hdumps e he⟩

end

/-! ## The handlers -/

/-- `uuid.UUID` reads the texts of UUIDs. -/
def WorkerEnv.ReadsUUIDs (env : WorkerEnv) : Prop :=
  ∀ i : UUID, env.uuid (codePoints i.str) = some i

/-- What an exception of a handler's program is to its consumer. -/
def handlerError : ApiError → HandlerError
  | .keyError field => .keyError field
  | .domain _ => .service "DomainError"
  | .integrity => .service "IntegrityError"
  | .dataError => .service "DataError"
  | .multipleResults => .service "MultipleResultsFound"

/-- Run the program of a worker on the answers of its environment. The continuations of the
inventory calls look at no result; no worker asks for anything else. -/
def answered (env : WorkerEnv) {α : Type} :
    ApiProg α → Option (Order × OrderStatus) → Except HandlerError α
  | .ret a, _ => .ok a
  | .raise e, _ => .error (handlerError e)
  | .getOrder orderId k, status => do answered env (k (← env.getOrder orderId)) status
  | .charge orderId amount k, status =>
    answered env
      (k (env.mockCharge orderId (.int amount)).1 (env.mockCharge orderId (.int amount)).2) status
  | .rpc (.confirmReservation i) k, status => do
    env.confirmReservation i
    answered env (k (.reservations [])) status
  | .rpc (.releaseReservation i false) k, status => do
    env.releaseReservation i
    answered env (k (.reservations [])) status
  | .setStatus order status k, _ => answered env k (some (order, status))
  | .commit k, some (order, status) => do
    env.commit order status
    answered env k none
  | .publish m k, status => do
    env.publish m
    answered env k status
  | .commit _, none | .rpc .., _ | .getByIdempotencyKey .., _ | .getForUser .., _ | .getEvent .., _
  | .uuid4 _, _ | .addOrder .., _ => .error (.service "unknown operation")

/-- What the worker of its topic does with a message. -/
def handled (env : WorkerEnv) : Payload → Except HandlerError Unit
  | .event (.eventCreated eventId totalSeats) => env.initializeInventory eventId (.int totalSeats)
  | .event (.eventUpdated eventId totalSeats) => env.adjustCapacity eventId (.int totalSeats)
  | .order (.ticketIssued orderId _ _) | .order (.orderCancelled orderId _) => do
    match ← env.getOrder orderId with
    | none => return ()
    | some order =>
      let _ ← env.hasUser order.userId
      return ()
  | .order m => answered env (Api.worker m) none

/-- An operation that goes through. -/
@[simp] theorem ok_bind {α β : Type} (a : α) (f : α → Except HandlerError β) :
    (Except.ok a >>= f) = f a := rfl

/-- A result that is nothing is passed on. -/
theorem bind_ok_unit (x : Except HandlerError Unit) :
    (x >>= fun _ => (Except.ok () : Except HandlerError Unit)) = x := by
  cases x <;> rfl

section
variable {env : WorkerEnv}

theorem toUUID_uuid (henv : env.ReadsUUIDs) (i : UUID) : env.toUUID (Payload.uuid i) = .ok i := by
  rw [Payload.uuid, Payload.text, WorkerEnv.toUUID, henv i]

/-- The envelope of a payload, as the handlers take it apart. -/
theorem get_json (e : EventEnvelope) (default : Json) :
    get "event_type" default e.json = .ok (Payload.text e.payload.eventType.value) ∧
      get "payload" default e.json = .ok (object e.payload.fields) := by
  simp [EventEnvelope.json]

/-- `_handle_message` of the event sync consumer. -/
theorem eventSync_json (henv : env.ReadsUUIDs) {e : EventEnvelope}
    (htopic : topicForEventType e.payload.eventType = .eventsLifecycle) :
    eventSync env e.json = handled env e.payload := by
  obtain ⟨i, t, p⟩ := e
  cases p with
  | event m =>
    cases m with
    | eventCreated eventId n =>
      simp [eventSync, get_json, Payload.fields, Payload.eventType, EventType.value, handled,
        toUUID_uuid henv]
    | eventUpdated eventId n =>
      simp [eventSync, get_json, Payload.fields, Payload.eventType, EventType.value, handled,
        toUUID_uuid henv]
  | order m => cases m <;> cases htopic

/-- `_handle_message` of the payment worker. -/
theorem payment_json (henv : env.ReadsUUIDs) {e : EventEnvelope}
    (htopic : topicForEventType e.payload.eventType = .ordersCreated) :
    payment env e.json = handled env e.payload := by
  obtain ⟨i, t, p⟩ := e
  cases p with
  | event m => cases m <;> cases htopic
  | order m =>
    cases m with
    | orderCreated orderId eventId userId n total reservationId =>
      simp [payment, get_json, Payload.fields, handled, toUUID_uuid henv, Api.worker,
        Api.paymentWorker, answered, bind_ok_unit]
    | paymentProcessed | ticketIssued | orderCancelled | reservationExpired => cases htopic

/-- `_handle_payment_processed`. -/
theorem handlePaymentProcessed_json (henv : env.ReadsUUIDs) (orderId : UUID) (success : Bool)
    (ref : String) :
    handlePaymentProcessed env
    (object (Payload.order (.paymentProcessed orderId success ref)).fields) =
      answered env (Api.handlePaymentProcessed orderId success) none := by
  have hid : getItem "order_id"
    (object (Payload.order (.paymentProcessed orderId success ref)).fields) =
      .ok (Payload.uuid orderId) := by
    simp [Payload.fields]
  have hok : getItem "success"
    (object (Payload.order (.paymentProcessed orderId success ref)).fields) =
      .ok (.bool success) := by
    simp [Payload.fields]
  have htruthy : env.truthy (.bool success) = success := rfl
  simp only [handlePaymentProcessed, Api.handlePaymentProcessed, hid, hok, ok_bind,
    toUUID_uuid henv, htruthy, ApiProg.getOrder_bind, ApiProg.ret_bind, answered]
  cases env.getOrder orderId with
  | error err => rfl
  | ok found =>
    cases found with
    | none => rfl
    | some order =>
      dsimp only [ok_bind]
      split
      · rfl
      · cases success with
        | true => simp [answered, Api.confirmReservation, bind_ok_unit]
        | false => simp [answered, Api.releaseReservation, bind_ok_unit]

/-- `_handle_reservation_expired`. -/
theorem handleReservationExpired_json (henv : env.ReadsUUIDs)
    (reservationId orderId eventId : UUID) :
    handleReservationExpired env
        (object (Payload.order (.reservationExpired reservationId orderId eventId)).fields) =
      answered env (Api.handleReservationExpired orderId) none := by
  have hid : getItem "order_id"
      (object (Payload.order (.reservationExpired reservationId orderId eventId)).fields) =
      .ok (Payload.uuid orderId) := by
    simp [Payload.fields]
  simp only [handleReservationExpired, Api.handleReservationExpired, hid, ok_bind, toUUID_uuid henv,
    ApiProg.getOrder_bind, ApiProg.ret_bind, answered]
  cases env.getOrder orderId with
  | error err => rfl
  | ok found =>
    cases found with
    | none => rfl
    | some order =>
      dsimp only [ok_bind]
      split
      · rfl
      · simp [answered, bind_ok_unit]

/-- `_handle_message` of the order status worker. -/
theorem orderStatus_json (henv : env.ReadsUUIDs) {e : EventEnvelope}
    (htopic : topicForEventType e.payload.eventType = .ordersStatusChanged) :
    orderStatus env e.json = handled env e.payload := by
  obtain ⟨i, t, p⟩ := e
  cases p with
  | event m => cases m <;> cases htopic
  | order m =>
    cases m with
    | paymentProcessed orderId success ref =>
      simp [orderStatus, get_json, Payload.eventType, EventType.value, handled, Api.worker,
        Api.orderStatusWorker, handlePaymentProcessed_json henv]
    | reservationExpired reservationId orderId eventId =>
      simp [orderStatus, get_json, Payload.eventType, EventType.value, handled, Api.worker,
        Api.orderStatusWorker, handleReservationExpired_json henv]
    | orderCreated | ticketIssued | orderCancelled => cases htopic

/-- `_handle_message` of the notification worker. -/
theorem notification_json (henv : env.ReadsUUIDs) {e : EventEnvelope}
    (htopic : topicForEventType e.payload.eventType = .ordersNotifications) :
    notification env e.json = handled env e.payload := by
  obtain ⟨i, t, p⟩ := e
  cases p with
  | event m => cases m <;> cases htopic
  | order m =>
    cases m with
    | ticketIssued orderId userId eventId =>
      simp [notification, get_json, Payload.fields, toUUID_uuid henv]
      rfl
    | orderCancelled orderId reservationId =>
      simp [notification, get_json, Payload.fields, toUUID_uuid henv]
      rfl
    | orderCreated | paymentProcessed | reservationExpired => cases htopic

end

/-- **The handler does with the envelope what the worker does with the message.** -/
theorem handler_json {env : WorkerEnv} (henv : env.ReadsUUIDs) {e : EventEnvelope} (worker : Worker)
    (htopic : topicForEventType e.payload.eventType = worker.topic) :
    worker.handler env e.json = handled env e.payload := by
  cases worker with
  | eventSync => exact eventSync_json henv htopic
  | orderStatus => exact orderStatus_json henv htopic
  | payment => exact payment_json henv htopic
  | notification => exact notification_json henv htopic

/-! ## Topics -/

/-- An envelope that has been published, with what the environment answers to its handler and what
the commit of its offset does. -/
structure Delivery where
  envelope : EventEnvelope
  env : WorkerEnv
  commit : Except HandlerError Unit

/-- The record that a worker is handed. -/
def Delivery.record (modelDumpJson : Json → String) (d : Delivery) : Record :=
  ⟨(publish modelDumpJson d.envelope).value, d.env, d.commit⟩

/-- What becomes of a message that its worker handles. -/
def Delivery.processed (d : Delivery) : Processed :=
  match (do handled d.env d.envelope.payload; d.commit) with
  | .ok () => .committed
  | .error e => .failed e

/-- **A worker handles what the producer publishes.** Over a topic with nothing but the producer's
records, the run of its worker reaches the end, and does with every message what the program of the
worker does. -/
theorem topic_handled (limits : Json.Limits) (modelDumpJson : Json → String)
    (hdumps : WritesJson limits modelDumpJson) (worker : Worker) (ds : List Delivery)
    (htopic : ∀ d ∈ ds, (publish modelDumpJson d.envelope).topic = worker.topic.value)
    (hfits : ∀ d ∈ ds, d.envelope.payload.Fits) (henv : ∀ d ∈ ds, d.env.ReadsUUIDs) :
    run limits worker.handler (ds.map (Delivery.record modelDumpJson)) =
      ⟨ds.map fun d => (d.envelope.json, d.processed), none⟩ := by
  have hvalue : ∀ t t' : Topic, t.value = t'.value → t = t' := by
    intro t t' h
    cases t <;> cases t' <;> first | rfl | exact absurd h (by decide)
  induction ds with
  | nil => rfl
  | cons d ds ih =>
    rw [List.forall_mem_cons] at htopic hfits henv
    have hrest := ih htopic.2 hfits.2 henv.2
    have hhandler := handler_json henv.1 worker (hvalue _ _ htopic.1)
    have hprocess : process worker.handler (d.record modelDumpJson) d.envelope.json =
      d.processed := by
      rw [process, Delivery.processed]
      show (match (do worker.handler d.env d.envelope.json; d.commit) with
        | .ok () => Processed.committed
        | .error e => .failed e) = _
      rw [hhandler]
    rw [List.map_cons, run]
    have hread : deserialize limits (d.record modelDumpJson).value = .ok d.envelope.json :=
      deserialize_publish hdumps hfits.1
    rw [hread]
    dsimp only
    rw [hrest, hprocess]
    rfl

/-- The environment of `idleEnv`, with a reader of UUIDs. -/
def readingEnv : WorkerEnv := { idleEnv with uuid := fun text => UUID.read (text.map Char.ofNat) }

theorem read_codePoints (i : UUID) : UUID.read ((codePoints i.str).map Char.ofNat) = some i := by
  have hback : (codePoints i.str).map Char.ofNat = i.str.toList := by
    rw [codePoints, List.map_map]
    exact (List.map_congr_left fun c _ => Char.ofNat_toNat c).trans (List.map_id _)
  rw [hback, UUID.read_str]

theorem readingEnv_reads : readingEnv.ReadsUUIDs := by
  have huuid : ∀ text, readingEnv.uuid text = UUID.read (text.map Char.ofNat) := fun _ => rfl
  intro i
  rw [huuid, read_codePoints]

/-- The message of a new order. -/
def createdEnvelope : EventEnvelope :=
  ⟨⟨9⟩, "2026-01-01T00:00:00Z", .order (.orderCreated ⟨3⟩ ⟨1⟩ ⟨2⟩ 1 1000 ⟨101⟩)⟩

theorem createdEnvelope_fits : createdEnvelope.payload.Fits := by
  show Api.Int32 1 ∧ Api.Int32 1000
  decide

/-- The payment worker charges for a published order. -/
theorem createdEnvelope_handled :
    run ⟨1000, 4300⟩ Worker.payment.handler
        [Delivery.record (fun v => String.ofList v.write) ⟨createdEnvelope, readingEnv, .ok ()⟩] =
      ⟨[(createdEnvelope.json, .committed)], none⟩ :=
  topic_handled ⟨1000, 4300⟩ _ (writesJson_write (by decide) (by decide)) .payment
    [⟨createdEnvelope, readingEnv, .ok ()⟩] (by simp; rfl) (by simpa using createdEnvelope_fits)
    (by simpa using readingEnv_reads)

/-! ## No two envelopes have one value -/

@[simp] theorem text_inj {s t : String} : Payload.text s = Payload.text t ↔ s = t :=
  ⟨fun h => codePoints_injective (Json.string.inj h), congrArg Payload.text⟩

@[simp] theorem uuid_inj {i j : UUID} : Payload.uuid i = Payload.uuid j ↔ i = j :=
  ⟨fun h => UUID.str_injective (text_inj.1 h), congrArg Payload.uuid⟩

@[simp] theorem object_inj {fields fields' : List (String × Json)} :
    object fields = object fields' ↔ fields = fields' := by
  refine ⟨fun h => ?_, congrArg object⟩
  refine List.map_injective_iff.2 (fun f f' hf => ?_) (Json.object.inj h)
  obtain ⟨hkey, hv⟩ := Prod.mk.inj hf
  exact Prod.ext (codePoints_injective hkey) hv

theorem EventType.value_injective {t t' : EventType} (h : t.value = t'.value) : t = t' := by
  cases t <;> cases t' <;> first | rfl | exact absurd h (by decide)

/-- A payload is known by its type and its fields. -/
theorem Payload.eq_of_fields {p q : Payload} (ht : p.eventType = q.eventType)
    (hf : p.fields = q.fields) : p = q := by
  cases p with
  | event m =>
    cases q with
    | event m' => cases m <;> cases m' <;> first | (cases ht; done) | simpa [fields] using hf
    | order m' => cases m <;> cases m' <;> cases ht
  | order m =>
    cases q with
    | event m' => cases m <;> cases m' <;> cases ht
    | order m' => cases m <;> cases m' <;> first | (cases ht; done) | simpa [fields] using hf

theorem EventEnvelope.json_injective {e e' : EventEnvelope} (h : e.json = e'.json) : e = e' := by
  obtain ⟨i, t, p⟩ := e
  obtain ⟨i', t', p'⟩ := e'
  simp only [json, object_inj, List.cons.injEq, Prod.mk.injEq, uuid_inj, text_inj, true_and,
    and_true] at h
  obtain ⟨rfl, hvalue, rfl, hfields⟩ := h
  rw [Payload.eq_of_fields (EventType.value_injective hvalue) hfields]

/-- **No two envelopes have one value.** Whatever the writer, the bytes of a record say which
message was published, with which id and at which time. -/
theorem publish_injective (limits : Json.Limits) (modelDumpJson : Json → String)
    (hdumps : WritesJson limits modelDumpJson) (e e' : EventEnvelope) (he : e.payload.Fits)
    (he' : e'.payload.Fits)
    (h : (publish modelDumpJson e).value = (publish modelDumpJson e').value) : e = e' := by
  have hread := deserialize_publish hdumps he
  rw [h, deserialize_publish hdumps he'] at hread
  exact (EventEnvelope.json_injective (Except.ok.inj hread)).symm

/-- A message that is published a second time has another value. -/
theorem published_twice :
    (publish (fun v => String.ofList v.write) createdEnvelope).value ≠
      (publish (fun v => String.ofList v.write)
        { createdEnvelope with eventId := ⟨10⟩ }).value := by
  intro h
  have he := publish_injective ⟨1000, 4300⟩ _
    (writesJson_write (by decide) (by decide)) createdEnvelope
    { createdEnvelope with eventId := ⟨10⟩ } createdEnvelope_fits createdEnvelope_fits h
  cases congrArg EventEnvelope.eventId he

end EventSphere.Kafka
