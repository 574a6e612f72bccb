import EventSphere.Api.EventService
import EventSphere.Base.JsonWriter
import EventSphere.Kafka.Workers
import EventSphere.Shared.UuidText

/-!
# What travels on the bus

The event types and topics of `services/shared/kafka/topics.py`, the payloads and the envelope of
`services/shared/kafka/schemas.py`, and what `KafkaEventProducer.publish`
(`services/shared/kafka/producer.py`) sends for each of them. The text of an envelope is written by
`model_dump_json`, which is a parameter here: all that the readers need is that it writes JSON.
-/

namespace EventSphere.Kafka

open Api (EventMessage Message)

/-! ## Event types and topics -/

/-- Reference: `EventType` (`topics.py:4`). -/
inductive EventType where
  | eventCreated
  | eventUpdated
  | orderCreated
  | paymentProcessed
  | ticketIssued
  | orderCancelled
  | reservationExpired
  deriving DecidableEq, Repr

/-- The value of an event type. -/
def EventType.value : EventType → String
  | eventCreated => "eventsphere.events.created"
  | eventUpdated => "eventsphere.events.updated"
  | orderCreated => "eventsphere.orders.created"
  | paymentProcessed => "eventsphere.payments.processed"
  | ticketIssued => "eventsphere.tickets.issued"
  | orderCancelled => "eventsphere.orders.cancelled"
  | reservationExpired => "eventsphere.reservations.expired"

/-- Reference: `Topic` (`topics.py:25`). -/
inductive Topic where
  | eventsLifecycle
  | ordersCreated
  | ordersStatusChanged
  | ordersNotifications
  deriving DecidableEq, Repr

/-- The name of a topic. -/
def Topic.value : Topic → String
  | eventsLifecycle => "eventsphere.events.lifecycle"
  | ordersCreated => "eventsphere.orders.created"
  | ordersStatusChanged => "eventsphere.orders.status-changed"
  | ordersNotifications => "eventsphere.orders.notifications"

/-- Reference: `TOPIC_FOR_EVENT_TYPE` (`topics.py:44`). -/
def topicForEventType : EventType → Topic
  | .eventCreated | .eventUpdated => .eventsLifecycle
  | .orderCreated => .ordersCreated
  | .paymentProcessed | .reservationExpired => .ordersStatusChanged
  | .ticketIssued | .orderCancelled => .ordersNotifications

/-- The topic that a worker is subscribed to. -/
def Worker.topic : Worker → Topic
  | eventSync => .eventsLifecycle
  | payment => .ordersCreated
  | orderStatus => .ordersStatusChanged
  | notification => .ordersNotifications

/-! ## Payloads -/

/-- A message of the event service or of the booking flow. -/
inductive Payload where
  | event (m : EventMessage)
  | order (m : Message)
  deriving DecidableEq, Repr

namespace Payload

/-- The type that a payload is published under. -/
def eventType : Payload → EventType
  | event (.eventCreated ..) => .eventCreated
  | event (.eventUpdated ..) => .eventUpdated
  | order (.orderCreated ..) => .orderCreated
  | order (.paymentProcessed ..) => .paymentProcessed
  | order (.ticketIssued ..) => .ticketIssued
  | order (.orderCancelled ..) => .orderCancelled
  | order (.reservationExpired ..) => .reservationExpired

/-- The key that a payload is published with. -/
def key : Payload → UUID
  | event m => m.eventId
  | order m => m.key

/-- A text as a JSON value. -/
def text (s : String) : Json := .string (codePoints s)

/-- A UUID as a JSON value. -/
def uuid (i : UUID) : Json := text i.str

/-- Reference: `model_dump(mode="json")` of the payload models (`schemas.py:34`). -/
def fields : Payload → List (String × Json)
  | event (.eventCreated eventId totalSeats) | event (.eventUpdated eventId totalSeats) =>
    [("event_id", uuid eventId), ("total_seats", .int totalSeats)]
  | order (.orderCreated orderId eventId userId quantity totalPriceCents reservationId) =>
    [("order_id", uuid orderId), ("event_id", uuid eventId), ("user_id", uuid userId),
      ("quantity", .int quantity), ("total_price_cents", .int totalPriceCents),
      ("reservation_id", uuid reservationId)]
  | order (.paymentProcessed orderId success transactionRef) =>
    [("order_id", uuid orderId), ("success", .bool success),
      ("transaction_ref", text transactionRef)]
  | order (.ticketIssued orderId userId eventId) =>
    [("order_id", uuid orderId), ("user_id", uuid userId), ("event_id", uuid eventId)]
  | order (.orderCancelled orderId reservationId) =>
    [("order_id", uuid orderId), ("reservation_id", uuid reservationId)]
  | order (.reservationExpired reservationId orderId eventId) =>
    [("reservation_id", uuid reservationId), ("order_id", uuid orderId), ("event_id", uuid eventId)]

end Payload

/-! ## Envelopes -/

/-- The object with these members. -/
def object (fields : List (String × Json)) : Json :=
  .object (fields.map fun f => (codePoints f.1, f.2))

/-- Reference: `EventEnvelope` (`schemas.py:20`), wrapped around a payload. The id and the time are
what the defaults of their fields give; the time is kept as it is written. -/
structure EventEnvelope where
  eventId : UUID
  occurredAt : String
  payload : Payload
  deriving DecidableEq, Repr

/-- The value that an envelope is written as. -/
def EventEnvelope.json (e : EventEnvelope) : Json :=
  object [("event_id", Payload.uuid e.eventId),
    ("event_type", Payload.text e.payload.eventType.value),
    ("occurred_at", Payload.text e.occurredAt), ("payload", object e.payload.fields)]

/-- What the producer hands to the broker. -/
structure ProducerRecord where
  topic : String
  value : ByteArray
  key : ByteArray

/-- Reference: `publish` (`producer.py:80`), with the serializers of `start` (`producer.py:65`). -/
def publish (modelDumpJson : Json → String) (e : EventEnvelope) : ProducerRecord where
  topic := (topicForEventType e.payload.eventType).value
  value := (modelDumpJson e.json).toUTF8
  key := e.payload.key.str.toUTF8

end EventSphere.Kafka
