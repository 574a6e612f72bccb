import EventSphere.Inventory.Linearizable
import EventSphere.Inventory.Monotone
import EventSphere.Inventory.Availability
import EventSphere.Inventory.Redelivery
import EventSphere.Inventory.Progress
import EventSphere.Inventory.Sweep
import EventSphere.Inventory.SweepAnswers
import EventSphere.Inventory.Ranges
import EventSphere.Kafka.Consumer
import EventSphere.Api.InventoryClient
import EventSphere.Api.RefreshTokens
import EventSphere.Api.TokenChains
import EventSphere.Api.ActiveAccounts
import EventSphere.Api.Tickets
import EventSphere.Api.Payments
import EventSphere.Api.OrderStatus
import EventSphere.Api.References
import EventSphere.Api.Idempotency
import EventSphere.Api.OrderCreated
import EventSphere.Api.Notifications
import EventSphere.Api.Charges
import EventSphere.Api.Reaper
import EventSphere.Api.CapacitySync
import EventSphere.Api.CancelRetries
import EventSphere.Api.Replay
import EventSphere.Api.Pricing
import EventSphere.Api.EventReplay
import EventSphere.Api.RateLimit
import EventSphere.Api.Privacy
import EventSphere.Api.EventEndpoints
import EventSphere.Api.EventUpdates
import EventSphere.Api.Simulation
import EventSphere.Api.Causality
import EventSphere.Api.Progress
import EventSphere.Api.Redelivery
import EventSphere.Api.ErrorResponses
import EventSphere.Api.DeploymentRefines
import EventSphere.Kafka.Schemas
import EventSphere.Kafka.Wire
import EventSphere.Kafka.Workers
