import EventSphere.Inventory.Repository

/-!
# The inventory service

`InventoryService` (`services/inventory/app/services/inventory_service.py`): every method is one
session scope around repository methods, so one transaction. `adjust_capacity` and `reserve_seats`
also take a Redis lock first; the lock only removes interleavings, and the model has all of them.
-/

namespace EventSphere.Inventory

/-- The settings of the service (`inventory_service.py:25`). -/
structure Settings where
  reservationTtlSeconds : ℤ
  optimisticRetryAttempts : ℕ

/-- Reference: the defaults of `Settings` (`config.py:24`, `config.py:33`). -/
def Settings.default : Settings := { reservationTtlSeconds := 600, optimisticRetryAttempts := 5 }

/-- The calls of the service. -/
inductive Call where
  | initializeInventory (eventId : UUID) (totalCapacity : ℤ)
  | adjustCapacity (eventId : UUID) (newTotalCapacity : ℤ)
  | getAvailability (eventId : UUID)
  | reserveSeats (eventId orderId : UUID) (quantity : ℤ)
  | confirmReservation (reservationId : UUID)
  | releaseReservation (reservationId : UUID) (expired : Bool)
  | sweepExpiredReservations
  deriving DecidableEq, Repr

/-- What a call returns. -/
inductive Result where
  | inventory (i : EventInventory)
  | reservation (r : Reservation)
  | reservations (rs : List Reservation)
  deriving DecidableEq, Repr

/-- Reference: `get_availability` (`inventory_service.py:50`). -/
def getAvailability (eventId : UUID) : InventoryM EventInventory := do
  match ← getInventory eventId with
  | none => raiseDomain (.notFound s!"No inventory record for event {eventId}")
  | some inventory => return inventory

/-- The loop of `sweep_expired_reservations` (`inventory_service.py:110`). -/
def releaseAll : List Reservation → InventoryM (List Reservation)
  | [] => return []
  | reservation :: rest => do
    let released ← release reservation.id true
    return released :: (← releaseAll rest)

/-- The row limit of `find_expired_pending` (`inventory_repository.py:129`). -/
def sweepLimit : ℕ := 100

/-- Reference: `sweep_expired_reservations` (`inventory_service.py:98`). -/
def sweepExpiredReservations : InventoryM (List Reservation) := do
  releaseAll (← findExpiredPending sweepLimit)

/-- The program of a call, inside its session scope. Reference: `InventoryService`
(`inventory_service.py:39`). -/
def Call.body (settings : Settings) : Call → InventoryM Result
  | .initializeInventory e n => return .inventory (← Inventory.initializeInventory e n)
  | .adjustCapacity e n => return .inventory (← Inventory.adjustCapacity e n)
  | .getAvailability e => return .inventory (← Inventory.getAvailability e)
  | .reserveSeats e o q =>
    return .reservation
      (← reserve e o q settings.reservationTtlSeconds settings.optimisticRetryAttempts)
  | .confirmReservation r => return .reservation (← confirm r)
  | .releaseReservation r expired => return .reservation (← release r expired)
  | .sweepExpiredReservations => return .reservations (← Inventory.sweepExpiredReservations)

/-- The inventory service with all its transactions in flight. -/
abbrev InventoryWorld := World Call EventInventory UUID Reservation UUID InventoryError Result

/-- One operation of one transaction. -/
abbrev step (settings : Settings) (w : InventoryWorld) (a : Action Call UUID) :
    Option InventoryWorld :=
  w.step (Call.body settings) a

/-- Transaction `t` runs `n` operations at the time `now`; a reservation it makes gets the key
`100 + t`. -/
def advances (now : Instant) (t n : ℕ) : List (Action Call UUID) :=
  List.replicate n (.advance t ⟨now, ⟨100 + t⟩, .ascending⟩)

end EventSphere.Inventory
