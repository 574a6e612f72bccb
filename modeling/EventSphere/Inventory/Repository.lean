import EventSphere.Inventory.Models

/-!
# The inventory repository

`InventoryRepository` (`services/inventory/app/repositories/inventory_repository.py`), method by
method, as programs over its session.
-/

namespace EventSphere.Inventory

/-- Raise a domain error. -/
def raiseDomain {α : Type} (e : DomainError) : InventoryM α := .raise (.domain e)

/-- `await self.session.flush()` with nobody catching its exceptions. -/
def flush : InventoryM Unit :=
  .flush fun
    | none => .ret ()
    | some e => .raise (.flush e)

/-- Reference: `get_inventory` (`inventory_repository.py:29`). -/
def getInventory (eventId : UUID) : InventoryM (Option EventInventory) := .getVersioned eventId .ret

/-- `await self.session.get(Reservation, reservation_id)`. -/
def getReservation (reservationId : UUID) : InventoryM (Option Reservation) :=
  .getPlain reservationId .ret

/-- Reference: `initialize_inventory` (`inventory_repository.py:32`). The first version number is
the one SQLAlchemy's counter inserts, and the two counters have their column default. -/
def initializeInventory (eventId : UUID) (totalCapacity : ℤ) : InventoryM EventInventory := do
  match ← getInventory eventId with
  | some existing => return existing
  | none =>
    let inventory : EventInventory :=
      { eventId, totalCapacity, reservedCount := 0, confirmedCount := 0, version := 1 }
    .addVersioned inventory (.ret ())
    flush
    return inventory

/-- Reference: `adjust_capacity` (`inventory_repository.py:41`). The returned object shows the
version the flush gave it. -/
def adjustCapacity (eventId : UUID) (newTotalCapacity : ℤ) : InventoryM EventInventory := do
  match ← getInventory eventId with
  | none => raiseDomain (.notFound s!"No inventory record for event {eventId}")
  | some inventory =>
    .assignVersioned { inventory with totalCapacity := newTotalCapacity } (.ret ())
    flush
    return (← getInventory eventId).getD inventory

/-- The loop of `reserve` (`inventory_repository.py:61`) with `n` attempts left. -/
def reserveAttempts (eventId orderId : UUID) (quantity reservationTtlSeconds : ℤ)
    (maxRetries : ℕ) : ℕ → InventoryM Reservation
  | 0 =>
    raiseDomain (.conflict (s!"Could not reserve {quantity} seat(s) for event {eventId} after " ++
      s!"{maxRetries} attempts due to contention"))
  | n + 1 => do
    match ← getInventory eventId with
    | none => raiseDomain (.notFound s!"No inventory record for event {eventId}")
    | some inventory =>
      if inventory.available < quantity then
        raiseDomain (.capacityExceeded (s!"Only {inventory.available} seat(s) left for event " ++
          s!"{eventId}, requested {quantity}"))
      else
        .assignVersioned
          { inventory with reservedCount := inventory.reservedCount + quantity } (.ret ())
        let now ← .clock .ret
        let id ← .uuid .ret
        let reservation : Reservation :=
          { id, eventId, orderId, quantity, status := .pending,
            expiresAt := now + reservationTtlSeconds * 1000000 }
        .addPlain reservation (.ret ())
        match ← .flush .ret with
        | none => return reservation
        | some .staleData =>
          .rollback (.ret ())
          reserveAttempts eventId orderId quantity reservationTtlSeconds maxRetries n
        | some e => .raise (.flush e)

/-- Reference: `reserve` (`inventory_repository.py:49`). -/
def reserve (eventId orderId : UUID) (quantity reservationTtlSeconds : ℤ) (maxRetries : ℕ) :
    InventoryM Reservation :=
  if quantity ≤ 0 then .raise (.valueError "quantity must be positive")
  else reserveAttempts eventId orderId quantity reservationTtlSeconds maxRetries maxRetries

/-- Reference: `confirm` (`inventory_repository.py:96`). -/
def confirm (reservationId : UUID) : InventoryM Reservation := do
  match ← getReservation reservationId with
  | none => raiseDomain (.notFound s!"No reservation {reservationId}")
  | some reservation =>
    if reservation.status ≠ .pending then return reservation
    match ← getInventory reservation.eventId with
    | some inventory =>
      .assignVersioned
        { inventory with
          reservedCount := inventory.reservedCount - reservation.quantity
          confirmedCount := inventory.confirmedCount + reservation.quantity } (.ret ())
    | none => pure ()
    let reservation := { reservation with status := .confirmed }
    .assignPlain reservation (.ret ())
    flush
    return reservation

/-- The event row with the seats of a released reservation given back: from the counter that holds
them. Reference: the inner branches of `release` (`inventory_repository.py:119`). -/
def EventInventory.giveBack (inventory : EventInventory) (reservation : Reservation) :
    EventInventory :=
  if reservation.status = .pending then
    { inventory with reservedCount := inventory.reservedCount - reservation.quantity }
  else { inventory with confirmedCount := inventory.confirmedCount - reservation.quantity }

/-- Reference: `release` (`inventory_repository.py:111`). -/
def release (reservationId : UUID) (expired : Bool) : InventoryM Reservation := do
  match ← getReservation reservationId with
  | none => raiseDomain (.notFound s!"No reservation {reservationId}")
  | some reservation =>
    if reservation.status ≠ .pending ∧ reservation.status ≠ .confirmed then return reservation
    match ← getInventory reservation.eventId with
    | some inventory => .assignVersioned (inventory.giveBack reservation) (.ret ())
    | none => pure ()
    let reservation := { reservation with status := if expired then .expired else .released }
    .assignPlain reservation (.ret ())
    flush
    return reservation

/-- The filter of `find_expired_pending` (`inventory_repository.py:133`). -/
def isExpiredPending (now : Instant) (r : Reservation) : Bool :=
  r.status = .pending ∧ r.expiresAt < now

/-- Reference: `find_expired_pending` (`inventory_repository.py:129`). -/
def findExpiredPending (limit : ℕ) : InventoryM (List Reservation) := do
  let now ← .clock .ret
  .select (isExpiredPending now) limit .ret

end EventSphere.Inventory
