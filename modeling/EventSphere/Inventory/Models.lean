import EventSphere.Shared.Basic
import EventSphere.UnitOfWork.World

/-!
# The inventory schema

The two tables of the Inventory service (`services/inventory/app/models.py`): one versioned row per
event, and the reservations, which refer to it.
-/

namespace EventSphere.Inventory

open EventSphere

/-- Reference: `EventInventory` (`models.py:17`). `version` is its `version_id_col`. -/
structure EventInventory where
  eventId : UUID
  totalCapacity : ℤ
  reservedCount : ℤ
  confirmedCount : ℤ
  version : ℕ
  deriving DecidableEq, Repr

/-- Reference: `EventInventory.available` (`models.py:43`). -/
def EventInventory.available (i : EventInventory) : ℤ :=
  i.totalCapacity - i.reservedCount - i.confirmedCount

/-- The seats an event row counts as taken, held or sold. -/
def EventInventory.taken (i : EventInventory) : ℤ := i.reservedCount + i.confirmedCount

/-- Reference: `Reservation` (`models.py:47`); the timestamps `created_at` and `updated_at` are read
by nothing. -/
structure Reservation where
  id : UUID
  eventId : UUID
  orderId : UUID
  quantity : ℤ
  status : ReservationStatus
  expiresAt : Instant
  deriving DecidableEq, Repr

/-- Reference: `primary_key=True` on `event_id` (`models.py:34`). -/
instance : PrimaryKey EventInventory UUID := ⟨EventInventory.eventId⟩

/-- Reference: `UUIDPrimaryKeyMixin.id` (`base.py:24`). -/
instance : PrimaryKey Reservation UUID := ⟨Reservation.id⟩

/-- Reference: `ForeignKey(event_inventory.event_id)` (`models.py:58`). -/
instance : ForeignKey Reservation UUID := ⟨Reservation.eventId⟩

/-- Reference: `version_id_col` (`models.py:40`). -/
instance : Versioned EventInventory where
  version := EventInventory.version
  bump i := { i with version := i.version + 1 }
  version_bump _ := rfl
  pk_bump _ := rfl

@[simp] theorem pk_inventory (i : EventInventory) : pk i = i.eventId := rfl

@[simp] theorem pk_reservation (r : Reservation) : pk r = r.id := rfl

@[simp] theorem fk_reservation (r : Reservation) : fk r = r.eventId := rfl

@[simp] theorem get_set_inventory (t : Table EventInventory) (i : EventInventory) :
    (t.set i).get i.eventId = some i := Table.get_set_self t i

@[simp] theorem get_set_reservation (t : Table Reservation) (r : Reservation) :
    (t.set r).get r.id = some r := Table.get_set_self t r

@[simp] theorem version_inventory (i : EventInventory) : version i = i.version := rfl

theorem bump_inventory (i : EventInventory) : bump i = { i with version := i.version + 1 } := rfl

@[simp] theorem bump_eventId (i : EventInventory) : (bump i).eventId = i.eventId := rfl

@[simp] theorem bump_taken (i : EventInventory) : (bump i).taken = i.taken := rfl

@[simp] theorem bump_totalCapacity (i : EventInventory) :
    (bump i).totalCapacity = i.totalCapacity := rfl

@[simp] theorem bump_reservedCount (i : EventInventory) :
    (bump i).reservedCount = i.reservedCount := rfl

@[simp] theorem bump_confirmedCount (i : EventInventory) :
    (bump i).confirmedCount = i.confirmedCount := rfl

/-- What a method of the inventory service can raise: a domain error, a `ValueError`, or an
exception of a flush that nobody caught. -/
inductive InventoryError where
  | domain (e : DomainError)
  | valueError (msg : String)
  | flush (e : FlushError)
  deriving DecidableEq, Repr

/-- Methods of the inventory repository. -/
abbrev InventoryM := Prog EventInventory UUID Reservation UUID InventoryError

/-- The inventory database. -/
abbrev InventoryDb := Db EventInventory Reservation

end EventSphere.Inventory
