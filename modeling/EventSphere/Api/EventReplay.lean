import EventSphere.Api.CapacitySync
import EventSphere.Inventory.Isolated

/-!
# Replays of an event's messages

`event_sync_consumer` commits its position after a message, so after a crash it reads messages again
from an earlier position, in order. The log of an event is its `EVENT_CREATED` and then its
`EVENT_UPDATED` messages. `replay_converges`: however often the log is rewound, and whatever happens
to the event's seats meanwhile, the event has the capacity of the last message when the end of the
log has been handled, and no message touches the counters.
-/

namespace EventSphere.Api

open Inventory (Settings InventoryDb capacity EventInventory serve)

/-- The handler of a message, with whether the event's lock was acquired, which only
`adjust_capacity` asks for (`inventory_service.py:45`): what it returns, unless it raises, and the
inventory it leaves. Reference: `_handle_message` (`event_sync_consumer.py:16`). -/
def EventMessage.handle (settings : Settings) (m : EventMessage) (locked : Bool) (db : InventoryDb)
    (inp : Input UUID) : Option Inventory.Result × InventoryDb :=
  match m, locked with
  | .eventUpdated _ _, false => (none, db)
  | _, _ =>
    match (m.call.body settings).atomically db inp with
    | (.returned res, db') => (some res, db')
    | (_, db') => (none, db')

/-- The inventory, and the position of the consumer in the log of an event. -/
structure Replayer where
  inventory : InventoryDb
  position : ℕ

/-- The next message is handled, the consumer goes back to an earlier position, or the inventory is
called from elsewhere. -/
inductive ReplayAction where
  | deliver (locked : Bool) (inp : Input UUID)
  | rewind (position : ℕ)
  | call (call : Inventory.Call) (inp : Input UUID)

namespace Replayer

/-- The consumer before the first message, on an empty inventory. -/
def init : Replayer := ⟨.empty, 0⟩

/-- One step. The consumer moves on also when the handler has raised (`consumer.py:85`). -/
def step (settings : Settings) (log : List EventMessage) (s : Replayer) :
    ReplayAction → Option Replayer
  | .deliver locked inp =>
    (log[s.position]?).map fun m =>
      ⟨(m.handle settings locked s.inventory inp).2, s.position + 1⟩
  | .rewind position => if position ≤ s.position then some { s with position } else none
  | .call call inp => some { s with inventory := serve settings s.inventory (call, inp) }

/-- The log of the event: its creation, then any number of updates. -/
def IsLog (e : UUID) (log : List EventMessage) : Prop :=
  ∃ n updates, log = .eventCreated e n :: updates ∧ ∀ m ∈ updates, ∃ n, m = .eventUpdated e n

/-- No handler raises. -/
def Returns (settings : Settings) (log : List EventMessage) (s : Replayer)
    (a : ReplayAction) : Prop :=
  ∀ locked inp, a = .deliver locked inp → ∀ m ∈ log[s.position]?,
    (m.handle settings locked s.inventory inp).1 ≠ none

instance (settings : Settings) (log : List EventMessage) (s : Replayer) :
    ∀ a, Decidable (Returns settings log s a)
  | .deliver locked inp =>
    decidable_of_iff (∀ m ∈ log[s.position]?, (m.handle settings locked s.inventory inp).1.isSome)
      ⟨by rintro h _ _ ⟨⟩ m hm; exact Option.isSome_iff_ne_none.1 (h m hm),
        fun h m hm => Option.isSome_iff_ne_none.2 (h locked inp rfl m hm)⟩
  | .rewind _ => isTrue (by rintro _ _ ⟨⟩)
  | .call _ _ => isTrue (by rintro _ _ ⟨⟩)

/-- Nobody else sets the capacity of the event. -/
def Elsewhere (e : UUID) (a : ReplayAction) : Prop :=
  ∀ call inp, a = .call call inp → ¬ call.setsFor e

instance (e : UUID) : ∀ a, Decidable (Elsewhere e a)
  | .deliver _ _ => isTrue (by rintro _ _ ⟨⟩)
  | .rewind _ => isTrue (by rintro _ _ ⟨⟩)
  | .call call inp =>
    decidable_of_iff (¬ call.setsFor e) ⟨by rintro h _ _ ⟨⟩; exact h, fun h => h call inp rfl⟩

/-- A message leaves the counters of every event as they are, and the reservations. -/
def KeepsCounts (settings : Settings) (log : List EventMessage) (s : Replayer) (a : ReplayAction) :
    Prop :=
  ∀ s' locked inp, a = .deliver locked inp → s.step settings log a = some s' →
    (∀ k, s'.inventory.versioned.term EventInventory.reservedCount k =
        s.inventory.versioned.term EventInventory.reservedCount k ∧
      s'.inventory.versioned.term EventInventory.confirmedCount k =
        s.inventory.versioned.term EventInventory.confirmedCount k) ∧
    s'.inventory.plain = s.inventory.plain

/-! ## The handlers -/

section
variable {settings : Settings} {log : List EventMessage} {db : InventoryDb} {e : UUID} {n : ℤ}
  {locked : Bool} {inp : Input UUID} {s s' : Replayer} {row : EventInventory}

/-- `EVENT_CREATED` for an event that has its row. -/
theorem handle_created (hrow : db.versioned.get e = some row) :
    (EventMessage.eventCreated e n).handle settings locked db inp =
      (some (.inventory row), db) := by
  simp only [EventMessage.handle, EventMessage.call,
    Inventory.initialize_existing settings inp n hrow]

/-- `EVENT_CREATED` for an event without a row. -/
theorem handle_created_missing (he : db.versioned.get e = none) :
    (EventMessage.eventCreated e n).handle settings locked db inp =
      (some (.inventory ⟨e, n, 0, 0, 1⟩), ⟨db.versioned.set ⟨e, n, 0, 0, 1⟩, db.plain⟩) := by
  simp only [EventMessage.handle, EventMessage.call, Inventory.initialize_missing settings inp n he]

/-- `EVENT_UPDATED` for an event that has its row. -/
theorem handle_updated (hrow : db.versioned.get e = some row) :
    (EventMessage.eventUpdated e n).handle settings true db inp =
      (some (.inventory (row.adjusted n)), ⟨db.versioned.set (row.adjusted n), db.plain⟩) := by
  simp only [EventMessage.handle, EventMessage.call,
    Inventory.adjust_existing settings inp n hrow]

/-- `EVENT_UPDATED` for an event without a row, or without the lock. -/
theorem handle_updated_raises (h : db.versioned.get e = none ∨ locked = false) :
    (EventMessage.eventUpdated e n).handle settings locked db inp = (none, db) := by
  cases locked with
  | false => rfl
  | true =>
    have he := h.resolve_right Bool.noConfusion
    simp only [EventMessage.handle, EventMessage.call,
      Inventory.adjust_missing settings inp n he]

/-- A written row with the counters of the one it replaces, or with none. -/
theorem term_set_row {c : EventInventory → ℤ} (h : c row = db.versioned.term c row.eventId)
    (k : UUID) : (db.versioned.set row).term c k = db.versioned.term c k := by
  rw [Table.term_set]
  split
  · next hk => rw [hk, h]; rfl
  · rfl

/-- **A message leaves the counters as they are.** -/
theorem handle_counts (m : EventMessage) (locked : Bool) (db : InventoryDb) (inp : Input UUID) :
    (∀ k, (m.handle settings locked db inp).2.versioned.term EventInventory.reservedCount k =
        db.versioned.term EventInventory.reservedCount k ∧
      (m.handle settings locked db inp).2.versioned.term EventInventory.confirmedCount k =
        db.versioned.term EventInventory.confirmedCount k) ∧
    (m.handle settings locked db inp).2.plain = db.plain := by
  cases m with
  | eventCreated e n =>
    cases hrow : db.versioned.get e with
    | some row => rw [handle_created hrow]; exact ⟨fun _ => ⟨rfl, rfl⟩, rfl⟩
    | none =>
      rw [handle_created_missing hrow]
      exact ⟨fun k => ⟨term_set_row (Table.term_of_none _ hrow).symm k,
        term_set_row (Table.term_of_none _ hrow).symm k⟩, rfl⟩
  | eventUpdated e n =>
    cases hrow : db.versioned.get e with
    | none => rw [handle_updated_raises (.inl hrow)]; exact ⟨fun _ => ⟨rfl, rfl⟩, rfl⟩
    | some row =>
      cases locked with
      | false => exact ⟨fun _ => ⟨rfl, rfl⟩, rfl⟩
      | true =>
        obtain rfl : row.eventId = e := db.versioned.pk_of_get hrow
        rw [handle_updated hrow]
        refine ⟨fun k => ⟨term_set_row ?_ k, term_set_row ?_ k⟩, rfl⟩
        · rw [Inventory.adjusted_reservedCount, Inventory.adjusted_eventId,
            Table.term_of_get _ hrow]
        · rw [Inventory.adjusted_confirmedCount, Inventory.adjusted_eventId,
            Table.term_of_get _ hrow]

/-- The capacity after `EVENT_CREATED`: the one that was there, or the message's. -/
theorem capacity_created :
    capacity ((EventMessage.eventCreated e n).handle settings locked db inp).2 e =
      (capacity db e).or (some n) := by
  cases hrow : db.versioned.get e with
  | some row => rw [handle_created hrow, capacity, hrow]; rfl
  | none =>
    rw [handle_created_missing hrow, capacity, capacity, hrow]
    exact congrArg _ (Inventory.get_set_inventory db.versioned ⟨e, n, 0, 0, 1⟩)

/-- The capacity after `EVENT_UPDATED`, if its handler has returned: the message's. -/
theorem capacity_updated
    (h : ((EventMessage.eventUpdated e n).handle settings locked db inp).1 ≠ none) :
    capacity ((EventMessage.eventUpdated e n).handle settings locked db inp).2 e = some n := by
  cases hrow : db.versioned.get e with
  | none => rw [handle_updated_raises (.inl hrow)] at h; exact absurd rfl h
  | some row =>
    cases locked with
    | false => exact absurd rfl h
    | true =>
      obtain rfl : row.eventId = e := db.versioned.pk_of_get hrow
      rw [handle_updated hrow, capacity, ← Inventory.adjusted_eventId row n,
        Inventory.get_set_inventory, Option.map_some, Inventory.adjusted_totalCapacity]

/-! ## Runs -/

/-- The invariant of the replays. While the creation is all there is, the event has no other
capacity than the creation's; at the end of a log with updates it has that of the last. -/
structure Replaying (e : UUID) (log : List EventMessage) (s : Replayer) : Prop where
  inv : DbInv s.inventory
  bounded : s.position ≤ log.length
  fresh : ∀ n, log = [.eventCreated e n] → ∀ c ∈ capacity s.inventory e, c = n
  created : ∀ n, log = [.eventCreated e n] → s.position ≠ 0 → capacity s.inventory e = some n
  updated : ∀ n, log.getLast? = some (.eventUpdated e n) → s.position = log.length →
    capacity s.inventory e = some n

theorem replaying_init (hlog : IsLog e log) : Replaying e log init where
  inv := Inventory.accounted_empty.inv
  bounded := Nat.zero_le _
  fresh := by rintro n - c ⟨⟩
  created _ _ h := absurd rfl h
  updated n _ h := by
    obtain ⟨n₀, updates, rfl, -⟩ := hlog
    cases h

variable (settings inp) in
/-- A call from elsewhere keeps the capacity of the event. -/
theorem capacity_serve (h : DbInv s.inventory) {call : Inventory.Call} (hc : ¬ call.setsFor e) :
    capacity (serve settings s.inventory (call, inp)) e = capacity s.inventory e :=
  (Inventory.serve_rel settings (call, inp) (T := fun V V' => capacity V' e = capacity V e)
    (fun _ => rfl) (fun h h' => h'.trans h) (fun h => h.capacity hc) h).2

/-- A message keeps the invariant of the tables. -/
theorem handle_dbInv (m : EventMessage) (locked : Bool) (inp : Input UUID) (h : DbInv db) :
    DbInv (m.handle settings locked db inp).2 := by
  have hserve : DbInv (serve settings db (m.call, inp)) := Inventory.dbInv_serve settings _ h
  unfold EventMessage.handle
  split
  · exact h
  · unfold serve at hserve
    split
    · next he => rwa [he] at hserve
    · next he => rwa [he] at hserve

/-- **One step keeps the invariant**, if no handler raises and nobody else sets the capacity. -/
theorem Replaying.step (h : Replaying e log s) (hlog : IsLog e log) {a : ReplayAction}
    (ha : Returns settings log s a ∧ Elsewhere e a) (hs : s.step settings log a = some s') :
    Replaying e log s' := by
  obtain ⟨hreturns, helse⟩ := ha
  cases a with
  | deliver locked inp =>
    obtain ⟨m, hm, rfl⟩ := Option.map_eq_some_iff.1 hs
    have hlt : s.position < log.length := (List.getElem?_eq_some_iff.1 hm).1
    have hret := hreturns locked inp rfl m hm
    -- the creation, if it is all there is
    have honly : ∀ n, log = [.eventCreated e n] → m = .eventCreated e n := by
      intro n hn
      subst hn
      have hpos : s.position = 0 := Nat.lt_one_iff.1 hlt
      rw [hpos] at hm
      exact (Option.some.inj hm).symm
    refine ⟨handle_dbInv m locked inp h.inv, hlt, fun n hn c hc => ?_, fun n hn _ => ?_,
      fun n hn hend => ?_⟩
    · obtain rfl := honly n hn
      rw [capacity_created] at hc
      rcases Option.or_eq_some_iff.1 hc with hc | ⟨-, hc⟩
      · exact h.fresh n hn c hc
      · exact (Option.some.inj hc).symm
    · obtain rfl := honly n hn
      rw [capacity_created]
      cases hc : capacity s.inventory e with
      | none => rfl
      | some c => rw [Option.some_or, h.fresh n hn c hc]
    · have hlast : log[s.position]? = log.getLast? := by
        rw [List.getLast?_eq_getElem?, ← (hend : s.position + 1 = log.length), Nat.add_sub_cancel]
      rw [hlast, hn] at hm
      cases hm
      exact capacity_updated hret
  | rewind position =>
    simp only [Replayer.step] at hs
    split at hs
    · next hle =>
      cases hs
      have hb := h.bounded
      refine ⟨h.inv, hle.trans hb, h.fresh, fun n hn hne => h.created n hn ?_,
        fun n hn hend => h.updated n hn ?_⟩
      · intro h0
        exact hne (Nat.le_zero.1 (h0 ▸ hle))
      · change position = log.length at hend
        omega
    · cases hs
  | call call inp =>
    cases hs
    have hcap := capacity_serve settings inp h.inv (helse call inp rfl)
    exact ⟨Inventory.dbInv_serve settings _ h.inv, h.bounded, fun n hn => hcap ▸ h.fresh n hn,
      fun n hn hne => hcap.trans (h.created n hn hne), fun n hn hend =>
        hcap.trans (h.updated n hn hend)⟩

end

/-- **Replays converge.** For every event and every log of its creation and any number of updates,
and every run in which the consumer handles the log in order with any number of rewinds, between any
other calls of the inventory that do not set the event's capacity: if no handler raises, then
whenever the end of the log has been handled the capacity of the event is that of the last message,
and no message ever changes a counter of an event or a reservation. -/
theorem replay_converges (settings : Settings) (e : UUID) (log : List EventMessage)
    (as : List ReplayAction) (hlog : IsLog e log) (helse : ∀ a ∈ as, Elsewhere e a)
    (hreturns : Along (step settings log) (Returns settings log) init as) :
    (∀ s, run (step settings log) init as = some s → s.position = log.length →
      capacity s.inventory e = log.getLast?.map EventMessage.totalSeats) ∧
    Along (step settings log) (KeepsCounts settings log) init as := by
  have hC : Along (step settings log)
      (fun s a => Returns settings log s a ∧ Elsewhere e a) init as :=
    hreturns.and (along_of_forall_mem helse)
  refine ⟨fun s hr hend => ?_, ?_⟩
  · have h : Replaying e log s := run_inv_along (I := Replaying e log)
      (fun h ha hs => h.step hlog ha hs) hC hr (replaying_init hlog)
    obtain ⟨n₀, updates, rfl, hupdates⟩ := hlog
    cases hl : updates.getLast? with
    | none =>
      obtain rfl := List.getLast?_eq_none_iff.1 hl
      exact h.created n₀ rfl (by rw [hend]; exact Nat.one_ne_zero)
    | some m =>
      obtain ⟨n, rfl⟩ := hupdates m (List.mem_of_getLast? hl)
      have hlast : (EventMessage.eventCreated e n₀ :: updates).getLast? =
          some (.eventUpdated e n) := by
        rw [List.getLast?_cons, hl]
        rfl
      rw [hlast, h.updated n hlast hend]
      rfl
  · refine along_of_inv (C := fun _ _ => True) (I := fun _ => True)
      (fun _ _ _ => trivial) ?_ trivial
      (along_of_forall_mem fun _ _ => trivial)
    intro s a _ _ s' locked inp ha hs
    subst ha
    obtain ⟨m, -, rfl⟩ := Option.map_eq_some_iff.1 hs
    exact handle_counts m locked s.inventory inp

/-- Two updates, handled once in full, and then again from the beginning with a held seat. -/
def replayedLog : List ReplayAction :=
  let inp : Input UUID := ⟨0, ⟨100⟩, .ascending⟩
  [.deliver true inp, .deliver true inp, .deliver true inp,
    .call (.reserveSeats ⟨1⟩ ⟨2⟩ 1) inp, .rewind 0, .deliver false inp, .deliver true inp,
    .deliver true inp]

/-- The messages of an event that grows from five seats to eight and shrinks to three. -/
def shrunkLog : List EventMessage :=
  [.eventCreated ⟨1⟩ 5, .eventUpdated ⟨1⟩ 8, .eventUpdated ⟨1⟩ 3]

/-- The replayed event has the seats of its last message. -/
theorem replay_converges_shrunk : ∃ s,
    run (step .default shrunkLog) init replayedLog = some s ∧
      capacity s.inventory ⟨1⟩ = some 3 := by
  obtain ⟨s, hs, hend⟩ : ∃ s, run (step .default shrunkLog) init replayedLog = some s ∧
      s.position = shrunkLog.length := exists_of_run (by decide +kernel)
  have hlog : IsLog ⟨1⟩ shrunkLog := ⟨5, _, rfl, by simp⟩
  exact ⟨s, hs, (replay_converges .default ⟨1⟩ shrunkLog replayedLog hlog (by decide +kernel)
    (by decide +kernel)).1 s hs hend⟩

end Replayer

end EventSphere.Api
