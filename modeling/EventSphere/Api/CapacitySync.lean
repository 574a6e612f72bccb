import EventSphere.Api.EventService
import EventSphere.Inventory.Capacity

/-!
# Capacity synchronisation

The event service and the inventory, connected by the messages of an event: any number of `create`
and `update` requests, `event_sync_consumer`
(`services/inventory/app/workers/event_sync_consumer.py`) and the other calls of the inventory,
interleaved operation by operation (`Catalogue.step`). Nothing crashes and no message is lost, and
the messages of one event reach the consumer in the order in which they were published, each once;
the messages of different events may be handled at the same time. A handler that fails is logged and
its message skipped (`consumer.py:85`).

Two things come between the seats of an event and its capacity. Requests commit in one order and
publish in another, and a handler fails: it does not get the event's lock, or its `UPDATE` loses a
version race, which `adjust_capacity` does not retry (`capacity_diverges`). `capacity_synced` shows
that there is nothing else.
-/

namespace EventSphere.Api

open Inventory (Settings InventoryWorld Capacities Sets FlushMatches capacity)

/-- The call that a message is handled by. Reference: `_handle_message`
(`event_sync_consumer.py:16`). -/
def EventMessage.call : EventMessage → Inventory.Call
  | eventCreated eventId totalSeats => .initializeInventory eventId totalSeats
  | eventUpdated eventId totalSeats => .adjustCapacity eventId totalSeats

/-- A request: running or ended. -/
inductive EventRequest where
  | running (call : EventCall) (prog : EventProg EventRow) (session : EventSession)
  | done (call : EventCall) (outcome : Except EventError EventRow)

/-- The event a request has inserted and not yet committed. -/
def EventRequest.insert : EventRequest → Option EventRow
  | running _ _ σ => σ.insert
  | done _ _ => none

/-- The message a request has still to publish for what it has committed. -/
def EventRequest.owes : EventRequest → Option EventMessage
  | running _ p _ => p.owes
  | done _ _ => none

/-- The request has ended. -/
def EventRequest.ended : EventRequest → Bool
  | running .. => false
  | done .. => true

/-- The committed events, the inventory, every request so far, the messages that requests have still
to publish, in the order of their commits, and those they have published. Of every event: how many
of its messages the consumer is done with, and the transaction of the one it is handling. -/
structure Catalogue where
  events : Table EventRow
  inventory : InventoryWorld
  requests : List EventRequest
  owing : List (ℕ × EventMessage)
  published : List EventMessage
  consumed : UUID → ℕ
  handling : UUID → Option ℕ

/-- The steps of the system. -/
inductive CatalogueAction where
  /-- A request arrives. -/
  | begin (call : EventCall)
  /-- A request runs its next operation. -/
  | advance (j : ℕ) (uuid : UUID)
  /-- The consumer takes the next message of the event and begins its transaction. -/
  | deliver (e : UUID)
  /-- The consumer takes the next message of the event and does not get the event's lock. -/
  | refuse (e : UUID)
  /-- The transaction of a message has ended, and the consumer moves on. -/
  | settle (e : UUID)
  /-- A transaction of the inventory moves, or a call arrives from elsewhere. -/
  | inventory (a : Action Inventory.Call UUID)

namespace Catalogue

/-- The system before the first request. -/
def init : Catalogue := ⟨.empty, .init, [], [], [], fun _ => 0, fun _ => none⟩

/-- The published messages of an event. -/
def log (s : Catalogue) (e : UUID) : List EventMessage := s.published.filter (·.eventId = e)

/-- The messages of an event that requests have still to publish, in the order of their commits. -/
def owed (s : Catalogue) (e : UUID) : List (ℕ × EventMessage) := s.owing.filter (·.2.eventId = e)

/-- Replace the state of request `j`. -/
def put (s : Catalogue) (j : ℕ) (r : EventRequest) : Catalogue :=
  { s with requests := s.requests.set j r }

/-- The operation waits for another request: it inserts an event with a key that has been inserted
and not yet committed. -/
def Blocked (s : Catalogue) (j : ℕ) : EventProg EventRow → Prop
  | .addEvent event _ => ∃ j' < s.requests.length, j' ≠ j ∧
    ∃ event' ∈ (s.requests[j']?).bind EventRequest.insert, event'.id = event.id
  | _ => False

instance (s : Catalogue) (j : ℕ) : ∀ p, Decidable (s.Blocked j p)
  | .addEvent _ _ => inferInstanceAs (Decidable (∃ j' < _, _ ∧ ∃ event' ∈ _, _))
  | .ret _ | .raise _ | .getEvent .. | .uuid4 _ | .setattrs .. | .commit _ | .publish .. =>
    inferInstanceAs (Decidable False)

/-- The next operation of request `j`. -/
def advance (s : Catalogue) (j : ℕ) (uuid : UUID) (call : EventCall) (p : EventProg EventRow)
    (σ : EventSession) : Catalogue :=
  match p.next s.events uuid σ with
  | .ret a => s.put j (.done call (.ok a))
  | .raise e => s.put j (.done call (.error e))
  | .continue p' σ' => s.put j (.running call p' σ')
  | .commit p' events =>
    { s.put j (.running call p' .empty) with
      events
      owing := s.owing ++ (p'.owes.map (j, ·)).toList }
  | .publish m p' =>
    { s.put j (.running call p' σ) with
      owing := s.owing.filter (·.1 ≠ j)
      published := s.published ++ [m] }

/-- What can happen in the inventory besides: only the consumer sets capacities, and its
transactions are not ended from outside. -/
def outside (s : Catalogue) : Action Inventory.Call UUID → Bool
  | .begin call => call.sets = none
  | .advance _ _ => true
  | .abort t => (s.inventory.txs[t]?).all fun x => x.call.sets = none

/-- One step of the interleaved system. -/
def step (settings : Settings) (s : Catalogue) : CatalogueAction → Option Catalogue
  | .begin call => some { s with requests := s.requests ++ [.running call call.body .empty] }
  | .advance j uuid =>
    match s.requests[j]? with
    | some (.running call p σ) =>
      if s.Blocked j p then none else some (s.advance j uuid call p σ)
    | _ => none
  | .deliver e =>
    match s.handling e, (s.log e)[s.consumed e]? with
    | none, some m =>
      some { s with
        inventory := s.inventory.begun (Inventory.Call.body settings) m.call
        handling := Function.update s.handling e (some s.inventory.txs.length) }
    | _, _ => none
  | .refuse e =>
    match s.handling e, (s.log e)[s.consumed e]? with
    | none, some (.eventUpdated _ _) =>
      some { s with consumed := Function.update s.consumed e (s.consumed e + 1) }
    | _, _ => none
  | .settle e =>
    match s.handling e with
    | some t =>
      match s.inventory.txs[t]? with
      | some (.done _ _) =>
        some { s with
          consumed := Function.update s.consumed e (s.consumed e + 1)
          handling := Function.update s.handling e none }
      | _ => none
    | none => none
  | .inventory a =>
    if s.outside a then
      (Inventory.step settings s.inventory a).map fun w => { s with inventory := w }
    else none

/-! ## What a step can do -/

/-- The kinds of steps, with everything each of them does to the system. -/
inductive StepKind (settings : Settings) (s : Catalogue) : CatalogueAction → Catalogue → Prop
  | begin (call : EventCall) :
      StepKind settings s (.begin call)
        { s with requests := s.requests ++ [.running call call.body .empty] }
  | ended {j : ℕ} {uuid : UUID} {call : EventCall} {p : EventProg EventRow} {σ : EventSession}
      {o : Except EventError EventRow} (hj : s.requests[j]? = some (.running call p σ))
      (hp : p.owes = none) : StepKind settings s (.advance j uuid) (s.put j (.done call o))
  | continue {j : ℕ} {uuid : UUID} {call : EventCall} {p p' : EventProg EventRow}
      {σ σ' : EventSession} (hj : s.requests[j]? = some (.running call p σ))
      (hb : ¬ s.Blocked j p) (hn : p.next s.events uuid σ = .continue p' σ') :
      StepKind settings s (.advance j uuid) (s.put j (.running call p' σ'))
  | commit {j : ℕ} {uuid : UUID} {call : EventCall} {p : EventProg EventRow} {σ : EventSession}
      {events : Table EventRow} (hj : s.requests[j]? = some (.running call (.commit p) σ))
      (hc : σ.commit s.events = .ok events) :
      StepKind settings s (.advance j uuid)
        { s.put j (.running call p .empty) with
          events
          owing := s.owing ++ (p.owes.map (j, ·)).toList }
  | publish {j : ℕ} {uuid : UUID} {call : EventCall} {m : EventMessage} {p : EventProg EventRow}
      {σ : EventSession} (hj : s.requests[j]? = some (.running call (.publish m p) σ)) :
      StepKind settings s (.advance j uuid)
        { s.put j (.running call p σ) with
          owing := s.owing.filter (·.1 ≠ j)
          published := s.published ++ [m] }
  | deliver {e : UUID} {m : EventMessage} (hh : s.handling e = none)
      (hm : (s.log e)[s.consumed e]? = some m) :
      StepKind settings s (.deliver e)
        { s with
          inventory := s.inventory.begun (Inventory.Call.body settings) m.call
          handling := Function.update s.handling e (some s.inventory.txs.length) }
  | refuse {e : UUID} {m : EventMessage} (hh : s.handling e = none)
      (hm : (s.log e)[s.consumed e]? = some m) :
      StepKind settings s (.refuse e)
        { s with consumed := Function.update s.consumed e (s.consumed e + 1) }
  | settle {e : UUID} {t : ℕ} {call : Inventory.Call}
      {o : Outcome Inventory.InventoryError Inventory.Result} (hh : s.handling e = some t)
      (ht : s.inventory.txs[t]? = some (.done call o)) :
      StepKind settings s (.settle e)
        { s with
          consumed := Function.update s.consumed e (s.consumed e + 1)
          handling := Function.update s.handling e none }
  | inventory {a : Action Inventory.Call UUID} {w : InventoryWorld} (ha : s.outside a = true)
      (hw : Inventory.step settings s.inventory a = some w) :
      StepKind settings s (.inventory a) { s with inventory := w }

section
variable {settings : Settings} {s s' : Catalogue} {a : CatalogueAction}

/-- Every step is of one of the kinds. -/
theorem step_kind (h : s.step settings a = some s') : StepKind settings s a s' := by
  cases a with
  | begin call => cases h; exact .begin call
  | advance j uuid =>
    simp only [step] at h
    split at h
    · next call p σ hj =>
      split at h
      · cases h
      · next hb =>
        cases h
        unfold advance
        cases p with
        | ret a => exact .ended hj rfl
        | raise e => exact .ended hj rfl
        | getEvent eventId k | uuid4 k | setattrs event data k => exact .continue hj hb rfl
        | addEvent event k =>
          simp only [EventProg.next]
          cases he : event.insertError s.events with
          | some e => exact .ended hj rfl
          | none => exact .continue hj hb (by simp only [EventProg.next, he])
        | commit k =>
          simp only [EventProg.next]
          cases hc : σ.commit s.events with
          | error e => exact .ended hj rfl
          | ok events => exact .commit hj hc
        | publish m k => exact .publish hj
    · cases h
  | deliver e =>
    simp only [step] at h
    split at h
    · next hh hm => cases h; exact .deliver hh hm
    · cases h
  | refuse e =>
    simp only [step] at h
    split at h
    · next hh hm => cases h; exact .refuse hh hm
    · cases h
  | settle e =>
    simp only [step] at h
    split at h
    · next t hh =>
      split at h
      · next ht => cases h; exact .settle hh ht
      · cases h
    · cases h
  | inventory a =>
    simp only [step] at h
    split at h
    · next ha =>
      obtain ⟨w, hw, rfl⟩ := Option.map_eq_some_iff.1 h
      exact .inventory ha hw
    · cases h

end

/-! ## The conditions -/

/-- The message that a step publishes, with the request that does. -/
def publishing (s : Catalogue) : CatalogueAction → Option (ℕ × EventMessage)
  | .advance j _ => ((s.requests[j]?).bind EventRequest.owes).map (j, ·)
  | _ => none

/-- Messages of the event are published in the order of the commits: a request publishes one only
when none of an earlier commit is still to be published. -/
def InOrder (e : UUID) (s : Catalogue) (a : CatalogueAction) : Prop :=
  ∀ x ∈ s.publishing a, x.2.eventId = e → (s.owed e).head? = some x

instance (e : UUID) (s : Catalogue) (a : CatalogueAction) : Decidable (InOrder e s a) :=
  inferInstanceAs (Decidable (∀ x ∈ _, _ → _))

/-- No handler of the event fails: it gets the event's lock, and where it flushes, the row has the
version it has read. -/
def Accepted (e : UUID) (s : Catalogue) : CatalogueAction → Prop
  | .refuse e' => e' ≠ e
  | .inventory a => FlushMatches e s.inventory a
  | _ => True

instance (e : UUID) (s : Catalogue) : ∀ a, Decidable (Accepted e s a)
  | .refuse _ => inferInstanceAs (Decidable (_ ≠ _))
  | .inventory a => inferInstanceAs (Decidable (FlushMatches e s.inventory a))
  | .begin _ | .advance _ _ | .deliver _ | .settle _ => inferInstanceAs (Decidable True)

/-- The consumer is done with every published message of the event. -/
def Consumed (e : UUID) (s : Catalogue) : Prop :=
  s.consumed e = (s.log e).length ∧ s.handling e = none

instance (e : UUID) (s : Catalogue) : Decidable (s.Consumed e) :=
  inferInstanceAs (Decidable (_ ∧ _))

end Catalogue

/-! ## The messages of an event -/

/-- The seats that the last of a list of messages carries. -/
def lastSeats (ms : List EventMessage) : Option ℤ := ms.getLast?.map EventMessage.totalSeats

/-- A history of the event: it is created and then updated. -/
structure Chronicle (e : UUID) (ms : List EventMessage) : Prop where
  head : ∀ m ∈ ms.head?, ∃ n, m = .eventCreated e n
  tail : ∀ m ∈ ms.tail, ∃ n, m = .eventUpdated e n

section
variable {e : UUID} {ms ms' : List EventMessage} {m : EventMessage}

@[simp] theorem lastSeats_concat : lastSeats (ms ++ [m]) = some m.totalSeats := by
  simp [lastSeats]

theorem lastSeats_eq_none : lastSeats ms = none ↔ ms = [] := by
  simp [lastSeats]

/-- The first part of a history. -/
theorem Chronicle.of_append (h : Chronicle e (ms ++ ms')) : Chronicle e ms := by
  cases ms with
  | nil => exact ⟨nofun, nofun⟩
  | cons m ms => exact ⟨h.head, fun m' hm => h.tail m' (List.mem_append_left _ hm)⟩

/-- A history goes on with an update. -/
theorem Chronicle.updated (h : Chronicle e ms) (hne : ms ≠ []) (n : ℤ) :
    Chronicle e (ms ++ [.eventUpdated e n]) := by
  cases ms with
  | nil => exact absurd rfl hne
  | cons m ms =>
    refine ⟨h.head, fun m' hm => ?_⟩
    rcases List.mem_append.1 hm with hm | hm
    · exact h.tail m' hm
    · exact ⟨n, List.mem_singleton.1 hm⟩

/-- The call of a message finds what the messages before it have left. -/
theorem Chronicle.finds (h : Chronicle e ms) {i : ℕ} (hm : ms[i]? = some m) :
    m.call.Finds (lastSeats (ms.take i)) := by
  cases ms with
  | nil => cases hm
  | cons m₀ ms =>
    cases i with
    | zero =>
      cases hm
      obtain ⟨n, rfl⟩ := h.head _ rfl
      rfl
    | succ i =>
      obtain ⟨n, rfl⟩ := h.tail m (List.mem_of_getElem? hm)
      exact fun hnone => nomatch lastSeats_eq_none.1 hnone

/-- The messages up to one of them. -/
theorem lastSeats_take {i : ℕ} (hm : ms[i]? = some m) :
    lastSeats (ms.take (i + 1)) = some m.totalSeats := by
  rw [List.take_add_one, hm]
  exact lastSeats_concat

end

/-! ## Requests commit and publish -/

/-- The events inserted and not yet committed: their keys are free, and no two have the same. -/
structure Inserts (events : Table EventRow) (requests : List EventRequest) : Prop where
  free : ∀ {j : ℕ} {r : EventRequest} {event : EventRow}, requests[j]? = some r →
    r.insert = some event → events.get event.id = none
  distinct : ∀ {j j' : ℕ} {r r' : EventRequest} {event event' : EventRow}, j ≠ j' →
    requests[j]? = some r → requests[j']? = some r' → r.insert = some event →
    r'.insert = some event' → event.id ≠ event'.id

/-- The list of what is still to be published is that of the requests. -/
structure Owing (requests : List EventRequest) (owing : List (ℕ × EventMessage)) : Prop where
  mem : ∀ {j : ℕ} {m : EventMessage},
    (j, m) ∈ owing ↔ ∃ r, requests[j]? = some r ∧ r.owes = some m
  nodup : (owing.map Prod.fst).Nodup

section
variable {events events' : Table EventRow} {requests : List EventRequest}
  {owing : List (ℕ × EventMessage)} {j : ℕ} {r r' : EventRequest}

/-- One request moves: what it has inserted, if anything, is free and nobody else's, and the keys of
the others stay free. -/
theorem Inserts.move (h : Inserts events requests)
    (hnew : ∀ {event}, r'.insert = some event → events'.get event.id = none ∧
      ∀ {j' r₁ event₁}, j' ≠ j → requests[j']? = some r₁ → r₁.insert = some event₁ →
        event₁.id ≠ event.id)
    (hkeep : ∀ {j' r₁ event₁}, j' ≠ j → requests[j']? = some r₁ → r₁.insert = some event₁ →
      events'.get event₁.id = none) : Inserts events' (requests.set j r') where
  free {j₁ r₁ event₁} hj₁ hi := by
    rcases getElem?_set_inv hj₁ with ⟨-, rfl⟩ | ⟨hne, hj₁⟩
    · exact (hnew hi).1
    · exact hkeep hne hj₁ hi
  distinct {j₁ j₂ r₁ r₂ event₁ event₂} hne hj₁ hj₂ hi₁ hi₂ := by
    rcases getElem?_set_inv hj₁ with ⟨h1, rfl⟩ | ⟨h1, hold₁⟩ <;>
      rcases getElem?_set_inv hj₂ with ⟨h2, rfl⟩ | ⟨h2, hold₂⟩
    · exact absurd (h1.trans h2.symm) hne
    · exact ((hnew hi₁).2 h2 hold₂ hi₂).symm
    · exact (hnew hi₂).2 h1 hold₁ hi₁
    · exact h.distinct hne hold₁ hold₂ hi₁ hi₂

/-- A new request has inserted nothing. -/
theorem Inserts.begin (h : Inserts events requests) (hr : r.insert = none) :
    Inserts events (requests ++ [r]) where
  free hj hi := by
    rcases getElem?_append_singleton hj with hj | ⟨-, rfl⟩
    · exact h.free hj hi
    · cases hr.symm.trans hi
  distinct hne hj hj' hi hi' := by
    rcases getElem?_append_singleton hj with hj | ⟨-, rfl⟩
    · rcases getElem?_append_singleton hj' with hj' | ⟨-, rfl⟩
      · exact h.distinct hne hj hj' hi hi'
      · cases hr.symm.trans hi'
    · cases hr.symm.trans hi

/-- A new request owes nothing. -/
theorem Owing.begin (h : Owing requests owing) (hr : r.owes = none) :
    Owing (requests ++ [r]) owing where
  mem {j m} := by
    rw [h.mem]
    constructor
    · rintro ⟨r₁, hr₁, hm⟩
      exact ⟨r₁, (List.getElem?_append_left (List.getElem?_eq_some_iff.1 hr₁).1).trans hr₁, hm⟩
    · rintro ⟨r₁, hr₁, hm⟩
      rcases getElem?_append_singleton hr₁ with hr₁ | ⟨-, rfl⟩
      · exact ⟨r₁, hr₁, hm⟩
      · cases hr.symm.trans hm
  nodup := h.nodup

/-- A request that owed nothing moves, and what it owes now is the last. -/
theorem Owing.grow (h : Owing requests owing) (hj : requests[j]? = some r) (hr : r.owes = none) :
    Owing (requests.set j r') (owing ++ (r'.owes.map (j, ·)).toList) where
  mem {j₁ m} := by
    rw [List.mem_append, h.mem, getElem?_set_of_getElem? hj]
    split
    · next he =>
      subst he
      constructor
      · rintro (⟨r₁, hr₁, hm⟩ | hm)
        · cases hj.symm.trans hr₁
          rw [hr] at hm
          cases hm
        · obtain ⟨m', hm', he⟩ := Option.map_eq_some_iff.1 (Option.mem_toList.1 hm)
          cases he
          exact ⟨r', rfl, hm'⟩
      · rintro ⟨r₁, hr₁, hm⟩
        cases hr₁
        exact .inr (by simp [hm])
    · next hne =>
      refine or_iff_left fun hm => ?_
      obtain ⟨m', -, he⟩ := Option.map_eq_some_iff.1 (Option.mem_toList.1 hm)
      exact hne (congrArg Prod.fst he).symm
  nodup := by
    cases hm : r'.owes with
    | none => simpa using h.nodup
    | some m =>
      simp only [Option.map_some, Option.toList_some, List.map_append, List.map_cons, List.map_nil]
      refine h.nodup.append (List.nodup_singleton j) ?_
      rw [List.disjoint_singleton]
      intro hmem
      obtain ⟨⟨j₁, m₁⟩, howes, rfl⟩ := List.mem_map.1 hmem
      obtain ⟨r₁, hr₁, hm₁⟩ := h.mem.1 howes
      cases hj.symm.trans hr₁
      rw [hr] at hm₁
      cases hm₁

/-- A request that owed nothing moves, and owes nothing. -/
theorem Owing.move (h : Owing requests owing) (hj : requests[j]? = some r) (hr : r.owes = none)
    (hr' : r'.owes = none) : Owing (requests.set j r') owing := by
  have hgrow : Owing (requests.set j r') (owing ++ (r'.owes.map (j, ·)).toList) := h.grow hj hr
  rwa [hr', Option.map_none, Option.toList_none, List.append_nil] at hgrow

/-- A request has published what it owed. -/
theorem Owing.published (h : Owing requests owing) (hj : requests[j]? = some r)
    (hr' : r'.owes = none) : Owing (requests.set j r') (owing.filter (·.1 ≠ j)) where
  mem {j₁ m} := by
    rw [List.mem_filter, h.mem, getElem?_set_of_getElem? hj]
    split
    · next he =>
      subst he
      constructor
      · rintro ⟨-, hne⟩
        exact absurd rfl (of_decide_eq_true hne)
      · rintro ⟨r₁, hr₁, hm⟩
        cases hr₁
        rw [hr'] at hm
        cases hm
    · next hne => exact and_iff_left (by simpa using hne)
  nodup := h.nodup.sublist ((List.filter_sublist).map _)

end

/-- No request begins with a message. -/
theorem EventCall.body_owes (call : EventCall) : call.body.owes = none := by
  cases call <;> rfl

section
variable {events : Table EventRow} {uuid : UUID} {p p' : EventProg EventRow} {σ σ' : EventSession}

/-- A program that has not committed publishes nothing next. -/
theorem EventProg.Announces.owes (h : p.Announces σ) : p.owes = none := by
  cases p with
  | publish m k => exact h.elim
  | ret | raise | getEvent | uuid4 | addEvent | setattrs | commit => rfl

/-- What is left of a program after an operation. -/
theorem EventProg.Announces.next (h : p.Announces σ)
    (hn : p.next events uuid σ = .continue p' σ') : p'.Announces σ' := by
  cases p with
  | ret | raise | publish => cases hn
  | getEvent eventId k | uuid4 k => cases hn; exact h _
  | setattrs event data k => cases hn; exact h
  | addEvent event k =>
    simp only [EventProg.next] at hn
    split at hn
    · cases hn
    · cases hn; exact h
  | commit k => simp only [EventProg.next] at hn; split at hn <;> cases hn

/-- An operation inserts an event, whose key is free, or leaves what has been inserted. -/
theorem EventProg.next_insert (hn : p.next events uuid σ = .continue p' σ') :
    σ'.insert = σ.insert ∨ ∃ event k, p = .addEvent event k ∧ σ'.insert = some event ∧
      events.get event.id = none := by
  cases p with
  | ret | raise | publish => cases hn
  | getEvent eventId k | uuid4 k | setattrs event data k => cases hn; exact .inl rfl
  | addEvent event k =>
    simp only [EventProg.next] at hn
    split at hn
    · cases hn
    · next he => cases hn; exact .inr ⟨event, _, rfl, rfl, EventRow.free_of_insertError he⟩
  | commit k => simp only [EventProg.next] at hn; split at hn <;> cases hn

end

namespace Catalogue

/-- All messages of an event, published or still to be, in the order of the commits. -/
def history (s : Catalogue) (e : UUID) : List EventMessage :=
  s.log e ++ (s.owed e).map Prod.snd

/-- The invariant of the requests: every program publishes what it commits, and the last message of
the event carries its committed seats. -/
structure Announcing (e : UUID) (s : Catalogue) : Prop where
  programs : ∀ {j : ℕ} {call : EventCall} {p : EventProg EventRow} {σ : EventSession},
    s.requests[j]? = some (.running call p σ) → p.Announces σ ∨ ∃ m a, p = .publish m (.ret a)
  inserts : Inserts s.events s.requests
  owing : Owing s.requests s.owing
  chronicle : Chronicle e (s.history e)
  seats : seats s.events e = lastSeats (s.history e)

theorem announcing_init (e : UUID) : init.Announcing e where
  programs := nofun
  inserts := ⟨nofun, nofun⟩
  owing := ⟨⟨nofun, fun ⟨_, h, _⟩ => nomatch h⟩, .nil⟩
  chronicle := ⟨nofun, nofun⟩
  seats := rfl

section
variable {settings : Settings} {s s' : Catalogue} {a : CatalogueAction} {e : UUID}

/-- The programs after one request has moved. -/
theorem Announcing.programs_move (h : s.Announcing e) {j : ℕ} {r' : EventRequest}
    (hr' : ∀ {call p σ}, r' = .running call p σ → p.Announces σ ∨ ∃ m a, p = .publish m (.ret a))
    {j₁ : ℕ} {call : EventCall} {p : EventProg EventRow} {σ : EventSession}
    (hj₁ : (s.requests.set j r')[j₁]? = some (.running call p σ)) :
    p.Announces σ ∨ ∃ m a, p = .publish m (.ret a) := by
  rcases getElem?_set_inv hj₁ with ⟨-, hrun⟩ | ⟨-, hj₁⟩
  · exact hr' hrun.symm
  · exact h.programs hj₁

/-- A request that has nothing inserted any more moves. -/
theorem Announcing.inserts_drop (h : s.Announcing e) {j : ℕ} {r' : EventRequest}
    (hr' : r'.insert = none) : Inserts s.events (s.requests.set j r') :=
  h.inserts.move (fun hi => by rw [hr'] at hi; cases hi) fun _ hj₁ hi => h.inserts.free hj₁ hi

/-- **In order, the oldest message of the event that is still to be published is the one that
is.** -/
theorem Announcing.owed_publish (h : s.Announcing e) {j : ℕ} {uuid : UUID} {call : EventCall}
    {m : EventMessage} {p : EventProg EventRow} {σ : EventSession}
    (hj : s.requests[j]? = some (.running call (.publish m p) σ))
    (hO : InOrder e s (.advance j uuid)) :
    s.log e ++ (s.owed e).map Prod.snd = (s.published ++ [m]).filter (·.eventId = e) ++
      ((s.owing.filter (·.1 ≠ j)).filter (·.2.eventId = e)).map Prod.snd := by
  -- what another request owes stays
  have hcomm : (s.owing.filter (·.1 ≠ j)).filter (·.2.eventId = e) =
      (s.owed e).filter (·.1 ≠ j) := by
    rw [owed, List.filter_filter, List.filter_filter]
    simp only [Bool.and_comm]
  have hnodup : ((s.owed e).map Prod.fst).Nodup :=
    h.owing.nodup.sublist (List.filter_sublist.map _)
  rw [hcomm, log, List.filter_append]
  by_cases he : m.eventId = e
  · have hhead : (s.owed e).head? = some (j, m) := hO (j, m) (by simp [publishing, hj,
      EventRequest.owes, EventProg.owes]) he
    obtain ⟨rest, hrest⟩ : ∃ rest, s.owed e = (j, m) :: rest := by
      cases ho : s.owed e with
      | nil => rw [ho] at hhead; cases hhead
      | cons x rest => rw [ho] at hhead; cases hhead; exact ⟨rest, rfl⟩
    have hkeep : rest.filter (·.1 ≠ j) = rest := by
      rw [hrest, List.map_cons, List.nodup_cons] at hnodup
      refine List.filter_eq_self.2 fun x hx => decide_eq_true fun hxj => ?_
      exact hnodup.1 (List.mem_map.2 ⟨x, hx, hxj⟩)
    have hdrop : (s.owed e).filter (·.1 ≠ j) = rest := by
      rw [hrest, List.filter_cons_of_neg (by simp), hkeep]
    rw [hdrop, hrest]
    simp [he]
  · have hkeep : (s.owed e).filter (·.1 ≠ j) = s.owed e := by
      refine List.filter_eq_self.2 fun x hx => decide_eq_true fun hxj => ?_
      obtain ⟨hx, hxe⟩ := List.mem_filter.1 hx
      obtain ⟨r, hr, hm⟩ := h.owing.mem.1 (show (j, x.2) ∈ s.owing by rw [← hxj]; exact hx)
      cases hj.symm.trans hr
      cases hm
      exact he (of_decide_eq_true hxe)
    rw [hkeep]
    simp [he]

/-- A commit appends what it changes to the history of the event. -/
theorem Announcing.history_commit (h : s.Announcing e) {j : ℕ} {call : EventCall}
    {p : EventProg EventRow} {σ : EventSession} {events : Table EventRow}
    (hj : s.requests[j]? = some (.running call (.commit p) σ)) (hp : p.owes = σ.announcement)
    (hσ : σ.insert = none ∨ σ.changes = none) (hc : σ.commit s.events = .ok events) :
    let ms := s.log e ++ ((s.owing ++ (p.owes.map (j, ·)).toList).filter
      (·.2.eventId = e)).map Prod.snd
    Chronicle e ms ∧ Api.seats events e = lastSeats ms := by
  rw [hp, List.filter_append, List.map_append, ← List.append_assoc]
  change let ms := s.history e ++ _
    Chronicle e ms ∧ _ = lastSeats ms
  cases EventSession.commit_changes hσ hc e with
  | created hi he ha hs =>
    -- the event is new, so nothing has been said about it
    have hnil : s.history e = [] := by
      rw [← lastSeats_eq_none, ← h.seats, Api.seats, ← he, h.inserts.free hj hi]
      rfl
    simp only [ha, hnil]
    refine ⟨⟨?_, ?_⟩, ?_⟩ <;> simp [EventMessage.eventId, hs, lastSeats, EventMessage.totalSeats]
  | @updated n ha hold hs =>
    have hne : s.history e ≠ [] := fun hnil => hold (by rw [h.seats, hnil]; rfl)
    simp only [ha]
    have happ : (((some (EventMessage.eventUpdated e n)).map (j, ·)).toList.filter
        (·.2.eventId = e)).map Prod.snd = [.eventUpdated e n] := by simp [EventMessage.eventId]
    rw [happ, lastSeats_concat]
    exact ⟨h.chronicle.updated hne n, hs⟩
  | other ha hs =>
    have hnone : ((σ.announcement.map (j, ·)).toList.filter (·.2.eventId = e)).map Prod.snd =
        ([] : List EventMessage) := by
      cases hm : σ.announcement with
      | none => rfl
      | some m => simp [ha m hm]
    simp only [hnone, List.append_nil]
    exact ⟨h.chronicle, hs.trans h.seats⟩

/-- **Every step in which messages of the event are published in order keeps the invariant.** -/
theorem Announcing.step (h : s.Announcing e) (hO : InOrder e s a)
    (hs : s.step settings a = some s') : s'.Announcing e := by
  cases step_kind hs with
  | begin call =>
    refine ⟨fun {j call' p σ} hj => ?_, h.inserts.begin rfl, h.owing.begin call.body_owes,
      h.chronicle, h.seats⟩
    rcases getElem?_append_singleton hj with hj | ⟨-, he⟩
    · exact h.programs hj
    · cases he; exact .inl call.body_announces
  | @ended j uuid call p σ o hj hp =>
    refine ⟨h.programs_move fun he => ?_, h.inserts_drop rfl, h.owing.move hj hp rfl,
      h.chronicle, h.seats⟩
    cases he
  | @«continue» j uuid call p p' σ σ' hj hb hn =>
    have hann : p.Announces σ := by
      refine (h.programs hj).resolve_right ?_
      rintro ⟨m, a, rfl⟩
      cases hn
    have hann' := hann.next hn
    refine ⟨h.programs_move fun he => ?_, ?_, h.owing.move hj hann.owes hann'.owes,
      h.chronicle, h.seats⟩
    · cases he; exact .inl hann'
    · refine h.inserts.move (fun {event} hi => ?_) fun _ hj₁ hi => h.inserts.free hj₁ hi
      rcases EventProg.next_insert hn with hsame | ⟨event', k, rfl, hins, hfree⟩
      · have hi' : (EventRequest.running call p σ).insert = some event := hsame.symm.trans hi
        exact ⟨h.inserts.free hj hi', fun hne hj₁ hi₁ => h.inserts.distinct hne hj₁ hj hi₁ hi'⟩
      · cases hins.symm.trans hi
        refine ⟨hfree, fun {j' r₁ event₁} hne hj₁ hi₁ hid => hb ?_⟩
        exact ⟨j', (List.getElem?_eq_some_iff.1 hj₁).1, hne, event₁, by simp [hj₁, hi₁], hid⟩
  | @commit j uuid call p σ events hj hc =>
    obtain ⟨hσ, hp⟩ : EventProg.Announces (.commit p) σ :=
      (h.programs hj).resolve_right fun ⟨m, a, he⟩ => nomatch he
    have hp' : p.owes = σ.announcement := by
      rcases hp with ⟨ha, a, rfl⟩ | ⟨m, a, ha, rfl⟩
      · exact ha.symm
      · exact ha.symm
    obtain ⟨hchron, hseats⟩ := h.history_commit hj hp' hσ hc
    refine ⟨h.programs_move fun he => ?_, ?_, h.owing.grow hj rfl, hchron, hseats⟩
    · cases he
      rcases hp with ⟨-, a, rfl⟩ | ⟨m, a, -, rfl⟩
      · exact .inl trivial
      · exact .inr ⟨m, a, rfl⟩
    · refine h.inserts.move (fun hi => by cases hi) fun {j' r₁ event₁} hne hj₁ hi₁ => ?_
      exact EventSession.commit_free hc (fun event hi => h.inserts.distinct hne.symm hj hj₁ hi hi₁)
        (h.inserts.free hj₁ hi₁)
  | @publish j uuid call m p σ hj =>
    obtain ⟨m', a, he⟩ := (h.programs hj).resolve_left id
    cases he
    have hhist := h.owed_publish hj hO
    refine ⟨h.programs_move fun he => ?_, ?_, h.owing.published hj rfl, ?_, ?_⟩
    · cases he; exact .inl trivial
    · exact h.inserts.move (fun hi => ⟨h.inserts.free hj hi, fun hne hj₁ hi₁ =>
        h.inserts.distinct hne hj₁ hj hi₁ hi⟩) fun _ hj₁ hi => h.inserts.free hj₁ hi
    · have hchron := h.chronicle
      rw [history, hhist] at hchron
      exact hchron
    · have hseats := h.seats
      rw [history, hhist] at hseats
      exact hseats
  | deliver | refuse | settle | inventory =>
    exact ⟨h.programs, h.inserts, h.owing, h.chronicle, h.seats⟩

end

end Catalogue

/-! ## The consumer follows -/

section
variable {e : UUID} {m : EventMessage}

/-- What a message of an event sets. -/
theorem EventMessage.call_sets (m : EventMessage) :
    m.call.sets = some (m.eventId, m.totalSeats) := by
  cases m <;> rfl

/-- A message is handled for its own event. -/
theorem EventMessage.setsFor_call : m.call.setsFor e ↔ m.eventId = e := by
  simp [Inventory.Call.setsFor, m.call_sets]

end

namespace Catalogue

/-- The invariant of the consumer: the capacity of the event is what the messages it is done with
have left, and only its current transaction, which gets through, sets it. -/
structure Following (settings : Settings) (e : UUID) (s : Catalogue) : Prop where
  capacities : Capacities settings e s.inventory
  sole : ∀ {t call p k}, s.inventory.txs[t]? = some (.running call p k) → call.setsFor e →
    s.handling e = some t
  le : s.consumed e ≤ (s.log e).length
  idle : s.handling e = none →
    capacity s.inventory.db e = lastSeats ((s.log e).take (s.consumed e))
  busy : ∀ {t}, s.handling e = some t → ∃ m, (s.log e)[s.consumed e]? = some m ∧
    m.call.Finds (lastSeats ((s.log e).take (s.consumed e))) ∧
    Sets settings e t m.call (lastSeats ((s.log e).take (s.consumed e))) m.totalSeats s.inventory

theorem following_init (settings : Settings) (e : UUID) : init.Following settings e where
  capacities := Inventory.capacities_init settings e
  sole := nofun
  le := Nat.zero_le _
  idle _ := rfl
  busy := nofun

section
variable {settings : Settings} {s s' : Catalogue} {a : CatalogueAction} {e : UUID}

/-- A message of the log of an event is about the event. -/
theorem eventId_of_log {i : ℕ} {m : EventMessage} (h : (s.log e)[i]? = some m) : m.eventId = e :=
  of_decide_eq_true (List.mem_filter.1 (List.mem_of_getElem? h)).2

/-- More messages, and what happens to other events, change nothing for the event. -/
theorem Following.frame (h : s.Following settings e) {ms : List EventMessage}
    (hlog : s'.log e = s.log e ++ ms) (hi : s'.inventory = s.inventory)
    (hc : s'.consumed e = s.consumed e) (hh : s'.handling e = s.handling e) :
    s'.Following settings e := by
  have htake : (s'.log e).take (s.consumed e) = (s.log e).take (s.consumed e) := by
    rw [hlog, List.take_append_of_le_length h.le]
  refine ⟨hi ▸ h.capacities, fun ht hset => ?_, ?_, fun hnone => ?_, fun {t} ht => ?_⟩
  · rw [hi] at ht
    rw [hh]
    exact h.sole ht hset
  · rw [hlog, hc, List.length_append]
    exact h.le.trans (Nat.le_add_right _ _)
  · rw [hi, hc, htake]
    exact h.idle (hh ▸ hnone)
  · rw [hi, hc, htake]
    obtain ⟨m, hm, hfinds, hsets⟩ := h.busy (hh ▸ ht)
    refine ⟨m, ?_, hfinds, hsets⟩
    rw [hlog, List.getElem?_append_left (List.getElem?_eq_some_iff.1 hm).1]
    exact hm

/-- A step of the inventory in which no transaction that sets the capacity of the event arrives, and
none that the consumer waits for is ended from outside. -/
theorem Following.world (h : s.Following settings e) {a : Action Inventory.Call UUID}
    {w : InventoryWorld} (hnew : ∀ call ∈ a.arriving, ¬ call.setsFor e)
    (habort : ∀ t, s.handling e = some t → a ≠ .abort t) (hm : FlushMatches e s.inventory a)
    (hw : Inventory.step settings s.inventory a = some w) (hi : s'.inventory = w)
    (hp : s'.published = s.published) (hc : s'.consumed e = s.consumed e)
    (hh : s'.handling e = s.handling e) : s'.Following settings e := by
  have hlog : s'.log e = s.log e := congrArg (List.filter _) hp
  subst hi
  refine ⟨h.capacities.step hw, fun {t call p k} ht hset => ?_, hlog ▸ hc ▸ h.le, fun hnone => ?_,
    fun {t} ht => ?_⟩
  · rw [hh]
    rcases World.running_or_arriving hw ht with ⟨p₀, k₀, ht₀⟩ | ⟨harr, -⟩
    · exact h.sole ht₀ hset
    · exact absurd hset (hnew call harr)
  · rw [hlog, hc, ← h.idle (hh ▸ hnone)]
    refine (h.capacities.capacity_step hw).resolve_right ?_
    rintro ⟨t, inp, call, p, k, -, ht, hset⟩
    rw [hh, h.sole ht hset] at hnone
    cases hnone
  · rw [hh] at ht
    rw [hlog, hc]
    obtain ⟨m, hmsg, hfinds, hsets⟩ := h.busy ht
    refine ⟨m, hmsg, hfinds, hsets.step h.capacities ?_ hfinds (fun ht' hset => ?_) hm
      (habort t ht) hw⟩
    · rw [m.call_sets, eventId_of_log hmsg]
    · exact Option.some.inj ((h.sole ht' hset).symm.trans ht)

/-- The consumer takes a message of the event. -/
theorem Following.deliver (h : s.Following settings e) (hann : s.Announcing e) {m : EventMessage}
    (hh : s.handling e = none) (hm : (s.log e)[s.consumed e]? = some m) :
    Following settings e { s with
      inventory := s.inventory.begun (Inventory.Call.body settings) m.call
      handling := Function.update s.handling e (some s.inventory.txs.length) } := by
  have hbegin : Inventory.step settings s.inventory (.begin m.call) =
      some (s.inventory.begun (Inventory.Call.body settings) m.call) := rfl
  refine ⟨h.capacities.step hbegin, fun {t call p k} ht hset => ?_, h.le, fun hnone => ?_,
    fun {t} ht => ?_⟩
  · rcases World.running_or_arriving hbegin ht with ⟨p₀, k₀, ht₀⟩ | ⟨-, rfl⟩
    · exact nomatch hh.symm.trans (h.sole ht₀ hset)
    · exact Function.update_self ..
  · exact nomatch (Function.update_self e _ s.handling).symm.trans hnone
  · cases (Function.update_self e _ s.handling).symm.trans ht
    refine ⟨m, hm, hann.chronicle.of_append.finds hm, ?_⟩
    refine .running (List.getElem?_concat_length ..) Inventory.setting_begin ?_
    exact h.idle hh

/-- The consumer is done with a message of the event: its transaction has returned. -/
theorem Following.settle (h : s.Following settings e) {t : ℕ} {call : Inventory.Call}
    {o : Outcome Inventory.InventoryError Inventory.Result} (hh : s.handling e = some t)
    (ht : s.inventory.txs[t]? = some (.done call o)) :
    Following settings e { s with
      consumed := Function.update s.consumed e (s.consumed e + 1)
      handling := Function.update s.handling e none } := by
  obtain ⟨m, hm, -, hsets⟩ := h.busy hh
  have hc : Function.update s.consumed e (s.consumed e + 1) e = s.consumed e + 1 :=
    Function.update_self ..
  have hcap : capacity s.inventory.db e = some m.totalSeats := by
    cases hsets with
    | running ht' => cases ht.symm.trans ht'
    | returned _ hcap => exact hcap
  refine ⟨h.capacities, fun {t' call' p k} ht' hset => ?_, ?_, fun _ => ?_, fun {t'} hbusy => ?_⟩
  · -- the transaction that set the capacity has ended
    cases hh.symm.trans (h.sole ht' hset)
    cases ht.symm.trans ht'
  · change Function.update s.consumed e (s.consumed e + 1) e ≤ (s.log e).length
    rw [hc]
    exact (List.getElem?_eq_some_iff.1 hm).1
  · change _ = lastSeats ((s.log e).take (Function.update s.consumed e (s.consumed e + 1) e))
    rw [hc, lastSeats_take hm]
    exact hcap
  · exact nomatch (Function.update_self e _ s.handling).symm.trans hbusy

/-- **Every step in which no handler of the event fails keeps the invariant.** -/
theorem Following.step (h : s.Following settings e) (hann : s.Announcing e) (hA : Accepted e s a)
    (hs : s.step settings a = some s') : s'.Following settings e := by
  cases step_kind hs with
  | begin | ended | «continue» | commit => exact ⟨h.capacities, h.sole, h.le, h.idle, h.busy⟩
  | publish => exact h.frame (List.filter_append ..) rfl rfl rfl
  | @deliver e' m hh hm =>
    by_cases he : e' = e
    · subst he
      exact h.deliver hann hh hm
    · have hbegin : Inventory.step settings s.inventory (.begin m.call) =
          some (s.inventory.begun (Inventory.Call.body settings) m.call) := rfl
      refine h.world (fun call hc hset => ?_) (fun _ _ hab => by cases hab)
        (fun _ hk => by cases hk)
        hbegin rfl rfl rfl (Function.update_of_ne (Ne.symm he) _ _)
      cases hc
      exact he ((eventId_of_log hm).symm.trans (EventMessage.setsFor_call.1 hset))
  | refuse hh hm =>
    exact h.frame (List.append_nil _).symm rfl (Function.update_of_ne (Ne.symm hA) _ _) rfl
  | @settle e' t call o hh ht =>
    by_cases he : e' = e
    · subst he
      exact h.settle hh ht
    · exact h.frame (List.append_nil _).symm rfl (Function.update_of_ne (Ne.symm he) _ _)
        (Function.update_of_ne (Ne.symm he) _ _)
  | @inventory a w ha hw =>
    refine h.world (fun call hc hset => ?_) (fun t ht he => ?_) hA hw rfl rfl rfl rfl
    · cases a with
      | begin call' =>
        cases hc
        have hnone : call.sets = none := of_decide_eq_true ha
        rw [Inventory.Call.setsFor, hnone] at hset
        cases hset
      | advance | abort => cases hc
    · subst he
      obtain ⟨m, hm, -, hsets⟩ := h.busy ht
      have hcall : ∃ x, s.inventory.txs[t]? = some x ∧ x.call = m.call := by
        cases hsets with
        | running ht' => exact ⟨_, ht', rfl⟩
        | returned ht' => exact ⟨_, ht', rfl⟩
      obtain ⟨x, hx, hxc⟩ := hcall
      simp [outside, hx, hxc, m.call_sets] at ha

/-- **Capacity synchronisation.** For every event and every run of `create` and `update` requests,
the consumer and the calls of the inventory, in which the event's messages are published in the
order of their commits and no handler of one of them fails: once no request has a message of the
event left to publish and the consumer is done with all that have been, the capacity of the event is
its committed number of seats. -/
theorem capacity_synced (settings : Settings) (e : UUID) (as : List CatalogueAction) (s : Catalogue)
    (hr : run (step settings) .init as = some s)
    (hO : Along (step settings) (InOrder e) .init as)
    (hA : Along (step settings) (Accepted e) .init as)
    (hq : ∀ r ∈ s.requests, ∀ m ∈ r.owes, m.eventId ≠ e) (hc : s.Consumed e) :
    capacity s.inventory.db e = seats s.events e := by
  obtain ⟨hann, hfol⟩ := run_inv_along
    (I := fun s => s.Announcing e ∧ s.Following settings e)
    (fun h hC hs => ⟨h.1.step hC.1 hs, h.2.step h.1 hC.2 hs⟩) (hO.and hA) hr
    ⟨announcing_init e, following_init settings e⟩
  have howed : s.owed e = [] := by
    refine List.filter_eq_nil_iff.2 fun ⟨j, m⟩ hx => ?_
    obtain ⟨r, hj, hm⟩ := hann.owing.mem.1 hx
    simpa using hq r (List.mem_of_getElem? hj) m hm
  calc capacity s.inventory.db e
    _ = lastSeats ((s.log e).take (s.consumed e)) := hfol.idle hc.2
    _ = lastSeats (s.history e) := by rw [hc.1, List.take_length, history, howed]; simp
    _ = seats s.events e := hann.seats.symm

end

/-! ## Runs of three requests -/

/-- Request `j` runs `n` operations; an event it creates gets the key `1`. -/
def advances (j n : ℕ) : List CatalogueAction := List.replicate n (.advance j ⟨1⟩)

/-- Transaction `t` of the inventory runs `n` operations. -/
def inventoryAdvances (t n : ℕ) : List CatalogueAction :=
  (Inventory.advances 0 t n).map .inventory

/-- The consumer handles the next message of the event in transaction `t`, which takes `n`
operations. -/
def handles (t n : ℕ) : List CatalogueAction :=
  [.deliver ⟨1⟩] ++ inventoryAdvances t n ++ [.settle ⟨1⟩]

/-- The organizer of the event. -/
def organizer : CurrentUser := ⟨⟨9⟩, .organizer⟩

/-- A request of the organizer to change the number of seats. -/
def resize (n : ℤ) : EventCall := .update ⟨1⟩ { totalSeats := some (some n) } organizer

/-- An event with ten seats has been created, and the consumer has handled that. -/
def createdEvent : List CatalogueAction :=
  [.begin (.create ⟨"Concert", none, "Hall", 0, 10, 2500⟩ organizer)] ++ advances 0 5 ++ handles 0 4

/-- Two requests commit, one after the other, 20 and 30 seats. -/
def committedUpdates : List CatalogueAction :=
  createdEvent ++ [.begin (resize 20), .begin (resize 30)] ++ advances 1 3 ++ advances 2 3

/-- They publish in the order of their commits, and a reservation is made in between. -/
def inOrder : List CatalogueAction :=
  committedUpdates ++ advances 1 2 ++ advances 2 2 ++ handles 1 5 ++
  [.inventory (.begin (.reserveSeats ⟨1⟩ ⟨2⟩ 1))] ++ inventoryAdvances 2 7 ++ handles 3 5

/-- The capacity is the number of seats. -/
theorem inOrder_synced : ∃ s, run (step .default) .init inOrder = some s ∧
    capacity s.inventory.db ⟨1⟩ = seats s.events ⟨1⟩ ∧ seats s.events ⟨1⟩ = some 30 := by
  obtain ⟨s, hs, hq, hc, hseats⟩ : ∃ s, run (step .default) .init inOrder = some s ∧
      (∀ r ∈ s.requests, ∀ m ∈ r.owes, m.eventId ≠ ⟨1⟩) ∧ s.Consumed ⟨1⟩ ∧
      seats s.events ⟨1⟩ = some 30 :=
    exists_of_run (by decide +kernel)
  exact ⟨s, hs, capacity_synced .default ⟨1⟩ inOrder s hs (by decide +kernel)
    (by decide +kernel) hq hc, hseats⟩

/-- The second request publishes before the first. -/
def overtaking : List CatalogueAction :=
  committedUpdates ++ advances 2 2 ++ advances 1 2 ++ handles 1 5 ++ handles 2 5

/-- One request changes the number of seats. While the consumer handles its message, a reservation
is confirmed, which takes no lock. -/
def losingRace : List CatalogueAction :=
  createdEvent ++ [.inventory (.begin (.reserveSeats ⟨1⟩ ⟨2⟩ 1))] ++ inventoryAdvances 1 7 ++
  [.begin (resize 20)] ++ advances 1 5 ++ [.deliver ⟨1⟩] ++ inventoryAdvances 2 1 ++
  [.inventory (.begin (.confirmReservation ⟨101⟩))] ++ inventoryAdvances 3 6 ++
  inventoryAdvances 2 3 ++ [.settle ⟨1⟩]

/-- **The capacity can diverge.** All requests have ended and all messages have been consumed, but
the capacity is not the number of seats: where no handler has failed but a request has overtaken
another, and where the only message was published at once but its handler has lost a version
race. -/
theorem capacity_diverges :
    (Along (step .default) (Accepted ⟨1⟩) .init overtaking ∧
      ∃ s, run (step .default) .init overtaking = some s ∧ (∀ r ∈ s.requests, r.ended = true) ∧
        s.Consumed ⟨1⟩ ∧ seats s.events ⟨1⟩ = some 30 ∧ capacity s.inventory.db ⟨1⟩ = some 20) ∧
    Along (step .default) (InOrder ⟨1⟩) .init losingRace ∧
      ∃ s, run (step .default) .init losingRace = some s ∧ (∀ r ∈ s.requests, r.ended = true) ∧
        s.Consumed ⟨1⟩ ∧ seats s.events ⟨1⟩ = some 20 ∧ capacity s.inventory.db ⟨1⟩ = some 10 := by
  obtain ⟨s, hs, h⟩ : ∃ s, run (step .default) .init overtaking = some s ∧
      (∀ r ∈ s.requests, r.ended = true) ∧ s.Consumed ⟨1⟩ ∧ seats s.events ⟨1⟩ = some 30 ∧
      capacity s.inventory.db ⟨1⟩ = some 20 :=
    exists_of_run (by decide +kernel)
  obtain ⟨s', hs', h'⟩ : ∃ s, run (step .default) .init losingRace = some s ∧
      (∀ r ∈ s.requests, r.ended = true) ∧ s.Consumed ⟨1⟩ ∧ seats s.events ⟨1⟩ = some 20 ∧
      capacity s.inventory.db ⟨1⟩ = some 10 :=
    exists_of_run (by decide +kernel)
  exact ⟨⟨by decide +kernel, s, hs, h⟩, by decide +kernel, s', hs', h'⟩

end Catalogue

end EventSphere.Api
