import EventSphere.Inventory.Oversell

/-!
# Reservation statuses over time

A reservation should only move forward: from pending to confirmed, released or expired, and from
confirmed to released. `status_monotone` shows that it does in every run whose accepted flushes find
the status they were decided on, or one from which the written status is the next. A flush that
finds another one moves a reservation backwards: `status_moves_back`.
-/

namespace EventSphere.Inventory

/-- The moves of a reservation, and staying. -/
def Follows (s s' : ReservationStatus) : Prop :=
  s' = s ∨ s = .pending ∨ s = .confirmed ∧ s' = .released

instance (s s' : ReservationStatus) : Decidable (Follows s s') :=
  inferInstanceAs (Decidable (_ ∨ _))

theorem Follows.trans {s s' s'' : ReservationStatus} (h : Follows s s') (h' : Follows s' s'') :
    Follows s s'' := by
  rcases h with rfl | rfl | ⟨rfl, rfl⟩
  · exact h'
  · exact .inr (.inl rfl)
  · rcases h' with rfl | h | ⟨h, -⟩
    · exact .inr (.inr ⟨rfl, rfl⟩)
    · cases h
    · cases h

/-- What a committed step may do to a reservation: nothing, insert it as pending, or move it. -/
def StatusStep (o o' : Option Reservation) : Prop :=
  o' = o ∨ (∃ r', o = none ∧ o' = some r' ∧ r'.status = .pending) ∨
  ∃ r r', o = some r ∧ o' = some r' ∧ Follows r.status r'.status

/-- The step commits only moves forward. -/
def StatusesFollow (settings : Settings) (w : InventoryWorld) (a : Action Call UUID) : Prop :=
  ∀ w', step settings w a = some w' → ∀ i, StatusStep (w.db.plain.get i) (w'.db.plain.get i)

/-- The reservation overwritten has the status that was read, or the one that is written, or is
confirmed and released. -/
def StatusHolds : ReadRel := fun r s cur =>
  cur.status = r.status ∨ cur.status = s ∨ cur.status = .confirmed ∧ s = .released

instance (r : Reservation) (s : ReservationStatus) (cur : Reservation) :
    Decidable (StatusHolds r s cur) :=
  inferInstanceAs (Decidable (_ ∨ _))

/-- The calls of the service from outside: `expired` is left at its default. -/
def NotExpiring : Call → Prop
  | .releaseReservation _ expired => expired = false
  | _ => True

instance : ∀ call, Decidable (NotExpiring call)
  | .releaseReservation _ expired => inferInstanceAs (Decidable (expired = false))
  | .initializeInventory _ _ | .adjustCapacity _ _ | .getAvailability _ | .reserveSeats _ _ _
  | .confirmReservation _ | .sweepExpiredReservations => inferInstanceAs (Decidable True)

/-- The condition on a step under which no reservation moves backwards. -/
structure KeepsStatus (w : InventoryWorld) (a : Action Call UUID) : Prop where
  calls : ∀ call ∈ a.arriving, NotExpiring call
  reads : Overwrites StatusHolds w a

instance (w : InventoryWorld) (a : Action Call UUID) : Decidable (KeepsStatus w a) :=
  decidable_of_iff ((∀ call ∈ a.arriving, NotExpiring call) ∧ Overwrites StatusHolds w a)
    ⟨fun h => ⟨h.1, h.2⟩, fun h => ⟨h.calls, h.reads⟩⟩

/-- A call that inserts reservations. -/
def Reserves : Call → Prop
  | .reserveSeats _ _ _ => True
  | _ => False

/-- **An effect moves every reservation forward**, and only a reserving call inserts one. -/
theorem Effect.follows {V V' : InventoryDb} {call : Call} (h : Effect StatusHolds V V' call)
    (hc : NotExpiring call) {i : UUID} {r' : Reservation} (hr' : V'.plain.get i = some r') :
    V.plain.get i = some r' ∨ (V.plain.get i = none ∧ r'.status = .pending ∧ Reserves call) ∨
    ∃ cur, V.plain.get i = some cur ∧ Follows cur.status r'.status ∧ ¬ Reserves call := by
  cases h with
  | idle h | create _ h | adjust _ h => subst h; exact .inl hr'
  | reserve hrow hq hav hs hr h =>
    subst h
    rcases Table.get_set_inv hr' with ⟨hi, rfl⟩ | hr'
    · exact .inr (.inl ⟨hi ▸ hr, hs, trivial⟩)
    · exact .inl hr'
  | confirm hrow hq hs hcur hf hR h =>
    subst h
    rcases Table.get_set_inv hr' with ⟨hi, rfl⟩ | hr'
    · rw [pk_reservation] at hi
      refine .inr (.inr ⟨_, hi ▸ hcur, ?_, id⟩)
      rcases hR with hR | hR | ⟨-, hR⟩
      · exact .inr (.inl (hR.trans hs))
      · exact .inl hR.symm
      · cases hR
    · exact .inl hr'
  | @release _ row r cur expired hby hrow hq hs hcur hf hR h =>
    subst h
    rcases Table.get_set_inv hr' with ⟨hi, rfl⟩ | hr'
    · rw [pk_reservation] at hi
      refine .inr (.inr ⟨_, hi ▸ hcur, ?_, ?_⟩)
      · rcases hR with hR | hR | ⟨hR, hR'⟩
        · rcases hby with rfl | ⟨-, -, hp⟩
          · obtain rfl : expired = false := hc
            rcases hs with hs | hs
            · exact .inr (.inl (hR.trans hs))
            · exact .inr (.inr ⟨hR.trans hs, rfl⟩)
          · exact .inr (.inl (hR.trans hp))
        · exact .inl hR.symm
        · exact .inr (.inr ⟨hR, hR'⟩)
      · rcases hby with rfl | ⟨rfl, -⟩ <;> exact id
    · exact .inl hr'

/-! ## Whole runs -/

/-- What is known of the reservations a running transaction has written: they were inserted as
pending, or move a committed one forward. -/
def StatusLocked (call : Call) (db W : InventoryDb) : Prop :=
  ∀ i r, W.plain.get i = some r →
    (db.plain.get i = none ∧ r.status = .pending ∧ Reserves call) ∨
    ∃ cur, db.plain.get i = some cur ∧ Follows cur.status r.status

theorem statusLocked : LockedRel StatusLocked where
  empty := nofun
  agree h hL i r hr := by
    rw [← h.2 i (Table.mem_of_get hr)]
    exact hL i r hr

/-- The invariant that carries `status_monotone`. -/
structure Forward (settings : Settings) (w : InventoryWorld) : Prop where
  coherent : Coherent settings w
  calls : w.Calls NotExpiring
  locked : w.Holds StatusLocked

theorem forward_init (settings : Settings) : Forward settings .init where
  coherent := World.inv_init
  calls := nofun
  locked := nofun

/-- One step keeps the invariant. -/
theorem Forward.step {settings : Settings} {w w' : InventoryWorld} {a : Action Call UUID}
    (h : Forward settings w) (hc : KeepsStatus w a) (hs : step settings w a = some w') :
    Forward settings w' := by
  refine ⟨h.coherent.step hs, World.Calls.step h.calls hs hc.calls, ?_⟩
  refine World.Holds.step statusLocked h.coherent h.locked hs
    fun {t inp call k} ha hf hL i r hr => ?_
  have heff := h.coherent.effect hc.reads ha hf
  obtain ⟨f, hrun⟩ := hf.running
  -- a visible reservation is the transaction's own or a committed one
  have hvis : ∀ {cur}, (k.view w.db).plain.get i = some cur →
      (w.db.plain.get i = none ∧ cur.status = .pending ∧ Reserves call) ∨
      ∃ cur', w.db.plain.get i = some cur' ∧ Follows cur'.status cur.status := fun hcur => by
    rcases Option.or_eq_some_iff.1 hcur with hw | ⟨-, hdb⟩
    · exact hL i _ hw
    · exact .inr ⟨_, hdb, .inl rfl⟩
  rcases heff.follows (h.calls hrun) (Table.get_overlay_of_get hr) with
    hsame | ⟨hnone, hp, hres⟩ | ⟨cur, hcur, hfol, hres⟩
  · exact hvis hsame
  · exact .inl ⟨(Option.or_eq_none_iff.1 hnone).2, hp, hres⟩
  · rcases hvis hcur with ⟨-, -, hres'⟩ | ⟨cur', hcur', hfol'⟩
    · exact absurd hres' hres
    · exact .inr ⟨cur', hcur', hfol'.trans hfol⟩

/-- What a step commits moves forward. -/
theorem Forward.follows {settings : Settings} {w : InventoryWorld} {a : Action Call UUID}
    (h : Forward settings w) : StatusesFollow settings w a := by
  intro w' hs i
  rcases h.coherent.step_db hs with hdb | ⟨t, inp, call, r, k, -, ht, hdb, -⟩
  · exact .inl (by rw [hdb])
  · rw [hdb]
    cases hw : k.writes.plain.get i with
    | none => exact .inl (Table.get_overlay_of_notMem (Table.get_eq_none.1 hw))
    | some r' =>
      have hget : (k.view w.db).plain.get i = some r' := Table.get_overlay_of_get hw
      rcases h.locked ht i r' hw with ⟨hnone, hp, -⟩ | ⟨cur, hcur, hfol⟩
      · exact .inr (.inl ⟨r', hnone, hget, hp⟩)
      · exact .inr (.inr ⟨cur, r', hcur, hget, hfol⟩)

/-- **Reservations move forward without stale statuses.** In every run whose accepted flushes find
the status they were decided on, the one they write, or a confirmed reservation to release, the
committed status of every reservation only moves forward. -/
theorem status_monotone (settings : Settings) (as : List (Action Call UUID))
    (hc : Along (step settings) KeepsStatus .init as) :
    Along (step settings) (StatusesFollow settings) .init as :=
  along_of_inv (I := Forward settings) (fun h hc hs => h.step hc hs) (fun h _ => h.follows)
    (forward_init settings) hc

/-- Calls that do not overlap keep every reservation moving forward. -/
theorem serial_status_monotone : Along (step .default) KeepsStatus .init serialSchedule ∧
    Along (step .default) (StatusesFollow .default) .init serialSchedule :=
  ⟨by decide +kernel, status_monotone .default serialSchedule (by decide +kernel)⟩

/-! ## The schedules that move backwards -/

/-- A sweep finds a reservation that is pending and past its time; before the sweep reads the event
row, the reservation is confirmed. -/
def sweepSchedule : List (Action Call UUID) :=
  [.begin (.initializeInventory ⟨1⟩ 1)] ++ advances 0 0 4 ++
  [.begin (.reserveSeats ⟨1⟩ ⟨2⟩ 1)] ++ advances 0 1 7 ++
  [.begin .sweepExpiredReservations] ++ advances 600000001 2 2 ++
  [.begin (.confirmReservation ⟨101⟩)] ++ advances 0 3 6 ++ advances 600000001 2 6

/-- A confirmation reads a reservation as pending; before it reads the event row, the reservation is
released. -/
def confirmSchedule : List (Action Call UUID) :=
  [.begin (.initializeInventory ⟨1⟩ 1)] ++ advances 0 0 4 ++
  [.begin (.reserveSeats ⟨1⟩ ⟨2⟩ 1)] ++ advances 0 1 7 ++
  [.begin (.confirmReservation ⟨101⟩)] ++ advances 0 2 1 ++
  [.begin (.releaseReservation ⟨101⟩ false)] ++ advances 0 3 6 ++ advances 0 2 5

/-- The committed status of reservation `i` before and after the last action of a schedule. -/
def lastStatuses (as : List (Action Call UUID)) (i : UUID) :
    Option (Option ReservationStatus × Option ReservationStatus) := do
  let w ← run (step .default) .init as.dropLast
  let w' ← run (step .default) .init as
  return ((w.db.plain.get i).map (·.status), (w'.db.plain.get i).map (·.status))

/-- A last action with a move that does not follow. -/
theorem not_along_of_lastStatuses {as : List (Action Call UUID)} {i : UUID}
    {s s' : ReservationStatus} (h : lastStatuses as i = some (some s, some s'))
    (hs : ¬ Follows s s') : ¬ Along (step .default) (StatusesFollow .default) .init as := by
  intro hA
  obtain ⟨w, hw, h⟩ := Option.bind_eq_some_iff.1 h
  obtain ⟨w', hw', h⟩ := Option.bind_eq_some_iff.1 h
  obtain ⟨h1, h2⟩ := Prod.mk.inj (Option.some.inj h)
  obtain ⟨r, hr, rfl⟩ := Option.map_eq_some_iff.1 h1
  obtain ⟨r', hr', rfl⟩ := Option.map_eq_some_iff.1 h2
  rcases List.eq_nil_or_concat as with rfl | ⟨as', a, rfl⟩
  · cases hw.symm.trans hw'
    cases hr.symm.trans hr'
    exact hs (.inl rfl)
  · rw [List.concat_eq_append] at hA hw hw'
    rw [List.dropLast_concat] at hw
    obtain ⟨w₁, hw₁, hstep⟩ := run_concat.1 hw'
    cases hw.symm.trans hw₁
    have hstat := ((along_append hw).1 hA).2.1 w' hstep i
    rw [hr, hr'] at hstat
    rcases hstat with he | ⟨_, he, -⟩ | ⟨_, _, he, he', hf⟩
    · cases he; exact hs (.inl rfl)
    · cases he
    · cases he; cases he'; exact hs hf

/-- **A reservation can move backwards**: a sweep expires a confirmed one, and a confirmation
revives a released one. -/
theorem status_moves_back :
    ¬ Along (step .default) (StatusesFollow .default) .init sweepSchedule ∧
    ¬ Along (step .default) (StatusesFollow .default) .init confirmSchedule := by
  have h1 : lastStatuses sweepSchedule ⟨101⟩ = some (some .confirmed, some .expired) := by
    decide +kernel
  have h2 : lastStatuses confirmSchedule ⟨101⟩ = some (some .released, some .confirmed) := by
    decide +kernel
  exact ⟨not_along_of_lastStatuses h1 (by decide), not_along_of_lastStatuses h2 (by decide)⟩

end EventSphere.Inventory
