import EventSphere.Inventory.Effects
import EventSphere.UnitOfWork.History

/-!
# What becomes of a reservation

Four facts that the callers of the service rely on, for every interleaving: a reservation is never
deleted and keeps its event, order and quantity; a reservation that `reserve_seats` has returned is
stored with the event, order and quantity it was asked for; a reservation is confirmed only if
somebody has asked for it; and a release changes no reservation but the one that it names.
-/

namespace EventSphere.Inventory

/-- The stored reservation `i` is for the event, the order and the quantity. -/
def ReservedFor (db : InventoryDb) (i e o : UUID) (q : ℤ) : Prop :=
  ∃ r, db.plain.get i = some r ∧ r.eventId = e ∧ r.orderId = o ∧ r.quantity = q

/-- An effect confirms only the reservation its call names. -/
theorem Effect.confirms {R : ReadRel} {V V' : InventoryDb} {call : Call} (h : Effect R V V' call)
    {i : UUID} {r : Reservation} (hr : V'.plain.get i = some r) (hs : r.status = .confirmed) :
    V.plain.get i = some r ∨ call = .confirmReservation i := by
  -- a written reservation that is not confirmed is not the one
  have hset : ∀ {r' : Reservation}, V'.plain = V.plain.set r' → r'.status ≠ .confirmed →
      V.plain.get i = some r := fun hV hne => by
    rw [hV] at hr
    rcases Table.get_set_inv hr with ⟨-, rfl⟩ | hr
    · exact absurd hs hne
    · exact hr
  cases h with
  | idle h | create _ h | adjust _ h => subst h; exact .inl hr
  | reserve _ _ _ hp _ h => exact .inl (hset (congrArg Db.plain h) (by rw [hp]; decide))
  | confirm _ _ _ _ _ _ h =>
    subst h
    rcases Table.get_set_inv hr with ⟨hi, -⟩ | hr
    · rw [hi]
      exact .inr rfl
    · exact .inl hr
  | @release _ _ _ _ expired _ _ _ _ _ _ _ h =>
    exact .inl (hset (congrArg Db.plain h) (by cases expired <;> simp [releasedStatus]))

/-- A running transaction has written a confirmed reservation only over a confirmed one or by its
own confirmation. -/
def ConfirmLocked (call : Call) (db W : InventoryDb) : Prop :=
  ∀ i r, W.plain.get i = some r → r.status = .confirmed →
    call = .confirmReservation i ∨ ∃ cur, db.plain.get i = some cur ∧ cur.status = .confirmed

theorem confirmLocked : LockedRel ConfirmLocked where
  empty := nofun
  agree h hL i r hr hs := by
    rw [← h.2 i (Table.mem_of_get hr)]
    exact hL i r hr hs

/-- Some transaction runs or has run the call. -/
def Called (w : InventoryWorld) (call : Call) : Prop :=
  ∃ (t : ℕ) (x : _), w.txs[t]? = some x ∧ x.call = call

/-- The invariant behind the three facts. -/
structure Reserving (settings : Settings) (w : InventoryWorld) : Prop where
  coherent : Coherent settings w
  returned : ∀ {t : ℕ} {e o q res}, w.txs[t]? = some (.done (.reserveSeats e o q) (.returned res)) →
    ∃ r, res = .reservation r ∧ ReservedFor w.db r.id e o q
  locked : w.Holds ConfirmLocked
  confirmed : ∀ {i r}, w.db.plain.get i = some r → r.status = .confirmed →
    Called w (.confirmReservation i)

theorem reserving_init (settings : Settings) : Reserving settings .init where
  coherent := World.inv_init
  returned := nofun
  locked := nofun
  confirmed := nofun

section
variable {settings : Settings} {w w' : InventoryWorld} {a : Action Call UUID}

/-- **A reservation keeps its event, order and quantity.** -/
theorem ReservedFor.step {i e o : UUID} {q : ℤ} (h : Coherent settings w)
    (hs : step settings w a = some w') (hr : ReservedFor w.db i e o q) :
    ReservedFor w'.db i e o q := by
  obtain ⟨r, hr, rfl, rfl, rfl⟩ := hr
  obtain ⟨r', hr', hf⟩ := h.step_plain hs hr
  obtain ⟨h1, h2, h3, -⟩ := frame_eq.1 hf
  exact ⟨r', hr', h1, h2, h3⟩

/-- A call that was made stays made. -/
theorem Called.step {call : Call} (hs : step settings w a = some w') (h : Called w call) :
    Called w' call := by
  obtain ⟨t, x, hx, rfl⟩ := h
  obtain ⟨x', hx', hcall⟩ := World.tx_step hs hx
  exact ⟨t, x', hx', hcall⟩

/-- A call that was made was made before, or arrives now. -/
theorem Called.of_step {call : Call}
    (hs : Inventory.step settings w a = some w') (h : Called w' call) :
    Called w call ∨ a.arriving = some call := by
  obtain ⟨t, x', hx', rfl⟩ := h
  rcases Nat.lt_or_ge t w.txs.length with hlt | hge
  · obtain ⟨x, hx, hcall⟩ := World.call_step hlt hs hx'
    exact .inl ⟨t, x, hx, hcall⟩
  · cases World.step_kind hs with
    | begin call =>
      rcases getElem?_append_singleton hx' with hx' | ⟨-, rfl⟩
      · exact .inl ⟨t, x', hx', rfl⟩
      · exact .inr rfl
    | «continue» | commit | stop | abort =>
      have := (List.getElem?_eq_some_iff.1 hx').1
      rw [List.length_set] at this
      omega

/-- The commit of a reservation stores it as it was asked for. -/
theorem Coherent.returned {t : ℕ} {e o : UUID} {q : ℤ} {res : Result} {k : InventoryWork}
    (h : Coherent settings w)
    (ht : w.txs[t]? = some (.running (.reserveSeats e o q) (.ret res) k)) :
    ∃ r, res = .reservation r ∧ ReservedFor (k.view w.db) r.id e o q := by
  obtain ⟨row, r, rfl, h1, h2, h3, -, -, hw⟩ := (h.tx ht).safe.2
  refine ⟨r, rfl, r, Table.get_overlay_of_get ?_, h1, h2, h3⟩
  rw [hw]
  exact get_set_reservation _ r

/-- **One step keeps the invariant.** -/
theorem Reserving.step (h : Reserving settings w) (hs : step settings w a = some w') :
    Reserving settings w' where
  coherent := h.coherent.step hs
  returned {t e o q res} ht := by
    have hold : w.txs[t]? = some (.done (.reserveSeats e o q) (.returned res)) →
        ∃ r, res = .reservation r ∧ ReservedFor w'.db r.id e o q := fun ht' => by
      obtain ⟨r, hr, hres⟩ := h.returned ht'
      exact ⟨r, hr, hres.step h.coherent hs⟩
    cases World.step_kind hs with
    | begin call =>
      rcases getElem?_append_singleton ht with ht | ⟨-, he⟩
      · exact hold ht
      · cases he
    | «continue» ht' =>
      rcases getElem?_set_inv ht with ⟨-, heq⟩ | ⟨-, ht⟩
      · cases heq
      · exact hold ht
    | commit ht' hf hn =>
      rcases getElem?_set_inv ht with ⟨-, heq⟩ | ⟨-, ht⟩
      · cases heq
        obtain ⟨rfl, rfl⟩ := (h.coherent.tx ht').commit_db hn
        exact h.coherent.returned ht'
      · exact hold ht
    | stop ht' hn =>
      rcases getElem?_set_inv ht with ⟨-, heq⟩ | ⟨-, ht⟩
      · cases heq
        rcases Prog.next_stop hn with ⟨e, -, he⟩ | ⟨e, he⟩ <;> cases he
      · exact hold ht
    | abort ht' =>
      rcases getElem?_set_inv ht with ⟨-, heq⟩ | ⟨-, ht⟩
      · cases heq
      · exact hold ht
  locked := by
    refine World.Holds.step confirmLocked h.coherent h.locked hs
      fun {t inp call k} ha hf hL i r hr hst => ?_
    have heff := h.coherent.effect (R := fun _ _ _ => True)
      (fun _ _ _ _ _ _ _ _ _ _ _ => trivial) ha hf
    rcases heff.confirms (Table.get_overlay_of_get hr) hst with hv | hcall
    · rcases Option.or_eq_some_iff.1 hv with hw | ⟨-, hdb⟩
      · exact hL i r hw hst
      · exact .inr ⟨r, hdb, hst⟩
    · exact .inl hcall
  confirmed {i r} hr hst := by
    rcases h.coherent.step_db hs with hdb | ⟨t, inp, call, res, k, -, ht, hdb, -⟩
    · exact (h.confirmed (hdb ▸ hr) hst).step hs
    · rw [hdb] at hr
      rcases Option.or_eq_some_iff.1 hr with hw | ⟨-, hdb⟩
      · rcases h.locked ht i r hw hst with rfl | ⟨cur, hcur, hcst⟩
        · exact Called.step hs ⟨t, _, ht, rfl⟩
        · exact (h.confirmed hcur hcst).step hs
      · exact (h.confirmed hdb hst).step hs

/-! ## What a release changes -/

/-- The effect of a release is on the reservation that it names. -/
theorem Effect.release_plain {R : ReadRel} {V V' : InventoryDb} {i : UUID} {expired : Bool}
    (h : Effect R V V' (.releaseReservation i expired)) {k : UUID} (hk : k ≠ i) :
    V'.plain.get k = V.plain.get k := by
  cases h with
  | idle h => rw [h]
  | release hc _ _ _ _ _ _ h =>
    rcases hc with hc | ⟨hc, -⟩
    · cases hc
      rw [h]
      exact Table.get_set_of_ne _ hk
    · cases hc

/-- A running release has changed no reservation but the one that it names. -/
def ReleaseLocked (call : Call) (db W : InventoryDb) : Prop :=
  ∀ i expired, call = .releaseReservation i expired →
    ∀ k r, k ≠ i → W.plain.get k = some r → db.plain.get k = some r

theorem releaseLocked : LockedRel ReleaseLocked where
  empty _ _ _ _ _ _ h := by cases h
  agree h hL i expired hc k r hk hr := by
    rw [← h.2 k (Table.mem_of_get hr)]
    exact hL i expired hc k r hk hr

/-- What a running release sees of another reservation is what is committed. -/
theorem ReleaseLocked.view {db : InventoryDb} {k : InventoryWork} {i : UUID} {expired : Bool}
    (h : ReleaseLocked (.releaseReservation i expired) db k.writes) {i' : UUID} (hi : i' ≠ i) :
    (k.view db).plain.get i' = db.plain.get i' := by
  cases hw : k.writes.plain.get i' with
  | none => exact Table.get_overlay_of_notMem (Table.get_eq_none.1 hw)
  | some r => exact (Table.get_overlay_of_get hw).trans (h i expired rfl i' r hi hw).symm

/-- One step keeps what running releases have changed. -/
theorem releaseLocked_step (h : Coherent settings w) (hL : w.Holds ReleaseLocked)
    (hs : step settings w a = some w') : w'.Holds ReleaseLocked := by
  refine World.Holds.step releaseLocked h hL hs fun {t inp call k} ha hf hL => ?_
  rintro i expired rfl i' r hi hr
  have heff := h.effect (R := fun _ _ _ => True) (fun _ _ _ _ _ _ _ _ _ _ _ => trivial) ha hf
  rw [← hL.view hi, ← heff.release_plain hi]
  exact Table.get_overlay_of_get hr

/-- **A release leaves all other reservations alone.** -/
theorem release_frame {t : ℕ} {inp : Input UUID} {x : _} {i : UUID} {expired : Bool}
    (h : Coherent settings w) (hL : w.Holds ReleaseLocked) (ht : w.txs[t]? = some x)
    (hx : x.call = .releaseReservation i expired)
    (hs : step settings w (.advance t inp) = some w') {i' : UUID} (hi : i' ≠ i) :
    w'.db.plain.get i' = w.db.plain.get i' := by
  rcases h.step_db hs with hdb | ⟨t', inp', call, res, k, ha, ht', hdb, -⟩
  · rw [hdb]
  · cases ha
    cases ht.symm.trans ht'
    obtain rfl : call = _ := hx
    rw [hdb, (hL ht).view hi]

end

end EventSphere.Inventory
