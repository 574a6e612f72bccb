import EventSphere.Inventory.Effects

/-!
# How reservations expire

For every interleaving of the service: a reservation becomes `EXPIRED` only by the commit of a
release that was asked to expire it or of a sweep, and a sweep returns every reservation that its
commit expires (`Sweeping.expired_step`).
-/

namespace EventSphere.Inventory

/-- The call can expire reservations. -/
def Call.expires : Call → Bool
  | .sweepExpiredReservations | .releaseReservation _ true => true
  | _ => false

/-- An effect leaves an expired reservation only where one was, or by a call that can expire it. -/
theorem Effect.expires {R : ReadRel} {V V' : InventoryDb} {call : Call} (h : Effect R V V' call)
    {i : UUID} {r : Reservation} (hr : V'.plain.get i = some r) (hs : r.status = .expired) :
    V.plain.get i = some r ∨ call.expires = true := by
  -- a written reservation that is not expired is not the one
  have hset : ∀ {r' : Reservation}, V'.plain = V.plain.set r' → r'.status ≠ .expired →
      V.plain.get i = some r := by
    intro r' hV hne
    rw [hV, Table.get_set] at hr
    split at hr
    · cases hr; exact absurd hs hne
    · exact hr
  cases h with
  | idle h | create _ h | adjust _ h => subst h; exact .inl hr
  | reserve _ _ _ hp _ h => exact .inl (hset (congrArg Db.plain h) (by rw [hp]; decide))
  | confirm _ _ _ _ _ _ h => exact .inl (hset (congrArg Db.plain h) nofun)
  | @release _ _ r _ expired hc _ _ _ _ _ _ h =>
    cases expired with
    | true =>
      rcases hc with rfl | ⟨rfl, -⟩
      · exact .inr rfl
      · exact .inr rfl
    | false => exact .inl (hset (congrArg Db.plain h) (by simp [releasedStatus]))

/-- A running transaction has written an expired reservation only over an expired one, or its call
can expire reservations. -/
def ExpireLocked (call : Call) (db W : InventoryDb) : Prop :=
  ∀ i r, W.plain.get i = some r → r.status = .expired →
    call.expires = true ∨ ∃ cur, db.plain.get i = some cur ∧ cur.status = .expired

theorem expireLocked : LockedRel ExpireLocked where
  empty := nofun
  agree h hL i r hr hs := by
    rw [← h.2 i (Table.mem_of_get hr)]
    exact hL i r hr hs

/-- The invariant behind the expiries. -/
structure Sweeping (settings : Settings) (w : InventoryWorld) : Prop where
  coherent : Coherent settings w
  answers : w.Inv Call.answers
  locked : w.Holds ExpireLocked

theorem sweeping_init (settings : Settings) : Sweeping settings .init where
  coherent := World.inv_init
  answers := World.inv_init
  locked := nofun

section
variable {settings : Settings} {w w' : InventoryWorld} {a : Action Call UUID}

/-- One step keeps the invariant. -/
theorem Sweeping.step (h : Sweeping settings w) (hs : step settings w a = some w') :
    Sweeping settings w' where
  coherent := h.coherent.step hs
  answers := World.Inv.step (Call.body_answers settings) h.answers hs
  locked := by
    refine World.Holds.step expireLocked h.coherent h.locked hs
      fun {t inp call k} ha hf hL i r hr hst => ?_
    have heff := h.coherent.effect (R := fun _ _ _ => True) (fun _ _ _ _ _ _ _ _ _ _ _ => trivial)
      ha hf
    rcases heff.expires (Table.get_overlay_of_get hr) hst with hv | hcall
    · rcases Option.or_eq_some_iff.1 hv with hw | ⟨-, hdb⟩
      · exact hL i r hw hst
      · exact .inr ⟨r, hdb, hst⟩
    · exact .inl hcall

/-- **How a reservation becomes expired**: by the commit of a call that can expire it; a sweep
returns it. -/
theorem Sweeping.expired_step (h : Sweeping settings w) (hs : Inventory.step settings w a = some w')
    {i : UUID} {r : Reservation} (hr : w'.db.plain.get i = some r) (hst : r.status = .expired) :
    (∃ r₀, w.db.plain.get i = some r₀ ∧ r₀.status = .expired) ∨
      ∃ t inp call res k, a = .advance t inp ∧
        w.txs[t]? = some (.running call (.ret res) k) ∧
        w'.txs = w.txs.set t (.done call (.returned res)) ∧ call.expires = true ∧
        (call = .sweepExpiredReservations →
          ∃ rs, res = .reservations rs ∧ i ∈ rs.map Reservation.id) := by
  rcases h.coherent.step_db hs with hdb | ⟨t, inp, call, res, k, ha, ht, hdb, htxs⟩
  · rw [hdb] at hr
    exact .inl ⟨r, hr, hst⟩
  · rw [hdb] at hr
    rcases Option.or_eq_some_iff.1 hr with hw | ⟨-, hr⟩
    · rcases h.locked ht i r hw hst with hcall | hcur
      · refine .inr ⟨t, inp, call, res, k, ha, ht, htxs, hcall, ?_⟩
        rintro rfl
        obtain ⟨rs, hres, hsub⟩ := (h.answers.tx ht).safe.2
        exact ⟨rs, hres, List.mem_toFinset.1 (hsub (Table.mem_of_get hw))⟩
      · exact .inl hcur
    · exact .inl ⟨r, hr, hst⟩

end

end EventSphere.Inventory
