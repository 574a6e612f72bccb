import EventSphere.Api.Models
import EventSphere.Inventory.Servicer

/-!
# The gRPC client of the inventory

`_raise_domain_error` (`services/api/app/grpc_client/inventory_client.py`) turns the status of a
failed request back into a domain error. Together with the servicer's `except` clauses it decides
whether a caller learns that a request failed only because of others and may be tried again:
`contention_retryable` says that it does exactly for `ReserveSeats`, the only method whose clauses
name the exceptions of a contended request. `races_unclassified` shows what becomes of the other
four.
-/

namespace EventSphere.Api

open EventSphere.Inventory

/-- Reference: `_raise_domain_error` (`inventory_client.py:18`). -/
def raiseDomainError (status : RpcStatus) : DomainError :=
  match status.code with
  | .notFound => .notFound status.details
  | .failedPrecondition => .capacityExceeded status.details
  | .aborted | .resourceExhausted => .conflict status.details
  | .unknown => .other ("Inventory service error: StatusCode.UNKNOWN " ++ status.details)

/-- The caller learns that the request may be tried again. -/
def Retryable (status : RpcStatus) : Prop :=
  (status.code = .aborted ∨ status.code = .resourceExhausted) ∧
    ∃ msg, raiseDomainError status = .conflict msg

/-- The caller gets an error that says nothing. -/
def Unclassified (status : RpcStatus) : Prop :=
  status.code = .unknown ∧ ∃ msg, raiseDomainError status = .other msg

/-- The statuses of the two kinds are different. -/
theorem Unclassified.not_retryable {status : RpcStatus} (h : Unclassified status) :
    ¬Retryable status := by
  rintro ⟨hcode | hcode, -⟩
  · rw [h.1] at hcode; cases hcode
  · rw [h.1] at hcode; cases hcode

/-- What the client raises for a failed reservation request is what the booking handlers are given,
up to the text of an unclassified error. -/
theorem rpcError_of_abort (details : ServiceError → String) (e o : UUID) (n : ℤ)
    (err : InventoryError) :
    raiseDomainError ((Rpc.reserveSeats e o n).abort details (.inventory err)) =
      rpcError (.raised err) ∨
    Unclassified ((Rpc.reserveSeats e o n).abort details (.inventory err)) ∧
      ∃ msg, rpcError (.raised err) = .other msg := by
  cases err with
  | valueError msg => exact .inr ⟨⟨rfl, _, rfl⟩, _, rfl⟩
  | flush err => exact .inr ⟨⟨rfl, _, rfl⟩, _, rfl⟩
  | domain err =>
    cases err with
    | notFound msg | capacityExceeded msg | conflict msg => exact .inl rfl
    | validation msg | authentication msg | authorization msg | other msg =>
      exact .inr ⟨⟨rfl, _, rfl⟩, _, rfl⟩

section
variable {details : ServiceError → String} {q : Rpc} {err : ServiceError}

/-- The other methods have no clause for a contended request. -/
theorem abort_of_contention (hq : ∀ e o n, q ≠ .reserveSeats e o n) (hc : err.Contention q) :
    Unclassified (q.abort details err) := by
  have hcatch : ∀ cls code, (cls, code) ∈ q.clauses → cls.catches err = none := by
    intro cls code hmem
    have hcls : cls = .notFoundError := by
      cases q with
      | reserveSeats e o n => exact absurd rfl (hq e o n)
      | initializeInventory => cases hmem
      | adjustCapacity | confirmReservation | releaseReservation =>
        rw [Rpc.clauses, List.mem_singleton] at hmem
        exact congrArg Prod.fst hmem
    subst hcls
    cases err with
    | lockAcquisition msg => rfl
    | inventory err =>
      cases err with
      | valueError msg | flush err => rfl
      | domain err => cases err <;> first | rfl | exact hc.elim
  have hnone : q.abort details err = ⟨.unknown, details err⟩ := by
    unfold Rpc.abort
    rw [List.findSome?_eq_none_iff.2, Option.getD_none]
    rintro ⟨cls, code⟩ hmem
    change (cls.catches err).map _ = none
    rw [hcatch cls code hmem, Option.map_none]
  rw [hnone]
  exact ⟨rfl, _, rfl⟩

/-- `ReserveSeats` has one for every exception that a contended reservation raises. -/
theorem abort_of_reserve {e o : UUID} {n : ℤ} (hc : err.Contention (.reserveSeats e o n))
    (hstale : err ≠ .inventory (.flush .staleData)) :
    Retryable ((Rpc.reserveSeats e o n).abort details err) := by
  cases err with
  | lockAcquisition msg => exact ⟨.inr rfl, msg, rfl⟩
  | inventory err =>
    cases err with
    | valueError msg => exact hc.elim
    | flush err =>
      cases err with
      | staleData => exact absurd rfl hstale
      | integrity => obtain ⟨e', n', h⟩ := hc; cases h
    | domain err =>
      cases err with
      | conflict msg => exact ⟨.inl rfl, msg, rfl⟩
      | _ => exact hc.elim

end

/-- **Contention is reported as retryable by `ReserveSeats` and by no other method.** In every run
of the server, a request that has failed because of others gets `ABORTED` or `RESOURCE_EXHAUSTED`,
and its caller a `ConflictError`, if and only if it is a `ReserveSeats` request. -/
theorem contention_retryable (details : ServiceError → String) (lock : LockSettings)
    (settings : Settings) (as : List ServerAction) (s : Server)
    (hr : run (Server.step lock settings) .init as = some s) (j : ℕ) (q : Rpc) (err : ServiceError)
    (hj : s.requests[j]?.map Handling.rpc = some q) (hf : s.failure j = some err)
    (hc : err.Contention q) :
    Retryable (q.abort details err) ↔ ∃ e o n, q = .reserveSeats e o n := by
  have h : s.Inv := run_inv (fun h hs => h.step hs) hr Server.inv_init
  constructor
  · intro hretry
    by_contra hq
    push Not at hq
    exact (abort_of_contention hq hc).not_retryable hretry
  · rintro ⟨e, o, n, rfl⟩
    refine abort_of_reserve hc ?_
    rintro rfl
    exact h.reserve_failure hj hf

/-! ## Contended requests -/

/-- Transaction `t` runs `n` operations. -/
def serves (t n : ℕ) : List ServerAction := (advances 0 t n).map .inventory

/-- Two requests for the lock of one event; the second uses up its attempts while the first is in
its section. -/
def saturated (q : Rpc) : List ServerAction :=
  [.arrive (.reserveSeats ⟨1⟩ ⟨2⟩ 1) ⟨1⟩, .lock (.attempt 0), .arrive q ⟨2⟩] ++
    List.replicate 10 (.lock (.attempt 1)) ++ [.lock (.giveUp 1), .refuse 1]

/-- A reservation request that waits for the lock in vain has failed because of the other one, and
is told to try again. -/
theorem saturated_reservation_retryable : ∃ s err,
    run (Server.step .default .default) .init (saturated (.reserveSeats ⟨1⟩ ⟨3⟩ 1)) = some s ∧
    s.requests[1]?.map Handling.rpc = some (.reserveSeats ⟨1⟩ ⟨3⟩ 1) ∧ s.failure 1 = some err ∧
    err.Contention (.reserveSeats ⟨1⟩ ⟨3⟩ 1) ∧
    Retryable ((Rpc.reserveSeats ⟨1⟩ ⟨3⟩ 1).abort (fun _ => "") err) := by
  obtain ⟨s, hs, h⟩ :
      ∃ s, run (Server.step .default .default) .init (saturated (.reserveSeats ⟨1⟩ ⟨3⟩ 1)) =
        some s ∧
        s.requests[1]? == some (.refused (.reserveSeats ⟨1⟩ ⟨3⟩ 1)) :=
    exists_of_run (by decide +kernel)
  have hj := eq_of_beq h
  have hrpc : s.requests[1]?.map Handling.rpc = some (.reserveSeats ⟨1⟩ ⟨3⟩ 1) := by rw [hj]; rfl
  have hf : s.failure 1 = some (.lockAcquisition ("Could not acquire lock for resource='" ++
      (Rpc.reserveSeats ⟨1⟩ ⟨3⟩ 1).resource.getD "" ++ "'")) := by
    rw [Server.failure, hj]
  exact ⟨s, _, hs, hrpc, hf, trivial, (contention_retryable _ .default .default _ s hs 1
    (.reserveSeats ⟨1⟩ ⟨3⟩ 1) _ hrpc hf trivial).2 ⟨_, _, _, rfl⟩⟩

/-- Two initialisations of one event, both of which find no row. -/
def insertRace : List ServerAction :=
  [.arrive (.initializeInventory ⟨1⟩ 5) ⟨1⟩, .arrive (.initializeInventory ⟨1⟩ 5) ⟨2⟩] ++
    serves 0 1 ++ serves 1 1 ++ serves 0 3 ++ serves 1 3

/-- A request for a reservation that has read its event row before a change of the capacity and
flushes after it. -/
def versionRace (q : Rpc) : List ServerAction :=
  [.arrive (.initializeInventory ⟨1⟩ 5) ⟨1⟩] ++ serves 0 4 ++
  [.arrive (.reserveSeats ⟨1⟩ ⟨2⟩ 1) ⟨1⟩, .lock (.attempt 0), .enter 1] ++ serves 1 7 ++
  [.lock (.leave 0), .lock (.release 0), .arrive q ⟨2⟩] ++ serves 2 2 ++
  [.arrive (.adjustCapacity ⟨1⟩ 4) ⟨3⟩, .lock (.attempt 1), .enter 3] ++ serves 3 5 ++ serves 2 4

/-- A request of this kind can fail because of others without its caller being told. -/
def Misreported (q : Rpc) : Prop :=
  ∃ as s j err, run (Server.step .default .default) .init as = some s ∧
    s.requests[j]?.map Handling.rpc = some q ∧ s.failure j = some err ∧ err.Contention q ∧
    ∀ details, Unclassified (q.abort details err)

theorem misreported_of_run {q : Rpc} (err : ServiceError) (as : List ServerAction) (j : ℕ)
    (h : (run (Server.step .default .default) .init as).any (fun s =>
      s.requests[j]?.map Handling.rpc == some q && s.failure j == some err) = true)
    (hq : ∀ e o n, q ≠ .reserveSeats e o n) (hc : err.Contention q) : Misreported q := by
  obtain ⟨s, hs, h⟩ := (Option.any_eq_true _ _).1 h
  simp only [Bool.and_eq_true, beq_iff_eq] at h
  exact ⟨as, s, j, err, hs, h.1, h.2, hc, fun _ => abort_of_contention hq hc⟩

/-- **Every other write method reports contention as `UNKNOWN`**: an initialisation that loses the
insert of the event row, a change of the capacity that waits for the lock in vain, and a
confirmation and a release that lose a version race. -/
theorem races_unclassified :
    Misreported (.initializeInventory ⟨1⟩ 5) ∧ Misreported (.adjustCapacity ⟨1⟩ 4) ∧
      Misreported (.confirmReservation ⟨101⟩) ∧ Misreported (.releaseReservation ⟨101⟩) := by
  refine ⟨?_, ?_, ?_, ?_⟩
  · exact misreported_of_run (.inventory (.flush .integrity)) insertRace 1
      (by decide +kernel) nofun ⟨_, _, rfl⟩
  · exact misreported_of_run (.lockAcquisition ("Could not acquire lock for resource='" ++
      (Rpc.adjustCapacity ⟨1⟩ 4).resource.getD "" ++ "'")) (saturated (.adjustCapacity ⟨1⟩ 4)) 1
      (by decide +kernel) nofun trivial
  · exact misreported_of_run (.inventory (.flush .staleData))
      (versionRace (.confirmReservation ⟨101⟩)) 2 (by decide +kernel) nofun trivial
  · exact misreported_of_run (.inventory (.flush .staleData))
      (versionRace (.releaseReservation ⟨101⟩)) 2 (by decide +kernel) nofun trivial

end EventSphere.Api
