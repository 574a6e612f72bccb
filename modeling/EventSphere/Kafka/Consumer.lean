import EventSphere.Base.Runs
import Mathlib.Data.Nat.Notation
import Mathlib.Logic.Function.Basic

/-!
# The Kafka consumer

`BaseKafkaConsumer` (`services/shared/kafka/consumer.py`): the loop that takes the records of its
partitions one by one, runs the handler on each and commits after a success. A commit has no
argument: it commits the position of every assigned partition, one past the last record taken. So a
success after a failure also commits the failure.

`at_least_once` says exactly when the consumer does what its docstring promises: when no commit goes
through in a session in which the handler has raised on a record that it has handled in no other
delivery. `failure_committed` is the shortest run that does not.
-/

namespace EventSphere.Kafka

/-- What the loop of `run` is doing: waiting for the next record, running the handler on a record,
or committing after the handler has returned. -/
inductive Phase (π : Type) where
  | polling
  | handling (partition : π) (offset : ℕ)
  | committing
  deriving DecidableEq

/-- The consumer between `start` and `stop`: the next offset of every partition, the stop flag, and
the records on which the handler has raised since the start. -/
structure ConsumerSession (π : Type) where
  position : π → ℕ
  stopping : Bool
  phase : Phase π
  failed : List (π × ℕ)

/-- The partitions with their lengths and committed offsets, the records on which a handler has
returned at least once, and the consumer, if it runs. -/
structure ConsumerState (π : Type) where
  logEnd : π → ℕ
  committed : π → ℕ
  handled : π → ℕ → Bool
  session : Option (ConsumerSession π)

/-- What can happen: a producer appends a record, the process starts or crashes, somebody calls
`stop()`, the iterator yields the next record of a partition, the handler returns or raises, the
commit goes through or raises. -/
inductive ConsumerAction (π : Type) where
  | append (partition : π)
  | start
  | crash
  | stop
  | take (partition : π)
  | handlerReturns
  | handlerRaises
  | commit
  | commitRaises

variable {π : Type} [DecidableEq π]

namespace ConsumerState

/-- Empty partitions, nothing committed, no consumer. -/
def init : ConsumerState π := ⟨fun _ => 0, fun _ => 0, fun _ _ => false, none⟩

/-- One step of the consumer and its environment. Reference: `run` and `_process`
(`consumer.py:59`, `consumer.py:85`). -/
def step (s : ConsumerState π) : ConsumerAction π → Option (ConsumerState π)
  | .append p => some { s with logEnd := Function.update s.logEnd p (s.logEnd p + 1) }
  | .start =>
    match s.session with
    | none => some { s with session := some ⟨s.committed, false, .polling, []⟩ }
    | some _ => none
  | .crash => some { s with session := none }
  | .stop =>
    match s.session with
    | some c => some { s with session := some { c with stopping := true } }
    | none => none
  | .take p =>
    match s.session with
    | some c =>
      if c.phase = .polling ∧ c.position p < s.logEnd p then
        if c.stopping then some { s with session := none }
        else some { s with session := some { c with
          position := Function.update c.position p (c.position p + 1)
          phase := .handling p (c.position p) } }
      else none
    | none => none
  | .handlerReturns =>
    match s.session with
    | some c =>
      match c.phase with
      | .handling p o => some { s with
          handled := Function.update s.handled p (Function.update (s.handled p) o true)
          session := some { c with phase := .committing } }
      | _ => none
    | none => none
  | .handlerRaises =>
    match s.session with
    | some c =>
      match c.phase with
      | .handling p o => some { s with
          session := some { c with phase := .polling, failed := (p, o) :: c.failed } }
      | _ => none
    | none => none
  | .commit =>
    match s.session with
    | some c =>
      if c.phase = .committing then
        some { s with committed := c.position, session := some { c with phase := .polling } }
      else none
    | none => none
  | .commitRaises =>
    match s.session with
    | some c =>
      if c.phase = .committing then some { s with session := some { c with phase := .polling } }
      else none
    | none => none

/-- The kinds of steps, with everything each of them does. -/
inductive StepKind (s : ConsumerState π) : ConsumerAction π → ConsumerState π → Prop
  | append (p : π) :
      StepKind s (.append p) { s with logEnd := Function.update s.logEnd p (s.logEnd p + 1) }
  | start (h : s.session = none) :
      StepKind s .start { s with session := some ⟨s.committed, false, .polling, []⟩ }
  | crash : StepKind s .crash { s with session := none }
  | stop {c : ConsumerSession π} (h : s.session = some c) :
      StepKind s .stop { s with session := some { c with stopping := true } }
  | leave {c : ConsumerSession π} {p : π} (h : s.session = some c) (hc : c.phase = .polling) :
      StepKind s (.take p) { s with session := none }
  | take {c : ConsumerSession π} {p : π} (h : s.session = some c) (hc : c.phase = .polling)
      (hp : c.position p < s.logEnd p) :
      StepKind s (.take p) { s with session := some { c with
        position := Function.update c.position p (c.position p + 1)
        phase := .handling p (c.position p) } }
  | handlerReturns {c : ConsumerSession π} {p : π} {o : ℕ} (h : s.session = some c)
      (hc : c.phase = .handling p o) :
      StepKind s .handlerReturns { s with
        handled := Function.update s.handled p (Function.update (s.handled p) o true)
        session := some { c with phase := .committing } }
  | handlerRaises {c : ConsumerSession π} {p : π} {o : ℕ} (h : s.session = some c)
      (hc : c.phase = .handling p o) :
      StepKind s .handlerRaises { s with
        session := some { c with phase := .polling, failed := (p, o) :: c.failed } }
  | commit {c : ConsumerSession π} (h : s.session = some c) (hc : c.phase = .committing) :
      StepKind s .commit
        { s with committed := c.position, session := some { c with phase := .polling } }
  | commitRaises {c : ConsumerSession π} (h : s.session = some c) (hc : c.phase = .committing) :
      StepKind s .commitRaises { s with session := some { c with phase := .polling } }

/-- Every step is of one of the kinds. -/
theorem step_kind {s s' : ConsumerState π} {a : ConsumerAction π} (hs : s.step a = some s') :
    StepKind s a s' := by
  cases hc : s.session with
  | none =>
    cases a with
    | append p => cases hs; exact .append p
    | start => simp only [step, hc] at hs; cases hs; exact .start hc
    | crash => cases hs; exact .crash
    | stop | take | handlerReturns | handlerRaises | commit | commitRaises =>
      simp only [step, hc] at hs; cases hs
  | some c =>
    cases a with
    | append p => cases hs; exact .append p
    | start => simp only [step, hc] at hs; cases hs
    | crash => cases hs; exact .crash
    | stop => simp only [step, hc] at hs; cases hs; exact .stop hc
    | take p =>
      simp only [step, hc] at hs
      split at hs
      · next h =>
        split at hs
        · cases hs; exact .leave hc h.1
        · cases hs; exact .take hc h.1 h.2
      · cases hs
    | handlerReturns =>
      simp only [step, hc] at hs
      split at hs
      · next h => cases hs; exact .handlerReturns hc h
      · cases hs
    | handlerRaises =>
      simp only [step, hc] at hs
      split at hs
      · next h => cases hs; exact .handlerRaises hc h
      · cases hs
    | commit =>
      simp only [step, hc] at hs
      split at hs
      · next h => cases hs; exact .commit hc h
      · cases hs
    | commitRaises =>
      simp only [step, hc] at hs
      split at hs
      · next h => cases hs; exact .commitRaises hc h
      · cases hs

/-- Every record below a committed offset has been handled. -/
def AtLeastOnce (s : ConsumerState π) : Prop :=
  ∀ p o, o < s.committed p → s.handled p o = true

/-- The promise of the docstring (`consumer.py:22`), at one step. -/
def KeepsPromise (s : ConsumerState π) (a : ConsumerAction π) : Prop :=
  ∀ s', s.step a = some s' → s'.AtLeastOnce

/-- The condition on a step: a commit that goes through finds every record on which the handler has
raised in this session handled in another delivery. -/
def SkipsNothing (s : ConsumerState π) (a : ConsumerAction π) : Prop :=
  match a with
  | .commit => ∀ c ∈ s.session, c.phase = .committing → ∀ r ∈ c.failed, s.handled r.1 r.2 = true
  | _ => True

/-- The invariant of a running consumer: every record taken since the start is below the committed
offset, handled, failed, or the one in hand. -/
structure Accounts (s : ConsumerState π) (c : ConsumerSession π) : Prop where
  taken : ∀ {p o}, o < c.position p →
    o < s.committed p ∨ s.handled p o = true ∨ (p, o) ∈ c.failed ∨ c.phase = .handling p o
  failed : ∀ {p o}, (p, o) ∈ c.failed → o < c.position p
  inHand : ∀ {p o}, c.phase = .handling p o → o < c.position p

variable {s s' : ConsumerState π} {a : ConsumerAction π}

/-- A success is remembered. -/
theorem handled_update {p p' : π} {o o' : ℕ} (h : s.handled p' o' = true) :
    Function.update s.handled p (Function.update (s.handled p) o true) p' o' = true := by
  rcases eq_or_ne p' p with rfl | hp
  · rw [Function.update_self, Function.update_apply]
    split
    · rfl
    · exact h
  · rwa [Function.update_of_ne hp]

/-- Taking the next record of a partition. -/
theorem Accounts.take {c : ConsumerSession π} (h : Accounts s c) (hc : c.phase = .polling) (p : π) :
    Accounts { s with session := some { c with
        position := Function.update c.position p (c.position p + 1)
        phase := .handling p (c.position p) } }
      { c with
        position := Function.update c.position p (c.position p + 1)
        phase := .handling p (c.position p) } := by
  have hle : ∀ {p' o}, o < c.position p' →
      o < Function.update c.position p (c.position p + 1) p' := fun {p' o} ho => by
    rw [Function.update_apply]
    split
    · next he => subst he; omega
    · exact ho
  refine ⟨fun {p' o} ho => ?_, fun hf => hle (h.failed hf), fun he => ?_⟩
  · dsimp only at ho
    by_cases hnew : p' = p ∧ o = c.position p
    · obtain ⟨rfl, rfl⟩ := hnew
      exact .inr (.inr (.inr rfl))
    · have hold : o < c.position p' := by
        rw [Function.update_apply] at ho
        split at ho
        · next he =>
          subst he
          have : o ≠ c.position p' := fun h' => hnew ⟨rfl, h'⟩
          omega
        · exact ho
      rcases h.taken hold with h1 | h1 | h1 | h1
      · exact .inl h1
      · exact .inr (.inl h1)
      · exact .inr (.inr (.inl h1))
      · rw [hc] at h1; cases h1
  · cases he
    simp

/-- The handler returns. -/
theorem Accounts.handlerReturns {c : ConsumerSession π} (h : Accounts s c) {p : π} {o : ℕ}
    (hc : c.phase = .handling p o) :
    Accounts { s with
        handled := Function.update s.handled p (Function.update (s.handled p) o true)
        session := some { c with phase := .committing } }
      { c with phase := .committing } := by
  refine ⟨fun {p' o'} ho => ?_, h.failed, nofun⟩
  rcases h.taken ho with h1 | h1 | h1 | h1
  · exact .inl h1
  · exact .inr (.inl (handled_update h1))
  · exact .inr (.inr (.inl h1))
  · rw [hc] at h1
    cases h1
    exact .inr (.inl (by simp))

omit [DecidableEq π] in
/-- The handler raises. -/
theorem Accounts.handlerRaises {c : ConsumerSession π} (h : Accounts s c) {p : π} {o : ℕ}
    (hc : c.phase = .handling p o) :
    Accounts { s with
        session := some { c with phase := .polling, failed := (p, o) :: c.failed } }
      { c with phase := .polling, failed := (p, o) :: c.failed } := by
  refine ⟨fun {p' o'} ho => ?_, fun {p' o'} hf => ?_, nofun⟩
  · rcases h.taken ho with h1 | h1 | h1 | h1
    · exact .inl h1
    · exact .inr (.inl h1)
    · exact .inr (.inr (.inl (.tail _ h1)))
    · rw [hc] at h1
      cases h1
      exact .inr (.inr (.inl (.head _)))
  · rcases List.mem_cons.1 hf with he | hf
    · cases he
      exact h.inHand hc
    · exact h.failed hf

/-- Every step keeps the accounts of the running consumer. -/
theorem accounts_step (h : ∀ c ∈ s.session, Accounts s c) (hs : s.step a = some s') :
    ∀ c ∈ s'.session, Accounts s' c := by
  cases step_kind hs with
  | append p => exact fun c hc => ⟨(h c hc).taken, (h c hc).failed, (h c hc).inHand⟩
  | start =>
    rintro c ⟨⟩
    exact ⟨fun ho => .inl ho, nofun, nofun⟩
  | crash | leave => nofun
  | stop hc =>
    rintro c' ⟨⟩
    exact ⟨(h _ hc).taken, (h _ hc).failed, (h _ hc).inHand⟩
  | take hc hp =>
    rintro c' ⟨⟩
    exact (h _ hc).take hp _
  | handlerReturns hc hp =>
    rintro c' ⟨⟩
    exact (h _ hc).handlerReturns hp
  | handlerRaises hc hp =>
    rintro c' ⟨⟩
    exact (h _ hc).handlerRaises hp
  | commit hc =>
    rintro c' ⟨⟩
    exact ⟨fun ho => .inl ho, (h _ hc).failed, nofun⟩
  | commitRaises hc hp =>
    rintro c' ⟨⟩
    refine ⟨fun ho => ?_, (h _ hc).failed, nofun⟩
    rcases (h _ hc).taken ho with h1 | h1 | h1 | h1
    · exact .inl h1
    · exact .inr (.inl h1)
    · exact .inr (.inr (.inl h1))
    · rw [hp] at h1; cases h1

/-- A step that is not a commit keeps the promise. -/
theorem AtLeastOnce.step (h : s.AtLeastOnce) (ha : a ≠ .commit) (hs : s.step a = some s') :
    s'.AtLeastOnce := by
  intro p o ho
  -- only a commit changes the committed offsets, and nothing forgets a success
  cases step_kind hs with
  | append | start | crash | stop | leave | take | handlerRaises | commitRaises => exact h p o ho
  | handlerReturns => exact handled_update (h p o ho)
  | commit => exact absurd rfl ha

/-- A commit keeps the promise exactly if it skips nothing. -/
theorem keepsPromise_commit (hacc : ∀ c ∈ s.session, Accounts s c) (h : s.AtLeastOnce) :
    s.KeepsPromise .commit ↔ s.SkipsNothing .commit := by
  obtain ⟨logEnd, committed, handled, session⟩ := s
  cases session with
  | none => exact ⟨fun _ => nofun, fun _ => nofun⟩
  | some c =>
    constructor
    · rintro hk c' ⟨⟩ hc r hr
      exact hk _ (if_pos hc) r.1 r.2 ((hacc c rfl).failed hr)
    · intro hskip s' hs p o ho
      simp only [ConsumerState.step] at hs
      split at hs
      · next hc =>
        cases hs
        rcases (hacc c rfl).taken ho with h1 | h1 | h1 | h1
        · exact h p o h1
        · exact h1
        · exact hskip c rfl hc (p, o) h1
        · rw [hc] at h1; cases h1
      · cases hs

/-- A step keeps the promise exactly if it skips nothing. -/
theorem keepsPromise_iff (hacc : ∀ c ∈ s.session, Accounts s c) (h : s.AtLeastOnce) :
    s.KeepsPromise a ↔ s.SkipsNothing a := by
  by_cases ha : a = .commit
  · subst ha
    exact keepsPromise_commit hacc h
  · have hs : s.SkipsNothing a := by cases a <;> first | exact trivial | exact absurd rfl ha
    exact ⟨fun _ => hs, fun _ s' hs' => h.step ha hs'⟩

/-- **At-least-once processing**, exactly. A run of the consumer keeps every record below a
committed offset handled if and only if no commit of it goes through in a session with a failed
record that no delivery has handled. -/
theorem at_least_once (as : List (ConsumerAction π)) :
    Along step KeepsPromise init as ↔ Along step SkipsNothing init as :=
  along_iff (I := fun s : ConsumerState π => (∀ c ∈ s.session, Accounts s c) ∧ s.AtLeastOnce)
    (fun h hk hs => ⟨accounts_step h.1 hs, hk _ hs⟩) (fun h => keepsPromise_iff h.1 h.2)
    ⟨nofun, nofun⟩

/-- The handler raises on the first record and returns on the second. -/
def skipRun : List (ConsumerAction Unit) :=
  [.append (), .append (), .start, .take (), .handlerRaises, .take (), .handlerReturns, .commit]

/-- **A failure can be committed.** The committed offset passes a record that no handler has
handled, and a restart does not deliver it again. -/
theorem failure_committed : ∃ s, run step init skipRun = some s ∧ ¬ s.AtLeastOnce := by
  refine ⟨_, rfl, fun h => ?_⟩
  have := h () 0 (by decide)
  revert this
  decide

end ConsumerState

end EventSphere.Kafka
