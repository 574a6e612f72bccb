import EventSphere.UnitOfWork.Session
import EventSphere.Base.Runs

/-!
# Interleaved transactions at `READ COMMITTED`

Any number of transactions over one database, interleaved operation by operation (`World.step`).
Every `SELECT` sees the latest commit and the transaction's own row versions. A flush locks the rows
it writes until its transaction ends; it waits for a row that another transaction has written and
not yet committed (`World.Free`), and it evaluates its `WHERE` clauses when it runs. A commit
publishes the row versions of its transaction at once.
-/

namespace EventSphere

/-- What the next operation of a program does: go on, commit, or end without a commit. -/
inductive Next (ρ κ τ ι ε α : Type) [PrimaryKey ρ κ] [PrimaryKey τ ι] where
  | continue (p : Prog ρ κ τ ι ε α) (w : Work ρ τ)
  | commit (a : α) (db : Db ρ τ)
  | stop (o : Outcome ε α)

/-- A transaction of the call `call`: running, or ended. -/
inductive TxState (c ρ κ τ ι ε α : Type) [PrimaryKey ρ κ] [PrimaryKey τ ι] where
  | running (call : c) (prog : Prog ρ κ τ ι ε α) (work : Work ρ τ)
  | done (call : c) (outcome : Outcome ε α)

/-- The committed tables and every transaction begun so far; a transaction's number is its place in
the list. -/
structure World (c ρ κ τ ι ε α : Type) [PrimaryKey ρ κ] [PrimaryKey τ ι] where
  db : Db ρ τ
  txs : List (TxState c ρ κ τ ι ε α)

/-- A call arrives, a transaction runs its next operation, or a transaction is ended from
outside. -/
inductive Action (c ι : Type) where
  | begin (call : c)
  | advance (t : ℕ) (inp : Input ι)
  | abort (t : ℕ)

/-- The call that arrives with an action. -/
def Action.arriving {c ι : Type} : Action c ι → Option c
  | begin call => some call
  | _ => none

variable {c ρ κ τ ι ε α : Type} [PrimaryKey ρ κ] [PrimaryKey τ ι]

/-- The call a transaction runs. -/
def TxState.call : TxState c ρ κ τ ι ε α → c
  | running call _ _ => call
  | done call _ => call

/-- The row versions a transaction holds locks on. -/
def TxState.writes : TxState c ρ κ τ ι ε α → Db ρ τ
  | running _ _ work => work.writes
  | done _ _ => .empty

variable [DecidableEq κ] [DecidableEq ι] [DecidableEq ρ] [DecidableEq τ] [Versioned ρ]
  [ForeignKey τ κ]

namespace Prog

/-- The rows the next operation writes; the commit flushes first. -/
def locks : Prog ρ κ τ ι ε α → Work ρ τ → Db ρ τ
  | ret _, w | flush _, w => w.session.pending
  | _, _ => .empty

/-- The next operation of a program. -/
def next (db : Db ρ τ) (inp : Input ι) : Prog ρ κ τ ι ε α → Work ρ τ → Next ρ κ τ ι ε α
  | ret a, w =>
    match w.flush db with
    | .ok w' => .commit a (w'.view db)
    | .error e => .stop (.failed e)
  | raise e, _ => .stop (.raised e)
  | clock k, w => .continue (k inp.now) w
  | uuid k, w => .continue (k inp.uuid) w
  | getVersioned key k, w => .continue (k (w.getVersioned db key).1) (w.getVersioned db key).2
  | getPlain key k, w => .continue (k (w.getPlain db key).1) (w.getPlain db key).2
  | select p limit k, w =>
    .continue (k (w.select db inp.scan p limit).1) (w.select db inp.scan p limit).2
  | assignVersioned row k, w => .continue k { w with session := w.session.assignVersioned row }
  | assignPlain row k, w => .continue k { w with session := w.session.assignPlain row }
  | addVersioned row k, w => .continue k { w with session := w.session.addVersioned row }
  | addPlain row k, w => .continue k { w with session := w.session.addPlain row }
  | flush k, w =>
    match w.flush db with
    | .ok w' => .continue (k none) w'
    | .error e => .continue (k (some e)) (w.fail e)
  | rollback k, w => .continue k w.rollback

/-- Isolated execution is the next operation followed by the rest. -/
theorem exec_next (db : Db ρ τ) (inp : Input ι) (p : Prog ρ κ τ ι ε α) (w : Work ρ τ) :
    p.exec db inp w =
      match p.next db inp w with
      | .continue p' w' => p'.exec db inp w'
      | .commit a db' => (.returned a, db')
      | .stop o => (o, db) := by
  cases p with
  | ret a => simp only [exec, next]; cases w.flush db <;> rfl
  | flush k => simp only [exec, next]; cases w.flush db <;> rfl
  | _ => rfl

/-- The tables that a transaction sees after its next operation, if that is an accepted flush. -/
def seen (db : Db ρ τ) : Prog ρ κ τ ι ε α → Work ρ τ → List (Db ρ τ)
  | ret _, w | flush _, w =>
    match w.flush db with
    | .ok w' => [w'.view db]
    | .error _ => []
  | _, _ => []

/-- The flushes of isolated execution are the next one, if there is one, and those of the rest. -/
theorem flushes_next (db : Db ρ τ) (inp : Input ι) (p : Prog ρ κ τ ι ε α) (w : Work ρ τ) :
    p.flushes db inp w = p.seen db w ++
      match p.next db inp w with
      | .continue p' w' => p'.flushes db inp w'
      | _ => [] := by
  cases p with
  | ret a => simp only [flushes, seen, next]; cases w.flush db <;> rfl
  | flush k => simp only [flushes, seen, next]; cases w.flush db <;> rfl
  | _ => rfl

/-- A transaction that ends without a commit has raised, or the flush of its commit has failed. -/
theorem next_stop {db : Db ρ τ} {inp : Input ι} {p : Prog ρ κ τ ι ε α} {k : Work ρ τ}
    {o : Outcome ε α} (h : p.next db inp k = .stop o) :
    (∃ e, p = raise e ∧ o = .raised e) ∨ ∃ e, o = .failed e := by
  cases p with
  | raise e => cases h; exact .inl ⟨e, rfl, rfl⟩
  | ret b =>
    simp only [Prog.next] at h
    split at h
    · cases h
    · next e _ => cases h; exact .inr ⟨e, rfl⟩
  | flush f => simp only [Prog.next] at h; split at h <;> cases h
  | _ => cases h

end Prog

namespace World

/-- The world before the first call. -/
def init : World c ρ κ τ ι ε α := ⟨.empty, []⟩

/-- The row versions held by transaction `t`. -/
def writesOf (w : World c ρ κ τ ι ε α) (t : ℕ) : Db ρ τ := (w.txs[t]?).elim .empty TxState.writes

/-- No transaction but `t` holds a lock on a row of `d`. -/
def Free (w : World c ρ κ τ ι ε α) (t : ℕ) (d : Db ρ τ) : Prop :=
  ∀ t' < w.txs.length, t' ≠ t → Disjoint (w.writesOf t').versioned.keys d.versioned.keys ∧
    Disjoint (w.writesOf t').plain.keys d.plain.keys

instance (w : World c ρ κ τ ι ε α) (t : ℕ) (d : Db ρ τ) : Decidable (w.Free t d) :=
  inferInstanceAs (Decidable (∀ t' < w.txs.length, _))

/-- Replace the state of transaction `t`. -/
def put (w : World c ρ κ τ ι ε α) (t : ℕ) (x : TxState c ρ κ τ ι ε α) : World c ρ κ τ ι ε α :=
  { w with txs := w.txs.set t x }

/-- One step of the interleaved system. -/
def step (body : c → Prog ρ κ τ ι ε α) (w : World c ρ κ τ ι ε α) :
    Action c ι → Option (World c ρ κ τ ι ε α)
  | .begin call => some { w with txs := w.txs ++ [.running call (body call) .init] }
  | .advance t inp =>
    match w.txs[t]? with
    | some (.running call prog work) =>
      if w.Free t (prog.locks work) then
        match prog.next w.db inp work with
        | .continue prog' work' => some (w.put t (.running call prog' work'))
        | .commit a db' => some { w.put t (.done call (.returned a)) with db := db' }
        | .stop o => some (w.put t (.done call o))
      else none
    | _ => none
  | .abort t =>
    match w.txs[t]? with
    | some (.running call _ _) => some (w.put t (.done call .aborted))
    | _ => none

/-! ## What a step can do -/

variable {body : c → Prog ρ κ τ ι ε α} {w w' : World c ρ κ τ ι ε α} {t : ℕ} {inp : Input ι}
  {call : c}

/-- The kinds of steps, with everything each of them does to the world. -/
inductive StepKind (body : c → Prog ρ κ τ ι ε α) (w : World c ρ κ τ ι ε α) :
    Action c ι → World c ρ κ τ ι ε α → Prop
  | begin (call : c) :
      StepKind body w (.begin call) ⟨w.db, w.txs ++ [.running call (body call) .init]⟩
  | continue {t : ℕ} {inp : Input ι} {call : c} {p p' : Prog ρ κ τ ι ε α} {k k' : Work ρ τ}
      (ht : w.txs[t]? = some (.running call p k)) (hf : w.Free t (p.locks k))
      (hn : p.next w.db inp k = .continue p' k') :
      StepKind body w (.advance t inp) ⟨w.db, w.txs.set t (.running call p' k')⟩
  | commit {t : ℕ} {inp : Input ι} {call : c} {p : Prog ρ κ τ ι ε α} {k : Work ρ τ} {a : α}
      {db' : Db ρ τ} (ht : w.txs[t]? = some (.running call p k)) (hf : w.Free t (p.locks k))
      (hn : p.next w.db inp k = .commit a db') :
      StepKind body w (.advance t inp) ⟨db', w.txs.set t (.done call (.returned a))⟩
  | stop {t : ℕ} {inp : Input ι} {call : c} {p : Prog ρ κ τ ι ε α} {k : Work ρ τ}
      {o : Outcome ε α} (ht : w.txs[t]? = some (.running call p k))
      (hn : p.next w.db inp k = .stop o) :
      StepKind body w (.advance t inp) ⟨w.db, w.txs.set t (.done call o)⟩
  | abort {t : ℕ} {call : c} {p : Prog ρ κ τ ι ε α} {k : Work ρ τ}
      (ht : w.txs[t]? = some (.running call p k)) :
      StepKind body w (.abort t) ⟨w.db, w.txs.set t (.done call .aborted)⟩

/-- Every step is of one of the kinds. -/
theorem step_kind {a : Action c ι} (h : w.step body a = some w') : StepKind body w a w' := by
  cases a with
  | begin call => cases h; exact .begin call
  | advance t inp =>
    simp only [step] at h
    split at h
    · next call p k ht =>
      split at h
      · next hf =>
        split at h
        · next hn => cases h; exact .continue ht hf hn
        · next hn => cases h; exact .commit ht hf hn
        · next hn => cases h; exact .stop ht hn
      · cases h
    · cases h
  | abort t =>
    simp only [step] at h
    split at h
    · next ht => cases h; exact .abort ht
    · cases h

/-- Only a commit returns a value. -/
theorem returned_of_commit {p : Prog ρ κ τ ι ε α} {k : Work ρ τ} {a : α} {db db' : Db ρ τ}
    (h : p.next db inp k = .commit a db') :
    p = .ret a ∧ ∃ k', k.flush db = .ok k' ∧ db' = k'.view db := by
  cases p with
  | ret b =>
    simp only [Prog.next] at h
    split at h
    · next k' hk => cases h; exact ⟨rfl, k', hk, rfl⟩
    · cases h
  | flush f => simp only [Prog.next] at h; split at h <;> cases h
  | _ => cases h

end World

end EventSphere
