import EventSphere.Base.Table

/-!
# Programs over a database session

The language of a repository method: reads and attribute assignments through an ORM session, a
flush that sends the pending changes to the database, and the exceptions in between. Two tables are
enough: one whose rows carry a version number that every `UPDATE` checks, and one without, whose
rows refer to rows of the first. A program is a tree of the session's operations, so the same method
can be run in isolation and interleaved, statement by statement, with other transactions.
-/

namespace EventSphere

/-- Rows with a version counter: `bump` is the row an accepted `UPDATE` leaves behind. -/
class Versioned (ρ : Type) {κ : outParam Type} [PrimaryKey ρ κ] where
  version : ρ → ℕ
  bump : ρ → ρ
  version_bump : ∀ r, version (bump r) = version r + 1
  pk_bump : ∀ r, pk (bump r) = pk r

export Versioned (version bump version_bump pk_bump)

attribute [simp] version_bump pk_bump

/-- Rows that refer to a row of another table. -/
class ForeignKey (τ : Type) (κ : outParam Type) where
  fk : τ → κ

export ForeignKey (fk)

/-- Points in time, in microseconds. -/
abbrev Instant := ℤ

/-- How a flush can fail: an `UPDATE` that matched no row, or a violated key constraint. -/
inductive FlushError where
  | staleData
  | integrity
  deriving DecidableEq, Repr

/-- A program over a session with a versioned table of rows `ρ` (keys `κ`) and a plain table of
rows `τ` (keys `ι`), which raises exceptions `ε` and returns an `α`. -/
inductive Prog (ρ κ τ ι ε α : Type) where
  /-- Return to the session scope, which commits. -/
  | ret (a : α)
  /-- Raise an exception to the session scope, which rolls back. -/
  | raise (e : ε)
  /-- Read the clock. -/
  | clock (k : Instant → Prog ρ κ τ ι ε α)
  /-- Draw a random key. -/
  | uuid (k : ι → Prog ρ κ τ ι ε α)
  /-- `session.get` on the versioned table. -/
  | getVersioned (key : κ) (k : Option ρ → Prog ρ κ τ ι ε α)
  /-- `session.get` on the plain table. -/
  | getPlain (key : ι) (k : Option τ → Prog ρ κ τ ι ε α)
  /-- `SELECT … WHERE p LIMIT n` on the plain table. -/
  | select (p : τ → Bool) (limit : ℕ) (k : List τ → Prog ρ κ τ ι ε α)
  /-- Assign the attributes of a loaded object of the versioned table. -/
  | assignVersioned (row : ρ) (k : Prog ρ κ τ ι ε α)
  /-- Assign the attributes of a loaded object of the plain table. -/
  | assignPlain (row : τ) (k : Prog ρ κ τ ι ε α)
  /-- `session.add` of a new row of the versioned table. -/
  | addVersioned (row : ρ) (k : Prog ρ κ τ ι ε α)
  /-- `session.add` of a new row of the plain table. -/
  | addPlain (row : τ) (k : Prog ρ κ τ ι ε α)
  /-- `session.flush`; the continuation receives the exception it raised, if any. -/
  | flush (k : Option FlushError → Prog ρ κ τ ι ε α)
  /-- `session.rollback`. -/
  | rollback (k : Prog ρ κ τ ι ε α)

namespace Prog

variable {ρ κ τ ι ε α β : Type}

/-- Sequencing: exceptions pass through, everything else continues. -/
def bind : Prog ρ κ τ ι ε α → (α → Prog ρ κ τ ι ε β) → Prog ρ κ τ ι ε β
  | ret a, f => f a
  | raise e, _ => raise e
  | clock k, f => clock fun t => (k t).bind f
  | uuid k, f => uuid fun i => (k i).bind f
  | getVersioned key k, f => getVersioned key fun r => (k r).bind f
  | getPlain key k, f => getPlain key fun r => (k r).bind f
  | select p n k, f => select p n fun rs => (k rs).bind f
  | assignVersioned row k, f => assignVersioned row (k.bind f)
  | assignPlain row k, f => assignPlain row (k.bind f)
  | addVersioned row k, f => addVersioned row (k.bind f)
  | addPlain row k, f => addPlain row (k.bind f)
  | flush k, f => flush fun e => (k e).bind f
  | rollback k, f => rollback (k.bind f)

instance : Monad (Prog ρ κ τ ι ε) where
  pure := ret
  bind := bind

/-- Sequencing is associative. -/
theorem bind_bind {γ : Type} (p : Prog ρ κ τ ι ε α) (f : α → Prog ρ κ τ ι ε β)
    (g : β → Prog ρ κ τ ι ε γ) : (p.bind f).bind g = p.bind fun a => (f a).bind g := by
  induction p with
  | ret a | raise e => rfl
  | _ => simp only [bind, *]

/-- A program followed by nothing. -/
theorem bind_ret (p : Prog ρ κ τ ι ε α) : p.bind ret = p := by
  induction p with
  | ret a | raise e => rfl
  | _ => simp only [bind, *]

instance : LawfulMonad (Prog ρ κ τ ι ε) :=
  LawfulMonad.mk' _ bind_ret (fun _ _ => rfl) bind_bind

/-! The equations below run a `do` block one operation at a time. -/

@[simp] theorem pure_eq (a : α) : (pure a : Prog ρ κ τ ι ε α) = ret a := rfl

@[simp] theorem ret_bind (a : α) (f : α → Prog ρ κ τ ι ε β) : ret a >>= f = f a := rfl

@[simp] theorem raise_bind (e : ε) (f : α → Prog ρ κ τ ι ε β) : raise e >>= f = raise e := rfl

@[simp] theorem clock_bind (k : Instant → Prog ρ κ τ ι ε α) (f : α → Prog ρ κ τ ι ε β) :
    clock k >>= f = clock fun t => k t >>= f := rfl

@[simp] theorem uuid_bind (k : ι → Prog ρ κ τ ι ε α) (f : α → Prog ρ κ τ ι ε β) :
    uuid k >>= f = uuid fun i => k i >>= f := rfl

@[simp] theorem getVersioned_bind (key : κ) (k : Option ρ → Prog ρ κ τ ι ε α)
    (f : α → Prog ρ κ τ ι ε β) :
    getVersioned key k >>= f = getVersioned key fun r => k r >>= f := rfl

@[simp] theorem getPlain_bind (key : ι) (k : Option τ → Prog ρ κ τ ι ε α)
    (f : α → Prog ρ κ τ ι ε β) : getPlain key k >>= f = getPlain key fun r => k r >>= f := rfl

@[simp] theorem select_bind (p : τ → Bool) (n : ℕ) (k : List τ → Prog ρ κ τ ι ε α)
    (f : α → Prog ρ κ τ ι ε β) : select p n k >>= f = select p n fun rs => k rs >>= f := rfl

@[simp] theorem assignVersioned_bind (row : ρ) (k : Prog ρ κ τ ι ε α)
    (f : α → Prog ρ κ τ ι ε β) : assignVersioned row k >>= f = assignVersioned row (k >>= f) := rfl

@[simp] theorem assignPlain_bind (row : τ) (k : Prog ρ κ τ ι ε α) (f : α → Prog ρ κ τ ι ε β) :
    assignPlain row k >>= f = assignPlain row (k >>= f) := rfl

@[simp] theorem addVersioned_bind (row : ρ) (k : Prog ρ κ τ ι ε α) (f : α → Prog ρ κ τ ι ε β) :
    addVersioned row k >>= f = addVersioned row (k >>= f) := rfl

@[simp] theorem addPlain_bind (row : τ) (k : Prog ρ κ τ ι ε α) (f : α → Prog ρ κ τ ι ε β) :
    addPlain row k >>= f = addPlain row (k >>= f) := rfl

@[simp] theorem flush_bind (k : Option FlushError → Prog ρ κ τ ι ε α)
    (f : α → Prog ρ κ τ ι ε β) : flush k >>= f = flush fun e => k e >>= f := rfl

@[simp] theorem rollback_bind (k : Prog ρ κ τ ι ε α) (f : α → Prog ρ κ τ ι ε β) :
    rollback k >>= f = rollback (k >>= f) := rfl

end Prog

/-! ## What the environment answers -/

/-- The order in which a query without `ORDER BY` returns its rows: any enumeration of the matching
keys, chosen by the database. -/
structure ScanOrder (ι : Type) where
  order : Finset ι → List ι
  nodup : ∀ s, (order s).Nodup
  mem_order : ∀ {s i}, i ∈ order s ↔ i ∈ s

/-- What the environment supplies to a program's next operation: the clock, a random key and the
scan order of a query. -/
structure Input (ι : Type) where
  now : Instant
  uuid : ι
  scan : ScanOrder ι

end EventSphere
