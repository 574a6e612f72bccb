import EventSphere.UnitOfWork.Prog

/-!
# Sessions, flushes and isolated execution

A session keeps an identity map: the object of a row, once read, is handed out again without a new
`SELECT`. Assigned attributes and added rows wait in the session until a flush, which turns them
into row versions of the transaction (`Work.writes`) that only a commit makes visible to others. An
`UPDATE` of the versioned table matches only the version the session read; a mismatch is
`FlushError.staleData` and the whole transaction is rolled back. An object whose attributes are
assigned their old values is not dirty and is not written.

`Prog.exec` runs a program as one transaction with nobody else around.
-/

set_option linter.unusedSectionVars false

namespace EventSphere

/-- The two tables of a database; also the uncommitted row versions of a transaction. -/
structure Db (ρ τ : Type) {κ ι : Type} [PrimaryKey ρ κ] [PrimaryKey τ ι] where
  versioned : Table ρ
  plain : Table τ

/-- The state of a session: the rows as they were read or last written (`loaded`), the objects whose
attributes differ from that (`dirty`) and the added rows (`new`). -/
structure Session (ρ τ : Type) {κ ι : Type} [PrimaryKey ρ κ] [PrimaryKey τ ι] where
  loadedVersioned : κ → Option ρ
  loadedPlain : ι → Option τ
  dirtyVersioned : Table ρ
  dirtyPlain : Table τ
  newVersioned : Table ρ
  newPlain : Table τ

/-- The state of a running transaction. `conflicts` counts the flushes that lost a version race. -/
structure Work (ρ τ : Type) {κ ι : Type} [PrimaryKey ρ κ] [PrimaryKey τ ι] where
  session : Session ρ τ
  writes : Db ρ τ
  conflicts : ℕ

/-- How a call ends. `failed` is an exception of the flush that precedes the commit, `aborted` an
end from outside (a crash, a lost connection, a deadlock victim). -/
inductive Outcome (ε α : Type) where
  | returned (a : α)
  | raised (e : ε)
  | failed (e : FlushError)
  | aborted
  deriving DecidableEq

variable {ρ κ τ ι ε α : Type} [PrimaryKey ρ κ] [PrimaryKey τ ι] [DecidableEq κ] [DecidableEq ι]

namespace Db

@[ext] theorem ext {d d' : Db ρ τ} (h1 : d.versioned = d'.versioned) (h2 : d.plain = d'.plain) :
    d = d' := by
  cases d; cases d'; cases h1; cases h2; rfl

/-- The database without rows. -/
def empty : Db ρ τ := ⟨.empty, .empty⟩

@[simp] theorem empty_versioned : (empty : Db ρ τ).versioned = .empty := rfl

@[simp] theorem empty_plain : (empty : Db ρ τ).plain = .empty := rfl

/-- Row versions laid over a database. -/
def overlay (d w : Db ρ τ) : Db ρ τ :=
  ⟨d.versioned.overlay w.versioned, d.plain.overlay w.plain⟩

@[simp] theorem overlay_versioned (d w : Db ρ τ) :
    (d.overlay w).versioned = d.versioned.overlay w.versioned := rfl

@[simp] theorem overlay_plain (d w : Db ρ τ) : (d.overlay w).plain = d.plain.overlay w.plain := rfl

@[simp] theorem overlay_empty (d : Db ρ τ) : d.overlay empty = d := by
  ext1 <;> simp

theorem overlay_assoc (d w w' : Db ρ τ) : (d.overlay w).overlay w' = d.overlay (w.overlay w') := by
  ext1 <;> simp [Table.overlay_assoc]

end Db

namespace Session

/-- A new session. -/
def empty : Session ρ τ := ⟨fun _ => none, fun _ => none, .empty, .empty, .empty, .empty⟩

/-- The identity-mapped object of a versioned row, with its assigned attributes. -/
def objVersioned (σ : Session ρ τ) (k : κ) : Option ρ :=
  (σ.dirtyVersioned.get k).or (σ.loadedVersioned k)

/-- The identity-mapped object of a plain row, with its assigned attributes. -/
def objPlain (σ : Session ρ τ) (i : ι) : Option τ :=
  (σ.dirtyPlain.get i).or (σ.loadedPlain i)

/-- A read row enters the identity map, unless its object is already there. -/
def loadVersioned (σ : Session ρ τ) (r : ρ) : Session ρ τ :=
  { σ with
    loadedVersioned := fun k => (σ.loadedVersioned k).or (if k = pk r then some r else none) }

/-- A read row enters the identity map, unless its object is already there. -/
def loadPlain (σ : Session ρ τ) (r : τ) : Session ρ τ :=
  { σ with loadedPlain := fun i => (σ.loadedPlain i).or (if i = pk r then some r else none) }

/-- The rows of a query enter the identity map. -/
def loadAll (σ : Session ρ τ) (rs : List τ) : Session ρ τ := rs.foldl loadPlain σ

/-- Add a row to be inserted. -/
def addVersioned (σ : Session ρ τ) (r : ρ) : Session ρ τ :=
  { σ with newVersioned := σ.newVersioned.set r }

/-- Add a row to be inserted. -/
def addPlain (σ : Session ρ τ) (r : τ) : Session ρ τ := { σ with newPlain := σ.newPlain.set r }

section
variable [DecidableEq ρ] [DecidableEq τ]

/-- Assign the attributes of an object; assigning the values it was read with leaves it clean. -/
def assignVersioned (σ : Session ρ τ) (r : ρ) : Session ρ τ :=
  if σ.loadedVersioned (pk r) = some r then
    { σ with dirtyVersioned := σ.dirtyVersioned.erase (pk r) }
  else { σ with dirtyVersioned := σ.dirtyVersioned.set r }

/-- Assign the attributes of an object; assigning the values it was read with leaves it clean. -/
def assignPlain (σ : Session ρ τ) (r : τ) : Session ρ τ :=
  if σ.loadedPlain (pk r) = some r then { σ with dirtyPlain := σ.dirtyPlain.erase (pk r) }
  else { σ with dirtyPlain := σ.dirtyPlain.set r }

end

section
variable [Versioned ρ]

/-- The row versions a flush creates: the dirty objects, the versioned ones with a new version
number, and the added rows. -/
def pending (σ : Session ρ τ) : Db ρ τ :=
  ⟨(σ.dirtyVersioned.mapRows bump pk_bump).overlay σ.newVersioned, σ.dirtyPlain.overlay σ.newPlain⟩

/-- The session after a flush: the written rows are what the objects hold now. -/
def flushed (σ : Session ρ τ) : Session ρ τ where
  loadedVersioned k := (σ.pending.versioned.get k).or (σ.loadedVersioned k)
  loadedPlain i := (σ.pending.plain.get i).or (σ.loadedPlain i)
  dirtyVersioned := .empty
  dirtyPlain := .empty
  newVersioned := .empty
  newPlain := .empty

/-- Every `UPDATE` of a flush matches its row: the versioned rows with the version read, the plain
rows by key alone. -/
def UpdatesMatch (view : Db ρ τ) (σ : Session ρ τ) : Prop :=
  (∀ k ∈ σ.dirtyVersioned.keys,
    (view.versioned.get k).map version = (σ.dirtyVersioned.get k).map version) ∧
  σ.dirtyPlain.keys ⊆ view.plain.keys

/-- Every `INSERT` of a flush has a free primary key and an existing foreign key. -/
def InsertsFit [ForeignKey τ κ] (view : Db ρ τ) (σ : Session ρ τ) : Prop :=
  Disjoint σ.newVersioned.keys view.versioned.keys ∧ Disjoint σ.newPlain.keys view.plain.keys ∧
  ∀ i ∈ σ.newPlain.keys, ∀ k ∈ (σ.newPlain.get i).map fk,
    k ∈ view.versioned.keys ∪ σ.newVersioned.keys

instance (view : Db ρ τ) (σ : Session ρ τ) : Decidable (σ.UpdatesMatch view) :=
  inferInstanceAs (Decidable (_ ∧ _))

instance [ForeignKey τ κ] (view : Db ρ τ) (σ : Session ρ τ) : Decidable (σ.InsertsFit view) :=
  inferInstanceAs (Decidable (_ ∧ _ ∧ _))

end

end Session

namespace Work

/-- The state of a transaction that has just begun. -/
def init : Work ρ τ := ⟨.empty, .empty, 0⟩

/-- What the transaction sees: its own row versions over the committed rows. -/
def view (db : Db ρ τ) (w : Work ρ τ) : Db ρ τ := db.overlay w.writes

/-- A rollback drops the row versions and expires every object. -/
def rollback (w : Work ρ τ) : Work ρ τ := ⟨.empty, .empty, w.conflicts⟩

/-- `session.get` on the versioned table: the identity-mapped object, else a `SELECT`. -/
def getVersioned (db : Db ρ τ) (w : Work ρ τ) (k : κ) : Option ρ × Work ρ τ :=
  match w.session.objVersioned k with
  | some r => (some r, w)
  | none =>
    match (w.view db).versioned.get k with
    | some r => (some r, { w with session := w.session.loadVersioned r })
    | none => (none, w)

/-- `session.get` on the plain table: the identity-mapped object, else a `SELECT`. -/
def getPlain (db : Db ρ τ) (w : Work ρ τ) (i : ι) : Option τ × Work ρ τ :=
  match w.session.objPlain i with
  | some r => (some r, w)
  | none =>
    match (w.view db).plain.get i with
    | some r => (some r, { w with session := w.session.loadPlain r })
    | none => (none, w)

/-- The rows a limited query matches, in the order the database scans them. -/
def matching (db : Db ρ τ) (w : Work ρ τ) (scan : ScanOrder ι) (p : τ → Bool) (limit : ℕ) :
    List τ :=
  ((scan.order ((w.view db).plain.keys.filter fun i => ((w.view db).plain.get i).any p)).take
    limit).filterMap (w.view db).plain.get

/-- A query on the plain table: the rows are matched in the database, but a row that is already in
the identity map is returned as the object there. -/
def select (db : Db ρ τ) (w : Work ρ τ) (scan : ScanOrder ι) (p : τ → Bool) (limit : ℕ) :
    List τ × Work ρ τ :=
  let rows := w.matching db scan p limit
  (rows.map fun r => (w.session.objPlain (pk r)).getD r,
    { w with session := w.session.loadAll rows })

variable [Versioned ρ] [ForeignKey τ κ]

/-- The transaction after a flush that succeeded. -/
def flushed (w : Work ρ τ) : Work ρ τ :=
  { w with session := w.session.flushed, writes := w.writes.overlay w.session.pending }

/-- `session.flush`. -/
def flush (db : Db ρ τ) (w : Work ρ τ) : Except FlushError (Work ρ τ) :=
  if w.session.UpdatesMatch (w.view db) then
    if w.session.InsertsFit (w.view db) then
      .ok w.flushed
    else .error .integrity
  else .error .staleData

/-- What a failed flush leaves of the transaction. -/
def fail (w : Work ρ τ) (e : FlushError) : Work ρ τ :=
  { w.rollback with conflicts := if e = .staleData then w.conflicts + 1 else w.conflicts }

end Work

/-! ## Isolated execution -/

section
variable [Versioned ρ] [ForeignKey τ κ] [DecidableEq ρ] [DecidableEq τ]

/-- Run a program as one transaction that nobody interrupts: commit when it returns, roll back when
it raises. -/
def Prog.exec (db : Db ρ τ) (inp : Input ι) :
    Prog ρ κ τ ι ε α → Work ρ τ → Outcome ε α × Db ρ τ
  | .ret a, w =>
    match w.flush db with
    | .ok w' => (.returned a, w'.view db)
    | .error e => (.failed e, db)
  | .raise e, _ => (.raised e, db)
  | .clock k, w => (k inp.now).exec db inp w
  | .uuid k, w => (k inp.uuid).exec db inp w
  | .getVersioned key k, w =>
    (k (w.getVersioned db key).1).exec db inp (w.getVersioned db key).2
  | .getPlain key k, w => (k (w.getPlain db key).1).exec db inp (w.getPlain db key).2
  | .select p limit k, w =>
    (k (w.select db inp.scan p limit).1).exec db inp (w.select db inp.scan p limit).2
  | .assignVersioned row k, w =>
    k.exec db inp { w with session := w.session.assignVersioned row }
  | .assignPlain row k, w => k.exec db inp { w with session := w.session.assignPlain row }
  | .addVersioned row k, w => k.exec db inp { w with session := w.session.addVersioned row }
  | .addPlain row k, w => k.exec db inp { w with session := w.session.addPlain row }
  | .flush k, w =>
    match w.flush db with
    | .ok w' => (k none).exec db inp w'
    | .error e => (k (some e)).exec db inp (w.fail e)
  | .rollback k, w => k.exec db inp w.rollback

/-- The tables that the transaction of `Prog.exec` sees after each of its flushes. -/
def Prog.flushes (db : Db ρ τ) (inp : Input ι) : Prog ρ κ τ ι ε α → Work ρ τ → List (Db ρ τ)
  | .ret _, w =>
    match w.flush db with
    | .ok w' => [w'.view db]
    | .error _ => []
  | .raise _, _ => []
  | .clock k, w => (k inp.now).flushes db inp w
  | .uuid k, w => (k inp.uuid).flushes db inp w
  | .getVersioned key k, w =>
    (k (w.getVersioned db key).1).flushes db inp (w.getVersioned db key).2
  | .getPlain key k, w => (k (w.getPlain db key).1).flushes db inp (w.getPlain db key).2
  | .select p limit k, w =>
    (k (w.select db inp.scan p limit).1).flushes db inp (w.select db inp.scan p limit).2
  | .assignVersioned row k, w =>
    k.flushes db inp { w with session := w.session.assignVersioned row }
  | .assignPlain row k, w => k.flushes db inp { w with session := w.session.assignPlain row }
  | .addVersioned row k, w => k.flushes db inp { w with session := w.session.addVersioned row }
  | .addPlain row k, w => k.flushes db inp { w with session := w.session.addPlain row }
  | .flush k, w =>
    match w.flush db with
    | .ok w' => w'.view db :: (k none).flushes db inp w'
    | .error e => (k (some e)).flushes db inp (w.fail e)
  | .rollback k, w => k.flushes db inp w.rollback

/-- Run a program as a transaction of its own. -/
def Prog.atomically (db : Db ρ τ) (inp : Input ι) (p : Prog ρ κ τ ι ε α) : Outcome ε α × Db ρ τ :=
  p.exec db inp .init

end

end EventSphere
