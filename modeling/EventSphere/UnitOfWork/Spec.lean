import EventSphere.UnitOfWork.World

/-!
# What a program promises, whatever the database answers

`Spec.Safe` is a weakest precondition over the tree of a program: it runs the program symbolically
and lets every `SELECT` return any row the database could hold. What the program is held to is what
it flushes (`Session.Disciplined` and the `flush` field of its `Spec`), what it returns and what it
raises. The judgement speaks of one program alone; `EventSphere.UnitOfWork.Coherence` carries it
through the interleaved system.

The versioned row is the root of the plain rows that refer to it. A disciplined flush never writes a
plain row without its root, and never changes the columns of a plain row that `Framed.frame` lists.
-/

namespace EventSphere

/-- Plain rows with immutable columns (`frame`), among them the foreign key, and a condition on
these that every stored row satisfies. -/
class Framed (τ : Type) {κ : outParam Type} [ForeignKey τ κ] where
  Frame : Type
  frame : τ → Frame
  valid : Frame → Prop
  fk_eq : ∀ {r r' : τ}, frame r = frame r' → fk r = fk r'

export Framed (frame valid)

variable {ρ κ τ ι ε α β : Type} [PrimaryKey ρ κ] [PrimaryKey τ ι] [DecidableEq κ] [DecidableEq ι]
  [DecidableEq ρ] [DecidableEq τ] [Versioned ρ] [ForeignKey τ κ]

/-- Nothing is waiting for a flush. -/
structure Session.Clean (σ : Session ρ τ) : Prop where
  dirtyVersioned : σ.dirtyVersioned = .empty
  dirtyPlain : σ.dirtyPlain = .empty
  newVersioned : σ.newVersioned = .empty
  newPlain : σ.newPlain = .empty

/-- The session conditions on a flush: `update` and `part` say that dirty objects were read and keep
their version and immutable columns, `cover` that a plain row is written together with its root,
`valid` that every written plain row may be stored. -/
structure Session.Disciplined [Framed τ] (σ : Session ρ τ) : Prop where
  update : ∀ {k r}, σ.dirtyVersioned.get k = some r →
    ∃ r₀, σ.loadedVersioned k = some r₀ ∧ version r = version r₀
  part : ∀ {i r}, σ.dirtyPlain.get i = some r →
    ∃ r₀, σ.loadedPlain i = some r₀ ∧ frame r = frame r₀
  cover : ∀ {i r}, σ.pending.plain.get i = some r → fk r ∈ σ.pending.versioned.keys
  valid : ∀ {i r}, σ.pending.plain.get i = some r → valid (frame r)

/-- What a program is held to: the states in which it may flush, the results it may return and the
exceptions it may raise, each with the state of the transaction there. -/
structure Spec (ρ τ ε α : Type) {κ ι : Type} [PrimaryKey ρ κ] [PrimaryKey τ ι] where
  flush : Work ρ τ → Prop
  ret : α → Work ρ τ → Prop
  raise : ε → Work ρ τ → Prop

namespace Spec

variable [Framed τ]

/-- The program meets the specification from a state of its transaction, whatever the `SELECT`s, the
clock and the random keys answer. A row read for the first time is any row with its key; a root may
be missing only while no loaded row refers to it. -/
def Safe (S : Spec ρ τ ε α) : Prog ρ κ τ ι ε α → Work ρ τ → Prop
  | .ret a, w => w.session.Clean ∧ S.ret a w
  | .raise e, w => S.raise e w
  | .clock k, w => ∀ t, S.Safe (k t) w
  | .uuid k, w => ∀ i, S.Safe (k i) w
  | .getVersioned key k, w =>
    match w.session.objVersioned key with
    | some r => S.Safe (k (some r)) w
    | none =>
      (∀ r, pk r = key → S.Safe (k (some r)) { w with session := w.session.loadVersioned r }) ∧
      ((∀ i r, w.session.loadedPlain i = some r → fk r ≠ key) → S.Safe (k none) w)
  | .getPlain key k, w =>
    match w.session.objPlain key with
    | some r => S.Safe (k (some r)) w
    | none =>
      (∀ r, pk r = key → valid (frame r) →
        S.Safe (k (some r)) { w with session := w.session.loadPlain r }) ∧
      S.Safe (k none) w
  | .select p limit k, w =>
    ∀ rs : List τ, (rs.map pk).Nodup → rs.length ≤ limit →
      (∀ r ∈ rs, valid (frame r) ∧ p r = true) →
      S.Safe (k (rs.map fun r => (w.session.objPlain (pk r)).getD r))
        { w with session := w.session.loadAll rs }
  | .assignVersioned row k, w => S.Safe k { w with session := w.session.assignVersioned row }
  | .assignPlain row k, w => S.Safe k { w with session := w.session.assignPlain row }
  | .addVersioned row k, w => S.Safe k { w with session := w.session.addVersioned row }
  | .addPlain row k, w => S.Safe k { w with session := w.session.addPlain row }
  | .flush k, w =>
    w.session.Disciplined ∧ S.flush w ∧ S.Safe (k none) w.flushed ∧
    ∀ e, S.Safe (k (some e)) (w.fail e)
  | .rollback k, w => S.Safe k w.rollback

/-- A program that meets a specification meets every weaker one. -/
theorem Safe.mono {S S' : Spec ρ τ ε α} (hflush : ∀ w, S.flush w → S'.flush w)
    (hret : ∀ a w, S.ret a w → S'.ret a w) (hraise : ∀ e w, S.raise e w → S'.raise e w)
    {p : Prog ρ κ τ ι ε α} {w : Work ρ τ} (h : S.Safe p w) : S'.Safe p w := by
  induction p generalizing w with
  | ret a => exact ⟨h.1, hret a w h.2⟩
  | raise e => exact hraise e w h
  | clock k ih => exact fun t => ih t (h t)
  | uuid k ih => exact fun i => ih i (h i)
  | getVersioned key k ih =>
    simp only [Safe] at h ⊢
    cases ho : w.session.objVersioned key with
    | some r => rw [ho] at h; exact ih _ h
    | none =>
      rw [ho] at h
      exact ⟨fun r hr => ih _ (h.1 r hr), fun hfk => ih _ (h.2 hfk)⟩
  | getPlain key k ih =>
    simp only [Safe] at h ⊢
    cases ho : w.session.objPlain key with
    | some r => rw [ho] at h; exact ih _ h
    | none =>
      rw [ho] at h
      exact ⟨fun r hr hv => ih _ (h.1 r hr hv), ih _ h.2⟩
  | select p limit k ih => exact fun rs h1 h2 h3 => ih _ (h rs h1 h2 h3)
  | assignVersioned row k ih => exact ih h
  | assignPlain row k ih => exact ih h
  | addVersioned row k ih => exact ih h
  | addPlain row k ih => exact ih h
  | flush k ih =>
    obtain ⟨h1, h2, h3, h4⟩ := h
    exact ⟨h1, hflush w h2, ih _ h3, fun e => ih _ (h4 e)⟩
  | rollback k ih => exact ih h

/-- **Sequencing.** A program followed by another is safe if the first is, up to its returns, and
the second is safe from whatever state the first returns in. -/
theorem safe_bind {S : Spec ρ τ ε β} {p : Prog ρ κ τ ι ε α} {f : α → Prog ρ κ τ ι ε β}
    {w : Work ρ τ} (h : Safe ⟨S.flush, fun a w => S.Safe (f a) w, S.raise⟩ p w) :
    S.Safe (p >>= f) w := by
  induction p generalizing w with
  | ret a => exact h.2
  | raise e => exact h
  | clock k ih => exact fun t => ih t (h t)
  | uuid k ih => exact fun i => ih i (h i)
  | getVersioned key k ih =>
    simp only [Prog.getVersioned_bind, Safe] at h ⊢
    cases ho : w.session.objVersioned key with
    | some r => rw [ho] at h; exact ih _ h
    | none =>
      rw [ho] at h
      exact ⟨fun r hr => ih _ (h.1 r hr), fun hfk => ih _ (h.2 hfk)⟩
  | getPlain key k ih =>
    simp only [Prog.getPlain_bind, Safe] at h ⊢
    cases ho : w.session.objPlain key with
    | some r => rw [ho] at h; exact ih _ h
    | none =>
      rw [ho] at h
      exact ⟨fun r hr hv => ih _ (h.1 r hr hv), ih _ h.2⟩
  | select p limit k ih => exact fun rs h1 h2 h3 => ih _ (h rs h1 h2 h3)
  | assignVersioned row k ih => exact ih h
  | assignPlain row k ih => exact ih h
  | addVersioned row k ih => exact ih h
  | addPlain row k ih => exact ih h
  | flush k ih =>
    obtain ⟨h1, h2, h3, h4⟩ := h
    exact ⟨h1, h2, ih _ h3, fun e => ih _ (h4 e)⟩
  | rollback k ih => exact ih h

end Spec

/-! ## Programs that only a flush can stop -/

/-- The program raises nothing, whatever its reads return, as long as its flushes are accepted. -/
def Prog.Succeeds : Prog ρ κ τ ι ε α → Prop
  | .ret _ => True
  | .raise _ => False
  | .clock k => ∀ t, (k t).Succeeds
  | .uuid k => ∀ i, (k i).Succeeds
  | .getVersioned _ k => ∀ r, (k r).Succeeds
  | .getPlain _ k => ∀ r, (k r).Succeeds
  | .select _ _ k => ∀ rs, (k rs).Succeeds
  | .assignVersioned _ k | .assignPlain _ k | .addVersioned _ k | .addPlain _ k | .rollback k =>
    k.Succeeds
  | .flush k => (k none).Succeeds

/-- What is left of such a program after an operation is one too. -/
theorem Prog.Succeeds.next {db : Db ρ τ} {inp : Input ι} {p p' : Prog ρ κ τ ι ε α} {k k' : Work ρ τ}
    (h : p.Succeeds) (hflush : ∀ f, p = .flush f → ∃ k₁, k.flush db = .ok k₁)
    (hn : p.next db inp k = .continue p' k') : p'.Succeeds := by
  cases p with
  | ret a => simp only [Prog.next] at hn; split at hn <;> cases hn
  | raise e => cases hn
  | clock f | uuid f | getVersioned key f | getPlain i f | select q limit f => cases hn; exact h _
  | assignVersioned row f | assignPlain row f | addVersioned row f | addPlain row f | rollback f =>
    cases hn
    exact h
  | flush f =>
    obtain ⟨k₁, hk⟩ := hflush f rfl
    simp only [Prog.next, hk] at hn
    cases hn
    exact h

end EventSphere
