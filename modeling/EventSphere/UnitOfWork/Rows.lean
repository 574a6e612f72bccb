import EventSphere.UnitOfWork.Coherence

/-!
# A property of every plain row

`Prog.Keeps P Q R` says of a program alone: as long as every plain row that it reads satisfies `P`,
so does every one that it writes, and what it returns satisfies `Q` and what it raises `R`. If every
program keeps `P`, every plain row in the tables, in the sessions and in the row versions satisfies
it at any point of any interleaving, and whatever has ended has ended as its program promises
(`World.Rows`).
-/

set_option linter.unusedSectionVars false

namespace EventSphere

variable {c ρ κ τ ι ε α β : Type} [PrimaryKey ρ κ] [PrimaryKey τ ι] [DecidableEq κ] [DecidableEq ι]
  [DecidableEq ρ] [DecidableEq τ] [Versioned ρ] [ForeignKey τ κ]

/-! ## Programs -/

namespace Prog

/-- The program writes rows that satisfy `P`, if it reads such rows, and ends as `Q` and `R` say. -/
def Keeps (P : τ → Prop) (Q : α → Prop) (R : ε → Prop) : Prog ρ κ τ ι ε α → Prop
  | ret a => Q a
  | raise e => R e
  | clock k => ∀ t, (k t).Keeps P Q R
  | uuid k => ∀ i, (k i).Keeps P Q R
  | getVersioned _ k => ∀ r, (k r).Keeps P Q R
  | getPlain _ k => ∀ r : Option τ, (∀ x ∈ r, P x) → (k r).Keeps P Q R
  | select _ _ k => ∀ rs : List τ, (∀ x ∈ rs, P x) → (k rs).Keeps P Q R
  | assignPlain row k | addPlain row k => P row ∧ k.Keeps P Q R
  | assignVersioned _ k | addVersioned _ k | rollback k => k.Keeps P Q R
  | flush k => ∀ e, (k e).Keeps P Q R

/-- A program that keeps a property and ends well keeps it with every weaker end. -/
theorem Keeps.mono {P : τ → Prop} {Q Q' : α → Prop} {R R' : ε → Prop} {p : Prog ρ κ τ ι ε α}
    (h : p.Keeps P Q R) (hQ : ∀ a, Q a → Q' a) (hR : ∀ e, R e → R' e) : p.Keeps P Q' R' := by
  induction p with
  | ret a => exact hQ a h
  | raise e => exact hR e h
  | clock k ih | uuid k ih | getVersioned key k ih => exact fun x => ih x (h x)
  | getPlain key k ih => exact fun r hr => ih r (h r hr)
  | select q limit k ih => exact fun rs hrs => ih rs (h rs hrs)
  | assignPlain row k ih | addPlain row k ih => exact ⟨h.1, ih h.2⟩
  | assignVersioned row k ih | addVersioned row k ih | rollback k ih => exact ih h
  | flush k ih => exact fun e => ih e (h e)

/-- **Sequencing.** The second program keeps what it has to from whatever the first returns. -/
theorem keeps_bind {P : τ → Prop} {Q : β → Prop} {R : ε → Prop} {p : Prog ρ κ τ ι ε α}
    {f : α → Prog ρ κ τ ι ε β} (h : p.Keeps P (fun a => (f a).Keeps P Q R) R) :
    (p >>= f).Keeps P Q R := by
  induction p with
  | ret | raise => exact h
  | clock k ih | uuid k ih | getVersioned key k ih => exact fun x => ih x (h x)
  | getPlain key k ih => exact fun r hr => ih r (h r hr)
  | select q limit k ih => exact fun rs hrs => ih rs (h rs hrs)
  | assignPlain row k ih | addPlain row k ih => exact ⟨h.1, ih h.2⟩
  | assignVersioned row k ih | addVersioned row k ih | rollback k ih => exact ih h
  | flush k ih => exact fun e => ih e (h e)

end Prog

/-! ## Transactions -/

/-- Every plain row that the transaction holds satisfies `P`. -/
structure Work.Rows (P : τ → Prop) (k : Work ρ τ) : Prop where
  loaded : ∀ {i r}, k.session.loadedPlain i = some r → P r
  dirty : ∀ {i r}, k.session.dirtyPlain.get i = some r → P r
  new : ∀ {i r}, k.session.newPlain.get i = some r → P r
  writes : ∀ {i r}, k.writes.plain.get i = some r → P r

section
variable [Framed τ] {P : τ → Prop} {db : Db ρ τ} {k k' : Work ρ τ}

/-- A transaction that holds no rows. -/
theorem Work.rows_empty (n : ℕ) : Work.Rows P (⟨.empty, .empty, n⟩ : Work ρ τ) where
  loaded := nofun
  dirty := nofun
  new := nofun
  writes := nofun

/-- The rows that the transaction sees. -/
theorem Work.Rows.view (h : k.Rows P) (hdb : ∀ {i r}, db.plain.get i = some r → P r) {i : ι} {r : τ}
    (hr : (k.view db).plain.get i = some r) : P r := by
  rcases Option.or_eq_some_iff.1 hr with hr | ⟨-, hr⟩
  · exact h.writes hr
  · exact hdb hr

/-- The object of a row. -/
theorem Work.Rows.obj (h : k.Rows P) {i : ι} {r : τ} (hr : k.session.objPlain i = some r) :
    P r := by
  rcases Option.or_eq_some_iff.1 hr with hr | ⟨-, hr⟩
  · exact h.dirty hr
  · exact h.loaded hr

/-- The rows of a flush. -/
theorem Work.Rows.pending (h : k.Rows P) {i : ι} {r : τ}
    (hr : k.session.pending.plain.get i = some r) : P r := by
  rcases Session.pending_plain hr with hr | hr
  · exact h.new hr
  · exact h.dirty hr

/-- The transaction after a flush. -/
theorem Work.Rows.flushed (h : k.Rows P) : k.flushed.Rows P where
  loaded {i r} hr := by
    rcases Option.or_eq_some_iff.1 hr with hr | ⟨-, hr⟩
    · exact h.pending hr
    · exact h.loaded hr
  dirty := nofun
  new := nofun
  writes {i r} hr := by
    rcases Option.or_eq_some_iff.1 hr with hr | ⟨-, hr⟩
    · exact h.pending hr
    · exact h.writes hr

/-- The transaction after a query. -/
theorem Work.Rows.loadAll (h : k.Rows P) {rs : List τ} (hrs : ∀ r ∈ rs, P r) :
    Work.Rows P { k with session := k.session.loadAll rs } where
  loaded {i r} hr := by
    rcases Session.loadedPlain_loadAll hr with hr | ⟨hr, -⟩
    · exact h.loaded hr
    · exact hrs r hr
  dirty {i r} hr := by
    rw [Session.loadAll_eq] at hr
    exact h.dirty hr
  new {i r} hr := by
    rw [Session.loadAll_eq] at hr
    exact h.new hr
  writes := h.writes

/-- The transaction after an assignment. -/
theorem Work.Rows.assignPlain (h : k.Rows P) {row : τ} (hrow : P row) :
    Work.Rows P { k with session := k.session.assignPlain row } := by
  unfold Session.assignPlain
  split
  · refine ⟨h.loaded, fun {i r} hr => ?_, h.new, h.writes⟩
    rw [Table.get_erase] at hr
    split at hr
    · cases hr
    · exact h.dirty hr
  · refine ⟨h.loaded, fun {i r} hr => ?_, h.new, h.writes⟩
    rcases Table.get_set_inv hr with ⟨-, rfl⟩ | hr
    · exact hrow
    · exact h.dirty hr

/-- **One operation** of a program that keeps `P`, on tables of such rows, leaves one. -/
theorem Prog.Keeps.next {Q : α → Prop} {R : ε → Prop} {inp : Input ι} {p p' : Prog ρ κ τ ι ε α}
    (h : p.Keeps P Q R) (hk : k.Rows P) (hdb : ∀ {i r}, db.plain.get i = some r → P r)
    (hn : p.next db inp k = .continue p' k') : p'.Keeps P Q R ∧ k'.Rows P := by
  cases p with
  | ret a => simp only [Prog.next] at hn; split at hn <;> cases hn
  | raise e => cases hn
  | clock f | uuid f => cases hn; exact ⟨h _, hk⟩
  | getVersioned key f =>
    cases hn
    refine ⟨h _, ?_⟩
    unfold Work.getVersioned
    split
    · exact hk
    · split
      · exact ⟨hk.loaded, hk.dirty, hk.new, hk.writes⟩
      · exact hk
  | getPlain i f =>
    cases hn
    unfold Work.getPlain
    split
    · next r hr => exact ⟨h (some r) fun x hx => by cases hx; exact hk.obj hr, hk⟩
    · split
      · next r hr =>
        have hP := hk.view hdb hr
        refine ⟨h (some r) fun x hx => by cases hx; exact hP, ?_⟩
        exact hk.loadAll (List.forall_mem_singleton.2 hP)
      · refine ⟨h none fun x hx => ?_, hk⟩
        cases hx
  | select q limit f =>
    cases hn
    have hrows : ∀ r ∈ k.matching db inp.scan q limit, P r := fun r hr =>
      hk.view hdb ((k.matching_spec db inp.scan q limit).2.2 r hr).1
    refine ⟨h _ fun x hx => ?_, hk.loadAll hrows⟩
    obtain ⟨r, hr, rfl⟩ := List.mem_map.1 hx
    cases ho : k.session.objPlain (pk r) with
    | none => exact hrows r hr
    | some r' => exact hk.obj ho
  | assignVersioned row f =>
    cases hn
    refine ⟨h, ?_⟩
    unfold Session.assignVersioned
    split <;> exact ⟨hk.loaded, hk.dirty, hk.new, hk.writes⟩
  | assignPlain row f => cases hn; exact ⟨h.2, hk.assignPlain h.1⟩
  | addVersioned row f => cases hn; exact ⟨h, hk.loaded, hk.dirty, hk.new, hk.writes⟩
  | addPlain row f =>
    cases hn
    refine ⟨h.2, hk.loaded, hk.dirty, fun {i r} hr => ?_, hk.writes⟩
    rcases Table.get_set_inv hr with ⟨-, rfl⟩ | hr
    · exact h.1
    · exact hk.new hr
  | flush f =>
    simp only [Prog.next] at hn
    split at hn
    · next hf =>
      cases hn
      obtain ⟨-, -, rfl⟩ := Work.flush_ok hf
      exact ⟨h none, hk.flushed⟩
    · cases hn
      exact ⟨h _, Work.rows_empty _⟩
  | rollback f => cases hn; exact ⟨h, Work.rows_empty _⟩

end

/-! ## Interleaved -/

namespace World

/-- Every plain row satisfies `P`, every program keeps it, and every call has ended as `Q` and `R`
say. -/
structure Rows (P : τ → Prop) (Q : c → α → Prop) (R : c → ε → Prop) (w : World c ρ κ τ ι ε α) :
    Prop where
  db : ∀ {i r}, w.db.plain.get i = some r → P r
  running : ∀ {t : ℕ} {call : c} {p : Prog ρ κ τ ι ε α} {k : Work ρ τ},
    w.txs[t]? = some (.running call p k) → p.Keeps P (Q call) (R call) ∧ k.Rows P
  returned : ∀ {t : ℕ} {call : c} {a : α}, w.txs[t]? = some (.done call (.returned a)) → Q call a
  raised : ∀ {t : ℕ} {call : c} {e : ε}, w.txs[t]? = some (.done call (.raised e)) → R call e

variable [Framed τ] {P : τ → Prop} {Q : c → α → Prop} {R : c → ε → Prop}
  {body : c → Prog ρ κ τ ι ε α} {w w' : World c ρ κ τ ι ε α} {a : Action c ι}

theorem rows_init : (init : World c ρ κ τ ι ε α).Rows P Q R where
  db := nofun
  running := nofun
  returned := nofun
  raised := nofun

/-- One transaction moves on, and the others stay. -/
theorem Rows.put (h : w.Rows P Q R) {t : ℕ} {x : TxState c ρ κ τ ι ε α} {db : Db ρ τ}
    (hdb : ∀ {i r}, db.plain.get i = some r → P r)
    (hrun : ∀ {call p k}, x = .running call p k → p.Keeps P (Q call) (R call) ∧ k.Rows P)
    (hret : ∀ {call a}, x = .done call (.returned a) → Q call a)
    (hraise : ∀ {call e}, x = .done call (.raised e) → R call e) :
    Rows P Q R ⟨db, w.txs.set t x⟩ where
  db := hdb
  running ht := by
    rcases getElem?_set_inv ht with ⟨-, he⟩ | ⟨-, ht⟩
    · exact hrun he.symm
    · exact h.running ht
  returned ht := by
    rcases getElem?_set_inv ht with ⟨-, he⟩ | ⟨-, ht⟩
    · exact hret he.symm
    · exact h.returned ht
  raised ht := by
    rcases getElem?_set_inv ht with ⟨-, he⟩ | ⟨-, ht⟩
    · exact hraise he.symm
    · exact h.raised ht

/-- **Every step keeps the property**, if the program of a call that arrives does. -/
theorem Rows.step (h : w.Rows P Q R) (hs : w.step body a = some w')
    (hbody : ∀ call, a = .begin call → (body call).Keeps P (Q call) (R call)) : w'.Rows P Q R := by
  cases step_kind hs with
  | begin call =>
    refine ⟨h.db, fun ht => ?_, fun ht => ?_, fun ht => ?_⟩
    · rcases getElem?_append_singleton ht with ht | ⟨-, he⟩
      · exact h.running ht
      · cases he
        exact ⟨hbody call rfl, Work.rows_empty 0⟩
    · rcases getElem?_append_singleton ht with ht | ⟨-, he⟩
      · exact h.returned ht
      · cases he
    · rcases getElem?_append_singleton ht with ht | ⟨-, he⟩
      · exact h.raised ht
      · cases he
  | «continue» ht _ hn =>
    obtain ⟨hp, hk⟩ := h.running ht
    refine h.put h.db (fun he => ?_) nofun nofun
    cases he
    exact hp.next hk h.db hn
  | commit ht _ hn =>
    obtain ⟨rfl, k', hflush, rfl⟩ := returned_of_commit hn
    obtain ⟨hp, hk⟩ := h.running ht
    obtain ⟨-, -, rfl⟩ := Work.flush_ok hflush
    refine h.put (hk.flushed.view h.db) nofun (fun he => ?_) nofun
    cases he
    exact hp
  | stop ht hn =>
    rcases Prog.next_stop hn with ⟨e, rfl, rfl⟩ | ⟨e, rfl⟩
    · refine h.put h.db nofun nofun fun he => ?_
      cases he
      exact (h.running ht).1
    · exact h.put h.db nofun nofun nofun
  | abort => exact h.put h.db nofun nofun nofun

end World

end EventSphere
