import Mathlib.Data.Nat.Notation
import Mathlib.Order.BoundedOrder.Basic
import Mathlib.Order.Lattice

/-!
# Stores whose entries expire

A key-value store in which every entry is written with the moment it expires. Nothing removes an
expired entry; a lookup does not see it. An entry that is seen is a stored one whose moment has not
come (`Store.get_eq_some`), and that is all a proof needs of the clock. A store of numbers counts
(`Store.incr`).
-/

namespace EventSphere

/-- A value with the moment it expires. -/
structure Entry (α T : Type) where
  value : α
  expiresAt : T
  deriving DecidableEq, Repr

/-- A store of keys `κ` and values `α` over the time line `T`. -/
abbrev Store (κ α T : Type) := κ → Option (Entry α T)

namespace Store

variable {κ α T : Type}

/-- The store without entries. -/
def empty : Store κ α T := fun _ => none

section
variable [DecidableEq κ]

/-- Write an entry, whatever the key holds. -/
def set (s : Store κ α T) (k : κ) (e : Entry α T) : Store κ α T := Function.update s k (some e)

/-- Delete a key. -/
def del (s : Store κ α T) (k : κ) : Store κ α T := Function.update s k none

theorem set_apply (s : Store κ α T) (k k' : κ) (e : Entry α T) :
    s.set k e k' = if k' = k then some e else s k' := Function.update_apply ..

@[simp] theorem set_set (s : Store κ α T) (k : κ) (e e' : Entry α T) :
    (s.set k e).set k e' = s.set k e' := Function.update_idem ..

theorem del_apply (s : Store κ α T) (k k' : κ) :
    s.del k k' = if k' = k then none else s k' := Function.update_apply ..

end

variable [LinearOrder T] {s : Store κ α T} {now : T} {k k' : κ} {v : α}

/-- The value a lookup finds. -/
def get (s : Store κ α T) (now : T) (k : κ) : Option α :=
  (s k).bind fun e => if now < e.expiresAt then some e.value else none

/-- A lookup finds the value of an entry that has not expired. -/
theorem get_eq_some :
    s.get now k = some v ↔ ∃ e, s k = some e ∧ now < e.expiresAt ∧ e.value = v := by
  simp only [get, Option.bind_eq_some_iff]
  refine exists_congr fun e => and_congr_right fun _ => ?_
  split
  · next h => simp [h]
  · next h => simp [h]

/-- An entry that has not expired is found. -/
theorem get_of_entry {e : Entry α T} (h : s k = some e) (hnow : now < e.expiresAt) :
    s.get now k = some e.value :=
  get_eq_some.2 ⟨e, h, hnow, rfl⟩

@[simp] theorem get_empty (now : T) (k : κ) : (empty : Store κ α T).get now k = none := rfl

variable [DecidableEq κ]

/-- A deleted key is not found. -/
@[simp] theorem get_del_self (s : Store κ α T) (now : T) (k : κ) : (s.del k).get now k = none := by
  simp [get, del_apply]

/-! ## Counters -/

/-- Give an entry another moment to expire; a key that is not found is left alone. -/
def expire (s : Store κ α T) (now : T) (k : κ) (expiresAt : T) : Store κ α T :=
  match s k with
  | none => s
  | some e => if now < e.expiresAt then s.set k { e with expiresAt } else s

theorem expire_of_entry {e : Entry α T} (h : s k = some e) (hnow : now < e.expiresAt)
    (expiresAt : T) : s.expire now k expiresAt = s.set k { e with expiresAt } := by
  simp [expire, h, hnow]

variable [OrderTop T]

/-- Add one to a counter, and read it. A counter that is not found starts at zero and never expires;
one that is found keeps its moment. -/
def incr (s : Store κ ℕ T) (now : T) (k : κ) : ℕ × Store κ ℕ T :=
  match s k with
  | none => (1, s.set k ⟨1, ⊤⟩)
  | some e =>
    if now < e.expiresAt then (e.value + 1, s.set k { e with value := e.value + 1 })
    else (1, s.set k ⟨1, ⊤⟩)

theorem incr_of_none {s : Store κ ℕ T} (h : s k = none) (now : T) :
    s.incr now k = (1, s.set k ⟨1, ⊤⟩) := by
  simp [incr, h]

theorem incr_of_entry {s : Store κ ℕ T} {e : Entry ℕ T} (h : s k = some e)
    (hnow : now < e.expiresAt) :
    s.incr now k = (e.value + 1, s.set k { e with value := e.value + 1 }) := by
  simp [incr, h, hnow]

end Store

end EventSphere
