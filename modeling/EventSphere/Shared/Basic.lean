import EventSphere.UnitOfWork.Prog
import Mathlib.Data.List.Sort
import Mathlib.Data.Multiset.Basic

/-!
# Identifiers, enums and errors shared by the services

The vocabulary of `services/shared`: UUIDs with their canonical text, the status enums of
`enums.py`, the texts that a column holds, and the domain errors of `errors.py`.
-/

namespace EventSphere

/-! ## UUIDs -/

/-- A UUID, as the 128-bit number it is. -/
structure UUID where
  bits : BitVec 128
  deriving DecidableEq, Repr

namespace UUID

/-- The lower-case hexadecimal digits of a number, most significant first, `n` of them. -/
def hex (x : ℕ) : ℕ → String
  | 0 => ""
  | n + 1 => hex (x / 16) n ++ String.singleton (Nat.digitChar (x % 16))

/-- `str(uuid)`: 32 hexadecimal digits in groups of 8, 4, 4, 4 and 12. -/
def str (u : UUID) : String :=
  let x := u.bits.toNat
  hex (x >>> 96) 8 ++ "-" ++ hex (x >>> 80) 4 ++ "-" ++ hex (x >>> 64) 4 ++ "-" ++
    hex (x >>> 48) 4 ++ "-" ++ hex x 12

instance : ToString UUID := ⟨str⟩

/-- The order of the numbers. -/
def le (u v : UUID) : Prop := u.bits.toNat ≤ v.bits.toNat

instance : DecidableRel le := fun u v => inferInstanceAs (Decidable (u.bits.toNat ≤ v.bits.toNat))

instance : Std.Antisymm le where
  antisymm u v h1 h2 := by
    obtain ⟨u⟩ := u
    obtain ⟨v⟩ := v
    exact congrArg UUID.mk (BitVec.eq_of_toNat_eq (Nat.le_antisymm h1 h2))

instance : IsTrans UUID le where
  trans _ _ _ h1 h2 := Nat.le_trans h1 h2

instance : Std.Total le where
  total u v := Nat.le_total u.bits.toNat v.bits.toNat

end UUID

/-- A database that scans in the order of the keys. -/
def ScanOrder.ascending : ScanOrder UUID where
  order s := Quot.liftOn s.val (List.insertionSort UUID.le) fun _ _ h =>
    List.Perm.eq_of_pairwise' (List.pairwise_insertionSort _ _) (List.pairwise_insertionSort _ _)
      ((List.perm_insertionSort _ _).trans (h.trans (List.perm_insertionSort _ _).symm))
  nodup s := by
    obtain ⟨⟨l⟩, hl⟩ := s
    exact (List.perm_insertionSort UUID.le l).nodup_iff.2 hl
  mem_order {s i} := by
    obtain ⟨⟨l⟩, hl⟩ := s
    exact (List.perm_insertionSort UUID.le l).mem_iff

/-! ## Enums -/

/-- Reference: `ReservationStatus` (`enums.py:25`). -/
inductive ReservationStatus where
  | pending
  | confirmed
  | released
  | expired
  deriving DecidableEq, Repr

/-- Reference: `OrderStatus` (`enums.py:18`). -/
inductive OrderStatus where
  | pending
  | confirmed
  | cancelled
  | expired
  deriving DecidableEq, Repr

/-- The value a `StrEnum` member is persisted and printed as. -/
def OrderStatus.value : OrderStatus → String
  | pending => "pending"
  | confirmed => "confirmed"
  | cancelled => "cancelled"
  | expired => "expired"

/-! ## Texts -/

/-- The character that PostgreSQL stores in no text. -/
def nul : Char := Char.ofNat 0

/-- What a `String(255)` column holds. -/
def FitsString (s : String) : Prop := s.length ≤ 255 ∧ nul ∉ s.toList

instance (s : String) : Decidable (FitsString s) := inferInstanceAs (Decidable (_ ∧ _))

/-! ## Errors -/

/-- Reference: the subclasses of `DomainError` (`errors.py:12`), with their messages, and the base
class itself, which the gRPC client raises for an unclassified status. -/
inductive DomainError where
  | notFound (msg : String)
  | conflict (msg : String)
  | capacityExceeded (msg : String)
  | validation (msg : String)
  | authentication (msg : String)
  | authorization (msg : String)
  | other (msg : String)
  deriving DecidableEq, Repr

end EventSphere
