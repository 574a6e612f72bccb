import EventSphere.Base.Json
import EventSphere.Shared.Basic

/-!
# The text of a UUID

`UUID.str` writes the digits of a UUID in five groups; `UUID.read` reads them back
(`UUID.read_str`), so that two UUIDs with one text are the same (`UUID.str_injective`).
-/

namespace EventSphere

namespace UUID

/-- The digits of `UUID.hex`, as a list. -/
def hexChars (x : ℕ) : ℕ → List Char
  | 0 => []
  | n + 1 => hexChars (x / 16) n ++ [Nat.digitChar (x % 16)]

theorem toList_hex (x n : ℕ) : (hex x n).toList = hexChars x n := by
  induction n generalizing x with
  | zero => rfl
  | succ n ih => simp [hex, hexChars, ih]

/-- The digits of a number are those of its parts. -/
theorem hexChars_append (x n m : ℕ) :
    hexChars (x / 16 ^ m) n ++ hexChars x m = hexChars x (n + m) := by
  induction m generalizing x with
  | zero => simp [hexChars]
  | succ m ih =>
    have hdiv : x / 16 ^ (m + 1) = x / 16 / 16 ^ m := by
      rw [Nat.div_div_eq_div_mul, Nat.pow_succ']
    rw [hdiv, hexChars, ← List.append_assoc, ih]
    rfl

theorem length_hexChars (x n : ℕ) : (hexChars x n).length = n := by
  induction n generalizing x with
  | zero => rfl
  | succ n ih => simp [hexChars, ih]

/-- A digit is no dash. -/
theorem dash_notMem_hexChars (x n : ℕ) : '-' ∉ hexChars x n := by
  have hdigit : ∀ d < 16, Nat.digitChar d ≠ '-' := by decide
  induction n generalizing x with
  | zero => exact List.not_mem_nil
  | succ n ih =>
    intro h
    rcases List.mem_append.1 h with h | h
    · exact ih _ h
    · exact hdigit (x % 16) (Nat.mod_lt x (by decide)) (List.mem_singleton.1 h).symm

/-- The number that hexadecimal digits write. -/
def readHex (ds : List Char) : Option ℕ :=
  ds.foldlM (fun n c => (Json.hexDigit c).map (16 * n + ·)) 0

theorem readHex_hexChars (x n : ℕ) : readHex (hexChars x n) = some (x % 16 ^ n) := by
  have hdigit : ∀ d < 16, Json.hexDigit (Nat.digitChar d) = some d := by decide
  induction n generalizing x with
  | zero => simp [hexChars, readHex, Nat.mod_one]
  | succ n ih =>
    have hmod : 16 * (x / 16 % 16 ^ n) + x % 16 = x % 16 ^ (n + 1) := by
      rw [Nat.pow_succ', Nat.mod_mul, Nat.add_comm]
    unfold readHex at ih ⊢
    rw [hexChars, List.foldlM_append, ih]
    simp [hdigit (x % 16) (Nat.mod_lt x (by decide)), hmod]

/-- `uuid.UUID(text)` on texts like those of `UUID.str`: 32 digits, with dashes among them. -/
def read (text : List Char) : Option UUID :=
  let ds := text.filter (· ≠ '-')
  if ds.length = 32 then (readHex ds).map fun n => ⟨BitVec.ofNat 128 n⟩ else none

/-- The digits of the text are those of the number. -/
theorem digits_str (u : UUID) : u.str.toList.filter (· ≠ '-') = hexChars u.bits.toNat 32 := by
  have hkeep : ∀ x n, (hexChars x n).filter (· ≠ '-') = hexChars x n := by
    intro x n
    refine List.filter_eq_self.2 fun c hc => decide_eq_true ?_
    rintro rfl
    exact dash_notMem_hexChars x n hc
  have hjoin : hexChars (u.bits.toNat >>> 96) 8 ++ (hexChars (u.bits.toNat >>> 80) 4 ++
      (hexChars (u.bits.toNat >>> 64) 4 ++ (hexChars (u.bits.toNat >>> 48) 4 ++
        hexChars u.bits.toNat 12))) = hexChars u.bits.toNat 32 := by
    simp only [Nat.shiftRight_eq_div_pow]
    exact calc
      _ = hexChars (u.bits.toNat / 16 ^ 24) 8 ++ (hexChars (u.bits.toNat / 16 ^ 20) 4 ++
            (hexChars (u.bits.toNat / 16 ^ 16) 4 ++ (hexChars (u.bits.toNat / 16 ^ 12) 4 ++
              hexChars u.bits.toNat 12))) := rfl
      _ = _ := by simp only [hexChars_append]
  simp only [str, String.toList_append, toList_hex, List.filter_append, hkeep, List.append_assoc]
  exact hjoin

/-- **What is written is read back.** -/
theorem read_str (u : UUID) : read u.str.toList = some u := by
  have hlt : u.bits.toNat < 16 ^ 32 := u.bits.isLt
  rw [read, digits_str, length_hexChars, readHex_hexChars, Nat.mod_eq_of_lt hlt]
  simp

theorem str_injective {u v : UUID} (h : u.str = v.str) : u = v := by
  have hu := read_str u
  rw [h, read_str v] at hu
  exact (Option.some.inj hu).symm

end UUID

end EventSphere
