import EventSphere.Base.Json

/-!
# Writing JSON texts

A writer for JSON values, without white space, that escapes the characters that may not stand for
themselves. What it writes derives the value in the grammar (`Json.Plain.text`), if the value has no
floats and no surrogates, nests no deeper and has no longer integers than allowed; so the decoder
reads it back.
-/

namespace EventSphere

namespace Json

/-! ## Strings -/

/-- The code points of a text. -/
def Scalars (s : List ℕ) : Prop := ∀ n ∈ s, n.isValidChar

/-- A code point of a string, as it is written. -/
def writeChar (n : ℕ) : List Char :=
  if n = 34 ∨ n = 92 then ['\\', Char.ofNat n]
  else if n = 8 then ['\\', 'b']
  else if n = 9 then ['\\', 't']
  else if n = 10 then ['\\', 'n']
  else if n = 12 then ['\\', 'f']
  else if n = 13 then ['\\', 'r']
  else if n < 32 then ['\\', 'u', '0', '0', Nat.digitChar (n / 16), Nat.digitChar (n % 16)]
  else [Char.ofNat n]

/-- A string, as it is written. -/
def writeString (s : List ℕ) : List Char := '"' :: (s.flatMap writeChar ++ ['"'])

/-- The two digits of a control character read back. -/
theorem hex4_control : ∀ n < 32,
    hex4 '0' '0' (Nat.digitChar (n / 16)) (Nat.digitChar (n % 16)) = some n := by
  decide

theorem toNat_ofNat {n : ℕ} (hn : n.isValidChar) : (Char.ofNat n).toNat = n := by
  rw [Char.ofNat, dif_pos hn]
  rfl

theorem writeChar_text {n : ℕ} (hn : n.isValidChar) : CharText (writeChar n) n := by
  have hchar : (Char.ofNat n).toNat = n := toNat_ofNat hn
  unfold writeChar
  split
  · next h =>
    refine .escape ?_
    rcases h with rfl | rfl <;> rfl
  split
  · next h => exact h ▸ .escape rfl
  split
  · next h => exact h ▸ .escape rfl
  split
  · next h => exact h ▸ .escape rfl
  split
  · next h => exact h ▸ .escape rfl
  split
  · next h => exact h ▸ .escape rfl
  split
  · next h => exact .hex (hex4_control n h)
  · next hquote _ _ _ _ _ h =>
    have hplain : isPlain (Char.ofNat n) = true := by
      have hne : ∀ c : Char, n ≠ c.toNat → Char.ofNat n ≠ c := by
        rintro c hne rfl
        exact hne hchar.symm
      have h34 : Char.ofNat n ≠ '"' := hne '"' fun he => hquote (.inl he)
      have h92 : Char.ofNat n ≠ '\\' := hne '\\' fun he => hquote (.inr he)
      simp only [isPlain, Bool.and_eq_true, decide_eq_true_eq]
      exact ⟨⟨h34, h92⟩, by omega⟩
    have := CharText.plain hplain
    rwa [hchar] at this

/-- Without surrogates there are no pairs of them. -/
theorem joinSurrogates_scalars {s : List ℕ} (hs : Scalars s) : joinSurrogates s = s := by
  fun_induction joinSurrogates s with
  | case1 h l ns hpair =>
    have := hs h (.head _)
    unfold Nat.isValidChar at this
    omega
  | case2 h l ns _ ih => rw [ih fun n hn => hs n (.tail _ hn)]
  | case3 => rfl

theorem writeChars_text {s : List ℕ} (hs : Scalars s) : CharsText (s.flatMap writeChar) s := by
  induction s with
  | nil => exact .nil
  | cons n s ih =>
    rw [List.flatMap_cons]
    exact .cons (writeChar_text (hs n (.head _))) (ih fun m hm => hs m (.tail _ hm))

/-- **Strings are written as they are read.** -/
theorem writeString_value {s : List ℕ} (hs : Scalars s) {digits : ℕ}
    {inner : Option (Grammar Json)} :
    ValueText digits inner (writeString s) (.string s) := by
  have h : ValueText digits inner (writeString s) _ := .string (writeChars_text hs)
  rwa [joinSurrogates_scalars hs] at h

/-! ## Integers -/

/-- An integer, as it is written. -/
def writeInt (n : ℤ) : List Char :=
  if n < 0 then '-' :: Nat.toDigits 10 n.natAbs else Nat.toDigits 10 n.natAbs

/-- The digits of a positive number start with no zero. -/
theorem toDigits_eq_cons {n : ℕ} (hn : 0 < n) :
    ∃ c ds, Nat.toDigits 10 n = c :: ds ∧ c.isDigit = true ∧ c ≠ '0' ∧ Digits ds := by
  have hdigit : ∀ d < 10, (Nat.digitChar d).isDigit = true ∧ (0 < d → Nat.digitChar d ≠ '0') := by
    decide
  induction n using Nat.strongRecOn with
  | ind n ih =>
    rcases Nat.lt_or_ge n 10 with hlt | hge
    · obtain ⟨hd, hne⟩ := hdigit n hlt
      exact ⟨_, [], Nat.toDigits_of_lt_base hlt, hd, hne hn, nofun⟩
    · obtain ⟨c, ds, he, hc, hne, hds⟩ := ih (n / 10) (by omega) (by omega)
      refine ⟨c, ds ++ [Nat.digitChar (n % 10)], ?_, hc, hne, ?_⟩
      · rw [Nat.toDigits_of_base_le (by decide) hge, he, List.cons_append]
      · refine fun d hd => (List.mem_append.1 hd).elim (hds d) fun hd => ?_
        rw [List.mem_singleton.1 hd]
        exact (hdigit _ (Nat.mod_lt n (by decide))).1

theorem toDigits_text (n : ℕ) : IntText (Nat.toDigits 10 n) := by
  rcases Nat.eq_zero_or_pos n with rfl | hn
  · exact .zero
  · obtain ⟨c, ds, he, hc, hne, hds⟩ := toDigits_eq_cons hn
    rw [he]
    exact .digits hc hne hds

/-- **Integers are written as they are read**, if they are short enough. -/
theorem writeInt_text {n : ℤ} {digits : ℕ} (hn : (Nat.toDigits 10 n.natAbs).length ≤ digits) :
    NumberText digits (writeInt n) (.int n) := by
  have hnat : natOf (Nat.toDigits 10 n.natAbs) = n.natAbs := Nat.ofDigitChars_ten_toDigits
  unfold writeInt
  split
  · next hneg =>
    have h := NumberText.int .minus (toDigits_text n.natAbs) hn
    rw [intOf, if_neg (List.cons_ne_nil _ _), hnat] at h
    have : -(n.natAbs : ℤ) = n := by omega
    rwa [this] at h
  · next hpos =>
    have h := NumberText.int .none (toDigits_text n.natAbs) hn
    rw [intOf, if_pos rfl, hnat] at h
    have : (n.natAbs : ℤ) = n := by omega
    rwa [this] at h

/-! ## Values -/

mutual

/-- A value, as it is written. -/
def write : Json → List Char
  | .null => "null".toList
  | .bool true => "true".toList
  | .bool false => "false".toList
  | .int n => writeInt n
  | .float t => t
  | .string s => writeString s
  | .array vs => '[' :: (writeItems vs ++ [']'])
  | .object ms => '{' :: (writeMembers ms ++ ['}'])

/-- The items of an array, as they are written. -/
def writeItems : List Json → List Char
  | [] => []
  | [v] => v.write
  | v :: vs => v.write ++ ',' :: writeItems vs

/-- The members of an object, as they are written. -/
def writeMembers : List (List ℕ × Json) → List Char
  | [] => []
  | [m] => writeMember m
  | m :: ms => writeMember m ++ ',' :: writeMembers ms

/-- A member of an object, as it is written. -/
def writeMember : List ℕ × Json → List Char
  | (key, v) => writeString key ++ ':' :: v.write

end

/-- The values without floats and surrogates that nest at most so deep, with integers of at most so
many digits. -/
inductive Plain (digits : ℕ) : ℕ → Json → Prop
  | null {depth : ℕ} : Plain digits depth .null
  | bool {depth : ℕ} (b : Bool) : Plain digits depth (.bool b)
  | int {depth : ℕ} {n : ℤ} (hn : (Nat.toDigits 10 n.natAbs).length ≤ digits) :
    Plain digits depth (.int n)
  | string {depth : ℕ} {s : List ℕ} (hs : Scalars s) : Plain digits depth (.string s)
  | array {depth : ℕ} {vs : List Json} (hvs : ∀ v ∈ vs, Plain digits depth v) :
      Plain digits (depth + 1) (.array vs)
  | object {depth : ℕ} {ms : List (List ℕ × Json)} (hkeys : ∀ m ∈ ms, Scalars m.1)
      (hvs : ∀ m ∈ ms, Plain digits depth m.2) : Plain digits (depth + 1) (.object ms)

section
variable {digits : ℕ} {G : Grammar Json}

/-- A value without white space around it. -/
theorem padded_self {α : Type} {G : Grammar α} {t : List Char} {v : α} (h : G t v) :
    Padded G t v := by
  have := Padded.mk (a := []) (b := []) nofun h nofun
  rwa [List.nil_append, List.append_nil] at this

theorem writeMember_text {m : List ℕ × Json} (hkey : Scalars m.1) (h : G m.2.write m.2) :
    MemberText G (writeMember m) m := by
  obtain ⟨key, v⟩ := m
  have := MemberText.mk (a := []) (b := []) nofun (writeChars_text hkey) nofun (padded_self h)
  rw [joinSurrogates_scalars hkey] at this
  simpa [writeMember, writeString] using this

theorem writeItems_text {v : Json} {vs : List Json} (h : ∀ u ∈ v :: vs, G u.write u) :
    ItemsText (Padded G) (writeItems (v :: vs)) (v :: vs) := by
  induction vs generalizing v with
  | nil => exact .one (padded_self (h v (.head _)))
  | cons u vs ih => exact .more (padded_self (h v (.head _))) (ih fun x hx => h x (.tail _ hx))

theorem writeMembers_text {m : List ℕ × Json} {ms : List (List ℕ × Json)}
    (hkeys : ∀ x ∈ m :: ms, Scalars x.1) (h : ∀ x ∈ m :: ms, G x.2.write x.2) :
    ItemsText (MemberText G) (writeMembers (m :: ms)) (m :: ms) := by
  induction ms generalizing m with
  | nil => exact .one (writeMember_text (hkeys m (.head _)) (h m (.head _)))
  | cons u ms ih =>
    exact .more (writeMember_text (hkeys m (.head _)) (h m (.head _)))
      (ih (fun x hx => hkeys x (.tail _ hx)) fun x hx => h x (.tail _ hx))

end

/-- **What is written derives the value.** -/
theorem Plain.value {digits depth : ℕ} {v : Json} (h : Plain digits depth v) :
    Value digits depth v.write v := by
  -- a scalar is written alike at every depth
  have hscalar : ∀ {depth : ℕ} {t : List Char} {v : Json},
      (∀ inner, ValueText digits inner t v) → Value digits depth t v := by
    intro depth t v h
    cases depth with
    | zero => exact h none
    | succ depth => exact h _
  induction h with
  | null => exact hscalar fun _ => .constant (.head _)
  | bool b =>
    refine hscalar fun _ => .constant ?_
    cases b with
    | true => exact .tail _ (.head _)
    | false => exact .tail _ (.tail _ (.head _))
  | int hn => exact hscalar fun _ => .number (writeInt_text hn)
  | string hs => exact hscalar fun _ => writeString_value hs
  | @array depth vs _ ih =>
    refine ValueText.array rfl ?_
    cases vs with
    | nil => exact .nil (a := []) nofun
    | cons v vs => exact .items (writeItems_text ih)
  | @object depth ms hkeys _ ih =>
    refine ValueText.object rfl ?_
    cases ms with
    | nil => exact .nil (a := []) nofun
    | cons m ms => exact .items (writeMembers_text hkeys ih)

/-- **A value is written as a text of it**, within the limits. -/
theorem Plain.text {limits : Limits} {v : Json} (h : Plain limits.digits limits.depth v) :
    Text limits v.write v :=
  ⟨[], v.write, [], by simp, nofun, nofun, h.value⟩

end Json

end EventSphere
