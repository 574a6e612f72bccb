import Mathlib.Data.List.Basic
import Mathlib.Data.List.TakeWhile
import Mathlib.Data.Int.Notation
import Mathlib.Data.Nat.Notation

/-!
# JSON texts

The grammar of JSON texts (`Json.Text`) and a decoder for them (`Json.loads`), a recursive descent
with one character of lookahead. The decoder reads the constants `NaN`, `Infinity` and `-Infinity`
as well, keeps unpaired surrogates, and has two limits: how deep arrays and objects nest, and how
many digits an integer has. `Json.loads_eq_ok` says that it accepts what the grammar derives within
the limits, and nothing else; every parser is shown to read its part of the grammar (`Json.Reads`),
given what may follow.
-/

namespace EventSphere

/-- A JSON value. A string is the list of its code points, in which a surrogate may stand alone; a
float is the text that it is written with. -/
inductive Json where
  | null
  | bool (b : Bool)
  | int (n : ℤ)
  | float (text : List Char)
  | string (s : List ℕ)
  | array (items : List Json)
  | object (members : List (List ℕ × Json))

namespace Json

/-- What is wrong with a text: its form, the depth of its arrays and objects, or the digits of an
integer. -/
inductive DecodeError where
  | malformed
  | tooDeep
  | tooManyDigits
  deriving DecidableEq, Repr

/-- How deep arrays and objects may nest, and how many digits an integer may have. -/
structure Limits where
  depth : ℕ
  digits : ℕ
  deriving DecidableEq, Repr

/-- A parser takes a value off the front of a text and leaves the rest. -/
abbrev Parser (α : Type) := List Char → Except DecodeError (α × List Char)

/-- A grammar says which texts derive which values. -/
abbrev Grammar (α : Type) := List Char → α → Prop

/-- The parser reads what the grammar derives, where a rest with the property follows. -/
structure Reads {α : Type} (p : Parser α) (G : Grammar α) (F : List Char → Prop) : Prop where
  sound : ∀ {s a r}, p s = .ok (a, r) → ∃ t, s = t ++ r ∧ G t a
  complete : ∀ {t a r}, G t a → F r → p (t ++ r) = .ok (a, r)

/-! ## White space -/

/-- White space. -/
def isSpace (c : Char) : Bool := c = ' ' || c = '\t' || c = '\n' || c = '\r'

/-- The text is white space. -/
def Space (s : List Char) : Prop := ∀ c ∈ s, isSpace c = true

/-- What is left after the white space at the front. -/
def skip (s : List Char) : List Char := s.dropWhile isSpace

/-- The text starts with a character that is no white space. -/
def Starts (s : List Char) : Prop := ∃ c r, s = c :: r ∧ isSpace c = false

theorem exists_space (s : List Char) : ∃ a, s = a ++ skip s ∧ Space a :=
  ⟨s.takeWhile isSpace, (List.takeWhile_append_dropWhile ..).symm, fun _ hc =>
    List.mem_takeWhile_imp hc⟩

theorem skip_append {a s : List Char} (ha : Space a) : skip (a ++ s) = skip s :=
  List.dropWhile_append_of_pos ha

theorem skip_of_starts {s : List Char} (hs : Starts s) : skip s = s := by
  obtain ⟨c, r, rfl, hc⟩ := hs
  exact List.dropWhile_cons_of_neg (by simp [hc])

theorem skip_space {b : List Char} (hb : Space b) : skip b = [] := by
  exact List.dropWhile_eq_nil_iff.2 hb

/-! ## Numbers -/

/-- The text starts with no digit. -/
def NoDigit (s : List Char) : Prop := ∀ c ∈ s.head?, c.isDigit = false

/-- Digits. -/
def Digits (ds : List Char) : Prop := ∀ c ∈ ds, c.isDigit = true

/-- The sign of a number. -/
inductive NegText : List Char → Prop
  | none : NegText []
  | minus : NegText ['-']

/-- The integer part of a number: no zero stands in front of another digit. -/
inductive IntText : List Char → Prop
  | zero : IntText ['0']
  | digits {c : Char} {ds : List Char} (hc : c.isDigit = true) (hne : c ≠ '0') (hds : Digits ds) :
      IntText (c :: ds)

/-- The fraction of a number. -/
inductive FracText : List Char → Prop
  | none : FracText []
  | digits {ds : List Char} (hne : ds ≠ []) (hds : Digits ds) : FracText ('.' :: ds)

/-- The sign of an exponent. -/
inductive SignText : List Char → Prop
  | none : SignText []
  | plus : SignText ['+']
  | minus : SignText ['-']

/-- The exponent of a number. -/
inductive ExpText : List Char → Prop
  | none : ExpText []
  | digits {c : Char} {sign ds : List Char} (hc : c = 'e' ∨ c = 'E') (hsign : SignText sign)
      (hne : ds ≠ []) (hds : Digits ds) : ExpText (c :: (sign ++ ds))

/-- The number that digits write. -/
def natOf (ds : List Char) : ℕ := ds.foldl (fun n c => 10 * n + (c.toNat - 48)) 0

/-- The integer that a sign and digits write. -/
def intOf (neg ds : List Char) : ℤ := if neg = [] then natOf ds else -natOf ds

/-- A number is an integer, with at most so many digits, or has a fraction or an exponent. -/
inductive NumberText (digits : ℕ) : Grammar Json
  | int {neg ds : List Char} (hneg : NegText neg) (hds : IntText ds) (hlen : ds.length ≤ digits) :
      NumberText digits (neg ++ ds) (.int (intOf neg ds))
  | float {neg ds fs es : List Char} (hneg : NegText neg) (hds : IntText ds) (hfs : FracText fs)
      (hes : ExpText es) (hne : fs ++ es ≠ []) :
      NumberText digits (neg ++ (ds ++ (fs ++ es))) (.float (neg ++ (ds ++ (fs ++ es))))

/-- Take the sign of a number. -/
def negPart : List Char → List Char × List Char
  | [] => ([], [])
  | c :: s => if c = '-' then ([c], s) else ([], c :: s)

/-- Take the integer part of a number. -/
def intPart : List Char → Option (List Char × List Char)
  | [] => none
  | c :: s =>
    if c = '0' then some ([c], s)
    else if c.isDigit then some (c :: s.takeWhile Char.isDigit, s.dropWhile Char.isDigit)
    else none

/-- Take the fraction of a number, if a digit follows the point. -/
def fracPart : List Char → List Char × List Char
  | [] => ([], [])
  | c :: s =>
    if c = '.' ∧ s.takeWhile Char.isDigit ≠ [] then
      (c :: s.takeWhile Char.isDigit, s.dropWhile Char.isDigit)
    else ([], c :: s)

/-- Take the sign of an exponent. -/
def signPart : List Char → List Char × List Char
  | [] => ([], [])
  | c :: s => if c = '+' ∨ c = '-' then ([c], s) else ([], c :: s)

/-- Take the exponent of a number, if it has a digit. -/
def expPart : List Char → List Char × List Char
  | [] => ([], [])
  | c :: s =>
    if (c = 'e' ∨ c = 'E') ∧ (signPart s).2.takeWhile Char.isDigit ≠ [] then
      (c :: ((signPart s).1 ++ (signPart s).2.takeWhile Char.isDigit),
        (signPart s).2.dropWhile Char.isDigit)
    else ([], c :: s)

/-- Take a number. -/
def number (digits : ℕ) : Parser Json := fun s =>
  let neg := negPart s
  match intPart neg.2 with
  | none => .error .malformed
  | some (ds, s) =>
    let frac := fracPart s
    let exp := expPart frac.2
    if frac.1 ++ exp.1 = [] then
      if digits < ds.length then .error .tooManyDigits else .ok (.int (intOf neg.1 ds), exp.2)
    else .ok (.float (neg.1 ++ (ds ++ (frac.1 ++ exp.1))), exp.2)

section
variable {s r ds fs es : List Char}

/-- Digits are taken up to the first character that is none. -/
theorem takeWhile_digits (hds : Digits ds) (hr : NoDigit r) :
    (ds ++ r).takeWhile Char.isDigit = ds ∧ (ds ++ r).dropWhile Char.isDigit = r := by
  rw [List.takeWhile_append_of_pos hds, List.dropWhile_append_of_pos hds]
  cases r with
  | nil => exact ⟨List.append_nil ds, rfl⟩
  | cons c r =>
    have hc : ¬ c.isDigit = true := by rw [hr c rfl]; exact Bool.false_ne_true
    rw [List.takeWhile_cons_of_neg hc, List.dropWhile_cons_of_neg hc]
    exact ⟨List.append_nil ds, rfl⟩

/-- What is taken as digits is digits. -/
theorem digits_takeWhile (s : List Char) : Digits (s.takeWhile Char.isDigit) :=
  fun _ hc => List.mem_takeWhile_imp hc

theorem negPart_sound (s : List Char) :
    s = (negPart s).1 ++ (negPart s).2 ∧ NegText (negPart s).1 := by
  cases s with
  | nil => exact ⟨rfl, .none⟩
  | cons c s =>
    rw [negPart]
    split
    · next hc => exact ⟨rfl, hc ▸ .minus⟩
    · exact ⟨rfl, .none⟩

theorem negPart_complete {neg : List Char} (hneg : NegText neg) (hds : IntText ds) :
    negPart (neg ++ (ds ++ r)) = (neg, ds ++ r) := by
  cases hneg with
  | minus => rfl
  | none =>
    cases hds with
    | zero => rfl
    | @digits c ds hc =>
      have hne : c ≠ '-' := by rintro rfl; exact absurd hc (by decide)
      exact if_neg hne

theorem intPart_sound (h : intPart s = some (ds, r)) : s = ds ++ r ∧ IntText ds := by
  cases s with
  | nil => cases h
  | cons c s =>
    rw [intPart] at h
    split at h
    · next hc => cases h; exact ⟨rfl, hc ▸ .zero⟩
    · next hne =>
      split at h
      · next hc =>
        cases h
        exact ⟨congrArg (c :: ·) (List.takeWhile_append_dropWhile ..).symm,
          .digits hc hne (digits_takeWhile s)⟩
      · cases h

theorem intPart_complete (hds : IntText ds) (hr : NoDigit r) :
    intPart (ds ++ r) = some (ds, r) := by
  cases hds with
  | zero => rfl
  | @digits c ds hc hne hds =>
    obtain ⟨htake, hdrop⟩ := takeWhile_digits hds hr
    show intPart (c :: (ds ++ r)) = _
    rw [intPart, if_neg hne, if_pos hc, htake, hdrop]

theorem fracPart_sound (s : List Char) :
    s = (fracPart s).1 ++ (fracPart s).2 ∧ FracText (fracPart s).1 := by
  cases s with
  | nil => exact ⟨rfl, .none⟩
  | cons c s =>
    rw [fracPart]
    split
    · next h =>
      obtain ⟨rfl, hne⟩ := h
      exact ⟨congrArg ('.' :: ·) (List.takeWhile_append_dropWhile ..).symm,
        .digits hne (digits_takeWhile s)⟩
    · exact ⟨rfl, .none⟩

theorem fracPart_complete (hfs : FracText fs) (hr : NoDigit r) (hdot : ∀ c ∈ r.head?, c ≠ '.') :
    fracPart (fs ++ r) = (fs, r) := by
  cases hfs with
  | none =>
    cases r with
    | nil => rfl
    | cons c r => exact if_neg fun h => hdot c rfl h.1
  | @digits ds hne hds =>
    obtain ⟨htake, hdrop⟩ := takeWhile_digits hds hr
    show fracPart ('.' :: (ds ++ r)) = _
    rw [fracPart, htake, hdrop, if_pos ⟨rfl, hne⟩]

theorem signPart_sound (s : List Char) :
    s = (signPart s).1 ++ (signPart s).2 ∧ SignText (signPart s).1 := by
  cases s with
  | nil => exact ⟨rfl, .none⟩
  | cons c s =>
    rw [signPart]
    split
    · next h =>
      rcases h with rfl | rfl
      · exact ⟨rfl, .plus⟩
      · exact ⟨rfl, .minus⟩
    · exact ⟨rfl, .none⟩

theorem signPart_complete {sign : List Char} (hsign : SignText sign) (hne : ds ≠ [])
    (hds : Digits ds) :
    signPart (sign ++ (ds ++ r)) = (sign, ds ++ r) := by
  cases hsign with
  | plus => rfl
  | minus => rfl
  | none =>
    obtain ⟨c, ds, rfl⟩ := List.exists_cons_of_ne_nil hne
    refine if_neg ?_
    rintro (rfl | rfl)
    · exact absurd (hds _ (.head _)) (by decide)
    · exact absurd (hds _ (.head _)) (by decide)

theorem expPart_sound (s : List Char) :
    s = (expPart s).1 ++ (expPart s).2 ∧ ExpText (expPart s).1 := by
  cases s with
  | nil => exact ⟨rfl, .none⟩
  | cons c s =>
    rw [expPart]
    split
    · next h =>
      obtain ⟨hs, hsign⟩ := signPart_sound s
      refine ⟨?_, .digits h.1 hsign h.2 (digits_takeWhile _)⟩
      rw [List.cons_append, List.append_assoc, List.takeWhile_append_dropWhile, ← hs]
    · exact ⟨rfl, .none⟩

theorem expPart_complete (hes : ExpText es) (hr : NoDigit r)
    (he : ∀ c ∈ r.head?, c ≠ 'e' ∧ c ≠ 'E') :
    expPart (es ++ r) = (es, r) := by
  cases hes with
  | none =>
    cases r with
    | nil => rfl
    | cons c r => exact if_neg fun h => h.1.elim (he c rfl).1 (he c rfl).2
  | @digits c sign ds hc hsign hne hds =>
    obtain ⟨htake, hdrop⟩ := takeWhile_digits hds hr
    have hs := signPart_complete (r := r) hsign hne hds
    show expPart (c :: ((sign ++ ds) ++ r)) = _
    rw [expPart, List.append_assoc, hs]
    dsimp only
    rw [htake, hdrop, if_pos ⟨hc, hne⟩]

/-- A number ends where no digit, point or exponent follows. -/
def Ends (r : List Char) : Prop := ∀ c ∈ r.head?, c.isDigit = false ∧ c ≠ '.' ∧ c ≠ 'e' ∧ c ≠ 'E'

/-- The first character of an exponent and of what follows a number. -/
theorem head_exp (hes : ExpText es) (hr : Ends r) :
    ∀ c ∈ (es ++ r).head?, c.isDigit = false ∧ c ≠ '.' := by
  intro c hc
  cases hes with
  | none => exact ⟨(hr c hc).1, (hr c hc).2.1⟩
  | @digits c' sign ds hc' =>
    cases hc
    rcases hc' with rfl | rfl
    · exact ⟨rfl, by decide⟩
    · exact ⟨rfl, by decide⟩

/-- The first character of a fraction and of what follows it. -/
theorem noDigit_frac (hfs : FracText fs) (hr : NoDigit r) : NoDigit (fs ++ r) := by
  cases hfs with
  | none => exact hr
  | digits => rintro c ⟨⟩; rfl

/-- **`number` reads numbers.** -/
theorem number_reads (digits : ℕ) : Reads (number digits) (NumberText digits) Ends where
  sound {s a r} h := by
    obtain ⟨hs, hneg⟩ := negPart_sound s
    rw [number] at h
    dsimp only at h
    split at h
    · cases h
    · next ds s₂ hint =>
      obtain ⟨hs₂, hds⟩ := intPart_sound hint
      obtain ⟨hs₃, hfs⟩ := fracPart_sound s₂
      obtain ⟨hs₄, hes⟩ := expPart_sound (fracPart s₂).2
      have hall : s = ((negPart s).1 ++ (ds ++ ((fracPart s₂).1 ++ (expPart (fracPart s₂).2).1))) ++
          (expPart (fracPart s₂).2).2 := by
        rw [List.append_assoc, List.append_assoc, List.append_assoc, ← hs₄, ← hs₃, ← hs₂, ← hs]
      split at h
      · next hnil =>
        split at h
        · cases h
        · next hlen =>
          cases h
          rw [hnil, List.append_nil] at hall
          exact ⟨_, hall, .int hneg hds (Nat.le_of_not_lt hlen)⟩
      · next hne =>
        cases h
        exact ⟨_, hall, .float hneg hds hfs hes hne⟩
  complete {t a r} h hr := by
    have hnodigit : NoDigit r := fun c hc => (hr c hc).1
    cases h with
    | @int neg ds hneg hds hlen =>
      have hfrac : fracPart r = ([], r) := fracPart_complete .none hnodigit fun c hc =>
        (hr c hc).2.1
      have hexp : expPart r = ([], r) := expPart_complete .none hnodigit fun c hc => (hr c hc).2.2
      rw [List.append_assoc, number, negPart_complete hneg hds]
      dsimp only
      rw [intPart_complete hds hnodigit]
      dsimp only
      rw [hfrac]
      dsimp only
      rw [hexp]
      dsimp only
      rw [if_pos (List.append_nil _), if_neg (Nat.not_lt.2 hlen)]
    | @float neg ds fs es hneg hds hfs hes hne =>
      have hhead := head_exp hes hr
      have hexp : expPart (es ++ r) = (es, r) :=
        expPart_complete hes hnodigit fun c hc => (hr c hc).2.2
      have hfrac : fracPart (fs ++ (es ++ r)) = (fs, es ++ r) :=
        fracPart_complete hfs (fun c hc => (hhead c hc).1) fun c hc => (hhead c hc).2
      have hint : intPart (ds ++ (fs ++ (es ++ r))) = some (ds, fs ++ (es ++ r)) :=
        intPart_complete hds (noDigit_frac hfs fun c hc => (hhead c hc).1)
      rw [List.append_assoc, List.append_assoc, List.append_assoc, number,
        negPart_complete hneg hds]
      dsimp only
      rw [hint]
      dsimp only
      rw [hfrac]
      dsimp only
      rw [hexp]
      dsimp only
      rw [if_neg hne]

end

/-! ## Strings -/

/-- The value of a hexadecimal digit. -/
def hexDigit (c : Char) : Option ℕ :=
  if c.isDigit then some (c.toNat - 48)
  else if 'a' ≤ c ∧ c ≤ 'f' then some (c.toNat - 87)
  else if 'A' ≤ c ∧ c ≤ 'F' then some (c.toNat - 55)
  else none

/-- The value of four hexadecimal digits. -/
def hex4 (a b c d : Char) : Option ℕ := do
  let a ← hexDigit a
  let b ← hexDigit b
  let c ← hexDigit c
  let d ← hexDigit d
  return ((a * 16 + b) * 16 + c) * 16 + d

/-- The code point that an escape of one character stands for. -/
def escape (c : Char) : Option ℕ :=
  if c = '"' ∨ c = '\\' ∨ c = '/' then some c.toNat
  else if c = 'b' then some 8
  else if c = 'f' then some 12
  else if c = 'n' then some 10
  else if c = 'r' then some 13
  else if c = 't' then some 9
  else none

/-- A character that stands for itself. -/
def isPlain (c : Char) : Bool := c ≠ '"' && c ≠ '\\' && 0x20 ≤ c.toNat

/-- One character of a string, and what it stands for: a code point or a surrogate. -/
inductive CharText : Grammar ℕ
  | plain {c : Char} (hc : isPlain c = true) : CharText [c] c.toNat
  | escape {c : Char} {n : ℕ} (hn : escape c = some n) : CharText ['\\', c] n
  | hex {a b c d : Char} {n : ℕ} (hn : hex4 a b c d = some n) : CharText ['\\', 'u', a, b, c, d] n

/-- The characters of a string. -/
inductive CharsText : Grammar (List ℕ)
  | nil : CharsText [] []
  | cons {t ts : List Char} {n : ℕ} {ns : List ℕ} (ht : CharText t n) (hts : CharsText ts ns) :
      CharsText (t ++ ts) (n :: ns)

/-- Take the characters of a string and the closing quote. -/
def chars : Parser (List ℕ)
  | [] => .error .malformed
  | '"' :: s => .ok ([], s)
  | '\\' :: 'u' :: a :: b :: c :: d :: s =>
    match hex4 a b c d with
    | none => .error .malformed
    | some n => (chars s).map (Prod.map (n :: ·) id)
  | '\\' :: c :: s =>
    match escape c with
    | none => .error .malformed
    | some n => (chars s).map (Prod.map (n :: ·) id)
  | c :: s => if isPlain c then (chars s).map (Prod.map (c.toNat :: ·) id) else .error .malformed

/-- Two surrogates of a pair are one code point. -/
def joinSurrogates : List ℕ → List ℕ
  | h :: l :: ns =>
    if 0xD800 ≤ h ∧ h < 0xDC00 ∧ 0xDC00 ≤ l ∧ l < 0xE000 then
      (0x10000 + (h - 0xD800) * 0x400 + (l - 0xDC00)) :: joinSurrogates ns
    else h :: joinSurrogates (l :: ns)
  | ns => ns

/-- What a parser that has gone on has done. -/
theorem map_eq_ok {α β : Type} {x : Except DecodeError α} {f : α → β} {b : β}
    (h : x.map f = .ok b) :
    ∃ a, x = .ok a ∧ f a = b := by
  cases x with
  | error e => cases h
  | ok a => exact ⟨a, rfl, Except.ok.inj h⟩

theorem chars_plain {c : Char} (hc : isPlain c = true) (s : List Char) :
    chars (c :: s) = (chars s).map (Prod.map (c.toNat :: ·) id) := by
  have hquote : c ≠ '"' := by rintro rfl; exact absurd hc (by decide)
  have hslash : c ≠ '\\' := by rintro rfl; exact absurd hc (by decide)
  rw [chars]
  · exact if_pos hc
  · exact hquote
  · intro _ _ _ _ _ h
    exact absurd h hslash
  · intro _ _ h
    exact absurd h hslash

theorem chars_complete {t r : List Char} {ns : List ℕ} (h : CharsText t ns) :
    chars (t ++ '"' :: r) = .ok (ns, r) := by
  induction h with
  | nil => rfl
  | @cons t ts n ns ht _ ih =>
    rw [List.append_assoc]
    cases ht with
    | @plain c hc =>
      show chars (c :: (ts ++ '"' :: r)) = _
      rw [chars_plain hc, ih]
      rfl
    | @escape c n hn =>
      have hu : c ≠ 'u' := by
        rintro rfl
        have hnone : escape 'u' = none := rfl
        rw [hnone] at hn
        cases hn
      show chars ('\\' :: c :: (ts ++ '"' :: r)) = _
      rw [chars, hn, ih]
      · rfl
      · intro _ _ _ _ _ h _
        exact hu h
    | @hex a b c d n hn =>
      show chars ('\\' :: 'u' :: a :: b :: c :: d :: (ts ++ '"' :: r)) = _
      rw [chars, hn, ih]
      rfl

/-- One more character in front. -/
theorem charsText_cons {t s r : List Char} {n : ℕ} {ns : List ℕ} (ht : CharText t n)
    (ih : ∀ {ns}, chars s = .ok (ns, r) → ∃ t', s = t' ++ '"' :: r ∧ CharsText t' ns)
    (h : (chars s).map (Prod.map (n :: ·) id) = .ok (ns, r)) :
    ∃ t', t ++ s = t' ++ '"' :: r ∧ CharsText t' ns := by
  obtain ⟨⟨ns', r'⟩, hs, he⟩ := map_eq_ok h
  cases he
  obtain ⟨t', rfl, ht'⟩ := ih hs
  exact ⟨t ++ t', (List.append_assoc ..).symm, .cons ht ht'⟩

theorem chars_sound {s r : List Char} {ns : List ℕ} (h : chars s = .ok (ns, r)) :
    ∃ t, s = t ++ '"' :: r ∧ CharsText t ns := by
  fun_induction chars s generalizing ns with
  | case1 | case3 | case5 | case8 => cases h
  | case2 s => cases h; exact ⟨[], rfl, .nil⟩
  | case4 a b c d s n hn ih => exact charsText_cons (.hex hn) ih h
  | case6 c s _ n hn ih => exact charsText_cons (.escape hn) ih h
  | case7 c s _ _ _ hc ih => exact charsText_cons (.plain hc) ih h

/-! ## Lists -/

/-- Items with commas between them. -/
inductive ItemsText {α : Type} (G : Grammar α) : Grammar (List α)
  | one {t : List Char} {a : α} (ht : G t a) : ItemsText G t [a]
  | more {t ts : List Char} {a : α} {as : List α} (ht : G t a) (hts : ItemsText G ts as) :
      ItemsText G (t ++ ',' :: ts) (a :: as)

/-- What stands between an opening bracket and the closing one, with it. -/
inductive ListText {α : Type} (G : Grammar α) (close : Char) : Grammar (List α)
  | nil {a : List Char} (ha : Space a) : ListText G close (a ++ [close]) []
  | items {t : List Char} {as : List α} (ht : ItemsText G t as) : ListText G close (t ++ [close]) as

/-- A value with white space around it. -/
inductive Padded {α : Type} (G : Grammar α) : Grammar α
  | mk {a t b : List Char} {v : α} (ha : Space a) (ht : G t v) (hb : Space b) :
      Padded G (a ++ (t ++ b)) v

/-- Take items up to the closing bracket. -/
def items {α : Type} (item : Parser α) (close : Char) : ℕ → Parser (List α)
  | 0, _ => .error .malformed
  | n + 1, s =>
    match item s with
    | .error e => .error e
    | .ok (_, []) => .error .malformed
    | .ok (a, c :: r) =>
      if c = close then .ok ([a], r)
      else if c = ',' then (items item close n r).map (Prod.map (a :: ·) id)
      else .error .malformed

/-- Take what follows an opening bracket, and the closing one. -/
def list {α : Type} (item : Parser α) (close : Char) : Parser (List α) := fun s =>
  match skip s with
  | [] => .error .malformed
  | c :: r => if c = close then .ok ([], r) else items item close s.length s

/-- Take a value with white space around it. -/
def padded {α : Type} (p : Parser α) : Parser α := fun s => (p (skip s)).map (Prod.map id skip)

/-- A closing bracket. -/
def IsClose (c : Char) : Prop := c = ']' ∨ c = '}'

/-- An item ends at a comma or a closing bracket. -/
def Closes (r : List Char) : Prop := ∃ c r', r = c :: r' ∧ (c = ',' ∨ IsClose c)

section
variable {α : Type} {p : Parser α} {G : Grammar α} {close : Char}

/-- **`items` reads items.** -/
theorem items_sound (hp : Reads p G Closes) {n : ℕ} {s r : List Char} {as : List α}
    (h : items p close n s = .ok (as, r)) : ∃ t, s = t ++ close :: r ∧ ItemsText G t as := by
  induction n generalizing s as with
  | zero => cases h
  | succ n ih =>
    rw [items] at h
    cases hs : p s with
    | error e => rw [hs] at h; cases h
    | ok x =>
      obtain ⟨a, r'⟩ := x
      rw [hs] at h
      obtain ⟨t, rfl, ht⟩ := hp.sound hs
      cases r' with
      | nil => cases h
      | cons c r' =>
        dsimp only at h
        split at h
        · next hc =>
          cases h
          exact ⟨t, by rw [hc], .one ht⟩
        · split at h
          · next hc =>
            obtain ⟨⟨as', r''⟩, hrest, he⟩ := map_eq_ok h
            cases he
            obtain ⟨ts, rfl, hts⟩ := ih hrest
            exact ⟨t ++ ',' :: ts, by rw [hc, List.append_assoc]; rfl, .more ht hts⟩
          · cases h

/-- Items are not more than the text that they are written with. -/
theorem ItemsText.length_le {t : List Char} {as : List α} (h : ItemsText G t as) :
    as.length ≤ t.length + 1 := by
  induction h with
  | one => simp
  | more _ _ ih =>
    simp only [List.length_cons, List.length_append]
    omega

theorem items_complete (hp : Reads p G Closes) (hclose : IsClose close) {t r : List Char}
    {as : List α} (h : ItemsText G t as) {n : ℕ} (hn : as.length ≤ n) :
    items p close n (t ++ close :: r) = .ok (as, r) := by
  have hcomma : ',' ≠ close := by
    rintro rfl
    exact absurd hclose (by unfold IsClose; decide)
  induction h generalizing n with
  | @one t a ht =>
    obtain ⟨m, rfl⟩ := Nat.exists_eq_add_of_le' hn
    rw [List.length_singleton, items, hp.complete ht ⟨_, _, rfl, .inr hclose⟩]
    exact if_pos rfl
  | @more t ts a as ht _ ih =>
    obtain ⟨m, rfl⟩ : ∃ m, n = m + 1 := ⟨n - 1, by simp only [List.length_cons] at hn; omega⟩
    have hm : as.length ≤ m := by simp only [List.length_cons] at hn; omega
    rw [List.append_assoc, List.cons_append, items, hp.complete ht ⟨_, _, rfl, .inl rfl⟩]
    dsimp only
    rw [if_neg hcomma, if_pos rfl, ih hm]
    rfl

/-- The text of a value starts, after white space, with a character that is no closing bracket. -/
def Opens (t : List Char) : Prop :=
  ∃ a c r, t = a ++ c :: r ∧ Space a ∧ isSpace c = false ∧ ¬ IsClose c

/-- What is left of an opening text, and of what follows it, after the white space. -/
theorem Opens.skip_append {t : List Char} (ht : Opens t) (s : List Char) :
    ∃ c r, skip (t ++ s) = c :: r ∧ ¬ IsClose c := by
  obtain ⟨a, c, r, rfl, ha, hc, hclose⟩ := ht
  refine ⟨c, r ++ s, ?_, hclose⟩
  rw [List.append_assoc, Json.skip_append ha]
  exact skip_of_starts ⟨c, r ++ s, rfl, hc⟩

/-- Items open if each of them does. -/
theorem ItemsText.opens {t : List Char} {as : List α} (h : ItemsText G t as)
    (hstart : ∀ {t a}, G t a → Opens t) : Opens t := by
  cases h with
  | one ht => exact hstart ht
  | more ht =>
    obtain ⟨a, c, r, rfl, ha, hc, hclose⟩ := hstart ht
    exact ⟨a, c, _, List.append_assoc .., ha, hc, hclose⟩

/-- A closing bracket is no white space. -/
theorem IsClose.isSpace_eq_false {c : Char} (h : IsClose c) : isSpace c = false := by
  rcases h with rfl | rfl <;> rfl

/-- **`list` reads lists.** -/
theorem list_reads (hp : Reads p G Closes) (hclose : IsClose close)
    (hstart : ∀ {t a}, G t a → Opens t) :
    Reads (list p close) (ListText G close) fun _ => True where
  sound {s as r} h := by
    rw [list] at h
    obtain ⟨a, hs, ha⟩ := exists_space s
    split at h
    · cases h
    · next c r' hskip =>
      split at h
      · next hc =>
        cases h
        exact ⟨a ++ [close], by rw [List.append_assoc, hs, hskip, hc]; rfl, .nil ha⟩
      · obtain ⟨t, ht, hts⟩ := items_sound hp h
        exact ⟨t ++ [close], by rw [List.append_assoc]; exact ht, .items hts⟩
  complete {t as r} h _ := by
    cases h with
    | @nil a ha =>
      have hskip : skip (a ++ close :: r) = close :: r := by
        rw [skip_append ha]
        exact skip_of_starts ⟨close, r, rfl, hclose.isSpace_eq_false⟩
      show list p close ((a ++ [close]) ++ r) = _
      rw [List.append_assoc, List.singleton_append, list, hskip]
      exact if_pos rfl
    | @items t as ht =>
      obtain ⟨c, r', hskip, hc⟩ := (ht.opens hstart).skip_append (close :: r)
      have hne : c ≠ close := by rintro rfl; exact hc hclose
      have hlen : as.length ≤ (t ++ close :: r).length := by
        have := ht.length_le
        simp only [List.length_append, List.length_cons]
        omega
      rw [List.append_assoc, List.singleton_append, list, hskip]
      dsimp only
      rw [if_neg hne, items_complete hp hclose ht hlen]

/-- The byte order mark. -/
def byteOrderMark : Char := '\uFEFF'

/-- The text of a value starts with a character that is no white space, no closing bracket and no
byte order mark. -/
def Heads (t : List Char) : Prop :=
  ∃ c r, t = c :: r ∧ isSpace c = false ∧ ¬ IsClose c ∧ c ≠ byteOrderMark

/-- Where an item ends, a number before it ends too. -/
theorem Closes.ends {b r : List Char} (hb : Space b) (hr : Closes r) : Ends (b ++ r) := by
  intro c hc
  cases b with
  | nil =>
    obtain ⟨c', r', rfl, hc'⟩ := hr
    cases hc
    rcases hc' with rfl | rfl | rfl <;> decide
  | cons c' b =>
    cases hc
    have hspace := hb c (.head _)
    simp only [isSpace, Bool.or_eq_true, decide_eq_true_eq] at hspace
    rcases hspace with ((rfl | rfl) | rfl) | rfl <;> decide

/-- An item ends with no white space. -/
theorem Closes.skip {r : List Char} (hr : Closes r) : skip r = r := by
  obtain ⟨c, r', rfl, hc⟩ := hr
  refine skip_of_starts ⟨c, r', rfl, ?_⟩
  rcases hc with rfl | hc
  · rfl
  · exact hc.isSpace_eq_false

/-- **`padded` reads values with white space around them.** -/
theorem padded_reads (hp : Reads p G Ends) (hstart : ∀ {t v}, G t v → Heads t) :
    Reads (padded p) (Padded G) Closes where
  sound {s v r} h := by
    obtain ⟨⟨v', r'⟩, hs, he⟩ := map_eq_ok h
    cases he
    obtain ⟨t, ht, hv⟩ := hp.sound hs
    obtain ⟨a, ha, hspace⟩ := exists_space s
    obtain ⟨b, hb, hspace'⟩ := exists_space r'
    refine ⟨a ++ (t ++ b), ?_, .mk hspace hv hspace'⟩
    rw [List.append_assoc, List.append_assoc, ← hb, ← ht, ← ha]
  complete {t v r} h hr := by
    cases h with
    | @mk a t b v ha ht hb =>
      obtain ⟨c, t', rfl, hc, -⟩ := hstart ht
      have hskip : skip (a ++ (c :: t' ++ b) ++ r) = c :: t' ++ (b ++ r) := by
        rw [List.append_assoc, skip_append ha, List.append_assoc]
        exact skip_of_starts ⟨c, _, rfl, hc⟩
      rw [padded, hskip, hp.complete ht (hr.ends hb)]
      show Except.ok (v, skip (b ++ r)) = _
      rw [skip_append hb, hr.skip]

/-- A value with white space around it opens. -/
theorem Padded.opens {t : List Char} {v : α} (h : Padded G t v)
    (hstart : ∀ {t v}, G t v → Heads t) :
    Opens t := by
  cases h with
  | mk ha ht hb =>
    obtain ⟨c, r, rfl, hc, hclose, -⟩ := hstart ht
    exact ⟨_, c, _, rfl, ha, hc, hclose⟩

end

/-! ## Members of an object -/

/-- A key, a colon and a value. -/
inductive MemberText (G : Grammar Json) : Grammar (List ℕ × Json)
  | mk {a ts b t : List Char} {ns : List ℕ} {v : Json} (ha : Space a) (hts : CharsText ts ns)
      (hb : Space b) (ht : Padded G t v) :
      MemberText G (a ++ '"' :: (ts ++ '"' :: (b ++ ':' :: t))) (joinSurrogates ns, v)

/-- Take a character. -/
def expect (c : Char) : List Char → Except DecodeError (List Char)
  | [] => .error .malformed
  | c' :: s => if c' = c then .ok s else .error .malformed

/-- Take a member of an object. -/
def member (p : Parser Json) : Parser (List ℕ × Json) := fun s => do
  let s ← expect '"' (skip s)
  let x ← chars s
  let s ← expect ':' (skip x.2)
  let y ← padded p s
  return ((joinSurrogates x.1, y.1), y.2)

theorem expect_eq_ok {c : Char} {s r : List Char} : expect c s = .ok r ↔ s = c :: r := by
  cases s with
  | nil => exact iff_of_false nofun nofun
  | cons c' s =>
    rw [expect]
    split
    · next hc => subst hc; simp
    · next hc => exact iff_of_false nofun fun h => hc (List.cons.inj h).1

/-- What a parser has done that has gone on. -/
theorem bind_eq_ok {α β : Type} {x : Except DecodeError α} {f : α → Except DecodeError β} {b : β}
    (h : x >>= f = .ok b) : ∃ a, x = .ok a ∧ f a = .ok b := by
  cases x with
  | error e => cases h
  | ok a => exact ⟨a, rfl, h⟩

/-- **`member` reads members.** -/
theorem member_reads {p : Parser Json} {G : Grammar Json} (hp : Reads p G Ends)
    (hstart : ∀ {t v}, G t v → Heads t) : Reads (member p) (MemberText G) Closes where
  sound {s m r} h := by
    obtain ⟨s₁, hquote, h⟩ := bind_eq_ok h
    obtain ⟨⟨ns, s₂⟩, hchars, h⟩ := bind_eq_ok h
    obtain ⟨s₃, hcolon, h⟩ := bind_eq_ok h
    obtain ⟨⟨v, s₄⟩, hvalue, h⟩ := bind_eq_ok h
    cases h
    obtain ⟨ts, rfl, hts⟩ := chars_sound hchars
    obtain ⟨t, rfl, ht⟩ := (padded_reads hp hstart).sound hvalue
    obtain ⟨a, ha, hspace⟩ := exists_space s
    obtain ⟨b, hb, hspace'⟩ := exists_space s₂
    refine ⟨_, ?_, .mk hspace hts hspace' ht⟩
    rw [expect_eq_ok] at hquote hcolon
    rw [ha, hquote, hb, hcolon]
    simp
  complete {t m r} h hr := by
    cases h with
    | @mk a ts b t ns v ha hts hb ht =>
      have htext : a ++ '"' :: (ts ++ '"' :: (b ++ ':' :: t)) ++ r =
          a ++ '"' :: (ts ++ '"' :: (b ++ ':' :: (t ++ r))) := by simp
      have hquote : skip (a ++ '"' :: (ts ++ '"' :: (b ++ ':' :: (t ++ r)))) =
          '"' :: (ts ++ '"' :: (b ++ ':' :: (t ++ r))) := by
        rw [skip_append ha]
        exact skip_of_starts ⟨_, _, rfl, rfl⟩
      have hcolon : skip (b ++ ':' :: (t ++ r)) = ':' :: (t ++ r) := by
        rw [skip_append hb]
        exact skip_of_starts ⟨_, _, rfl, rfl⟩
      show (expect '"' (skip (a ++ '"' :: (ts ++ '"' :: (b ++ ':' :: t)) ++ r)) >>= _) = _
      rw [htext, hquote, expect_eq_ok.2 rfl]
      show (chars (ts ++ '"' :: (b ++ ':' :: (t ++ r))) >>= _) = _
      rw [chars_complete hts]
      show (expect ':' (skip (b ++ ':' :: (t ++ r))) >>= _) = _
      rw [hcolon, expect_eq_ok.2 rfl]
      show (padded p (t ++ r) >>= _) = _
      rw [(padded_reads hp hstart).complete ht hr]
      rfl

/-- A member opens. -/
theorem MemberText.opens {G : Grammar Json} {t : List Char} {m : List ℕ × Json}
    (h : MemberText G t m) :
    Opens t := by
  cases h with
  | mk ha => exact ⟨_, '"', _, rfl, ha, rfl, by unfold IsClose; decide⟩

/-! ## Values -/

/-- The constants, with those that only decoders of this kind know. -/
def constants : List (List Char × Json) :=
  [("null".toList, .null), ("true".toList, .bool true), ("false".toList, .bool false),
    ("NaN".toList, .float "NaN".toList), ("Infinity".toList, .float "Infinity".toList),
    ("-Infinity".toList, .float "-Infinity".toList)]

/-- A value; `inner` derives the values in arrays and objects, if these may stand here. -/
inductive ValueText (digits : ℕ) (inner : Option (Grammar Json)) : Grammar Json
  | constant {t : List Char} {v : Json} (h : (t, v) ∈ constants) : ValueText digits inner t v
  | number {t : List Char} {v : Json} (h : NumberText digits t v) : ValueText digits inner t v
  | string {t : List Char} {ns : List ℕ} (h : CharsText t ns) :
      ValueText digits inner ('"' :: (t ++ ['"'])) (.string (joinSurrogates ns))
  | array {G : Grammar Json} {t : List Char} {vs : List Json} (hG : inner = some G)
      (h : ListText (Padded G) ']' t vs) : ValueText digits inner ('[' :: t) (.array vs)
  | object {G : Grammar Json} {t : List Char} {ms : List (List ℕ × Json)} (hG : inner = some G)
      (h : ListText (MemberText G) '}' t ms) : ValueText digits inner ('{' :: t) (.object ms)

/-- The values whose arrays and objects nest at most so deep. -/
def Value (digits : ℕ) : ℕ → Grammar Json
  | 0 => ValueText digits none
  | depth + 1 => ValueText digits (some (Value digits depth))

/-- Take a constant. -/
def constant (s : List Char) : Option (Json × List Char) :=
  constants.findSome? fun x => if x.1.isPrefixOf s then some (x.2, s.drop x.1.length) else none

/-- Take a value; `inner` takes the values in arrays and objects. -/
def scanOnce (digits : ℕ) (inner : Option (Parser Json)) : Parser Json
  | [] => .error .malformed
  | c :: s =>
    if c = '"' then (chars s).map (Prod.map (.string ∘ joinSurrogates) id)
    else if c = '[' then
      match inner with
      | none => .error .tooDeep
      | some p => (list (padded p) ']' s).map (Prod.map .array id)
    else if c = '{' then
      match inner with
      | none => .error .tooDeep
      | some p => (list (member p) '}' s).map (Prod.map .object id)
    else
      match constant (c :: s) with
      | some x => .ok x
      | none => number digits (c :: s)

/-- Take a value whose arrays and objects nest at most so deep. -/
def value (digits : ℕ) : ℕ → Parser Json
  | 0 => scanOnce digits none
  | depth + 1 => scanOnce digits (some (value digits depth))

section
variable {digits : ℕ} {inner : Option (Grammar Json)} {t r : List Char} {v : Json}

/-- A number starts with a digit, or with a minus and a digit. -/
theorem NumberText.heads (h : NumberText digits t v) :
    ∃ c r, t = c :: r ∧ (c.isDigit = true ∨ c = '-' ∧ ∃ d r', r = d :: r' ∧ d.isDigit = true) := by
  have hpart {neg ds : List Char} (hneg : NegText neg) (hds : IntText ds) (rest : List Char) :
      ∃ c r, neg ++ (ds ++ rest) = c :: r ∧
        (c.isDigit = true ∨ c = '-' ∧ ∃ d r', r = d :: r' ∧ d.isDigit = true) := by
    have hdigit : ∃ d r', ds = d :: r' ∧ d.isDigit = true := by
      cases hds with
      | zero => exact ⟨'0', [], rfl, rfl⟩
      | digits hc => exact ⟨_, _, rfl, hc⟩
    obtain ⟨d, r', rfl, hd⟩ := hdigit
    cases hneg with
    | none => exact ⟨d, r' ++ rest, rfl, .inl hd⟩
    | minus => exact ⟨'-', d :: (r' ++ rest), rfl, .inr ⟨rfl, d, _, rfl, hd⟩⟩
  cases h with
  | int hneg hds =>
    have := hpart hneg hds []
    rwa [List.append_nil] at this
  | float hneg hds => exact hpart hneg hds _

/-- A digit or a minus starts a number only. -/
theorem digit_or_minus {c : Char} (h : c.isDigit = true ∨ c = '-') :
    isSpace c = false ∧ ¬ IsClose c ∧ c ≠ byteOrderMark ∧ c ≠ '"' ∧ c ≠ '[' ∧ c ≠ '{' := by
  have hne {d : Char} (hd : d.isDigit = false) (hm : d ≠ '-') : c ≠ d := by
    rintro rfl
    rcases h with h | h
    · rw [hd] at h
      cases h
    · exact hm h
  refine ⟨?_, ?_, hne rfl (by decide), hne rfl (by decide), hne rfl (by decide),
    hne rfl (by decide)⟩
  · simp [isSpace, hne (d := ' ') rfl (by decide), hne (d := '\t') rfl (by decide),
      hne (d := '\n') rfl (by decide), hne (d := '\r') rfl (by decide)]
  · rintro (hc | hc)
    · exact hne rfl (by decide) hc
    · exact hne rfl (by decide) hc

theorem constant_sound (h : constant r = some (v, t)) : ∃ x, (x, v) ∈ constants ∧ r = x ++ t := by
  obtain ⟨⟨x, v'⟩, hx, h⟩ := List.exists_of_findSome?_eq_some h
  dsimp only at h
  split at h
  · next hpre =>
    cases h
    obtain ⟨r', rfl⟩ := List.isPrefixOf_iff_prefix.1 hpre
    exact ⟨x, hx, by rw [List.drop_left]⟩
  · cases h

theorem constant_complete (h : (t, v) ∈ constants) (r : List Char) :
    ∃ c s, t ++ r = c :: s ∧ (isSpace c = false ∧ ¬ IsClose c ∧ c ≠ byteOrderMark) ∧
      c ≠ '"' ∧ c ≠ '[' ∧ c ≠ '{' ∧ constant (c :: s) = some (v, r) := by
  simp only [constants, List.mem_cons, Prod.mk.injEq, List.not_mem_nil, or_false] at h
  rcases h with ⟨rfl, rfl⟩ | ⟨rfl, rfl⟩ | ⟨rfl, rfl⟩ | ⟨rfl, rfl⟩ | ⟨rfl, rfl⟩ | ⟨rfl, rfl⟩
  all_goals
    refine ⟨_, _, rfl, ⟨rfl, by unfold IsClose; decide, by decide⟩, by decide, by decide,
      by decide, ?_⟩
    rfl

/-- A number is no constant. -/
theorem constant_number (h : NumberText digits t v) (r : List Char) : constant (t ++ r) = none := by
  obtain ⟨c, s, rfl, hc⟩ := h.heads
  rw [constant, List.findSome?_eq_none_iff]
  intro x hx
  refine if_neg fun hpre => ?_
  obtain ⟨r', hr⟩ := List.isPrefixOf_iff_prefix.1 hpre
  simp only [constants, List.mem_cons, List.not_mem_nil, or_false] at hx
  rcases hx with rfl | rfl | rfl | rfl | rfl | rfl
  all_goals
    obtain ⟨rfl, hrest⟩ := List.cons.inj hr
    rcases hc with hc | ⟨hminus, d, s', rfl, hd⟩
    · exact absurd hc (by decide)
    · first
      | exact absurd hminus (by decide)
      | obtain ⟨rfl, -⟩ := List.cons.inj hrest
        exact absurd hd (by decide)

/-- A value has a head. -/
theorem ValueText.heads (h : ValueText digits inner t v) : Heads t := by
  cases h with
  | constant h =>
    obtain ⟨c, s, hs, hc, -⟩ := constant_complete h []
    exact ⟨c, s, by rw [← hs, List.append_nil], hc⟩
  | number h =>
    obtain ⟨c, s, rfl, hc⟩ := h.heads
    have hc := digit_or_minus (hc.imp_right And.left)
    exact ⟨c, s, rfl, hc.1, hc.2.1, hc.2.2.1⟩
  | string | array | object => exact ⟨_, _, rfl, rfl, by unfold IsClose; decide, by decide⟩

/-- The first character says which value it is. -/
theorem scanOnce_cons (digits : ℕ) (p : Option (Parser Json)) (c : Char) (s : List Char) :
    scanOnce digits p (c :: s) =
      if c = '"' then (chars s).map (Prod.map (.string ∘ joinSurrogates) id)
      else if c = '[' then
        match p with
        | none => .error .tooDeep
        | some p => (list (padded p) ']' s).map (Prod.map .array id)
      else if c = '{' then
        match p with
        | none => .error .tooDeep
        | some p => (list (member p) '}' s).map (Prod.map .object id)
      else
        match constant (c :: s) with
        | some x => .ok x
        | none => number digits (c :: s) := rfl

/-- **`scanOnce` reads values**, if `inner` does. -/
theorem scanOnce_reads {p : Option (Parser Json)}
    (hp : Option.Rel (fun p G => Reads p G Ends ∧ ∀ {t v}, G t v → Heads t) p inner) :
    Reads (scanOnce digits p) (ValueText digits inner) Ends where
  sound {s v r} h := by
    cases s with
    | nil => cases h
    | cons c s =>
      rw [scanOnce_cons] at h
      split at h
      · next hc =>
        obtain ⟨⟨ns, r'⟩, hs, he⟩ := map_eq_ok h
        cases he
        obtain ⟨t, rfl, ht⟩ := chars_sound hs
        exact ⟨'"' :: (t ++ ['"']), by rw [hc]; simp, .string ht⟩
      split at h
      · next hc =>
        cases hp with
        | none => cases h
        | some hp =>
          obtain ⟨⟨vs, r'⟩, hs, he⟩ := map_eq_ok h
          cases he
          obtain ⟨t, rfl, ht⟩ := (list_reads (padded_reads hp.1 hp.2) (.inl rfl)
            fun h => h.opens hp.2).sound hs
          exact ⟨'[' :: t, by rw [hc]; rfl, .array rfl ht⟩
      split at h
      · next hc =>
        cases hp with
        | none => cases h
        | some hp =>
          obtain ⟨⟨ms, r'⟩, hs, he⟩ := map_eq_ok h
          cases he
          obtain ⟨t, rfl, ht⟩ := (list_reads (member_reads hp.1 hp.2) (.inr rfl)
            fun h => h.opens).sound hs
          exact ⟨'{' :: t, by rw [hc]; rfl, .object rfl ht⟩
      split at h
      · next x hx =>
        cases h
        obtain ⟨t, ht, hs⟩ := constant_sound hx
        exact ⟨t, hs, .constant ht⟩
      · obtain ⟨t, ht, hv⟩ := (number_reads digits).sound h
        exact ⟨t, ht, .number hv⟩
  complete {t v r} h hr := by
    cases h with
    | constant h =>
      obtain ⟨c, s, hs, -, h1, h2, h3, hconst⟩ := constant_complete h r
      rw [hs, scanOnce_cons, if_neg h1, if_neg h2, if_neg h3, hconst]
    | number h =>
      obtain ⟨c, s, rfl, hc⟩ := h.heads
      obtain ⟨-, -, -, h1, h2, h3⟩ := digit_or_minus (hc.imp_right And.left)
      have hconst := constant_number h r
      have hnumber := (number_reads digits).complete h hr
      rw [List.cons_append] at hconst hnumber ⊢
      rw [scanOnce_cons, if_neg h1, if_neg h2, if_neg h3, hconst]
      exact hnumber
    | @string t ns h =>
      rw [List.cons_append, List.append_assoc, List.singleton_append, scanOnce_cons, if_pos rfl,
        chars_complete h]
      rfl
    | @array G t vs hG h =>
      subst hG
      cases hp with
      | some hp =>
        have hlist := (list_reads (padded_reads hp.1 hp.2) (.inl rfl)
          fun h => h.opens hp.2).complete (r := r) h trivial
        rw [List.cons_append, scanOnce_cons, if_neg (by decide), if_pos rfl]
        dsimp only
        rw [hlist]
        rfl
    | @object G t ms hG h =>
      subst hG
      cases hp with
      | some hp =>
        have hlist := (list_reads (member_reads hp.1 hp.2) (.inr rfl)
          fun h => h.opens).complete (r := r) h trivial
        rw [List.cons_append, scanOnce_cons, if_neg (by decide), if_neg (by decide), if_pos rfl]
        dsimp only
        rw [hlist]
        rfl

/-- A value has a head, at any depth. -/
theorem Value.heads {depth : ℕ} (h : Value digits depth t v) : Heads t := by
  cases depth with
  | zero => exact ValueText.heads h
  | succ depth => exact ValueText.heads h

/-- **`value` reads values**, at any depth. -/
theorem value_reads (digits depth : ℕ) : Reads (value digits depth) (Value digits depth) Ends := by
  induction depth with
  | zero => exact scanOnce_reads .none
  | succ depth ih => exact scanOnce_reads (.some ⟨ih, Value.heads⟩)

end

/-! ## More depth and more digits -/

section
variable {α : Type} {G G' : Grammar α} {close : Char} {t : List Char}

theorem ItemsText.mono (hG : ∀ {t a}, G t a → G' t a) {as : List α} (h : ItemsText G t as) :
    ItemsText G' t as := by
  induction h with
  | one ht => exact .one (hG ht)
  | more ht _ ih => exact .more (hG ht) ih

theorem ListText.mono (hG : ∀ {t a}, G t a → G' t a) {as : List α} (h : ListText G close t as) :
    ListText G' close t as := by
  cases h with
  | nil ha => exact .nil ha
  | items ht => exact .items (ht.mono hG)

theorem Padded.mono (hG : ∀ {t a}, G t a → G' t a) {a : α} (h : Padded G t a) : Padded G' t a := by
  cases h with
  | mk ha ht hb => exact .mk ha (hG ht) hb

theorem MemberText.mono {G G' : Grammar Json} (hG : ∀ {t v}, G t v → G' t v) {m : List ℕ × Json}
    (h : MemberText G t m) : MemberText G' t m := by
  cases h with
  | mk ha hts hb ht => exact .mk ha hts hb (ht.mono hG)

theorem NumberText.mono {digits digits' : ℕ} (hle : digits ≤ digits') {v : Json}
    (h : NumberText digits t v) : NumberText digits' t v := by
  cases h with
  | int hneg hds hlen => exact .int hneg hds (hlen.trans hle)
  | float hneg hds hfs hes hne => exact .float hneg hds hfs hes hne

/-- A value is a value where more is allowed. -/
theorem ValueText.mono {digits digits' : ℕ} (hle : digits ≤ digits')
    {inner inner' : Option (Grammar Json)}
    (hinner : ∀ G, inner = some G → ∃ G', inner' = some G' ∧ ∀ {t v}, G t v → G' t v)
    {v : Json} (h : ValueText digits inner t v) : ValueText digits' inner' t v := by
  cases h with
  | constant h => exact .constant h
  | number h => exact .number (h.mono hle)
  | string h => exact .string h
  | array hG h =>
    obtain ⟨G', hG', hmono⟩ := hinner _ hG
    exact .array hG' (h.mono fun h => h.mono hmono)
  | object hG h =>
    obtain ⟨G', hG', hmono⟩ := hinner _ hG
    exact .object hG' (h.mono fun h => h.mono hmono)

theorem Value.mono {digits digits' depth depth' : ℕ} (hdigits : digits ≤ digits')
    (hdepth : depth ≤ depth') {v : Json} (h : Value digits depth t v) :
    Value digits' depth' t v := by
  induction depth generalizing depth' t v with
  | zero =>
    cases depth' with
    | zero => exact ValueText.mono hdigits (by rintro _ ⟨⟩) h
    | succ depth' => exact ValueText.mono hdigits (by rintro _ ⟨⟩) h
  | succ depth ih =>
    cases depth' with
    | zero => exact absurd hdepth (Nat.not_succ_le_zero depth)
    | succ depth' =>
      refine ValueText.mono hdigits ?_ h
      rintro G ⟨⟩
      exact ⟨_, rfl, fun h => ih (Nat.le_of_succ_le_succ hdepth) h⟩

end

/-! ## Texts -/

/-- A text is a value with white space around it. -/
def Text (limits : Limits) (s : List Char) (v : Json) : Prop :=
  ∃ a t b, s = a ++ (t ++ b) ∧ Space a ∧ Space b ∧ Value limits.digits limits.depth t v

/-- Decode a text. A byte order mark is refused. -/
def loads (limits : Limits) (s : List Char) : Except DecodeError Json :=
  if s.head? = some byteOrderMark then .error .malformed
  else
    match value limits.digits limits.depth (skip s) with
    | .error e => .error e
    | .ok (v, r) => if skip r = [] then .ok v else .error .malformed

section
variable {limits : Limits} {s : List Char} {v : Json}

/-- White space ends a number. -/
theorem Space.ends {b : List Char} (hb : Space b) : Ends b := by
  have := Closes.ends (r := [',']) hb ⟨',', [], rfl, .inl rfl⟩
  intro c hc
  refine this c ?_
  cases b with
  | nil => cases hc
  | cons c' b => exact hc

/-- **What is decoded is what the grammar derives within the limits.** -/
theorem loads_eq_ok : loads limits s = .ok v ↔ Text limits s v := by
  constructor
  · intro h
    rw [loads] at h
    split at h
    · cases h
    · split at h
      · cases h
      · next v' r hvalue =>
        split at h
        · next hr =>
          cases h
          obtain ⟨t, ht, hv⟩ := (value_reads ..).sound hvalue
          obtain ⟨a, ha, hspace⟩ := exists_space s
          obtain ⟨b, hb, hspace'⟩ := exists_space r
          rw [hr, List.append_nil] at hb
          refine ⟨a, t, r, ?_, hspace, hb ▸ hspace', hv⟩
          rw [← ht, ← ha]
        · cases h
  · rintro ⟨a, t, b, rfl, ha, hb, hv⟩
    obtain ⟨c, t', rfl, hc, -, hne⟩ := hv.heads
    have hmark : (a ++ (c :: t' ++ b)).head? ≠ some byteOrderMark := by
      intro h
      cases a with
      | nil => exact hne (Option.some.inj h)
      | cons c' a =>
        cases h
        exact absurd (ha _ (.head _)) (by decide)
    have hskip : skip (a ++ (c :: t' ++ b)) = c :: t' ++ b := by
      rw [skip_append ha]
      exact skip_of_starts ⟨c, _, rfl, hc⟩
    rw [loads, if_neg hmark, hskip, (value_reads ..).complete hv hb.ends]
    dsimp only
    rw [if_pos (skip_space hb)]

/-- A text derives one value, whatever the limits. -/
theorem Text.unique {limits' : Limits} {v' : Json} (h : Text limits s v) (h' : Text limits' s v') :
    v = v' := by
  let both : Limits := ⟨max limits.depth limits'.depth, max limits.digits limits'.digits⟩
  have hmono {l : Limits} {v : Json} (hdepth : l.depth ≤ both.depth)
    (hdigits : l.digits ≤ both.digits)
      (h : Text l s v) : loads both s = .ok v := by
    obtain ⟨a, t, b, rfl, ha, hb, hv⟩ := h
    exact loads_eq_ok.2 ⟨a, t, b, rfl, ha, hb, hv.mono hdigits hdepth⟩
  have hv := hmono (le_max_left ..) (le_max_left ..) h
  have hv' := hmono (le_max_right ..) (le_max_right ..) h'
  exact Except.ok.inj (hv.symm.trans hv')

end

end Json

end EventSphere
