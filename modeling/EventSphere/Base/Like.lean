import Mathlib.Data.List.Infix

/-!
# The pattern language of `LIKE`

SQL's `LIKE` with a folding of characters, which makes it `ILIKE`: in a pattern, `%` stands for any
text, `_` for any one character, and `\` takes the next character for itself. A pattern is read to a
list of `Token`s, which a text matches as a whole (`fits`).

A text without `%`, `_` and `\`, between two `%`, is a pattern for the texts that contain it
(`like_contains`). With one of them it is not: the shortest text that matches the pattern does not
contain it (`exists_like`).
-/

namespace EventSphere.Like

/-- The characters with a meaning in a pattern. -/
def metacharacters : List Char := ['%', '_', '\\']

/-- A folding of characters that touches none of the characters with a meaning. -/
structure Folding where
  fold : Char → Char
  fold_meta : ∀ {c m}, m ∈ metacharacters → (fold c = fold m ↔ c = m)

/-- What a piece of a pattern stands for. -/
inductive Token where
  | any
  | one
  | char (c : Char)
  deriving DecidableEq, Repr

/-- Read a pattern. One that ends with an escape is refused. -/
def parse : List Char → Option (List Token)
  | [] => some []
  | '%' :: p => (parse p).map (.any :: ·)
  | '_' :: p => (parse p).map (.one :: ·)
  | ['\\'] => none
  | '\\' :: c :: p => (parse p).map (.char c :: ·)
  | c :: p => (parse p).map (.char c :: ·)

/-- The text matches the tokens, from its first character to its last. -/
def fits (fold : Char → Char) : List Token → List Char → Bool
  | [], t => t.isEmpty
  | .any :: ts, t => t.tails.any (fits fold ts)
  | .one :: _, [] => false
  | .one :: ts, _ :: t => fits fold ts t
  | .char _ :: _, [] => false
  | .char c :: ts, d :: t => fold d = fold c && fits fold ts t

/-- `text LIKE pattern`, if the pattern is accepted. -/
def like (fold : Char → Char) (pattern text : List Char) : Option Bool :=
  (parse pattern).map (fits fold · text)

section
variable {fold : Char → Char} {ts : List Token} {t : List Char}

/-- A `%` takes some of the text. -/
theorem fits_any : fits fold (.any :: ts) t = true ↔ ∃ u v, t = u ++ v ∧ fits fold ts v = true := by
  simp only [fits, List.any_eq_true, List.mem_tails]
  constructor
  · rintro ⟨v, ⟨u, rfl⟩, h⟩
    exact ⟨u, v, rfl, h⟩
  · rintro ⟨u, v, rfl, h⟩
    exact ⟨v, ⟨u, rfl⟩, h⟩

/-- A last `%` takes what is left. -/
theorem fits_any_nil : fits fold [.any] t = true :=
  fits_any.2 ⟨t, [], (List.append_nil t).symm, rfl⟩

/-- Characters stand for themselves, up to the folding. -/
theorem fits_chars {cs : List Char} :
    fits fold (cs.map .char ++ ts) t = true ↔
      ∃ u v, t = u ++ v ∧ u.map fold = cs.map fold ∧ fits fold ts v = true := by
  induction cs generalizing t with
  | nil =>
    constructor
    · intro h
      exact ⟨[], t, rfl, rfl, h⟩
    · rintro ⟨u, v, rfl, hu, h⟩
      obtain rfl := List.map_eq_nil_iff.1 hu
      exact h
  | cons c cs ih =>
    cases t with
    | nil => simp [fits]
    | cons d t =>
      simp only [List.map_cons, List.cons_append, fits, Bool.and_eq_true, decide_eq_true_eq, ih]
      constructor
      · rintro ⟨hd, u, v, rfl, hu, h⟩
        exact ⟨d :: u, v, rfl, by simp [hd, hu], h⟩
      · rintro ⟨u, v, hdt, hu, h⟩
        cases u with
        | nil => cases hu
        | cons d' u =>
          obtain ⟨rfl, rfl⟩ := List.cons.inj hdt
          obtain ⟨hd, hu⟩ := List.cons.inj hu
          exact ⟨hd, u, v, rfl, hu, h⟩

/-- Characters between two `%` are matched by the texts that contain them, up to the folding. -/
theorem fits_contains {cs : List Char} :
    fits fold (.any :: (cs.map .char ++ [.any])) t = true ↔ cs.map fold <:+: t.map fold := by
  rw [fits_any]
  constructor
  · rintro ⟨u, v, rfl, h⟩
    obtain ⟨u', v', rfl, hu, -⟩ := fits_chars.1 h
    exact ⟨u.map fold, v'.map fold, by simp [hu]⟩
  · rintro ⟨u, v, h⟩
    obtain ⟨t₁, t₂, rfl, h₁, -⟩ := List.append_eq_map_iff.1 h
    obtain ⟨a, b, rfl, rfl, hb⟩ := List.map_eq_append_iff.1 h₁
    exact ⟨a, b ++ t₂, by simp, fits_chars.2 ⟨b, t₂, rfl, hb, fits_any_nil⟩⟩

end

/-! ## Reading patterns -/

/-- A character without a meaning is read as itself. -/
theorem parse_cons {c : Char} (hc : c ∉ metacharacters) (p : List Char) :
    parse (c :: p) = (parse p).map (.char c :: ·) := by
  simp only [metacharacters, List.mem_cons, List.not_mem_nil, or_false, not_or] at hc
  obtain ⟨h1, h2, h3⟩ := hc
  rw [parse]
  all_goals intros; simp_all

/-- A text without characters with a meaning is read as itself. -/
theorem parse_append {cs : List Char} (hcs : ∀ c ∈ cs, c ∉ metacharacters) (p : List Char) :
    parse (cs ++ p) = (parse p).map (cs.map .char ++ ·) := by
  induction cs with
  | nil => simp
  | cons c cs ih =>
    rw [List.cons_append, parse_cons (hcs c (.head _)), ih fun d hd => hcs d (.tail _ hd),
      Option.map_map]
    rfl

/-- **A pattern of plain characters between two `%`** is matched by the texts that contain them. -/
theorem like_contains (fold : Char → Char) {cs : List Char} (hcs : ∀ c ∈ cs, c ∉ metacharacters)
    (t : List Char) :
    like fold ('%' :: (cs ++ ['%'])) t = some true ↔ cs.map fold <:+: t.map fold := by
  have hparse : parse ('%' :: (cs ++ ['%'])) = some (.any :: (cs.map .char ++ [.any])) := by
    rw [parse, parse_append hcs]
    rfl
  rw [like, hparse, Option.map_some, Option.some_inj, fits_contains]

/-! ## The shortest text -/

/-- A shortest text that matches the tokens. -/
def sample : List Token → List Char
  | [] => []
  | .any :: ts => sample ts
  | .one :: ts => 'x' :: sample ts
  | .char c :: ts => c :: sample ts

theorem fits_sample (fold : Char → Char) (ts : List Token) : fits fold ts (sample ts) = true := by
  induction ts with
  | nil => rfl
  | cons tok ts ih =>
    cases tok with
    | any => exact fits_any.2 ⟨[], sample ts, rfl, ih⟩
    | one => exact ih
    | char c => simp [fits, sample, ih]

/-- A pattern that ends with `%` is accepted, and its shortest text is at most as long as what is
before the `%`; if it is exactly that text, up to the folding, no character of it has a meaning. -/
theorem parse_concat (φ : Folding) (q : List Char) :
    ∃ ts, parse (q ++ ['%']) = some ts ∧ (sample ts).length ≤ q.length ∧
      (q.map φ.fold = (sample ts).map φ.fold → ∀ c ∈ q, c ∉ metacharacters) := by
  induction q using parse.induct with
  | case1 => exact ⟨[.any], rfl, Nat.le_refl 0, by simp⟩
  | case2 p ih =>
    obtain ⟨ts, hp, hlen, -⟩ := ih
    refine ⟨.any :: ts, by simp [parse, hp], Nat.le_succ_of_le hlen, fun h => ?_⟩
    have := congrArg List.length h
    simp only [sample, List.length_map, List.length_cons] at this
    omega
  | case3 p ih =>
    obtain ⟨ts, hp, hlen, -⟩ := ih
    refine ⟨.one :: ts, by simp [parse, hp], Nat.succ_le_succ hlen, fun h => ?_⟩
    have hx := (φ.fold_meta (c := 'x') (m := '_') (by decide)).1 (List.cons.inj h).1.symm
    exact absurd hx (by decide)
  | case4 =>
    -- the escape takes the `%`
    refine ⟨[.char '%'], rfl, Nat.le_refl 1, fun h => ?_⟩
    have hx := (φ.fold_meta (c := '%') (m := '\\') (by decide)).1 (List.cons.inj h).1.symm
    exact absurd hx (by decide)
  | case5 c p ih =>
    obtain ⟨ts, hp, hlen, -⟩ := ih
    refine ⟨.char c :: ts, by simp [parse, hp], by simp [sample]; omega, fun h => ?_⟩
    have := congrArg List.length h
    simp only [sample, List.length_map, List.length_cons] at this
    omega
  | case6 c p h1 h2 h3 h4 ih =>
    obtain ⟨ts, hp, hlen, hplain⟩ := ih
    have hc : c ∉ metacharacters := by
      simp only [metacharacters, List.mem_cons, List.not_mem_nil, or_false]
      rintro (rfl | rfl | rfl)
      · exact h1 rfl
      · exact h2 rfl
      · cases p with
        | nil => exact h3 rfl rfl
        | cons d p => exact h4 d p rfl rfl
    refine ⟨.char c :: ts, by rw [List.cons_append, parse_cons hc, hp]; rfl,
      Nat.succ_le_succ hlen, fun h => ?_⟩
    rintro d (_ | ⟨_, hd⟩)
    · exact hc
    · exact hplain (List.cons.inj h).2 d hd

/-- The shortest text has no characters but those of the pattern and `x`. -/
theorem mem_sample {p : List Char} {ts : List Token} (hp : parse p = some ts) {c : Char}
    (hc : c ∈ sample ts) : c ∈ p ∨ c = 'x' := by
  have hlater {p ts'} {d : Char} (ih : ∀ {ts}, parse p = some ts → c ∈ sample ts → c ∈ p ∨ c = 'x')
      (h : parse p = some ts') (hc : c ∈ sample ts') : c ∈ d :: p ∨ c = 'x' :=
    (ih h hc).imp_left (List.mem_cons_of_mem d)
  induction p using parse.induct generalizing ts with
  | case1 => cases hp; cases hc
  | case2 p ih =>
    obtain ⟨ts, h, rfl⟩ := Option.map_eq_some_iff.1 hp
    exact hlater ih h hc
  | case3 p ih =>
    obtain ⟨ts, h, rfl⟩ := Option.map_eq_some_iff.1 hp
    rcases List.mem_cons.1 hc with rfl | hc
    · exact .inr rfl
    · exact hlater ih h hc
  | case4 => cases hp
  | case5 d p ih =>
    obtain ⟨ts, h, rfl⟩ := Option.map_eq_some_iff.1 hp
    rcases List.mem_cons.1 hc with rfl | hc
    · exact .inl (.tail _ (.head _))
    · exact (hlater (d := d) ih h hc).imp_left (List.mem_cons_of_mem _)
  | case6 d p h1 h2 h3 h4 ih =>
    rw [parse] at hp
    · obtain ⟨ts, h, rfl⟩ := Option.map_eq_some_iff.1 hp
      rcases List.mem_cons.1 hc with rfl | hc
      · exact .inl (.head _)
      · exact hlater ih h hc
    all_goals assumption

/-- **A pattern with a meaning of its own** between two `%` is matched by a text that does not
contain it, is no longer than it, and has no characters but those of the pattern, `%` and `x`. -/
theorem exists_like (φ : Folding) {q : List Char} (hq : ∃ c ∈ q, c ∈ metacharacters) :
    ∃ t ≠ [], like φ.fold ('%' :: (q ++ ['%'])) t = some true ∧ ¬q.map φ.fold <:+: t.map φ.fold ∧
      t.length ≤ q.length ∧ ∀ c ∈ t, c ∈ q ∨ c = '%' ∨ c = 'x' := by
  obtain ⟨ts, hp, hlen, hplain⟩ := parse_concat φ q
  obtain ⟨m, hm, hmeta⟩ := hq
  have hparse : parse ('%' :: (q ++ ['%'])) = some (.any :: ts) := by
    rw [parse, hp]
    rfl
  have hfits (u : List Char) : like φ.fold ('%' :: (q ++ ['%'])) (u ++ sample ts) = some true := by
    rw [like, hparse, Option.map_some, Option.some_inj]
    exact fits_any.2 ⟨u, sample ts, rfl, fits_sample φ.fold ts⟩
  have hpos := List.length_pos_of_mem hm
  by_cases hs : sample ts = []
  · -- the pattern matches every text, and the one text `x` does not contain it
    have hx := hfits ['x']
    rw [hs] at hx
    refine ⟨['x'], by simp, hx, fun hinfix => ?_, hpos, by simp⟩
    have heq := hinfix.eq_of_length (Nat.le_antisymm hinfix.length_le (by simp; omega))
    have hfold : φ.fold m ∈ ['x'].map φ.fold := heq ▸ List.mem_map_of_mem hm
    have hxm := (φ.fold_meta hmeta).1 (List.mem_singleton.1 hfold).symm
    rw [← hxm] at hmeta
    exact absurd hmeta (by decide)
  · refine ⟨sample ts, hs, hfits [], fun hinfix => ?_, hlen, fun c hc => ?_⟩
    · have heq := hinfix.eq_of_length (Nat.le_antisymm hinfix.length_le (by simpa using hlen))
      exact hplain heq m hm hmeta
    · rcases mem_sample hp hc with hc | rfl
      · rcases List.mem_append.1 hc with hc | hc
        · exact .inl hc
        · exact .inr (.inl (List.mem_singleton.1 hc))
      · exact .inr (.inr rfl)

end EventSphere.Like
