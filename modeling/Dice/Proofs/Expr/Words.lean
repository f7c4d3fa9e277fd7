import Mathlib.Data.List.SplitBy
import Mathlib.Data.List.TakeWhile
import Dice.Expr.Token
import Dice.Proofs.Decimal

/-! The words of a text, piece by piece. Blanks and symbols cut a text: the words of the
whole are those before the cut and those after it, and between them the symbol. What
remains between two cuts is a single lexeme, such as a row of digits. -/

namespace Dice.Token

open Text (isBlank)

variable {c d : Char} {l m : List Char}

/-! ### Characters -/

theorem isBlank_eq_false_of_isDigit (h : c.isDigit) : isBlank c = false := by
  rw [Char.isDigit_iff_toNat] at h
  have h0 : '0'.toNat = 48 := rfl
  have h9 : '9'.toNat = 57 := rfl
  simp only [isBlank, Text.blankRanges, List.any_cons, List.any_nil, Bool.or_false,
    Bool.or_eq_false_iff, Bool.and_eq_false_iff, decide_eq_false_iff_not]
  omega

theorem isDigit_eq_false_of_isBlank (h : isBlank c) : c.isDigit = false := by
  rw [Bool.eq_false_iff]
  intro hdigit
  exact absurd h (by simp [isBlank_eq_false_of_isDigit hdigit])

theorem class_eq_digit (h : c.isDigit) : Class.ofChar c = .digit := by
  simp [Class.ofChar, isBlank_eq_false_of_isDigit h, h]

theorem isDigit_of_class (h : Class.ofChar c = .digit) : c.isDigit := by
  unfold Class.ofChar at h
  split at h
  · cases h
  · split at h
    · assumption
    · split at h <;> cases h

theorem class_eq_blank_iff : Class.ofChar c = .blank ↔ isBlank c := by
  unfold Class.ofChar
  split
  · simp [*]
  · split
    · simp [*]
    · split <;> simp [*]

/-- The characters that are words are no blanks and no digits. -/
theorem class_eq_symbol {kind : Kind} (h : symbol? c = some kind) : Class.ofChar c = .symbol := by
  unfold symbol? at h
  split at h <;> first | decide | cases h

theorem symbol?_ne_integer {n : Nat} : symbol? c ≠ some (.integer n) := by
  unfold symbol?
  split <;> simp

/-- No two characters are the same word. -/
theorem symbol?_inj {kind : Kind} (hc : symbol? c = some kind) (hd : symbol? d = some kind) :
    c = d := by
  unfold symbol? at hc
  split at hc <;> cases hc <;> unfold symbol? at hd <;> split at hd <;> first | rfl | cases hd

theorem isBlank_eq_false_of_symbol {kind : Kind} (h : symbol? c = some kind) :
    isBlank c = false := by
  rw [Bool.eq_false_iff]
  intro hb
  rw [← class_eq_blank_iff, class_eq_symbol h] at hb
  cases hb

theorem joins_eq_false_of_isBlank_ne (h : isBlank c ≠ isBlank d) : joins c d = false := by
  unfold joins
  rw [Bool.and_eq_false_iff]
  left
  rw [decide_eq_false_iff_not]
  intro hclass
  apply h
  rw [Bool.eq_iff_iff, ← class_eq_blank_iff, ← class_eq_blank_iff, hclass]

theorem joins_symbol_left (h : Class.ofChar c = .symbol) : joins c d = false := by
  simp [joins, h]

theorem joins_symbol_right (h : Class.ofChar d = .symbol) : joins c d = false := by
  unfold joins
  by_cases hc : Class.ofChar c = .symbol <;> simp [hc, h]

theorem class_eq_of_joins (h : joins c d) : Class.ofChar c = Class.ofChar d := by
  simp only [joins, Bool.and_eq_true, decide_eq_true_eq] at h
  exact h.1

theorem isDigit_iff_of_joins (h : joins c d) : c.isDigit ↔ d.isDigit := by
  have hclass := class_eq_of_joins h
  exact ⟨fun hc => isDigit_of_class (hclass ▸ class_eq_digit hc),
    fun hd => isDigit_of_class (hclass ▸ class_eq_digit hd)⟩

/-! ### Words -/

/-- The lexemes that are not blank. -/
def words (text : List Char) : List (List Char) :=
  (lexemes text).filter fun lexeme => !lexeme.all isBlank

theorem words_append_of_joins (h : ∀ x ∈ l.getLast?, ∀ y ∈ m.head?, joins x y = false) :
    words (l ++ m) = words l ++ words m := by
  unfold words lexemes
  rw [List.splitBy_append h, List.filter_append]

/-- Where blanks begin or end, a text is cut. -/
theorem words_append_of_isBlank_ne
    (h : ∀ x ∈ l.getLast?, ∀ y ∈ m.head?, isBlank x ≠ isBlank y) :
    words (l ++ m) = words l ++ words m :=
  words_append_of_joins fun x hx y hy => joins_eq_false_of_isBlank_ne (h x hx y hy)

theorem words_eq_nil_of_isBlank (h : ∀ x ∈ l, isBlank x) : words l = [] := by
  unfold words lexemes
  rw [List.filter_eq_nil_iff]
  intro lexeme hlexeme
  have hsub : ∀ x ∈ lexeme, x ∈ l := fun x hx => by
    rw [← List.flatten_splitBy joins l]
    exact List.mem_flatten_of_mem hlexeme hx
  simpa using fun x hx => h x (hsub x hx)

/-- What is left of a text does not go on with what was dropped. -/
theorem head_dropWhile {p : Char → Bool} (h : c ∈ (l.dropWhile p).head?) : p c = false := by
  have hrest := List.head?_dropWhile_not p l
  rwa [Option.mem_def.mp h] at hrest

/-- Blanks in front of a text change none of its words. -/
theorem words_blanks_append (h : ∀ x ∈ l, isBlank x) : words (l ++ m) = words m := by
  have hcut : ∀ {k : List Char}, (∀ x ∈ k, isBlank x) →
      words (k ++ m.dropWhile isBlank) = words (m.dropWhile isBlank) := by
    intro k hk
    rw [words_append_of_isBlank_ne, words_eq_nil_of_isBlank hk, List.nil_append]
    intro x hx y hy
    rw [hk x (List.mem_of_getLast? hx), head_dropWhile hy]
    decide
  have htake : ∀ x ∈ m.takeWhile isBlank, isBlank x := fun x hx => List.mem_takeWhile_imp hx
  conv_lhs => rw [← List.takeWhile_append_dropWhile (p := isBlank) (l := m), ← List.append_assoc]
  conv_rhs => rw [← List.takeWhile_append_dropWhile (p := isBlank) (l := m)]
  rw [hcut htake, hcut fun x hx => (List.mem_append.mp hx).elim (h x) (htake x)]

/-- Every text is one that does not end in a character of a class, and characters of the class
after it. -/
theorem exists_append_trailing (p : Char → Bool) (l : List Char) :
    ∃ k trailing, l = k ++ trailing ∧ (∀ x ∈ trailing, p x) ∧ ∀ x ∈ k.getLast?, p x = false := by
  refine ⟨(l.reverse.dropWhile p).reverse, (l.reverse.takeWhile p).reverse, ?_, ?_, ?_⟩
  · rw [← List.reverse_append, List.takeWhile_append_dropWhile, List.reverse_reverse]
  · exact fun x hx => List.mem_takeWhile_imp (List.mem_reverse.mp hx)
  · intro x hx
    rw [List.getLast?_reverse] at hx
    exact head_dropWhile hx

/-- A text that ends in a digit ends in a row of digits. -/
theorem exists_append_digits (h : ∃ c ∈ l.getLast?, c.isDigit) :
    ∃ k digits, l = k ++ digits ∧ digits ≠ [] ∧ (∀ x ∈ digits, x.isDigit) ∧
      ∀ x ∈ k.getLast?, x.isDigit = false := by
  obtain ⟨k, digits, rfl, hdigits, hk⟩ := exists_append_trailing Char.isDigit l
  refine ⟨k, digits, rfl, ?_, hdigits, hk⟩
  rintro rfl
  obtain ⟨c, hc, hdigit⟩ := h
  rw [List.append_nil] at hc
  simp [hk c hc] at hdigit

/-- A blank cuts a text. -/
theorem words_append_blank (hc : isBlank c) : words (l ++ c :: m) = words l ++ words m := by
  obtain ⟨k, blanks, rfl, hblanks, hk⟩ := exists_append_trailing isBlank l
  have hcut : ∀ {n : List Char}, (∀ y ∈ n.head?, isBlank y) → words (k ++ n) = words k ++ words n :=
    fun hn => words_append_of_isBlank_ne fun x hx y hy => by
      rw [hk x hx, hn y hy]
      decide
  have hhead : ∀ {n : List Char}, (∀ x ∈ n, isBlank x) → ∀ y ∈ (n ++ c :: m).head?, isBlank y := by
    intro n hn y hy
    cases n with
    | nil =>
      obtain rfl : c = y := by simpa using hy
      exact hc
    | cons x n =>
      obtain rfl : x = y := by simpa using hy
      exact hn x List.mem_cons_self
  rw [List.append_assoc, hcut (hhead hblanks), hcut fun y hy => hblanks y (List.mem_of_head? hy),
    words_eq_nil_of_isBlank hblanks, List.append_nil, List.append_cons, words_blanks_append]
  intro x hx
  rcases List.mem_append.mp hx with hx | hx
  · exact hblanks x hx
  · rw [List.mem_singleton.mp hx]
    exact hc

theorem words_append_blanks {blanks : List Char} (hne : blanks ≠ [])
    (hblanks : ∀ x ∈ blanks, isBlank x) : words (l ++ (blanks ++ m)) = words l ++ words m := by
  cases blanks with
  | nil => exact absurd rfl hne
  | cons c blanks =>
    rw [List.cons_append, words_append_blank (hblanks c List.mem_cons_self),
      words_blanks_append fun x hx => hblanks x (List.mem_cons_of_mem c hx)]

/-- A text is cut wherever its lexemes end, and between blanks. -/
theorem words_append_of_joins_isBlank
    (h : ∀ x ∈ l.getLast?, ∀ y ∈ m.head?, joins x y → isBlank x) :
    words (l ++ m) = words l ++ words m := by
  obtain ⟨k, blanks, rfl, hblanks, hk⟩ := exists_append_trailing isBlank l
  by_cases hne : blanks = []
  · subst hne
    rw [List.append_nil] at h ⊢
    refine words_append_of_joins fun x hx y hy => ?_
    rw [Bool.eq_false_iff]
    intro hjoins
    exact absurd (h x hx y hy hjoins) (by simp [hk x hx])
  · have hleft : words (k ++ blanks) = words k := by
      rw [← List.append_nil blanks, words_append_blanks hne hblanks,
        words_eq_nil_of_isBlank (l := []) (by simp), List.append_nil]
    rw [hleft, List.append_assoc, words_append_blanks hne hblanks]

theorem words_singleton (hc : isBlank c = false) : words [c] = [[c]] := by
  unfold words lexemes
  rw [List.splitBy_of_isChain (by simp) (List.isChain_singleton c)]
  simp [hc]

/-- A symbol cuts a text, and is a word itself. -/
theorem words_append_symbol {kind : Kind} (hc : symbol? c = some kind) :
    words (l ++ c :: m) = words l ++ [c] :: words m := by
  have hclass := class_eq_symbol hc
  rw [words_append_of_joins, ← List.singleton_append, words_append_of_joins,
    words_singleton (isBlank_eq_false_of_symbol hc), List.singleton_append]
  · intro x hx y _
    obtain rfl : c = x := by simpa using hx
    exact joins_symbol_left hclass
  · intro x _ y hy
    obtain rfl : c = y := by simpa using hy
    exact joins_symbol_right hclass

/-- Digits are a single word. -/
theorem words_digits (hne : l ≠ []) (hl : ∀ x ∈ l, x.isDigit) : words l = [l] := by
  have hjoins : ∀ x ∈ l, ∀ y ∈ l, joins x y = true := fun x hx y hy => by
    simp [joins, class_eq_digit (hl x hx), class_eq_digit (hl y hy)]
  unfold words lexemes
  rw [List.splitBy_of_isChain hne (List.pairwise_of_forall_mem_list hjoins).isChain]
  obtain ⟨c, rest, rfl⟩ := List.exists_cons_of_ne_nil hne
  simp [isBlank_eq_false_of_isDigit (hl c List.mem_cons_self)]

/-! ### Spelling -/

/-- The text falls into words of the given kinds. -/
def Spells (text : List Char) (kinds : List Kind) : Prop :=
  ∃ tokens, scan text = .ok tokens ∧ tokens.map Token.kind = kinds

/-- A row of lexemes is read if each that is not blank is a word. -/
theorem ofLexemes_iff {offset : Nat} {lexemes : List (List Char)} {kinds : List Kind} :
    (∃ tokens, ofLexemes offset lexemes = .ok tokens ∧ tokens.map Token.kind = kinds) ↔
      (lexemes.filter fun lexeme => !lexeme.all isBlank).map Kind.ofLexeme? = kinds.map some := by
  induction lexemes generalizing offset kinds with
  | nil => cases kinds <;> simp [ofLexemes]
  | cons lexeme rest ih =>
    rw [ofLexemes]
    by_cases hblank : lexeme.all isBlank
    · simp only [hblank, ↓reduceIte]
      rw [ih, List.filter_cons_of_neg (by simpa using hblank)]
    · rw [if_neg hblank, List.filter_cons_of_pos (by simpa using hblank), List.map_cons]
      cases hkind : Kind.ofLexeme? lexeme with
      | none => cases kinds <;> simp
      | some kind =>
        cases kinds with
        | nil =>
          cases hrest : ofLexemes (offset + lexeme.length) rest <;> simp [bind, Except.bind]
        | cons k kinds =>
          rw [List.map_cons, List.cons.injEq, ← @ih (offset + lexeme.length)]
          cases hrest : ofLexemes (offset + lexeme.length) rest <;> simp [bind, Except.bind]

theorem spells_iff_words {text : List Char} {kinds : List Kind} :
    Spells text kinds ↔ (words text).map Kind.ofLexeme? = kinds.map some := ofLexemes_iff

theorem spells_nil {kinds : List Kind} : Spells [] kinds ↔ kinds = [] := by
  rw [spells_iff_words]
  cases kinds <;> simp [words, lexemes]

/-- What a cut text spells. -/
theorem spells_iff_of_words {text : List Char} (h : words text = words l ++ words m)
    {kinds : List Kind} :
    Spells text kinds ↔ ∃ a b, Spells l a ∧ Spells m b ∧ kinds = a ++ b := by
  simp only [spells_iff_words, h, List.map_append]
  constructor
  · intro h
    obtain ⟨a, b, rfl, ha, hb⟩ := List.map_eq_append_iff.mp h.symm
    exact ⟨a, b, ha.symm, hb.symm, rfl⟩
  · rintro ⟨a, b, ha, hb, rfl⟩
    rw [ha, hb, List.map_append]

theorem spells_append_blank (hc : isBlank c) {kinds : List Kind} :
    Spells (l ++ c :: m) kinds ↔ ∃ a b, Spells l a ∧ Spells m b ∧ kinds = a ++ b :=
  spells_iff_of_words (words_append_blank hc)

theorem ofLexeme?_symbol {kind : Kind} (hc : symbol? c = some kind) :
    Kind.ofLexeme? [c] = some kind := by
  have hdigit : ¬ c.isDigit := by
    intro h
    have := class_eq_symbol hc
    rw [class_eq_digit h] at this
    cases this
  rw [Kind.ofLexeme?, if_neg hdigit, hc]

theorem spells_append_symbol {kind : Kind} (hc : symbol? c = some kind) {kinds : List Kind} :
    Spells (l ++ c :: m) kinds ↔ ∃ a b, Spells l a ∧ Spells m b ∧ kinds = a ++ kind :: b := by
  simp only [spells_iff_words, words_append_symbol hc, List.map_append, List.map_cons,
    ofLexeme?_symbol hc]
  constructor
  · intro h
    obtain ⟨a, rest, rfl, ha, hrest⟩ := List.map_eq_append_iff.mp h.symm
    obtain ⟨k, b, rfl, hk, hb⟩ := List.map_eq_cons_iff.mp hrest
    obtain rfl : k = kind := Option.some.inj hk
    exact ⟨a, b, ha.symm, hb.symm, rfl⟩
  · rintro ⟨a, b, ha, hb, rfl⟩
    rw [ha, hb, List.map_append, List.map_cons]

/-- A symbol between blanks. -/
theorem spells_operator {kind : Kind} (hc : symbol? c = some kind) {kinds : List Kind} :
    Spells (l ++ ' ' :: c :: ' ' :: m) kinds ↔
      ∃ a b, Spells l a ∧ Spells m b ∧ kinds = a ++ kind :: b := by
  have hblank : isBlank ' ' := by decide
  rw [← List.singleton_append (x := ' ') (l := c :: _), ← List.append_assoc,
    spells_append_symbol hc, ← List.nil_append (' ' :: m)]
  simp only [spells_append_blank hblank, spells_nil]
  constructor
  · rintro ⟨_, _, ⟨a, _, ha, rfl, rfl⟩, ⟨_, b, rfl, hb, hright⟩, h⟩
    exact ⟨a, b, ha, hb, by simpa [hright] using h⟩
  · rintro ⟨a, b, ha, hb, rfl⟩
    exact ⟨a, b, ⟨a, [], ha, rfl, by simp⟩, ⟨[], b, rfl, hb, rfl⟩, rfl⟩

/-- Digits spell a number, if a word can hold it. -/
theorem spells_digits (hne : l ≠ []) (hl : ∀ x ∈ l, x.isDigit) {kinds : List Kind} :
    Spells l kinds ↔ (Nat.ofDigitChars 10 l 0 : Int) ≤ Word.greatest ∧
      kinds = [.integer (Nat.ofDigitChars 10 l 0)] := by
  obtain ⟨c, rest, rfl⟩ := List.exists_cons_of_ne_nil hne
  rw [spells_iff_words, words_digits hne hl, List.map_singleton, Kind.ofLexeme?,
    if_pos (hl c List.mem_cons_self)]
  generalize Nat.ofDigitChars 10 (c :: rest) 0 = n
  by_cases hn : (n : Int) ≤ Word.greatest
  · rw [if_pos hn, and_iff_right hn, ← List.map_singleton (f := some),
      List.map_inj_right fun _ _ h => Option.some.inj h, eq_comm]
  · rw [if_neg hn]
    cases kinds <;> simp [hn]

/-- A number is spelled by its digits. -/
theorem spells_toDigits {n : Nat} {kinds : List Kind} :
    Spells (Nat.toDigits 10 n) kinds ↔ (n : Int) ≤ Word.greatest ∧ kinds = [.integer n] := by
  rw [spells_digits Nat.toDigits_ne_nil (isDigit_toDigits n), Nat.ofDigitChars_ten_toDigits]

/-- All digits of a row that stand together are one number. -/
theorem spells_number {digits : List Char} (hl : ∀ x ∈ l.getLast?, x.isDigit = false)
    (hm : ∀ y ∈ m.head?, y.isDigit = false) (hne : digits ≠ [])
    (hdigits : ∀ x ∈ digits, x.isDigit) {kinds : List Kind} :
    Spells (l ++ (digits ++ m)) kinds ↔
      ∃ a b, Spells l a ∧ Spells m b ∧ (Nat.ofDigitChars 10 digits 0 : Int) ≤ Word.greatest ∧
        kinds = a ++ .integer (Nat.ofDigitChars 10 digits 0) :: b := by
  have hapart : ∀ {x y : Char}, x.isDigit = !y.isDigit → joins x y = false := by
    intro x y hxy
    rw [Bool.eq_false_iff]
    intro hjoins
    have := isDigit_iff_of_joins hjoins
    cases hx : x.isDigit <;> cases hy : y.isDigit <;> simp_all
  have hleft : words (l ++ (digits ++ m)) = words l ++ words (digits ++ m) := by
    refine words_append_of_joins fun x hx y hy => hapart ?_
    rw [List.head?_append_of_ne_nil _ hne] at hy
    rw [hl x hx, hdigits y (List.mem_of_head? hy)]
    rfl
  have hright : words (digits ++ m) = words digits ++ words m := by
    refine words_append_of_joins fun x hx y hy => hapart ?_
    rw [hm y hy, hdigits x (List.mem_of_getLast? hx)]
    rfl
  rw [spells_iff_of_words hleft]
  simp only [spells_iff_of_words hright, spells_digits hne hdigits]
  constructor
  · rintro ⟨a, _, ha, ⟨_, b, ⟨hn, rfl⟩, hb, rfl⟩, rfl⟩
    exact ⟨a, b, ha, hb, hn, by simp⟩
  · rintro ⟨a, b, ha, hb, hn, rfl⟩
    exact ⟨a, _, ha, ⟨_, b, ⟨hn, rfl⟩, hb, rfl⟩, by simp⟩

/-- A part of a row of digits is no greater number than the row. -/
theorem ofDigitChars_le_append (l m : List Char) :
    Nat.ofDigitChars 10 l 0 ≤ Nat.ofDigitChars 10 (l ++ m) 0 ∧
      Nat.ofDigitChars 10 m 0 ≤ Nat.ofDigitChars 10 (l ++ m) 0 := by
  rw [Nat.ofDigitChars_append,
    @Nat.ofDigitChars_eq_ofDigitChars_zero m (Nat.ofDigitChars 10 l 0)]
  have hleft : Nat.ofDigitChars 10 l 0 ≤ 10 ^ m.length * Nat.ofDigitChars 10 l 0 :=
    Nat.le_mul_of_pos_left _ (Nat.pow_pos (by decide))
  omega

/-- Digits on both sides of blanks are two numbers. -/
theorem spells_numbers {digits blanks apart : List Char} {a b : List Kind}
    (hl : ∀ x ∈ l.getLast?, x.isDigit = false) (hm : ∀ y ∈ m.head?, y.isDigit = false)
    (hdigits : digits ≠ [] ∧ ∀ x ∈ digits, x.isDigit)
    (hblanks : blanks ≠ [] ∧ ∀ x ∈ blanks, isBlank x)
    (hapart : apart ≠ [] ∧ ∀ x ∈ apart, x.isDigit) (ha : Spells l a) (hb : Spells m b)
    (hfirst : (Nat.ofDigitChars 10 digits 0 : Int) ≤ Word.greatest)
    (hsecond : (Nat.ofDigitChars 10 apart 0 : Int) ≤ Word.greatest) :
    Spells (l ++ (digits ++ (blanks ++ (apart ++ m))))
      (a ++ .integer (Nat.ofDigitChars 10 digits 0) ::
        .integer (Nat.ofDigitChars 10 apart 0) :: b) := by
  have hbehind : Spells (blanks ++ (apart ++ m)) (.integer (Nat.ofDigitChars 10 apart 0) :: b) := by
    rw [spells_iff_words, words_blanks_append hblanks.2, ← spells_iff_words,
      ← List.nil_append (apart ++ m)]
    exact (spells_number (by simp) hm hapart.1 hapart.2).mpr
      ⟨[], b, spells_nil.mpr rfl, hb, hsecond, rfl⟩
  have hhead : ∀ y ∈ (blanks ++ (apart ++ m)).head?, y.isDigit = false := by
    rw [List.head?_append_of_ne_nil _ hblanks.1]
    exact fun y hy => isDigit_eq_false_of_isBlank (hblanks.2 y (List.mem_of_head? hy))
  exact (spells_number hl hhead hdigits.1 hdigits.2).mpr ⟨a, _, ha, hbehind, hfirst, rfl⟩

/-- A word can hold every number that is spelled. -/
theorem Spells.integer_le {text : List Char} {kinds : List Kind} (h : Spells text kinds) {n : Nat}
    (hn : .integer n ∈ kinds) : (n : Int) ≤ Word.greatest := by
  rw [spells_iff_words] at h
  have hmem : some (.integer n) ∈ (words text).map Kind.ofLexeme? :=
    h ▸ List.mem_map_of_mem hn
  obtain ⟨lexeme, -, hlexeme⟩ := List.mem_map.mp hmem
  cases lexeme with
  | nil => cases hlexeme
  | cons c rest =>
    rw [Kind.ofLexeme?] at hlexeme
    split at hlexeme
    · simp only [Option.ite_none_right_eq_some, Option.some.injEq, Kind.integer.injEq] at hlexeme
      obtain ⟨hle, rfl⟩ := hlexeme
      exact hle
    · exact absurd hlexeme symbol?_ne_integer

end Dice.Token
