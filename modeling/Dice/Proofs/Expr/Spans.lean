import Dice.Proofs.Expr.Words

/-! Tokens as parts of a text. The lexemes of a text are the text again, a token is one of
them, and its offset is the length of those before it; a text that is refused has a
lexeme that is no word. A lexeme that is a word is a single symbol or a row of digits,
so a text that spells words has no other characters but blanks. -/

namespace Dice.Token

open Text (isBlank)

variable {c d : Char} {lexeme : List Char}

/-! ### Neighbours in a lexeme -/

/-- Characters of a lexeme, each joined to the next. -/
def Joined (lexeme : List Char) : Prop := lexeme.IsChain fun c d => joins c d

theorem joined_of_mem_lexemes {text : List Char} (h : lexeme ∈ lexemes text) : Joined lexeme :=
  List.isChain_of_mem_splitBy h

/-- Characters that join are of one class. -/
theorem Joined.class_eq (h : Joined lexeme) (hc : c ∈ lexeme) (hd : d ∈ lexeme) :
    Class.ofChar c = Class.ofChar d := by
  have hfirst : ∀ {a : Char} {rest : List Char}, Joined (a :: rest) →
      ∀ x ∈ a :: rest, Class.ofChar x = Class.ofChar a := by
    intro a rest h
    induction rest generalizing a with
    | nil => simp
    | cons b rest ih =>
      obtain ⟨hjoins, hrest⟩ := List.isChain_cons_cons.mp h
      intro x hx
      rcases List.mem_cons.mp hx with rfl | hx
      · rfl
      · rw [ih hrest x hx, class_eq_of_joins hjoins]
  cases lexeme with
  | nil => cases hc
  | cons a rest => rw [hfirst h c hc, hfirst h d hd]

theorem Joined.isDigit (h : Joined (c :: lexeme)) (hc : c.isDigit) :
    ∀ x ∈ c :: lexeme, x.isDigit := fun x hx => by
  have hclass := h.class_eq hx List.mem_cons_self
  exact isDigit_of_class (hclass.trans (class_eq_digit hc))

/-- A word is a row of digits or a single symbol. -/
theorem Joined.word_cases {kind : Kind} (h : Joined lexeme)
    (hkind : Kind.ofLexeme? lexeme = some kind) :
    (∃ n, kind = .integer n ∧ ∀ x ∈ lexeme, x.isDigit) ∨
      ∃ c, lexeme = [c] ∧ symbol? c = some kind := by
  cases lexeme with
  | nil => cases hkind
  | cons c rest =>
    rw [Kind.ofLexeme?] at hkind
    split at hkind
    · next hc =>
      simp only [Option.ite_none_right_eq_some] at hkind
      exact .inl ⟨_, (Option.some.inj hkind.2).symm, h.isDigit hc⟩
    · refine .inr ⟨c, ?_, hkind⟩
      cases rest with
      | nil => rfl
      | cons d rest =>
        have hjoins := (List.isChain_cons_cons.mp h).1
        rw [joins_symbol_left (class_eq_symbol hkind)] at hjoins
        cases hjoins

/-- The character of a symbol is the only lexeme that is that word. -/
theorem Joined.eq_symbol {kind : Kind} (h : Joined lexeme) (hc : symbol? c = some kind)
    (hkind : Kind.ofLexeme? lexeme = some kind) : lexeme = [c] := by
  rcases h.word_cases hkind with ⟨n, rfl, -⟩ | ⟨d, rfl, hd⟩
  · exact absurd hc symbol?_ne_integer
  · rw [symbol?_inj hc hd]

/-! ### Lexemes before a token -/

section Row

variable {offset : Nat} {rest : List (List Char)}

theorem ofLexemes_cons_blank (h : lexeme.all isBlank) :
    ofLexemes offset (lexeme :: rest) = ofLexemes (offset + lexeme.length) rest := by
  rw [ofLexemes, if_pos h]

theorem ofLexemes_cons_word {kind : Kind} (h : ¬ lexeme.all isBlank)
    (hkind : Kind.ofLexeme? lexeme = some kind) :
    ofLexemes offset (lexeme :: rest) =
      (ofLexemes (offset + lexeme.length) rest).map (⟨kind, lexeme, offset⟩ :: ·) := by
  rw [ofLexemes, if_neg h, hkind]
  cases ofLexemes (offset + lexeme.length) rest <;> rfl

theorem ofLexemes_cons_unreadable (h : ¬ lexeme.all isBlank)
    (hkind : Kind.ofLexeme? lexeme = none) :
    ofLexemes offset (lexeme :: rest) = .error (.unreadable (String.ofList lexeme) offset) := by
  rw [ofLexemes, if_neg h, hkind]

theorem map_eq_ok_iff {ε α β : Type} {result : Except ε α} {f : α → β} {b : β} :
    result.map f = .ok b ↔ ∃ a, result = .ok a ∧ f a = b := by
  cases result <;> simp [Except.map]

theorem map_eq_error_iff {ε α β : Type} {result : Except ε α} {f : α → β} {error : ε} :
    result.map f = .error error ↔ result = .error error := by
  cases result <;> simp [Except.map]

/-- A token is a lexeme, and its offset is the length of the lexemes before it; from these the
tokens before it are read. -/
theorem ofLexemes_eq_ok {row : List (List Char)} {before after : List Token} {token : Token}
    (h : ofLexemes offset row = .ok (before ++ token :: after)) :
    ∃ l m, row = l ++ token.text :: m ∧ ofLexemes offset l = .ok before ∧
      token.offset = offset + l.flatten.length ∧ Kind.ofLexeme? token.text = some token.kind := by
  induction row generalizing offset before with
  | nil =>
    rw [ofLexemes, Except.ok.injEq] at h
    simp at h
  | cons lexeme row ih =>
    by_cases hblank : lexeme.all isBlank
    · rw [ofLexemes_cons_blank hblank] at h
      obtain ⟨l, m, rfl, hl, hoffset, hkind⟩ := ih h
      refine ⟨lexeme :: l, m, rfl, (ofLexemes_cons_blank hblank).trans hl, ?_, hkind⟩
      rw [hoffset, List.flatten_cons, List.length_append, Nat.add_assoc]
    · cases hword : Kind.ofLexeme? lexeme with
      | none =>
        rw [ofLexemes_cons_unreadable hblank hword] at h
        cases h
      | some kind =>
        rw [ofLexemes_cons_word hblank hword] at h
        obtain ⟨tokens, hrest, htokens⟩ := map_eq_ok_iff.mp h
        cases before with
        | nil =>
          obtain ⟨rfl, -⟩ := List.cons.inj htokens
          exact ⟨[], row, rfl, rfl, rfl, hword⟩
        | cons first before =>
          obtain ⟨rfl, rfl⟩ := List.cons.inj htokens
          obtain ⟨l, m, rfl, hl, hoffset, hkind⟩ := ih hrest
          refine ⟨lexeme :: l, m, rfl, ?_, ?_, hkind⟩
          · rw [ofLexemes_cons_word hblank hword, hl]
            rfl
          · rw [hoffset, List.flatten_cons, List.length_append, Nat.add_assoc]

/-- Behind lexemes that are read, the others are read as they are on their own. -/
theorem ofLexemes_append {l : List (List Char)} {tokens : List Token}
    (h : ofLexemes offset l = .ok tokens) (m : List (List Char)) :
    ofLexemes offset (l ++ m) =
      (ofLexemes (offset + l.flatten.length) m).map (tokens ++ ·) := by
  induction l generalizing offset tokens with
  | nil =>
    obtain rfl := Except.ok.inj h
    cases hrest : ofLexemes offset m <;> simp [Except.map, hrest]
  | cons lexeme l ih =>
    rw [List.cons_append, List.flatten_cons, List.length_append, ← Nat.add_assoc]
    by_cases hblank : lexeme.all isBlank
    · rw [ofLexemes_cons_blank hblank] at h ⊢
      exact ih h
    · cases hword : Kind.ofLexeme? lexeme with
      | none =>
        rw [ofLexemes_cons_unreadable hblank hword] at h
        cases h
      | some kind =>
        rw [ofLexemes_cons_word hblank hword] at h ⊢
        obtain ⟨later, hlater, rfl⟩ := map_eq_ok_iff.mp h
        rw [ih hlater]
        cases ofLexemes (offset + lexeme.length + l.flatten.length) m <;> rfl

/-- A row that is refused is refused at a lexeme that is no word, behind lexemes that are read. -/
theorem ofLexemes_eq_error {row : List (List Char)} {error : ParseError Nat}
    (h : ofLexemes offset row = .error error) :
    ∃ l lexeme m tokens, row = l ++ lexeme :: m ∧ ofLexemes offset l = .ok tokens ∧
      ¬ lexeme.all isBlank ∧ Kind.ofLexeme? lexeme = none ∧
      error = .unreadable (String.ofList lexeme) (offset + l.flatten.length) := by
  induction row generalizing offset with
  | nil => cases h
  | cons lexeme row ih =>
    by_cases hblank : lexeme.all isBlank
    · rw [ofLexemes_cons_blank hblank] at h
      obtain ⟨l, refused, m, tokens, rfl, hl, hrefused, hkind, rfl⟩ := ih h
      refine ⟨lexeme :: l, refused, m, tokens, rfl, (ofLexemes_cons_blank hblank).trans hl,
        hrefused, hkind, ?_⟩
      rw [List.flatten_cons, List.length_append, Nat.add_assoc]
    · cases hword : Kind.ofLexeme? lexeme with
      | none =>
        rw [ofLexemes_cons_unreadable hblank hword] at h
        exact ⟨[], lexeme, row, [], rfl, rfl, hblank, hword, (Except.error.inj h).symm⟩
      | some kind =>
        rw [ofLexemes_cons_word hblank hword, map_eq_error_iff] at h
        obtain ⟨l, refused, m, tokens, rfl, hl, hrefused, hkind, rfl⟩ := ih h
        refine ⟨lexeme :: l, refused, m, ⟨kind, lexeme, offset⟩ :: tokens, rfl, ?_, hrefused,
          hkind, ?_⟩
        · rw [ofLexemes_cons_word hblank hword, hl]
          rfl
        · rw [List.flatten_cons, List.length_append, Nat.add_assoc]

end Row

theorem flatten_lexemes (text : List Char) : (lexemes text).flatten = text :=
  List.flatten_splitBy joins text

/-- The first lexemes of a text are those of what they make up. -/
theorem lexemes_flatten {text : List Char} {l m : List (List Char)} (h : lexemes text = l ++ m) :
    lexemes l.flatten = l := by
  obtain ⟨-, hne, hjoined, hcut⟩ := List.splitBy_eq_iff.mp h
  exact List.splitBy_eq_iff.mpr ⟨rfl, fun hmem => hne (List.mem_append_left m hmem),
    fun lexeme hmem => hjoined lexeme (List.mem_append_left m hmem), hcut.left_of_append⟩

/-- Each word that is spelled stands in the text, behind a text that spells those before it. -/
theorem Spells.exists_lexeme {text : List Char} {a b : List Kind} {kind : Kind}
    (h : Spells text (a ++ kind :: b)) :
    ∃ l lexeme m, text = l ++ (lexeme ++ m) ∧ Spells l a ∧ Joined lexeme ∧
      Kind.ofLexeme? lexeme = some kind := by
  obtain ⟨tokens, hscan, hkinds⟩ := h
  obtain ⟨before, rest, rfl, hbefore, hrest⟩ := List.map_eq_append_iff.mp hkinds
  obtain ⟨token, after, rfl, htoken, -⟩ := List.map_eq_cons_iff.mp hrest
  obtain ⟨l, m, hrow, hl, -, hkind⟩ := ofLexemes_eq_ok hscan
  refine ⟨l.flatten, token.text, m.flatten, ?_, ⟨before, ?_, hbefore⟩, ?_, htoken ▸ hkind⟩
  · rw [← flatten_lexemes text, hrow, List.flatten_append, List.flatten_cons]
  · rw [scan, lexemes_flatten hrow, hl]
  · exact joined_of_mem_lexemes (hrow ▸ List.mem_append_right l List.mem_cons_self)

/-- A text that spells words has no character without a meaning. -/
theorem Spells.class_ne_other {text : List Char} {kinds : List Kind} (h : Spells text kinds)
    (hc : c ∈ text) : Class.ofChar c ≠ .other := by
  rw [← flatten_lexemes text] at hc
  obtain ⟨lexeme, hlexeme, hc⟩ := List.mem_flatten.mp hc
  intro hother
  by_cases hblank : lexeme.all isBlank
  · have hclass := class_eq_blank_iff.mpr (List.all_eq_true.mp hblank c hc)
    cases hother.symm.trans hclass
  · have hword : lexeme ∈ words text := List.mem_filter.mpr ⟨hlexeme, by simpa using hblank⟩
    have hmem := List.mem_map_of_mem (f := Kind.ofLexeme?) hword
    rw [spells_iff_words.mp h] at hmem
    obtain ⟨kind, -, hkind⟩ := List.mem_map.mp hmem
    rcases (joined_of_mem_lexemes hlexeme).word_cases hkind.symm with ⟨_, -, hdigits⟩ | ⟨d, rfl, hd⟩
    · cases hother.symm.trans (class_eq_digit (hdigits c hc))
    · rw [List.mem_singleton.mp hc, class_eq_symbol hd] at hother
      cases hother

/-- A character without a meaning makes a text unreadable. -/
theorem scan_eq_unreadable {text : List Char} (hc : c ∈ text) (hother : Class.ofChar c = .other) :
    ∃ lexeme offset, scan text = .error (.unreadable lexeme offset) := by
  cases hscan : scan text with
  | ok tokens =>
    have hspells : Spells text (tokens.map Token.kind) := ⟨tokens, hscan, rfl⟩
    exact absurd hother (hspells.class_ne_other hc)
  | error error =>
    obtain ⟨l, lexeme, -, -, -, -, -, -, rfl⟩ := ofLexemes_eq_error hscan
    exact ⟨_, _, rfl⟩

end Dice.Token
