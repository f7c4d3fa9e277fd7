import Dice.Proofs.Expr.Prefixes
import Dice.Proofs.Expr.Spans

/-! What the tokens of a text say about it. They cover the text but for blanks, and a number
takes all digits that stand together; and a text that has no tokens has a first place, behind
tokens, at which such a row of digits is too great a number, or characters without a meaning
stand. Main statement: these two properties of a text decide between them whether it is read
as tokens, as which ones, or where it is unreadable, and no token makes up for the latter. -/

namespace Dice

namespace Token

open Text (isBlank)

variable {c : Char} {kind : Kind} {before run after text : List Char}

/-! ### Characters with a meaning -/

/-- The characters that are words by themselves. -/
def symbols : List (Char × Kind) :=
  [('+', .additive .add), ('-', .additive .sub), ('*', .multiplicative .mul),
    ('/', .multiplicative .div), ('d', .dice), ('(', .openParen), (')', .closeParen)]

theorem symbol?_eq_some_iff : symbol? c = some kind ↔ (c, kind) ∈ symbols := by
  constructor
  · intro h
    unfold symbol? at h
    split at h <;> cases h <;> decide
  · intro h
    simp only [symbols, List.mem_cons, Prod.mk.injEq, List.not_mem_nil, or_false] at h
    rcases h with ⟨rfl, rfl⟩ | ⟨rfl, rfl⟩ | ⟨rfl, rfl⟩ | ⟨rfl, rfl⟩ | ⟨rfl, rfl⟩ | ⟨rfl, rfl⟩ |
      ⟨rfl, rfl⟩ <;> rfl

/-- The character is no blank, no digit and no word by itself. -/
def Foreign (c : Char) : Prop :=
  isBlank c = false ∧ c.isDigit = false ∧ ∀ kind, (c, kind) ∉ symbols

theorem class_eq_digit_iff : Class.ofChar c = .digit ↔ c.isDigit :=
  ⟨isDigit_of_class, class_eq_digit⟩

theorem class_eq_other_iff : Class.ofChar c = .other ↔ Foreign c := by
  simp only [Foreign, ← symbol?_eq_some_iff]
  unfold Class.ofChar
  split
  · simp [*]
  · split
    · simp [*]
    · cases hsymbol : symbol? c <;> simp [*]

theorem exists_symbol_of_class (h : Class.ofChar c = .symbol) :
    c.isDigit = false ∧ ∃ kind, symbol? c = some kind := by
  unfold Class.ofChar at h
  split at h
  · cases h
  · split at h
    · cases h
    · next hdigit =>
      split at h
      · next hsymbol => exact ⟨Bool.eq_false_iff.mpr hdigit, Option.isSome_iff_exists.mp hsymbol⟩
      · cases h

/-! ### Rows of characters -/

/-- Between the two texts stands a row of characters of a class, as long as can be. -/
structure Run (p : Char → Prop) (before run after : List Char) : Prop where
  ne_nil : run ≠ []
  forall_mem : ∀ c ∈ run, p c
  left : ∀ c ∈ before.getLast?, ¬ p c
  right : ∀ c ∈ after.head?, ¬ p c

theorem run_congr {p q : Char → Prop} (h : ∀ c, p c ↔ q c) :
    Run p before run after ↔ Run q before run after := by
  obtain rfl : p = q := funext fun c => propext (h c)
  rfl

/-- No character at the end of some lexemes joins the first one behind them. -/
theorem joins_eq_false_of_lexemes {l m : List (List Char)} (h : lexemes text = l ++ m) :
    ∀ x ∈ l.flatten.getLast?, ∀ y ∈ m.flatten.head?, joins x y = false := by
  obtain ⟨-, hne, -, hcut⟩ := List.splitBy_eq_iff.mp h
  intro x hx y hy
  rcases List.eq_nil_or_concat' l with rfl | ⟨l, a, rfl⟩
  · cases hx
  cases m with
  | nil => cases hy
  | cons b m =>
    obtain ⟨-, -, hboundary⟩ := List.isChain_append.mp hcut
    obtain ⟨ha, hb, hjoins⟩ := hboundary a (by simp) b (by simp)
    rw [List.flatten_append, List.flatten_singleton, List.getLast?_append_of_ne_nil _ ha,
      List.getLast?_eq_some_getLast ha] at hx
    rw [List.flatten_cons, List.head?_append_of_ne_nil _ hb, List.head?_eq_some_head hb] at hy
    obtain rfl := Option.some.inj hx
    obtain rfl := Option.some.inj hy
    exact hjoins

/-- A lexeme of characters that join is as long as can be. -/
theorem run_of_lexemes {l m : List (List Char)} {k : Class} (h : lexemes text = l ++ run :: m)
    (hk : k ≠ .symbol) (hc : c ∈ run) (hclass : Class.ofChar c = k) :
    Run (fun x => Class.ofChar x = k) l.flatten run m.flatten := by
  have hmem : run ∈ lexemes text := h ▸ List.mem_append_right l List.mem_cons_self
  have hall : ∀ x ∈ run, Class.ofChar x = k := fun x hx =>
    ((joined_of_mem_lexemes hmem).class_eq hx hc).trans hclass
  have hapart : ∀ {x y : Char}, joins x y = false → Class.ofChar x = k → Class.ofChar y ≠ k := by
    intro x y hjoins hx hy
    simp [joins, hx, hy, hk] at hjoins
  have hne : run ≠ [] := List.ne_nil_of_mem hc
  refine ⟨hne, hall, fun x hx => ?_, fun y hy => ?_⟩
  · have hhead : run.head hne ∈ (run :: m).flatten.head? := by
      rw [List.flatten_cons, List.head?_append_of_ne_nil _ hne, List.head?_eq_some_head hne]
      rfl
    intro hxk
    exact hapart (joins_eq_false_of_lexemes h x hx _ hhead) hxk (hall _ (List.head_mem hne))
  · have hlast : run.getLast hne ∈ (l ++ [run]).flatten.getLast? := by
      rw [List.flatten_append, List.flatten_singleton, List.getLast?_append_of_ne_nil _ hne,
        List.getLast?_eq_some_getLast hne]
      rfl
    have hsplit : lexemes text = (l ++ [run]) ++ m := by
      rw [h, List.append_assoc, List.singleton_append]
    exact hapart (joins_eq_false_of_lexemes hsplit _ hlast y hy) (hall _ (List.getLast_mem hne))

/-- A row of characters that join is a lexeme, if it does not go on on either side. -/
theorem lexemes_append_run (hne : run ≠ []) (hjoined : Joined run)
    (hleft : ∀ x ∈ before.getLast?, ∀ y ∈ run.head?, joins x y = false)
    (hright : ∀ x ∈ run.getLast?, ∀ y ∈ after.head?, joins x y = false) :
    lexemes (before ++ (run ++ after)) = lexemes before ++ run :: lexemes after := by
  unfold lexemes
  rw [List.splitBy_append, List.splitBy_append hright, List.splitBy_of_isChain hne hjoined,
    List.singleton_append]
  rwa [List.head?_append_of_ne_nil _ hne]

theorem Run.lexemes_append {k : Class} (h : Run (fun x => Class.ofChar x = k) before run after)
    (hk : k ≠ .symbol) :
    lexemes (before ++ (run ++ after)) = lexemes before ++ run :: lexemes after := by
  have hjoins : ∀ x ∈ run, ∀ y ∈ run, joins x y = true := fun x hx y hy => by
    simp [joins, h.forall_mem x hx, h.forall_mem y hy, hk]
  refine lexemes_append_run h.ne_nil (List.pairwise_of_forall_mem_list hjoins).isChain ?_ ?_
  · intro x hx y hy
    have hclass := h.forall_mem y (List.mem_of_head? hy)
    have := h.left x hx
    simp [joins, hclass, this]
  · intro x hx y hy
    have hclass := h.forall_mem x (List.mem_of_getLast? hx)
    have := h.right y hy
    simp [joins, hclass, Ne.symm this]

/-! ### Tokens -/

/-- Between the two texts stands a word of the kind: a character that is one by itself, or all
digits of a number that is not too great. -/
inductive WordBetween (before after : List Char) : List Char → Kind → Prop where
  | symbol {c : Char} {kind : Kind} (h : (c, kind) ∈ symbols) : WordBetween before after [c] kind
  | integer {digits : List Char} (h : Run (fun c => c.isDigit) before digits after)
      (hle : (Nat.ofDigitChars 10 digits 0 : Int) ≤ Word.greatest) :
      WordBetween before after digits (.integer (Nat.ofDigitChars 10 digits 0))

/-- The token stands in the text at its offset. -/
def StandsIn (token : Token) (text : List Char) : Prop :=
  ∃ before after, text = before ++ (token.text ++ after) ∧ before.length = token.offset ∧
    WordBetween before after token.text token.kind

/-- Behind `offset` characters, the text is that of the tokens in order, each at its own offset,
with nothing but blanks before, between and after them. -/
inductive Spaced : (offset : Nat) → (text : List Char) → List Token → Prop where
  | blanks {offset : Nat} {blanks : List Char} (h : ∀ c ∈ blanks, isBlank c) :
      Spaced offset blanks []
  | token {offset : Nat} {blanks rest : List Char} {token : Token} {tokens : List Token}
      (h : ∀ c ∈ blanks, isBlank c) (hoffset : token.offset = offset + blanks.length)
      (hrest : Spaced (token.offset + token.text.length) rest tokens) :
      Spaced offset (blanks ++ (token.text ++ rest)) (token :: tokens)

/-- The tokens are all that the text says. -/
structure Reads (text : List Char) (tokens : List Token) : Prop where
  spaced : Spaced 0 text tokens
  words : ∀ token ∈ tokens, token.StandsIn text

/-- Between the two texts stands a row of characters that is no word: all digits of a number that
is too great, or characters without a meaning up to the next that has one. -/
def Unreadable (before run after : List Char) : Prop :=
  (Run (fun c => c.isDigit) before run after ∧ Word.greatest < Nat.ofDigitChars 10 run 0) ∨
    Run Foreign before run after

/-- Behind tokens, which begin the text, nothing can be read. -/
def StopsAt (text run : List Char) (offset : Nat) : Prop :=
  ∃ before after tokens, text = before ++ (run ++ after) ∧ before.length = offset ∧
    Reads before tokens ∧ Unreadable before run after

theorem Spaced.append_blanks {offset : Nat} {blanks : List Char} {tokens : List Token}
    (hblanks : ∀ c ∈ blanks, isBlank c) (h : Spaced (offset + blanks.length) text tokens) :
    Spaced offset (blanks ++ text) tokens := by
  cases h with
  | blanks hmore =>
    exact .blanks fun c hc => (List.mem_append.mp hc).elim (hblanks c) (hmore c)
  | @token _ more rest token tokens hmore hoffset hrest =>
    rw [← List.append_assoc]
    refine .token (fun c hc => (List.mem_append.mp hc).elim (hblanks c) (hmore c)) ?_ hrest
    rw [hoffset, List.length_append, Nat.add_assoc]

theorem WordBetween.ofLexeme? (h : WordBetween before after run kind) :
    Kind.ofLexeme? run = some kind := by
  cases h with
  | symbol h => exact ofLexeme?_symbol (symbol?_eq_some_iff.mpr h)
  | integer h hle =>
    obtain ⟨c, rest, rfl⟩ := List.exists_cons_of_ne_nil h.ne_nil
    rw [Kind.ofLexeme?, if_pos (h.forall_mem c List.mem_cons_self), if_pos hle]

theorem WordBetween.not_all_isBlank (h : WordBetween before after run kind) :
    ¬ run.all isBlank := by
  cases h with
  | symbol h => simp [isBlank_eq_false_of_symbol (symbol?_eq_some_iff.mpr h)]
  | integer h hle =>
    obtain ⟨c, rest, rfl⟩ := List.exists_cons_of_ne_nil h.ne_nil
    simp [isBlank_eq_false_of_isDigit (h.forall_mem c List.mem_cons_self)]

/-- A word is a word behind blanks as well. -/
theorem WordBetween.behind_blanks {blanks : List Char} (h : WordBetween before after run kind)
    (hblanks : ∀ c ∈ blanks, isBlank c) : WordBetween blanks after run kind := by
  cases h with
  | symbol h => exact .symbol h
  | integer h hle =>
    refine .integer ⟨h.ne_nil, h.forall_mem, fun c hc => ?_, h.right⟩ hle
    simp [isDigit_eq_false_of_isBlank (hblanks c (List.mem_of_getLast? hc))]

theorem WordBetween.lexemes_append (h : WordBetween before after run kind) :
    lexemes (before ++ (run ++ after)) = lexemes before ++ run :: lexemes after := by
  cases h with
  | @symbol c _ h =>
    have hclass := class_eq_symbol (symbol?_eq_some_iff.mpr h)
    refine lexemes_append_run (List.cons_ne_nil _ _) (List.isChain_singleton c) ?_ ?_
    · intro x _ y hy
      obtain rfl : c = y := Option.some.inj hy
      exact joins_symbol_right hclass
    · intro x hx y _
      obtain rfl : c = x := Option.some.inj hx
      exact joins_symbol_left hclass
  | integer h hle =>
    exact ((run_congr fun _ => class_eq_digit_iff).mpr h).lexemes_append (by decide)

theorem Unreadable.lexemes_append (h : Unreadable before run after) :
    lexemes (before ++ (run ++ after)) = lexemes before ++ run :: lexemes after := by
  rcases h with ⟨h, -⟩ | h
  · exact ((run_congr fun _ => class_eq_digit_iff).mpr h).lexemes_append (by decide)
  · exact ((run_congr fun _ => class_eq_other_iff).mpr h).lexemes_append (by decide)

theorem Unreadable.ofLexeme? (h : Unreadable before run after) : Kind.ofLexeme? run = none := by
  rcases h with ⟨h, hlt⟩ | h
  · obtain ⟨c, rest, rfl⟩ := List.exists_cons_of_ne_nil h.ne_nil
    rw [Kind.ofLexeme?, if_pos (h.forall_mem c List.mem_cons_self), if_neg (Int.not_le.mpr hlt)]
  · obtain ⟨c, rest, rfl⟩ := List.exists_cons_of_ne_nil h.ne_nil
    obtain ⟨-, hdigit, hsymbols⟩ := h.forall_mem c List.mem_cons_self
    simp only [Kind.ofLexeme?, hdigit, Bool.false_eq_true, ↓reduceIte]
    exact Option.eq_none_iff_forall_ne_some.mpr fun kind hkind =>
      hsymbols kind (symbol?_eq_some_iff.mp hkind)

theorem Unreadable.not_all_isBlank (h : Unreadable before run after) : ¬ run.all isBlank := by
  rcases h with ⟨h, -⟩ | h
  · obtain ⟨c, rest, rfl⟩ := List.exists_cons_of_ne_nil h.ne_nil
    simp [isBlank_eq_false_of_isDigit (h.forall_mem c List.mem_cons_self)]
  · obtain ⟨c, rest, rfl⟩ := List.exists_cons_of_ne_nil h.ne_nil
    simp [(h.forall_mem c List.mem_cons_self).1]

/-! ### Reading -/

theorem ofLexemes_blanks {blanks : List Char} (h : ∀ c ∈ blanks, isBlank c) (offset : Nat) :
    ofLexemes offset (lexemes blanks) = .ok [] := by
  have hall : ∀ lexeme ∈ lexemes blanks, lexeme.all isBlank := by
    intro lexeme hlexeme
    rw [List.all_eq_true]
    intro c hc
    refine h c ?_
    rw [← flatten_lexemes blanks]
    exact List.mem_flatten_of_mem hlexeme hc
  generalize lexemes blanks = row at hall
  induction row generalizing offset with
  | nil => rfl
  | cons lexeme row ih =>
    rw [ofLexemes_cons_blank (hall lexeme List.mem_cons_self)]
    exact ih _ fun later hlater => hall later (List.mem_cons_of_mem lexeme hlater)

/-- A text that consists of tokens is read as these. -/
theorem ofLexemes_of_spaced {offset : Nat} {part : List Char} {tokens : List Token}
    (h : Spaced offset part tokens) (front : List Char) (hfront : front.length = offset)
    (hwords : ∀ token ∈ tokens, token.StandsIn (front ++ part)) :
    ofLexemes offset (lexemes part) = .ok tokens := by
  induction h generalizing front with
  | blanks h => exact ofLexemes_blanks h _
  | @token offset blanks rest token tokens h hoffset hrest ih =>
    obtain ⟨before, after, htext, hlength, hword⟩ := hwords token List.mem_cons_self
    -- the offset leaves only one place for the token
    obtain ⟨rfl, hbehind⟩ :
        before = front ++ blanks ∧ token.text ++ after = token.text ++ rest := by
      refine List.append_inj (htext.symm.trans (List.append_assoc ..).symm) ?_
      rw [List.length_append, hlength, hoffset, hfront]
    obtain rfl := List.append_cancel_left hbehind
    have hread := ih (front ++ (blanks ++ token.text)) (by simp [hoffset, ← hfront]; omega) ?_
    · rw [(hword.behind_blanks h).lexemes_append, ofLexemes_append (ofLexemes_blanks h offset),
        flatten_lexemes, ofLexemes_cons_word hword.not_all_isBlank hword.ofLexeme?, ← hoffset,
        hread]
      rfl
    · intro later hlater
      simpa using hwords later (List.mem_cons_of_mem token hlater)

/-- The texts of the tokens and the blanks between them make up the text. -/
theorem spaced_of_ofLexemes {row : List (List Char)} {offset : Nat} {tokens : List Token}
    (h : ofLexemes offset row = .ok tokens) : Spaced offset row.flatten tokens := by
  induction row generalizing offset tokens with
  | nil =>
    obtain rfl := Except.ok.inj h
    exact .blanks (by simp)
  | cons lexeme row ih =>
    rw [List.flatten_cons]
    by_cases hblank : lexeme.all isBlank
    · rw [ofLexemes_cons_blank hblank] at h
      exact (ih h).append_blanks fun c hc => List.all_eq_true.mp hblank c hc
    · cases hword : Kind.ofLexeme? lexeme with
      | none =>
        rw [ofLexemes_cons_unreadable hblank hword] at h
        cases h
      | some kind =>
        rw [ofLexemes_cons_word hblank hword] at h
        obtain ⟨later, hlater, rfl⟩ := map_eq_ok_iff.mp h
        change Spaced offset ([] ++ ((⟨kind, lexeme, offset⟩ : Token).text ++ row.flatten)) _
        exact .token (by simp) rfl (ih hlater)

section Lexemes

variable {l m : List (List Char)}

theorem wordBetween_of_lexemes (h : lexemes text = l ++ run :: m)
    (hkind : Kind.ofLexeme? run = some kind) : WordBetween l.flatten m.flatten run kind := by
  have hjoined := joined_of_mem_lexemes (h ▸ List.mem_append_right l List.mem_cons_self)
  rcases hjoined.word_cases hkind with ⟨n, rfl, hdigits⟩ | ⟨c, rfl, hc⟩
  · cases run with
    | nil => cases hkind
    | cons c rest =>
      have hc : c.isDigit := hdigits c List.mem_cons_self
      rw [Kind.ofLexeme?, if_pos hc] at hkind
      obtain ⟨hle, hn⟩ := Option.ite_none_right_eq_some.mp hkind
      obtain rfl := Kind.integer.inj (Option.some.inj hn)
      have hrun := run_of_lexemes h (by decide) List.mem_cons_self (class_eq_digit hc)
      exact .integer ((run_congr fun _ => class_eq_digit_iff).mp hrun) hle
  · exact .symbol (symbol?_eq_some_iff.mp hc)

/-- A lexeme that is no word is too great a number, or has no meaning at all. -/
theorem unreadable_of_lexemes (h : lexemes text = l ++ run :: m) (hblank : ¬ run.all isBlank)
    (hkind : Kind.ofLexeme? run = none) : Unreadable l.flatten run m.flatten := by
  have hmem : run ∈ lexemes text := h ▸ List.mem_append_right l List.mem_cons_self
  obtain ⟨c, rest, rfl⟩ := List.exists_cons_of_ne_nil (List.ne_nil_of_mem_splitBy hmem)
  cases hclass : Class.ofChar c with
  | blank =>
    refine absurd (List.all_eq_true.mpr fun x hx => ?_) hblank
    exact class_eq_blank_iff.mp
      (((joined_of_mem_lexemes hmem).class_eq hx List.mem_cons_self).trans hclass)
  | digit =>
    have hrun := run_of_lexemes h (by decide) List.mem_cons_self hclass
    refine .inl ⟨(run_congr fun _ => class_eq_digit_iff).mp hrun, ?_⟩
    rw [Kind.ofLexeme?, if_pos (isDigit_of_class hclass)] at hkind
    simpa using hkind
  | symbol =>
    obtain ⟨hdigit, kind, hsymbol⟩ := exists_symbol_of_class hclass
    simp [Kind.ofLexeme?, hdigit, hsymbol] at hkind
  | other =>
    have hrun := run_of_lexemes h (by decide) List.mem_cons_self hclass
    exact .inr ((run_congr fun _ => class_eq_other_iff).mp hrun)

end Lexemes

theorem scan_eq_ok_iff {tokens : List Token} : scan text = .ok tokens ↔ Reads text tokens := by
  constructor
  · intro h
    refine ⟨?_, fun token htoken => ?_⟩
    · rw [← flatten_lexemes text]
      exact spaced_of_ofLexemes h
    · obtain ⟨before, after, rfl⟩ := List.append_of_mem htoken
      obtain ⟨l, m, hrow, -, hoffset, hkind⟩ := ofLexemes_eq_ok h
      refine ⟨l.flatten, m.flatten, ?_, ?_, wordBetween_of_lexemes hrow hkind⟩
      · rw [← flatten_lexemes text, hrow, List.flatten_append, List.flatten_cons]
      · rw [hoffset, Nat.zero_add]
  · intro h
    exact ofLexemes_of_spaced h.spaced [] rfl h.words

theorem scan_eq_error_iff {error : ParseError Nat} :
    scan text = .error error ↔
      ∃ run offset, StopsAt text run offset ∧ error = .unreadable (String.ofList run) offset := by
  constructor
  · intro h
    obtain ⟨l, run, m, tokens, hrow, hl, hblank, hkind, rfl⟩ := ofLexemes_eq_error h
    rw [Nat.zero_add]
    refine ⟨run, l.flatten.length, ⟨l.flatten, m.flatten, tokens, ?_, rfl, ?_, ?_⟩, rfl⟩
    · rw [← flatten_lexemes text, hrow, List.flatten_append, List.flatten_cons]
    · rw [← scan_eq_ok_iff, scan, lexemes_flatten hrow, hl]
    · exact unreadable_of_lexemes hrow hblank hkind
  · rintro ⟨run, _, ⟨before, after, tokens, rfl, rfl, hreads, hrun⟩, rfl⟩
    rw [scan, hrun.lexemes_append, ofLexemes_append (scan_eq_ok_iff.mpr hreads), flatten_lexemes,
      ofLexemes_cons_unreadable hrun.not_all_isBlank hrun.ofLexeme?, Nat.zero_add]
    rfl

end Token

/-! ### Unreadable texts -/

/-- Tokens are never unreadable, whatever their order. -/
theorem Parser.State.run_ne_unreadable {limit : Nat} {s : State} {tokens : List Token}
    {word : String} {offset : Nat} : s.run limit tokens ≠ .error (.unreadable word offset) := by
  intro h
  rcases run_eq_error h with ⟨_, _, _, _, rejection, -, -, -, herror⟩ | ⟨t, -, hfinish⟩
  · cases rejection <;> cases herror
  · obtain ⟨_, herror⟩ := finish_eq_error hfinish
    cases herror

theorem ParseError.mapPlace_eq_unreadable_iff {Place Place' : Type} {f : Place → Place'}
    {error : ParseError Place} {word : String} {place : Place'} :
    error.mapPlace f = .unreadable word place ↔
      ∃ found, error = .unreadable word found ∧ place = f found := by
  cases error <;> simp [mapPlace, eq_comm]

namespace Expr

open Token (Reads StopsAt)
open Shorthand (expand locate)

theorem ofChars_eq_unreadable_iff {text : List Char} {word : String} {offset : Nat} :
    ofChars text = .error (.unreadable word offset) ↔ StopsAt text word.toList offset := by
  rw [ofChars_eq_error_iff, or_iff_left, Token.scan_eq_error_iff]
  · constructor
    · rintro ⟨run, _, hstops, herror⟩
      obtain ⟨rfl, rfl⟩ := ParseError.unreadable.inj herror
      simpa using hstops
    · intro hstops
      exact ⟨word.toList, offset, hstops, by simp⟩
  · rintro ⟨tokens, -, hrun⟩
    exact Parser.State.run_ne_unreadable hrun

theorem mapError_eq_unreadable_iff {text : List Char} {f : Nat → Text.Position} {word : String}
    {place : Text.Position} :
    (ofChars text).mapError (ParseError.mapPlace f) = .error (.unreadable word place) ↔
      ∃ offset, StopsAt text word.toList offset ∧ place = f offset := by
  rw [mapError_eq_error_iff]
  simp only [ParseError.mapPlace_eq_unreadable_iff, ← ofChars_eq_unreadable_iff]
  constructor
  · rintro ⟨_, herror, offset, rfl, hplace⟩
    exact ⟨offset, herror, hplace⟩
  · rintro ⟨offset, herror, hplace⟩
    exact ⟨_, herror, offset, rfl, hplace⟩

/-- A text has the tokens that make it up, each at its offset, with blanks between them; and it has
none exactly if it stops at a row of digits that is too great a number, or at characters without
a meaning, which are then named whole and at their place. Whoever reads the text reports this
and nothing else about it, even if the tokens before that place are no expression. -/
theorem scan_lossless (text : String) :
    (∀ tokens, Token.scan text.toList = .ok tokens ↔ Reads text.toList tokens) ∧
    (∀ error, Token.scan text.toList = .error error ↔ ∃ run offset,
      StopsAt text.toList run offset ∧ error = .unreadable (String.ofList run) offset) ∧
    (∀ word place, parsePlain text = .error (.unreadable word place) ↔
      ∃ offset, StopsAt text.toList word.toList offset ∧ place = .ofOffset text.toList offset) ∧
    ∀ word place, parse text = .error (.unreadable word place) ↔ ∃ offset,
      StopsAt (expand text.toList) word.toList offset ∧ place = locate text.toList offset :=
  ⟨fun _ => Token.scan_eq_ok_iff, fun _ => Token.scan_eq_error_iff,
    fun _ _ => mapError_eq_unreadable_iff, fun _ _ => mapError_eq_unreadable_iff⟩

/-- The number is too great, and that two words before it are out of place is not said. -/
example : parsePlain "*) 9223372036854775808+%" =
    .error (.unreadable "9223372036854775808" ⟨1, 4⟩) := rfl

end Expr

end Dice
