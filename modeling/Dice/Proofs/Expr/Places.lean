import Dice.Proofs.Expr.Prefixes
import Dice.Proofs.Expr.Shorthand
import Dice.Proofs.Expr.Spans

/-! Where an error stands in the text as typed. A lexeme of the text with every count
written out is a row of typed characters, or a single inserted count, and what was typed
before it leads to its place. Main statement: the text that an error names stands in the
typed text at the line and column that it names, an inserted count stands at the `d` that
it counts for, and a parenthesis that is too deep stands behind `nestingLimit` open ones. -/

namespace Dice

/-! ### Lines and columns -/

namespace Text

/-- The place comes right after `before`: the lines of `before`, which end at newlines, and the
characters of the last one lead to it. -/
def Position.Follows (place : Position) (before : List Char) : Prop :=
  ∃ lines last, before.splitOn '\n' = lines ++ [last] ∧
    place.line = lines.length + 1 ∧ place.column = last.length + 1

theorem length_splitOn_newline (text : List Char) :
    (text.splitOn '\n').length = text.count '\n' + 1 := by
  induction text with
  | nil => rfl
  | cons c text ih =>
    rw [List.splitOn_cons_eq_if_modifyHead, List.count_cons]
    split <;> simp [ih]

/-- A text is its last line, and perhaps something before it that ends in a newline. -/
theorem eq_append_lastLine (text : List Char) :
    '\n' ∉ lastLine text ∧
      (text = lastLine text ∨ ∃ front, text = front ++ '\n' :: lastLine text) := by
  have hlast : '\n' ∉ lastLine text := by
    intro h
    have := List.mem_takeWhile_imp (List.mem_reverse.mp h)
    simp at this
  have hsplit : text = (text.reverse.dropWhile (· != '\n')).reverse ++ lastLine text := by
    rw [lastLine, ← List.reverse_append, List.takeWhile_append_dropWhile, List.reverse_reverse]
  refine ⟨hlast, ?_⟩
  cases hdrop : text.reverse.dropWhile (· != '\n') with
  | nil =>
    rw [hdrop] at hsplit
    exact .inl hsplit
  | cons c front =>
    have hc := List.head?_dropWhile_not (· != '\n') text.reverse
    rw [hdrop] at hc hsplit
    obtain rfl : c = '\n' := by simpa using hc
    exact .inr ⟨front.reverse, by simpa using hsplit⟩

theorem follows_after (before : List Char) : (Position.after before).Follows before := by
  obtain ⟨hlast, hwhole | ⟨front, hfront⟩⟩ := eq_append_lastLine before
  · have hcount : before.count '\n' = 0 := List.count_eq_zero.mpr (hwhole ▸ hlast)
    refine ⟨[], lastLine before, ?_, ?_, rfl⟩
    · conv_lhs => rw [hwhole]
      exact List.splitOn_eq_singleton hlast
    · rw [Position.after, hcount, List.length_nil]
  · refine ⟨front.splitOn '\n', lastLine before, ?_, ?_, rfl⟩
    · conv_lhs => rw [hfront]
      rw [List.splitOn_append_cons_self, List.splitOn_eq_singleton hlast]
    · have hcount : before.count '\n' = front.count '\n' + 1 := by
        conv_lhs => rw [hfront]
        rw [List.count_append, List.count_cons_self, List.count_eq_zero.mpr hlast]
      rw [length_splitOn_newline]
      exact congrArg (· + 1) hcount

/-! ### Open parentheses of a text -/

/-- The number of open parentheses after one more character; none can be closed that is not
open. -/
def toggle (opened : Nat) (c : Char) : Option Nat :=
  if c = '(' then some (opened + 1)
  else if c = ')' then if opened = 0 then none else some (opened - 1)
  else some opened

/-- The number of parentheses that are open at the end of a text, if each that is closed has been
opened. -/
def openAfter (text : List Char) : Option Nat := text.foldlM toggle 0

theorem foldlM_toggle_of_plain {text : List Char} (h : ∀ c ∈ text, c ≠ '(' ∧ c ≠ ')')
    (opened : Nat) : text.foldlM toggle opened = some opened := by
  induction text with
  | nil => rfl
  | cons c text ih =>
    have hc := h c List.mem_cons_self
    rw [List.foldlM_cons, toggle, if_neg hc.1, if_neg hc.2]
    exact ih fun d hd => h d (List.mem_cons_of_mem c hd)

end Text

namespace Parser.State

open Text (toggle isBlank)
open Token (Kind Joined)

variable {limit : Nat} {s t : State}

/-- The characters of a word open and close as many parentheses as the word. -/
theorem foldlM_toggle_word {lexeme : List Char} {kind : Kind} (hjoined : Joined lexeme)
    (hkind : Kind.ofLexeme? lexeme = some kind) (h : s.step limit kind = .ok t) :
    lexeme.foldlM toggle s.depth = some t.depth := by
  have hdepth := depth_step h
  rcases hjoined.word_cases hkind with ⟨n, rfl, hdigits⟩ | ⟨c, rfl, hsymbol⟩
  · have hinteger : Token.unclosed [.integer n] = 0 := rfl
    have hsame : t.depth = s.depth := by omega
    rw [hsame]
    refine Text.foldlM_toggle_of_plain (fun c hc => ?_) _
    constructor <;> rintro rfl <;> exact absurd (hdigits _ hc) (by decide)
  · simp only [List.foldlM_cons, List.foldlM_nil, bind_pure]
    unfold Token.symbol? at hsymbol
    split at hsymbol <;> cases hsymbol
    all_goals simp [Token.unclosed, toggle] at hdepth ⊢
    all_goals omega

/-- The characters of lexemes open and close as many parentheses as the tokens read from them. -/
theorem foldlM_toggle_flatten {row : List (List Char)} (hjoined : ∀ lexeme ∈ row, Joined lexeme)
    {offset : Nat} {tokens : List Token} (hrow : Token.ofLexemes offset row = .ok tokens)
    (h : s.walk limit (tokens.map Token.kind) = .ok t) :
    row.flatten.foldlM toggle s.depth = some t.depth := by
  induction row generalizing offset tokens s with
  | nil =>
    obtain rfl := Except.ok.inj hrow
    cases h
    rfl
  | cons lexeme row ih =>
    rw [List.flatten_cons, List.foldlM_append]
    have hrest := fun later hmem => hjoined later (List.mem_cons_of_mem lexeme hmem)
    by_cases hblank : lexeme.all isBlank
    · rw [Token.ofLexemes_cons_blank hblank] at hrow
      rw [Text.foldlM_toggle_of_plain]
      · exact ih hrest hrow h
      · intro c hc
        have := List.all_eq_true.mp hblank c hc
        constructor <;> rintro rfl <;> exact absurd this (by decide)
    · cases hword : Kind.ofLexeme? lexeme with
      | none =>
        rw [Token.ofLexemes_cons_unreadable hblank hword] at hrow
        cases hrow
      | some kind =>
        rw [Token.ofLexemes_cons_word hblank hword] at hrow
        obtain ⟨later, hlater, rfl⟩ := Token.map_eq_ok_iff.mp hrow
        obtain ⟨u, hstep, hwalk⟩ := walk_cons_eq_ok.mp h
        rw [foldlM_toggle_word (hjoined lexeme List.mem_cons_self) hword hstep]
        exact ih hrest hlater hwalk

end Parser.State

/-! ### Lexemes and what was typed -/

namespace Shorthand

open Text (toggle openAfter Position)
open Token (lexemes Joined)

variable {text lexeme : List Char} {l m : List (List Char)}

theorem exists_glyphs (h : lexemes (expand text) = l ++ lexeme :: m) :
    ∃ before row after, glyphs text = before ++ (row ++ after) ∧
      before.map Glyph.char = l.flatten ∧ row.map Glyph.char = lexeme := by
  have hflat : (glyphs text).map Glyph.char = l.flatten ++ (lexeme ++ m.flatten) := by
    rw [← List.flatten_cons, ← List.flatten_append, ← h, Token.flatten_lexemes, expand]
  obtain ⟨before, rest, hglyphs, hbefore, hrest⟩ := List.map_eq_append_iff.mp hflat
  obtain ⟨row, after, rfl, hrow, -⟩ := List.map_eq_append_iff.mp hrest
  exact ⟨before, row, after, hglyphs, hbefore, hrow⟩

/-- A lexeme with an inserted count is that count and nothing else. -/
theorem eq_singleton_of_implied {before row after : List Glyph}
    (h : glyphs text = before ++ (row ++ after)) (hjoined : Joined (row.map Glyph.char))
    (himplied : .implied ∈ row) :
    row = [.implied] ∧ (∃ rest, after = .typed 'd' :: rest) ∧
      ∀ g ∈ before.getLast?, ∃ c, g = .typed c ∧ c.isDigit = false := by
  obtain ⟨x, y, rfl⟩ := List.append_of_mem himplied
  have hsplit : glyphs text = (before ++ x) ++ .implied :: (y ++ after) := by simpa using h
  obtain ⟨⟨rest, hnext⟩, hlast, -⟩ := neighbours_of_implied hsplit
  rw [List.map_append, List.map_cons] at hjoined
  obtain rfl : y = [] := by
    cases y with
    | nil => rfl
    | cons g y =>
      obtain ⟨rfl, -⟩ := List.cons.inj hnext
      have hjoins := (List.isChain_cons_cons.mp hjoined.right_of_append).1
      exact absurd hjoins (by decide)
  obtain rfl : x = [] := by
    rcases List.eq_nil_or_concat' x with rfl | ⟨x, g, rfl⟩
    · rfl
    · obtain ⟨c, rfl, hc⟩ := hlast g (by simp)
      rw [List.map_append, List.append_assoc] at hjoined
      have hjoins := (List.isChain_cons_cons.mp hjoined.right_of_append).1
      have hdigit : c.isDigit := (Token.isDigit_iff_of_joins hjoins).mpr (by decide)
      rw [hc] at hdigit
      cases hdigit
  refine ⟨rfl, ⟨rest, hnext⟩, by simpa using hlast⟩

theorem foldlM_toggle_char (row : List Glyph) (opened : Nat) :
    (row.map Glyph.char).foldlM toggle opened =
      (row.filterMap Glyph.typed?).foldlM toggle opened := by
  induction row generalizing opened with
  | nil => rfl
  | cons g row ih =>
    cases g with
    | implied => simpa [List.filterMap_cons, Glyph.typed?, Glyph.char, toggle] using ih opened
    | typed c =>
      simp only [List.map_cons, List.filterMap_cons, Glyph.typed?, Glyph.char, List.foldlM_cons]
      cases toggle opened c with
      | none => rfl
      | some next => exact ih next

/-- A lexeme stands in the typed text at its place, or it is an inserted count, and a `d` stands
there that follows no digit. -/
theorem located (h : lexemes (expand text) = l ++ lexeme :: m) :
    ∃ before after, (locate text l.flatten.length).Follows before ∧
      openAfter before = openAfter l.flatten ∧
      (text = before ++ lexeme ++ after ∨
        (lexeme = ['1'] ∧ text = before ++ 'd' :: after ∧
          ∀ c ∈ before.getLast?, c.isDigit = false)) := by
  obtain ⟨before, row, after, hglyphs, hbefore, rfl⟩ := exists_glyphs h
  have htext : text = before.filterMap Glyph.typed? ++ (row.filterMap Glyph.typed? ++
      after.filterMap Glyph.typed?) := by
    rw [← List.filterMap_append, ← List.filterMap_append, ← hglyphs, typed_glyphs]
  have hplace : (locate text l.flatten.length).Follows (before.filterMap Glyph.typed?) := by
    rw [← hbefore, locate_append hglyphs]
    exact Text.follows_after _
  have hopen : openAfter (before.filterMap Glyph.typed?) = openAfter l.flatten := by
    rw [← hbefore]
    exact (foldlM_toggle_char before 0).symm
  have hjoined : Joined (row.map Glyph.char) :=
    Token.joined_of_mem_lexemes (h ▸ List.mem_append_right l List.mem_cons_self)
  by_cases himplied : .implied ∈ row
  · obtain ⟨rfl, ⟨rest, rfl⟩, hlast⟩ := eq_singleton_of_implied hglyphs hjoined himplied
    refine ⟨_, rest.filterMap Glyph.typed?, hplace, hopen, .inr ⟨rfl, htext, ?_⟩⟩
    rcases List.eq_nil_or_concat' before with rfl | ⟨before, g, rfl⟩
    · simp
    · obtain ⟨c, rfl, hc⟩ := hlast g (by simp)
      simpa [List.filterMap_append, List.filterMap_cons, Glyph.typed?] using hc
  · refine ⟨_, after.filterMap Glyph.typed?, hplace, hopen, .inl ?_⟩
    rw [← typed_eq_map_char himplied, List.append_assoc]
    exact htext

end Shorthand

/-! ### Errors and what was typed -/

namespace ParseError

open Text (Position openAfter)

/-- What the error names stands in the typed text at the place that it names: an unreadable piece
of text, a token, or a parenthesis that opens while `nestingLimit` are open. An inserted count
of one stands at the `d` that it counts for, which follows no digit. -/
def PointsInto (typed : List Char) : ParseError Position → Prop
  | unreadable word place =>
    word ≠ "" ∧ ∃ before after, typed = before ++ word.toList ++ after ∧ place.Follows before
  | unexpected _ none => True
  | unexpected _ (some (word, place)) =>
    word ≠ "" ∧ ∃ before after, place.Follows before ∧
      (typed = before ++ word.toList ++ after ∨
        (word = "1" ∧ typed = before ++ 'd' :: after ∧
          ∀ c ∈ before.getLast?, c.isDigit = false))
  | tooDeep place =>
    ∃ before after, typed = before ++ '(' :: after ∧ place.Follows before ∧
      openAfter before = some nestingLimit

end ParseError

namespace Expr

open Text (Position)
open Dice.Parser Dice.Parser.State
open Shorthand (expand locate typedOffset glyphs)

variable {text : List Char}

theorem pointsInto_of_scan {error : ParseError Nat} (h : Token.scan (expand text) = .error error) :
    (error.mapPlace (locate text)).PointsInto text := by
  obtain ⟨l, lexeme, m, -, hrow, -, -, hkind, rfl⟩ := Token.ofLexemes_eq_error h
  have hmem : lexeme ∈ Token.lexemes (expand text) :=
    hrow ▸ List.mem_append_right l List.mem_cons_self
  obtain ⟨before, after, hplace, -, htyped | ⟨rfl, -, -⟩⟩ := Shorthand.located hrow
  · rw [Nat.zero_add]
    refine ⟨?_, before, after, by simpa using htyped, hplace⟩
    simpa using List.ne_nil_of_mem_splitBy hmem
  · cases hkind

theorem pointsInto_of_run {tokens : List Token} {error : ParseError Nat}
    (hscan : Token.scan (expand text) = .ok tokens)
    (h : State.start.run nestingLimit tokens = .error error) :
    (error.mapPlace (locate text)).PointsInto text := by
  rcases run_eq_error h with ⟨before, token, after, t, rejection, rfl, hwalk, hstep, rfl⟩ |
    ⟨t, -, hfinish⟩
  · obtain ⟨l, m, hrow, hbefore, hoffset, hkind⟩ := Token.ofLexemes_eq_ok hscan
    rw [Nat.zero_add] at hoffset
    have hjoined : ∀ lexeme ∈ l ++ token.text :: m, Token.Joined lexeme := fun lexeme hmem =>
      Token.joined_of_mem_lexemes (hrow ▸ hmem)
    obtain ⟨front, rest, hplace, hopen, htyped⟩ := Shorthand.located hrow
    rw [← hoffset] at hplace
    cases rejection with
    | unexpected expected =>
      refine ⟨?_, front, rest, hplace, ?_⟩
      · intro hempty
        have htext : token.text = [] := by simpa using hempty
        rw [htext] at hkind
        cases hkind
      · refine htyped.imp (fun h => by simpa using h) fun ⟨hone, h⟩ => ⟨by rw [hone], h⟩
    | tooDeep =>
      obtain ⟨hparen, hfull⟩ := step_eq_tooDeep hstep
      have hdepth : t.depth ≤ nestingLimit := depth_walk_le hwalk (Nat.zero_le _)
      have hopened : Text.openAfter l.flatten = some t.depth :=
        foldlM_toggle_flatten (fun lexeme hmem => hjoined lexeme (List.mem_append_left _ hmem))
          hbefore hwalk
      have hparenText : token.text = ['('] :=
        (hjoined token.text (List.mem_append_right l List.mem_cons_self)).eq_symbol rfl
          (hparen ▸ hkind)
      refine ⟨front, rest, ?_, hplace, ?_⟩
      · rcases htyped with htyped | ⟨hone, -⟩
        · rw [hparenText] at htyped
          simpa using htyped
        · cases hparenText.symm.trans hone
      · rw [hopen, hopened, Nat.le_antisymm hdepth hfull]
  · obtain ⟨expected, rfl⟩ := finish_eq_error hfinish
    trivial

/-- An error names what stands in the typed text at its place. No more counts are inserted before
an offset than the offset, and what remains without them lies in the typed text. -/
theorem parse_error_place (text : String) (error : ParseError Position)
    (h : parse text = .error error) :
    error.PointsInto text.toList ∧
      ∀ offset ≤ (expand text.toList).length,
        let inserted := ((glyphs text.toList).take offset).count .implied
        inserted ≤ offset ∧ typedOffset text.toList offset = offset - inserted ∧
          typedOffset text.toList offset ≤ text.toList.length := by
  constructor
  · obtain ⟨refused, hrefused, rfl⟩ := mapError_eq_error_iff.mp h
    rcases ofChars_eq_error_iff.mp hrefused with hscan | ⟨tokens, hscan, hrun⟩
    · exact pointsInto_of_scan hscan
    · exact pointsInto_of_run hscan hrun
  · intro offset hoffset inserted
    have hsum := Shorthand.typedOffset_add_count text.toList hoffset
    exact ⟨by omega, by omega, Shorthand.typedOffset_le_length text.toList offset⟩

/-- In `d6`, a new line and ` d6`, the second count is not written, and is refused at its `d`. -/
theorem parse_error_place_inserted :
    let error := ParseError.unexpected .endOfInput (some ("1", ⟨2, 2⟩))
    parse "d6\n d6" = .error error ∧ error.PointsInto "d6\n d6".toList := by
  intro error
  exact ⟨rfl, (parse_error_place "d6\n d6" error rfl).1⟩

end Expr

end Dice
