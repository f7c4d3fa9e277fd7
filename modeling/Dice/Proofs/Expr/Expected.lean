import Dice.Proofs.Expr.Lossless

/-! What a syntax error says was expected. The state of the reader knows what has to come next
from the word before it alone, save that behind a value it depends on whether a parenthesis is
open; this is the only place at which a text may end. Main statement: the place of an error is
that of one token, or the end of the text, and what is expected there is determined by the
tokens before it. -/

namespace Dice

open Token (Kind unclosed)

/-! ### The place of a token -/

namespace Text

theorem lastLine_append {a b : List Char} (h : '\n' ∉ b) : lastLine (a ++ b) = lastLine a ++ b := by
  have hall : ∀ c ∈ b.reverse, (c != '\n') = true := by
    intro c hc
    rw [bne_iff_ne]
    rintro rfl
    exact h (List.mem_reverse.mp hc)
  rw [lastLine, List.reverse_append, List.takeWhile_append_of_pos hall, List.reverse_append,
    List.reverse_reverse, lastLine]

/-- The places behind two beginnings of a text differ. -/
theorem Position.eq_of_after_eq {a b : List Char} (h : Position.after (a ++ b) = .after a) :
    b = [] := by
  obtain ⟨hline, hcolumn⟩ := Position.mk.inj h
  rw [List.count_append] at hline
  have hnewline : '\n' ∉ b := List.count_eq_zero.mp (by omega)
  rw [lastLine_append hnewline, List.length_append] at hcolumn
  exact List.eq_nil_of_length_eq_zero (by omega)

theorem Position.ofOffset_inj {text : List Char} {m n : Nat} (hm : m ≤ text.length)
    (hn : n ≤ text.length) (h : Position.ofOffset text m = .ofOffset text n) : m = n := by
  wlog hle : m ≤ n generalizing m n
  · exact (this hn hm h.symm (Nat.le_of_not_le hle)).symm
  have hsplit : text.take n = text.take m ++ (text.drop m).take (n - m) := by
    rw [← List.take_add, Nat.add_sub_cancel' hle]
  rw [ofOffset, ofOffset, hsplit] at h
  have hnil := congrArg List.length (eq_of_after_eq h.symm)
  rw [List.length_take, List.length_drop, List.length_nil] at hnil
  omega

end Text

namespace Token

variable {text : List Char} {tokens : List Token}

theorem StandsIn.text_ne_nil {token : Token} (h : token.StandsIn text) : token.text ≠ [] := by
  obtain ⟨before, after, -, -, hword⟩ := h
  cases hcases : token.text with
  | nil =>
    rw [hcases] at hword
    exact absurd hword.ofLexeme? (by simp [Kind.ofLexeme?])
  | cons c rest => exact List.cons_ne_nil c rest

theorem StandsIn.offset_le {token : Token} (h : token.StandsIn text) :
    token.offset ≤ text.length := by
  obtain ⟨before, after, rfl, hlength, -⟩ := h
  rw [List.length_append, ← hlength]
  exact Nat.le_add_right _ _

theorem Spaced.le_offset {offset : Nat} (h : Spaced offset text tokens) :
    ∀ token ∈ tokens, offset ≤ token.offset := by
  induction h with
  | blanks _ => simp
  | @token offset blanks _ token _ _ hoffset _ ih =>
    intro later hlater
    rcases List.mem_cons.mp hlater with rfl | hlater
    · omega
    · have := ih later hlater
      omega

theorem Spaced.pairwise_offset {offset : Nat} (h : Spaced offset text tokens)
    (hne : ∀ token ∈ tokens, token.text ≠ []) :
    tokens.Pairwise fun a b => a.offset < b.offset := by
  induction h with
  | blanks _ => exact .nil
  | @token offset blanks _ token _ _ hoffset hrest ih =>
    refine .cons (fun later hlater => ?_) (ih fun t ht => hne t (List.mem_cons_of_mem token ht))
    have hpos := List.length_pos_iff.mpr (hne token List.mem_cons_self)
    have := hrest.le_offset later hlater
    omega

/-- What an error names is the token of the index, or the end of the text behind all tokens. -/
def FoundAt (text : List Char) (tokens : List Token) (found : Option (String × Text.Position))
    (index : Nat) : Prop :=
  index ≤ tokens.length ∧ found =
    tokens[index]?.map fun token => (String.ofList token.text, .ofOffset text token.offset)

/-- An error leads back to one token. -/
theorem FoundAt.unique {found : Option (String × Text.Position)} {i j : Nat}
    (h : Reads text tokens) (hi : FoundAt text tokens found i) (hj : FoundAt text tokens found j) :
    i = j := by
  have hoffsets := h.spaced.pairwise_offset fun token htoken => (h.words token htoken).text_ne_nil
  wlog hlt : i < j generalizing i j
  · rcases Nat.eq_or_lt_of_le (Nat.le_of_not_lt hlt) with hij | hij
    · exact hij.symm
    · exact (this hj hi hij).symm
  obtain ⟨-, hfirst⟩ := hi
  obtain ⟨hlength, hsecond⟩ := hj
  have hi' : i < tokens.length := Nat.lt_of_lt_of_le hlt hlength
  rw [hsecond, List.getElem?_eq_getElem hi', Option.map_some, Option.map_eq_some_iff] at hfirst
  obtain ⟨token, htoken, hsame⟩ := hfirst
  obtain ⟨hj', rfl⟩ := List.getElem?_eq_some_iff.mp htoken
  have hplace := Text.Position.ofOffset_inj (h.words _ (List.getElem_mem hj')).offset_le
    (h.words _ (List.getElem_mem hi')).offset_le (Prod.mk.inj hsame).2
  have := List.pairwise_iff_getElem.mp hoffsets i j hi' hj' hlt
  omega

end Token

/-! ### What has to come next -/

/-- What has to stand behind the words. Behind a value, this is what closes the innermost open
parenthesis, or nothing more. -/
def Construct.behind (words : List Kind) : Construct :=
  match words.getLast? with
  | none | some .openParen => .expression
  | some (.additive _) => .term
  | some (.multiplicative _) => .factor
  | some .dice => .value
  | some (.integer _) | some .closeParen =>
    if words.count .closeParen < words.count .openParen then .closingParen else .endOfInput

namespace Parser

namespace State

variable {limit : Nat} {s t : State} {kind : Kind} {words : List Kind} {construct : Construct}

/-- What the state says when the next word is refused. -/
def expected : State → Construct
  | wanting slot _ => slot.expected
  | holding _ _ outer => ending outer

theorem ending_eq {outer : List Slot} (h : unclosed words = outer.length) :
    ending outer =
      if words.count .closeParen < words.count .openParen then .closingParen else .endOfInput := by
  rw [unclosed] at h
  cases outer with
  | nil =>
    rw [List.length_nil] at h
    rw [if_neg (by omega), ending]
  | cons slot outer =>
    rw [List.length_cons] at h
    rw [if_pos (by omega), ending]

/-- The last word decides, and behind a value also the number of open parentheses. -/
theorem expected_step (h : s.step limit kind = .ok t)
    (hwords : unclosed (words ++ [kind]) = t.depth) :
    t.expected = Construct.behind (words ++ [kind]) := by
  rw [Construct.behind, List.getLast?_concat]
  cases s with
  | wanting slot outer =>
    cases kind with
    | integer n =>
      cases h
      exact ending_eq hwords
    | openParen =>
      simp only [step] at h
      split at h
      · cases h
        rfl
      · cases h
    | _ => cases h
  | holding slot value outer =>
    cases kind with
    | additive op =>
      cases h
      rfl
    | multiplicative op =>
      cases h
      rfl
    | dice =>
      simp only [step] at h
      split at h
      · cases h
        rfl
      · cases h
    | closeParen =>
      cases outer with
      | nil => cases h
      | cons around outer =>
        cases h
        exact ending_eq hwords
    | _ => cases h

theorem expected_walk (h : start.walk limit words = .ok t) :
    t.expected = Construct.behind words := by
  have hunclosed := unclosed_of_walk h
  rcases List.eq_nil_or_concat' words with rfl | ⟨words, kind, rfl⟩
  · cases h
    rfl
  · obtain ⟨s, -, hlast⟩ := walk_append_eq_ok.mp h
    obtain ⟨u, hstep, hnil⟩ := walk_cons_eq_ok.mp hlast
    cases hnil
    exact expected_step hstep hunclosed

theorem eq_expected_of_step (h : s.step limit kind = .error (.unexpected construct)) :
    construct = s.expected := by
  cases s with
  | wanting slot outer =>
    cases kind with
    | openParen =>
      simp only [step] at h
      split at h <;> cases h
    | integer n => cases h
    | _ =>
      cases h
      rfl
  | holding slot value outer =>
    cases kind with
    | dice =>
      simp only [step] at h
      split at h
      · cases h
      · cases h
        rfl
    | closeParen =>
      cases outer with
      | nil =>
        cases h
        rfl
      | cons around outer => cases h
    | integer n =>
      cases h
      rfl
    | openParen =>
      cases h
      rfl
    | _ => cases h

/-- The end of the text is refused where it is not expected. -/
theorem eq_expected_of_finish {found : Option (String × Nat)}
    (h : s.finish = .error (.unexpected construct found)) :
    construct = s.expected ∧ found = none ∧ construct ≠ .endOfInput := by
  cases s with
  | wanting slot outer =>
    obtain ⟨rfl, rfl⟩ := ParseError.unexpected.inj (Except.error.inj h)
    refine ⟨rfl, rfl, ?_⟩
    unfold Slot.expected
    split_ifs <;> simp
  | holding slot value outer =>
    cases outer with
    | nil => cases h
    | cons around outer =>
      cases h
      exact ⟨rfl, rfl, by simp⟩

/-- The tokens before the place of an error determine what is expected there. -/
theorem run_eq_unexpected {tokens : List Token} {found : Option (String × Nat)}
    (h : start.run limit tokens = .error (.unexpected construct found)) :
    ∃ before rest, tokens = before ++ rest ∧
      found = rest.head?.map (fun token => (String.ofList token.text, token.offset)) ∧
      construct = Construct.behind (before.map Token.kind) ∧
      (construct = .endOfInput → found ≠ none) := by
  rcases run_eq_error h with ⟨before, token, after, t, rejection, rfl, hwalk, hstep, herror⟩ |
    ⟨t, hwalk, hfinish⟩
  · obtain ⟨expected, rfl⟩ : ∃ expected, rejection = .unexpected expected := by
      cases rejection with
      | unexpected expected => exact ⟨expected, rfl⟩
      | tooDeep => cases herror
    obtain ⟨rfl, rfl⟩ := ParseError.unexpected.inj herror
    refine ⟨before, token :: after, rfl, rfl, ?_, by simp⟩
    rw [eq_expected_of_step hstep, expected_walk hwalk]
  · obtain ⟨rfl, rfl, hend⟩ := eq_expected_of_finish hfinish
    refine ⟨tokens, [], (List.append_nil tokens).symm, rfl, ?_, fun h => absurd h hend⟩
    exact expected_walk hwalk

end State

end Parser

/-! ### Errors -/

namespace ParseError

theorem mapPlace_eq_unexpected {Place Place' : Type} {f : Place → Place'}
    {error : ParseError Place} {expected : Construct} {found : Option (String × Place')}
    (h : error.mapPlace f = .unexpected expected found) :
    ∃ found', error = .unexpected expected found' ∧
      found = found'.map fun named => (named.1, f named.2) := by
  cases error with
  | unexpected construct found' =>
    obtain ⟨rfl, rfl⟩ := unexpected.inj h
    exact ⟨found', rfl, rfl⟩
  | unreadable word place => cases h
  | tooDeep place => cases h

end ParseError

namespace Expr

open Text (Position)
open Token (FoundAt)

/-- A syntax error is one of a text that has tokens. It is found at one of them, or at their end,
and nowhere else; the tokens before that place determine what is expected there, and the end
of the text is expected only where a token is found. -/
theorem parsePlain_expected (text : String) (expected : Construct)
    (found : Option (String × Position))
    (h : parsePlain text = .error (.unexpected expected found)) :
    ∃ tokens index, Token.scan text.toList = .ok tokens ∧
      FoundAt text.toList tokens found index ∧
      (∀ other, FoundAt text.toList tokens found other → other = index) ∧
      expected = Construct.behind ((tokens.take index).map Token.kind) ∧
      (expected = .endOfInput → found ≠ none) := by
  obtain ⟨refused, hrefused, hplace⟩ := mapError_eq_error_iff.mp h
  obtain ⟨found', rfl, rfl⟩ := ParseError.mapPlace_eq_unexpected hplace
  obtain ⟨tokens, hscan, hrun⟩ := (ofChars_eq_error_iff.mp hrefused).resolve_left fun hscan => by
    obtain ⟨_, _, -, herror⟩ := Token.scan_eq_error_iff.mp hscan
    cases herror
  obtain ⟨before, rest, rfl, rfl, hexpected, hend⟩ := Parser.State.run_eq_unexpected hrun
  have hindex : FoundAt text.toList (before ++ rest)
      ((rest.head?.map fun token => (String.ofList token.text, token.offset)).map
        fun named => (named.1, .ofOffset text.toList named.2)) before.length := by
    refine ⟨by simp, ?_⟩
    rw [List.getElem?_append_right (Nat.le_refl _), Nat.sub_self, List.head?_eq_getElem?,
      Option.map_map]
    rfl
  refine ⟨before ++ rest, before.length, hscan, hindex, fun other hother => ?_, ?_, ?_⟩
  · exact hother.unique (Token.scan_eq_ok_iff.mp hscan) hindex
  · rw [List.take_left, hexpected]
  · simpa using hend

/-- The parenthesis that is still open has to be closed before the last number; the one that has
been closed makes no difference. -/
theorem parsePlain_expected_second_paren :
    let error := ParseError.unexpected .closingParen (some ("3", ⟨2, 1⟩))
    parsePlain "(1d6) * (2\n3" = .error error ∧
      ∃ tokens index, Token.scan "(1d6) * (2\n3".toList = .ok tokens ∧
        FoundAt "(1d6) * (2\n3".toList tokens (some ("3", ⟨2, 1⟩)) index ∧
        .closingParen = Construct.behind ((tokens.take index).map Token.kind) := by
  intro error
  obtain ⟨tokens, index, hscan, hindex, -, hexpected, -⟩ :=
    parsePlain_expected "(1d6) * (2\n3" .closingParen (some ("3", ⟨2, 1⟩)) rfl
  exact ⟨rfl, tokens, index, hscan, hindex, hexpected⟩

end Expr

end Dice
