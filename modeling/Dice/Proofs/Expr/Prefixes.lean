import Dice.Proofs.Expr.Reading
import Dice.Proofs.Expr.Words

/-! Where reading stops. Every state of the reader can be completed: a value if one has to
come next, and then a closing parenthesis for each one that is open. A word that is
refused is refused for good, whatever follows it. Main statement: an error points at the
first word that cannot be right, or at the end of a text that lacks words, or at a
parenthesis that would be open beside `nestingLimit` others. -/

namespace Dice

open Token (Kind Spells unclosed NestsWithin unclosed_append unclosed_cons)

/-- The words derive an expression, and parentheses nest within the limit. -/
def Accepts (words : List Kind) : Prop :=
  (∃ e : Expr .sum, Derives words e) ∧ NestsWithin nestingLimit words

/-- Some text after the words makes them an accepted row. -/
def Continues (words : List Kind) : Prop :=
  ∃ text more, Spells text more ∧ Accepts (words ++ more)

namespace Parser

/-! ### Open parentheses of a state -/

namespace Slot

theorem unclosed_kinds (slot : Slot) : unclosed slot.kinds = 0 := by
  obtain ⟨sum, product, count⟩ := slot
  simp only [kinds, unclosed_append, sumKinds, productKinds, countKinds]
  have hadd : ∀ op, unclosed [.additive op] = 0 := fun _ => rfl
  have hmul : ∀ op, unclosed [.multiplicative op] = 0 := fun _ => rfl
  have hdice : unclosed [.dice] = 0 := rfl
  cases sum <;> cases product <;> cases count <;>
    simp [unclosed_append, Expr.unclosed_kinds, hadd, hmul, hdice]

end Slot

namespace State

variable {limit : Nat} {s t : State}

/-- The number of open parentheses. -/
def depth : State → Nat
  | wanting _ outer => outer.length
  | holding _ _ outer => outer.length

theorem unclosed_outerKinds (outer : List Slot) : unclosed (outerKinds outer) = outer.length := by
  induction outer with
  | nil => rfl
  | cons slot outer ih =>
    have hopen : unclosed [.openParen] = 1 := rfl
    rw [outerKinds, unclosed_append, unclosed_append, ih, slot.unclosed_kinds, hopen,
      List.length_cons]
    omega

theorem unclosed_kinds (s : State) : unclosed s.kinds = s.depth := by
  cases s with
  | wanting slot outer =>
    rw [kinds, unclosed_append, unclosed_outerKinds, slot.unclosed_kinds, depth, Int.add_zero]
  | holding slot value outer =>
    rw [kinds, unclosed_append, unclosed_append, unclosed_outerKinds, slot.unclosed_kinds,
      value.unclosed_kinds, depth, Int.add_zero, Int.add_zero]

theorem unclosed_of_walk {words : List Kind} (h : start.walk limit words = .ok t) :
    unclosed words = t.depth := by
  have hkinds : t.kinds = words := kinds_walk h
  rw [← hkinds, unclosed_kinds]

theorem depth_step {kind : Kind} (h : s.step limit kind = .ok t) :
    (t.depth : Int) = s.depth + unclosed [kind] := by
  rw [← unclosed_kinds, kinds_step h, unclosed_append, unclosed_kinds]

theorem depth_lt_of_openParen (h : s.step limit .openParen = .ok t) : s.depth < limit := by
  cases s with
  | wanting slot outer =>
    simp only [step] at h
    split at h
    · assumption
    · cases h
  | holding slot value outer => cases outer <;> cases h

theorem depth_step_le {kind : Kind} (h : s.step limit kind = .ok t) (hs : s.depth ≤ limit) :
    t.depth ≤ limit := by
  have hdepth := depth_step h
  cases kind with
  | openParen =>
    have hopen : unclosed [.openParen] = 1 := rfl
    have hlt := depth_lt_of_openParen h
    omega
  | closeParen =>
    have hclose : unclosed [.closeParen] = -1 := rfl
    omega
  | _ =>
    rw [show unclosed _ = 0 from rfl] at hdepth
    omega

theorem depth_walk_le {words : List Kind} (h : s.walk limit words = .ok t) (hs : s.depth ≤ limit) :
    t.depth ≤ limit := by
  induction words generalizing s with
  | nil =>
    cases h
    exact hs
  | cons kind words ih =>
    obtain ⟨u, hstep, hwalk⟩ := walk_cons_eq_ok.mp h
    exact ih hwalk (depth_step_le hstep hs)

/-! ### Completing a state -/

/-- A shortest row of words that ends the expression. -/
def completion : State → List Kind
  | wanting _ outer => .integer 1 :: List.replicate outer.length .closeParen
  | holding _ _ outer => List.replicate outer.length .closeParen

theorem walk_closeParens (slot : Slot) (value : Expr .value) (outer : List Slot) :
    ∃ t e, (holding slot value outer).walk limit (List.replicate outer.length .closeParen) = .ok t ∧
      t.finish = .ok e := by
  induction outer generalizing slot value with
  | nil => exact ⟨_, _, rfl, rfl⟩
  | cons around outer ih => exact ih around (.paren (slot.closeSum value))

theorem walk_completion (s : State) :
    ∃ t e, s.walk limit s.completion = .ok t ∧ t.finish = .ok e := by
  cases s with
  | wanting slot outer => exact walk_closeParens slot (.const 1) outer
  | holding slot value outer => exact walk_closeParens slot value outer

theorem spells_closeParens (n : Nat) :
    Spells (List.replicate n ')') (List.replicate n .closeParen) := by
  induction n with
  | zero => exact Token.spells_nil.mpr rfl
  | succ n ih =>
    exact (Token.spells_append_symbol (l := []) rfl).mpr ⟨[], _, Token.spells_nil.mpr rfl, ih, rfl⟩

theorem spells_completion (s : State) : ∃ text, Spells text s.completion := by
  cases s with
  | wanting slot outer =>
    have hone : Spells ['1'] [.integer 1] :=
      (Token.spells_toDigits (n := 1)).mpr ⟨by decide, rfl⟩
    cases hdepth : outer.length with
    | zero => exact ⟨['1'], by simpa [completion, hdepth] using hone⟩
    | succ n =>
      refine ⟨['1'] ++ ')' :: List.replicate n ')', ?_⟩
      rw [Token.spells_append_symbol rfl]
      exact ⟨_, _, hone, spells_closeParens n, by simp [completion, hdepth, List.replicate_succ]⟩
  | holding slot value outer => exact ⟨_, spells_closeParens outer.length⟩

/-! ### Accepted rows and refused words -/

theorem accepts_iff {words : List Kind} :
    Accepts words ↔ ∃ t e, start.walk nestingLimit words = .ok t ∧ t.finish = .ok e := by
  constructor
  · rintro ⟨⟨e, hderives⟩, hnests⟩
    rw [hderives.eq_kinds, Expr.nestsWithin_kinds, Int.ofNat_le] at hnests
    obtain ⟨t, hwalk, hfinish⟩ := walk_start_iff.mpr ⟨hderives, hnests⟩
    exact ⟨t, e, hwalk, hfinish⟩
  · rintro ⟨t, e, hwalk, hfinish⟩
    obtain ⟨hderives, hnests⟩ := walk_start_iff.mp ⟨t, hwalk, hfinish⟩
    refine ⟨⟨e, hderives⟩, ?_⟩
    rw [hderives.eq_kinds, Expr.nestsWithin_kinds, Int.ofNat_le]
    exact hnests

/-- Words that have been taken can be completed. -/
theorem continues_of_walk {words : List Kind} (h : start.walk nestingLimit words = .ok s) :
    Continues words := by
  obtain ⟨text, hspells⟩ := s.spells_completion
  obtain ⟨t, e, hwalk, hfinish⟩ := @walk_completion nestingLimit s
  exact ⟨text, s.completion, hspells,
    accepts_iff.mpr ⟨t, e, walk_append_eq_ok.mpr ⟨s, h, hwalk⟩, hfinish⟩⟩

theorem continues_of_prefix {words part : List Kind} (h : start.walk nestingLimit words = .ok s)
    (hpart : part <+: words) : Continues part := by
  obtain ⟨rest, rfl⟩ := hpart
  obtain ⟨t, hwalk, -⟩ := walk_append_eq_ok.mp h
  exact continues_of_walk hwalk

/-- No words after a refused one make up for it. -/
theorem not_accepts_of_step {words : List Kind} {kind : Kind} {rejection : Rejection}
    (h : start.walk nestingLimit words = .ok s)
    (hstep : s.step nestingLimit kind = .error rejection) (more : List Kind) :
    ¬ Accepts (words ++ kind :: more) := by
  rw [accepts_iff]
  rintro ⟨t, e, hwalk, -⟩
  obtain ⟨u, hu, hrest⟩ := walk_append_eq_ok.mp hwalk
  obtain rfl : s = u := by simpa [h] using hu
  obtain ⟨v, hv, -⟩ := walk_cons_eq_ok.mp hrest
  cases hstep.symm.trans hv

theorem not_accepts_of_finish {words : List Kind} {error : ParseError Nat}
    (h : start.walk nestingLimit words = .ok s) (hfinish : s.finish = .error error) :
    ¬ Accepts words := by
  rw [accepts_iff]
  rintro ⟨t, e, hwalk, ht⟩
  obtain rfl : s = t := by simpa [h] using hwalk
  cases hfinish.symm.trans ht

/-- Only a parenthesis is too deep, and only when the limit has been reached. -/
theorem step_eq_tooDeep {kind : Kind} (h : s.step limit kind = .error .tooDeep) :
    kind = .openParen ∧ limit ≤ s.depth := by
  cases s with
  | wanting slot outer =>
    cases kind with
    | openParen =>
      simp only [step] at h
      split at h
      · cases h
      · next hfull => exact ⟨rfl, Nat.not_lt.mp hfull⟩
    | _ => cases h
  | holding slot value outer =>
    cases kind with
    | dice =>
      simp only [step] at h
      split at h <;> cases h
    | closeParen => cases outer <;> cases h
    | _ => cases h

theorem finish_eq_error {error : ParseError Nat} (h : s.finish = .error error) :
    ∃ expected, error = .unexpected expected none := by
  unfold finish at h
  split at h
  · exact ⟨_, (Except.error.inj h).symm⟩
  · cases h
  · exact ⟨_, (Except.error.inj h).symm⟩

/-- Reading fails at the first token that is refused, or at the end. -/
theorem run_eq_error {tokens : List Token} {error : ParseError Nat}
    (h : s.run limit tokens = .error error) :
    (∃ before token after t rejection, tokens = before ++ token :: after ∧
      s.walk limit (before.map Token.kind) = .ok t ∧
      t.step limit token.kind = .error rejection ∧ error = rejection.toError token) ∨
    ∃ t, s.walk limit (tokens.map Token.kind) = .ok t ∧ t.finish = .error error := by
  induction tokens generalizing s with
  | nil => exact .inr ⟨s, rfl, h⟩
  | cons token tokens ih =>
    rw [run] at h
    cases hstep : s.step limit token.kind with
    | error rejection =>
      rw [hstep] at h
      exact .inl ⟨[], token, tokens, s, rejection, rfl, rfl, hstep, (Except.error.inj h).symm⟩
    | ok next =>
      rw [hstep] at h
      rcases ih h with ⟨before, refused, after, t, rejection, rfl, hwalk, hrefused, herror⟩ |
        ⟨t, hwalk, hfinish⟩
      · exact .inl ⟨token :: before, refused, after, t, rejection, rfl,
          walk_cons_eq_ok.mpr ⟨next, hstep, hwalk⟩, hrefused, herror⟩
      · exact .inr ⟨t, walk_cons_eq_ok.mpr ⟨next, hstep, hwalk⟩, hfinish⟩

end State

end Parser

/-! ### Where an error points -/

namespace ParseError

open Text (Position)

/-- The error points at the first token that cannot be right: those before it can be continued to
an accepted row, and with it no continuation is accepted. At the end of the text, the whole row
can be continued, but is not accepted. A parenthesis is too deep if `nestingLimit` are open
before it, and every row of tokens before it can be continued. -/
def PointsAtFirst (text : List Char) (tokens : List Token) : ParseError Position → Prop
  | unreadable _ _ => False
  | unexpected _ none =>
    Continues (tokens.map Token.kind) ∧ ¬ Accepts (tokens.map Token.kind)
  | unexpected _ (some (word, place)) =>
    ∃ before token after, tokens = before ++ token :: after ∧
      word = String.ofList token.text ∧ place = .ofOffset text token.offset ∧
      Continues (before.map Token.kind) ∧
      ∀ more, ¬ Accepts (before.map Token.kind ++ token.kind :: more)
  | tooDeep place =>
    ∃ before token after, tokens = before ++ token :: after ∧
      token.kind = .openParen ∧ place = .ofOffset text token.offset ∧
      unclosed (before.map Token.kind) = nestingLimit ∧
      Continues (before.map Token.kind) ∧
      ∀ part, part <+: before → Continues (part.map Token.kind)

end ParseError

namespace Expr

open Dice.Parser Dice.Parser.State

/-- A text that falls into tokens and is refused is refused at the first token that cannot be
right. -/
theorem parsePlain_error_first (text : String) (tokens : List Token)
    (error : ParseError Text.Position) (hscan : Token.scan text.toList = .ok tokens)
    (h : parsePlain text = .error error) : error.PointsAtFirst text.toList tokens := by
  obtain ⟨refused, hrefused, rfl⟩ := mapError_eq_error_iff.mp h
  have hrun : State.start.run nestingLimit tokens = .error refused := by
    simpa [hscan] using ofChars_eq_error_iff.mp hrefused
  rcases run_eq_error hrun with ⟨before, token, after, t, rejection, rfl, hwalk, hstep, rfl⟩ |
    ⟨t, hwalk, hfinish⟩
  · cases rejection with
    | unexpected expected =>
      exact ⟨before, token, after, rfl, rfl, rfl, continues_of_walk hwalk,
        not_accepts_of_step hwalk hstep⟩
    | tooDeep =>
      obtain ⟨hkind, hfull⟩ := step_eq_tooDeep hstep
      have hdepth : t.depth ≤ nestingLimit := depth_walk_le hwalk (Nat.zero_le _)
      refine ⟨before, token, after, rfl, hkind, rfl, ?_, continues_of_walk hwalk, ?_⟩
      · rw [unclosed_of_walk hwalk, Nat.le_antisymm hdepth hfull]
      · exact fun part hpart => continues_of_prefix hwalk (hpart.map Token.kind)
  · obtain ⟨expected, rfl⟩ := finish_eq_error hfinish
    exact ⟨continues_of_walk hwalk, not_accepts_of_finish hwalk hfinish⟩

/-- In `(1d2d3)` the second `d` is refused: no text after it makes a dice term of a dice term. -/
theorem parsePlain_error_second_dice :
    let error := ParseError.unexpected .closingParen (some ("d", ⟨1, 5⟩))
    ∃ tokens, Token.scan "(1d2d3)".toList = .ok tokens ∧ parsePlain "(1d2d3)" = .error error ∧
      error.PointsAtFirst "(1d2d3)".toList tokens := by
  intro error
  exact ⟨_, rfl, rfl, parsePlain_error_first "(1d2d3)" _ error rfl rfl⟩

end Expr

end Dice
