import Dice.Expr.Printer
import Dice.Proofs.Decimal
import Dice.Proofs.Expr.Reading
import Dice.Proofs.Expr.Shorthand
import Dice.Proofs.Expr.Words

/-! Reading what has been printed. The canonical text of an expression spells its words,
so it is read back as the expression or not at all: a negative number, or too deep
a nesting, is refused. The shorthand changes the text only where a parenthesised count
stands before a `d`, and there it puts a number behind a closing parenthesis, which
no expression does. -/

namespace Dice

open Token (Kind Spells)

/-! ### Spelling an expression -/

theorem AddOp.toList_text (op : AddOp) :
    ∃ c, op.text.toList = [c] ∧ Token.symbol? c = some (.additive op) := by
  cases op
  · exact ⟨'+', rfl, rfl⟩
  · exact ⟨'-', rfl, rfl⟩

theorem MulOp.toList_text (op : MulOp) :
    ∃ c, op.text.toList = [c] ∧ Token.symbol? c = some (.multiplicative op) := by
  cases op
  · exact ⟨'*', rfl, rfl⟩
  · exact ⟨'/', rfl, rfl⟩

namespace Expr

variable {level : Level}

/-- Every number can be written in digits that the reader takes. -/
def Legible (e : Expr level) : Prop := ∀ n ∈ e.constants, (n.natAbs : Int) ≤ Word.greatest

theorem spells_const {n : Int} {kinds : List Kind} :
    Spells (toString n).toList kinds ↔
      (n.natAbs : Int) ≤ Word.greatest ∧ kinds = (const n).kinds := by
  by_cases h : n < 0
  · rw [toList_toString_neg h, ← List.nil_append ('-' :: _),
      Token.spells_append_symbol (c := '-') rfl]
    simp only [Token.spells_nil, Token.spells_toDigits, Expr.kinds, if_pos h]
    constructor
    · rintro ⟨_, _, rfl, ⟨hn, rfl⟩, rfl⟩
      exact ⟨hn, rfl⟩
    · rintro ⟨hn, rfl⟩
      exact ⟨[], _, rfl, ⟨hn, rfl⟩, rfl⟩
  · rw [toList_toString_nonneg (Int.not_lt.mp h), Token.spells_toDigits,
      kinds_const (Int.not_lt.mp h)]

theorem text_additive (left : Expr .sum) (op : AddOp) (right : Expr .product) :
    ∃ c, (additive left op right).text.toList =
        left.text.toList ++ ' ' :: c :: ' ' :: right.text.toList ∧
      Token.symbol? c = some (.additive op) := by
  obtain ⟨c, hc, hsymbol⟩ := op.toList_text
  exact ⟨c, by simp [text, hc], hsymbol⟩

theorem text_multiplicative (left : Expr .product) (op : MulOp) (right : Expr .factor) :
    ∃ c, (multiplicative left op right).text.toList =
        left.text.toList ++ ' ' :: c :: ' ' :: right.text.toList ∧
      Token.symbol? c = some (.multiplicative op) := by
  obtain ⟨c, hc, hsymbol⟩ := op.toList_text
  exact ⟨c, by simp [text, hc], hsymbol⟩

theorem text_dice (count sides : Expr .value) :
    (dice count sides).text.toList = count.text.toList ++ 'd' :: sides.text.toList := by
  simp [text]

theorem text_paren (inner : Expr .sum) :
    (paren inner).text.toList = '(' :: (inner.text.toList ++ [')']) := by
  simp [text]

/-- The words of two operands with one between them. -/
theorem spells_operands {l r : Level} {left : Expr l} {right : Expr r} {kind : Kind}
    {kinds : List Kind}
    (ihl : ∀ {kinds}, Spells left.text.toList kinds ↔ left.Legible ∧ kinds = left.kinds)
    (ihr : ∀ {kinds}, Spells right.text.toList kinds ↔ right.Legible ∧ kinds = right.kinds) :
    (∃ a b, Spells left.text.toList a ∧ Spells right.text.toList b ∧ kinds = a ++ kind :: b) ↔
      (left.Legible ∧ right.Legible) ∧ kinds = left.kinds ++ kind :: right.kinds := by
  simp only [ihl, ihr]
  constructor
  · rintro ⟨_, _, ⟨hl, rfl⟩, ⟨hr, rfl⟩, rfl⟩
    exact ⟨⟨hl, hr⟩, rfl⟩
  · rintro ⟨⟨hl, hr⟩, rfl⟩
    exact ⟨_, _, ⟨hl, rfl⟩, ⟨hr, rfl⟩, rfl⟩

/-- The words of the canonical text. -/
theorem spells_text (e : Expr level) {kinds : List Kind} :
    Spells e.text.toList kinds ↔ e.Legible ∧ kinds = e.kinds := by
  induction e generalizing kinds with
  | ofProduct product ih => exact ih
  | ofFactor factor ih => exact ih
  | ofValue value ih => exact ih
  | additive left op right ihl ihr =>
    obtain ⟨c, htext, hsymbol⟩ := text_additive left op right
    rw [htext, Token.spells_operator hsymbol, spells_operands ihl ihr]
    simp only [Legible, constants, List.forall_mem_append, Expr.kinds]
  | multiplicative left op right ihl ihr =>
    obtain ⟨c, htext, hsymbol⟩ := text_multiplicative left op right
    rw [htext, Token.spells_operator hsymbol, spells_operands ihl ihr]
    simp only [Legible, constants, List.forall_mem_append, Expr.kinds]
  | dice count sides ihc ihs =>
    rw [text_dice, Token.spells_append_symbol (c := 'd') rfl, spells_operands ihc ihs]
    simp only [Legible, constants, List.forall_mem_append, Expr.kinds]
  | const n => simpa [text, Legible, constants] using spells_const
  | paren inner ih =>
    rw [text_paren, ← List.nil_append ('(' :: _), Token.spells_append_symbol (c := '(') rfl]
    simp only [Token.spells_append_symbol (c := ')') rfl, Token.spells_nil, ih, Legible, constants,
      Expr.kinds]
    constructor
    · rintro ⟨_, _, rfl, ⟨_, _, ⟨hl, rfl⟩, rfl, rfl⟩, rfl⟩
      exact ⟨hl, rfl⟩
    · rintro ⟨hl, rfl⟩
      exact ⟨[], _, rfl, ⟨_, [], ⟨hl, rfl⟩, rfl, rfl⟩, rfl⟩

/-! ### Counts in the canonical text -/

/-- Every dice term counts its dice by a number, not by an expression. -/
def PlainCounts (e : Expr level) : Prop := ∀ term ∈ e.diceTerms, ∃ n, term.1 = .const n

/-- The text of a number has no `d` and ends in a digit. -/
theorem expandAfter_const (digit : Bool) (n : Int) :
    Shorthand.expandAfter digit (toString n).toList = (toString n).toList ∧
      Shorthand.afterDigit digit (toString n).toList = true := by
  have hdigits := isDigit_toDigits n.natAbs
  have hd : 'd' ∉ Nat.toDigits 10 n.natAbs := fun h => absurd (hdigits 'd' h) (by decide)
  by_cases h : n < 0
  · rw [toList_toString_neg h]
    refine ⟨Shorthand.expandAfter_of_not_mem (by simp [hd]), ?_⟩
    exact @Shorthand.afterDigit_of_forall false _ true Nat.toDigits_ne_nil hdigits
  · rw [toList_toString_nonneg (Int.not_lt.mp h)]
    exact ⟨Shorthand.expandAfter_of_not_mem hd,
      Shorthand.afterDigit_of_forall Nat.toDigits_ne_nil hdigits⟩

/-- Where every count is a number, the shorthand changes nothing. -/
theorem expandAfter_text {e : Expr level} (h : e.PlainCounts) (digit : Bool) :
    Shorthand.expandAfter digit e.text.toList = e.text.toList := by
  induction e generalizing digit with
  | ofProduct product ih => exact ih h digit
  | ofFactor factor ih => exact ih h digit
  | ofValue value ih => exact ih h digit
  | additive left op right ihl ihr =>
    obtain ⟨c, htext, hsymbol⟩ := text_additive left op right
    have hc : c ≠ 'd' := by
      rintro rfl
      cases hsymbol
    simp only [PlainCounts, diceTerms, List.forall_mem_append] at h
    rw [htext]
    exact Shorthand.expandAfter_operator hc (ihl h.1 digit) (ihr h.2 false)
  | multiplicative left op right ihl ihr =>
    obtain ⟨c, htext, hsymbol⟩ := text_multiplicative left op right
    have hc : c ≠ 'd' := by
      rintro rfl
      cases hsymbol
    simp only [PlainCounts, diceTerms, List.forall_mem_append] at h
    rw [htext]
    exact Shorthand.expandAfter_operator hc (ihl h.1 digit) (ihr h.2 false)
  | dice count sides ihc ihs =>
    simp only [PlainCounts, diceTerms, List.forall_mem_append, List.forall_mem_singleton] at h
    obtain ⟨⟨-, hsides⟩, n, rfl⟩ := h
    obtain ⟨hcount, hdigit⟩ := expandAfter_const digit n
    have htext : (const n).text = toString n := rfl
    rw [text_dice, htext, Shorthand.expandAfter_append, Shorthand.expandAfter_cons, ihs hsides,
      hcount, hdigit]
    simp
  | const n => exact (expandAfter_const digit n).1
  | paren inner ih =>
    rw [text_paren, Shorthand.expandAfter_cons_of_ne (by decide), Shorthand.expandAfter_append,
      ih h, Shorthand.expandAfter_cons_of_ne (by decide)]
    rfl

/-- The text of a dice term stands in the text of every expression around it. -/
theorem text_infix {e : Expr level} {term : Expr .value × Expr .value} (h : term ∈ e.diceTerms) :
    (dice term.1 term.2).text.toList <:+: e.text.toList := by
  induction e with
  | ofProduct product ih => exact ih h
  | ofFactor factor ih => exact ih h
  | ofValue value ih => exact ih h
  | additive left op right ihl ihr =>
    obtain ⟨c, htext, -⟩ := text_additive left op right
    rw [htext]
    rcases List.mem_append.mp h with h | h
    · exact List.infix_append_of_infix_left (ihl h)
    · exact List.infix_append_of_infix_right
        (List.infix_cons (List.infix_cons (List.infix_cons (ihr h))))
  | multiplicative left op right ihl ihr =>
    obtain ⟨c, htext, -⟩ := text_multiplicative left op right
    rw [htext]
    rcases List.mem_append.mp h with h | h
    · exact List.infix_append_of_infix_left (ihl h)
    · exact List.infix_append_of_infix_right
        (List.infix_cons (List.infix_cons (List.infix_cons (ihr h))))
  | dice count sides ihc ihs =>
    simp only [diceTerms, List.mem_append, List.mem_singleton] at h
    rcases h with (h | h) | rfl
    · rw [text_dice count]
      exact List.infix_append_of_infix_left (ihc h)
    · rw [text_dice count]
      exact List.infix_append_of_infix_right (List.infix_cons (ihs h))
    · exact List.infix_rfl
  | const n => cases h
  | paren inner ih =>
    rw [text_paren]
    exact (List.infix_append_of_infix_left (ih h)).trans (List.suffix_cons _ _).isInfix

/-! ### Reading the canonical text -/

theorem ofChars_eq_ok_iff_spells {text : List Char} {e : Expr .sum} :
    ofChars text = .ok e ↔
      ∃ kinds, Spells text kinds ∧ Derives kinds e ∧ e.nesting ≤ nestingLimit := by
  rw [ofChars_eq_ok_iff]
  constructor
  · rintro ⟨tokens, hscan, h⟩
    exact ⟨_, ⟨tokens, hscan, rfl⟩, h⟩
  · rintro ⟨_, ⟨tokens, hscan, rfl⟩, h⟩
    exact ⟨tokens, hscan, h⟩

/-- The canonical text is read as the expression or not at all. -/
theorem ofChars_text_eq_ok_iff {e e' : Expr .sum} :
    ofChars e.text.toList = .ok e' ↔ e' = e ∧ e.Legible ∧ e.Natural ∧ e.nesting ≤ nestingLimit := by
  simp only [ofChars_eq_ok_iff_spells, spells_text]
  constructor
  · rintro ⟨_, ⟨hlegible, rfl⟩, hderives, hd⟩
    obtain ⟨rfl, hn⟩ := derives_kinds_iff.mp hderives
    exact ⟨rfl, hlegible, hn, hd⟩
  · rintro ⟨rfl, hlegible, hn, hd⟩
    exact ⟨_, ⟨hlegible, rfl⟩, derives_kinds hn, hd⟩

/-- With a count in parentheses, the shorthand leaves a text that is no expression. -/
theorem plainCounts_of_ofChars_expand {e e' : Expr .sum}
    (h : ofChars (Shorthand.expand e.text.toList) = .ok e') : e.PlainCounts := by
  intro term hterm
  cases hcount : term.1 with
  | const n => exact ⟨n, rfl⟩
  | paren inner =>
    exfalso
    obtain ⟨l, m, htext⟩ := text_infix hterm
    have hsplit : e.text.toList =
        (l ++ '(' :: inner.text.toList) ++ ')' :: 'd' :: (term.2.text.toList ++ m) := by
      rw [← htext, text_dice, hcount, text_paren]
      simp
    rw [hsplit, Shorthand.expand_paren_dice, ofChars_eq_ok_iff_spells] at h
    obtain ⟨kinds, hspells, hderives, -⟩ := h
    obtain ⟨a, rest, -, hrest, rfl⟩ := (Token.spells_append_symbol (c := ')') rfl).mp hspells
    rw [← List.singleton_append (x := '1')] at hrest
    obtain ⟨_, b, hone, -, rfl⟩ := (Token.spells_append_symbol (c := 'd') rfl).mp hrest
    obtain ⟨-, rfl⟩ := Token.spells_toDigits (n := 1).mp hone
    exact not_derives_closeParen_integer hderives

/-- The canonical text of an expression is read back as that expression, if no number is
negative and parentheses nest within the limit, and otherwise refused; with the shorthand,
a count that is no number is refused as well. -/
theorem parse_text (e : Expr .sum) (hwords : ∀ n ∈ e.constants, Word.Fits n) :
    (∀ e', parsePlain e.text = .ok e' ↔ e' = e ∧ (∀ n ∈ e.constants, 0 ≤ n) ∧
      e.nesting ≤ nestingLimit) ∧
    (∀ e', parse e.text = .ok e' ↔ e' = e ∧ (∀ n ∈ e.constants, 0 ≤ n) ∧
      e.nesting ≤ nestingLimit ∧ ∀ term ∈ e.diceTerms, ∃ n, term.1 = .const n) := by
  have hlegible : e.Natural → e.Legible := fun hn n hmem => by
    have hpos := hn n hmem
    have hfits := (hwords n hmem).2
    omega
  have hplain : ∀ e', ofChars e.text.toList = .ok e' ↔
      e' = e ∧ e.Natural ∧ e.nesting ≤ nestingLimit := fun e' => by
    rw [ofChars_text_eq_ok_iff]
    exact and_congr_right fun _ => and_iff_right_of_imp fun h => hlegible h.1
  constructor
  · intro e'
    rw [parsePlain_eq_ok_iff]
    exact hplain e'
  · intro e'
    rw [parse_eq_ok_iff]
    constructor
    · intro h
      have hcounts := plainCounts_of_ofChars_expand h
      rw [Shorthand.expand_eq, expandAfter_text hcounts, hplain] at h
      exact ⟨h.1, h.2.1, h.2.2, hcounts⟩
    · rintro ⟨he, hn, hd, hcounts⟩
      rw [Shorthand.expand_eq, expandAfter_text hcounts]
      exact (hplain e').mpr ⟨he, hn, hd⟩

/-- The text `(1d4)d6 - 2` is read back without the shorthand, and with it refused. -/
theorem parse_text_nested_count :
    let e : Expr .sum := .additive (.ofProduct (.ofFactor (.dice
      (.paren (.ofProduct (.ofFactor (.dice (.const 1) (.const 4))))) (.const 6))))
      .sub (.ofFactor (.ofValue (.const 2)))
    (∀ n ∈ e.constants, Word.Fits n) ∧ parsePlain e.text = .ok e ∧ ∀ e', parse e.text ≠ .ok e' := by
  intro e
  have hwords : ∀ n ∈ e.constants, Word.Fits n := by decide
  have hread := parse_text e hwords
  refine ⟨hwords, (hread.1 e).mpr ⟨rfl, by decide, by decide⟩, fun e' h => ?_⟩
  obtain ⟨-, -, -, hcounts⟩ := (hread.2 e').mp h
  obtain ⟨n, hn⟩ :=
    hcounts (.paren (.ofProduct (.ofFactor (.dice (.const 1) (.const 4)))), .const 6) (by decide)
  cases hn

end Expr

end Dice
