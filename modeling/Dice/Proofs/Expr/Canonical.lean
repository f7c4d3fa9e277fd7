import Dice.Proofs.Expr.RoundTrip
import Dice.Proofs.Expr.Spans

/-! What is read with the shorthand. A `d` of the expanded text stands right after a digit,
so the word before it is a number, and no count is an expression in parentheses. The
numbers of an expression are words that were read, hence none is negative and a word
can hold each. Main statement: an expression that is read has these properties, and its
canonical text is read as the same expression again. -/

namespace Dice

open Token (Kind Spells)

namespace Shorthand

/-- With every count written out, the word before a `d` is a number. -/
theorem exists_integer_of_spells_dice {text : List Char} {a b : List Kind}
    (h : Spells (expand text) (a ++ .dice :: b)) : ∃ front n, a = front ++ [.integer n] := by
  obtain ⟨l, lexeme, m, htext, hl, hjoined, hkind⟩ := h.exists_lexeme
  obtain rfl := hjoined.eq_symbol (c := 'd') rfl hkind
  -- the text before the `d` ends in a row of digits, which is a word by itself
  obtain ⟨front, digits, rfl, hne, hdigits, hfront⟩ := Token.exists_append_digits
    (afterDigit_false_iff.mp (afterDigit_of_expandAfter htext))
  rw [← List.append_nil digits, Token.spells_number hfront (by simp) hne hdigits] at hl
  obtain ⟨first, rest, -, hrest, -, rfl⟩ := hl
  obtain rfl := Token.spells_nil.mp hrest
  exact ⟨first, _, rfl⟩

end Shorthand

namespace Expr

variable {level : Level} {e : Expr level}

theorem legible_of_spells {text : List Char} (h : Spells text e.kinds) : e.Legible :=
  fun _ hn => h.integer_le (integer_mem_kinds hn)

/-- The numbers of an expression that is read are words, and none is negative. -/
theorem bounded_of_parse {text : String} {e : Expr .sum} (h : parse text = .ok e) :
    ∀ n ∈ e.constants, 0 ≤ n ∧ n ≤ Word.greatest := by
  obtain ⟨kinds, hspells, hderives, -⟩ := ofChars_eq_ok_iff_spells.mp (parse_eq_ok_iff.mp h)
  obtain rfl := hderives.eq_kinds
  intro n hn
  have hpos := hderives.natural n hn
  have hfits := legible_of_spells hspells n hn
  omega

/-- A parenthesis would close right before the `d`. -/
theorem plainCounts_of_spells_expand {text : List Char}
    (h : Spells (Shorthand.expand text) e.kinds) : e.PlainCounts := by
  intro term hterm
  obtain ⟨before, after, hkinds⟩ := kinds_infix hterm
  cases hcount : term.1 with
  | const n => exact ⟨n, rfl⟩
  | paren inner =>
    have hparen : e.kinds = (before ++ .openParen :: inner.kinds ++ [.closeParen]) ++
        .dice :: (term.2.kinds ++ after) := by
      rw [← hkinds, hcount]
      simp [kinds]
    obtain ⟨front, n, hcloses⟩ := Shorthand.exists_integer_of_spells_dice (hparen ▸ h)
    cases (List.append_inj' hcloses rfl).2

/-- An expression that is read has no negative number and none that a word cannot hold, its
parentheses nest within the limit, and a number counts the dice of each term; its canonical text
is read as the expression again. -/
theorem parse_canonical (text : String) (e : Expr .sum) (h : parse text = .ok e) :
    (∀ n ∈ e.constants, 0 ≤ n ∧ n ≤ Word.greatest) ∧ e.nesting ≤ nestingLimit ∧
      (∀ term ∈ e.diceTerms, ∃ n, term.1 = .const n) ∧ parse e.text = .ok e := by
  obtain ⟨kinds, hspells, hderives, hdepth⟩ := ofChars_eq_ok_iff_spells.mp (parse_eq_ok_iff.mp h)
  obtain rfl := hderives.eq_kinds
  have hnatural : e.Natural := hderives.natural
  have hlegible := legible_of_spells hspells
  have hcounts := plainCounts_of_spells_expand hspells
  refine ⟨fun n hn => ?_, hdepth, hcounts, ?_⟩
  · have hpos := hnatural n hn
    have hfits := hlegible n hn
    omega
  · rw [parse_eq_ok_iff, Shorthand.expand_eq, expandAfter_text hcounts, ofChars_text_eq_ok_iff]
    exact ⟨rfl, hlegible, hnatural, hdepth⟩

/-- Blanks and leading zeros are not canonical, and the count of the first term is not typed. -/
theorem parse_canonical_nested_sides :
    let e : Expr .sum := .additive (.ofProduct (.ofFactor (.dice (.const 1)
      (.paren (.ofProduct (.ofFactor (.dice (.const 2) (.const 6)))))))) .sub
      (.ofFactor (.ofValue (.const 7)))
    parse "d( 2d6 )-07" = .ok e ∧ e.text = "1d(2d6) - 7" ∧ parse e.text = .ok e := by
  intro e
  have hread : parse "d( 2d6 )-07" = .ok e := rfl
  exact ⟨hread, by decide, (parse_canonical "d( 2d6 )-07" e hread).2.2.2⟩

end Expr

end Dice
