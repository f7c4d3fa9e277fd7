import Dice.Proofs.Expr.RoundTrip
import Dice.Proofs.Expr.Spans

/-! Blanks put into a text. At most places they change no word. Between two digits, or
between a digit and the `d` after it, they leave two numbers next to each other: the
digits before the place, and those after it or the count that is inserted there. Two
numbers in a row are no part of an expression. Main statement: with blanks at a place, a
text that is read is read as the same expression, or refused where the second number stands. -/

namespace Dice

open Text (isBlank)
open Token (Kind Spells words joins)

namespace Shorthand

variable {digit : Bool} {l m blanks : List Char}

/-- The place between the texts lies inside a number, or between a number and its `d`. -/
def Splits (before after : List Char) : Prop :=
  (∃ c ∈ before.getLast?, c.isDigit) ∧ ∃ c ∈ after.head?, c.isDigit ∨ c = 'd'

instance (before after : List Char) : Decidable (Splits before after) :=
  have : Decidable (∃ c ∈ before.getLast?, c.isDigit) := Option.decidableExistsMem _
  have : Decidable (∃ c ∈ after.head?, c.isDigit ∨ c = 'd') := Option.decidableExistsMem _
  inferInstanceAs (Decidable (_ ∧ _))

/-- Nothing is inserted among blanks, and no digit stands right after them. -/
theorem expand_insert_blanks (hne : blanks ≠ []) (hblanks : ∀ x ∈ blanks, isBlank x) :
    expand (l ++ (blanks ++ m)) = expand l ++ (blanks ++ expand m) := by
  have hd : 'd' ∉ blanks := fun hmem => absurd (hblanks 'd' hmem) (by decide)
  have hdigits : ∀ x ∈ blanks, x.isDigit = false := fun x hx =>
    Token.isDigit_eq_false_of_isBlank (hblanks x hx)
  simp only [expand_eq]
  rw [expandAfter_append, expandAfter_append, expandAfter_of_not_mem hd,
    afterDigit_of_forall hne hdigits]

/-- A place that splits no number cuts the expansion as well. -/
theorem expand_append (h : ¬ Splits l m) : expand (l ++ m) = expand l ++ expand m := by
  rw [expand_eq, expandAfter_append, ← expand_eq]
  congr 1
  by_cases hdigit : afterDigit false l
  · refine expandAfter_of_head?_ne fun hd => h ⟨afterDigit_false_iff.mp hdigit, 'd', hd, .inr rfl⟩
  · rw [Bool.eq_false_iff.mpr hdigit, expand_eq]

/-- The expansion starts with a digit only before a digit or a `d`. -/
theorem head_expand {y : Char} (hy : y ∈ (expand m).head?) (hdigit : y.isDigit) :
    ∃ c ∈ m.head?, c.isDigit ∨ c = 'd' := by
  cases m with
  | nil => cases hy
  | cons c m =>
    by_cases hc : c = 'd'
    · exact ⟨c, rfl, .inr hc⟩
    · rw [expand_eq, expandAfter_cons_of_ne hc] at hy
      obtain rfl : c = y := Option.some.inj hy
      exact ⟨c, rfl, .inl hdigit⟩

/-- At a place that splits no number, the words are cut. -/
theorem words_expand_append {kinds : List Kind} (hspells : Spells (expand (l ++ m)) kinds)
    (h : ¬ Splits l m) :
    words (expand (l ++ m)) = words (expand l) ++ words (expand m) := by
  rw [expand_append h] at hspells ⊢
  refine Token.words_append_of_joins_isBlank fun x hx y hy hjoins => ?_
  have hdigit : ¬ x.isDigit := by
    intro hx'
    rw [expand_eq, getLast?_expandAfter] at hx
    exact h ⟨⟨x, hx, hx'⟩, head_expand hy ((Token.isDigit_iff_of_joins hjoins).mp hx')⟩
  have hother := hspells.class_ne_other (List.mem_append_left _ (List.mem_of_getLast? hx))
  cases hclass : Token.Class.ofChar x with
  | blank => exact Token.class_eq_blank_iff.mp hclass
  | digit => exact absurd (Token.isDigit_of_class hclass) hdigit
  | symbol =>
    rw [Token.joins_symbol_left hclass] at hjoins
    cases hjoins
  | other => exact absurd hclass hother

/-- What stands behind a place that splits a number: after the digit before it, the digits
`joined` and `rest`, and after blanks, the digits `apart` and the same rest. The digits are the
same, or those after blanks are an inserted one. -/
structure Cut (after joined apart rest : List Char) : Prop where
  after_digit : expandAfter true after = joined ++ rest
  after_blank : expand after = apart ++ rest
  joined_digits : ∀ x ∈ joined, x.isDigit
  apart_digits : ∀ x ∈ apart, x.isDigit
  apart_ne_nil : apart ≠ []
  rest_head : ∀ y ∈ rest.head?, y.isDigit = false
  value_le : Nat.ofDigitChars 10 apart 0 ≤ max (Nat.ofDigitChars 10 joined 0) 1

theorem exists_cut (h : ∃ c ∈ m.head?, c.isDigit ∨ c = 'd') :
    ∃ joined apart rest, Cut m joined apart rest := by
  cases m with
  | nil => simp at h
  | cons c m =>
    have hc : c.isDigit ∨ c = 'd' := by simpa using h
    rcases hc with hdigit | rfl
    · have hd : c ≠ 'd' := by
        rintro rfl
        cases hdigit
      have hhead : (c :: m).head? ≠ some 'd' := by simpa using hd
      have hsplit := List.takeWhile_append_dropWhile (p := Char.isDigit) (l := expand (c :: m))
      have hdigits : ∀ x ∈ (expand (c :: m)).takeWhile Char.isDigit, x.isDigit :=
        fun x hx => List.mem_takeWhile_imp hx
      exact ⟨_, _, _,
        { after_digit := (expandAfter_of_head?_ne hhead).trans hsplit.symm
          after_blank := hsplit.symm
          joined_digits := hdigits
          apart_digits := hdigits
          apart_ne_nil := by
            rw [expand_eq, expandAfter_cons_of_ne hd, List.takeWhile_cons_of_pos hdigit]
            exact List.cons_ne_nil _ _
          rest_head := fun y hy => Token.head_dropWhile hy
          value_le := Nat.le_max_left _ _ }⟩
    · exact ⟨[], ['1'], 'd' :: expand m,
        { after_digit := expandAfter_cons
          after_blank := expand_dice
          joined_digits := by simp
          apart_digits := List.forall_mem_singleton.mpr rfl
          apart_ne_nil := List.cons_ne_nil _ _
          rest_head := fun y hy => by
            obtain rfl : 'd' = y := Option.some.inj hy
            rfl
          value_le := by decide }⟩

end Shorthand

namespace Parser.State

/-- Where one number is taken, any other is as well, and no second one after it. -/
theorem step_two_integers {limit n : Nat} {s t : State} (h : s.step limit (.integer n) = .ok t)
    (first second : Nat) : ∃ u expected, s.step limit (.integer first) = .ok u ∧
      u.step limit (.integer second) = .error (.unexpected expected) := by
  cases s with
  | wanting slot outer => exact ⟨_, _, rfl, rfl⟩
  | holding slot value outer => cases h

end Parser.State

namespace Expr

open Dice.Shorthand Dice.Parser

variable {e : Expr .sum} {l m blanks : List Char}

/-- With two numbers in place of one that is read, the second is not expected. -/
theorem ofChars_two_integers {text : List Char} {a b c : List Kind} {n first second : Nat}
    (hderives : Derives (a ++ .integer n :: b) e) (hdepth : e.nesting ≤ nestingLimit)
    (hspells : Spells text (a ++ .integer first :: .integer second :: c)) :
    ∃ expected found, ofChars text = .error (.unexpected expected (some found)) := by
  obtain ⟨s, hwalk, -⟩ := State.walk_start_iff.mpr ⟨hderives, hdepth⟩
  obtain ⟨t, ht, hrest⟩ := State.walk_append_eq_ok.mp hwalk
  obtain ⟨u, hu, -⟩ := State.walk_cons_eq_ok.mp hrest
  obtain ⟨v, expected, hfirst, hsecond⟩ := State.step_two_integers hu first second
  obtain ⟨tokens, hscan, hkinds⟩ := hspells
  obtain ⟨before, numbers, rfl, hbefore, hnumbers⟩ := List.map_eq_append_iff.mp hkinds
  obtain ⟨one, others, rfl, hone, hothers⟩ := List.map_eq_cons_iff.mp hnumbers
  obtain ⟨two, after, rfl, htwo, -⟩ := List.map_eq_cons_iff.mp hothers
  refine ⟨expected, (String.ofList two.text, two.offset),
    ofChars_eq_error_iff.mpr (.inr ⟨_, hscan, ?_⟩)⟩
  rw [State.run_append (hbefore ▸ ht), State.run, hone, hfirst]
  simp only [State.run, htwo, hsecond, Rejection.toError]

theorem ofChars_insert_blanks (h : ofChars (expand (l ++ m)) = .ok e) (hne : blanks ≠ [])
    (hblanks : ∀ x ∈ blanks, isBlank x) (hsplits : ¬ Splits l m) :
    ofChars (expand (l ++ (blanks ++ m))) = .ok e := by
  obtain ⟨kinds, hspells, hread⟩ := ofChars_eq_ok_iff_spells.mp h
  have hwords : words (expand (l ++ (blanks ++ m))) = words (expand (l ++ m)) := by
    rw [expand_insert_blanks hne hblanks, Token.words_append_blanks hne hblanks,
      words_expand_append hspells hsplits]
  refine ofChars_eq_ok_iff_spells.mpr ⟨kinds, ?_, hread⟩
  rwa [Token.spells_iff_words, hwords, ← Token.spells_iff_words]

theorem ofChars_insert_blanks_splits (h : ofChars (expand (l ++ m)) = .ok e) (hne : blanks ≠ [])
    (hblanks : ∀ x ∈ blanks, isBlank x) (hsplits : Splits l m) :
    ∃ expected found, ofChars (expand (l ++ (blanks ++ m))) =
      .error (.unexpected expected (some found)) := by
  obtain ⟨hbefore, hafter⟩ := hsplits
  obtain ⟨joined, apart, rest, hcut⟩ := exists_cut hafter
  obtain ⟨front, digits, hfront, hdigitsNe, hdigits, hlast⟩ :=
    Token.exists_append_digits (l := expand l) (by rwa [expand_eq, getLast?_expandAfter])
  have hjoined : expand (l ++ m) = front ++ ((digits ++ joined) ++ rest) := by
    rw [expand_eq, expandAfter_append, afterDigit_false_iff.mpr hbefore, hcut.after_digit,
      ← expand_eq, hfront]
    simp
  have happart : expand (l ++ (blanks ++ m)) =
      front ++ (digits ++ (blanks ++ (apart ++ rest))) := by
    rw [expand_insert_blanks hne hblanks, hcut.after_blank, hfront, List.append_assoc]
  obtain ⟨kinds, hspells, hderives, hdepth⟩ := ofChars_eq_ok_iff_spells.mp h
  rw [hjoined, Token.spells_number hlast hcut.rest_head (by simp [hdigitsNe])
    (List.forall_mem_append.mpr ⟨hdigits, hcut.joined_digits⟩)] at hspells
  obtain ⟨a, b, ha, hb, hvalue, rfl⟩ := hspells
  -- neither number is greater than the one that was read, save for an inserted one
  obtain ⟨hfirst, hsecond⟩ := Token.ofDigitChars_le_append digits joined
  have hle := hcut.value_le
  have hone : (1 : Int) ≤ Word.greatest := by decide
  rw [happart]
  exact ofChars_two_integers hderives hdepth (Token.spells_numbers hlast hcut.rest_head
    ⟨hdigitsNe, hdigits⟩ ⟨hne, hblanks⟩ ⟨hcut.apart_ne_nil, hcut.apart_digits⟩ ha hb (by omega)
    (by omega))

/-- Blanks at a place inside a number, or between a number and its `d`, leave a word that is not
expected; at every other place the text is read as before. -/
theorem parse_insert_blanks (before blanks after : String) (e : Expr .sum)
    (h : parse (before ++ after) = .ok e) (hne : blanks ≠ "")
    (hblanks : ∀ c ∈ blanks.toList, isBlank c) :
    (Splits before.toList after.toList → ∃ expected found,
      parse (before ++ blanks ++ after) = .error (.unexpected expected (some found))) ∧
    (¬ Splits before.toList after.toList → parse (before ++ blanks ++ after) = .ok e) := by
  rw [parse_eq_ok_iff, String.toList_append] at h
  have hlist : blanks.toList ≠ [] := by simpa using hne
  have htext : (before ++ blanks ++ after).toList =
      before.toList ++ (blanks.toList ++ after.toList) := by simp
  constructor
  · intro hsplits
    obtain ⟨expected, ⟨word, offset⟩, hrefused⟩ :=
      ofChars_insert_blanks_splits h hlist hblanks hsplits
    rw [parse, htext, hrefused]
    exact ⟨expected, _, rfl⟩
  · intro hsplits
    rw [parse_eq_ok_iff, htext]
    exact ofChars_insert_blanks h hlist hblanks hsplits

/-- Before the `d` of `2d6` a blank leaves the numbers 2 and 1, and behind it nothing changes. -/
theorem parse_insert_blanks_dice :
    let e : Expr .sum := .ofProduct (.ofFactor (.dice (.const 2) (.const 6)))
    parse "2d6" = .ok e ∧ Splits ['2'] ['d', '6'] ∧ ¬ Splits ['2', 'd'] ['6'] ∧
      (∃ expected found, parse "2 d6" = .error (.unexpected expected (some found))) ∧
      parse "2d 6" = .ok e := by
  intro e
  have hread : parse "2d6" = .ok e := rfl
  have hblank : ∀ c ∈ " ".toList, isBlank c := List.forall_mem_singleton.mpr rfl
  refine ⟨hread, by decide, by decide, ?_, ?_⟩
  · exact (parse_insert_blanks "2" " " "d6" e hread (by decide) hblank).1 (by decide)
  · exact (parse_insert_blanks "2d" " " "6" e hread (by decide) hblank).2 (by decide)

end Expr

end Dice
