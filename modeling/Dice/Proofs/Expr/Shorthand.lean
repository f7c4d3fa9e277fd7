import Dice.Expr.Shorthand

/-! Writing out counts, piece by piece. What is inserted into a piece of text depends on
nothing but the piece and on whether a digit stands right before it, and in the result
a digit stands right before every `d`. An inserted count stands between a character that
is no digit and the `d` that it counts for, and leaving out the inserted counts before an
offset leads back to what was typed before it. -/

namespace Dice.Shorthand

/-- Whether a digit stands right before what follows `text`. -/
def afterDigit (digit : Bool) (text : List Char) : Bool := text.foldl (fun _ c => c.isDigit) digit

/-- A text that stands after a digit or not, with every count written out. -/
def expandAfter (digit : Bool) (text : List Char) : List Char :=
  (glyphsAfter digit text).map Glyph.char

variable {digit : Bool} {c : Char} {l m : List Char}

theorem expand_eq (text : List Char) : expand text = expandAfter false text := rfl

theorem expandAfter_cons :
    expandAfter digit (c :: l) =
      (if c = 'd' ∧ digit = false then ['1'] else []) ++ c :: expandAfter c.isDigit l := by
  rw [expandAfter, glyphsAfter, List.map_append]
  split <;> rfl

theorem expandAfter_cons_of_ne (h : c ≠ 'd') :
    expandAfter digit (c :: l) = c :: expandAfter c.isDigit l := by
  rw [expandAfter_cons, if_neg fun hd => h hd.1, List.nil_append]

theorem expandAfter_append :
    expandAfter digit (l ++ m) = expandAfter digit l ++ expandAfter (afterDigit digit l) m := by
  induction l generalizing digit with
  | nil => rfl
  | cons c l ih =>
    rw [List.cons_append, expandAfter_cons, expandAfter_cons, ih, List.append_assoc,
      List.cons_append]
    rfl

theorem expandAfter_of_not_mem (h : 'd' ∉ l) : expandAfter digit l = l := by
  induction l generalizing digit with
  | nil => rfl
  | cons c l ih =>
    rw [List.mem_cons, not_or] at h
    obtain ⟨hc, hl⟩ := h
    rw [expandAfter_cons_of_ne (Ne.symm hc), ih hl]

/-- What was typed is there when every count is written out. -/
theorem mem_expand {text : List Char} (h : c ∈ text) : c ∈ expand text := by
  rw [← typed_glyphs text] at h
  obtain ⟨g, hg, htyped⟩ := List.mem_filterMap.mp h
  cases g with
  | implied => cases htyped
  | typed c' =>
    cases htyped
    exact List.mem_map_of_mem hg

theorem afterDigit_eq : afterDigit digit l = l.getLast?.elim digit Char.isDigit := by
  induction l generalizing digit with
  | nil => rfl
  | cons c l ih =>
    rw [afterDigit, List.foldl_cons, ← afterDigit, ih]
    cases l with
    | nil => rfl
    | cons x l => simp [List.getLast?_cons]

/-- Characters that are all digits, or all none. -/
theorem afterDigit_of_forall {b : Bool} (hne : l ≠ []) (hl : ∀ x ∈ l, x.isDigit = b) :
    afterDigit digit l = b := by
  rw [afterDigit_eq, List.getLast?_eq_some_getLast hne]
  exact hl _ (List.getLast_mem hne)

theorem afterDigit_false_iff : afterDigit false l ↔ ∃ c ∈ l.getLast?, c.isDigit := by
  rw [afterDigit_eq]
  cases l.getLast? <;> simp

/-- Only a `d` is read differently behind a digit. -/
theorem expandAfter_of_head?_ne (h : m.head? ≠ some 'd') : expandAfter digit m = expand m := by
  cases m with
  | nil => rfl
  | cons c m =>
    have hc : c ≠ 'd' := by simpa using h
    rw [expand_eq, expandAfter_cons_of_ne hc, expandAfter_cons_of_ne hc]

theorem expand_dice : expand ('d' :: m) = '1' :: 'd' :: expand m := by
  rw [expand_eq, expandAfter_cons]
  rfl

/-- What is inserted stands before what was typed. -/
theorem getLast?_expandAfter : (expandAfter digit l).getLast? = l.getLast? := by
  induction l generalizing digit with
  | nil => rfl
  | cons c l ih =>
    rw [expandAfter_cons, List.getLast?_append, List.getLast?_cons, ih, List.getLast?_cons,
      Option.some_or]

/-- Where every count is written out, a `d` stands after a digit. -/
theorem afterDigit_of_expandAfter {text : List Char}
    (h : expandAfter digit text = l ++ 'd' :: m) : afterDigit digit l := by
  induction text generalizing digit l with
  | nil => simp [expandAfter, glyphsAfter] at h
  | cons c text ih =>
    rw [expandAfter_cons] at h
    split at h
    · next hc =>
      obtain ⟨rfl, -⟩ := hc
      -- what stands before the first `d` is the inserted count, a digit
      cases l with
      | nil => cases h
      | cons x l =>
        obtain ⟨rfl, hdice⟩ := List.cons.inj h
        cases l with
        | nil => rfl
        | cons y l =>
          obtain ⟨rfl, hrest⟩ := List.cons.inj hdice
          exact @ih false l hrest
    · next hc =>
      cases l with
      | nil =>
        obtain ⟨rfl, -⟩ := List.cons.inj h
        simpa [afterDigit] using hc
      | cons x l =>
        obtain ⟨rfl, hrest⟩ := List.cons.inj h
        exact @ih c.isDigit l hrest

/-- An operator between two texts inserts nothing. -/
theorem expandAfter_operator (hc : c ≠ 'd') (hl : expandAfter digit l = l)
    (hm : expandAfter false m = m) :
    expandAfter digit (l ++ ' ' :: c :: ' ' :: m) = l ++ ' ' :: c :: ' ' :: m := by
  rw [expandAfter_append, hl, expandAfter_cons_of_ne (by decide), expandAfter_cons_of_ne hc,
    expandAfter_cons_of_ne (by decide)]
  exact congrArg (l ++ ' ' :: c :: ' ' :: ·) hm

/-- A `d` behind a closing parenthesis counts one die. -/
theorem expand_paren_dice :
    expand (l ++ ')' :: 'd' :: m) = expand l ++ ')' :: '1' :: 'd' :: expand m := by
  rw [expand_eq, expand_eq, expandAfter_append, expandAfter_cons_of_ne (by decide),
    ← expand_dice]
  rfl

/-! ### Inserted counts -/

open Text (Position)

variable {text : List Char} {before after : List Glyph}

/-- The neighbours of an inserted count; if nothing precedes it, no digit does. -/
theorem neighbours_of_implied (h : glyphsAfter digit text = before ++ .implied :: after) :
    (∃ rest, after = .typed 'd' :: rest) ∧
      (∀ g ∈ before.getLast?, ∃ c, g = .typed c ∧ c.isDigit = false) ∧
      (before = [] → digit = false) := by
  induction text generalizing digit before with
  | nil => simp [glyphsAfter] at h
  | cons c cs ih =>
    rw [glyphsAfter] at h
    -- the glyphs behind the typed character `c` are those of the rest of the text
    have hlater : ∀ {x}, Glyph.typed c :: glyphsAfter c.isDigit cs = x ++ .implied :: after →
        (∃ rest, after = .typed 'd' :: rest) ∧
          (∀ g ∈ x.getLast?, ∃ c, g = .typed c ∧ c.isDigit = false) ∧ x ≠ [] := by
      intro x hx
      cases x with
      | nil => cases hx
      | cons g x =>
        obtain ⟨rfl, hrest⟩ := List.cons.inj hx
        obtain ⟨hafter, hbefore, hdigit⟩ := ih hrest
        refine ⟨hafter, ?_, List.cons_ne_nil _ _⟩
        cases x with
        | nil => exact fun g hg => ⟨c, (Option.some.inj hg).symm, hdigit rfl⟩
        | cons g' x => simpa using hbefore
    split at h
    · next hc =>
      obtain ⟨rfl, rfl⟩ := hc
      cases before with
      | nil =>
        obtain ⟨-, rfl⟩ := List.cons.inj h
        exact ⟨⟨_, rfl⟩, by simp, fun _ => rfl⟩
      | cons g before =>
        obtain ⟨-, hrest⟩ := List.cons.inj h
        obtain ⟨hafter, hbefore, hne⟩ := hlater hrest
        exact ⟨hafter, by rwa [List.getLast?_cons_of_ne_nil hne], by simp⟩
    · obtain ⟨hafter, hbefore, hne⟩ := hlater h
      exact ⟨hafter, hbefore, fun h => absurd h hne⟩

/-- The place of an offset is right after the characters that were typed before it. -/
theorem locate_eq (text : List Char) (offset : Nat) :
    locate text offset = .after (((glyphs text).take offset).filterMap Glyph.typed?) := by
  have htext : text = ((glyphs text).take offset).filterMap Glyph.typed? ++
      ((glyphs text).drop offset).filterMap Glyph.typed? := by
    rw [← List.filterMap_append, List.take_append_drop, typed_glyphs]
  rw [locate, typedOffset, Position.ofOffset]
  congr 1
  exact (congrArg (List.take _) htext).trans List.take_left

theorem locate_append (h : glyphs text = before ++ after) :
    locate text (before.map Glyph.char).length = .after (before.filterMap Glyph.typed?) := by
  rw [locate_eq, h, List.length_map, List.take_left]

/-- Glyphs that were all typed are what was typed. -/
theorem typed_eq_map_char {row : List Glyph} (h : .implied ∉ row) :
    row.filterMap Glyph.typed? = row.map Glyph.char := by
  induction row with
  | nil => rfl
  | cons g row ih =>
    rw [List.mem_cons, not_or] at h
    cases g with
    | implied => exact absurd rfl h.1
    | typed c => simp [Glyph.typed?, Glyph.char, ih h.2]

/-- A glyph was typed or inserted. -/
theorem length_typed_add_count (row : List Glyph) :
    (row.filterMap Glyph.typed?).length + row.count .implied = row.length := by
  induction row with
  | nil => rfl
  | cons g row ih => cases g <;> simp [List.filterMap_cons, Glyph.typed?, ← ih] <;> omega

/-- Typed characters and inserted counts before an offset are all that stands before it. -/
theorem typedOffset_add_count (text : List Char) {offset : Nat}
    (h : offset ≤ (expand text).length) :
    typedOffset text offset + ((glyphs text).take offset).count .implied = offset := by
  rw [expand, List.length_map] at h
  rw [typedOffset, length_typed_add_count, List.length_take_of_le h]

end Dice.Shorthand
