import Dice.Proofs.Expr.Shorthand

/-! What the shorthand inserts, and where. The offset of a character is the number of units
before it, be they bytes or whole characters, so it grows along the text as long as every
character takes a unit at least. Main statement: writing out counts inserts a one before each
`d` that no digit precedes and nothing else; the offsets of the inserted ones increase, and
leaving out what stands at them gives back what was typed. -/

namespace Dice.Shorthand

/-! ### Offsets -/

section Offsets

variable (width : Char → Nat)

/-- The number of units of a text whose characters take as many as `width` says. -/
def extent : (text : List Char) → Nat
  | [] => 0
  | c :: text => width c + extent text

/-- The offsets of the implied counts in a row that begins at `offset`. -/
def impliedFrom (offset : Nat) : List Glyph → List Nat
  | [] => []
  | .implied :: row => offset :: impliedFrom (offset + width '1') row
  | .typed c :: row => impliedFrom (offset + width c) row

/-- The offsets in the expanded text at which a count has been inserted. -/
def insertions (text : List Char) : List Nat := impliedFrom width 0 (glyphs text)

/-- Leaves out the characters at the given offsets, where the text begins at `offset`. -/
def withoutFrom (offsets : List Nat) (offset : Nat) : List Char → List Char
  | [] => []
  | c :: text =>
    (if offset ∈ offsets then [] else [c]) ++ withoutFrom offsets (offset + width c) text

def without (offsets : List Nat) (text : List Char) : List Char :=
  withoutFrom width offsets 0 text

end Offsets

section Rows

variable {width : Char → Nat} {row : List Glyph} {offset o : Nat}

theorem impliedFrom_of_not_mem (h : .implied ∉ row) : impliedFrom width offset row = [] := by
  induction row generalizing offset with
  | nil => rfl
  | cons g row ih =>
    rw [List.mem_cons, not_or] at h
    cases g with
    | implied => exact absurd rfl h.1
    | typed c => exact ih h.2

/-- The units before an implied count are those of the glyphs before it. -/
theorem exists_of_mem_impliedFrom (h : o ∈ impliedFrom width offset row) :
    ∃ before after, row = before ++ .implied :: after ∧
      o = offset + extent width (before.map Glyph.char) := by
  induction row generalizing offset with
  | nil => cases h
  | cons g row ih =>
    -- an implied count of the rest stands behind `g` as well
    have hlater : o ∈ impliedFrom width (offset + width g.char) row →
        ∃ before after, g :: row = before ++ .implied :: after ∧
          o = offset + extent width (before.map Glyph.char) := by
      intro hrest
      obtain ⟨before, after, rfl, rfl⟩ := ih hrest
      refine ⟨g :: before, after, rfl, ?_⟩
      rw [List.map_cons, extent, Nat.add_assoc]
    cases g with
    | typed c => exact hlater h
    | implied =>
      rcases List.mem_cons.mp h with rfl | hrest
      · exact ⟨[], row, rfl, rfl⟩
      · exact hlater hrest

theorem le_of_mem_impliedFrom (h : o ∈ impliedFrom width offset row) : offset ≤ o := by
  obtain ⟨before, after, -, rfl⟩ := exists_of_mem_impliedFrom h
  exact Nat.le_add_right _ _

/-- In characters, the implied counts before an offset are those among as many glyphs. -/
theorem countP_impliedFrom (row : List Glyph) (offset n : Nat) :
    (impliedFrom (fun _ => 1) offset row).countP (· < offset + n) =
      (row.take n).count .implied := by
  induction row generalizing offset n with
  | nil => simp [impliedFrom]
  | cons g row ih =>
    cases n with
    | zero =>
      rw [List.take_zero, List.count_nil, List.countP_eq_zero]
      intro o ho
      have hle := le_of_mem_impliedFrom ho
      simpa using hle
    | succ n =>
      have hnext : offset + (n + 1) = offset + 1 + n := by omega
      cases g with
      | typed c => simp [impliedFrom, hnext, ih]
      | implied =>
        have hfirst : offset < offset + 1 + n := by omega
        simp [impliedFrom, hnext, ih, hfirst]

section Positive

variable (hwidth : ∀ c, 0 < width c)

include hwidth

theorem pairwise_impliedFrom (row : List Glyph) (offset : Nat) :
    (impliedFrom width offset row).Pairwise (· < ·) := by
  induction row generalizing offset with
  | nil => exact .nil
  | cons g row ih =>
    cases g with
    | typed c => exact ih _
    | implied =>
      refine List.pairwise_cons.mpr ⟨fun o ho => ?_, ih _⟩
      have hle := le_of_mem_impliedFrom ho
      have hone := hwidth '1'
      omega

/-- Whether a character of the row is left out is decided by what stands at its offset: the
other implied counts stand before it or behind it. -/
theorem withoutFrom_eq {offsets : List Nat}
    (h : ∀ o, offset ≤ o → (o ∈ offsets ↔ o ∈ impliedFrom width offset row)) :
    withoutFrom width offsets offset (row.map Glyph.char) = row.filterMap Glyph.typed? := by
  induction row generalizing offset with
  | nil => rfl
  | cons g row ih =>
    have hpos := hwidth g.char
    have hbehind : offset ∉ impliedFrom width (offset + width g.char) row := fun hmem => by
      have hle := le_of_mem_impliedFrom hmem
      omega
    rw [List.map_cons, withoutFrom]
    cases g with
    | typed c =>
      have hkept : offset ∉ offsets := fun hmem => hbehind ((h offset (Nat.le_refl _)).mp hmem)
      have hrest := ih fun o ho => h o (Nat.le_trans (Nat.le_add_right offset (width c)) ho)
      rw [if_neg hkept, List.singleton_append, List.filterMap_cons]
      exact congrArg (c :: ·) hrest
    | implied =>
      have hmem : offset ∈ offsets := (h offset (Nat.le_refl _)).mpr List.mem_cons_self
      rw [if_pos hmem, List.nil_append]
      refine ih fun o ho => (h o (Nat.le_trans (Nat.le_add_right _ _) ho)).trans ?_
      have hne : o ≠ offset := by omega
      simp [impliedFrom, hne, Glyph.char]

end Positive

end Rows

/-! ### Texts with every count written out -/

section Texts

variable {digit : Bool} {l text : List Char}

/-- Every `d` of a text stands right after a digit. -/
def Counted (text : List Char) : Prop :=
  ∀ front back, text = front ++ 'd' :: back → ∃ c ∈ front.getLast?, c.isDigit

theorem counted_expand (text : List Char) : Counted (expand text) :=
  fun _ _ h => afterDigit_false_iff.mp (afterDigit_of_expandAfter h)

theorem expandAfter_eq_self
    (h : ∀ front back, l = front ++ 'd' :: back → afterDigit digit front) :
    expandAfter digit l = l := by
  induction l generalizing digit with
  | nil => rfl
  | cons c l ih =>
    have hc : ¬ (c = 'd' ∧ digit = false) := by
      rintro ⟨rfl, rfl⟩
      cases h [] l rfl
    rw [expandAfter_cons, if_neg hc, List.nil_append,
      ih fun front back hl => h (c :: front) back (by rw [hl, List.cons_append])]

theorem expand_eq_self_iff : expand text = text ↔ Counted text := by
  constructor
  · intro h
    have hcounted := counted_expand text
    rwa [h] at hcounted
  · exact fun h => expandAfter_eq_self fun front back htext =>
      afterDigit_false_iff.mpr (h front back htext)

/-- Where nothing changes, nothing has been inserted. -/
theorem implied_not_mem_glyphs (h : expand text = text) : .implied ∉ glyphs text := by
  have hlength := length_typed_add_count (glyphs text)
  have hsame : (glyphs text).length = text.length := by
    rw [← congrArg List.length h, expand, List.length_map]
  rw [typed_glyphs] at hlength
  exact List.count_eq_zero.mp (by omega)

theorem without_insertions {width : Char → Nat} (hwidth : ∀ c, 0 < width c) (text : List Char) :
    without width (insertions width text) (expand text) = text :=
  (withoutFrom_eq hwidth fun _ _ => Iff.rfl).trans (typed_glyphs text)

/-- An inserted one stands between a character that is no digit, if any, and a `d`. -/
theorem exists_of_mem_insertions {width : Char → Nat} {o : Nat} (h : o ∈ insertions width text) :
    ∃ front back, expand text = front ++ '1' :: 'd' :: back ∧ o = extent width front ∧
      ∀ c ∈ front.getLast?, c.isDigit = false := by
  obtain ⟨before, after, hglyphs, rfl⟩ := exists_of_mem_impliedFrom h
  obtain ⟨⟨rest, rfl⟩, hbefore, -⟩ := neighbours_of_implied hglyphs
  refine ⟨before.map Glyph.char, rest.map Glyph.char, ?_, Nat.zero_add _, ?_⟩
  · rw [expand, hglyphs, List.map_append]
    rfl
  · intro c hc
    rw [List.getLast?_map] at hc
    obtain ⟨g, hg, rfl⟩ := Option.map_eq_some_iff.mp hc
    obtain ⟨c, rfl, hdigit⟩ := hbefore g hg
    exact hdigit

/-- In characters, an offset into the expanded text is that into the typed text and the number of
the insertions before it. -/
theorem typedOffset_add_countP {offset : Nat} (h : offset ≤ (expand text).length) :
    typedOffset text offset + (insertions (fun _ => 1) text).countP (· < offset) = offset := by
  have hcount := countP_impliedFrom (glyphs text) 0 offset
  rw [Nat.zero_add] at hcount
  rw [insertions, hcount, typedOffset_add_count text h]

/-- In the expanded text every `d` stands right after a digit. The offsets of the inserted ones
increase, and at each of them a one stands right before a `d` and not right after a digit;
without these ones the text is as it was typed, and by their number the offsets in it are
shifted. A text is left as it is exactly if each of its `d` stands right after a digit already,
so nothing is inserted a second time. -/
theorem expand_insertions {width : Char → Nat} (hwidth : ∀ c, 0 < width c) (text : List Char) :
    let expanded := expand text
    let offsets := insertions width text
    (∀ front back, expanded = front ++ 'd' :: back → ∃ c ∈ front.getLast?, c.isDigit) ∧
      offsets.Pairwise (· < ·) ∧
      (∀ o ∈ offsets, ∃ front back, expanded = front ++ '1' :: 'd' :: back ∧
        o = extent width front ∧ ∀ c ∈ front.getLast?, c.isDigit = false) ∧
      without width offsets expanded = text ∧
      (expanded = text ↔
        ∀ front back, text = front ++ 'd' :: back → ∃ c ∈ front.getLast?, c.isDigit) ∧
      (expand expanded = expanded ∧ insertions width expanded = []) ∧
      ∀ offset ≤ expanded.length,
        typedOffset text offset + (insertions (fun _ => 1) text).countP (· < offset) = offset := by
  intro expanded offsets
  have htwice : expand expanded = expanded := expand_eq_self_iff.mpr (counted_expand text)
  exact ⟨counted_expand text, pairwise_impliedFrom hwidth _ 0,
    fun _ => exists_of_mem_insertions, without_insertions hwidth text, expand_eq_self_iff,
    ⟨htwice, impliedFrom_of_not_mem (implied_not_mem_glyphs htwice)⟩,
    fun _ => typedOffset_add_countP⟩

/-- The second `d` in a row and the one behind a digit of another script are not counted. In bytes
both of the characters outside the ASCII range take two units. -/
theorem expand_insertions_two_bytes :
    let text := "é2dd6+٣d4".toList
    let expanded := "é2d1d6+٣1d4".toList
    (∀ c : Char, 0 < c.utf8Size) ∧ expand text = expanded ∧
      insertions Char.utf8Size text = [4, 10] ∧ without Char.utf8Size [4, 10] expanded = text ∧
      expand expanded = expanded := by
  intro text expanded
  have hexpand : expand text = expanded := by decide
  have hoffsets : insertions Char.utf8Size text = [4, 10] := by decide
  obtain ⟨-, -, -, hwithout, -, ⟨htwice, -⟩, -⟩ := expand_insertions Char.utf8Size_pos text
  rw [hexpand, hoffsets] at hwithout
  rw [hexpand] at htwice
  exact ⟨Char.utf8Size_pos, hexpand, hoffsets, hwithout, htwice⟩

end Texts

end Dice.Shorthand
