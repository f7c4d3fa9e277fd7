import Dice.Proofs.Expr.Places

/-! Columns with and without the shorthand. Writing out counts adds no line and moves none: the
lines of the expanded text are the lines as typed, with ones inserted. Main statement: a text
is read with the shorthand exactly as its expansion is read without, and an error names the
same thing on the same line, at a column that is less by the ones that were inserted before
it on that line. -/

namespace Dice

/-! ### Lines of a row -/

namespace Text

variable {α β : Type} [DecidableEq α] [DecidableEq β] {a : α} {b : β}

theorem splitOn_append_of_not_mem {front : List α} (h : a ∉ front) (rest : List α) :
    (front ++ rest).splitOn a = (rest.splitOn a).modifyHead (front ++ ·) := by
  induction front with
  | nil => cases hrest : rest.splitOn a <;> simp [hrest]
  | cons x front ih =>
    rw [List.mem_cons, not_or] at h
    rw [List.cons_append, List.splitOn_cons_eq_if_modifyHead, if_neg (by simpa using Ne.symm h.1),
      ih h.2, List.modifyHead_modifyHead]
    rfl

/-- Where only `a` turns into a separator, and into nothing else, the parts stay the same. -/
theorem splitOn_flatMap {f : α → List β} (ha : f a = [b]) (hf : ∀ x, x ≠ a → b ∉ f x)
    (row : List α) : (row.flatMap f).splitOn b = (row.splitOn a).map (·.flatMap f) := by
  induction row with
  | nil => rfl
  | cons x row ih =>
    rw [List.flatMap_cons, List.splitOn_cons_eq_if_modifyHead]
    by_cases hx : x = a
    · subst hx
      rw [ha, List.singleton_append, List.splitOn_cons_eq_if_modifyHead, ih]
      simp
    · rw [splitOn_append_of_not_mem (hf x hx), ih, if_neg (by simpa using hx)]
      cases row.splitOn a with
      | nil => rfl
      | cons part parts => simp

/-- What follows a row goes on with its last part. -/
theorem splitOn_append {front : List α} {parts : List (List α)} {last : List α}
    (h : front.splitOn a = parts ++ [last]) (rest : List α) :
    ∃ more later, (front ++ rest).splitOn a = parts ++ (last ++ more) :: later := by
  induction front generalizing parts last with
  | nil =>
    have hparts : [] ++ [[]] = parts ++ [last] := h
    obtain ⟨rfl, hlast⟩ := List.append_inj' hparts rfl
    obtain rfl := List.singleton_inj.mp hlast
    obtain ⟨more, later, hrest⟩ := List.exists_cons_of_ne_nil (List.splitOn_ne_nil a rest)
    exact ⟨more, later, hrest⟩
  | cons x front ih =>
    rw [List.splitOn_cons_eq_if_modifyHead] at h
    rw [List.cons_append, List.splitOn_cons_eq_if_modifyHead]
    split at h
    · next hx =>
      rw [if_pos hx]
      cases parts with
      | nil => exact absurd (List.cons.inj h).2 (List.splitOn_ne_nil a front)
      | cons part parts =>
        obtain ⟨rfl, hparts⟩ := List.cons.inj h
        obtain ⟨more, later, hrest⟩ := ih hparts
        exact ⟨more, later, by rw [hrest, List.cons_append]⟩
    · next hx =>
      rw [if_neg hx]
      cases hsplit : front.splitOn a with
      | nil => exact absurd hsplit (List.splitOn_ne_nil a front)
      | cons part tail =>
        rw [hsplit] at h
        cases parts with
        | nil =>
          obtain ⟨rfl, rfl⟩ := List.cons.inj h
          obtain ⟨more, later, hrest⟩ := @ih [] part hsplit
          exact ⟨more, later, by rw [hrest]; rfl⟩
        | cons first parts =>
          obtain ⟨rfl, rfl⟩ := List.cons.inj h
          obtain ⟨more, later, hrest⟩ := @ih (part :: parts) last hsplit
          exact ⟨more, later, by rw [hrest]; rfl⟩

end Text

/-! ### Inserted counts on a line -/

namespace Shorthand

open Text (Position)

/-- The lines of the text with every count written out. -/
def lines (text : List Char) : List (List Glyph) := (glyphs text).splitOn (.typed '\n')

/-- How many counts were inserted on the line of a place in the text with every count written out,
before its column. -/
def insertedBefore (text : List Char) (place : Position) : Nat :=
  (((lines text).getD (place.line - 1) []).take (place.column - 1)).count .implied

theorem splitOn_map_char (row : List Glyph) :
    (row.map Glyph.char).splitOn '\n' = (row.splitOn (.typed '\n')).map (·.map Glyph.char) := by
  rw [List.map_eq_flatMap, Text.splitOn_flatMap (a := .typed '\n') rfl]
  · exact List.map_congr_left fun line _ => List.map_eq_flatMap.symm
  · intro g hg
    cases g with
    | implied => decide
    | typed c => simpa [Glyph.char, eq_comm] using hg

theorem splitOn_typed (row : List Glyph) : (row.filterMap Glyph.typed?).splitOn '\n' =
    (row.splitOn (.typed '\n')).map (·.filterMap Glyph.typed?) := by
  rw [List.filterMap_eq_flatMap_toList, Text.splitOn_flatMap (a := .typed '\n') rfl]
  · exact List.map_congr_left fun line _ => (List.filterMap_eq_flatMap_toList _ line).symm
  · intro g hg
    cases g with
    | implied => exact List.not_mem_nil
    | typed c => simpa [Glyph.typed?, eq_comm] using hg

/-- In the text with every count written out, a place has the same line as in the typed text, and
its column counts the inserted ones on that line as well. -/
def Shifts (text : List Char) (plain typed : Position) : Prop :=
  plain.line = typed.line ∧ plain.column = typed.column + insertedBefore text plain

theorem after_of_splitOn {before last : List Char} {front : List (List Char)}
    (h : before.splitOn '\n' = front ++ [last]) :
    Position.after before = ⟨front.length + 1, last.length + 1⟩ := by
  obtain ⟨front', last', h', hline, hcolumn⟩ := Text.follows_after before
  obtain ⟨rfl, hlast⟩ := List.append_inj' (h.symm.trans h') rfl
  obtain rfl := List.singleton_inj.mp hlast
  exact Position.mk.injEq .. ▸ ⟨hline, hcolumn⟩

theorem shifts_after {text : List Char} {before after : List Glyph}
    (h : glyphs text = before ++ after) :
    Shifts text (.after (before.map Glyph.char)) (.after (before.filterMap Glyph.typed?)) := by
  obtain ⟨front, last, hsplit⟩ :=
    (List.eq_nil_or_concat' (before.splitOn (.typed '\n'))).resolve_left
      (List.splitOn_ne_nil _ before)
  have hplain : Position.after (before.map Glyph.char) = ⟨front.length + 1, last.length + 1⟩ := by
    rw [after_of_splitOn (by rw [splitOn_map_char, hsplit, List.map_append, List.map_singleton]),
      List.length_map, List.length_map]
  have htyped : Position.after (before.filterMap Glyph.typed?) =
      ⟨front.length + 1, (last.filterMap Glyph.typed?).length + 1⟩ := by
    rw [after_of_splitOn (by rw [splitOn_typed, hsplit, List.map_append, List.map_singleton]),
      List.length_map]
  have hinserted : insertedBefore text ⟨front.length + 1, last.length + 1⟩ =
      last.count .implied := by
    obtain ⟨more, later, hlines⟩ := Text.splitOn_append hsplit after
    rw [insertedBefore, lines, h, hlines]
    simp
  rw [hplain, htyped, Shifts, hinserted, ← length_typed_add_count last]
  exact ⟨rfl, Nat.add_right_comm _ _ _⟩

/-- A place in the expanded text and the place of the same offset in the typed text. -/
theorem shifts_locate (text : List Char) (offset : Nat) :
    Shifts text (.ofOffset (expand text) offset) (locate text offset) := by
  rw [Position.ofOffset, expand, ← List.map_take, locate_eq]
  exact shifts_after (List.take_append_drop offset (glyphs text)).symm

/-- Where nothing is inserted, offsets lead to the same places. -/
theorem locate_of_expand_eq {text : List Char} (h : expand text = text) (offset : Nat) :
    locate text offset = .ofOffset text offset := by
  have hlength : (glyphs text).length = text.length := by
    rw [← List.length_map (f := Glyph.char)]
    exact congrArg List.length h
  have hcount : (glyphs text).count .implied = 0 := by
    have := length_typed_add_count (glyphs text)
    rw [typed_glyphs] at this
    omega
  have hnone : .implied ∉ (glyphs text).take offset := fun hmem =>
    List.count_eq_zero.mp hcount (List.mem_of_mem_take hmem)
  rw [locate_eq, typed_eq_map_char hnone, List.map_take, Position.ofOffset]
  exact congrArg (fun row => Position.after (row.take offset)) h

end Shorthand

/-! ### Errors -/

namespace ParseError

variable {Offset Place Place' : Type}

/-- The errors say the same, of places that `r` relates. -/
inductive Alike (r : Place → Place' → Prop) : ParseError Place → ParseError Place' → Prop where
  | unreadable {word : String} {place : Place} {place' : Place'} :
    r place place' → Alike r (.unreadable word place) (.unreadable word place')
  | unexpected {expected : Construct} {word : String} {place : Place} {place' : Place'} :
    r place place' →
      Alike r (.unexpected expected (some (word, place)))
        (.unexpected expected (some (word, place')))
  | unexpectedEnd {expected : Construct} :
    Alike r (.unexpected expected none) (.unexpected expected none)
  | tooDeep {place : Place} {place' : Place'} :
    r place place' → Alike r (.tooDeep place) (.tooDeep place')

theorem alike_mapPlace {r : Place → Place' → Prop} {f : Offset → Place} {g : Offset → Place'}
    (h : ∀ offset, r (f offset) (g offset)) (error : ParseError Offset) :
    Alike r (error.mapPlace f) (error.mapPlace g) := by
  rcases error with ⟨word, offset⟩ | ⟨expected, _ | ⟨word, offset⟩⟩ | offset
  · exact .unreadable (h offset)
  · exact .unexpectedEnd
  · exact .unexpected (h offset)
  · exact .tooDeep (h offset)

end ParseError

namespace Expr

open Shorthand (expand Shifts shifts_locate)

/-- A text and its expansion are both read as the same expression, or both refused with errors that
say the same of places on the same line, where the columns differ by the counts that were
inserted before them. A text that is its own expansion is read the same in either way. -/
theorem parse_alike_parsePlain (text : String) :
    let plain := parsePlain (String.ofList (expand text.toList))
    ((∃ e, parse text = .ok e ∧ plain = .ok e) ∨
      ∃ error error', parse text = .error error ∧ plain = .error error' ∧
        error'.Alike (Shifts text.toList) error) ∧
    (expand text.toList = text.toList → parse text = parsePlain text) := by
  intro plain
  constructor
  · simp only [plain, parse, parsePlain, String.toList_ofList]
    cases ofChars (expand text.toList) with
    | ok e => exact .inl ⟨e, rfl, rfl⟩
    | error refused =>
      exact .inr ⟨_, _, rfl, rfl,
        ParseError.alike_mapPlace (shifts_locate text.toList) refused⟩
  · intro hexpand
    have hlocate := funext (Shorthand.locate_of_expand_eq hexpand)
    rw [parse, parsePlain, hexpand, hlocate]

/-- The second dice term of the second line is refused, one column further to the right in the
expansion, where a one stands before the first. In `2d6 +` nothing is inserted. -/
theorem parse_alike_parsePlain_two_lines :
    let error place := ParseError.unexpected .endOfInput (some ("1", place))
    parse "1 +\nd6 d8" = .error (error ⟨2, 4⟩) ∧
      parsePlain (String.ofList (expand "1 +\nd6 d8".toList)) = .error (error ⟨2, 5⟩) ∧
      (error ⟨2, 5⟩).Alike (Shifts "1 +\nd6 d8".toList) (error ⟨2, 4⟩) ∧
      expand "2d6 +".toList = "2d6 +".toList ∧ parse "2d6 +" = parsePlain "2d6 +" := by
  intro error
  have htyped : parse "1 +\nd6 d8" = .error (error ⟨2, 4⟩) := rfl
  have hplain : parsePlain (String.ofList (expand "1 +\nd6 d8".toList)) = .error (error ⟨2, 5⟩) :=
    rfl
  have hsame : expand "2d6 +".toList = "2d6 +".toList := rfl
  refine ⟨htyped, hplain, ?_, hsame, (parse_alike_parsePlain "2d6 +").2 hsame⟩
  obtain ⟨e, he, -⟩ | ⟨_, _, h, h', halike⟩ := (parse_alike_parsePlain "1 +\nd6 d8").1
  · cases htyped.symm.trans he
  · cases htyped.symm.trans h
    cases hplain.symm.trans h'
    exact halike

end Expr

end Dice
