import Dice.Text.Position

/-! The shorthand for a single die: a `d` that no digit precedes counts one die, so
`d20` stands for `1d20`. Only the character right before the `d` decides. The text
with every count written out is a list of glyphs, and each glyph remembers whether
it was typed; an offset into that text thereby leads back to the text as typed. -/

namespace Dice.Shorthand

open Text (Position)

/-- A character of the text with every count written out. -/
inductive Glyph where
  | typed (c : Char)
  /-- The count one of a `d` that no digit precedes. -/
  | implied
deriving Repr, DecidableEq

namespace Glyph

def char : Glyph → Char
  | typed c => c
  | implied => '1'

def typed? : Glyph → Option Char
  | typed c => some c
  | implied => none

end Glyph

/-- The glyphs of a text that stands after a digit or not. -/
def glyphsAfter (digit : Bool) : List Char → List Glyph
  | [] => []
  | c :: cs =>
    (if c = 'd' ∧ digit = false then [.implied] else []) ++ .typed c :: glyphsAfter c.isDigit cs

def glyphs (text : List Char) : List Glyph := glyphsAfter false text

/-- The text with every count written out. -/
def expand (text : List Char) : List Char := (glyphs text).map Glyph.char

/-- How many typed characters precede the given offset into the expanded text. -/
def typedOffset (text : List Char) (offset : Nat) : Nat :=
  (((glyphs text).take offset).filterMap Glyph.typed?).length

/-- The place in the typed text of an offset into the expanded text. -/
def locate (text : List Char) (offset : Nat) : Position :=
  .ofOffset text (typedOffset text offset)

theorem typed_glyphsAfter (digit : Bool) (text : List Char) :
    (glyphsAfter digit text).filterMap Glyph.typed? = text := by
  induction text generalizing digit with
  | nil => rfl
  | cons c cs ih =>
    simp only [glyphsAfter, List.filterMap_append]
    split <;> simp [Glyph.typed?, ih]

/-- What was typed is found again by leaving out the implied counts. -/
theorem typed_glyphs (text : List Char) : (glyphs text).filterMap Glyph.typed? = text :=
  typed_glyphsAfter false text

theorem typedOffset_le_length (text : List Char) (offset : Nat) :
    typedOffset text offset ≤ text.length := by
  conv => rhs; rw [← typed_glyphs text]
  exact ((List.take_sublist offset (glyphs text)).filterMap _).length_le

end Dice.Shorthand
