/-! Places in a text of several lines. Lines end at a newline, columns count
characters, and both are counted from one. -/

namespace Dice.Text

structure Position where
  line : Nat
  column : Nat
deriving Repr, DecidableEq

/-- The part of a text that stands on its last line. -/
def lastLine (text : List Char) : List Char := (text.reverse.takeWhile (· != '\n')).reverse

/-- The place right after `before`. -/
def Position.after (before : List Char) : Position :=
  ⟨before.count '\n' + 1, (lastLine before).length + 1⟩

/-- The place of the character that `offset` characters of `text` precede. -/
def Position.ofOffset (text : List Char) (offset : Nat) : Position := .after (text.take offset)

end Dice.Text
