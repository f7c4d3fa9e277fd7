/-! Blank characters: the code points with the property `White_Space`. They separate
the words of a dice expression and carry no other meaning. -/

namespace Dice.Text

/-- First and last code point of each range of blanks, in increasing order. -/
def blankRanges : List (Nat × Nat) :=
  [(0x09, 0x0D), (0x20, 0x20), (0x85, 0x85), (0xA0, 0xA0), (0x1680, 0x1680), (0x2000, 0x200A),
    (0x2028, 0x2029), (0x202F, 0x202F), (0x205F, 0x205F), (0x3000, 0x3000)]

def isBlank (c : Char) : Bool :=
  blankRanges.any fun range => range.1 ≤ c.toNat && c.toNat ≤ range.2

/-- A text without a character that is not blank. -/
def allBlank (text : String) : Bool := text.toList.all isBlank

end Dice.Text
