import Dice.Text.Position

/-! Why a text is not a dice expression. An error names its place in the units of the
reader that found it, offsets first and lines and columns in the end. -/

namespace Dice

open Text (Position)

/-- What the reader was waiting for. -/
inductive Construct where
  | expression | term | factor | value | closingParen | endOfInput
deriving Repr, DecidableEq

def Construct.name : Construct → String
  | .expression => "Expression"
  | .term => "Term"
  | .factor => "DFactor"
  | .value => "Value"
  | .closingParen => "\")\""
  | .endOfInput => "end of input"

/-- The number of parentheses that may be open at once. -/
def nestingLimit : Nat := 64

inductive ParseError (Place : Type) where
  /-- A piece of text that is no word of the language. -/
  | unreadable (text : String) (place : Place)
  /-- A word, or the end of the text, where something else had to stand. -/
  | unexpected (expected : Construct) (found : Option (String × Place))
  /-- A parenthesis opened while `nestingLimit` others are open. -/
  | tooDeep (place : Place)
deriving Repr, DecidableEq

namespace ParseError

variable {Place Place' : Type}

def mapPlace (f : Place → Place') : ParseError Place → ParseError Place'
  | unreadable text place => .unreadable text (f place)
  | unexpected expected found => .unexpected expected (found.map fun (text, place) => (text, f place))
  | tooDeep place => .tooDeep (f place)

def message : ParseError Position → String
  | unreadable text ⟨line, column⟩ => s!"{line}:{column}: invalid input text \"{text}\""
  | unexpected expected none => s!"unexpected end of input (expected {expected.name})"
  | unexpected expected (some (text, ⟨line, column⟩)) =>
    s!"unexpected token \"{text}\" at {line}:{column} (expected {expected.name})"
  | tooDeep ⟨line, column⟩ => s!"{line}:{column}: parentheses nested deeper than {nestingLimit}"

end ParseError

end Dice
