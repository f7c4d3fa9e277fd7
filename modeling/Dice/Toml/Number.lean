import Dice.Toml.Token
import Dice.Word

/-! Numbers of a TOML document. Underscores may stand between digits, decimal numbers
begin with a zero only if they are one digit long, and integers fit a word. -/

namespace Dice.Toml.Number

def isDigitOf (radix : Nat) (c : Char) : Bool := (Token.hexDigit? c).any (· < radix)

/-- The digits at the start of a text, without underscores, and the text after them. -/
def digitsAfter (radix : Nat) (afterDigit : Bool) : List Char → Option (List Char × List Char)
  | [] => if afterDigit then some ([], []) else none
  | c :: cs =>
    if isDigitOf radix c then do
      let (digits, rest) ← digitsAfter radix true cs
      some (c :: digits, rest)
    else if c = '_' ∧ afterDigit then digitsAfter radix false cs
    else if afterDigit then some ([], c :: cs)
    else none

def digits (radix : Nat) (text : List Char) : Option (List Char × List Char) :=
  digitsAfter radix false text

/-- A sign, and the text after it. -/
def sign : List Char → Bool × List Char
  | '-' :: cs => (true, cs)
  | cs => (false, cs)

def hasLeadingZero : List Char → Bool
  | '0' :: _ :: _ => true
  | _ => false

def valueOf (radix : Nat) (digits : List Char) : Nat :=
  digits.foldl (fun n c => radix * n + (Token.hexDigit? c).getD 0) 0

/-- A number in another radix, after the two characters that announce it. -/
def radixInteger? (radix : Nat) (text : List Char) : Option Int := do
  let (digits, rest) ← digits radix text
  if rest.isEmpty then Word.ofInt? (valueOf radix digits) else none

/-- The sign and digits of a decimal number, and the text after them. -/
def integral? (text : List Char) : Option ((Bool × List Char) × List Char) := do
  let (negative, text) := sign text
  let (digits, rest) ← digits 10 text
  if hasLeadingZero digits then none else some ((negative, digits), rest)

def decimalInteger? (text : List Char) : Option Int := do
  let ((negative, digits), rest) ← integral? text
  let n : Int := valueOf 10 digits
  if rest.isEmpty then Word.ofInt? (if negative then -n else n) else none

/-- The least number that rounds to no finite double. -/
def doubleBound : Nat := (1 <<< 1024) - (1 <<< 970)

/-- Whether `digits · 10 ^ scale` is below `doubleBound`. Only where the number of digits
before the point leaves it open, the number itself is computed. -/
def isFinite (digits : List Char) (scale : Int) : Bool :=
  let n := valueOf 10 digits
  let places : Int := (Nat.toDigits 10 n).length + scale
  if n = 0 ∨ places ≤ 308 then true
  else if 310 < places then false
  else n * Nat.pow 10 scale.toNat < doubleBound * Nat.pow 10 (-scale).toNat

end Dice.Toml.Number
