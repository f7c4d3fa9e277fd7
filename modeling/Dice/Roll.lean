import Dice.Play
import Dice.Refusal
import Dice.Word

/-! Rolls of like dice. The arguments are looked at before the first die is thrown, so a
refused roll throws none. -/

namespace Dice

/-- The faces of a roll, in the order in which they came up. -/
structure Roll where
  faces : List Int
deriving Repr, DecidableEq

namespace Roll

/-- The sum of the faces, when every partial sum fits a word. -/
def total? (roll : Roll) : Option Int :=
  roll.faces.foldlM (fun sum face => Word.ofInt? (sum + face)) 0

/-- The sum of the faces, held at the end of the range wherever it would leave it. -/
def clampedTotal (roll : Roll) : Int :=
  roll.faces.foldl (fun sum face => Word.clamp (sum + face)) 0

def text (roll : Roll) : String :=
  "[" ++ String.intercalate " + " (roll.faces.map toString) ++ "]"

end Roll

/-- The number of dice that one roll may throw, unless told otherwise. -/
def defaultLimit : Nat := 10000

def allowSides (sides : Int) : Except Refusal Unit :=
  if sides < 1 then .error (.noSides sides) else .ok ()

/-- The number of dice that `count` asks for, within the limit. -/
def allowCount (limit : Nat) (count : Int) : Except Refusal Nat :=
  if count < 0 then .error (.negativeCount count)
  else if count.toNat ≤ limit then .ok count.toNat
  else .error (.tooManyDice count.toNat limit)

namespace Play

/-- Throws `count` dice after the given ones, whose faces stand in reverse. -/
def dice {ε : Type} (sides : Int) : (count : Nat) → (thrown : List Int) → Play ε (List Int)
  | 0, thrown => .done thrown.reverse
  | count + 1, thrown => .throwDie sides fun face => dice sides count (face :: thrown)

end Play

/-- The number of dice that a roll throws, when it may be thrown. -/
def allowRoll (limit : Nat) (count sides : Int) : Except Refusal Nat := do
  allowSides sides
  if count < 1 then .error (.noDice count) else allowCount limit count

def rollDie (sides : Int) : Play Refusal Int := do
  Play.ofExcept (allowSides sides)
  Play.die sides

def rollDice (limit : Nat) (count sides : Int) : Play Refusal Roll := do
  let count ← Play.ofExcept (allowRoll limit count sides)
  return ⟨← Play.dice sides count []⟩

end Dice
