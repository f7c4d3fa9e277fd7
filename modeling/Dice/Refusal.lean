/-! Why a throw is refused: an argument for which there is no throw, or a limit on the
number of dice. -/

namespace Dice

inductive Refusal where
  /-- A die without sides. -/
  | noSides (sides : Int)
  /-- A roll of no dice. -/
  | noDice (count : Int)
  | negativeCount (count : Int)
  | tooManyDice (count limit : Nat)
  /-- A pool in which every die explodes. -/
  | endlessExplosion (threshold : Int)
  | tooManyExplosions (limit : Nat)
deriving Repr, DecidableEq

namespace Refusal

def reason : Refusal → String
  | noSides sides => s!"a die needs at least 1 side, got {sides}"
  | noDice count => s!"dice count must be at least 1, got {count}"
  | negativeCount count => s!"dice count must not be negative, got {count}"
  | tooManyDice count limit => s!"{count} dice exceed the limit of {limit}"
  | endlessExplosion threshold => s!"explode threshold {threshold} would explode every die"
  | tooManyExplosions limit => s!"explosions exceeded the limit of {limit} dice"

/-- A refusal for the sake of a limit that is none under the given one. -/
def isLiftedBy (limit : Nat) : Refusal → Bool
  | tooManyDice count _ => count ≤ limit
  | tooManyExplosions lesser => lesser < limit
  | _ => false

def message (refusal : Refusal) : String := "invalid argument: " ++ refusal.reason

end Refusal

end Dice
