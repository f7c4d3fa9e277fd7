/-! Where faces come from. A source is a state from which the next die of a given
number of sides can be thrown. -/

namespace Dice

class Source (σ : Type) where
  /-- The face of the next die, and the state after it. -/
  throwDie : (sides : Int) → σ → Int × σ

/-- A source whose dice show one of their sides. -/
class LawfulSource (σ : Type) [Source σ] : Prop where
  one_le {sides : Int} (h : 1 ≤ sides) (s : σ) : 1 ≤ (Source.throwDie sides s).1
  le_sides {sides : Int} (h : 1 ≤ sides) (s : σ) : (Source.throwDie sides s).1 ≤ sides

end Dice
