/-! What goes wrong with a pool besides missing. -/

namespace Dice

inductive Mishap where
  | clean | glitch | criticalGlitch
deriving Repr, DecidableEq

end Dice
