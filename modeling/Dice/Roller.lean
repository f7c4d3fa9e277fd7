import Dice.Roll
import Dice.Source.Script
import Dice.Source.Xoshiro

/-! A roller: a source together with the greatest number of dice of one roll. Plays that
are carried out one after another share its source. -/

namespace Dice

/-- A source of either kind. -/
inductive AnySource where
  | script (script : Script)
  | generator (generator : Xoshiro)
deriving Repr, DecidableEq

namespace AnySource

def throwDie (sides : Int) : AnySource → Int × AnySource
  | script s => let (face, s) := Source.throwDie sides s; (face, .script s)
  | generator g => let (face, g) := Source.throwDie sides g; (face, .generator g)

instance : Source AnySource := ⟨throwDie⟩

instance : LawfulSource AnySource where
  one_le h s := by
    cases s
    · exact LawfulSource.one_le h (σ := Script) _
    · exact LawfulSource.one_le h (σ := Xoshiro) _
  le_sides h s := by
    cases s
    · exact LawfulSource.le_sides h (σ := Script) _
    · exact LawfulSource.le_sides h (σ := Xoshiro) _

end AnySource

structure Roller (σ : Type) where
  source : σ
  maxDice : Nat := defaultLimit
deriving Repr, DecidableEq

/-- Carries out a play under the limit of the roller. -/
def Roller.carryOut {σ ε α : Type} [Source σ] (roller : Roller σ) (play : (limit : Nat) → Play ε α) :
    Except ε α × Roller σ :=
  let (result, source) := (play roller.maxDice).run roller.source
  (result, { roller with source })

end Dice
