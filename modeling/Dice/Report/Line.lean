import Dice.Pool.Six
import Dice.Pool.Ten

/-! Results as one line of text. -/

namespace Dice

def Outcome.line (outcome : Outcome) : String :=
  outcome.expansion ++ " = " ++ toString outcome.value

def SixPool.line (rolled : SixPool) : String :=
  s!"{rolled.size.value} dice: {rolled.pool.text} => {rolled.pool.hits} hits" ++
    match rolled.mishap with
    | .clean => ""
    | .glitch => " (glitch)"
    | .criticalGlitch => " (critical glitch)"

def TenPool.line (rolled : TenPool) : String :=
  (if rolled.chance then "chance die" else s!"{rolled.size} dice") ++
    s!": {rolled.pool.text} => {rolled.pool.hits} successes" ++
    if rolled.mishap = .criticalGlitch then " (dramatic failure)" else ""

end Dice
