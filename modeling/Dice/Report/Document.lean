import Dice.Json
import Dice.Pool.Six
import Dice.Pool.Ten

/-! Results as JSON documents. Every part of a result has a field of its own. -/

namespace Dice

def Outcome.toJson (outcome : Outcome) : Json :=
  .object [("value", .int outcome.value), ("str_value", .string outcome.expansion)]

namespace Pool

def Rule.toJson (rule : Rule) : Json :=
  .object [("pass_on", .int rule.passOn), ("explode_on", .int rule.explodeOn)]

def Die.toJson (die : Die) : Json :=
  .object [("value", .int die.face), ("is_explode", .bool die.extra)]

def toJson (pool : Pool) : Json :=
  .object [("params", pool.rule.toJson), ("rolls", .array (pool.dice.map Die.toJson))]

end Pool

def Mishap.name : Mishap → String
  | .clean => "None"
  | .glitch => "Glitch"
  | .criticalGlitch => "CriticalGlitch"

def SixPool.toJson (rolled : SixPool) : Json :=
  .object [("expression", rolled.size.toJson), ("roll", rolled.pool.toJson),
    ("status", .string rolled.mishap.name)]

def TenPool.toJson (rolled : TenPool) : Json :=
  .object [("pool", .int rolled.size),
    ("expression", rolled.expression.elim .null Outcome.toJson),
    ("chance", .bool rolled.chance), ("roll", rolled.pool.toJson),
    ("status", .string rolled.mishap.name)]

end Dice
