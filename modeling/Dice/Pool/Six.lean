import Dice.Failure
import Dice.Pool.Basic
import Dice.Pool.Mishap

/-! Pools of six-sided dice: fives and sixes hit, sixes explode, and a pool of mostly
ones is a glitch, a critical one when nothing hits. -/

namespace Dice

structure SixPool where
  /-- The number of dice, and how it came about. -/
  size : Outcome
  pool : Pool
  mishap : Mishap
deriving Repr, DecidableEq

namespace SixPool

def sides : Int := 6

def rule : Pool.Rule := ⟨5, 6⟩

def mishapOf (pool : Pool) : Mishap :=
  if pool.ones * 2 ≤ pool.dice.length then .clean
  else if pool.hits = 0 then .criticalGlitch
  else .glitch

def throwPool (limit : Nat) (count : Int) : Play Refusal Pool := Pool.throw limit count sides rule

/-- Throws as many dice as the expression says. -/
def throw (limit : Nat) (text : String) : Play Failure SixPool := do
  let size ← evaluate limit text
  let pool ← (throwPool limit size.value).mapError .refused
  return ⟨size, pool, mishapOf pool⟩

end SixPool

end Dice
