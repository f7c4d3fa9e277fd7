import Dice.Failure
import Dice.Pool.Basic
import Dice.Pool.Mishap
import Dice.Text.Blank

/-! Pools of ten-sided dice: eights hit and tens explode. Flags before the expression
make nines or eights explode too, or ask for the chance die, which is also what
remains of a pool without dice: it hits on a ten only, never explodes, and a one on
it is a disaster. -/

namespace Dice

inductive TenPool.Flag where
  | eightAgain | nineAgain | chance
deriving Repr, DecidableEq

/-- What the words of a request ask for. -/
structure TenPool.Request where
  rule : Pool.Rule
  chance : Bool
  /-- The words after the flags. -/
  expression : String
deriving Repr, DecidableEq

structure TenPool where
  /-- The number of dice asked for. -/
  size : Int
  /-- How that number came about, when an expression was given. -/
  expression : Option Outcome
  chance : Bool
  pool : Pool
  mishap : Mishap
deriving Repr, DecidableEq

namespace TenPool

open Text (allBlank)

def sides : Int := 10

def rule : Pool.Rule := ⟨8, 10⟩

def chanceRule : Pool.Rule := ⟨10, 11⟩

namespace Flag

/-- Letters count without regard to case. -/
def ofWord? (word : String) : Option Flag :=
  let lower := word.toList.map Char.toLower
  if lower = "8-again".toList ∨ lower = "8again".toList then some .eightAgain
  else if lower = "9-again".toList ∨ lower = "9again".toList then some .nineAgain
  else if lower = "chance".toList then some .chance
  else none

/-- An explosion threshold is lowered, never raised. -/
def apply (request : Request) : Flag → Request
  | eightAgain => { request with rule.explodeOn := min request.rule.explodeOn 8 }
  | nineAgain => { request with rule.explodeOn := min request.rule.explodeOn 9 }
  | chance => { request with chance := true }

end Flag

namespace Request

/-- The request without flags. -/
def plain : Request := ⟨TenPool.rule, false, ""⟩

/-- Takes flags from the front of the words for as long as there are any. -/
def read (request : Request) : List String → Request
  | [] => request
  | word :: words =>
    match Flag.ofWord? word with
    | some flag => (flag.apply request).read words
    | none => { request with expression := String.intercalate " " (word :: words) }

/-- Only the chance die can do without an expression. -/
def ofWords {Place : Type} (words : List String) : Except (ParseError Place) Request :=
  let request := plain.read words
  if allBlank request.expression ∧ request.chance = false then
    .error (.unexpected .expression none)
  else .ok request

end Request

def mishapOfChance (pool : Pool) : Mishap :=
  match pool.dice with
  | die :: _ => if die.face = 1 then .criticalGlitch else .clean
  | [] => .clean

/-- Throws the pool, or the chance die in its place. -/
def throwRequest (limit : Nat) (request : Request) (expression : Option Outcome) :
    Play Failure TenPool := do
  let size := expression.elim 0 Outcome.value
  if request.chance ∨ size < 1 then
    let pool ← (Pool.throw limit 1 sides chanceRule).mapError .refused
    return ⟨size, expression, true, pool, mishapOfChance pool⟩
  else
    let pool ← (Pool.throw limit size sides request.rule).mapError .refused
    return ⟨size, expression, false, pool, .clean⟩

def throw (limit : Nat) (words : List String) : Play Failure TenPool := do
  let request ← Play.ofExcept ((Request.ofWords words).mapError .parse)
  if allBlank request.expression then throwRequest limit request none
  else throwRequest limit request (some (← evaluate limit request.expression))

end TenPool

end Dice
