import Dice.Pool.Six
import Dice.Pool.Ten
import Dice.Tally.Basic

/-! The calls that a roller answers. Every call is a play for each limit on the number of
dice, with failures and a result of its own, so a law of all calls can be stated once. -/

namespace Dice

/-- A call that may fail with an `ε` and may result in an `α`. -/
inductive Call : (ε α : Type) → Type where
  | rollDie (sides : Int) : Call Refusal Int
  | rollDice (count sides : Int) : Call Refusal Roll
  | throwPool (count sides : Int) (rule : Pool.Rule) : Call Refusal Pool
  | eval {level : Level} (expr : Expr level) : Call EvalError Outcome
  | evaluate (text : String) : Call Failure Outcome
  | throwSix (text : String) : Call Failure SixPool
  | throwTen (words : List String) : Call Failure TenPool
  /-- Evaluates an expression again and again, and counts the results. -/
  | sample (expr : Expr .sum) (samples : Nat) : Call EvalError Tally

/-- What the roller carries out under a limit on the number of dice. -/
def Call.play {ε α : Type} : (call : Call ε α) → (limit : Nat) → Play ε α
  | rollDie sides, _ => Dice.rollDie sides
  | rollDice count sides, limit => Dice.rollDice limit count sides
  | throwPool count sides rule, limit => Pool.throw limit count sides rule
  | eval expr, limit => expr.eval limit
  | evaluate text, limit => Dice.evaluate limit text
  | throwSix text, limit => SixPool.throw limit text
  | throwTen words, limit => TenPool.throw limit words
  | sample expr samples, limit => Tally.sample limit expr samples .empty

end Dice
