import Dice.Expr.Eval
import Dice.Expr.Parser

/-! Reading an expression and evaluating it, with the failures that a request can end in. -/

namespace Dice

open Text (Position)

inductive Failure where
  | parse (error : ParseError Position)
  | evaluation (error : EvalError)
  | refused (refusal : Refusal)
deriving Repr, DecidableEq

def Failure.message : Failure → String
  | parse error => "parse error: " ++ error.message
  | evaluation error => "evaluation error: " ++ error.message
  | refused refusal => refusal.message

/-- The failure is a refusal for the sake of a limit, and none under the given one. -/
def Failure.isLiftedBy (limit : Nat) : Failure → Bool
  | refused refusal | evaluation (.refusedDice _ refusal) => refusal.isLiftedBy limit
  | _ => false

/-- Reads and evaluates a text that may use the shorthand. -/
def evaluate (limit : Nat) (text : String) : Play Failure Outcome := do
  let expr ← Play.ofExcept ((Expr.parse text).mapError .parse)
  (expr.eval limit).mapError .evaluation

end Dice
