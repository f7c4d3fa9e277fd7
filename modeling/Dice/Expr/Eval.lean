import Dice.Expr.Printer
import Dice.Roll

/-! The value of an expression. Operands are evaluated from left to right, and an
operator is applied as soon as its right operand is known. Beside the value grows the
expansion: the expression with every dice term replaced by its faces. A failure
quotes the expansion of the operation that failed, or the dice term as it is written. -/

namespace Dice

/-- A value and how it came about. -/
structure Outcome where
  value : Int
  expansion : String
deriving Repr, DecidableEq

inductive EvalError where
  | divisionByZero (context : String)
  | overflow (context : String)
  | refusedDice (context : String) (refusal : Refusal)
deriving Repr, DecidableEq

def EvalError.message : EvalError → String
  | divisionByZero context => s!"division by zero in `{context}`"
  | overflow context => s!"integer overflow in `{context}`"
  | refusedDice context refusal => s!"cannot roll `{context}`: {refusal.message}"

namespace Outcome

/-- The outcome, if a word can hold its value. -/
def ofValue (value : Int) (expansion : String) : Except EvalError Outcome :=
  match Word.ofInt? value with
  | some value => .ok ⟨value, expansion⟩
  | none => .error (.overflow expansion)

/-- The expansion of an operation. -/
def join (left : Outcome) (op : String) (right : Outcome) : String :=
  left.expansion ++ " " ++ op ++ " " ++ right.expansion

def parenthesize (inner : Outcome) : Outcome := ⟨inner.value, "( " ++ inner.expansion ++ " )"⟩

end Outcome

def AddOp.apply (op : AddOp) (left right : Outcome) : Except EvalError Outcome :=
  let context := left.join op.text right
  match op with
  | .add => Outcome.ofValue (left.value + right.value) context
  | .sub => Outcome.ofValue (left.value - right.value) context

/-- Division drops the fraction. -/
def MulOp.apply (op : MulOp) (left right : Outcome) : Except EvalError Outcome :=
  let context := left.join op.text right
  match op with
  | .mul => Outcome.ofValue (left.value * right.value) context
  | .div =>
    if right.value = 0 then .error (.divisionByZero context)
    else Outcome.ofValue (left.value.tdiv right.value) context

/-- Rolls the dice of a term that is written `term`, and adds them up. -/
def rollTerm (limit : Nat) (term : String) (count sides : Int) : Play EvalError Outcome := do
  let roll ← (rollDice limit count sides).mapError (.refusedDice term)
  match roll.total? with
  | some total => .done ⟨total, roll.text⟩
  | none => .fail (.overflow term)

namespace Expr

/-- Throws the dice of an expression, none of its dice terms more than `limit`. -/
def eval (limit : Nat) : {level : Level} → Expr level → Play EvalError Outcome
  | _, .ofProduct product => product.eval limit
  | _, .additive left op right => do
    let left ← left.eval limit
    let right ← right.eval limit
    Play.ofExcept (op.apply left right)
  | _, .ofFactor factor => factor.eval limit
  | _, .multiplicative left op right => do
    let left ← left.eval limit
    let right ← right.eval limit
    Play.ofExcept (op.apply left right)
  | _, .ofValue value => value.eval limit
  | _, .dice count sides => do
    let countOutcome ← count.eval limit
    let sidesOutcome ← sides.eval limit
    rollTerm limit (Expr.dice count sides).text countOutcome.value sidesOutcome.value
  | _, .const n => .done ⟨n, toString n⟩
  | _, .paren inner => do
    return (← inner.eval limit).parenthesize

end Expr

end Dice
