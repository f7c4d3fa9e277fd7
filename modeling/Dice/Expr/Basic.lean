/-! Dice expressions. The level of an expression says where it may stand: a sum is a
chain of products, a product a chain of factors, a factor a value or a dice term, and
a value a number or a sum in parentheses. Chains grow to the right, so an operator
takes everything before it in its chain as its left operand. -/

namespace Dice

inductive Level where
  | sum | product | factor | value
deriving Repr, DecidableEq

inductive AddOp where
  | add | sub
deriving Repr, DecidableEq

inductive MulOp where
  | mul | div
deriving Repr, DecidableEq

/-- The operands of `dice` are values, so a dice term is never an operand of another
without parentheses. -/
inductive Expr : Level → Type where
  | ofProduct (product : Expr .product) : Expr .sum
  | additive (left : Expr .sum) (op : AddOp) (right : Expr .product) : Expr .sum
  | ofFactor (factor : Expr .factor) : Expr .product
  | multiplicative (left : Expr .product) (op : MulOp) (right : Expr .factor) : Expr .product
  | ofValue (value : Expr .value) : Expr .factor
  | dice (count sides : Expr .value) : Expr .factor
  | const (n : Int) : Expr .value
  | paren (inner : Expr .sum) : Expr .value
deriving Repr, DecidableEq

end Dice
