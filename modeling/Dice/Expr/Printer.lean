import Dice.Expr.Basic

/-! The canonical text of an expression: one blank on each side of an operator, none
around the `d` of a dice term and none inside parentheses. -/

namespace Dice

def AddOp.text : AddOp → String
  | .add => "+"
  | .sub => "-"

def MulOp.text : MulOp → String
  | .mul => "*"
  | .div => "/"

namespace Expr

def text : {level : Level} → Expr level → String
  | _, .ofProduct product => product.text
  | _, .additive left op right => left.text ++ " " ++ op.text ++ " " ++ right.text
  | _, .ofFactor factor => factor.text
  | _, .multiplicative left op right => left.text ++ " " ++ op.text ++ " " ++ right.text
  | _, .ofValue value => value.text
  | _, .dice count sides => count.text ++ "d" ++ sides.text
  | _, .const n => toString n
  | _, .paren inner => "(" ++ inner.text ++ ")"

instance {level : Level} : ToString (Expr level) := ⟨text⟩

end Expr

end Dice
