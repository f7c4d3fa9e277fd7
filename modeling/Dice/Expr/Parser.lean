import Dice.Expr.Shorthand
import Dice.Expr.Token

/-! Reading an expression, one token at a time. The state of the reader holds what has
been read of every parenthesis that is still open, and a token either leads to the
next state or is the first that cannot be right. -/

namespace Dice

namespace Parser

/-- What has been read of the innermost open expression before the value that is
being read: the sum and product to its left, each with the operator that waits for
it, and the count of its dice term. -/
structure Slot where
  sum : Option (Expr .sum × AddOp) := none
  product : Option (Expr .product × MulOp) := none
  count : Option (Expr .value) := none
deriving Repr, DecidableEq

namespace Slot

def factor (slot : Slot) (value : Expr .value) : Expr .factor :=
  match slot.count with
  | none => .ofValue value
  | some count => .dice count value

def closeProduct (slot : Slot) (value : Expr .value) : Expr .product :=
  match slot.product with
  | none => .ofFactor (slot.factor value)
  | some (left, op) => .multiplicative left op (slot.factor value)

def closeSum (slot : Slot) (value : Expr .value) : Expr .sum :=
  match slot.sum with
  | none => .ofProduct (slot.closeProduct value)
  | some (left, op) => .additive left op (slot.closeProduct value)

/-- What the value being read has to begin. -/
def expected (slot : Slot) : Construct :=
  if slot.count.isSome then .value
  else if slot.product.isSome then .factor
  else if slot.sum.isSome then .term
  else .expression

end Slot

/-- The slots of the open parentheses, innermost first, stand in `outer`. -/
inductive State where
  /-- A value has to come next. -/
  | wanting (slot : Slot) (outer : List Slot)
  /-- A value has just been read. -/
  | holding (slot : Slot) (value : Expr .value) (outer : List Slot)
deriving Repr, DecidableEq

inductive Rejection where
  | unexpected (expected : Construct)
  | tooDeep
deriving Repr, DecidableEq

def Rejection.toError (token : Token) : Rejection → ParseError Nat
  | unexpected expected => .unexpected expected (some (String.ofList token.text, token.offset))
  | tooDeep => .tooDeep token.offset

namespace State

def start : State := .wanting {} []

/-- What may follow a value, when no operator does. -/
def ending : List Slot → Construct
  | [] => .endOfInput
  | _ :: _ => .closingParen

/-- Takes one token while no more than `limit` parentheses may be open. A second `d` after
a dice term is refused: what follows it has to combine the term or end it. -/
def step (limit : Nat) : State → Token.Kind → Except Rejection State
  | wanting slot outer, .integer n => .ok (.holding slot (.const n) outer)
  | wanting slot outer, .openParen =>
    if outer.length < limit then .ok (.wanting {} (slot :: outer)) else .error .tooDeep
  | wanting slot _, _ => .error (.unexpected slot.expected)
  | holding slot value outer, .additive op =>
    .ok (.wanting { sum := some (slot.closeSum value, op) } outer)
  | holding slot value outer, .multiplicative op =>
    .ok (.wanting { sum := slot.sum, product := some (slot.closeProduct value, op) } outer)
  | holding slot value outer, .dice =>
    if slot.count.isNone then .ok (.wanting { slot with count := some value } outer)
    else .error (.unexpected (ending outer))
  | holding slot value (around :: outer), .closeParen =>
    .ok (.holding around (.paren (slot.closeSum value)) outer)
  | holding _ _ outer, _ => .error (.unexpected (ending outer))

/-- The expression that has been read when the text ends here. -/
def finish : State → Except (ParseError Nat) (Expr .sum)
  | wanting slot _ => .error (.unexpected slot.expected none)
  | holding slot value [] => .ok (slot.closeSum value)
  | holding _ _ (_ :: _) => .error (.unexpected .closingParen none)

/-- Takes all tokens, up to the first that is refused. -/
def run (limit : Nat) : State → List Token → Except (ParseError Nat) (Expr .sum)
  | state, [] => state.finish
  | state, token :: tokens =>
    match state.step limit token.kind with
    | .ok next => run limit next tokens
    | .error rejection => .error (rejection.toError token)

end State

end Parser

namespace Expr

open Text (Position)

/-- Reads a text in which every count is written out; places are offsets. -/
def ofChars (text : List Char) : Except (ParseError Nat) (Expr .sum) := do
  Parser.State.start.run nestingLimit (← Token.scan text)

/-- Reads a text in which every count is written out. -/
def parsePlain (text : String) : Except (ParseError Position) (Expr .sum) :=
  (ofChars text.toList).mapError (.mapPlace (Position.ofOffset text.toList))

/-- Reads a text that may use the shorthand; errors name places in it as typed. -/
def parse (text : String) : Except (ParseError Position) (Expr .sum) :=
  (ofChars (Shorthand.expand text.toList)).mapError (.mapPlace (Shorthand.locate text.toList))

end Expr

end Dice
