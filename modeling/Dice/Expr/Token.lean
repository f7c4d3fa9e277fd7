import Dice.Expr.Basic
import Dice.Expr.ParseError
import Dice.Text.Blank
import Dice.Word

/-! The words of a dice expression. A text falls into lexemes: a digit joins the digits
beside it, and so do blanks and characters without a meaning, while each operator,
each `d` and each parenthesis stands alone. Blank lexemes are skipped, and the first
lexeme that is no word is reported before anything else is said about the text. -/

namespace Dice

namespace Token

inductive Kind where
  | integer (n : Nat)
  | additive (op : AddOp)
  | multiplicative (op : MulOp)
  | dice
  | openParen
  | closeParen
deriving Repr, DecidableEq

/-- The words of one character. -/
def symbol? : Char → Option Kind
  | '+' => some (.additive .add)
  | '-' => some (.additive .sub)
  | '*' => some (.multiplicative .mul)
  | '/' => some (.multiplicative .div)
  | 'd' => some .dice
  | '(' => some .openParen
  | ')' => some .closeParen
  | _ => none

end Token

structure Token where
  kind : Token.Kind
  text : List Char
  /-- How many characters precede the token. -/
  offset : Nat
deriving Repr, DecidableEq

namespace Token

open Text (isBlank)

/-- What a character can be part of. -/
inductive Class where
  | blank | digit | symbol | other
deriving Repr, DecidableEq

def Class.ofChar (c : Char) : Class :=
  if isBlank c then .blank
  else if c.isDigit then .digit
  else if (symbol? c).isSome then .symbol
  else .other

/-- Two neighbours belong to one lexeme. -/
def joins (a b : Char) : Bool :=
  Class.ofChar a = Class.ofChar b && Class.ofChar a ≠ .symbol

def lexemes (text : List Char) : List (List Char) := text.splitBy joins

/-- The word that a lexeme is; a number above the greatest word is none. -/
def Kind.ofLexeme? : List Char → Option Kind
  | [] => none
  | c :: cs =>
    if c.isDigit then
      let n := Nat.ofDigitChars 10 (c :: cs) 0
      if (n : Int) ≤ Word.greatest then some (.integer n) else none
    else symbol? c

/-- The tokens of a row of lexemes that `offset` characters precede. -/
def ofLexemes : (offset : Nat) → List (List Char) → Except (ParseError Nat) (List Token)
  | _, [] => .ok []
  | offset, lexeme :: rest =>
    if lexeme.all isBlank then ofLexemes (offset + lexeme.length) rest
    else match Kind.ofLexeme? lexeme with
      | none => .error (.unreadable (String.ofList lexeme) offset)
      | some kind => do
        let tokens ← ofLexemes (offset + lexeme.length) rest
        .ok (⟨kind, lexeme, offset⟩ :: tokens)

def scan (text : List Char) : Except (ParseError Nat) (List Token) :=
  ofLexemes 0 (lexemes text)

end Token

end Dice
