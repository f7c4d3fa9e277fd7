import Dice.Toml.Node
import Dice.Toml.Number

/-! Reading the keys and values of a TOML document. What a word means is decided by its
characters and by the tokens after it, since the parts of a date or of a number with
a fraction are words of their own. Every reader returns the tokens after what it read. -/

namespace Dice.Toml

def dropBlank : List Token → List Token
  | .blank _ :: rest => rest
  | tokens => tokens

/-- Drops blanks, comments and the ends of lines. -/
def dropLines : List Token → List Token
  | .blank _ :: rest => dropLines rest
  | .newline :: rest => dropLines rest
  | .comment :: rest => dropLines rest
  | tokens => tokens

mutual

/-- A key of one or more parts, with the blanks around it. -/
def key? : List Token → Option (List String × List Token)
  | .blank _ :: rest => key? rest
  | .word text :: rest => keyAfter? (String.ofList text) rest
  | .quoted text false :: rest => keyAfter? text rest
  | _ => none

/-- A key whose first part has been read. -/
def keyAfter? (part : String) : List Token → Option (List String × List Token)
  | .period :: rest => do
    let (parts, rest) ← key? rest
    some (part :: parts, rest)
  | .blank _ :: .period :: rest => do
    let (parts, rest) ← key? rest
    some (part :: parts, rest)
  | rest => some ([part], dropBlank rest)

end

/-! ### Numbers and dates -/

def isExponentMark (c : Char) : Bool := c = 'e' || c = 'E'

/-- Digits up to the end of the text. -/
def allDigits? (text : List Char) : Option (List Char) := do
  let (digits, remains) ← Number.digits 10 text
  if remains.isEmpty then some digits else none

/-- The exponent of a number whose word ends in `text`: whether it is negative, and its
digits. A plus sign in it is a token of its own. -/
def exponent? : (text : List Char) → List Token → Option ((Bool × List Char) × List Token)
  | [], rest => some ((false, ['0']), rest)
  | [mark], .plus :: .word text :: rest | [mark], .word text :: rest =>
    if isExponentMark mark then (allDigits? text).map fun digits => ((false, digits), rest)
    else none
  | mark :: text, rest =>
    let (negative, text) := Number.sign text
    if isExponentMark mark then (allDigits? text).map fun digits => ((negative, digits), rest)
    else none

/-- The number whose first word is `text` and whose word after the point is `fraction`. -/
def float? (text : List Char) (fraction : Option (List Char)) (rest : List Token) :
    Option (Value × List Token) := do
  let ((negative, whole), remains) ← Number.integral? text
  let (places, remains) ← match fraction with
    | none => some ([], remains)
    | some text => if remains.isEmpty then Number.digits 10 text else none
  let ((small, exponent), rest) ← exponent? remains rest
  let magnitude : Int := Number.valueOf 10 exponent
  let scale := (if small then -magnitude else magnitude) - places.length
  let minus (b : Bool) : List Char := if b then ['-'] else []
  let literal := minus negative ++ whole ++ '.' :: places ++ 'e' :: minus small ++ exponent
  if Number.isFinite (whole ++ places) scale then some (.float (String.ofList literal), rest)
  else none

/-- The number that begins with the word `text`. -/
def number? (text : List Char) (rest : List Token) : Option (Value × List Token) :=
  match text with
  | '0' :: 'x' :: digits => (Number.radixInteger? 16 digits).map (.integer ·, rest)
  | '0' :: 'o' :: digits => (Number.radixInteger? 8 digits).map (.integer ·, rest)
  | '0' :: 'b' :: digits => (Number.radixInteger? 2 digits).map (.integer ·, rest)
  | _ =>
    if text.any isExponentMark then float? text none rest
    else match rest with
    | .period :: .word fraction :: rest => float? text (some fraction) rest
    | .period :: _ => none
    | _ =>
      if (Number.sign text).2 ∈ ["inf".toList, "nan".toList] then
        some (.float (String.ofList text), rest)
      else (Number.decimalInteger? text).map (.integer ·, rest)

/-- A mark and the word after it, if the mark stands here. -/
def markedPart? (mark : Token) (char : Char) : List Token → Option (List Char × List Token)
  | [] => some ([], [])
  | token :: rest =>
    if token ≠ mark then some ([], token :: rest)
    else match rest with
    | .word text :: rest => some (char :: text, rest)
    | _ => none

/-- The minutes of a time and all that may follow them. -/
def minutes? : List Token → Option (List Char × List Token)
  | .word minutes :: .colon :: .word seconds :: rest => do
    let (fraction, rest) ← markedPart? .period '.' rest
    let (offsetHours, rest) ← markedPart? .plus '+' rest
    let (offsetMinutes, rest) ← markedPart? .colon ':' rest
    some (minutes ++ ':' :: seconds ++ fraction ++ offsetHours ++ offsetMinutes, rest)
  | _ => none

/-- The date or time that begins with `text`, which ends in a colon or not. A time may
follow a date after one blank. -/
def datetime? (text : List Char) (afterColon : Bool) (rest : List Token) :
    Option (Node × List Token) := do
  let (text, rest) := match rest with
    | .blank [' '] :: .word hour :: rest => (text ++ ' ' :: hour, rest)
    | rest => (text, rest)
  let (text, rest) ← match afterColon, rest with
    | false, .colon :: rest =>
      (minutes? rest).map fun (minutes, rest) => (text ++ ':' :: minutes, rest)
    | false, rest => some (text, rest)
    | true, rest => (minutes? rest).map fun (minutes, rest) => (text ++ minutes, rest)
  some (.date text, rest)

/-- A word that can only be part of a date: a hyphen stands in it that is neither its
first character nor the sign of an exponent. -/
def isDateWord (text : List Char) : Bool :=
  text.contains 'T' || text.contains 't' ||
    (text.tail.contains '-' &&
      !(text.zip text.tail).any fun (a, b) => isExponentMark a && b = '-')

/-- A value that is complete as it stands, and the tokens after it. -/
def complete : Value × List Token → Node × List Token
  | (value, rest) => (.value value, rest)

/-- The value that a word begins. -/
def scalar? (text : List Char) (rest : List Token) : Option (Node × List Token) :=
  if text = "true".toList then some (.value (.bool true), rest)
  else if text = "false".toList then some (.value (.bool false), rest)
  else if text.head?.any (fun c => c = '-' || c.isDigit) || text = "inf".toList
      || text = "nan".toList then
    if isDateWord text then datetime? text false rest
    else match rest with
    | .colon :: rest => datetime? (text ++ [':']) true rest
    | rest => (number? text rest).map complete
  else none

/-! ### Values -/

mutual

/-- The first value of the tokens. Fuel for twice the number of tokens is enough. -/
def value? : (fuel : Nat) → List Token → Option (Node × List Token)
  | 0, _ => none
  | _ + 1, .quoted text _ :: rest => some (.value (.string text), rest)
  | _ + 1, .word text :: rest => scalar? text rest
  | _ + 1, .plus :: .word text :: rest => (number? text rest).map complete
  | fuel + 1, .openBracket :: rest => items? fuel [] (dropLines rest)
  | fuel + 1, .openBrace :: rest =>
    match dropBlank rest with
    | .closeBrace :: rest => some (.table .braced [], rest)
    | rest => entries? fuel [] rest
  | _ + 1, _ => none

/-- The rest of an array, after the given items in reverse. -/
def items? : (fuel : Nat) → (items : List Node) → List Token → Option (Node × List Token)
  | 0, _, _ => none
  | _ + 1, items, .closeBracket :: rest => some (.array items.reverse, rest)
  | fuel + 1, items, tokens => do
    let (item, rest) ← value? fuel tokens
    match dropLines rest with
    | .comma :: rest => items? fuel (item :: items) (dropLines rest)
    | .closeBracket :: rest => some (.array (item :: items).reverse, rest)
    | _ => none

/-- The rest of a table in braces, after the given entries. -/
def entries? : (fuel : Nat) → Entries → List Token → Option (Node × List Token)
  | 0, _, _ => none
  | fuel + 1, entries, tokens => do
    let (path, rest) ← key? tokens
    match rest with
    | .equals :: rest =>
      let (value, rest) ← value? fuel (dropBlank rest)
      let entries ← Entries.addValue? value path entries
      match dropBlank rest with
      | .comma :: rest => entries? fuel entries rest
      | .closeBrace :: rest => some (.table .braced entries, rest)
      | _ => none
    | _ => none

end

end Dice.Toml
