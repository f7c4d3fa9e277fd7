/-! Dates and times of a TOML document: a date, a time, or both with at most an offset
from universal time after them. -/

namespace Dice.Toml.Datetime

/-- Two digits, and the text after them. -/
def pair? : List Char → Option (Nat × List Char)
  | a :: b :: cs => if a.isDigit ∧ b.isDigit then some (Nat.ofDigitChars 10 [a, b] 0, cs) else none
  | _ => none

def expect? (c : Char) : List Char → Option (List Char)
  | c' :: cs => if c = c' then some cs else none
  | [] => none

/-- Reads a year, a month and a day, and returns the text after them. -/
def date? (text : List Char) : Option (List Char) := do
  let (_, text) ← pair? text
  let (_, text) ← pair? text
  let (month, text) ← pair? (← expect? '-' text)
  let (day, text) ← pair? (← expect? '-' text)
  if 1 ≤ month ∧ month ≤ 12 ∧ 1 ≤ day ∧ day ≤ 31 then some text else none

def fraction? (text : List Char) : Option (List Char) :=
  match text with
  | '.' :: c :: cs => if c.isDigit then some (cs.dropWhile Char.isDigit) else none
  | ['.'] => none
  | _ => some text

/-- Reads hours, minutes and seconds, and returns the text after them. -/
def time? (text : List Char) : Option (List Char) := do
  let (hour, text) ← pair? text
  let (minute, text) ← pair? (← expect? ':' text)
  let (second, text) ← pair? (← expect? ':' text)
  if hour ≤ 24 ∧ minute ≤ 59 ∧ second ≤ 59 then fraction? text else none

/-- Reads an offset from universal time, if there is one. -/
def offset? : List Char → Option (List Char)
  | [] => some []
  | c :: cs =>
    if c = 'Z' ∨ c = 'z' then some cs
    else if c = '+' ∨ c = '-' then do
      let (_, cs) ← pair? cs
      let (_, cs) ← pair? (← expect? ':' cs)
      some cs
    else none

def isSeparator (c : Char) : Bool := c = 'T' || c = 't' || c = ' '

def isDatetime (text : List Char) : Bool :=
  let rest :=
    if text[2]? = some ':' then time? text
    else (date? text).bind fun rest =>
      match rest with
      | c :: cs => if isSeparator c then (time? cs).bind offset? else some (c :: cs)
      | [] => some []
  rest = some []

end Dice.Toml.Datetime
