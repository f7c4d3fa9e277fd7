import Dice.CommandLine.Notice

/-! The arguments of a command line. Options begin with two hyphens; the value of an
option stands behind an equals sign or in the next argument, which must not look like
an option itself. Arguments are read from left to right, and a notice that is asked for
ends the reading. -/

namespace Dice.CommandLine

/-- What an argument looks like. -/
inductive Shape where
  | word
  /-- The two hyphens after which everything is a word. -/
  | separator
  | option (name : String) (value : Option String)
  /-- A single hyphen and the letters after it, given by the first and the others. -/
  | letters (first : Char) (others : List Char)
deriving Repr, DecidableEq

def Shape.of (argument : String) : Shape :=
  match argument.toList with
  | ['-', '-'] => .separator
  | '-' :: '-' :: cs =>
    let name := String.ofList (cs.takeWhile (· ≠ '='))
    match cs.dropWhile (· ≠ '=') with
    | _ :: value => .option name (some (String.ofList value))
    | [] => .option name none
  | '-' :: first :: others => .letters first others
  | _ => .word

/-- The options that a place on the command line knows. -/
structure Known where
  flags : List String
  valued : List String
  notices : List Notice

inductive Item where
  | flag (name : String)
  /-- An option with its value, which may be attached by an equals sign. -/
  | option (name value : String) (attached : Bool)
  | word (text : String)
deriving Repr, DecidableEq

/-- Where the reading of options ends. -/
inductive Stop where
  | notice (notice : Notice)
  /-- At a word; it and everything after it. -/
  | words (arguments : List String)
deriving Repr, DecidableEq

/-- The options before the first word. A valued option that still waits for its value is
`pending`. -/
def leadingOptions? (known : Known) (pending : Option String) :
    List String → Option (List Item × Stop)
  | [] => none
  | argument :: rest => do
    match pending, Shape.of argument with
    | some name, .word =>
      let (items, stop) ← leadingOptions? known none rest
      some (.option name argument false :: items, stop)
    | none, .word => some ([], .words (argument :: rest))
    | none, .option name (some value) =>
      if name ∈ known.valued then
        let (items, stop) ← leadingOptions? known none rest
        some (.option name value true :: items, stop)
      else none
    | none, .option name none =>
      if name ∈ known.valued then leadingOptions? known (some name) rest
      else if name ∈ known.flags then
        let (items, stop) ← leadingOptions? known none rest
        some (.flag name :: items, stop)
      else some ([], .notice (← known.notices.find? (·.name = name)))
    | none, .letters first _ => some ([], .notice (← known.notices.find? (·.letter = first)))
    | _, _ => none

/-- Options and words in any order, up to a notice. -/
def mixedItems? (known : Known) (pending : Option String) :
    List String → Option (List Item × Option Notice)
  | [] => if pending.isNone then some ([], none) else none
  | argument :: rest => do
    match pending, Shape.of argument with
    | some name, .word =>
      let (items, notice) ← mixedItems? known none rest
      some (.option name argument false :: items, notice)
    | none, .word =>
      let (items, notice) ← mixedItems? known none rest
      some (.word argument :: items, notice)
    | none, .separator => some (rest.map .word, none)
    | none, .option name (some value) =>
      if name ∈ known.valued then
        let (items, notice) ← mixedItems? known none rest
        some (.option name value true :: items, notice)
      else none
    | none, .option name none =>
      if name ∈ known.valued then mixedItems? known (some name) rest
      else if name ∈ known.flags then
        let (items, notice) ← mixedItems? known none rest
        some (.flag name :: items, notice)
      else some ([], some (← known.notices.find? (·.name = name)))
    | none, .letters first _ => some ([], some (← known.notices.find? (·.letter = first)))
    | _, _ => none

/-- The items whose values are looked at before the words after them: all of them, but a
last option whose value is an argument of its own. -/
def settled (items : List Item) : List Item :=
  match items.getLast? with
  | some (.option _ _ false) => items.dropLast
  | _ => items

/-- The words among the items. -/
def words (items : List Item) : List String :=
  items.filterMap fun
    | .word text => some text
    | _ => none

/-- Whether a flag is given; it may not be given twice. -/
def flag? (name : String) (items : List Item) : Option Bool :=
  match items.count (.flag name) with
  | 0 => some false
  | 1 => some true
  | _ => none

/-- The value of an option, read; the option may be absent, but not given twice. -/
def option? {α : Type} (name : String) (read : String → Option α) (items : List Item) :
    Option (Option α) :=
  let values := items.filterMap fun
    | .option name' value _ => if name' = name then some value else none
    | _ => none
  match values with
  | [] => some none
  | [value] => (read value).map some
  | _ => none

/-- A name of a file. -/
def path? (text : String) : Option String := if text.isEmpty then none else some text

def digits? (cs : List Char) : Option Nat :=
  if cs ≠ [] ∧ cs.all Char.isDigit then some (Nat.ofDigitChars 10 cs 0) else none

/-- A number of at most 64 bits, perhaps with a plus sign. -/
def word64? (text : String) : Option Nat := do
  let n ← match text.toList with
    | '+' :: cs => digits? cs
    | cs => digits? cs
  if n < UInt64.size then some n else none

/-- A number of at most 32 bits, perhaps with a sign. -/
def word32? (text : String) : Option Nat := do
  let n ← match text.toList with
    | '+' :: cs => digits? cs
    | '-' :: cs => (digits? cs).filter (· = 0)
    | cs => digits? cs
  if n < UInt32.size then some n else none

end Dice.CommandLine
