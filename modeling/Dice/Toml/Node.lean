import Dice.Toml.Datetime
import Dice.Toml.Value

/-! Values as they are written, and tables under construction. Whether a key may add to
a table depends on how the table came to be, and is decided as soon as the key is read.
What only concerns the sense of a table, whether its names differ and its dates are
dates, is decided when the table is finished.

A table that begins with an entry of the name `dateName` is another way to write a
date: nothing but the text of that entry counts. -/

namespace Dice.Toml

/-- How a table came to be. -/
inductive Origin where
  /-- Named on the way by a header; its own header may still come. -/
  | implied
  /-- Given a header. -/
  | defined
  /-- Made by a key of several parts; only such keys of the same body may add to it. -/
  | dotted
  /-- Written in braces; nothing may be added to it. -/
  | braced
deriving Repr, DecidableEq

/-- Headers may name what lies in the table. -/
def Origin.isOpen : Origin → Bool
  | implied | defined => true
  | dotted | braced => false

inductive Node where
  /-- A value that is complete as it stands. -/
  | value (v : Value)
  /-- What is written where a date may stand. -/
  | date (text : List Char)
  | array (items : List Node)
  | table (origin : Origin) (entries : List (String × Node))
  /-- The tables of a repeated header, the latest first. -/
  | tables (latest : List (String × Node)) (earlier : List (List (String × Node)))

/-- Entries in the order in which they are written; a name may still occur twice. -/
abbrev Entries := List (String × Node)

/-- The name of the first entry of a table that stands for a date. -/
def dateName : String := "$__toml_private_datetime"

namespace Entries

/-- The table stands for a date. -/
def isDate (entries : Entries) : Bool := entries.head?.any (·.1 = dateName)

def append (entries : Entries) (key : String) (node : Node) : Entries := entries ++ [(key, node)]

/-- Replaces the first entry of the name. -/
def set : Entries → (key : String) → Node → Entries
  | [], _, _ => []
  | entry :: entries, key, node =>
    if entry.1 = key then (key, node) :: entries else entry :: set entries key node

/-- Adds a value under a key of one or more parts. -/
def addValue? (value : Node) : (path : List String) → Entries → Option Entries
  | [], _ => none
  | [key], entries => some (entries.append key value)
  | key :: path, entries =>
    match entries.lookup key with
    | none => do some (entries.append key (.table .dotted (← addValue? value path [])))
    | some (.table .dotted inner) => do
      some (entries.set key (.table .dotted (← addValue? value path inner)))
    | some _ => none

/-- Adds the body below a header. A table that stands for a date takes no more. -/
def addBody? (repeated : Bool) (body : Entries) : (path : List String) → Entries → Option Entries
  | [], entries => some (entries ++ body)
  | [key], entries =>
    if entries.isDate then none
    else match entries.lookup key with
      | none =>
        some (entries.append key (if repeated then .tables body [] else .table .defined body))
      | some (.table .implied inner) =>
        if repeated then none else some (entries.set key (.table .defined (inner ++ body)))
      | some (.tables latest earlier) =>
        if repeated then some (entries.set key (.tables body (latest :: earlier))) else none
      | some _ => none
  | key :: path, entries =>
    if entries.isDate then none
    else match entries.lookup key with
      | none => do
        some (entries.append key (.table .implied (← addBody? repeated body path [])))
      | some (.table origin inner) =>
        if origin.isOpen then do
          some (entries.set key (.table origin (← addBody? repeated body path inner)))
        else none
      | some (.tables latest earlier) => do
        some (entries.set key (.tables (← addBody? repeated body path latest) earlier))
      | some _ => none

end Entries

/-- The date that a text is. -/
def date? (text : List Char) : Option Value :=
  if Datetime.isDatetime text then some (.datetime (String.ofList text)) else none

/-- The date for which a table with the given first entry stands. -/
def dateOfEntry? : Node → Option Value
  | .value (.string text) => date? text.toList
  | _ => none

mutual

/-- The finished value. -/
def Node.finish? : Node → Option Value
  | .value v => some v
  | .date text => date? text
  | .array items => do some (.array (← finishItems? items))
  | .table _ entries => Entries.finish? entries
  | .tables latest earlier => do
    let latest ← Entries.finish? latest
    some (.array ((latest :: (← finishBodies? earlier)).reverse))

/-- The finished items, in the same order. -/
def finishItems? : List Node → Option (List Value)
  | [] => some []
  | item :: items => do some ((← item.finish?) :: (← finishItems? items))

/-- The finished tables of one name, in the same order. -/
def finishBodies? : List (List (String × Node)) → Option (List Value)
  | [] => some []
  | body :: bodies => do some ((← Entries.finish? body) :: (← finishBodies? bodies))

/-- The finished table, whose names have to differ, or the date for which it stands. -/
def Entries.finish? : List (String × Node) → Option Value
  | [] => some (.table [])
  | (key, node) :: entries =>
    if key = dateName then dateOfEntry? node
    else if (key :: entries.map (·.1)).Nodup then do
      some (.table ((key, ← node.finish?) :: (← finishEntries? entries)))
    else none

/-- The finished entries, in the same order. -/
def finishEntries? : List (String × Node) → Option (List (String × Value))
  | [] => some []
  | (key, node) :: entries => do some ((key, ← node.finish?) :: (← finishEntries? entries))

end

end Dice.Toml
