import Dice.Roll
import Dice.Toml.Document

/-! Settings of the program, read from the entry `roller` of a TOML document: a table, or
an array that gives the same values in order. What is missing keeps its default. -/

namespace Dice

structure Settings where
  seed : Option Nat := none
  /-- The greatest number of dice of one roll. -/
  maxDice : Nat := defaultLimit
deriving Repr, DecidableEq

namespace Settings

open Toml (Value)

def count? : Value → Option Nat
  | .integer n => if 0 ≤ n then some n.toNat else none
  | _ => none

/-- Reads one setting, if it is given. -/
def orDefault {α : Type} (default : α) (read : Value → Option α) : Option Value → Option α
  | none => some default
  | some value => read value

def ofValue? : Value → Option Settings
  | .table entries => do
    let seed ← orDefault none (fun v => (count? v).map some) (entries.lookup "seed")
    let maxDice ← orDefault defaultLimit count? (entries.lookup "max_dice")
    some { seed, maxDice }
  | .array items => do
    let seed ← orDefault none (fun v => (count? v).map some) items[0]?
    let maxDice ← orDefault defaultLimit count? items[1]?
    if items.length ≤ 2 then some { seed, maxDice } else none
  | _ => none

/-- How documents are read. A reader says in its own words what is wrong with a text, or with
an entry that gives no settings. -/
structure Reader where
  document : (text : String) → Except String Value
  unusable : (entry : Value) → String

/-- The settings of a document, or what the reader says of it. -/
def ofText (reader : Reader) (text : String) : Except String Settings := do
  match (← reader.document text).get? "roller" with
  | none => return {}
  | some entry =>
    match ofValue? entry with
    | some settings => return settings
    | none => throw (reader.unusable entry)

/-- The reader that this library brings along. -/
def Reader.plain : Reader where
  document text :=
    match Toml.read? text with
    | some value => .ok value
    | none => .error "the text is no TOML document"
  unusable _ := "the entry `roller` gives no usable settings"

end Settings

end Dice
