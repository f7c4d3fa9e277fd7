import Dice.CommandLine.Arguments

/-! What a command line asks for. -/

namespace Dice.CommandLine

inductive Command where
  | eval (expression : String)
  | sixPool (expression : String)
  | tenPool (words : List String)
  | stats (expression : String) (samples : Nat) (out : String)
deriving Repr, DecidableEq

/-- The options in front of a command. -/
structure Options where
  config : Option String
  seed : Option Nat
  /-- Whether results are shown as JSON documents. -/
  json : Bool
deriving Repr, DecidableEq

structure Invocation extends Options where
  command : Command
deriving Repr, DecidableEq

def defaultSamples : Nat := 10000

def defaultOut : String := "rolls.npy"

/-- What arguments ask for. -/
inductive Request (α : Type) where
  | notice (notice : Notice)
  | perform (action : α)
deriving Repr, DecidableEq

def Request.map {α β : Type} (f : α → β) : Request α → Request β
  | notice n => .notice n
  | perform action => .perform (f action)

/-- The words of an expression: everything there is, but a separator in front. Only the
first argument can ask for help. -/
def expressionWords? : List String → Option (Request (List String))
  | [] => none
  | argument :: rest =>
    match Shape.of argument with
    | .separator => if rest.isEmpty then none else some (.perform rest)
    | .option name value =>
      if name ≠ Notice.help.name then some (.perform (argument :: rest))
      else if value.isNone then some (.notice .help)
      else none
    | .letters first others =>
      if (first :: others).all (· = Notice.help.letter) then some (.notice .help)
      else some (.perform (argument :: rest))
    | .word => some (.perform (argument :: rest))

namespace Command

def stats? (arguments : List String) : Option (Request Command) := do
  let (items, notice) ← mixedItems? ⟨[], ["samples", "out"], [.help]⟩ none arguments
  let samples ← option? "samples" word32? items
  let out ← option? "out" path? items
  match notice, words items with
  | some notice, [] | some notice, [_] => some (.notice notice)
  | none, [expression] =>
    some (.perform (.stats expression (samples.getD defaultSamples) (out.getD defaultOut)))
  | _, _ => none

/-- The words that begin a command. -/
def names : List String := ["eval", "d6", "d10", "stats", "help"]

def ofArguments? : List String → Option (Request Command)
  | "eval" :: rest => do
    some ((← expressionWords? rest).map fun words => .eval (" ".intercalate words))
  | "d6" :: rest => do
    some ((← expressionWords? rest).map fun words => .sixPool (" ".intercalate words))
  | "d10" :: rest => do some ((← expressionWords? rest).map .tenPool)
  | "stats" :: rest => stats? rest
  | ["help"] => some (.notice .help)
  | ["help", name] => if name ∈ names then some (.notice .help) else none
  | _ => none

end Command

/-- The options among the items, if their values can be used. -/
def Options.ofItems? (items : List Item) : Option Options := do
  let config ← option? "config" path? items
  let seed ← option? "seed" word64? items
  let json ← flag? "json" items
  some { config, seed, json }

/-- What the arguments ask for; none, if they are no proper request. A notice is given
even if a mistake comes after the place where it is asked for. -/
def Request.ofArguments? (arguments : List String) : Option (Request Invocation) := do
  let (items, stop) ←
    leadingOptions? ⟨["json"], ["config", "seed"], [.help, .version]⟩ none arguments
  match stop with
  | .notice asked =>
    let _ ← Options.ofItems? items
    some (.notice asked)
  | .words arguments =>
    let _ ← Options.ofItems? (settled items)
    match ← Command.ofArguments? arguments with
    | .notice asked => some (.notice asked)
    | .perform command =>
      let options ← Options.ofItems? items
      some (.perform { options with command })

end Dice.CommandLine
