import Dice.CommandLine.Invocation
import Dice.CommandLine.Path
import Dice.Report.Document
import Dice.Report.Line
import Dice.Tally.Basic
import Dice.Tally.Npy

/-! What a command comes to. Everything is computed before anything is written: a command
either has a product, which is yet to be delivered, or it has none. -/

namespace Dice.CommandLine

/-- Why a request cannot be carried out. -/
inductive Trouble where
  | unreadableConfig (path : String) (error : DiskError)
  /-- The configuration gives no settings, for a reason in the words of its reader. -/
  | malformedConfig (reason : String)
  | roll (failure : Failure)
  | spanTooWide (error : SpanTooWide)
  | unwritable (error : DiskError)
deriving Repr, DecidableEq

def Trouble.message : Trouble → String
  | unreadableConfig path error => s!"unable to read config file {path}: {error.message}"
  | malformedConfig reason => "malformed config: " ++ reason
  | roll failure => failure.message
  | spanTooWide error => error.message
  | unwritable error => error.message

/-- What a request produces. -/
inductive Product where
  | line (text : String)
  | file (path : String) (bytes : List UInt8)
deriving Repr, DecidableEq

/-- A result as a line or as a document. -/
def present (json : Bool) (document : Json) (line : String) : Product :=
  .line (if json then document.text else line)

/-- A tally as the file of its row. -/
def Product.ofTally (path : String) (tally : Tally) : Except Trouble Product := do
  let row ← tally.row.mapError .spanTooWide
  return .file path (Npy.encode row)

/-- What the dice of a command come to. -/
inductive Result where
  | outcome (outcome : Outcome)
  | sixPool (rolled : SixPool)
  | tenPool (rolled : TenPool)
  | tally (tally : Tally) (out : String)

def Result.product (json : Bool) : Result → Except Trouble Product
  | outcome o => return present json o.toJson o.line
  | sixPool rolled => return present json rolled.toJson rolled.line
  | tenPool rolled => return present json rolled.toJson rolled.line
  | tally t out => Product.ofTally out t

namespace Command

/-- Throws the dice of a command, under a limit on the dice of a roll. -/
def play (limit : Nat) : Command → Play Failure Result
  | eval expression => do return .outcome (← evaluate limit expression)
  | sixPool expression => do return .sixPool (← SixPool.throw limit expression)
  | tenPool words => do return .tenPool (← TenPool.throw limit words)
  | stats expression samples out => do
    let expr ← Play.ofExcept ((Expr.parse expression).mapError .parse)
    let tally ← (Tally.sample limit expr samples .empty).mapError .evaluation
    return .tally tally out

variable {σ : Type} [Source σ]

def product (limit : Nat) (s : σ) (json : Bool) (command : Command) : Except Trouble Product := do
  let result ← ((command.play limit).run s).1.mapError .roll
  result.product json

end Command

/-! ### Memory -/

/-- Whether a command throws more dice at a time than the memory of a machine bears, which is as
many as the limit `room` allows: a command that fails under that limit only for its sake. -/
def Command.overtaxes {σ : Type} [Source σ] (room limit : Nat) (s : σ) (command : Command) : Bool :=
  room < limit && match ((command.play room).run s).1 with
    | .ok _ => false
    | .error failure => failure.isLiftedBy limit

end Dice.CommandLine
