import Dice.CommandLine.Disk
import Dice.CommandLine.Product
import Dice.Settings
import Dice.Source.Xoshiro

/-! Carrying out a command line. The settings are read first; then the product of the
command is computed, and only then delivered, so a request that fails leaves no trace but
its apology. -/

namespace Dice.CommandLine

/-- How a machine ends a program that asks for more memory than there is. -/
structure Cutoff where
  exitCode : Nat
  words : String
deriving Repr, DecidableEq

/-- What a program finds when it is started, besides its arguments and the files. -/
structure Host (σ : Type) where
  reader : Settings.Reader := .plain
  /-- Where the dice come from when there is no seed. -/
  unseeded : σ
  /-- The greatest limit on the dice of a roll that the memory bears, if it bears everything else.
  A die of a pool takes sixteen bytes, and no list may have more bytes than there are positive
  words. -/
  room : Nat := (1 <<< 59) - 1
  cutoff : Cutoff := ⟨101, "capacity overflow\n"⟩

inductive Ending where
  | printed (text : String)
  | stored
  | failed (trouble : Trouble)
  | cutOff (cutoff : Cutoff)
deriving Repr, DecidableEq

namespace Ending

def exitCode : Ending → Nat
  | failed _ => 1
  | cutOff cutoff => cutoff.exitCode
  | _ => 0

def stdout : Ending → String
  | printed text => text ++ "\n"
  | _ => ""

def stderr : Ending → String
  | failed trouble => "Sorry, I couldn't do that: " ++ trouble.message ++ "\n"
  | cutOff cutoff => cutoff.words
  | _ => ""

end Ending

variable {m : Type → Type} [Monad m] [MonadDisk m] {σ : Type} [Source σ]

def readSettings (reader : Settings.Reader) (config : Option String) :
    m (Except Trouble Settings) := do
  match config with
  | none => return .ok {}
  | some path =>
    match ← MonadDisk.readText path with
    | .error error => return .error (.unreadableConfig path error)
    | .ok text => return (Settings.ofText reader text).mapError .malformedConfig

def deliver : Product → m Ending
  | .line text => return .printed text
  | .file path bytes => do
    match ← MonadDisk.writeBytes path bytes with
    | .ok () => return .stored
    | .error error => return .failed (.unwritable error)

/-- Delivers what a request produces, if it produces anything. -/
def conclude : Except Trouble Product → m Ending
  | .error trouble => return .failed trouble
  | .ok product => deliver product

/-- Carries out a command on a source of dice. -/
def Command.carryOut {τ : Type} [Source τ] (host : Host σ) (limit : Nat) (s : τ) (json : Bool)
    (command : Command) : m Ending :=
  if command.overtaxes host.room limit s then return .cutOff host.cutoff
  else conclude (command.product limit s json)

/-- Carries out a request. The seed of the command line goes before that of the settings. -/
def Invocation.run (invocation : Invocation) (host : Host σ) : m Ending := do
  match ← readSettings host.reader invocation.config with
  | .error trouble => return .failed trouble
  | .ok settings =>
    let command := invocation.command
    match invocation.seed <|> settings.seed with
    | some seed =>
      command.carryOut host settings.maxDice (Xoshiro.ofSeed seed.toUInt64) invocation.json
    | none => command.carryOut host settings.maxDice host.unseeded invocation.json

end Dice.CommandLine
