import Dice.CommandLine.Run
import Dice.Source.ChaCha

/-! The program `roll`. -/

namespace Dice.CommandLine

/-- The error with the given number and description; some operations give the number
negated. -/
def DiskError.ofCode (code : UInt32) (description : String) : DiskError :=
  match min code (-code) with
  | 2 => .noSuchFile
  | 20 => .notADirectory
  | 21 => .isADirectory
  | 36 => .nameTooLong
  | code => .other s!"{description} (os error {code})"

def DiskError.ofSystem : IO.Error → DiskError
  | .noFileOrDirectory _ code description | .permissionDenied _ code description
  | .inappropriateType _ code description | .invalidArgument _ code description =>
    .ofCode code description
  | error => .other (toString error)

/-- Carries out a file operation on a path that can be handed to the system. -/
def attempt {α : Type} (path : String) (operation : IO α) : IO (Except DiskError α) := do
  if '\x00' ∈ path.toList then return .error .nulInPath
  else
    try
      return .ok (← operation)
    catch error =>
      return .error (.ofSystem error)

instance : MonadDisk IO where
  readText path := do
    let bytes ← attempt path (IO.FS.readBinFile path)
    return bytes.bind fun bytes => decodeText bytes.data.toList
  writeBytes path bytes := attempt path (IO.FS.writeBinFile path ⟨bytes.toArray⟩)

/-- Words of 64 bits that nobody can foresee. -/
def randomWord : IO UInt64 := do
  let bytes ← IO.getRandomBytes 8
  return bytes.foldl (fun word byte => word * 256 + byte.toUInt64) 0

/-- A generator whose key nobody can foresee, on a stream that is picked by the clock. -/
def randomGenerator : IO ChaCha := do
  let upper : ChaCha.Row := .ofWords (← randomWord) (← randomWord)
  let lower : ChaCha.Row := .ofWords (← randomWord) (← randomWord)
  return .ofKey upper lower (← IO.monoNanosNow).toUInt64

end Dice.CommandLine

open Dice Dice.CommandLine

def main (arguments : List String) : IO UInt32 := do
  match Request.ofArguments? arguments with
  | none =>
    IO.eprintln usage
    return 2
  | some (.notice notice) =>
    IO.println notice.text
    return 0
  | some (.perform invocation) =>
    let host := { unseeded := ← randomGenerator : Host ChaCha }
    let ending : Ending ← invocation.run host
    IO.print ending.stdout
    IO.eprint ending.stderr
    return ending.exitCode.toUInt32
