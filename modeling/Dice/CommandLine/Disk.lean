import Dice.CommandLine.Path

/-! The files that the program touches. A disk is a state of all of them; the program
reads and writes them by their paths and knows nothing else about them. -/

namespace Dice.CommandLine

/-- Reading and writing files by their paths. -/
class MonadDisk (m : Type → Type) where
  readText : (path : String) → m (Except DiskError String)
  writeBytes : (path : String) → List UInt8 → m (Except DiskError Unit)

/-- States of the files that paths can lead to. -/
class Disk (δ : Type) where
  /-- What tells one file from another. -/
  File : Type
  /-- The file to which a path leads, whether or not it is there. -/
  file? : δ → (path : String) → Option File
  /-- What a file holds; none, if it is not there. -/
  bytes? : δ → File → Option (List UInt8)
  readText : δ → (path : String) → Except DiskError String
  writeBytes : δ → (path : String) → List UInt8 → Except DiskError Unit × δ

instance {δ : Type} [Disk δ] : MonadDisk (StateM δ) where
  readText path := fun disk => (Disk.readText disk path, disk)
  writeBytes path bytes := fun disk => Disk.writeBytes disk path bytes

/-- The bytes of a text. -/
def encodeText (text : String) : List UInt8 := text.toUTF8.data.toList

def decodeText (bytes : List UInt8) : Except DiskError String :=
  match String.fromUTF8? ⟨bytes.toArray⟩ with
  | some text => .ok text
  | none => .error .notUtf8

theorem encodeText_of_decodeText {bytes : List UInt8} {text : String}
    (h : decodeText bytes = .ok text) : encodeText text = bytes := by
  rw [decodeText, String.fromUTF8?] at h
  by_cases hvalid : (⟨bytes.toArray⟩ : ByteArray).IsValidUTF8
  · rw [dif_pos hvalid] at h
    cases h
    rfl
  · rw [dif_neg hvalid] at h
    cases h

/-- What the program relies on. Paths lead to ordinary files, and a write fails before the file is
opened or not at all: there is room on the disk for what is written. -/
class LawfulDisk (δ : Type) [Disk δ] : Prop where
  /-- What is read is what the file holds. -/
  readText_ok {disk : δ} {path text : String} (h : Disk.readText disk path = .ok text) :
    ∃ file, Disk.file? disk path = some file ∧ Disk.bytes? disk file = some (encodeText text)
  /-- A write that is refused leaves every file as it is. -/
  writeBytes_error {disk after : δ} {path : String} {bytes : List UInt8} {error : DiskError}
    (h : Disk.writeBytes disk path bytes = (.error error, after)) (file : Disk.File δ) :
    Disk.bytes? after file = Disk.bytes? disk file
  /-- A write fills the file to which the path leads, and leaves every other one as it is. -/
  writeBytes_ok {disk after : δ} {path : String} {bytes : List UInt8}
    (h : Disk.writeBytes disk path bytes = (.ok (), after)) :
    ∃ file, Disk.file? disk path = some file ∧ Disk.bytes? after file = some bytes ∧
      ∀ other, other ≠ file → Disk.bytes? after other = Disk.bytes? disk other

end Dice.CommandLine
