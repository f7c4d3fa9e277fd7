import Dice.CommandLine.Disk

/-! A disk on which all files are known: texts that lie somewhere, and what has been
written since. There are the directories in which texts lie and those that every system
has, and the null device stands in its place as an empty file. -/

namespace Dice.CommandLine

/-- Texts by their paths, seen from the directory in which the program runs, and the files that
have been written since. -/
structure Directory where
  texts : List (String × String)
  written : List (Location × List UInt8)
deriving Repr, DecidableEq

namespace Directory

/-- The directories under the root of every system. -/
def systemDirectories : List String :=
  ["bin", "boot", "dev", "etc", "home", "lib", "media", "mnt", "opt", "proc", "root", "run",
    "sbin", "srv", "sys", "tmp", "usr", "var"]

def nullDevice : Location := ⟨.system ["dev"], "null"⟩

/-- The text that lies at a location. -/
def text? (directory : Directory) (location : Location) : Option String :=
  (directory.texts.find? fun text => Location.ofPath? text.1 = some location).map (·.2)

/-- What the file at a location holds. -/
def bytes? (directory : Directory) (location : Location) : Option (List UInt8) :=
  directory.written.lookup location <|> (directory.text? location).map encodeText <|>
    if location = nullDevice then some [] else none

/-- Whether a place is there. -/
def has (directory : Directory) (place : Place) : Bool :=
  systemDirectories.any (fun name => place = .system [name]) ||
    directory.texts.any fun text =>
      (Location.ofPath? text.1).any fun location => place.contains location.place

/-- What a name stands for. -/
inductive Entry where
  | directory (place : Place)
  | file (bytes : List UInt8)

/-- What stands at a location. -/
def entry? (directory : Directory) (location : Location) : Option Entry :=
  match directory.bytes? location with
  | some bytes => some (.file bytes)
  | none =>
    let place := location.place.child location.name
    if directory.has place then some (.directory place) else none

/-- The directory to which a name leads. -/
def enter (directory : Directory) (place : Place) (name : String) : Except DiskError Place :=
  if name = "." then .ok place
  else if name = ".." then .ok place.parent
  else do
    Path.allowName name
    match directory.entry? ⟨place, name⟩ with
    | some (.directory place) => .ok place
    | some (.file _) => .error .notADirectory
    | none => .error .noSuchFile

/-- The location to which names lead; none, if they lead to a directory whatever it
holds. -/
def follow (directory : Directory) (place : Place) : List String →
    Except DiskError (Option Location)
  | [] => .ok none
  | [name] => .ok (if name = "." ∨ name = ".." then none else some ⟨place, name⟩)
  | name :: names => do follow directory (← directory.enter place name) names

/-- The location to which a path leads. -/
def locate (directory : Directory) (path : String) : Except DiskError (Option Location) := do
  Path.allow path
  directory.follow (Place.start path) (Path.names path)

def read (directory : Directory) (path : String) : Except DiskError String := do
  match ← directory.locate path with
  | none => .error .isADirectory
  | some location =>
    Path.allowName location.name
    match directory.entry? location with
    | none => .error .noSuchFile
    | some (.directory _) => .error .isADirectory
    | some (.file bytes) => if Path.endsInSlash path then .error .notADirectory else decodeText bytes

/-- Where bytes for a path go. A file is never made under a path that ends in a slash. -/
def destination (directory : Directory) (path : String) : Except DiskError Location := do
  match ← directory.locate path with
  | none => .error .isADirectory
  | some location =>
    if Path.endsInSlash path then .error .isADirectory
    else
      Path.allowName location.name
      match directory.entry? location with
      | some (.directory _) => .error .isADirectory
      | _ => .ok location

def write (directory : Directory) (path : String) (bytes : List UInt8) :
    Except DiskError Unit × Directory :=
  match directory.destination path with
  | .error error => (.error error, directory)
  | .ok location => (.ok (), { directory with
      written := (location, bytes) :: directory.written.filter (·.1 ≠ location) })

instance : Disk Directory where
  File := Location
  file? directory path := (directory.locate path).toOption.join
  bytes? := bytes?
  readText := read
  writeBytes := write

/-! ### Laws -/

variable {directory : Directory} {path : String} {location : Location}

theorem exists_of_bind_eq_ok {ε α β : Type} {x : Except ε α} {f : α → Except ε β} {b : β}
    (h : x >>= f = .ok b) : ∃ a, x = .ok a ∧ f a = .ok b := by
  cases x with
  | error cause => cases h
  | ok a => exact ⟨a, rfl, h⟩

theorem bytes?_of_entry? {bytes : List UInt8} (h : directory.entry? location = some (.file bytes)) :
    directory.bytes? location = some bytes := by
  unfold entry? at h
  cases hbytes : directory.bytes? location with
  | some held =>
    rw [hbytes] at h
    cases h
    rfl
  | none =>
    rw [hbytes] at h
    by_cases hplace : directory.has (location.place.child location.name) <;> simp [hplace] at h

/-- A path is read at the location to which it leads. -/
theorem exists_of_read {text : String} (h : directory.read path = .ok text) :
    ∃ location, directory.locate path = .ok (some location) ∧
      directory.bytes? location = some (encodeText text) := by
  obtain ⟨found, hlocate, h⟩ := exists_of_bind_eq_ok h
  cases found with
  | none => cases h
  | some location =>
    obtain ⟨-, -, h⟩ := exists_of_bind_eq_ok h
    refine ⟨location, hlocate, ?_⟩
    split at h
    case h_1 | h_2 => cases h
    case h_3 bytes hentry =>
      split at h
      · cases h
      · rw [encodeText_of_decodeText h]
        exact bytes?_of_entry? hentry

theorem locate_of_destination (h : directory.destination path = .ok location) :
    directory.locate path = .ok (some location) := by
  obtain ⟨found, hlocate, h⟩ := exists_of_bind_eq_ok h
  cases found with
  | none => cases h
  | some found =>
    dsimp only at h
    split at h
    · cases h
    · obtain ⟨-, -, h⟩ := exists_of_bind_eq_ok h
      split at h <;> cases h
      exact hlocate

theorem write_of_ok {bytes : List UInt8} (h : directory.destination path = .ok location) :
    directory.write path bytes = (.ok (), { directory with
      written := (location, bytes) :: directory.written.filter (·.1 ≠ location) }) := by
  rw [write, h]

theorem write_of_error {bytes : List UInt8} {error : DiskError}
    (h : directory.destination path = .error error) :
    directory.write path bytes = (.error error, directory) := by
  rw [write, h]

theorem lookup_filter_ne {α β : Type} [DecidableEq α] {key other : α} (h : other ≠ key)
    (entries : List (α × β)) :
    (entries.filter (·.1 ≠ key)).lookup other = entries.lookup other := by
  induction entries with
  | nil => rfl
  | cons entry entries ih =>
    obtain ⟨k, value⟩ := entry
    by_cases hk : k = key
    · have hother : (other == k) = false := by simp [hk, h]
      rw [List.filter_cons_of_neg (by simp [hk]), ih, List.lookup_cons, hother]
    · rw [List.filter_cons_of_pos (by simp [hk]), List.lookup_cons, List.lookup_cons, ih]

theorem bytes?_written_self (bytes : List UInt8) (written : List (Location × List UInt8)) :
    bytes? { directory with written := (location, bytes) :: written } location = some bytes := by
  rw [bytes?, List.lookup_cons_self]
  rfl

theorem bytes?_written_other (bytes : List UInt8) {other : Location} (h : other ≠ location) :
    bytes? { directory with
      written := (location, bytes) :: directory.written.filter (·.1 ≠ location) } other =
        directory.bytes? other := by
  have hother : (other == location) = false := by simp [h]
  rw [bytes?, List.lookup_cons, hother, lookup_filter_ne h]
  rfl

instance : LawfulDisk Directory where
  readText_ok {directory path text} h := by
    obtain ⟨location, hlocate, hbytes⟩ := exists_of_read h
    exact ⟨location, congrArg (·.toOption.join) hlocate, hbytes⟩
  writeBytes_error {directory after path bytes error} h file := by
    cases hplace : directory.destination path with
    | error error =>
      cases (write_of_error hplace).symm.trans h
      rfl
    | ok location => cases (write_of_ok hplace).symm.trans h
  writeBytes_ok {directory after path bytes} h := by
    cases hplace : directory.destination path with
    | error error => cases (write_of_error hplace).symm.trans h
    | ok location =>
      cases (write_of_ok hplace).symm.trans h
      exact ⟨location, congrArg (·.toOption.join) (locate_of_destination hplace),
        bytes?_written_self bytes _, fun other hother => bytes?_written_other bytes hother⟩

end Directory

end Dice.CommandLine
