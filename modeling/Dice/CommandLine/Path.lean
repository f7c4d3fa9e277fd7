/-! Paths, read name by name, and the places to which they lead. A path leads through
directories, and only its last name may stand for something else. -/

namespace Dice.CommandLine

/-- Why the system does not read or write a file. -/
inductive DiskError where
  | noSuchFile
  | notADirectory
  | isADirectory
  | nameTooLong
  | nulInPath
  /-- A file was to be read as text, and is none. -/
  | notUtf8
  /-- Anything else, in the words of the system. -/
  | other (reason : String)
deriving Repr, DecidableEq

def DiskError.message : DiskError → String
  | noSuchFile => "No such file or directory (os error 2)"
  | notADirectory => "Not a directory (os error 20)"
  | isADirectory => "Is a directory (os error 21)"
  | nameTooLong => "File name too long (os error 36)"
  | nulInPath => "file name contained an unexpected NUL byte"
  | notUtf8 => "stream did not contain valid UTF-8"
  | other reason => reason

namespace Path

/-- The greatest number of bytes in a path. -/
def greatestLength : Nat := 4095

/-- The greatest number of bytes in a name. -/
def greatestNameLength : Nat := 255

/-- The names between the slashes. -/
def names (path : String) : List String :=
  let runs := path.toList.splitBy fun a b => (a == '/') == (b == '/')
  (runs.filter (·.head? ≠ some '/')).map String.ofList

/-- A path from the root. -/
def isAbsolute (path : String) : Bool := path.toList.head? = some '/'

/-- A path that only a directory can answer. -/
def endsInSlash (path : String) : Bool := path.toList.getLast? = some '/'

/-- What is wrong with a path, wherever it leads. -/
def allow (path : String) : Except DiskError Unit :=
  if '\x00' ∈ path.toList then .error .nulInPath
  else if greatestLength < path.utf8ByteSize then .error .nameTooLong
  else .ok ()

def allowName (name : String) : Except DiskError Unit :=
  if greatestNameLength < name.utf8ByteSize then .error .nameTooLong else .ok ()

end Path

/-- A directory, seen from the one in which the program runs. What that directory and those
around it are called is not known. -/
inductive Place where
  /-- That directory, or the one in it to which the names lead. -/
  | inside (names : List String)
  /-- A directory around it, or the one to which the names lead from there. The directory next
  around it is at level zero. -/
  | above (level : Nat) (names : List String)
  /-- The directory to which the names lead from the root. -/
  | system (names : List String)
deriving Repr, DecidableEq

namespace Place

/-- The directory around a place; the root is its own. -/
def parent : Place → Place
  | inside [] => above 0 []
  | inside names => inside names.dropLast
  | above level [] => above (level + 1) []
  | above level names => above level names.dropLast
  | system names => system names.dropLast

/-- The directory of the given name in a place. -/
def child (name : String) : Place → Place
  | inside names => inside (names ++ [name])
  | above level names => above level (names ++ [name])
  | system names => system (names ++ [name])

/-- The place to which a name leads if there is a directory of that name. -/
def step (place : Place) (name : String) : Place :=
  if name = "." then place else if name = ".." then place.parent else place.child name

/-- Whether the second place is the first one or lies in it. -/
def contains : Place → Place → Bool
  | inside names, inside names' => names.isPrefixOf names'
  | above level names, above level' names' => level = level' && names.isPrefixOf names'
  | system names, system names' => names.isPrefixOf names'
  | _, _ => false

/-- Where a path starts. -/
def start (path : String) : Place := if Path.isAbsolute path then system [] else inside []

end Place

/-- A name in a directory. -/
structure Location where
  place : Place
  name : String
deriving Repr, DecidableEq

namespace Location

/-- The path of a location in the directory of the program. -/
def inside? (location : Location) : Option String :=
  match location.place with
  | .inside names => some ("/".intercalate (names ++ [location.name]))
  | _ => none

/-- The location of a path on which every name but the last one is that of a directory. -/
def ofPath? (path : String) : Option Location :=
  match (Path.names path).reverse with
  | [] | "." :: _ | ".." :: _ => none
  | name :: names => some ⟨names.reverse.foldl Place.step (Place.start path), name⟩

end Location

end Dice.CommandLine
