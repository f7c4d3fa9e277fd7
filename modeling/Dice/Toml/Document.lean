import Dice.Toml.Reader

/-! TOML documents: lines with entries, below headers that name the table to which the
entries belong. -/

namespace Dice.Toml

inductive Line where
  /-- The header of a table, or of one more table of the same name. -/
  | header (path : List String) (repeated : Bool)
  | entry (path : List String) (value : Node)

/-- The tokens of the lines after this one, which nothing but a comment may end. -/
def lineEnd? (tokens : List Token) : Option (List Token) :=
  match dropBlank tokens with
  | [] | [.comment] => some []
  | .newline :: rest | .comment :: .newline :: rest => some rest
  | _ => none

/-- The first line of the tokens, which do not start with a blank. -/
def line? : List Token → Option (Line × List Token)
  | .openBracket :: .openBracket :: rest => do
    let (path, rest) ← key? rest
    match rest with
    | .closeBracket :: .closeBracket :: rest => some (.header path true, ← lineEnd? rest)
    | _ => none
  | .openBracket :: rest => do
    let (path, rest) ← key? rest
    match rest with
    | .closeBracket :: rest => some (.header path false, ← lineEnd? rest)
    | _ => none
  | tokens => do
    let (path, rest) ← key? tokens
    match rest with
    | .equals :: rest =>
      let (value, rest) ← value? (2 * rest.length) (dropBlank rest)
      some (.entry path value, ← lineEnd? rest)
    | _ => none

/-- All lines; every line takes a token at least. -/
def lines? : (fuel : Nat) → List Token → Option (List Line)
  | 0, tokens => if (dropLines tokens).isEmpty then some [] else none
  | fuel + 1, tokens =>
    match dropLines tokens with
    | [] => some []
    | tokens => do
      let (line, rest) ← line? tokens
      some (line :: (← lines? fuel rest))

/-- A header and the body below it. What is written before the first header has an empty
path. -/
structure Section where
  path : List String
  repeated : Bool
  body : Entries

namespace Section

/-- The sections of the given lines, of which the first ones belong to `current`. -/
def ofLines? (current : Section) : List Line → Option (List Section)
  | [] => some [current]
  | .header path repeated :: lines => do some (current :: (← ofLines? ⟨path, repeated, []⟩ lines))
  | .entry path value :: lines => do
    ofLines? { current with body := ← Entries.addValue? value path current.body } lines

/-- A section whose header begins one more table of the given path. -/
def begins (sec : Section) (path : List String) : Bool := sec.repeated && sec.path = path

/-- Moves the sections that lie in a table of the path behind the header of the next such
table, unless a table around it begins anew before. The sections moved so far are
`held`, in reverse. -/
def postpone (path : List String) (held : List Section) : List Section → List Section
  | [] => held.reverse
  | sec :: rest =>
    if sec.begins path then sec :: (held.reverse ++ rest)
    else if path.isPrefixOf sec.path then postpone path (sec :: held) rest
    else if sec.repeated && sec.path.isPrefixOf path then held.reverse ++ sec :: rest
    else sec :: postpone path held rest

/-- The first `count` sections in the order in which they count: what lies in a table of
a repeated header goes to the next such table, when the table stands for a date. -/
def arrange : (count : Nat) → List Section → List Section
  | 0, secs => secs
  | _, [] => []
  | count + 1, sec :: rest =>
    sec :: arrange count (if sec.repeated && sec.body.isDate then postpone sec.path [] rest else rest)

/-- Adds the section to those before it. -/
def addTo? (entries : Entries) (sec : Section) : Option Entries :=
  Entries.addBody? sec.repeated sec.body sec.path entries

end Section

/-- The value of all sections. In a document that begins like a date, no header counts. -/
def valueOf? : List Section → Option Value
  | [] => some (.table [])
  | first :: rest => do
    if first.body.isDate then Entries.finish? first.body
    else Entries.finish? (← (Section.arrange rest.length rest).foldlM Section.addTo? first.body)

/-- The value of a document, if the text is one. -/
def read? (text : String) : Option Value := do
  let tokens ← Token.scan? text
  let lines ← lines? tokens.length tokens
  valueOf? (← Section.ofLines? ⟨[], false, []⟩ lines)

end Dice.Toml
