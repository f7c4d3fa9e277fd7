/-! The words of a TOML document. A run of letters, digits, underscores and hyphens is
one word, whatever it turns out to mean; a line ends at a newline with or without a
carriage return before it. -/

namespace Dice.Toml

inductive Token where
  | newline
  | blank (text : List Char)
  | comment
  | equals | period | comma | colon | plus
  | openBrace | closeBrace | openBracket | closeBracket
  | word (text : List Char)
  /-- A quoted text; one that may span lines is no key. -/
  | quoted (text : String) (multiline : Bool)
deriving Repr, DecidableEq

namespace Token

def isBlank (c : Char) : Bool := c = ' ' || c = '\t'

def isWordChar (c : Char) : Bool := c.isAlphanum || c = '_' || c = '-'

/-- The characters of a comment: all but control characters, a tab excepted. -/
def isCommentChar (c : Char) : Bool := c = '\t' || 0x20 ≤ c.toNat

/-- The characters that may stand in quotes as they are. -/
def isQuotable (c : Char) : Bool := isCommentChar c && c.toNat ≠ 0x7f

def symbol? : Char → Option Token
  | '\n' => some .newline
  | '=' => some .equals
  | '.' => some .period
  | ',' => some .comma
  | ':' => some .colon
  | '+' => some .plus
  | '\x7b' => some .openBrace
  | '\x7d' => some .closeBrace
  | '[' => some .openBracket
  | ']' => some .closeBracket
  | _ => none

/-- The value of a hexadecimal digit of either case. -/
def hexDigit? (c : Char) : Option Nat :=
  if c.isDigit then some (c.toNat - '0'.toNat)
  else if 'a' ≤ c ∧ c ≤ 'f' then some (c.toNat - 'a'.toNat + 10)
  else if 'A' ≤ c ∧ c ≤ 'F' then some (c.toNat - 'A'.toNat + 10)
  else none

/-- The character whose code point the digits write, if there is one. -/
def hexChar? (digits : List Char) : Option Char := do
  let n ← digits.foldlM (fun n c => (hexDigit? c).map (16 * n + ·)) 0
  if h : n.isValidChar then some (Char.ofNatAux n h) else none

/-- The character that a backslash before `c` stands for. -/
def escaped? : (c : Char) → Option Char
  | '"' => some '"'
  | '\\' => some '\\'
  | 'b' => some '\x08'
  | 'f' => some '\x0c'
  | 'n' => some '\n'
  | 'r' => some '\r'
  | 't' => some '\t'
  | _ => none

/-- What a backslash at the end of a line has not yet swallowed. -/
inductive Splice where
  | nothing
  /-- The blanks before the newline, and the newline. -/
  | restOfLine
  /-- All blanks and newlines up to the next other character. -/
  | blankLines
deriving DecidableEq

/-- Reads a quoted text up to its closing quotes; `text` has been read, in reverse. Three
quotes close a text of several lines, and up to two more before them belong to it. -/
def quotedText (quote : Char) (multiline : Bool) :
    Splice → (text : List Char) → List Char → Option (List Char × List Char)
  | _, _, [] => none
  | splice, text, c :: cs =>
    if splice = .restOfLine then
      if isBlank c then quotedText quote multiline .restOfLine text cs
      else if c = '\n' then quotedText quote multiline .blankLines text cs
      else none
    else if splice = .blankLines ∧ (isBlank c ∨ c = '\n') then
      quotedText quote multiline .blankLines text cs
    else if c = quote then
      let quotes := min (1 + (cs.takeWhile (· = quote)).length) 5
      if multiline = false then some (text.reverse, cs)
      else if quotes < 3 then quotedText quote multiline .nothing (c :: text) cs
      else some ((List.replicate (quotes - 3) quote ++ text).reverse, cs.drop (quotes - 1))
    else if c = '\n' then
      if multiline then quotedText quote multiline .nothing (c :: text) cs else none
    else if c = '\\' ∧ quote = '"' then
      match cs with
      | 'u' :: a :: b :: c :: d :: rest => do
        let char ← hexChar? [a, b, c, d]
        quotedText quote multiline .nothing (char :: text) rest
      | 'U' :: a :: b :: c :: d :: e :: f :: g :: h :: rest => do
        let char ← hexChar? [a, b, c, d, e, f, g, h]
        quotedText quote multiline .nothing (char :: text) rest
      | escape :: rest =>
        match escaped? escape with
        | some char => quotedText quote multiline .nothing (char :: text) rest
        | none =>
          if multiline = false then none
          else if escape = '\n' then quotedText quote multiline .blankLines text rest
          else if isBlank escape then quotedText quote multiline .restOfLine text rest
          else none
      | [] => none
    else if isQuotable c then quotedText quote multiline .nothing (c :: text) cs
    else none

/-- Reads what follows an opening quote. -/
def quotedToken (quote : Char) (cs : List Char) : Option (Token × List Char) :=
  match cs with
  | q :: q' :: rest =>
    if q = quote ∧ q' = quote then do
      let body := if rest.head? = some '\n' then rest.tail else rest
      let (text, rest) ← quotedText quote true .nothing [] body
      some (.quoted (String.ofList text) true, rest)
    else single (q :: q' :: rest)
  | rest => single rest
where
  single (cs : List Char) : Option (Token × List Char) := do
    let (text, rest) ← quotedText quote false .nothing [] cs
    some (.quoted (String.ofList text) false, rest)

/-- The first token of a text, and the text after it. -/
def next? (c : Char) (cs : List Char) : Option (Token × List Char) :=
  if let some token := symbol? c then some (token, cs)
  else if isBlank c then some (.blank (c :: cs.takeWhile isBlank), cs.dropWhile isBlank)
  else if isWordChar c then some (.word (c :: cs.takeWhile isWordChar), cs.dropWhile isWordChar)
  else if c = '#' then some (.comment, cs.dropWhile isCommentChar)
  else if c = '"' ∨ c = '\'' then quotedToken c cs
  else none

/-- At most `fuel` tokens; every token takes a character at least. -/
def scanFuel : (fuel : Nat) → List Char → Option (List Token)
  | _, [] => some []
  | 0, _ => none
  | fuel + 1, c :: cs => do
    let (token, rest) ← next? c cs
    let tokens ← scanFuel fuel rest
    some (token :: tokens)

/-- Newlines in place of the pairs of carriage return and newline. -/
def foldNewlines : List Char → List Char
  | '\r' :: '\n' :: cs => '\n' :: foldNewlines cs
  | c :: cs => c :: foldNewlines cs
  | [] => []

/-- A byte order mark at the start is no part of the text. -/
def dropMark (cs : List Char) : List Char :=
  if cs.head? = some '\ufeff' then cs.tail else cs

def scan? (text : String) : Option (List Token) :=
  let cs := foldNewlines (dropMark text.toList)
  scanFuel cs.length cs

end Token

end Dice.Toml
