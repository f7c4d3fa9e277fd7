import Dice.CommandLine.Path
import Dice.Failure
import Dice.Tally.Basic

/-! What a failure says, word for word. The messages of the program are put together from
parts; here stands what comes out. Main statement: every failure of a request says its
message. -/

namespace Dice

namespace Refusal

inductive Says : Refusal → String → Prop where
  | noSides (sides : Int) : Says (.noSides sides) s!"a die needs at least 1 side, got {sides}"
  | noDice (count : Int) : Says (.noDice count) s!"dice count must be at least 1, got {count}"
  | negativeCount (count : Int) :
      Says (.negativeCount count) s!"dice count must not be negative, got {count}"
  | tooManyDice (count limit : Nat) :
      Says (.tooManyDice count limit) s!"{count} dice exceed the limit of {limit}"
  | endlessExplosion (threshold : Int) :
      Says (.endlessExplosion threshold) s!"explode threshold {threshold} would explode every die"
  | tooManyExplosions (limit : Nat) :
      Says (.tooManyExplosions limit) s!"explosions exceeded the limit of {limit} dice"

theorem says_reason (refusal : Refusal) : refusal.Says refusal.reason := by
  cases refusal <;> constructor

end Refusal

namespace EvalError

inductive Says : EvalError → String → Prop where
  | divisionByZero (context : String) :
      Says (.divisionByZero context) s!"division by zero in `{context}`"
  | overflow (context : String) : Says (.overflow context) s!"integer overflow in `{context}`"
  | refusedDice (context : String) {refusal : Refusal} {reason : String} (h : refusal.Says reason) :
      Says (.refusedDice context refusal)
        (s!"cannot roll `{context}`: " ++ ("invalid argument: " ++ reason))

theorem says_message (error : EvalError) : error.Says error.message := by
  cases error with
  | divisionByZero context => exact .divisionByZero context
  | overflow context => exact .overflow context
  | refusedDice context refusal => exact .refusedDice context refusal.says_reason

end EvalError

namespace Construct

inductive Says : Construct → String → Prop where
  | expression : Says .expression "Expression"
  | term : Says .term "Term"
  | factor : Says .factor "DFactor"
  | value : Says .value "Value"
  | closingParen : Says .closingParen "\")\""
  | endOfInput : Says .endOfInput "end of input"

theorem says_name (construct : Construct) : construct.Says construct.name := by
  cases construct <;> constructor

end Construct

namespace ParseError

open Text (Position)

inductive Says : ParseError Position → String → Prop where
  | unreadable (text : String) (line column : Nat) :
      Says (.unreadable text ⟨line, column⟩) s!"{line}:{column}: invalid input text \"{text}\""
  | endOfInput {expected : Construct} {name : String} (h : expected.Says name) :
      Says (.unexpected expected none) s!"unexpected end of input (expected {name})"
  | unexpected (text : String) (line column : Nat) {expected : Construct} {name : String}
      (h : expected.Says name) : Says (.unexpected expected (some (text, ⟨line, column⟩)))
        s!"unexpected token \"{text}\" at {line}:{column} (expected {name})"
  | tooDeep (line column : Nat) :
      Says (.tooDeep ⟨line, column⟩) s!"{line}:{column}: parentheses nested deeper than {64}"

theorem says_message (error : ParseError Position) : error.Says error.message := by
  cases error with
  | unreadable text place => exact .unreadable text place.line place.column
  | unexpected expected found =>
    cases found with
    | none => exact .endOfInput expected.says_name
    | some found => exact .unexpected found.1 found.2.line found.2.column expected.says_name
  | tooDeep place => exact .tooDeep place.line place.column

end ParseError

namespace Failure

inductive Says : Failure → String → Prop where
  | parse {error : ParseError Text.Position} {words : String} (h : error.Says words) :
      Says (.parse error) ("parse error: " ++ words)
  | evaluation {error : EvalError} {words : String} (h : error.Says words) :
      Says (.evaluation error) ("evaluation error: " ++ words)
  | refused {refusal : Refusal} {reason : String} (h : refusal.Says reason) :
      Says (.refused refusal) ("invalid argument: " ++ reason)

theorem says_message (failure : Failure) : failure.Says failure.message := by
  cases failure with
  | parse error => exact .parse error.says_message
  | evaluation error => exact .evaluation error.says_message
  | refused refusal => exact .refused refusal.says_reason

end Failure

namespace CommandLine.DiskError

inductive Says : DiskError → String → Prop where
  | noSuchFile : Says .noSuchFile "No such file or directory (os error 2)"
  | notADirectory : Says .notADirectory "Not a directory (os error 20)"
  | isADirectory : Says .isADirectory "Is a directory (os error 21)"
  | nameTooLong : Says .nameTooLong "File name too long (os error 36)"
  | nulInPath : Says .nulInPath "file name contained an unexpected NUL byte"
  | notUtf8 : Says .notUtf8 "stream did not contain valid UTF-8"
  | other (reason : String) : Says (.other reason) reason

theorem says_iff {error : DiskError} {text : String} : error.Says text ↔ text = error.message := by
  constructor
  · intro h
    cases h <;> rfl
  · rintro rfl
    cases error <;> constructor

end CommandLine.DiskError

end Dice
