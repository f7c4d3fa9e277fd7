/-! Notices: what the program shows about itself. -/

namespace Dice.CommandLine

/-- What the program can show instead of rolling dice. -/
inductive Notice where
  | help | version
deriving Repr, DecidableEq

/-- The option that asks for a notice. -/
def Notice.name : Notice → String
  | help => "help"
  | version => "version"

/-- The letter that asks for a notice, behind a single hyphen. -/
def Notice.letter : Notice → Char
  | help => 'h'
  | version => 'V'

/-- How the program is called. -/
def usage : String := "Usage: roll [OPTIONS] <COMMAND>"

/-- The text of a notice. -/
def Notice.text : Notice → String
  | help => "Dice notation and threshold pool roller\n\n" ++ usage ++ "\n
Commands:
  eval   Evaluate a dice notation expression, e.g. `5d10 + 2 * (2d12 - 3d4)`
  d6     Six-sided pool with hits on 5+, exploding sixes and glitches
  d10    Ten-sided pool; prefix with 8again, 9again or chance
  stats  Roll an expression repeatedly and store the result histogram as .npy
  help   Print this message or the help of the given subcommand(s)

Options:
      --config <CONFIG>  TOML file with a [roller] section
      --seed <SEED>      Seed for reproducible rolls, overrides the config file
      --json             Print results as JSON
  -h, --help             Print help
  -V, --version          Print version"
  | version => "roll 0.1.0"

end Dice.CommandLine
