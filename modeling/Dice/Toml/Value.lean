/-! Values of a TOML document. Numbers with a fraction and dates are kept as they are
written: nothing here computes with them. -/

namespace Dice.Toml

inductive Value where
  | string (s : String)
  | integer (n : Int)
  | float (literal : String)
  | bool (b : Bool)
  | datetime (literal : String)
  | array (items : List Value)
  | table (entries : List (String × Value))

/-- The entry of a table; no other value has entries. -/
def Value.get? (name : String) : Value → Option Value
  | table entries => entries.lookup name
  | _ => none

end Dice.Toml
