import Dice.Pool.Basic
import Dice.Proofs.Decimal

/-! The text of a pool, read back. The reader is stated without the writer: it cuts a text at
every space, takes a piece in parentheses for an extra die, and reads one number in each piece.
What is written of a die is not empty and has no space in it, so the cuts are exactly those between
two dice; and it begins with a parenthesis only if the die is an extra one. Main statement: every
pool is read back die by die, so its text determines its dice. -/

namespace Dice.Pool

/-! ### The reader -/

/-- The number that a row of digits stands for. -/
def natural? (text : List Char) : Option Nat :=
  if text ≠ [] ∧ text.all Char.isDigit then some (Nat.ofDigitChars 10 text 0) else none

/-- The number that digits, perhaps behind a minus, stand for. -/
def integer? : List Char → Option Int
  | '-' :: digits => (natural? digits).map fun n : Nat => -n
  | digits => (natural? digits).map fun n : Nat => n

/-- What stands between the parentheses, if there is one at each end. -/
def inside? : List Char → Option (List Char)
  | '(' :: rest => if rest.getLast? = some ')' then some rest.dropLast else none
  | _ => none

/-- The die that a piece shows, which is an extra one exactly if the piece is in parentheses. -/
def die? (piece : List Char) : Option Die :=
  match inside? piece with
  | some inner => (integer? inner).map fun face => ⟨face, true⟩
  | none => (integer? piece).map fun face => ⟨face, false⟩

/-- The parts of a text between its spaces, one more than there are spaces. Only the empty text
has no part at all. -/
def pieces (text : List Char) : List (List Char) := if text = [] then [] else text.splitOn ' '

/-- The dice that a text shows, if every piece shows one. -/
def dice? (text : String) : Option (List Die) := (pieces text.toList).mapM die?

/-! ### Numbers -/

theorem natural?_toDigits (n : Nat) : natural? (Nat.toDigits 10 n) = some n := by
  have hdigits : (Nat.toDigits 10 n).all Char.isDigit := List.all_eq_true.mpr (isDigit_toDigits n)
  rw [natural?, if_pos ⟨Nat.toDigits_ne_nil, hdigits⟩, Nat.ofDigitChars_ten_toDigits]

theorem integer?_toDigits (n : Nat) : integer? (Nat.toDigits 10 n) = some (n : Int) := by
  have hsign : ∀ digits, Nat.toDigits 10 n = '-' :: digits → False := fun digits h =>
    toDigits_append_ne_minus n [] digits (by rw [List.append_nil, h])
  rw [integer?.eq_2 _ hsign, natural?_toDigits, Option.map_some]

theorem integer?_toString (n : Int) : integer? (toString n).toList = some n := by
  by_cases hn : n < 0
  · rw [toList_toString_neg hn, integer?, natural?_toDigits, Option.map_some]
    congr 1
    omega
  · rw [toList_toString_nonneg (Int.not_lt.mp hn), integer?_toDigits]
    congr 1
    omega

/-! ### Dice -/

theorem Die.toList_text_of_extra {die : Die} (h : die.extra) :
    die.text.toList = '(' :: ((toString die.face).toList ++ [')']) := by
  rw [text, if_pos h, String.toList_append, String.toList_append]
  rfl

theorem Die.toList_text_of_not_extra {die : Die} (h : ¬ die.extra) :
    die.text.toList = (toString die.face).toList := by
  rw [text, if_neg h]

/-- Only digits, a minus and parentheses stand in the text of a die. -/
theorem Die.not_mem_text {die : Die} {c : Char} (hsymbol : c ∉ "-()".toList)
    (hdigit : c.isDigit = false) : c ∉ die.text.toList := by
  have hsymbols : "-()".toList = ['-', '(', ')'] := rfl
  rw [hsymbols, List.mem_cons, List.mem_cons, List.mem_singleton, not_or, not_or] at hsymbol
  obtain ⟨hminus, hopen, hclose⟩ := hsymbol
  have hface : c ∉ (toString die.face).toList := not_mem_toString hminus hdigit
  by_cases hextra : die.extra
  · rw [Die.toList_text_of_extra hextra, List.mem_cons, List.mem_append, List.mem_singleton, not_or,
      not_or]
    exact ⟨hopen, hface, hclose⟩
  · rwa [Die.toList_text_of_not_extra hextra]

theorem inside?_parenthesized (inner : List Char) :
    inside? ('(' :: (inner ++ [')'])) = some inner := by
  rw [inside?, List.getLast?_concat, if_pos rfl, List.dropLast_concat]

theorem inside?_toString (n : Int) : inside? (toString n).toList = none := by
  have hopen : '(' ∉ (toString n).toList := not_mem_toString (by decide) (by decide)
  exact inside?.eq_2 _ fun rest h => hopen (h ▸ List.mem_cons_self)

theorem die?_text (die : Die) : die? die.text.toList = some die := by
  cases die with
  | mk face extra =>
    cases extra with
    | true =>
      rw [Die.toList_text_of_extra rfl, die?, inside?_parenthesized]
      simp only [integer?_toString, Option.map_some]
    | false =>
      rw [Die.toList_text_of_not_extra Bool.false_ne_true, die?, inside?_toString]
      simp only [integer?_toString, Option.map_some]

theorem Die.toList_text_ne_nil (die : Die) : die.text.toList ≠ [] := by
  intro h
  -- The empty text shows no die, while this one shows `die`.
  have hread := die?_text die
  rw [h] at hread
  cases hread

/-! ### Rows of dice -/

/-- Texts without spaces are the pieces of the row that they make with a space between any two. -/
theorem pieces_intercalate {texts : List (List Char)} (hne : ∀ text ∈ texts, text ≠ [])
    (hspace : ∀ text ∈ texts, ' ' ∉ text) : pieces ([' '].intercalate texts) = texts := by
  cases texts with
  | nil => rfl
  | cons text texts =>
    have hsplit := List.splitOn_intercalate ' ' hspace (List.cons_ne_nil text texts)
    rw [pieces, hsplit, if_neg]
    intro hempty
    -- An empty row would be cut into one empty piece, which is none of the texts.
    rw [hempty, List.splitOn_nil] at hsplit
    exact hne text List.mem_cons_self (List.cons.inj hsplit).1.symm

theorem pieces_text (pool : Pool) :
    pieces pool.text.toList = pool.dice.map fun die => die.text.toList := by
  have hspace : " ".toList = [' '] := rfl
  rw [text, String.toList_intercalate, List.map_map, hspace, pieces_intercalate]
  · rfl
  · intro piece hpiece
    obtain ⟨die, -, rfl⟩ := List.mem_map.mp hpiece
    exact die.toList_text_ne_nil
  · intro piece hpiece
    obtain ⟨die, -, rfl⟩ := List.mem_map.mp hpiece
    exact Die.not_mem_text (by decide) (by decide)

theorem dice?_text (pool : Pool) : dice? pool.text = some pool.dice := by
  have hread : (die? ∘ fun die : Die => die.text.toList) = fun die => pure die := funext die?_text
  rw [dice?, pieces_text, List.mapM_map, hread, List.mapM_pure, List.map_id']
  rfl

/-- The text of a pool shows its dice, every one with its number and its mark and in their order,
and pools have the same text exactly if they have the same dice. -/
theorem text_read_back (pool : Pool) :
    dice? pool.text = some pool.dice ∧
      ∀ other : Pool, other.text = pool.text ↔ other.dice = pool.dice := by
  refine ⟨dice?_text pool, fun other => ⟨fun h => ?_, fun h => ?_⟩⟩
  · exact Option.some.inj (by rw [← dice?_text other, h, dice?_text pool])
  · rw [text, text, h]

example : dice? "10 (-3) 0 (8)" = some [⟨10, false⟩, ⟨-3, true⟩, ⟨0, false⟩, ⟨8, true⟩] := by decide

example : dice? "10  8" = none ∧ dice? "(3" = none := by decide

end Dice.Pool
