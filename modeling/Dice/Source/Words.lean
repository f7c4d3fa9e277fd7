import Dice.Source.Basic

/-! Dice from the words of a generator. A die scales a word of 64 bits onto its sides by
the high half of a product, and words whose low half falls into the uneven rest are
passed over, so every side is equally likely. -/

namespace Dice

/-- A generator: a state from which the next word can be taken. -/
class Words (γ : Type) where
  /-- The next word, and the state after it. -/
  nextWord : γ → UInt64 × γ
  /-- The number of words after which the generator repeats itself. -/
  period : Nat

namespace Words

variable {γ : Type} [Words γ]

/-- The greatest low half that counts, for a die of `sides` sides. -/
def zone (sides : Nat) : Nat := UInt64.size - 1 - UInt64.size % sides

/-- The first word that counts among the next `tries + 1`, scaled onto `0, …, sides - 1`;
should none of them count, the last one decides. -/
def choose (sides : Nat) : (tries : Nat) → γ → Nat × γ
  | 0, g => ((nextWord g).1.toNat * sides / UInt64.size, (nextWord g).2)
  | tries + 1, g =>
    let (word, next) := nextWord g
    let product := word.toNat * sides
    if product % UInt64.size ≤ zone sides then (product / UInt64.size, next)
    else choose sides tries next

/-- The sides are counted from one. -/
def throwDie (sides : Int) (g : γ) : Int × γ :=
  let (index, next) := choose sides.toNat (period γ) g
  (1 + index, next)

theorem word_mul_div_lt {sides : Nat} (h : 0 < sides) (word : UInt64) :
    word.toNat * sides / UInt64.size < sides := by
  rw [Nat.div_lt_iff_lt_mul (by decide), Nat.mul_comm sides]
  exact Nat.mul_lt_mul_of_pos_right word.toNat_lt_size h

theorem choose_lt {sides : Nat} (h : 0 < sides) (tries : Nat) (g : γ) :
    (choose sides tries g).1 < sides := by
  induction tries generalizing g with
  | zero => exact word_mul_div_lt h _
  | succ tries ih =>
    simp only [choose]
    split
    · exact word_mul_div_lt h _
    · exact ih _

theorem one_le_throwDie (sides : Int) (g : γ) : 1 ≤ (throwDie sides g).1 := by
  simp only [throwDie]
  omega

theorem throwDie_le {sides : Int} (h : 1 ≤ sides) (g : γ) : (throwDie sides g).1 ≤ sides := by
  have : (choose sides.toNat (period γ) g).1 < sides.toNat := choose_lt (by omega) _ g
  simp only [throwDie]
  omega

end Words

end Dice
