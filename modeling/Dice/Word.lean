/-! The range of signed 64-bit words. Arithmetic in this library is exact; a result
counts only when a word can hold it, and `ofInt?` says which results do. -/

namespace Dice.Word

def least : Int := -9223372036854775808

def greatest : Int := 9223372036854775807

def Fits (n : Int) : Prop := least ≤ n ∧ n ≤ greatest

instance : DecidablePred Fits := fun n => inferInstanceAs (Decidable (least ≤ n ∧ n ≤ greatest))

/-- The result itself, when a word can hold it. -/
def ofInt? (n : Int) : Option Int := if Fits n then some n else none

/-- The word before `n`; before the least one comes the greatest. -/
def pred (n : Int) : Int := if n = least then greatest else n - 1

/-- The word nearest to `n`. -/
def clamp (n : Int) : Int := max least (min greatest n)

theorem ofInt?_eq_some_iff {n m : Int} : ofInt? n = some m ↔ Fits n ∧ n = m := by
  simp [ofInt?]

theorem ofInt?_eq_none_iff {n : Int} : ofInt? n = none ↔ ¬ Fits n := by
  simp [ofInt?]

theorem pred_of_pos {n : Int} (h : 0 < n) : pred n = n - 1 := by
  rw [pred, if_neg (by rw [least]; omega)]

theorem clamp_of_fits {n : Int} (h : Fits n) : clamp n = n := by
  simp only [Fits, clamp] at *
  omega

theorem fits_clamp (n : Int) : Fits (clamp n) := by
  simp only [Fits, clamp, least, greatest]
  omega

end Dice.Word
