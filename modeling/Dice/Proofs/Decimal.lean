/-! Numbers in decimal digits. The digits of a number are never empty, and only a minus may stand
before them. Main statement: a number is recovered from any text that begins with its own, as
long as no digit follows. -/

namespace Dice

/-! ### Digits -/

theorem isDigit_toDigits (n : Nat) : ∀ c ∈ Nat.toDigits 10 n, c.isDigit :=
  fun _ hc => Nat.isDigit_of_mem_toDigits (by decide) (by decide) hc

theorem exists_toDigits_cons (n : Nat) : ∃ c rest, Nat.toDigits 10 n = c :: rest ∧ c.isDigit := by
  have hdigits := isDigit_toDigits n
  cases hn : Nat.toDigits 10 n with
  | nil => exact absurd hn Nat.toDigits_ne_nil
  | cons c rest => exact ⟨c, rest, rfl, hdigits c (by simp [hn])⟩

theorem toList_toString_nonneg {n : Int} (h : 0 ≤ n) :
    (toString n).toList = Nat.toDigits 10 n.natAbs := by
  have hn : n.toNat = n.natAbs := by omega
  rw [Int.toString_eq_repr, Int.repr_eq_if, if_pos h, Nat.toList_repr, hn]

theorem toList_toString_neg {n : Int} (h : n < 0) :
    (toString n).toList = '-' :: Nat.toDigits 10 n.natAbs := by
  have hn : (-n).toNat = n.natAbs := by omega
  rw [Int.toString_eq_repr, Int.repr_eq_if, if_neg (Int.not_le.mpr h), String.toList_append,
    Nat.toList_repr, hn]
  rfl

theorem isDigit_of_mem_toString {n : Int} (h : 0 ≤ n) : ∀ c ∈ (toString n).toList, c.isDigit := by
  rw [toList_toString_nonneg h]
  exact isDigit_toDigits n.natAbs

/-- The text of a number consists of digits, perhaps behind a minus. -/
theorem eq_minus_or_isDigit_of_mem_toString {n : Int} {c : Char} (h : c ∈ (toString n).toList) :
    c = '-' ∨ c.isDigit := by
  by_cases hn : n < 0
  · rw [toList_toString_neg hn] at h
    exact (List.mem_cons.mp h).imp_right (isDigit_toDigits _ c)
  · exact .inr (isDigit_of_mem_toString (Int.not_lt.mp hn) c h)

theorem not_mem_toString {n : Int} {c : Char} (hminus : c ≠ '-') (hdigit : c.isDigit = false) :
    c ∉ (toString n).toList := by
  intro h
  rcases eq_minus_or_isDigit_of_mem_toString h with rfl | hmem
  · exact hminus rfl
  · exact absurd hmem (by simp [hdigit])

/-! ### Recovering what was written -/

/-- No digit stands in front. -/
def DigitFree (rest : List Char) : Prop := ∀ c ∈ rest.head?, c.isDigit = false

/-- Whatever text begins with what is written of `a`, with no digit behind it, begins with what is
written of nothing else. -/
def Recoverable {α : Type} (write : α → List Char) (a : α) : Prop :=
  ∀ b x y, DigitFree x → DigitFree y → write a ++ x = write b ++ y → a = b ∧ x = y

theorem takeWhile_toDigits (n : Nat) {rest : List Char} (h : DigitFree rest) :
    (Nat.toDigits 10 n ++ rest).takeWhile Char.isDigit = Nat.toDigits 10 n := by
  rw [List.takeWhile_append_of_pos (isDigit_toDigits n)]
  cases rest with
  | nil => simp
  | cons c rest =>
    have hc : ¬ c.isDigit := by simpa using h c rfl
    rw [List.takeWhile_cons_of_neg hc, List.append_nil]

theorem recoverable_toDigits (n : Nat) : Recoverable (Nat.toDigits 10) n := by
  intro m x y hx hy h
  have hdigits : Nat.toDigits 10 n = Nat.toDigits 10 m := by
    rw [← takeWhile_toDigits n hx, h, takeWhile_toDigits m hy]
  have hvalue := congrArg (Nat.ofDigitChars 10 · 0) hdigits
  simp only [Nat.ofDigitChars_ten_toDigits] at hvalue
  rw [hdigits] at h
  exact ⟨hvalue, List.append_cancel_left h⟩

theorem toDigits_append_ne_minus (n : Nat) (x y : List Char) :
    Nat.toDigits 10 n ++ x ≠ '-' :: y := by
  obtain ⟨c, rest, hn, hc⟩ := exists_toDigits_cons n
  rw [hn]
  intro h
  obtain ⟨rfl, -⟩ := List.cons.inj h
  cases hc

theorem recoverable_int (n : Int) : Recoverable (fun n : Int => (toString n).toList) n := by
  intro m x y hx hy h
  simp only at h
  by_cases hn : n < 0 <;> by_cases hm : m < 0
  · rw [toList_toString_neg hn, toList_toString_neg hm] at h
    obtain ⟨habs, hxy⟩ := recoverable_toDigits _ _ x y hx hy (List.cons.inj h).2
    exact ⟨by omega, hxy⟩
  · rw [toList_toString_neg hn, toList_toString_nonneg (Int.not_lt.mp hm)] at h
    exact absurd h.symm (toDigits_append_ne_minus _ _ _)
  · rw [toList_toString_nonneg (Int.not_lt.mp hn), toList_toString_neg hm] at h
    exact absurd h (toDigits_append_ne_minus _ _ _)
  · rw [toList_toString_nonneg (Int.not_lt.mp hn), toList_toString_nonneg (Int.not_lt.mp hm)] at h
    obtain ⟨habs, hxy⟩ := recoverable_toDigits _ _ x y hx hy h
    exact ⟨by omega, hxy⟩

end Dice
