import Dice.Proofs.Throws
import Dice.Source.Script

/-! Totals of rolls. A roll is added up in two ways: one gives up where a partial sum is no
word, the other stays at the end of the range there. Of numbers of either sign they may say
different things, since a sum that has been held back can return into the range; but where the
first gives a total, every partial sum is exact, and so is the second. Main statement: faces are
never negative, so for a roll both ways say what its exact sum says. -/

namespace Dice

namespace Roll

variable {faces : List Int} {sum total : Int}

/-! ### Numbers of either sign -/

/-- The partial sums of a row, from `sum` on, are all words. -/
def FitsFrom (sum : Int) (faces : List Int) : Prop :=
  ∀ front, front <+: faces → Word.Fits (sum + front.sum)

theorem FitsFrom.start (h : FitsFrom sum faces) : Word.Fits sum := by
  simpa using h [] List.nil_prefix

theorem fitsFrom_nil : FitsFrom sum [] ↔ Word.Fits sum := by
  simp [FitsFrom]

theorem fitsFrom_cons {face : Int} :
    FitsFrom sum (face :: faces) ↔ Word.Fits sum ∧ FitsFrom (sum + face) faces := by
  constructor
  · intro h
    refine ⟨h.start, fun front hfront => ?_⟩
    have hlonger := h (face :: front) (List.cons_prefix_cons.mpr ⟨rfl, hfront⟩)
    rwa [List.sum_cons, ← Int.add_assoc] at hlonger
  · rintro ⟨hsum, h⟩ front hfront
    rcases List.prefix_cons_iff.mp hfront with rfl | ⟨rest, rfl, hrest⟩
    · simpa using hsum
    · rw [List.sum_cons, ← Int.add_assoc]
      exact h rest hrest

theorem foldlM_eq_some_iff (hsum : Word.Fits sum) :
    faces.foldlM (fun sum face => Word.ofInt? (sum + face)) sum = some total ↔
      FitsFrom sum faces ∧ total = sum + faces.sum := by
  induction faces generalizing sum with
  | nil => simp [fitsFrom_nil, hsum, eq_comm]
  | cons face faces ih =>
    rw [List.foldlM_cons, Option.bind_eq_bind, Option.bind_eq_some_iff, fitsFrom_cons,
      List.sum_cons, ← Int.add_assoc]
    constructor
    · rintro ⟨next, hnext, hrest⟩
      obtain ⟨hfits, rfl⟩ := Word.ofInt?_eq_some_iff.mp hnext
      obtain ⟨hfrom, htotal⟩ := (ih hfits).mp hrest
      exact ⟨⟨hsum, hfrom⟩, htotal⟩
    · rintro ⟨⟨-, hfrom⟩, htotal⟩
      have hnext : Word.ofInt? (sum + face) = some (sum + face) :=
        Word.ofInt?_eq_some_iff.mpr ⟨hfrom.start, rfl⟩
      exact ⟨sum + face, hnext, (ih hfrom.start).mpr ⟨hfrom, htotal⟩⟩

/-- While the partial sums are words, none is held back. -/
theorem foldl_clamp_of_fitsFrom (h : FitsFrom sum faces) :
    faces.foldl (fun sum face => Word.clamp (sum + face)) sum = sum + faces.sum := by
  induction faces generalizing sum with
  | nil => simp
  | cons face faces ih =>
    obtain ⟨-, hfrom⟩ := fitsFrom_cons.mp h
    rw [List.foldl_cons, Word.clamp_of_fits hfrom.start, ih hfrom, List.sum_cons, Int.add_assoc]

/-- There is a total exactly if every partial sum is a word, and then it is exact. -/
theorem total?_eq_some_iff {roll : Roll} : roll.total? = some total ↔
    (∀ front, front <+: roll.faces → Word.Fits front.sum) ∧ total = roll.faces.sum := by
  rw [total?, foldlM_eq_some_iff (by decide), FitsFrom]
  simp only [Int.zero_add]

theorem clampedTotal_of_total? {roll : Roll} (h : roll.total? = some total) :
    roll.clampedTotal = total := by
  obtain ⟨hfits, rfl⟩ := total?_eq_some_iff.mp h
  have hfrom : FitsFrom 0 roll.faces := fun front hfront => by
    rw [Int.zero_add]
    exact hfits front hfront
  rw [clampedTotal, foldl_clamp_of_fitsFrom hfrom, Int.zero_add]

/-- A sum that has been held back can return into the range. -/
example : total? ⟨[Word.greatest, 1, -1]⟩ = none ∧
    clampedTotal ⟨[Word.greatest, 1, -1]⟩ = Word.greatest - 1 := by decide

/-! ### Faces -/

/-- Sums that only grow stay where they are once they have been held back. -/
theorem foldl_clamp_of_nonneg (h : ∀ face ∈ faces, 0 ≤ face) (hsum : Word.Fits sum) :
    faces.foldl (fun sum face => Word.clamp (sum + face)) sum =
      min (sum + faces.sum) Word.greatest := by
  induction faces generalizing sum with
  | nil =>
    simp only [Word.Fits] at hsum
    simp only [List.foldl_nil, List.sum_nil]
    omega
  | cons face faces ih =>
    obtain ⟨hface, hfaces⟩ := List.forall_mem_cons.mp h
    have hnonneg : 0 ≤ faces.sum := List.sum_nonneg hfaces
    rw [List.foldl_cons, ih hfaces (Word.fits_clamp _), List.sum_cons]
    simp only [Word.Fits, Word.clamp] at hsum ⊢
    omega

theorem clampedTotal_of_nonneg {roll : Roll} (h : ∀ face ∈ roll.faces, 0 ≤ face) :
    roll.clampedTotal = min roll.faces.sum Word.greatest := by
  rw [clampedTotal, foldl_clamp_of_nonneg h (by decide), Int.zero_add]

/-- A sum that is not negative is a word unless it is too great. -/
theorem total?_of_nonneg_eq {roll : Roll} (h : ∀ face ∈ roll.faces, 0 ≤ face) :
    roll.total? =
      if roll.faces.sum ≤ Word.greatest then some roll.faces.sum else none := by
  have hnonneg : 0 ≤ roll.faces.sum := List.sum_nonneg h
  have hleast : Word.least ≤ roll.faces.sum := Int.le_trans (by decide) hnonneg
  rw [total?_of_nonneg h, Word.ofInt?]
  simp only [Word.Fits, hleast, true_and]

/-- As many faces as dice, each of them a side. -/
structure Shows (count sides : Int) (roll : Roll) : Prop where
  length : (roll.faces.length : Int) = count
  one_le : ∀ face ∈ roll.faces, 1 ≤ face
  le_sides : ∀ face ∈ roll.faces, face ≤ sides

namespace Shows

variable {count sides : Int} {roll : Roll}

theorem nonneg (h : Shows count sides roll) : ∀ face ∈ roll.faces, 0 ≤ face :=
  fun face hface => Int.le_trans (by decide) (h.one_le face hface)

theorem count_le_sum (h : Shows count sides roll) : count ≤ roll.faces.sum := by
  have hsum := List.card_nsmul_le_sum roll.faces 1 h.one_le
  rwa [nsmul_eq_mul, Int.mul_one, h.length] at hsum

theorem sum_le (h : Shows count sides roll) : roll.faces.sum ≤ count * sides := by
  have hsum := List.sum_le_card_nsmul roll.faces sides h.le_sides
  rwa [nsmul_eq_mul, h.length] at hsum

end Shows

theorem shows_of_run {σ : Type} [Source σ] [LawfulSource σ] {limit : Nat} {count sides : Int}
    {s t : σ} {roll : Roll} (h : (rollDice limit count sides).run s = (.ok roll, t)) :
    Shows count sides roll := by
  cases hallow : allowRoll limit count sides with
  | error refusal =>
    rw [run_rollDice_of_error hallow] at h
    cases h
  | ok n =>
    obtain ⟨hsides, -, -, rfl⟩ := allowRoll_eq_ok_iff.mp hallow
    rw [run_rollDice_of_ok hallow] at h
    cases h
    exact ⟨congrArg Int.ofNat (Source.length_faces sides n s),
      fun _ => Source.one_le_of_mem_faces hsides, fun _ => Source.le_sides_of_mem_faces hsides⟩

/-- What a roll shows adds up to at least as many as there are dice and at most as many as they
have sides; this sum is the total of the roll if it is a word, and otherwise there is none and
the clamped total is the greatest word. In any row of numbers, rolled or not, there is a total
exactly if every partial sum is a word; it is then the exact sum, and so is the clamped total. -/
theorem totals_agree :
    (∀ {σ : Type} [Source σ] [LawfulSource σ] {limit : Nat} {count sides : Int} {s t : σ}
        {roll : Roll}, (rollDice limit count sides).run s = (.ok roll, t) →
      (roll.faces.length : Int) = count ∧
      count ≤ roll.faces.sum ∧ roll.faces.sum ≤ count * sides ∧
      roll.total? = (if roll.faces.sum ≤ Word.greatest then some roll.faces.sum else none) ∧
      roll.clampedTotal = min roll.faces.sum Word.greatest) ∧
    ∀ (row : Roll) (total : Int),
      (row.total? = some total ↔
        (∀ front, front <+: row.faces → Word.Fits front.sum) ∧ total = row.faces.sum) ∧
      (row.total? = some total → row.clampedTotal = total) := by
  constructor
  · intro σ _ _ limit count sides s t roll h
    have hshows := shows_of_run h
    exact ⟨hshows.length, hshows.count_le_sum, hshows.sum_le, total?_of_nonneg_eq hshows.nonneg,
      clampedTotal_of_nonneg hshows.nonneg⟩
  · exact fun _ _ => ⟨total?_eq_some_iff, clampedTotal_of_total?⟩

/-- Two dice with as many sides as there are positive words add up to one too many. -/
theorem totals_agree_overflow :
    let sides : Int := 9223372036854775807
    let roll : Roll := ⟨[sides, 1]⟩
    let s := Script.ofFaces [sides, 1]
    LawfulSource Script ∧ (rollDice 2 2 sides).run s = (.ok roll, ⟨[sides, 1], []⟩) ∧
      2 ≤ roll.faces.sum ∧ roll.faces.sum ≤ 2 * sides ∧ roll.total? = none ∧
      roll.clampedTotal = sides := by
  intro sides roll s
  have hrun : (rollDice 2 2 sides).run s = (.ok roll, ⟨[sides, 1], []⟩) := rfl
  obtain ⟨-, hcount, hsides, htotal, hclamped⟩ := totals_agree.1 hrun
  exact ⟨inferInstance, hrun, hcount, hsides, htotal, hclamped⟩

end Roll

end Dice
