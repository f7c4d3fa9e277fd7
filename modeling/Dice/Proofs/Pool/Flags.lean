import Dice.Pool.Ten

/-! Flags of a request for ten-sided dice. The words of a request are the flags at its front
and the expression behind them. What the flags ask for depends only on which of them are
there: the lowest explosion threshold counts, and one chance flag is as good as many. -/

namespace Dice.TenPool

/-! ### Words at the front -/

def isFlag (word : String) : Bool := (Flag.ofWord? word).isSome

/-- The flags that stand before all other words. -/
def leadingFlags (words : List String) : List Flag :=
  (words.takeWhile isFlag).filterMap Flag.ofWord?

/-- The words from the first on that is no flag. -/
def afterFlags (words : List String) : List String := words.dropWhile isFlag

/-- The same words without the again flags at the front. -/
def withoutAgain (words : List String) : List String :=
  (words.takeWhile isFlag).filter (fun word => Flag.ofWord? word = some .chance) ++ afterFlags words

variable {word : String} {words : List String} {flag : Flag}

theorem leadingFlags_cons_of_some (h : Flag.ofWord? word = some flag) :
    leadingFlags (word :: words) = flag :: leadingFlags words := by
  rw [leadingFlags, List.takeWhile_cons_of_pos (by rw [isFlag, h]; rfl), List.filterMap_cons_some h]
  rfl

theorem leadingFlags_cons_of_none (h : Flag.ofWord? word = none) :
    leadingFlags (word :: words) = [] := by
  rw [leadingFlags, List.takeWhile_cons_of_neg (by rw [isFlag, h]; decide), List.filterMap_nil]

theorem afterFlags_cons_of_some (h : Flag.ofWord? word = some flag) :
    afterFlags (word :: words) = afterFlags words :=
  List.dropWhile_cons_of_pos (by rw [isFlag, h]; rfl)

theorem afterFlags_cons_of_none (h : Flag.ofWord? word = none) :
    afterFlags (word :: words) = word :: words :=
  List.dropWhile_cons_of_neg (by rw [isFlag, h]; decide)

theorem withoutAgain_cons_of_chance (h : Flag.ofWord? word = some .chance) :
    withoutAgain (word :: words) = word :: withoutAgain words := by
  rw [withoutAgain, List.takeWhile_cons_of_pos (by rw [isFlag, h]; rfl),
    List.filter_cons_of_pos (by rw [h]; rfl), afterFlags_cons_of_some h]
  rfl

theorem withoutAgain_cons_of_again (h : Flag.ofWord? word = some flag) (hflag : flag ≠ .chance) :
    withoutAgain (word :: words) = withoutAgain words := by
  rw [withoutAgain, List.takeWhile_cons_of_pos (by rw [isFlag, h]; rfl),
    List.filter_cons_of_neg (by simpa [h] using hflag), afterFlags_cons_of_some h]
  rfl

theorem withoutAgain_cons_of_none (h : Flag.ofWord? word = none) :
    withoutAgain (word :: words) = word :: words := by
  rw [withoutAgain, List.takeWhile_cons_of_neg (by rw [isFlag, h]; decide), List.filter_nil,
    afterFlags_cons_of_none h, List.nil_append]

/-- Without the again flags the expression is the same, and the chance flags are the flags that are
left. -/
theorem leading_withoutAgain (words : List String) :
    leadingFlags (withoutAgain words) = (leadingFlags words).filter (· = .chance) ∧
      afterFlags (withoutAgain words) = afterFlags words := by
  induction words with
  | nil => exact ⟨rfl, rfl⟩
  | cons word words ih =>
    cases h : Flag.ofWord? word with
    | none =>
      rw [withoutAgain_cons_of_none h, leadingFlags_cons_of_none h]
      exact ⟨rfl, rfl⟩
    | some flag =>
      rw [leadingFlags_cons_of_some h, afterFlags_cons_of_some h]
      by_cases hflag : flag = .chance
      · subst hflag
        rw [withoutAgain_cons_of_chance h, leadingFlags_cons_of_some h, afterFlags_cons_of_some h,
          List.filter_cons_of_pos rfl, ih.1]
        exact ⟨rfl, ih.2⟩
      · rw [withoutAgain_cons_of_again h hflag, List.filter_cons_of_neg (by simpa using hflag)]
        exact ih

/-! ### What the flags ask for -/

/-- The explosion threshold after the flags; eights count before nines. -/
def lowered (flags : List Flag) (threshold : Int) : Int :=
  if .eightAgain ∈ flags then min threshold 8
  else if .nineAgain ∈ flags then min threshold 9
  else threshold

theorem lowered_cons_eightAgain (flags : List Flag) (threshold : Int) :
    lowered (.eightAgain :: flags) threshold = lowered flags (min threshold 8) := by
  simp only [lowered, List.mem_cons, true_or, ↓reduceIte]
  split
  · omega
  · split <;> omega

theorem lowered_cons_nineAgain (flags : List Flag) (threshold : Int) :
    lowered (.nineAgain :: flags) threshold = lowered flags (min threshold 9) := by
  simp only [lowered, List.mem_cons, reduceCtorEq, false_or, true_or, ↓reduceIte]
  split
  · omega
  · split <;> omega

theorem lowered_cons_chance (flags : List Flag) (threshold : Int) :
    lowered (.chance :: flags) threshold = lowered flags threshold := by
  simp only [lowered, List.mem_cons, reduceCtorEq, false_or]

theorem read_eq (request : Request) (words : List String) :
    request.read words =
      ⟨⟨request.rule.passOn, lowered (leadingFlags words) request.rule.explodeOn⟩,
        request.chance || decide (.chance ∈ leadingFlags words),
        if afterFlags words = [] then request.expression
          else String.intercalate " " (afterFlags words)⟩ := by
  induction words generalizing request with
  | nil => simp [Request.read, leadingFlags, afterFlags, lowered]
  | cons word words ih =>
    cases h : Flag.ofWord? word with
    | none =>
      simp [Request.read, h, leadingFlags_cons_of_none h, afterFlags_cons_of_none h, lowered]
    | some flag =>
      rw [leadingFlags_cons_of_some h, afterFlags_cons_of_some h, Request.read, h]
      simp only [ih]
      cases flag with
      | eightAgain => simp [Flag.apply, lowered_cons_eightAgain]
      | nineAgain => simp [Flag.apply, lowered_cons_nineAgain]
      | chance => simp [Flag.apply, lowered_cons_chance]

/-- A request asks for what its flags say, and its expression is what stands behind them. -/
theorem read_plain (words : List String) :
    Request.plain.read words =
      ⟨⟨8, lowered (leadingFlags words) 10⟩, decide (.chance ∈ leadingFlags words),
        String.intercalate " " (afterFlags words)⟩ := by
  rw [read_eq]
  simp only [Request.plain, rule, Bool.false_or]
  split
  · next h => rw [h]; rfl
  · rfl

/-- The again flags change the rule of a request and nothing else. -/
theorem read_withoutAgain (words : List String) :
    Request.plain.read (withoutAgain words) = { Request.plain.read words with rule := rule } := by
  obtain ⟨hflags, hafter⟩ := leading_withoutAgain words
  rw [read_plain, read_plain, hflags, hafter]
  simp [lowered, rule]

end Dice.TenPool
