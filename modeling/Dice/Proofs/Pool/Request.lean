import Dice.Proofs.Expr.Shorthand
import Dice.Proofs.Expr.Spans
import Dice.Proofs.Pool.Flags
import Dice.Proofs.Throws
import Dice.Source.Script

/-! What the words of a request for ten-sided dice mean. Flags are whole words that may be
written in letters of any case, and they count only in front of all other words. Main
statements: a request is made of the flags in front and of the text of the other words, each
of which stays as it is; and a flag that stands behind another word is no part of an
expression, so that nothing is thrown. -/

namespace Dice.TenPool

open Text (isBlank allBlank)

/-! ### The spelling of flags -/

/-- How a flag is written in small letters. -/
def Flag.spellings : Flag → List String
  | eightAgain => ["8again", "8-again"]
  | nineAgain => ["9again", "9-again"]
  | chance => ["chance"]

/-- The word is the flag, in letters of any case. -/
def Flag.Spelled (flag : Flag) (word : String) : Prop :=
  ∃ spelling ∈ flag.spellings, word.toList.map Char.toLower = spelling.toList

instance (flag : Flag) : DecidablePred flag.Spelled := fun _ =>
  inferInstanceAs (Decidable (∃ spelling ∈ flag.spellings, _))

/-- The word is some flag. -/
def SpellsFlag (word : String) : Prop := ∃ flag : Flag, flag.Spelled word

/-- The flag is one of the words. -/
def Flag.Among (flag : Flag) (words : List String) : Prop := ∃ word ∈ words, flag.Spelled word

instance (flag : Flag) (words : List String) : Decidable (flag.Among words) :=
  inferInstanceAs (Decidable (∃ word ∈ words, flag.Spelled word))

theorem Flag.spelled_of_ofWord? {word : String} {flag : Flag} (h : ofWord? word = some flag) :
    flag.Spelled word := by
  simp only [ofWord?] at h
  split at h
  · next hlower =>
    cases h
    rcases hlower with hlower | hlower
    · exact ⟨"8-again", by decide, hlower⟩
    · exact ⟨"8again", by decide, hlower⟩
  · split at h
    · next hlower =>
      cases h
      rcases hlower with hlower | hlower
      · exact ⟨"9-again", by decide, hlower⟩
      · exact ⟨"9again", by decide, hlower⟩
    · split at h
      · next hlower =>
        cases h
        exact ⟨"chance", by decide, hlower⟩
      · cases h

theorem Flag.ofWord?_eq_some_iff {word : String} {flag : Flag} :
    ofWord? word = some flag ↔ flag.Spelled word := by
  refine ⟨spelled_of_ofWord?, ?_⟩
  rintro ⟨spelling, hspelling, hlower⟩
  have hread : ∀ flag : Flag, ∀ spelling ∈ flag.spellings, ofWord? spelling = some flag := by
    intro flag
    cases flag <;> decide
  have hsmall : ∀ flag : Flag, ∀ spelling ∈ flag.spellings,
      spelling.toList.map Char.toLower = spelling.toList := by
    intro flag
    cases flag <;> decide
  rw [← hread flag spelling hspelling, ofWord?, ofWord?, hlower, hsmall flag spelling hspelling]

theorem isFlag_iff {word : String} : isFlag word ↔ SpellsFlag word := by
  rw [isFlag, Option.isSome_iff_exists]
  exact exists_congr fun _ => Flag.ofWord?_eq_some_iff

instance : DecidablePred SpellsFlag := fun _ => decidable_of_iff _ isFlag_iff

/-- A flag is in front of a request if it is one of the words in front. -/
theorem mem_leadingFlags_iff {words : List String} {flag : Flag} :
    flag ∈ leadingFlags words ↔ flag.Among (words.takeWhile isFlag) := by
  rw [leadingFlags, List.mem_filterMap]
  simp only [Flag.ofWord?_eq_some_iff, Flag.Among]

/-! ### Requests -/

/-- A request is what the flags in front of its words and the text of the other words say. -/
theorem ofWords_of_flags {Place : Type} {flags rest : List String}
    (hflags : ∀ word ∈ flags, SpellsFlag word) (hrest : ∀ word ∈ rest.head?, ¬ SpellsFlag word) :
    (Request.ofWords (flags ++ rest) : Except (ParseError Place) Request) =
      if allBlank (String.intercalate " " rest) ∧ ¬ Flag.chance.Among flags then
        .error (.unexpected .expression none)
      else .ok ⟨⟨8, if Flag.eightAgain.Among flags then 8
          else if Flag.nineAgain.Among flags then 9 else 10⟩,
        decide (Flag.chance.Among flags), String.intercalate " " rest⟩ := by
  have hfront : ∀ word ∈ flags, isFlag word := fun word hword => isFlag_iff.mpr (hflags word hword)
  have hbehind : rest.takeWhile isFlag = [] ∧ rest.dropWhile isFlag = rest := by
    cases rest with
    | nil => exact ⟨rfl, rfl⟩
    | cons word rest =>
      have hword : ¬ isFlag word := fun h => hrest word rfl (isFlag_iff.mp h)
      exact ⟨List.takeWhile_cons_of_neg hword, List.dropWhile_cons_of_neg hword⟩
  have htake : (flags ++ rest).takeWhile isFlag = flags := by
    rw [List.takeWhile_append_of_pos hfront, hbehind.1, List.append_nil]
  have hafter : afterFlags (flags ++ rest) = rest := by
    rw [afterFlags, List.dropWhile_append_of_pos hfront, hbehind.2]
  rw [Request.ofWords, read_plain, hafter]
  simp only [lowered, mem_leadingFlags_iff, htake, decide_eq_false_iff_not]
  rfl

/-- The words in front that are flags say under which rule the pool is thrown and whether it is a
chance die, and the text of the other words is the expression, which only the chance die can do
without. It makes no difference in which order the flags stand, or how often. -/
theorem ofWords_split {Place : Type} (words : List String) :
    let flags := words.takeWhile fun word => SpellsFlag word
    let rest := words.dropWhile fun word => SpellsFlag word
    let expression := String.intercalate " " rest
    (Request.ofWords words : Except (ParseError Place) Request) =
      (if allBlank expression ∧ ¬ Flag.chance.Among flags then .error (.unexpected .expression none)
      else .ok ⟨⟨8, if Flag.eightAgain.Among flags then 8
          else if Flag.nineAgain.Among flags then 9 else 10⟩,
        decide (Flag.chance.Among flags), expression⟩) ∧
    ∀ flags', (∀ word, word ∈ flags' ↔ word ∈ flags) →
      (Request.ofWords (flags' ++ rest) : Except (ParseError Place) Request) =
        Request.ofWords words := by
  intro flags rest expression
  have hflags : ∀ word ∈ flags, SpellsFlag word := fun word hword => by
    simpa using List.mem_takeWhile_imp hword
  have hrest : ∀ word ∈ rest.head?, ¬ SpellsFlag word := fun word hword => by
    have hnot := List.head?_dropWhile_not (fun word => decide (SpellsFlag word)) words
    rw [show words.dropWhile _ = rest from rfl, Option.mem_def.mp hword] at hnot
    simpa using hnot
  have hwords : flags ++ rest = words := List.takeWhile_append_dropWhile
  have hsplit := @ofWords_of_flags Place flags rest hflags hrest
  rw [hwords] at hsplit
  refine ⟨hsplit, fun flags' hsame => ?_⟩
  have hamong : ∀ flag : Flag, flag.Among flags' ↔ flag.Among flags := fun flag => by
    simp only [Flag.Among, hsame]
  rw [hsplit, ofWords_of_flags (fun word hword => hflags word ((hsame word).mp hword)) hrest]
  simp only [hamong]

/-- Eights count before nines however often the flags are given, and the flag behind the number
is no flag. -/
theorem ofWords_split_repeated :
    let words := ["9AGAIN", "8-again", "2", "", "chance"]
    (Request.ofWords words : Except (ParseError Nat) Request) =
        .ok ⟨⟨8, 8⟩, false, "2  chance"⟩ ∧
      (Request.ofWords ("8-again" :: "9AGAIN" :: words) : Except (ParseError Nat) Request) =
        Request.ofWords words := by
  intro words
  obtain ⟨hrequest, hsame⟩ := @ofWords_split Nat words
  have hflags : words.takeWhile (fun word => SpellsFlag word) = ["9AGAIN", "8-again"] := by decide
  refine ⟨hrequest.trans (by decide), ?_⟩
  exact hsame ["8-again", "9AGAIN", "9AGAIN", "8-again"] fun word => by
    rw [hflags]
    simp [or_comm, or_left_comm]

/-! ### Flags behind other words -/

theorem mem_afterFlags {words : List String} {other word : String} (hother : ¬ isFlag other)
    (h : [other, word].Sublist words) : word ∈ afterFlags words := by
  induction words with
  | nil => cases h
  | cons first words ih =>
    by_cases hfirst : isFlag first
    · rw [afterFlags, List.dropWhile_cons_of_pos hfirst]
      rcases List.cons_sublist_cons'.mp h with h | ⟨rfl, -⟩
      · exact ih h
      · exact absurd hfirst hother
    · rw [afterFlags, List.dropWhile_cons_of_neg hfirst]
      exact h.subset (by simp)

theorem mem_intercalate {words : List String} {word : String} {c : Char} (hword : word ∈ words)
    (hc : c ∈ word.toList) : c ∈ (String.intercalate " " words).toList := by
  induction words with
  | nil => cases hword
  | cons first words ih =>
    cases words with
    | nil =>
      obtain rfl := List.mem_singleton.mp hword
      rwa [String.intercalate_singleton]
    | cons next words =>
      rw [String.intercalate_cons_cons, String.toList_append]
      rcases List.mem_cons.mp hword with rfl | hword
      · simp [hc]
      · exact List.mem_append_right _ (ih hword)

theorem eq_of_toLower_eq {c : Char} (h : c.toLower = 'a') : c = 'a' ∨ c = 'A' := by
  unfold Char.toLower at h
  split at h
  · have hval : c.val + 32 = 97 := congrArg Char.val h
    have hc : c.val = 65 := by grind
    exact .inr (Char.ext hc)
  · exact .inl h

/-- No flag can be a part of an expression: each has the letter `a`. -/
theorem SpellsFlag.exists_other {word : String} (h : SpellsFlag word) :
    ∃ c ∈ word.toList, Token.Class.ofChar c = .other := by
  obtain ⟨flag, spelling, hspelling, hlower⟩ := h
  have ha : 'a' ∈ spelling.toList := by
    have hall : ∀ flag : Flag, ∀ spelling ∈ flag.spellings, 'a' ∈ spelling.toList := by
      intro flag
      cases flag <;> decide
    exact hall flag spelling hspelling
  rw [← hlower] at ha
  obtain ⟨c, hc, hca⟩ := List.mem_map.mp ha
  rcases eq_of_toLower_eq hca with rfl | rfl
  · exact ⟨'a', hc, by decide⟩
  · exact ⟨'A', hc, by decide⟩

/-- An expression with a character that has no meaning is refused before anything is thrown. -/
theorem evaluate_unreadable {text : String} {c : Char} (hc : c ∈ text.toList)
    (hother : Token.Class.ofChar c = .other) :
    ∃ lexeme place, ∀ limit, evaluate limit text = .fail (.parse (.unreadable lexeme place)) := by
  obtain ⟨lexeme, offset, hscan⟩ := Token.scan_eq_unreadable (Shorthand.mem_expand hc) hother
  refine ⟨lexeme, Shorthand.locate text.toList offset, fun limit => ?_⟩
  rw [evaluate, Expr.parse, Expr.ofChars, hscan]
  rfl

/-- A flag behind a word that is no flag makes the expression unreadable, and no die is thrown. -/
theorem throw_misplaced_flag (words : List String) (other misplaced : String)
    (horder : [other, misplaced].Sublist words) (hother : ¬ SpellsFlag other)
    (hflag : SpellsFlag misplaced) :
    ∃ lexeme place, ∀ (limit : Nat) {σ : Type} [Source σ] (s : σ),
      (throw limit words).run s = (.error (.parse (.unreadable lexeme place)), s) ∧
        (throw limit words).faces s = [] := by
  obtain ⟨c, hc, hclass⟩ := hflag.exists_other
  have hmem : c ∈ (Request.plain.read words).expression.toList := by
    rw [read_plain]
    exact mem_intercalate (mem_afterFlags (mt isFlag_iff.mp hother) horder) hc
  -- the letter is no blank either, so the request does not fail for want of an expression
  have hblank : ¬ allBlank (Request.plain.read words).expression := by
    intro hall
    have hb := Token.class_eq_blank_iff.mpr (List.all_eq_true.mp hall c hmem)
    cases hclass.symm.trans hb
  obtain ⟨lexeme, place, hevaluate⟩ := evaluate_unreadable hmem hclass
  refine ⟨lexeme, place, fun limit σ _ s => ?_⟩
  have hthrow : throw limit words = .fail (.parse (.unreadable lexeme place)) := by
    rw [throw, Request.ofWords, if_neg fun h => hblank h.1]
    simp only [Except.mapError, Play.ofExcept, Play.done_bind]
    rw [if_neg hblank, hevaluate limit, Play.fail_bind]
  rw [hthrow]
  exact ⟨rfl, rfl⟩

/-- The flag behind the number is not taken for a wish to throw a chance die, although a flag in
front has been read. -/
theorem throw_misplaced_flag_behind_number :
    let words := ["9again", "3", "", "Chance"]
    let s := Script.ofFaces [4]
    ["3", "Chance"].Sublist words ∧ ¬ SpellsFlag "3" ∧ SpellsFlag "Chance" ∧
      (throw 20 words).faces s = [] ∧
      ∃ lexeme place, (throw 20 words).run s = (.error (.parse (.unreadable lexeme place)), s) := by
  intro words s
  have horder : ["3", "Chance"].Sublist words := by decide
  have hother : ¬ SpellsFlag "3" := by decide
  have hflag : SpellsFlag "Chance" := by decide
  obtain ⟨lexeme, place, hthrow⟩ := throw_misplaced_flag words "3" "Chance" horder hother hflag
  obtain ⟨hrun, hfaces⟩ := hthrow 20 s
  exact ⟨horder, hother, hflag, hfaces, lexeme, place, hrun⟩

end Dice.TenPool
