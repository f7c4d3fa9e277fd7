import Dice.CommandLine.Directory
import Dice.CommandLine.Run
import Dice.Proofs.Expr.Expansion
import Dice.Proofs.Npy
import Dice.Proofs.Tally

/-! Stored tallies. Every value that comes up is a word, and so is every count of as many
evaluations as a request may ask for, so the row of a tally can be read back from its
file. Main statement: the file of a sampled tally determines the tally, and a tally that is
too wide for a row leaves no file. -/

namespace Dice

/-! ### Values are words -/

theorem Roll.fits_of_foldlM {faces : List Int} {sum total : Int} (hsum : Word.Fits sum)
    (h : faces.foldlM (fun sum face => Word.ofInt? (sum + face)) sum = some total) :
    Word.Fits total := by
  induction faces generalizing sum with
  | nil =>
    cases h
    exact hsum
  | cons face faces ih =>
    rw [List.foldlM_cons] at h
    obtain ⟨next, hnext, hrest⟩ := Option.bind_eq_some_iff.mp h
    obtain ⟨hfits, rfl⟩ := Word.ofInt?_eq_some_iff.mp hnext
    exact ih hfits hrest

theorem Roll.fits_of_total? {roll : Roll} {total : Int} (h : roll.total? = some total) :
    Word.Fits total :=
  fits_of_foldlM (by decide) h

section Values

variable {σ : Type} [Source σ] {limit : Nat}

theorem fits_of_rollTerm {term : String} {count sides : Int} {s t : σ} {outcome : Outcome}
    (h : (rollTerm limit term count sides).run s = (.ok outcome, t)) : Word.Fits outcome.value := by
  obtain ⟨roll, u, -, h⟩ := Play.run_bind_eq_ok_iff.mp h
  cases htotal : roll.total? with
  | none =>
    rw [htotal] at h
    cases h
  | some total =>
    rw [htotal] at h
    cases h
    exact Roll.fits_of_total? htotal

theorem Expr.fits_of_eval {level : Level} {e : Expr level}
    (hwords : ∀ n ∈ e.constants, Word.Fits n) {s t : σ} {outcome : Outcome}
    (h : (e.eval limit).run s = (.ok outcome, t)) : Word.Fits outcome.value := by
  induction e generalizing s t outcome with
  | ofProduct product ih => exact ih hwords h
  | ofFactor factor ih => exact ih hwords h
  | ofValue value ih => exact ih hwords h
  | additive left op right _ _ =>
    obtain ⟨a, u, -, h⟩ := Play.run_bind_eq_ok_iff.mp h
    obtain ⟨b, v, -, h⟩ := Play.run_bind_eq_ok_iff.mp h
    rw [Play.run_ofExcept] at h
    obtain ⟨hsound, rfl⟩ := AddOp.apply_eq_ok_iff.mp (congrArg Prod.fst h)
    exact hsound.2
  | multiplicative left op right _ _ =>
    obtain ⟨a, u, -, h⟩ := Play.run_bind_eq_ok_iff.mp h
    obtain ⟨b, v, -, h⟩ := Play.run_bind_eq_ok_iff.mp h
    rw [Play.run_ofExcept] at h
    obtain ⟨hsound, rfl⟩ := MulOp.apply_eq_ok_iff.mp (congrArg Prod.fst h)
    exact hsound.2
  | dice count sides _ _ =>
    obtain ⟨a, u, -, h⟩ := Play.run_bind_eq_ok_iff.mp h
    obtain ⟨b, v, -, h⟩ := Play.run_bind_eq_ok_iff.mp h
    exact fits_of_rollTerm h
  | const n =>
    cases h
    exact hwords n (by simp [constants])
  | paren inner ih =>
    obtain ⟨a, u, ha, h⟩ := Play.run_bind_eq_ok_iff.mp h
    cases h
    exact (ih hwords ha : Word.Fits a.value)

end Values

namespace Tally

section Evaluations

variable {σ : Type} [Source σ] {limit : Nat} {expr : Expr .sum}

theorem Evaluations.fits (hwords : ∀ n ∈ expr.constants, Word.Fits n) {s t : σ}
    {values : List Int} (h : Evaluations limit expr s values t) : ∀ v ∈ values, Word.Fits v := by
  induction h with
  | nil s => simp
  | cons hfirst _ ih =>
    exact List.forall_mem_cons.mpr ⟨Expr.fits_of_eval hwords hfirst, ih⟩

end Evaluations

/-! ### Rows of words -/

/-- How many numbers there are from the least to the greatest result. -/
def span (tally : Tally) : Nat :=
  match tally.counts.minKey?, tally.counts.maxKey? with
  | some least, some greatest => (greatest - least + 1).toNat
  | _, _ => 0

theorem span_ofList {values : List Int} {least greatest : Int} (hmin : values.min? = some least)
    (hmax : values.max? = some greatest) :
    (ofList values).span = (greatest - least + 1).toNat := by
  rw [span, minKey?_ofList, maxKey?_ofList, hmin, hmax]

theorem row_eq (tally : Tally) : (tally.row = .ok [] ∧ tally.span = 0) ∨
    ∃ least, tally.row = if tally.span ≤ widestSpan
      then .ok (least :: tally.countsFrom least tally.span) else .error ⟨tally.span⟩ := by
  unfold row span
  cases tally.counts.minKey? with
  | none => exact .inl ⟨rfl, rfl⟩
  | some least =>
    cases tally.counts.maxKey? with
    | none => exact .inl ⟨rfl, rfl⟩
    | some greatest => exact .inr ⟨least, rfl⟩

theorem exists_row {tally : Tally} (h : tally.span ≤ widestSpan) :
    ∃ row, tally.row = .ok row ∧ row.length ≤ widestSpan + 1 := by
  rcases row_eq tally with ⟨hrow, -⟩ | ⟨least, hrow⟩
  · exact ⟨[], hrow, Nat.zero_le _⟩
  · rw [if_pos h] at hrow
    refine ⟨_, hrow, ?_⟩
    rw [List.length_cons, length_countsFrom]
    exact Nat.succ_le_succ h

theorem row_of_wide {tally : Tally} (h : widestSpan < tally.span) :
    tally.row = .error ⟨tally.span⟩ := by
  rcases row_eq tally with ⟨-, hspan⟩ | ⟨least, hrow⟩
  · omega
  · rw [hrow, if_neg (Nat.not_le.mpr h)]

variable {values row : List Int}

/-- The least value is a word, and no count is greater than the number of values. -/
theorem fits_of_mem_row (hvalues : ∀ v ∈ values, Word.Fits v)
    (hlength : values.length < UInt32.size) (h : (ofList values).row = .ok row) :
    ∀ n ∈ row, Word.Fits n := by
  by_cases hne : values = []
  · subst hne
    obtain rfl : [] = row := Except.ok.inj (row_ofList_nil.symm.trans h)
    simp
  · obtain ⟨least, greatest, hmin, hmax⟩ := exists_bounds hne
    rw [row_ofList hmin hmax] at h
    split at h
    · cases h
      refine List.forall_mem_cons.mpr ⟨hvalues least (mem_bounds hmin hmax).1.1, fun n hn => ?_⟩
      obtain ⟨i, -, rfl⟩ := List.mem_map.mp hn
      have hcount := (values.count_le_length : values.count (least + i) ≤ values.length)
      rw [count_ofList]
      simp only [Word.Fits, Word.least, Word.greatest, UInt32.size] at *
      omega
    · cases h

/-! ### Reading rows back -/

/-- Every number from `least` on, as often as it was counted. -/
def repeated (least : Int) : (counts : List Int) → List Int
  | [] => []
  | count :: counts => List.replicate count.toNat least ++ repeated (least + 1) counts

theorem count_repeated (least v : Int) (counts : List Int) : (repeated least counts).count v =
    if v < least then 0 else (counts[(v - least).toNat]?.getD 0).toNat := by
  induction counts generalizing least with
  | nil => simp [repeated]
  | cons count counts ih =>
    rw [repeated, List.count_append, List.count_replicate, ih]
    rcases Int.lt_trichotomy v least with hlow | rfl | hhigh
    · have hne : ¬ (least == v) := by simp [Int.ne_of_gt hlow]
      rw [if_neg hne, if_pos (by omega : v < least + 1), if_pos hlow]
    · simp
    · have hne : ¬ (least == v) := by simp [Int.ne_of_lt hhigh]
      have hindex : (v - least).toNat = (v - (least + 1)).toNat + 1 := by omega
      rw [if_neg hne, if_neg (by omega : ¬ v < least + 1), if_neg (by omega : ¬ v < least), hindex,
        List.getElem?_cons_succ, Nat.zero_add]

/-- The results that a row counts. -/
def results : (row : List Int) → List Int
  | [] => []
  | least :: counts => repeated least counts

theorem count_results (row : List Int) (v : Int) :
    (results row).count v = (countIn row v).toNat := by
  cases row with
  | nil => rfl
  | cons least counts =>
    rw [results, count_repeated, countIn]
    split <;> rfl

/-- The tally whose row this is. -/
def ofRow (row : List Int) : Tally := ofList (results row)

/-- A tally is read back from its row. -/
theorem ofRow_of_row (h : (ofList values).row = .ok row) : ofRow row = ofList values :=
  ofList_eq_ofList_iff.mpr (List.perm_iff_count.mpr fun v => by
    rw [count_results, countIn_of_row h, Int.toNat_natCast])

/-- The bytes say everything about the tally whose row they hold. -/
structure Tells (row : List Int) (bytes : List UInt8) (tally : Tally) : Prop where
  dense : tally.row = .ok row
  length : bytes.length = 96 + 8 * row.length
  shape : Npy.shape? bytes = some row.length
  decode : Npy.decode? bytes = some row
  recover : ofRow row = tally

theorem length_dictionary_lt {length : Nat} (h : length ≤ widestSpan + 1) :
    (Npy.dictionary length).length < Npy.headerLength := by
  have hlt : length < 10 ^ 7 := Nat.lt_of_le_of_lt h (by decide)
  have hdigits := Nat.toDigits_length 10 length 7 (by decide) hlt
  rw [Npy.length_dictionary, Npy.headerLength]
  omega

theorem tells_encode (hvalues : ∀ v ∈ values, Word.Fits v) (hlength : values.length < UInt32.size)
    (h : (ofList values).row = .ok row) (hrow : row.length ≤ widestSpan + 1) :
    Tells row (Npy.encode row) (ofList values) where
  dense := h
  length := Npy.length_encode (length_dictionary_lt hrow)
  shape := Npy.shape?_encode (length_dictionary_lt hrow)
  decode := Npy.decode?_encode (length_dictionary_lt hrow) (fits_of_mem_row hvalues hlength h)
  recover := ofRow_of_row h

end Tally

namespace CommandLine

/-! ### Files -/

section Delivery

variable {δ : Type} [Disk δ] {disk after : δ} {path : String} {bytes : List UInt8}

theorem deliver_of_ok (h : Disk.writeBytes disk path bytes = (.ok (), after)) :
    (deliver (.file path bytes) : StateM δ Ending).run disk = (.stored, after) := by
  have hdisk : (MonadDisk.writeBytes path bytes : StateM δ _).run disk = (.ok (), after) := h
  rw [deliver, StateT.run_bind, hdisk]
  rfl

theorem deliver_of_error {error : DiskError}
    (h : Disk.writeBytes disk path bytes = (.error error, after)) :
    (deliver (.file path bytes) : StateM δ Ending).run disk =
      (.failed (.unwritable error), after) := by
  have hdisk : (MonadDisk.writeBytes path bytes : StateM δ _).run disk = (.error error, after) := h
  rw [deliver, StateT.run_bind, hdisk]
  rfl

end Delivery

variable {directory : Directory} {path : String} {tally : Tally} {row : List Int}

/-- Stores a tally in the file to which the path leads. -/
def store (path : String) (tally : Tally) : StateM Directory Ending :=
  conclude (Product.ofTally path tally)

theorem store_of_row (h : tally.row = .ok row) :
    store path tally = deliver (.file path (Npy.encode row)) := by
  rw [store, Product.ofTally, h]
  rfl

theorem store_of_wide {error : SpanTooWide} (h : tally.row = .error error) :
    (store path tally).run directory = (.failed (.spanTooWide error), directory) := by
  rw [store, Product.ofTally, h]
  rfl

/-- A tally of evaluations of an expression whose numbers are words, of which a request counts
fewer than there are words of 32 bits. Up to a million results from the least to the greatest,
its file has 96 bytes and eight more for every number of its row, declares how many numbers
these are, and is read back as the row and the row as the tally; it is written where the path
leads, if it leads anywhere. A wider tally is refused, and nothing is written. -/
theorem store_tally {σ : Type} [Source σ] {limit : Nat} {expr : Expr .sum} {samples : Nat}
    {s t : σ} (hwords : ∀ n ∈ expr.constants, Word.Fits n) (hsamples : samples < UInt32.size)
    (h : (Tally.sample limit expr samples .empty).run s = (.ok tally, t)) :
    (tally.span ≤ 1000000 → ∃ row bytes, Tally.Tells row bytes tally ∧ ∀ path directory,
      (∀ location, Directory.destination directory path = .ok location →
        (store path tally).run directory = (.stored, { directory with
          written := (location, bytes) :: directory.written.filter (·.1 ≠ location) })) ∧
      ∀ error, Directory.destination directory path = .error error →
        (store path tally).run directory = (.failed (.unwritable error), directory)) ∧
    (1000000 < tally.span → ∀ path directory,
      (store path tally).run directory = (.failed (.spanTooWide ⟨tally.span⟩), directory)) := by
  obtain ⟨values, hvalues, rfl, rfl⟩ := Tally.run_sample_eq_ok_iff.mp h
  constructor
  · intro hspan
    obtain ⟨row, hrow, hlength⟩ := Tally.exists_row hspan
    refine ⟨row, Npy.encode row, Tally.tells_encode (hvalues.fits hwords) hsamples hrow hlength,
      fun path directory => ⟨fun location hlocation => ?_, fun error herror => ?_⟩⟩
    · rw [store_of_row hrow, deliver_of_ok (Directory.write_of_ok hlocation)]
    · rw [store_of_row hrow, deliver_of_error (Directory.write_of_error herror)]
  · intro hspan path directory
    exact store_of_wide (Tally.row_of_wide hspan)

/-- With fours to take off, results are negative; and a die with two million sides spans too
many results. -/
theorem store_tally_negative :
    let expr : Expr .sum := .additive (.ofProduct (.ofFactor (.dice (.const 1) (.const 6)))) .sub
      (.ofFactor (.ofValue (.const 4)))
    let large : Expr .sum := .ofProduct (.ofFactor (.dice (.const 1) (.const 2000000)))
    let tally := Tally.ofList [-3, 2, -3]
    let wide := Tally.ofList [1, 2000000]
    let s := Script.ofFaces [1, 6]
    let s' := Script.ofFaces [1, 2000000]
    let place : Location := ⟨.inside [], "rolls.npy"⟩
    (∀ n ∈ expr.constants ++ large.constants, Word.Fits n) ∧ 3 < UInt32.size ∧
      ((Tally.sample 10 expr 3 .empty).run s).1 = .ok tally ∧
      ((Tally.sample 10 large 2 .empty).run s').1 = .ok wide ∧
      tally.span = 6 ∧ wide.span = 2000000 ∧
      (∃ row bytes, Tally.Tells row bytes tally ∧
        (store "rolls.npy" tally).run ⟨[], []⟩ = (.stored, ⟨[], [(place, bytes)]⟩)) ∧
      (store "rolls.npy" wide).run ⟨[], []⟩ = (.failed (.spanTooWide ⟨2000000⟩), ⟨[], []⟩) := by
  intro expr large tally wide s s' place
  have hnumbers : ∀ n ∈ expr.constants ++ large.constants, Word.Fits n := by decide
  have hboth := List.forall_mem_append.mp hnumbers
  have hrun : (Tally.sample 10 expr 3 .empty).run s = (.ok tally, ⟨[1, 6], [6]⟩) := rfl
  have hwide : (Tally.sample 10 large 2 .empty).run s' = (.ok wide, ⟨[1, 2000000], []⟩) := rfl
  have hspan : tally.span = 6 :=
    Tally.span_ofList (rfl : [-3, 2, -3].min? = some (-3)) (rfl : [-3, 2, -3].max? = some 2)
  have hspan' : wide.span = 2000000 := by
    have h := Tally.span_ofList (rfl : [1, 2000000].min? = some (1 : Int)) rfl
    rw [h]
    rfl
  have hplace : Directory.destination ⟨[], []⟩ "rolls.npy" = .ok place := rfl
  refine ⟨hnumbers, by decide, congrArg Prod.fst hrun, congrArg Prod.fst hwide, hspan, hspan',
    ?_, ?_⟩
  · obtain ⟨row, bytes, htells, hstored⟩ :=
      (store_tally hboth.1 (by decide) hrun).1 (by rw [hspan]; decide)
    exact ⟨row, bytes, htells, (hstored _ _).1 place hplace⟩
  · have h := (store_tally hboth.2 (by decide) hwide).2 (by rw [hspan']; decide)
    rw [hspan'] at h
    exact h _ _

end CommandLine

end Dice
