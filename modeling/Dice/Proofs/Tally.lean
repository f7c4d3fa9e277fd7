import Dice.Proofs.Throws
import Dice.Tally.Basic
import Mathlib.Algebra.BigOperators.Ring.Finset
import Mathlib.Order.Interval.Finset.Nat
import Std.Data.ExtTreeMap.Lemmas

/-! Tallies and their rows. A tally of some values holds each of them with the number of
times that it came up, so it does not depend on their order, and its row can be read back
value by value. Main statement: sampling an expression counts the values of as many
evaluations in succession, and fails where the first of them fails; the row of the tally
begins with the least value and then counts every number up to the greatest, unless these
are too many. -/

namespace Dice.Tally

variable {values others : List Int} {least greatest : Int}

/-! ### Counting -/

theorem getElem?_add (tally : Tally) (value v : Int) :
    (tally.add value).counts[v]? =
      if value = v then some (tally.count v + 1) else tally.counts[v]? := by
  rw [add, Std.ExtTreeMap.getElem?_insert]
  simp only [Std.LawfulEqCmp.compare_eq_iff_eq]
  split
  · next h => rw [h]
  · rfl

theorem count_eq (tally : Tally) (v : Int) : tally.count v = tally.counts[v]?.getD 0 :=
  Std.ExtTreeMap.getD_eq_getD_getElem?

theorem getElem?_foldl_add (tally : Tally) (values : List Int) (v : Int) :
    (values.foldl add tally).counts[v]? =
      if v ∈ values then some (tally.count v + values.count v) else tally.counts[v]? := by
  induction values generalizing tally with
  | nil => simp
  | cons value values ih =>
    rw [List.foldl_cons, ih, count_eq (tally.add value), getElem?_add]
    by_cases hvalue : value = v
    · subst hvalue
      by_cases hmem : value ∈ values
      · simp [hmem, Nat.add_assoc, Nat.add_comm 1]
      · simp [hmem, List.count_eq_zero_of_not_mem hmem]
    · have hne : ¬ v = value := fun h => hvalue h.symm
      by_cases hmem : v ∈ values <;> simp [hvalue, hne, hmem, ← count_eq]

/-- A tally holds the values that came up, each with its count. -/
theorem getElem?_ofList (values : List Int) (v : Int) :
    (ofList values).counts[v]? = if v ∈ values then some (values.count v) else none := by
  rw [ofList, getElem?_foldl_add, count_eq]
  simp [empty]

theorem count_ofList (values : List Int) (v : Int) : (ofList values).count v = values.count v := by
  rw [count_eq, getElem?_ofList]
  split
  · rfl
  · next h => rw [List.count_eq_zero_of_not_mem h]; rfl

theorem mem_ofList {v : Int} : v ∈ (ofList values).counts ↔ v ∈ values := by
  rw [Std.ExtTreeMap.mem_iff_isSome_getElem?, getElem?_ofList]
  split <;> simp_all

/-- Tallies do not see the order of the values, and nothing but their order. -/
theorem ofList_eq_ofList_iff : ofList values = ofList others ↔ values.Perm others := by
  constructor
  · intro h
    refine List.perm_iff_count.mpr fun v => ?_
    rw [← count_ofList, h, count_ofList]
  · intro h
    have hcounts : (ofList values).counts = (ofList others).counts := by
      refine Std.ExtTreeMap.ext_getElem? fun v => ?_
      rw [getElem?_ofList, getElem?_ofList, h.count_eq]
      simp only [h.mem_iff]
    exact congrArg Tally.mk hcounts

theorem minKey?_ofList (values : List Int) : (ofList values).counts.minKey? = values.min? := by
  refine Option.ext fun least => ?_
  rw [Std.ExtTreeMap.minKey?_eq_some_iff_mem_and_forall, List.min?_eq_some_iff]
  simp only [mem_ofList, Int.isLE_compare]

theorem maxKey?_ofList (values : List Int) : (ofList values).counts.maxKey? = values.max? := by
  refine Option.ext fun greatest => ?_
  rw [Std.ExtTreeMap.maxKey?_eq_some_iff_mem_and_forall, List.max?_eq_some_iff]
  simp only [mem_ofList, Int.isLE_compare]

/-! ### Rows -/

theorem mem_bounds (hmin : values.min? = some least) (hmax : values.max? = some greatest) :
    (least ∈ values ∧ greatest ∈ values) ∧ ∀ v ∈ values, least ≤ v ∧ v ≤ greatest := by
  obtain ⟨hleast, hle⟩ := List.min?_eq_some_iff.mp hmin
  obtain ⟨hgreatest, hge⟩ := List.max?_eq_some_iff.mp hmax
  exact ⟨⟨hleast, hgreatest⟩, fun v hv => ⟨hle v hv, hge v hv⟩⟩

theorem exists_bounds (h : values ≠ []) :
    ∃ least greatest, values.min? = some least ∧ values.max? = some greatest := by
  obtain ⟨least, hmin⟩ := Option.ne_none_iff_exists'.mp (mt List.min?_eq_none_iff.mp h)
  obtain ⟨greatest, hmax⟩ := Option.ne_none_iff_exists'.mp (mt List.max?_eq_none_iff.mp h)
  exact ⟨least, greatest, hmin, hmax⟩

theorem row_ofList_nil : (ofList []).row = .ok [] := by
  rw [row, minKey?_ofList, maxKey?_ofList]
  rfl

theorem row_ofList (hmin : values.min? = some least) (hmax : values.max? = some greatest) :
    (ofList values).row =
      if (greatest - least + 1).toNat ≤ widestSpan then
        .ok (least :: (ofList values).countsFrom least (greatest - least + 1).toNat)
      else .error ⟨(greatest - least + 1).toNat⟩ := by
  rw [row, minKey?_ofList, maxKey?_ofList, hmin, hmax]

/-- Fours never came up. -/
example : (ofList [3, 5, 3, 6]).row = .ok [3, 2, 0, 1, 1] := by cbv

theorem length_countsFrom (tally : Tally) (least : Int) (span : Nat) :
    (tally.countsFrom least span).length = span := by
  rw [countsFrom, List.length_map, List.length_range]

theorem getElem?_countsFrom {v : Int} {span : Nat} (hleast : least ≤ v) (hspan : v < least + span) :
    ((ofList values).countsFrom least span)[(v - least).toNat]? = some (values.count v : Int) := by
  have hindex : (v - least).toNat < span := by omega
  have hv : least + ((v - least).toNat : Int) = v := by omega
  rw [countsFrom, List.getElem?_map, List.getElem?_range hindex, Option.map_some, count_ofList, hv]

/-- The counts of numbers among which all values are add up to the number of values. -/
theorem sum_countsFrom {span : Nat} (h : ∀ v ∈ values, least ≤ v ∧ v < least + span) :
    ((ofList values).countsFrom least span).sum = values.length := by
  have hinj : Set.InjOn (fun i : Nat => least + (i : Int)) (Finset.range span) := by
    intro i _ j _ hij
    simpa using hij
  have hmem : ∀ v ∈ (values : Multiset Int),
      v ∈ (Finset.range span).image fun i : Nat => least + (i : Int) := by
    intro v hv
    obtain ⟨hleast, hspan⟩ := h v (Multiset.mem_coe.mp hv)
    exact Finset.mem_image.mpr ⟨(v - least).toNat, Finset.mem_range.mpr (by omega), by omega⟩
  have hcard := Multiset.sum_count_eq_card hmem
  rw [Finset.sum_image hinj] at hcard
  simp only [Multiset.coe_count, Multiset.coe_card] at hcard
  rw [countsFrom, ← List.sum_toFinset _ List.nodup_range, List.toFinset_range]
  simp only [count_ofList]
  exact_mod_cast hcard

/-- The row begins with the least value, and behind it counts every number from there to the
greatest value. The counts add up to the number of values, and neither the first nor the
last of them is zero. -/
structure Lists (values : List Int) (least greatest : Int) (row : List Int) : Prop where
  length : (row.length : Int) = greatest - least + 2
  first : row[0]? = some least
  counts : ∀ v, least ≤ v → v ≤ greatest →
    row[(1 + v - least).toNat]? = some (values.count v : Int)
  sum : row.tail.sum = values.length
  second : ∃ n ∈ row[1]?, 1 ≤ n
  last : ∃ n ∈ row.getLast?, 1 ≤ n

theorem lists_countsFrom (hmin : values.min? = some least) (hmax : values.max? = some greatest) :
    Lists values least greatest
      (least :: (ofList values).countsFrom least (greatest - least + 1).toNat) := by
  obtain ⟨⟨hleast, hgreatest⟩, hbounds⟩ := mem_bounds hmin hmax
  have hle : least ≤ greatest := (hbounds least hleast).2
  set span := (greatest - least + 1).toNat with hspan
  have hlength := length_countsFrom (ofList values) least span
  have hcounts : ∀ v, least ≤ v → v ≤ greatest →
      (least :: (ofList values).countsFrom least span)[(1 + v - least).toNat]? =
        some (values.count v : Int) := by
    intro v hv hv'
    have hindex : (1 + v - least).toNat = (v - least).toNat + 1 := by omega
    rw [hindex, List.getElem?_cons_succ, getElem?_countsFrom hv (by omega)]
  refine ⟨?_, rfl, hcounts, ?_, ?_, ?_⟩
  · rw [List.length_cons, hlength]
    omega
  · exact sum_countsFrom fun v hv => ⟨(hbounds v hv).1, by have := (hbounds v hv).2; omega⟩
  · have hone : (1 + least - least).toNat = 1 := by omega
    have hsecond := hcounts least (Int.le_refl least) hle
    rw [hone] at hsecond
    exact ⟨_, hsecond, by exact_mod_cast List.count_pos_iff.mpr hleast⟩
  · have hend : (1 + greatest - least).toNat =
        (least :: (ofList values).countsFrom least span).length - 1 := by
      rw [List.length_cons, hlength]
      omega
    have hlast := hcounts greatest hle (Int.le_refl greatest)
    rw [hend, ← List.getLast?_eq_getElem?] at hlast
    exact ⟨_, hlast, by exact_mod_cast List.count_pos_iff.mpr hgreatest⟩

/-- The count of a value, read off a row. -/
def countIn (row : List Int) (v : Int) : Int :=
  match row with
  | [] => 0
  | least :: counts => if v < least then 0 else counts[(v - least).toNat]?.getD 0

theorem countIn_of_row {row : List Int} (h : (ofList values).row = .ok row) (v : Int) :
    countIn row v = values.count v := by
  by_cases hne : values = []
  · subst hne
    obtain rfl : [] = row := Except.ok.inj (row_ofList_nil.symm.trans h)
    rfl
  · obtain ⟨least, greatest, hmin, hmax⟩ := exists_bounds hne
    obtain ⟨-, hbounds⟩ := mem_bounds hmin hmax
    rw [row_ofList hmin hmax] at h
    split at h
    · obtain rfl := Except.ok.inj h
      have habsent : ¬ (least ≤ v ∧ v ≤ greatest) → values.count v = 0 := fun hv =>
        List.count_eq_zero_of_not_mem fun hmem => hv (hbounds v hmem)
      by_cases hlow : v < least
      · rw [countIn, if_pos hlow, habsent (by omega)]
        rfl
      · rw [countIn, if_neg hlow]
        by_cases hhigh : v ≤ greatest
        · rw [getElem?_countsFrom (by omega) (by omega)]
          rfl
        · rw [List.getElem?_eq_none (by rw [length_countsFrom]; omega), habsent (by omega)]
          rfl
    · cases h

/-- What the row of some values is, and what it says about them. -/
structure Rows (values : List Int) : Prop where
  nil : values = [] → (ofList values).row = .ok []
  wide : ∀ least greatest, values.min? = some least → values.max? = some greatest →
    ∀ error, (ofList values).row = .error error ↔
      1000000 < greatest - least + 1 ∧ error.span = greatest - least + 1
  narrow : ∀ least greatest, values.min? = some least → values.max? = some greatest →
    greatest - least + 1 ≤ 1000000 →
    ∃ row, (ofList values).row = .ok row ∧ Lists values least greatest row
  unordered : ∀ others, values.Perm others → ofList others = ofList values
  injective : ∀ others row, (ofList values).row = .ok row → (ofList others).row = .ok row →
    ofList others = ofList values

theorem rows (values : List Int) : Rows values where
  nil h := h ▸ row_ofList_nil
  wide least greatest hmin hmax error := by
    obtain ⟨⟨hleast, -⟩, hbounds⟩ := mem_bounds hmin hmax
    have hle : least ≤ greatest := (hbounds least hleast).2
    rw [row_ofList hmin hmax]
    obtain ⟨span⟩ := error
    split
    · next h =>
      rw [widestSpan] at h
      simp only [reduceCtorEq, false_iff]
      omega
    · next h =>
      rw [widestSpan] at h
      simp only [Except.error.injEq, SpanTooWide.mk.injEq]
      omega
  narrow least greatest hmin hmax h := by
    have hspan : (greatest - least + 1).toNat ≤ widestSpan := by
      rw [widestSpan]
      omega
    exact ⟨_, by rw [row_ofList hmin hmax, if_pos hspan], lists_countsFrom hmin hmax⟩
  unordered others h := ofList_eq_ofList_iff.mpr h.symm
  injective others row h h' := by
    refine ofList_eq_ofList_iff.mpr (List.perm_iff_count.mpr fun v => ?_)
    have hcount := (countIn_of_row h' v).symm.trans (countIn_of_row h v)
    exact_mod_cast hcount

/-! ### Sampling -/

section Sampling

variable {σ : Type} [Source σ] {limit : Nat} {expr : Expr .sum}

/-- Evaluations in succession, each with the source that the one before has left, result in the
values and leave the last source. -/
inductive Evaluations (limit : Nat) (expr : Expr .sum) : σ → List Int → σ → Prop where
  | nil (s : σ) : Evaluations limit expr s [] s
  | cons {s t u : σ} {outcome : Outcome} {values : List Int}
      (h : (expr.eval limit).run s = (.ok outcome, t)) (hrest : Evaluations limit expr t values u) :
      Evaluations limit expr s (outcome.value :: values) u

theorem run_sample_eq_ok_iff {samples : Nat} {tally tally' : Tally} {s t : σ} :
    (sample limit expr samples tally).run s = (.ok tally', t) ↔
      ∃ values, Evaluations limit expr s values t ∧ values.length = samples ∧
        tally' = values.foldl add tally := by
  induction samples generalizing tally s with
  | zero =>
    constructor
    · intro h
      cases h
      exact ⟨[], .nil _, rfl, rfl⟩
    · rintro ⟨values, hvalues, hlength, rfl⟩
      obtain rfl := List.eq_nil_of_length_eq_zero hlength
      cases hvalues
      rfl
  | succ samples ih =>
    rw [sample, Play.run_bind_eq_ok_iff]
    simp only [ih]
    constructor
    · rintro ⟨outcome, u, hfirst, values, hrest, rfl, rfl⟩
      exact ⟨outcome.value :: values, .cons hfirst hrest, rfl, rfl⟩
    · rintro ⟨values, hvalues, hlength, rfl⟩
      cases hvalues with
      | nil => cases hlength
      | cons hfirst hrest => exact ⟨_, _, hfirst, _, hrest, Nat.succ.inj hlength, rfl⟩

theorem run_sample_eq_error_iff {samples : Nat} {tally : Tally} {error : EvalError} {s t : σ} :
    (sample limit expr samples tally).run s = (.error error, t) ↔
      ∃ values u, Evaluations limit expr s values u ∧ values.length < samples ∧
        (expr.eval limit).run u = (.error error, t) := by
  induction samples generalizing tally s with
  | zero =>
    constructor
    · intro h
      cases h
    · rintro ⟨values, u, -, hlength, -⟩
      cases hlength
  | succ samples ih =>
    rw [sample, Play.run_bind_eq_error_iff]
    simp only [ih]
    constructor
    · rintro (hfirst | ⟨outcome, u, hfirst, values, v, hrest, hlength, herror⟩)
      · exact ⟨[], s, .nil s, Nat.succ_pos samples, hfirst⟩
      · exact ⟨outcome.value :: values, v, .cons hfirst hrest, Nat.succ_lt_succ hlength, herror⟩
    · rintro ⟨values, v, hvalues, hlength, herror⟩
      cases hvalues with
      | nil => exact .inl herror
      | cons hfirst hrest =>
        exact .inr ⟨_, _, hfirst, _, v, hrest, Nat.lt_of_succ_lt_succ hlength, herror⟩

/-- Sampling an expression succeeds exactly if as many evaluations in succession do, and then gives
the tally of their values; it fails exactly as the first of them that fails. Either way it
leaves the source as they do. The row of a tally is that of its values in any order: their
counts from the least to the greatest, unless these lie too far apart. -/
theorem sample_counts (limit : Nat) (expr : Expr .sum) (samples : Nat) (s : σ) :
    let run := (sample limit expr samples empty).run s
    (∀ tally t, run = (.ok tally, t) ↔
      ∃ values, Evaluations limit expr s values t ∧ values.length = samples ∧
        tally = ofList values) ∧
    (∀ error t, run = (.error error, t) ↔
      ∃ values u, Evaluations limit expr s values u ∧ values.length < samples ∧
        (expr.eval limit).run u = (.error error, t)) ∧
    ∀ values, Rows values :=
  ⟨fun _ _ => run_sample_eq_ok_iff, fun _ _ => run_sample_eq_error_iff, rows⟩

end Sampling

end Dice.Tally
