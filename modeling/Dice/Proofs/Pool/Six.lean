import Dice.Pool.Six
import Dice.Proofs.Pool.Hits
import Dice.Source.Script

/-! Pools of six-sided dice that come out. The expression is evaluated first, and its value is
the number of dice that the pool starts with. No more than these can be ones, so when most
dice are ones, fewer dice than these are extra. Main statement: the record of a pool is
consistent, it has no more extra dice than hits, and a glitch bounds the extra dice by the
dice asked for, while a critical one excludes them. -/

namespace Dice.SixPool

variable {σ : Type} [Source σ] {limit : Nat} {s t : σ} {result : SixPool}

/-- The expression is evaluated first, and the dice are thrown from where that leaves the
source. -/
theorem run_throw_eq_ok_iff {text : String} :
    (throw limit text).run s = (.ok result, t) ↔
      ∃ size u pool, (evaluate limit text).run s = (.ok size, u) ∧
        (Pool.throw limit size.value sides rule).run u = (.ok pool, t) ∧
        result = ⟨size, pool, mishapOf pool⟩ := by
  rw [throw, Play.run_bind_eq_ok_iff]
  simp only [Play.run_bind_pure_eq_ok_iff, Play.run_mapError_eq_ok_iff, throwPool]
  constructor
  · rintro ⟨size, u, hsize, pool, hpool, rfl⟩
    exact ⟨size, u, pool, hsize, hpool, rfl⟩
  · rintro ⟨size, u, pool, hsize, hpool, rfl⟩
    exact ⟨size, u, hsize, pool, hpool, rfl⟩

/-! ### Mishaps -/

variable {pool : Pool}

theorem mishapOf_eq_clean_iff :
    mishapOf pool = .clean ↔ 2 * pool.ones ≤ pool.dice.length := by
  unfold mishapOf
  split
  · simp only [true_iff]
    omega
  · split
    all_goals
      simp only [reduceCtorEq, false_iff]
      omega

theorem mishapOf_eq_criticalGlitch_iff :
    mishapOf pool = .criticalGlitch ↔ pool.dice.length < 2 * pool.ones ∧ pool.hits = 0 := by
  unfold mishapOf
  split
  · simp only [reduceCtorEq, false_iff]
    omega
  · split
    all_goals simp [*]
    omega

theorem mishapOf_eq_glitch_iff :
    mishapOf pool = .glitch ↔ pool.dice.length < 2 * pool.ones ∧ 1 ≤ pool.hits := by
  unfold mishapOf
  split
  · simp only [reduceCtorEq, false_iff]
    omega
  · split
    · simp [*]
    · simp only [true_iff]
      omega

/-! ### The record of a pool -/

/-- The record agrees with itself: the pool starts with as many dice as the expression says, its
dice have six sides, and a majority of ones is what makes a mishap. -/
structure Consistent (result : SixPool) : Prop where
  size : 0 ≤ result.size.value
  started : (result.pool.dice.countP fun die => !die.extra) = result.size.value
  rule : result.pool.rule = ⟨5, 6⟩
  faces : ∀ die ∈ result.pool.dice, 1 ≤ die.face ∧ die.face ≤ 6
  extras : result.pool.dice.countP Pool.Die.extra ≤ result.pool.hits
  clean : result.mishap = .clean ↔ 2 * result.pool.ones ≤ result.pool.dice.length

/-- In a critical glitch no die hits, so none explodes. -/
structure OnCritical (result : SixPool) : Prop where
  misses : ∀ die ∈ result.pool.dice, die.face ≠ 5 ∧ die.face ≠ 6
  calm : ∀ die ∈ result.pool.dice, die.extra = false
  whole : result.pool.dice.length = result.size.value

/-- In a glitch something hits, and fewer dice explode than were asked for. -/
structure OnGlitch (result : SixPool) : Prop where
  hits : 1 ≤ result.pool.hits
  extras : result.pool.dice.countP Pool.Die.extra < result.size.value

theorem onCritical (hresult : Consistent result) (h : result.pool.hits = 0) :
    OnCritical result := by
  have hextra : result.pool.dice.countP Pool.Die.extra = 0 := by
    have := hresult.extras
    omega
  have hcalm : ∀ die ∈ result.pool.dice, die.extra = false := by
    simpa [List.countP_eq_zero] using hextra
  refine ⟨fun die hdie => ?_, hcalm, ?_⟩
  · have hmiss := Pool.hits_eq_zero_iff.mp h die hdie
    simp only [hresult.rule] at hmiss
    omega
  · rw [← hresult.started, List.countP_eq_length.mpr (by simpa using hcalm)]

/-- A pool that comes out is recorded as it is, and a glitch says how few of its dice explode. -/
theorem throw_consistent [LawfulSource σ] (text : String)
    (h : (throw limit text).run s = (.ok result, t)) :
    Consistent result ∧ (result.mishap = .criticalGlitch → OnCritical result) ∧
      (result.mishap = .glitch → OnGlitch result) := by
  obtain ⟨size, u, pool, -, hpool, rfl⟩ := run_throw_eq_ok_iff.mp h
  have hfaces := Pool.face_mem_sides hpool
  obtain ⟨n, k, hallow, hcomplete, rfl, -⟩ := Pool.completes_of_run_eq_ok hpool
  obtain ⟨-, hrule, -, hn⟩ := Pool.allow_eq_ok_iff.mp hallow
  have hsize : 0 ≤ size.value := by omega
  have hstarted := congrArg (Nat.cast (R := Int)) hcomplete.shows.started
  have hconsistent : Consistent ⟨size, _, mishapOf _⟩ :=
    { size := hsize
      started := hstarted.trans hn.symm
      rule := rfl
      faces := hfaces
      extras := hcomplete.countP_extra_le_hits (by decide)
      clean := mishapOf_eq_clean_iff }
  refine ⟨hconsistent, fun hcritical => ?_, fun hglitch => ?_⟩
  · exact onCritical hconsistent (mishapOf_eq_criticalGlitch_iff.mp hcritical).2
  · obtain ⟨hmajority, hhits⟩ := mishapOf_eq_glitch_iff.mp hglitch
    refine ⟨hhits, ?_⟩
    have hones := hcomplete.ones_le hrule
    have hlength := hcomplete.length_eq
    simp only at hmajority ⊢
    omega

/-- Four dice, as many as the first face and one more say: the six brings a fifth die, and three of
the five are ones. -/
theorem throw_consistent_glitch :
    let s := Script.ofFaces [3, 1, 1, 6, 1, 2]
    let dice : List Pool.Die := [⟨1, false⟩, ⟨1, false⟩, ⟨6, false⟩, ⟨1, true⟩, ⟨2, false⟩]
    let result : SixPool := ⟨⟨4, "[3] + 1"⟩, ⟨⟨5, 6⟩, dice⟩, .glitch⟩
    LawfulSource Script ∧ (throw 20 "d6 + 1").run s = (.ok result, ⟨s.faces, []⟩) ∧
      Consistent result ∧ OnGlitch result := by
  intro s dice result
  have hrun : (throw 20 "d6 + 1").run s = (.ok result, ⟨s.faces, []⟩) := by decide +kernel
  obtain ⟨hconsistent, -, hglitch⟩ := throw_consistent "d6 + 1" hrun
  exact ⟨inferInstance, hrun, hconsistent, hglitch rfl⟩

end Dice.SixPool
