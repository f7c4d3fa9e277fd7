import Dice.Proofs.Pool.Flags
import Dice.Proofs.Pool.Hits
import Dice.Source.Script

/-! Pools of ten-sided dice that come out. The expression of a request is evaluated first, on
the same source, and its value together with the chance flag decides between the pool and the
chance die. Main statement: the result is that of a single die that cannot explode, whatever
the again flags say, or that of a pool with as many chains as the value, under the rule of
the flags and with no fewer hits than extra dice. -/

namespace Dice.TenPool

open Text (allBlank)

variable {σ : Type} [Source σ] {limit : Nat} {s t : σ} {result : TenPool}

/-! ### The steps of a request -/

/-- Evaluates the expression of a request, unless it is left out. -/
def measure (limit : Nat) (expression : String) : Play Failure (Option Outcome) :=
  if allBlank expression then .done none
  else do return some (← evaluate limit expression)

/-- The number of dice asked for. -/
def sizeOf (expression : Option Outcome) : Int := expression.elim 0 Outcome.value

theorem throw_eq (limit : Nat) (words : List String) :
    throw limit words = (do
      let request ← Play.ofExcept ((Request.ofWords words).mapError .parse)
      let expression ← measure limit request.expression
      throwRequest limit request expression) := by
  rw [throw]
  congr 1
  funext request
  rw [measure]
  split
  · rfl
  · simp

/-- A request that comes out has an expression or the chance flag. -/
theorem ofWords_eq_ok_iff {words : List String} {request : Request} :
    (Request.ofWords words).mapError Failure.parse = .ok request ↔
      ¬ (allBlank (Request.plain.read words).expression ∧
        (Request.plain.read words).chance = false) ∧ Request.plain.read words = request := by
  rw [Request.ofWords]
  split
  · next h => simp [Except.mapError, h]
  · next h => simp [Except.mapError, h]

/-- The expression is evaluated first, and the dice are thrown from where that leaves the
source. -/
theorem run_throw_eq_ok_iff {words : List String} :
    (throw limit words).run s = (.ok result, t) ↔
      ¬ (allBlank (Request.plain.read words).expression ∧
        (Request.plain.read words).chance = false) ∧
      ∃ expression u, (measure limit (Request.plain.read words).expression).run s =
          (.ok expression, u) ∧
        (throwRequest limit (Request.plain.read words) expression).run u = (.ok result, t) := by
  rw [throw_eq, Play.run_ofExcept_bind_eq_ok_iff]
  simp only [ofWords_eq_ok_iff, Play.run_bind_eq_ok_iff]
  constructor
  · rintro ⟨request, ⟨hcheck, rfl⟩, hrun⟩
    exact ⟨hcheck, hrun⟩
  · rintro ⟨hcheck, hrun⟩
    exact ⟨_, ⟨hcheck, rfl⟩, hrun⟩

theorem run_throwRequest_of_chance {request : Request} {expression : Option Outcome}
    (h : request.chance ∨ sizeOf expression < 1) :
    (throwRequest limit request expression).run s = (.ok result, t) ↔
      ∃ pool, (Pool.throw limit 1 sides chanceRule).run s = (.ok pool, t) ∧
        result = ⟨sizeOf expression, expression, true, pool, mishapOfChance pool⟩ := by
  have hthrow : throwRequest limit request expression = (do
      let pool ← (Pool.throw limit 1 sides chanceRule).mapError .refused
      return ⟨sizeOf expression, expression, true, pool, mishapOfChance pool⟩) := if_pos h
  rw [hthrow, Play.run_bind_pure_eq_ok_iff]
  simp only [Play.run_mapError_eq_ok_iff]

theorem run_throwRequest_of_pool {request : Request} {expression : Option Outcome}
    (h : ¬ (request.chance ∨ sizeOf expression < 1)) :
    (throwRequest limit request expression).run s = (.ok result, t) ↔
      ∃ pool, (Pool.throw limit (sizeOf expression) sides request.rule).run s = (.ok pool, t) ∧
        result = ⟨sizeOf expression, expression, false, pool, .clean⟩ := by
  have hthrow : throwRequest limit request expression = (do
      let pool ← (Pool.throw limit (sizeOf expression) sides request.rule).mapError .refused
      return ⟨sizeOf expression, expression, false, pool, .clean⟩) := if_neg h
  rw [hthrow, Play.run_bind_pure_eq_ok_iff]
  simp only [Play.run_mapError_eq_ok_iff]

/-! ### The chance die -/

/-- One die is thrown, since no side of it explodes. -/
theorem eq_chance_of_run_eq_ok [LawfulSource σ] {pool : Pool}
    (h : (Pool.throw limit 1 sides chanceRule).run s = (.ok pool, t)) :
    ∃ face, pool = ⟨chanceRule, [⟨face, false⟩]⟩ := by
  obtain ⟨n, k, hallow, hcomplete, rfl, -⟩ := Pool.completes_of_run_eq_ok h
  obtain ⟨-, -, -, hone⟩ := Pool.allow_eq_ok_iff.mp hallow
  have hcalm : ∀ face ∈ Source.faces sides k s, face < chanceRule.explodeOn := by
    intro face hface
    have hside : face ≤ sides := Source.le_sides_of_mem_faces (by decide) hface
    exact Int.lt_of_le_of_lt hside (by decide)
  have hlength : (Source.faces sides k s).length = 1 := by
    rw [← Pool.Rule.settled_of_calm hcalm, hcomplete.settled]
    omega
  obtain ⟨face, hfaces⟩ := List.length_eq_one_iff.mp hlength
  exact ⟨face, by rw [hfaces]; rfl⟩

/-- The result of a chance die. -/
structure OnChance (result : TenPool) (face : Int) : Prop where
  pool : result.pool = ⟨⟨10, 11⟩, [⟨face, false⟩]⟩
  hits : result.pool.hits = if face = 10 then 1 else 0
  mishap : result.mishap = if face = 1 then .criticalGlitch else .clean

theorem onChance {expression : Option Outcome} {size face : Int} (hface : face ≤ 10) :
    OnChance ⟨size, expression, true, ⟨chanceRule, [⟨face, false⟩]⟩,
      mishapOfChance ⟨chanceRule, [⟨face, false⟩]⟩⟩ face where
  pool := rfl
  hits := by
    by_cases h : face = 10
    · subst h
      rfl
    · have hmiss : ¬ 10 ≤ face := by omega
      simp [Pool.hits, chanceRule, h, hmiss]
  mishap := rfl

/-! ### The pool -/

/-- The result of a pool under the flags. -/
structure OnPool (result : TenPool) (flags : List Flag) : Prop where
  size : 1 ≤ result.size
  started : (result.pool.dice.countP fun die => !die.extra) = result.size
  rule : result.pool.rule =
    ⟨8, if .eightAgain ∈ flags then 8 else if .nineAgain ∈ flags then 9 else 10⟩
  extras : result.pool.dice.countP Pool.Die.extra ≤ result.pool.hits
  mishap : result.mishap = .clean

theorem onPool {flags : List Flag} {expression : Option Outcome} {size : Int} {pool : Pool}
    (hsize : 1 ≤ size)
    (h : (Pool.throw limit size sides ⟨8, lowered flags 10⟩).run s = (.ok pool, t)) :
    OnPool ⟨size, expression, false, pool, .clean⟩ flags := by
  obtain ⟨n, k, hallow, hcomplete, rfl, -⟩ := Pool.completes_of_run_eq_ok h
  obtain ⟨-, -, -, hn⟩ := Pool.allow_eq_ok_iff.mp hallow
  have hpass : 8 ≤ lowered flags 10 := by
    rw [lowered]
    split
    · decide
    · split <;> decide
  refine ⟨hsize, ?_, ?_, hcomplete.countP_extra_le_hits hpass, rfl⟩
  · rw [hn]
    exact congrArg Nat.cast hcomplete.shows.started
  · simp [lowered]

/-- The chance die is thrown exactly if a leading flag asks for it or no dice are asked for. Then
one die comes out, and leaving out the leading again flags changes neither the result nor the
source behind it. Otherwise a pool comes out as the flags say. The faces are always those of
ten-sided dice. -/
theorem throw_result [LawfulSource σ] (words : List String)
    (h : (throw limit words).run s = (.ok result, t)) :
    (result.chance = true ↔ .chance ∈ leadingFlags words ∨ result.size < 1) ∧
    (result.chance = true → (∃ face, OnChance result face) ∧
      (throw limit (withoutAgain words)).run s = (.ok result, t)) ∧
    (result.chance = false → OnPool result (leadingFlags words)) ∧
    ∀ die ∈ result.pool.dice, 1 ≤ die.face ∧ die.face ≤ 10 := by
  obtain ⟨hcheck, expression, u, hmeasure, hrun⟩ := run_throw_eq_ok_iff.mp h
  have hflag : (Request.plain.read words).chance = true ↔ .chance ∈ leadingFlags words := by
    rw [read_plain, decide_eq_true_eq]
  by_cases hchance : (Request.plain.read words).chance ∨ sizeOf expression < 1
  · obtain ⟨pool, hpool, rfl⟩ := (run_throwRequest_of_chance hchance).mp hrun
    have hfaces := Pool.face_mem_sides hpool
    obtain ⟨face, rfl⟩ := eq_chance_of_run_eq_ok hpool
    refine ⟨?_, fun _ => ⟨⟨face, onChance ?_⟩, ?_⟩, fun hfalse => ?_, hfaces⟩
    · rw [← hflag]
      exact ⟨fun _ => hchance, fun _ => rfl⟩
    · exact (hfaces _ (List.mem_singleton.mpr rfl)).2
    · -- the rule is all that the two requests differ in, and the chance die has its own
      have hchance' : ({ Request.plain.read words with rule := rule } : Request).chance ∨
          sizeOf expression < 1 := hchance
      rw [run_throw_eq_ok_iff, read_withoutAgain]
      exact ⟨hcheck, expression, u, hmeasure,
        (run_throwRequest_of_chance hchance').mpr ⟨_, hpool, rfl⟩⟩
    · cases hfalse
  · obtain ⟨pool, hpool, rfl⟩ := (run_throwRequest_of_pool hchance).mp hrun
    have hsize : 1 ≤ sizeOf expression := by omega
    refine ⟨?_, fun htrue => ?_, fun _ => ?_, Pool.face_mem_sides hpool⟩
    · rw [← hflag]
      exact ⟨fun htrue => absurd htrue Bool.false_ne_true, fun hor => absurd hor hchance⟩
    · cases htrue
    · rw [read_plain] at hpool
      exact onPool hsize hpool

/-- The value of the expression comes from the source, but the chance flag makes it count for
nothing; neither does the again flag. -/
theorem throw_result_chance :
    let words := ["8again", "Chance", "d4", "+", "2"]
    let s := Script.ofFaces [3, 10, 7]
    let result : TenPool := ⟨5, some ⟨5, "[3] + 2"⟩, true, ⟨⟨10, 11⟩, [⟨10, false⟩]⟩, .clean⟩
    LawfulSource Script ∧ (throw 20 words).run s = (.ok result, ⟨s.faces, [7]⟩) ∧
      (throw 20 ["Chance", "d4", "+", "2"]).run s = (.ok result, ⟨s.faces, [7]⟩) ∧
      ∃ face, OnChance result face := by
  intro words s result
  have hrun : (throw 20 words).run s = (.ok result, ⟨s.faces, [7]⟩) := by decide +kernel
  obtain ⟨-, hchance, -, -⟩ := throw_result words hrun
  obtain ⟨hdie, hwithout⟩ := hchance rfl
  have hwords : withoutAgain words = ["Chance", "d4", "+", "2"] := by decide +kernel
  rw [hwords] at hwithout
  exact ⟨inferInstance, hrun, hwithout, hdie⟩

end Dice.TenPool
