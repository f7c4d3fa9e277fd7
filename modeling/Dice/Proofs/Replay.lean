import Dice.Proofs.Calls
import Dice.Proofs.Pool.Chains
import Dice.Roller

/-! Replaying a call. All dice of a call have sides, whatever comes up, so every face that a
lawful source shows is one that the die has, and a script does not wrap it around. Main
statement: a call that is carried out again on a script of the faces that came up ends as
before, and has then used every face of the script once. -/

namespace Dice

variable {σ ε ε' α β : Type} [Source σ]

namespace Play

/-! ### Dice with sides -/

/-- Every die of the play has a side, whatever faces come up before it. -/
inductive Sided : Play ε α → Prop where
  | done (result : α) : Sided (.done result)
  | fail (cause : ε) : Sided (.fail cause)
  | throwDie {sides : Int} {next : Int → Play ε α} (h : 1 ≤ sides)
      (hnext : ∀ face, Sided (next face)) : Sided (.throwDie sides next)

namespace Sided

theorem bind {p : Play ε α} {k : α → Play ε β} (hp : Sided p) (hk : ∀ a, Sided (k a)) :
    Sided (p >>= k) := by
  induction hp with
  | done result => exact hk result
  | fail cause => exact .fail cause
  | throwDie h _ ih => exact .throwDie h ih

theorem mapError (f : ε → ε') {p : Play ε α} (hp : Sided p) : Sided (p.mapError f) := by
  induction hp with
  | done result => exact .done result
  | fail cause => exact .fail (f cause)
  | throwDie h _ ih => exact .throwDie h ih

theorem ofExcept (result : Except ε α) : Sided (Play.ofExcept result) := by
  cases result with
  | ok a => exact .done a
  | error cause => exact .fail cause

/-- A play behind a check has to be looked at only for what the check lets through. -/
theorem ofExcept_bind {result : Except ε α} {k : α → Play ε β}
    (hk : ∀ a, result = .ok a → Sided (k a)) : Sided (Play.ofExcept result >>= k) := by
  cases result with
  | ok a => exact hk a rfl
  | error cause => exact .fail cause

end Sided

/-- The faces that a play takes from a lawful source are on its dice, so a script that holds them,
perhaps with more behind them, leads the play down the same path. -/
theorem Sided.replay [LawfulSource σ] {p : Play ε α} (hp : Sided p) (s : σ)
    (recorded rest : List Int) :
    p.run (⟨recorded, p.faces s ++ rest⟩ : Script) = ((p.run s).1, ⟨recorded, rest⟩) ∧
      p.faces (⟨recorded, p.faces s ++ rest⟩ : Script) = p.faces s := by
  induction hp generalizing s with
  | done result => exact ⟨rfl, rfl⟩
  | fail cause => exact ⟨rfl, rfl⟩
  | @throwDie sides next h _ ih =>
    have hwrap : Script.wrap sides (Source.throwDie sides s).1 = (Source.throwDie sides s).1 :=
      Script.wrap_of_mem (LawfulSource.one_le h s) (LawfulSource.le_sides h s)
    have hface : Source.throwDie sides
        (⟨recorded, (Play.throwDie sides next).faces s ++ rest⟩ : Script) =
        ((Source.throwDie sides s).1, ⟨recorded,
          (next (Source.throwDie sides s).1).faces (Source.throwDie sides s).2 ++ rest⟩) :=
      Prod.ext hwrap rfl
    obtain ⟨hrun, hfaces⟩ := ih (Source.throwDie sides s).1 (Source.throwDie sides s).2
    constructor
    · rw [run_throwDie, hface, hrun, run_throwDie]
    · rw [faces_throwDie _ _ (⟨recorded, _⟩ : Script), hface, hfaces, ← faces_throwDie]

end Play

open Play (Sided)

/-! ### The dice of a call -/

theorem Play.sided_dice {sides : Int} (h : 1 ≤ sides) (count : Nat) (thrown : List Int) :
    Sided (Play.dice sides count thrown : Play ε (List Int)) := by
  induction count generalizing thrown with
  | zero => exact .done _
  | succ count ih => exact .throwDie h fun face => ih (face :: thrown)

theorem sided_rollDie (sides : Int) : Sided (rollDie sides) :=
  .ofExcept_bind fun _ h => .throwDie (allowSides_eq_ok_iff.mp h) fun face => .done face

theorem sided_rollDice (limit : Nat) (count sides : Int) : Sided (rollDice limit count sides) :=
  .ofExcept_bind fun _ h =>
    (Play.sided_dice (allowRoll_eq_ok_iff.mp h).1 _ []).bind fun _ => .done _

namespace Pool

variable {sides : Int} (limit : Nat) (rule : Rule)

theorem sided_explode (h : 1 ≤ sides) (room : Nat) (face : Int) (thrown : List Die) :
    Sided (explode limit sides rule room face thrown) := by
  induction room generalizing face thrown with
  | zero =>
    rw [explode]
    split
    · exact .done _
    · exact .fail _
  | succ room ih =>
    rw [explode]
    split
    · exact .done _
    · exact .throwDie h fun next => ih next _

theorem sided_throwDice (h : 1 ≤ sides) (count : Nat) (table : Table) :
    Sided (throwDice limit sides rule count table) := by
  induction count generalizing table with
  | zero => exact .done table
  | succ count ih =>
    exact .throwDie h fun face => (sided_explode limit rule h _ face _).bind ih

theorem sided_throw (count sides : Int) : Sided (throw limit count sides rule) :=
  .ofExcept_bind fun _ h =>
    (sided_throwDice limit rule (allow_eq_ok_iff.mp h).1 _ _).bind fun _ => .done _

end Pool

theorem sided_rollTerm (limit : Nat) (term : String) (count sides : Int) :
    Sided (rollTerm limit term count sides) := by
  refine ((sided_rollDice limit count sides).mapError _).bind fun roll => ?_
  cases roll.total? with
  | some total => exact .done _
  | none => exact .fail _

theorem Expr.sided_eval (limit : Nat) {level : Level} (e : Expr level) : Sided (e.eval limit) := by
  induction e with
  | ofProduct product ih => exact ih
  | ofFactor factor ih => exact ih
  | ofValue value ih => exact ih
  | additive left op right ihl ihr => exact ihl.bind fun _ => ihr.bind fun _ => .ofExcept _
  | multiplicative left op right ihl ihr => exact ihl.bind fun _ => ihr.bind fun _ => .ofExcept _
  | dice count sides ihc ihs => exact ihc.bind fun _ => ihs.bind fun _ => sided_rollTerm ..
  | const n => exact .done _
  | paren inner ih => exact ih.bind fun _ => .done _

theorem sided_evaluate (limit : Nat) (text : String) : Sided (evaluate limit text) :=
  .ofExcept_bind fun expr _ => (expr.sided_eval limit).mapError _

theorem SixPool.sided_throw (limit : Nat) (text : String) : Sided (SixPool.throw limit text) :=
  (sided_evaluate limit text).bind fun _ =>
    ((Pool.sided_throw limit rule _ SixPool.sides).mapError _).bind fun _ => .done _

namespace TenPool

theorem sided_throwRequest (limit : Nat) (request : Request) (expression : Option Outcome) :
    Sided (throwRequest limit request expression) := by
  simp only [throwRequest]
  split
  · exact ((Pool.sided_throw ..).mapError _).bind fun _ => .done _
  · exact ((Pool.sided_throw ..).mapError _).bind fun _ => .done _

theorem sided_throw (limit : Nat) (words : List String) : Sided (TenPool.throw limit words) := by
  refine .ofExcept_bind fun request _ => ?_
  split
  · exact sided_throwRequest ..
  · exact (sided_evaluate ..).bind fun _ => sided_throwRequest ..

end TenPool

theorem Tally.sided_sample (limit : Nat) (expr : Expr .sum) (samples : Nat) (tally : Tally) :
    Sided (sample limit expr samples tally) := by
  induction samples generalizing tally with
  | zero => exact .done tally
  | succ samples ih => exact (expr.sided_eval limit).bind fun _ => ih _

theorem Call.sided_play (call : Call ε α) (limit : Nat) : Sided (call.play limit) := by
  cases call with
  | rollDie sides => exact sided_rollDie sides
  | rollDice count sides => exact sided_rollDice limit count sides
  | throwPool count sides rule => exact Pool.sided_throw limit rule count sides
  | eval expr => exact expr.sided_eval limit
  | evaluate text => exact sided_evaluate limit text
  | throwSix text => exact SixPool.sided_throw limit text
  | throwTen words => exact TenPool.sided_throw limit words
  | sample expr samples => exact Tally.sided_sample limit expr samples .empty

/-! ### Replaying a call -/

/-- A call is carried out a second time, under the same limit, on a script of the faces that came
up the first time. It has the same result or fails for the same reason, the same faces come
up, and none of the script is left over. -/
theorem Call.carryOut_replay [LawfulSource σ] (call : Call ε α) (roller : Roller σ) :
    let faces := (call.play roller.maxDice).faces roller.source
    let replaying : Roller Script := ⟨.ofFaces faces, roller.maxDice⟩
    replaying.carryOut call.play =
        ((roller.carryOut call.play).1, ⟨⟨faces, []⟩, roller.maxDice⟩) ∧
      (call.play replaying.maxDice).faces replaying.source = faces := by
  intro faces replaying
  obtain ⟨hrun, hfaces⟩ := (call.sided_play roller.maxDice).replay roller.source faces []
  rw [List.append_nil] at hrun hfaces
  refine ⟨?_, hfaces⟩
  have hresult : (call.play roller.maxDice).run replaying.source =
      (((call.play roller.maxDice).run roller.source).1, ⟨faces, []⟩) := hrun
  rw [Roller.carryOut, hresult]
  rfl

/-- A pool of one four-sided die and two more goes past its limit of three dice with the second
explosion; the generator shows the faces of two kinds of dice until then. -/
theorem Call.carryOut_replay_generator :
    let call := Call.throwTen ["9again", "d4", "+", "2"]
    let roller : Roller Xoshiro := ⟨.ofSeed 3, 3⟩
    LawfulSource Xoshiro ∧ (call.play 3).faces roller.source = [1, 7, 9, 9] ∧
      (⟨.ofFaces [1, 7, 9, 9], 3⟩ : Roller Script).carryOut call.play =
        (.error (.refused (.tooManyExplosions 3)), ⟨⟨[1, 7, 9, 9], []⟩, 3⟩) := by
  intro call roller
  have hfaces : (call.play 3).faces roller.source = [1, 7, 9, 9] := by decide +kernel
  have hrun : (roller.carryOut call.play).1 = .error (.refused (.tooManyExplosions 3)) := by
    decide +kernel
  have hreplay := (carryOut_replay call roller).1
  rw [hfaces, hrun] at hreplay
  exact ⟨inferInstance, hfaces, hreplay⟩

end Dice
