import Dice.Proofs.Calls
import Dice.Proofs.Pool.Chains
import Dice.Source.Script

/-! Widening the limit on the number of dice. A play under a greater limit throws the same
dice, as long as the play under the smaller one does not go past its limit: the limit is
looked at, but never thrown with. Main statement: a call that ends under a limit with
anything but a refusal by the limit ends in the same way under every greater one, and leaves
the source as it did. -/

namespace Dice

variable {σ ε ε' α α' β β' : Type} [Source σ]

/-! ### Refusals by the limit -/

/-- Too many dice to begin with, or too many with their explosions. -/
def Refusal.PastLimit : Refusal → Prop
  | tooManyDice _ _ | tooManyExplosions _ => True
  | noSides _ | noDice _ | negativeCount _ | endlessExplosion _ => False

def EvalError.PastLimit : EvalError → Prop
  | refusedDice _ refusal => refusal.PastLimit
  | divisionByZero _ | overflow _ => False

def Failure.PastLimit : Failure → Prop
  | parse _ => False
  | evaluation error => error.PastLimit
  | refused refusal => refusal.PastLimit

/-- The limit is what the call fails for. -/
def Call.PastLimit : Call ε α → ε → Prop
  | rollDie _ | rollDice _ _ | throwPool _ _ _ => Refusal.PastLimit
  | eval _ | sample _ _ => EvalError.PastLimit
  | evaluate _ | throwSix _ | throwTen _ => Failure.PastLimit

/-! ### Wider plays -/

namespace Play

/-- The wide play throws the same dice as the narrow one and has a like result or the same failure;
but where the narrow play gives up for an excused cause, it may go on as it likes. -/
inductive Widens (excused : ε → Prop) (like : α → α' → Prop) : Play ε α → Play ε α' → Prop where
  | done {result : α} {result' : α'} (h : like result result') :
      Widens excused like (.done result) (.done result')
  | fail (cause : ε) : Widens excused like (.fail cause) (.fail cause)
  | giveUp {cause : ε} (h : excused cause) (wide : Play ε α') :
      Widens excused like (.fail cause) wide
  | throwDie (sides : Int) {next : Int → Play ε α} {next' : Int → Play ε α'}
      (hnext : ∀ face, Widens excused like (next face) (next' face)) :
      Widens excused like (.throwDie sides next) (.throwDie sides next')

namespace Widens

variable {excused : ε → Prop} {like : α → α' → Prop} {like' : β → β' → Prop}

theorem refl (p : Play ε α) : Widens excused Eq p p := by
  induction p with
  | done result => exact .done rfl
  | fail cause => exact .fail cause
  | throwDie sides next ih => exact .throwDie sides ih

theorem bind {p : Play ε α} {p' : Play ε α'} {k : α → Play ε β} {k' : α' → Play ε β'}
    (hp : Widens excused like p p')
    (hk : ∀ a a', like a a' → Widens excused like' (k a) (k' a')) :
    Widens excused like' (p >>= k) (p' >>= k') := by
  induction hp with
  | done h => exact hk _ _ h
  | fail cause => exact .fail cause
  | giveUp h wide => exact .giveUp h _
  | throwDie sides _ ih => exact .throwDie sides ih

/-- The same continuation of like results that are the same. -/
theorem bind_eq {p p' : Play ε α} {k k' : α → Play ε β} (hp : Widens excused Eq p p')
    (hk : ∀ a, Widens excused Eq (k a) (k' a)) : Widens excused Eq (p >>= k) (p' >>= k') :=
  hp.bind fun a _ h => h ▸ hk a

theorem mapError {excused' : ε' → Prop} {p p' : Play ε α} (hp : Widens excused Eq p p') (f : ε → ε')
    (hf : ∀ cause, excused cause → excused' (f cause)) :
    Widens excused' Eq (p.mapError f) (p'.mapError f) := by
  induction hp with
  | done h => exact .done h
  | fail cause => exact .fail (f cause)
  | giveUp h wide => exact .giveUp (hf _ h) _
  | throwDie sides _ ih => exact .throwDie sides ih

/-- A check that decides the same, unless it refuses for an excused cause. -/
theorem ofExcept_bind {narrow wide : Except ε α} {k : α → Play ε β} {k' : α → Play ε β'}
    (h : (∃ cause, narrow = .error cause ∧ excused cause) ∨ wide = narrow)
    (hk : ∀ a, Widens excused like' (k a) (k' a)) :
    Widens excused like' (ofExcept narrow >>= k) (ofExcept wide >>= k') := by
  rcases h with ⟨cause, rfl, h⟩ | rfl
  · exact .giveUp h _
  · cases wide with
    | ok a => exact hk a
    | error cause => exact .fail cause

/-- Unless the narrow play gives up for an excused cause, both end alike and leave the source in
the same state. -/
theorem run_eq {narrow wide : Play ε α} (h : Widens excused Eq narrow wide) {s : σ}
    (hrun : ∀ cause, (narrow.run s).1 = .error cause → ¬ excused cause) :
    wide.run s = narrow.run s := by
  induction h generalizing s with
  | done h => rw [h]
  | fail cause => rfl
  | giveUp h wide => exact absurd h (hrun _ rfl)
  | throwDie sides _ ih =>
    rw [run_throwDie, run_throwDie]
    exact ih _ hrun

end Widens

end Play

open Play (Widens)

/-! ### Calls under a wider limit -/

section Limits

variable {limit limit' : Nat}

theorem allowCount_of_le (h : limit ≤ limit') (count : Int) :
    (∃ refusal, allowCount limit count = .error refusal ∧ refusal.PastLimit) ∨
      allowCount limit' count = allowCount limit count := by
  unfold allowCount
  by_cases hneg : count < 0
  · right
    rw [if_pos hneg, if_pos hneg]
  · rw [if_neg hneg, if_neg hneg]
    by_cases hlimit : count.toNat ≤ limit
    · right
      rw [if_pos hlimit, if_pos (Nat.le_trans hlimit h)]
    · left
      rw [if_neg hlimit]
      exact ⟨_, rfl, trivial⟩

theorem allowRoll_of_le (h : limit ≤ limit') (count sides : Int) :
    (∃ refusal, allowRoll limit count sides = .error refusal ∧ refusal.PastLimit) ∨
      allowRoll limit' count sides = allowRoll limit count sides := by
  unfold allowRoll
  cases allowSides sides with
  | error refusal => exact .inr rfl
  | ok _ =>
    by_cases hcount : count < 1
    · simp only [if_pos hcount, or_true]
    · simp only [if_neg hcount]
      exact allowCount_of_le h count

theorem widens_rollDice (h : limit ≤ limit') (count sides : Int) :
    Widens Refusal.PastLimit Eq (rollDice limit count sides) (rollDice limit' count sides) :=
  .ofExcept_bind (allowRoll_of_le h count sides) fun _ => .refl _

namespace Pool

variable {sides : Int} {rule : Rule}

theorem allow_of_le (h : limit ≤ limit') (count : Int) :
    (∃ refusal, allow limit count sides rule = .error refusal ∧ refusal.PastLimit) ∨
      allow limit' count sides rule = allow limit count sides rule := by
  unfold allow
  cases allowSides sides with
  | error refusal => exact .inr rfl
  | ok _ =>
    rcases allowCount_of_le h count with ⟨refusal, hrefusal, hpast⟩ | hsame
    · rw [hrefusal]
      exact .inl ⟨refusal, rfl, hpast⟩
    · rw [hsame]
      exact .inr rfl

/-- The same dice, with no less room for explosions. -/
def Table.Roomier (narrow wide : Table) : Prop :=
  wide.thrown = narrow.thrown ∧ narrow.room ≤ wide.room

theorem widens_explode {room room' : Nat} (h : room ≤ room') (face : Int) (thrown : List Die) :
    Widens Refusal.PastLimit Table.Roomier (explode limit sides rule room face thrown)
      (explode limit' sides rule room' face thrown) := by
  induction room generalizing room' face thrown with
  | zero =>
    by_cases hface : face < rule.explodeOn
    · rw [explode_calm hface, explode_calm hface]
      exact .done ⟨rfl, h⟩
    · rw [explode_full (Int.not_lt.mp hface)]
      exact .giveUp trivial _
  | succ room ih =>
    obtain ⟨room', rfl⟩ : ∃ n, room' = n + 1 := ⟨room' - 1, by omega⟩
    by_cases hface : face < rule.explodeOn
    · rw [explode_calm hface, explode_calm hface]
      exact .done ⟨rfl, h⟩
    · rw [explode_exploding (Int.not_lt.mp hface), explode_exploding (Int.not_lt.mp hface)]
      exact .throwDie sides fun next => ih (Nat.le_of_succ_le_succ h) next _

theorem widens_throwDice (count : Nat) {table table' : Table} (h : table.Roomier table') :
    Widens Refusal.PastLimit Table.Roomier (throwDice limit sides rule count table)
      (throwDice limit' sides rule count table') := by
  induction count generalizing table table' with
  | zero => exact .done h
  | succ count ih =>
    obtain ⟨hthrown, hroom⟩ := h
    refine .throwDie sides fun face => ?_
    simp only [Table.add, hthrown]
    exact (widens_explode (Nat.sub_le_sub_right hroom 1) face _).bind fun _ _ => ih

theorem widens_throw (h : limit ≤ limit') (count sides : Int) (rule : Rule) :
    Widens Refusal.PastLimit Eq (throw limit count sides rule) (throw limit' count sides rule) := by
  refine .ofExcept_bind (allow_of_le h count) fun n => ?_
  have hstart : Table.Roomier ⟨[], limit⟩ ⟨[], limit'⟩ := ⟨rfl, h⟩
  refine (widens_throwDice n hstart).bind fun table table' hlike => ?_
  rw [hlike.1]
  exact .refl _

end Pool

theorem widens_rollTerm (h : limit ≤ limit') (term : String) (count sides : Int) :
    Widens EvalError.PastLimit Eq (rollTerm limit term count sides)
      (rollTerm limit' term count sides) :=
  ((widens_rollDice h count sides).mapError (EvalError.refusedDice term) fun _ => id).bind_eq
    fun _ => .refl _

theorem Expr.widens_eval (h : limit ≤ limit') {level : Level} (e : Expr level) :
    Widens EvalError.PastLimit Eq (e.eval limit) (e.eval limit') := by
  induction e with
  | ofProduct product ih => exact ih
  | ofFactor factor ih => exact ih
  | ofValue value ih => exact ih
  | additive left op right ihl ihr => exact ihl.bind_eq fun _ => ihr.bind_eq fun _ => .refl _
  | multiplicative left op right ihl ihr => exact ihl.bind_eq fun _ => ihr.bind_eq fun _ => .refl _
  | dice count sides ihc ihs =>
    exact ihc.bind_eq fun _ => ihs.bind_eq fun _ => widens_rollTerm h ..
  | const n => exact .refl _
  | paren inner ih => exact ih.bind_eq fun _ => .refl _

theorem widens_evaluate (h : limit ≤ limit') (text : String) :
    Widens Failure.PastLimit Eq (evaluate limit text) (evaluate limit' text) :=
  (Widens.refl _).bind_eq fun expr => (expr.widens_eval h).mapError Failure.evaluation fun _ => id

theorem SixPool.widens_throw (h : limit ≤ limit') (text : String) :
    Widens Failure.PastLimit Eq (SixPool.throw limit text) (SixPool.throw limit' text) :=
  (widens_evaluate h text).bind_eq fun size =>
    ((Pool.widens_throw h size.value sides rule).mapError Failure.refused fun _ => id).bind_eq
      fun _ => .refl _

namespace TenPool

theorem widens_throwRequest (h : limit ≤ limit') (request : Request) (expression : Option Outcome) :
    Widens Failure.PastLimit Eq (throwRequest limit request expression)
      (throwRequest limit' request expression) := by
  simp only [throwRequest]
  split
  · exact ((Pool.widens_throw h ..).mapError Failure.refused fun _ => id).bind_eq fun _ => .refl _
  · exact ((Pool.widens_throw h ..).mapError Failure.refused fun _ => id).bind_eq fun _ => .refl _

theorem widens_throw (h : limit ≤ limit') (words : List String) :
    Widens Failure.PastLimit Eq (TenPool.throw limit words) (TenPool.throw limit' words) := by
  refine (Widens.refl _).bind_eq fun request => ?_
  split
  · exact widens_throwRequest h ..
  · exact (widens_evaluate h _).bind_eq fun _ => widens_throwRequest h ..

end TenPool

theorem Tally.widens_sample (h : limit ≤ limit') (expr : Expr .sum) (samples : Nat)
    (tally : Tally) :
    Widens EvalError.PastLimit Eq (sample limit expr samples tally)
      (sample limit' expr samples tally) := by
  induction samples generalizing tally with
  | zero => exact .refl _
  | succ samples ih => exact (expr.widens_eval h).bind_eq fun _ => ih _

theorem Call.widens_play (h : limit ≤ limit') (call : Call ε α) :
    Widens call.PastLimit Eq (call.play limit) (call.play limit') := by
  cases call with
  | rollDie sides => exact .refl _
  | rollDice count sides => exact widens_rollDice h count sides
  | throwPool count sides rule => exact Pool.widens_throw h count sides rule
  | eval expr => exact expr.widens_eval h
  | evaluate text => exact widens_evaluate h text
  | throwSix text => exact SixPool.widens_throw h text
  | throwTen words => exact TenPool.widens_throw h words
  | sample expr samples => exact Tally.widens_sample h expr samples .empty

/-- A call that ends under a limit, unless with a refusal by the limit, ends under every greater
limit with the same result or the same failure, and leaves the source in the same state. -/
theorem Call.run_of_limit_le (call : Call ε α) (h : limit ≤ limit') (s : σ)
    (hend : ∀ cause, ((call.play limit).run s).1 = .error cause → ¬ call.PastLimit cause) :
    (call.play limit').run s = (call.play limit).run s :=
  (call.widens_play h).run_eq hend

/-- Three dice are just within a limit of three, and the division fails under every greater limit
as it does under this one. -/
theorem Call.run_of_limit_le_division :
    let call := Call.evaluate "3d6 / (2d4 - 2)"
    let s := Script.ofFaces [4, 6, 1, 1, 1]
    let ending : Except Failure Outcome × Script :=
      (.error (.evaluation (.divisionByZero "[4 + 6 + 1] / ( [1 + 1] - 2 )")), ⟨s.faces, []⟩)
    3 ≤ 10000 ∧ (∀ cause, ((call.play 3).run s).1 = .error cause → ¬ call.PastLimit cause) ∧
      (call.play 10000).run s = ending := by
  intro call s ending
  have hlimit : 3 ≤ 10000 := by decide
  have hrun : (call.play 3).run s = ending := by decide +kernel
  have hend : ∀ cause, ((call.play 3).run s).1 = .error cause → ¬ call.PastLimit cause := by
    intro cause hcause
    rw [hrun] at hcause
    cases hcause
    exact id
  exact ⟨hlimit, hend, (run_of_limit_le call hlimit s hend).trans hrun⟩

end Limits

end Dice
