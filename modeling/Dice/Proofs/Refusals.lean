import Dice.Proofs.Calls
import Dice.Proofs.Pool.Chains
import Dice.Roller

/-! Refused calls. Whatever speaks against a call before the first die, its arguments or its
text, is found before the first die is thrown, so a refused call leaves the roller as it
was. Main statement: in a session of calls, those that are refused can be left out, and
all others are answered as before. -/

namespace Dice

variable {σ ε ε' α β : Type}

namespace Play

/-! ### Failures in front -/

/-- No failure of the play is of the kind. -/
inductive Spares (kind : ε → Prop) : Play ε α → Prop where
  | done (result : α) : Spares kind (.done result)
  | fail {cause : ε} (h : ¬ kind cause) : Spares kind (.fail cause)
  | throwDie {sides : Int} {next : Int → Play ε α} (hnext : ∀ face, Spares kind (next face)) :
      Spares kind (.throwDie sides next)

/-- A failure of the kind comes before the first die, if at all. -/
inductive Guarded (kind : ε → Prop) : Play ε α → Prop where
  | done (result : α) : Guarded kind (.done result)
  | fail (cause : ε) : Guarded kind (.fail cause)
  | throwDie {sides : Int} {next : Int → Play ε α} (hnext : ∀ face, Spares kind (next face)) :
      Guarded kind (.throwDie sides next)

variable {kind : ε → Prop} {p : Play ε α} {k : α → Play ε β}

namespace Spares

theorem bind (hp : Spares kind p) (hk : ∀ a, Spares kind (k a)) : Spares kind (p >>= k) := by
  induction hp with
  | done result => exact hk result
  | fail h => exact .fail h
  | throwDie _ ih => exact .throwDie ih

theorem mapError {f : ε' → ε} (h : ∀ cause, ¬ kind (f cause)) (p : Play ε' α) :
    Spares kind (p.mapError f) := by
  induction p with
  | done result => exact .done result
  | fail cause => exact .fail (h cause)
  | throwDie sides next ih => exact .throwDie ih

theorem guarded (hp : Spares kind p) : Guarded kind p := by
  cases hp with
  | done result => exact .done result
  | fail h => exact .fail _
  | throwDie hnext => exact .throwDie hnext

theorem not_kind [Source σ] (hp : Spares kind p) {s t : σ} {cause : ε}
    (h : p.run s = (.error cause, t)) : ¬ kind cause := by
  induction hp generalizing s with
  | done result => cases h
  | fail hcause =>
    cases h
    exact hcause
  | throwDie _ ih => exact ih _ h

end Spares

namespace Guarded

theorem bind (hp : Guarded kind p) (hk : ∀ a, Spares kind (k a)) : Guarded kind (p >>= k) := by
  cases hp with
  | done result => exact (hk result).guarded
  | fail cause => exact .fail cause
  | throwDie hnext => exact .throwDie fun face => (hnext face).bind hk

/-- A check may fail in any way, since it throws no die. -/
theorem ofExcept_bind (check : Except ε α) (hk : ∀ a, Guarded kind (k a)) :
    Guarded kind (Play.ofExcept check >>= k) := by
  cases check with
  | ok a => exact hk a
  | error cause => exact .fail cause

theorem untouched [Source σ] (hp : Guarded kind p) {s t : σ} {cause : ε}
    (h : p.run s = (.error cause, t)) (hcause : kind cause) : t = s := by
  cases hp with
  | done result => cases h
  | fail cause =>
    cases h
    rfl
  | throwDie hnext => exact absurd hcause ((hnext _).not_kind h)

end Guarded

end Play

open Play (Spares Guarded)

/-- The text of a request has not been understood. -/
def Failure.IsParse : Failure → Prop
  | parse _ => True
  | _ => False

theorem Failure.not_isParse_evaluation (error : EvalError) : ¬ IsParse (.evaluation error) := id

theorem Failure.not_isParse_refused (refusal : Refusal) : ¬ IsParse (.refused refusal) := id

theorem guarded_evaluate (limit : Nat) (text : String) :
    Guarded Failure.IsParse (evaluate limit text) :=
  .ofExcept_bind _ fun _ => (Spares.mapError Failure.not_isParse_evaluation _).guarded

theorem SixPool.guarded_throw (limit : Nat) (text : String) :
    Guarded Failure.IsParse (SixPool.throw limit text) :=
  (guarded_evaluate limit text).bind fun _ =>
    (Spares.mapError Failure.not_isParse_refused _).bind fun _ => .done _

namespace TenPool

theorem spares_throwRequest (limit : Nat) (request : Request) (expression : Option Outcome) :
    Spares Failure.IsParse (throwRequest limit request expression) := by
  simp only [throwRequest]
  split
  · exact (Spares.mapError Failure.not_isParse_refused _).bind fun _ => .done _
  · exact (Spares.mapError Failure.not_isParse_refused _).bind fun _ => .done _

theorem guarded_throw (limit : Nat) (words : List String) :
    Guarded Failure.IsParse (TenPool.throw limit words) := by
  refine .ofExcept_bind _ fun request => ?_
  split
  · exact (spares_throwRequest ..).guarded
  · exact (guarded_evaluate ..).bind fun _ => spares_throwRequest ..

end TenPool

/-! ### Refused arguments -/

section Arguments

variable {limit : Nat} {count sides : Int}

theorem exists_allowRoll_eq_error_iff :
    (∃ refusal, allowRoll limit count sides = .error refusal) ↔
      sides < 1 ∨ count < 1 ∨ (limit : Int) < count := by
  cases h : allowRoll limit count sides with
  | ok n =>
    obtain ⟨hsides, hcount, hlimit, rfl⟩ := allowRoll_eq_ok_iff.mp h
    simp only [reduceCtorEq, exists_false, false_iff]
    omega
  | error refusal =>
    refine ⟨fun _ => ?_, fun _ => ⟨refusal, rfl⟩⟩
    by_contra hallowed
    have hok : allowRoll limit count sides = .ok count.toNat :=
      allowRoll_eq_ok_iff.mpr ⟨by omega, by omega, by omega, by omega⟩
    cases h.symm.trans hok

theorem Pool.exists_allow_eq_error {rule : Pool.Rule}
    (h : sides < 1 ∨ count < 0 ∨ (limit : Int) < count ∨ rule.explodeOn < 2) :
    ∃ refusal, Pool.allow limit count sides rule = .error refusal := by
  cases hallow : Pool.allow limit count sides rule with
  | ok n =>
    obtain ⟨hsides, hexplode, hlimit, rfl⟩ := Pool.allow_eq_ok_iff.mp hallow
    omega
  | error refusal => exact ⟨refusal, rfl⟩

end Arguments

/-! ### Refused calls -/

/-- A call that is refused under a limit, by its arguments or because its text has not been
understood. Expressions that have been read are not refused as a whole; a failure of one of
their parts may come after any number of dice. -/
def Call.Refused (limit : Nat) : Call ε α → (answer : Except ε α) → Prop
  | rollDie sides, _ => sides < 1
  | rollDice count sides, _ => sides < 1 ∨ count < 1 ∨ (limit : Int) < count
  | throwPool count sides rule, _ =>
    sides < 1 ∨ count < 0 ∨ (limit : Int) < count ∨ rule.explodeOn < 2
  | evaluate _, answer => ∃ error, answer = .error (.parse error)
  | throwSix _, answer => ∃ error, answer = .error (.parse error)
  | throwTen _, answer => ∃ error, answer = .error (.parse error)
  | eval _, _ => False
  | sample _ _, _ => False

section Calls

variable [Source σ]

theorem Play.Guarded.run_eq {p : Play Failure α} (hp : Guarded Failure.IsParse p) {s : σ}
    (h : ∃ error, (p.run s).1 = .error (.parse error)) : ∃ cause, p.run s = (.error cause, s) := by
  obtain ⟨error, herror⟩ := h
  have hrun : p.run s = (.error (.parse error), (p.run s).2) := Prod.ext herror rfl
  have hsame : (p.run s).2 = s := hp.untouched hrun trivial
  exact ⟨.parse error, by rw [hrun, hsame]⟩

theorem run_rollDie_of_noSides {sides : Int} (h : sides < 1) (s : σ) :
    (rollDie sides).run s = (.error (.noSides sides), s) := by
  rw [rollDie, allowSides, if_pos h]
  rfl

/-- A refused call throws no die. -/
theorem Call.run_of_refused (call : Call ε α) {limit : Nat} {s : σ}
    (h : call.Refused limit ((call.play limit).run s).1) :
    ∃ cause, (call.play limit).run s = (.error cause, s) := by
  cases call with
  | rollDie sides => exact ⟨_, run_rollDie_of_noSides h s⟩
  | rollDice count sides =>
    obtain ⟨refusal, hrefusal⟩ := exists_allowRoll_eq_error_iff.mpr h
    exact ⟨refusal, run_rollDice_of_error hrefusal s⟩
  | throwPool count sides rule =>
    obtain ⟨refusal, hrefusal⟩ := Pool.exists_allow_eq_error h
    exact ⟨refusal, (Pool.throw_of_error hrefusal s).2⟩
  | evaluate text => exact (guarded_evaluate limit text).run_eq h
  | throwSix text => exact (SixPool.guarded_throw limit text).run_eq h
  | throwTen words => exact (TenPool.guarded_throw limit words).run_eq h
  | eval expr => exact h.elim
  | sample expr samples => exact h.elim

theorem Roller.carryOut_of_run {roller : Roller σ} {play : (limit : Nat) → Play ε α}
    {answer : Except ε α} {source : σ}
    (h : (play roller.maxDice).run roller.source = (answer, source)) :
    roller.carryOut play = (answer, { roller with source }) := by
  rw [carryOut, h]

theorem Call.carryOut_of_refused (call : Call ε α) (roller : Roller σ)
    (h : call.Refused roller.maxDice (roller.carryOut call.play).1) :
    ∃ cause, roller.carryOut call.play = (.error cause, roller) := by
  change call.Refused roller.maxDice ((call.play roller.maxDice).run roller.source).1 at h
  obtain ⟨cause, hrun⟩ := call.run_of_refused h
  exact ⟨cause, roller.carryOut_of_run hrun⟩

/-! ### Rolls -/

/-- What comes of a roll: it is refused, or the faces of so many dice come up. -/
structure Comes (refused : Prop) (count : Nat) (sides : Int) (roller : Roller σ)
    (answer : Except Refusal (List Int)) (after : Roller σ) : Prop where
  fails : (∃ refusal, answer = .error refusal) ↔ refused
  untouched : refused → after = roller
  shows : ∀ faces, answer = .ok faces → faces = Source.faces sides count roller.source ∧
    (∀ face ∈ faces, 1 ≤ face ∧ face ≤ sides) ∧
    after = { roller with source := Source.after sides count roller.source }

theorem Comes.of_refused {refused : Prop} {count : Nat} {sides : Int} {roller : Roller σ}
    {refusal : Refusal} (h : refused) :
    Comes refused count sides roller (.error refusal) roller where
  fails := ⟨fun _ => h, fun _ => ⟨refusal, rfl⟩⟩
  untouched _ := rfl
  shows _ h := by cases h

theorem Comes.of_allowed [LawfulSource σ] {refused : Prop} {count : Nat} {sides : Int}
    {roller : Roller σ} (h : ¬ refused) (hsides : 1 ≤ sides) :
    Comes refused count sides roller (.ok (Source.faces sides count roller.source))
      { roller with source := Source.after sides count roller.source } where
  fails := by simp [h]
  untouched hrefused := absurd hrefused h
  shows faces hfaces := by
    obtain rfl := Except.ok.inj hfaces
    exact ⟨rfl, fun face hface => ⟨Source.one_le_of_mem_faces hsides hface,
      Source.le_sides_of_mem_faces hsides hface⟩, rfl⟩

theorem comes_rollDie [LawfulSource σ] (sides : Int) (roller : Roller σ) :
    Comes (sides < 1) 1 sides roller
      ((roller.carryOut (Call.rollDie sides).play).1.map fun face => [face])
      (roller.carryOut (Call.rollDie sides).play).2 := by
  by_cases hsides : sides < 1
  · rw [roller.carryOut_of_run (run_rollDie_of_noSides hsides roller.source)]
    exact .of_refused hsides
  · have hrun : (rollDie sides).run roller.source =
        (.ok (Source.throwDie sides roller.source).1, Source.after sides 1 roller.source) := by
      rw [rollDie, allowSides, if_neg hsides]
      rfl
    rw [roller.carryOut_of_run hrun]
    exact .of_allowed hsides (Int.not_lt.mp hsides)

theorem comes_rollDice [LawfulSource σ] (count sides : Int) (roller : Roller σ) :
    Comes (sides < 1 ∨ count < 1 ∨ (roller.maxDice : Int) < count) count.toNat sides roller
      ((roller.carryOut (Call.rollDice count sides).play).1.map Roll.faces)
      (roller.carryOut (Call.rollDice count sides).play).2 := by
  cases h : allowRoll roller.maxDice count sides with
  | error refusal =>
    rw [roller.carryOut_of_run (run_rollDice_of_error h roller.source)]
    exact .of_refused (exists_allowRoll_eq_error_iff.mp ⟨refusal, h⟩)
  | ok n =>
    obtain ⟨hsides, hcount, hlimit, rfl⟩ := allowRoll_eq_ok_iff.mp h
    rw [roller.carryOut_of_run (run_rollDice_of_ok h roller.source)]
    exact .of_allowed (by omega) hsides

end Calls

/-! ### Sessions -/

/-- A call of any kind. -/
structure AnyCall where
  {ε α : Type}
  call : Call ε α

/-- A call of any kind with its answer. -/
structure Answered where
  {ε α : Type}
  call : Call ε α
  answer : Except ε α

def Answered.asked (answered : Answered) : AnyCall := ⟨answered.call⟩

/-- One call after another; the answers, and the roller that is left. -/
def Roller.session [Source σ] (roller : Roller σ) : List AnyCall → List Answered × Roller σ
  | [] => ([], roller)
  | asked :: later =>
    let (answer, after) := roller.carryOut asked.call.play
    let (answers, last) := after.session later
    (⟨asked.call, answer⟩ :: answers, last)

section Sessions

variable [Source σ]

theorem Roller.session_cons (roller : Roller σ) (asked : AnyCall) (later : List AnyCall) :
    roller.session (asked :: later) =
      (⟨asked.call, (roller.carryOut asked.call.play).1⟩ ::
          ((roller.carryOut asked.call.play).2.session later).1,
        ((roller.carryOut asked.call.play).2.session later).2) := rfl

theorem Roller.map_asked_session (roller : Roller σ) (calls : List AnyCall) :
    (roller.session calls).1.map Answered.asked = calls := by
  induction calls generalizing roller with
  | nil => rfl
  | cons asked later ih =>
    rw [session_cons, List.map_cons, ih]
    rfl

/-- A session whose refused calls, or some of them, are left out ends as it would have ended, with
the same answers to all other calls. -/
theorem Roller.session_filter (keep : Answered → Bool) (roller : Roller σ) (calls : List AnyCall)
    (h : ∀ answered ∈ (roller.session calls).1, keep answered = false →
      answered.call.Refused roller.maxDice answered.answer) :
    roller.session (((roller.session calls).1.filter keep).map Answered.asked) =
      ((roller.session calls).1.filter keep, (roller.session calls).2) := by
  induction calls generalizing roller with
  | nil => rfl
  | cons asked later ih =>
    rw [session_cons] at h ⊢
    obtain ⟨hfirst, hlater⟩ := List.forall_mem_cons.mp h
    replace ih := ih (roller.carryOut asked.call.play).2 hlater
    cases hkeep : keep ⟨asked.call, (roller.carryOut asked.call.play).1⟩ with
    | true =>
      rw [List.filter_cons_of_pos hkeep, List.map_cons, session_cons]
      simp only [Answered.asked] at ih ⊢
      rw [ih]
    | false =>
      -- a refused call hands the roller on as it was
      obtain ⟨cause, hrun⟩ := asked.call.carryOut_of_refused roller (hfirst hkeep)
      rw [List.filter_cons_of_neg (by simp [hkeep])]
      rw [hrun] at ih ⊢
      exact ih

/-- A roll is refused exactly if its die has no sides, or for more than one die if there are none
or too many of them; otherwise it shows the next faces of the source, each of them a side of
the die. A call that is refused, for its arguments or because its text has not been understood,
leaves the roller as it was. So refused calls, some or all of them, can be left out of a
session: all others are answered as before, and the same roller is left. -/
theorem Roller.refusals [LawfulSource σ] (roller : Roller σ) :
    (∀ sides, let run := roller.carryOut (Call.rollDie sides).play
      Comes (sides < 1) 1 sides roller (run.1.map fun face => [face]) run.2) ∧
    (∀ count sides, let run := roller.carryOut (Call.rollDice count sides).play
      Comes (sides < 1 ∨ count < 1 ∨ (roller.maxDice : Int) < count) count.toNat sides roller
        (run.1.map Roll.faces) run.2) ∧
    (∀ {ε α : Type} (call : Call ε α),
      call.Refused roller.maxDice (roller.carryOut call.play).1 →
        ∃ cause, roller.carryOut call.play = (.error cause, roller)) ∧
    ∀ (calls : List AnyCall) (keep : Answered → Bool),
      let answers := (roller.session calls).1
      answers.map Answered.asked = calls ∧
        ((∀ answered ∈ answers, keep answered = false →
            answered.call.Refused roller.maxDice answered.answer) →
          roller.session ((answers.filter keep).map Answered.asked) =
            (answers.filter keep, (roller.session calls).2)) :=
  ⟨fun sides => comes_rollDie sides roller, fun count sides => comes_rollDice count sides roller,
    fun call => call.carryOut_of_refused roller, fun calls keep =>
      ⟨roller.map_asked_session calls, roller.session_filter keep calls⟩⟩

/-- Four of these six calls are refused, each in its own way. -/
theorem Roller.refusals_six_calls :
    let roller : Roller Script := ⟨.ofFaces [3, 4, 2], 4⟩
    let calls : List AnyCall := [⟨.rollDice 5 6⟩, ⟨.rollDie 6⟩, ⟨.throwPool 2 6 ⟨5, 1⟩⟩,
      ⟨.evaluate "d6 +"⟩, ⟨.throwTen ["9again"]⟩, ⟨.rollDice 2 4⟩]
    let keep (answered : Answered) : Bool := answered.answer.isOk
    LawfulSource Script ∧
      (∀ answered ∈ (roller.session calls).1, keep answered = false →
        answered.call.Refused 4 answered.answer) ∧
      roller.session [⟨.rollDie 6⟩, ⟨.rollDice 2 4⟩] =
        ([⟨.rollDie 6, .ok 3⟩, ⟨.rollDice 2 4, .ok ⟨[4, 2]⟩⟩], (roller.session calls).2) := by
  intro roller calls keep
  have hanswers : (roller.session calls).1 =
      [⟨.rollDice 5 6, .error (.tooManyDice 5 4)⟩, ⟨.rollDie 6, .ok 3⟩,
        ⟨.throwPool 2 6 ⟨5, 1⟩, .error (.endlessExplosion 1)⟩,
        ⟨.evaluate "d6 +", .error (.parse (.unexpected .term none))⟩,
        ⟨.throwTen ["9again"], .error (.parse (.unexpected .expression none))⟩,
        ⟨.rollDice 2 4, .ok ⟨[4, 2]⟩⟩] := by rfl
  have hrefused : ∀ answered ∈ (roller.session calls).1, keep answered = false →
      answered.call.Refused 4 answered.answer := by
    rw [hanswers]
    simp only [List.forall_mem_cons]
    exact ⟨fun _ => .inr (.inr (by decide)), fun h => (nomatch h),
      fun _ => .inr (.inr (.inr (by decide))), fun _ => ⟨_, rfl⟩, fun _ => ⟨_, rfl⟩,
      fun h => (nomatch h), List.forall_mem_nil _⟩
  have h := ((refusals roller).2.2.2 calls keep).2 hrefused
  rw [hanswers] at h
  exact ⟨inferInstance, hrefused, h⟩

end Sessions

end Dice
