import Dice.Expr.Eval
import Dice.Proofs.Throws
import Dice.Source.Script

/-! Evaluation and exact arithmetic. The account of an expression evaluates it from left
to right over all integers and never gives up: it lists every operation with its
operands, and its dice show the next faces of the source. The evaluator follows the
account up to the first operation that a word cannot hold or that is not allowed, and
fails there with the fault of that operation. Main statement: the value, the failure and
the faces that come up are those of the account. -/

namespace Dice

/-- What can be wrong with an operation. -/
inductive Fault where
  | divisionByZero
  | overflow
  | refused (refusal : Refusal)
deriving Repr, DecidableEq

def EvalError.fault : EvalError → Fault
  | divisionByZero _ => .divisionByZero
  | overflow _ => .overflow
  | refusedDice _ refusal => .refused refusal

/-! ### Operations -/

/-- An operator with its operands, or dice with the faces that they show. -/
inductive Operation where
  | additive (op : AddOp) (left right : Int)
  | multiplicative (op : MulOp) (left right : Int)
  | dice (count sides : Int) (faces : List Int)
deriving Repr, DecidableEq

namespace Operation

/-- The exact result; division drops the fraction. -/
def result : Operation → Int
  | additive .add left right => left + right
  | additive .sub left right => left - right
  | multiplicative .mul left right => left * right
  | multiplicative .div left right => left.tdiv right
  | dice _ _ faces => faces.sum

def faces : Operation → List Int
  | dice _ _ faces => faces
  | _ => []

def Allowed (limit : Nat) : Operation → Prop
  | multiplicative .div _ right => right ≠ 0
  | dice count sides _ => 1 ≤ sides ∧ 1 ≤ count ∧ count ≤ limit
  | _ => True

/-- The operation is allowed, and a word can hold its result. -/
def Sound (limit : Nat) (operation : Operation) : Prop :=
  operation.Allowed limit ∧ Word.Fits operation.result

/-- Why the operation is not allowed. -/
def objection? (limit : Nat) : Operation → Option Fault
  | multiplicative .div _ right => if right = 0 then some .divisionByZero else none
  | dice count sides _ =>
    if sides < 1 then some (.refused (.noSides sides))
    else if count < 1 then some (.refused (.noDice count))
    else if limit < count then some (.refused (.tooManyDice count.toNat limit))
    else none
  | _ => none

/-- Why the operation fails. -/
def fault? (limit : Nat) (operation : Operation) : Option Fault :=
  (operation.objection? limit).or (if Word.Fits operation.result then none else some .overflow)

/-- The faces that come up: dice that are not allowed are not thrown. -/
def thrown (limit : Nat) (operation : Operation) : List Int :=
  if operation.objection? limit = none then operation.faces else []

variable {limit : Nat} {operation : Operation}

theorem objection?_eq_none_iff : operation.objection? limit = none ↔ operation.Allowed limit := by
  rcases operation with _ | ⟨_ | _, _, right⟩ | ⟨count, sides, faces⟩
  · simp [objection?, Allowed]
  · simp [objection?, Allowed]
  · by_cases hright : right = 0 <;> simp [objection?, Allowed, hright]
  · simp only [objection?, Allowed]
    split
    · simp; omega
    split
    · simp; omega
    split
    · simp; omega
    · simp; omega

theorem fault?_eq_none_iff : operation.fault? limit = none ↔ operation.Sound limit := by
  rw [fault?, Option.or_eq_none_iff, objection?_eq_none_iff, Sound]
  simp

theorem thrown_of_fault?_eq_none (h : operation.fault? limit = none) :
    operation.thrown limit = operation.faces := by
  rw [thrown, if_pos (Option.or_eq_none_iff.mp h).1]

end Operation

/-! ### Accounts -/

/-- What an evaluation over all integers does. -/
structure Account (σ : Type) where
  value : Int
  /-- The operations, in the order in which they are applied. -/
  operations : List Operation
  /-- The source after the last die. -/
  source : σ

namespace Account

variable {limit : Nat}

def firstFault? (limit : Nat) (operations : List Operation) : Option Fault :=
  operations.findSome? (Operation.fault? limit)

/-- The faces that come up until an operation fails. -/
def thrown (limit : Nat) : List Operation → List Int
  | [] => []
  | operation :: operations =>
    operation.thrown limit ++
      if operation.fault? limit = none then thrown limit operations else []

theorem firstFault?_eq_none_iff {operations : List Operation} :
    firstFault? limit operations = none ↔
      ∀ operation ∈ operations, operation.fault? limit = none :=
  List.findSome?_eq_none_iff

theorem firstFault?_append (a b : List Operation) :
    firstFault? limit (a ++ b) = (firstFault? limit a).or (firstFault? limit b) := by
  rw [firstFault?, List.findSome?_append, firstFault?, firstFault?]

@[simp] theorem firstFault?_singleton (operation : Operation) :
    firstFault? limit [operation] = operation.fault? limit := by
  simp [firstFault?]

theorem thrown_append (a b : List Operation) :
    thrown limit (a ++ b) =
      thrown limit a ++ if firstFault? limit a = none then thrown limit b else [] := by
  induction a with
  | nil => simp [thrown, firstFault?]
  | cons operation a ih =>
    rw [List.cons_append, thrown, thrown, ih, List.append_assoc]
    cases h : operation.fault? limit <;> simp [firstFault?, h]

theorem thrown_of_sound {operations : List Operation}
    (h : ∀ operation ∈ operations, operation.fault? limit = none) :
    thrown limit operations = operations.flatMap Operation.faces := by
  induction operations with
  | nil => rfl
  | cons operation operations ih =>
    have hfirst := h operation List.mem_cons_self
    have hrest := ih fun operation hmem => h operation (List.mem_cons_of_mem _ hmem)
    rw [thrown, if_pos hfirst, hrest, Operation.thrown_of_fault?_eq_none hfirst, List.flatMap_cons]

theorem thrown_of_fault {before after : List Operation} {operation : Operation} {fault : Fault}
    (hbefore : ∀ operation ∈ before, operation.fault? limit = none)
    (hfault : operation.fault? limit = some fault) :
    thrown limit (before ++ operation :: after) =
      before.flatMap Operation.faces ++ operation.thrown limit := by
  rw [thrown_append, if_pos (firstFault?_eq_none_iff.mpr hbefore), thrown_of_sound hbefore, thrown,
    if_neg (by simp [hfault]), List.append_nil]

end Account

/-- Evaluates over all integers, from left to right; an operator is applied as soon as its
right operand is known. -/
def Expr.account {σ : Type} [Source σ] : {level : Level} → Expr level → σ → Account σ
  | _, .ofProduct product, s => product.account s
  | _, .additive left op right, s =>
    let left := left.account s
    let right := right.account left.source
    let operation := Operation.additive op left.value right.value
    ⟨operation.result, left.operations ++ right.operations ++ [operation], right.source⟩
  | _, .ofFactor factor, s => factor.account s
  | _, .multiplicative left op right, s =>
    let left := left.account s
    let right := right.account left.source
    let operation := Operation.multiplicative op left.value right.value
    ⟨operation.result, left.operations ++ right.operations ++ [operation], right.source⟩
  | _, .ofValue value, s => value.account s
  | _, .dice count sides, s =>
    let count := count.account s
    let sides := sides.account count.source
    let faces := Source.faces sides.value count.value.toNat sides.source
    let operation := Operation.dice count.value sides.value faces
    ⟨operation.result, count.operations ++ sides.operations ++ [operation],
      Source.after sides.value count.value.toNat sides.source⟩
  | _, .const n, s => ⟨n, [], s⟩
  | _, .paren inner, s => inner.account s

/-! ### Following an account -/

section Follows

variable {σ : Type} [Source σ] {limit : Nat}

/-- Carrying out the play comes out as the account says, up to the first fault. -/
structure Follows (limit : Nat) (play : Play EvalError Outcome) (s : σ) (account : Account σ) :
    Prop where
  faces : play.faces s = Account.thrown limit account.operations
  run : match Account.firstFault? limit account.operations with
    | none => ∃ expansion, play.run s = (.ok ⟨account.value, expansion⟩, account.source)
    | some fault => ∃ error, (play.run s).1 = .error error ∧ error.fault = fault

namespace Follows

theorem done (value : Int) (expansion : String) (s : σ) :
    Follows limit (.done ⟨value, expansion⟩) s ⟨value, [], s⟩ :=
  ⟨rfl, expansion, rfl⟩

/-- A play that goes on with the value of an account goes on with its source, and its
operations come after those of the account. -/
theorem bind {play : Play EvalError Outcome} {next : Outcome → Play EvalError Outcome} {s : σ}
    {a : Account σ} {value : Int} {operations : List Operation} {source : σ}
    (ha : Follows limit play s a)
    (hb : ∀ expansion,
      Follows limit (next ⟨a.value, expansion⟩) a.source ⟨value, operations, source⟩) :
    Follows limit (play >>= next) s ⟨value, a.operations ++ operations, source⟩ := by
  have hrun := ha.run
  cases hfault : Account.firstFault? limit a.operations with
  | none =>
    rw [hfault] at hrun
    obtain ⟨expansion, hrun⟩ := hrun
    constructor
    · rw [Play.faces_bind_of_ok hrun, ha.faces, (hb expansion).faces, Account.thrown_append,
        if_pos hfault]
    · simp only [Account.firstFault?_append, hfault, Option.none_or, Play.run_bind, hrun]
      exact (hb expansion).run
  | some fault =>
    rw [hfault] at hrun
    obtain ⟨error, hrun, hkind⟩ := hrun
    replace hrun : play.run s = (.error error, (play.run s).2) := Prod.ext hrun rfl
    constructor
    · rw [Play.faces_bind_of_error hrun, ha.faces, Account.thrown_append, if_neg (by simp [hfault]),
        List.append_nil]
    · simp only [Account.firstFault?_append, hfault, Option.some_or, Play.run_bind]
      rw [hrun]
      exact ⟨error, rfl, hkind⟩

/-- A last operation, which throws no dice. -/
theorem ofExcept {operation : Operation} {result : Except EvalError Outcome} {s : σ}
    (hfaces : operation.faces = [])
    (hresult : match operation.fault? limit with
      | none => ∃ expansion, result = .ok ⟨operation.result, expansion⟩
      | some fault => ∃ error, result = .error error ∧ error.fault = fault) :
    Follows limit (Play.ofExcept result) s ⟨operation.result, [operation], s⟩ := by
  refine ⟨by simp [Account.thrown, Operation.thrown, hfaces], ?_⟩
  rw [Account.firstFault?_singleton]
  cases hfault : operation.fault? limit with
  | none =>
    rw [hfault] at hresult
    obtain ⟨expansion, rfl⟩ := hresult
    exact ⟨expansion, rfl⟩
  | some fault =>
    rw [hfault] at hresult
    obtain ⟨error, rfl, hkind⟩ := hresult
    exact ⟨error, rfl, hkind⟩

end Follows

/-- The outcome of a value is refused exactly if no word can hold the value. -/
theorem Outcome.ofValue_spec (value : Int) (expansion : String) :
    match (if Word.Fits value then none else some Fault.overflow) with
      | none => ∃ expansion', Outcome.ofValue value expansion = .ok ⟨value, expansion'⟩
      | some fault =>
        ∃ error, Outcome.ofValue value expansion = .error error ∧ error.fault = fault := by
  unfold Outcome.ofValue Word.ofInt?
  split <;> simp_all [EvalError.fault]

theorem AddOp.follows_apply (op : AddOp) (left right : Outcome) (s : σ) :
    Follows limit (Play.ofExcept (op.apply left right)) s
      ⟨(Operation.additive op left.value right.value).result,
        [.additive op left.value right.value], s⟩ := by
  refine Follows.ofExcept rfl ?_
  cases op <;> exact Outcome.ofValue_spec _ _

theorem MulOp.follows_apply (op : MulOp) (left right : Outcome) (s : σ) :
    Follows limit (Play.ofExcept (op.apply left right)) s
      ⟨(Operation.multiplicative op left.value right.value).result,
        [.multiplicative op left.value right.value], s⟩ := by
  refine Follows.ofExcept rfl ?_
  cases op with
  | mul => exact Outcome.ofValue_spec _ _
  | div =>
    by_cases hright : right.value = 0
    · simp [Operation.fault?, Operation.objection?, MulOp.apply, hright, EvalError.fault]
    · simp only [Operation.fault?, Operation.objection?, MulOp.apply, hright, ↓reduceIte,
        Option.none_or]
      exact Outcome.ofValue_spec _ _

theorem Operation.objection?_dice (count sides : Int) (faces : List Int) :
    (Operation.dice count sides faces).objection? limit =
      match allowRoll limit count sides with
      | .ok _ => none
      | .error refusal => some (.refused refusal) := by
  unfold Operation.objection? allowRoll allowSides allowCount
  by_cases hsides : sides < 1
  · simp [hsides, bind, Except.bind]
  by_cases hcount : count < 1
  · simp [hsides, hcount, bind, Except.bind]
  have hneg : ¬ count < 0 := by omega
  by_cases hlimit : (limit : Int) < count
  · have hmany : ¬ count.toNat ≤ limit := by omega
    simp [hsides, hcount, hneg, hlimit, hmany, bind, Except.bind]
  · have hfew : count.toNat ≤ limit := by omega
    simp only [hsides, hcount, hneg, hlimit, hfew, ↓reduceIte, bind, Except.bind]

variable [LawfulSource σ]

theorem follows_rollTerm (term : String) (count sides : Int) (s : σ) :
    Follows limit (rollTerm limit term count sides) s
      ⟨(Source.faces sides count.toNat s).sum,
        [.dice count sides (Source.faces sides count.toNat s)],
        Source.after sides count.toNat s⟩ := by
  have hobjection := @Operation.objection?_dice limit count sides (Source.faces sides count.toNat s)
  cases hallow : allowRoll limit count sides with
  | error refusal =>
    rw [hallow] at hobjection
    have hrun : ((rollDice limit count sides).mapError (EvalError.refusedDice term)).run s =
        (.error (.refusedDice term refusal), s) := by
      rw [Play.run_mapError, run_rollDice_of_error hallow]
      rfl
    constructor
    · rw [rollTerm, Play.faces_bind_of_error hrun, Play.faces_mapError, faces_rollDice, hallow]
      simp [Account.thrown, Operation.thrown, Operation.fault?, hobjection]
    · simp only [Account.firstFault?_singleton, Operation.fault?, hobjection, Option.some_or,
        rollTerm, Play.run_bind, hrun]
      exact ⟨_, rfl, rfl⟩
  | ok n =>
    rw [hallow] at hobjection
    obtain ⟨hsides, -, -, rfl⟩ := allowRoll_eq_ok_iff.mp hallow
    have hrun : ((rollDice limit n sides).mapError (EvalError.refusedDice term)).run s =
        (.ok ⟨Source.faces sides n s⟩, Source.after sides n s) := by
      rw [Play.run_mapError, run_rollDice_of_ok hallow]
      rfl
    have htotal : Roll.total? ⟨Source.faces sides n s⟩ = Word.ofInt? (Source.faces sides n s).sum :=
      Roll.total?_of_nonneg fun face hface =>
        Int.le_of_lt (Source.one_le_of_mem_faces hsides hface)
    rw [Int.toNat_natCast] at *
    constructor
    · rw [rollTerm, Play.faces_bind_of_ok hrun, Play.faces_mapError, faces_rollDice, hallow, htotal]
      cases Word.ofInt? (Source.faces sides n s).sum <;>
        simp [Account.thrown, Operation.thrown, Operation.faces, hobjection, Play.faces]
    · by_cases hfits : Word.Fits (Operation.dice n sides (Source.faces sides n s)).result
      · have hvalue := htotal.trans (Word.ofInt?_eq_some_iff.mpr ⟨hfits, rfl⟩)
        simp only [Account.firstFault?_singleton, Operation.fault?, hobjection, Option.none_or,
          if_pos hfits, rollTerm, Play.run_bind, hrun, hvalue]
        exact ⟨_, rfl⟩
      · have hvalue := htotal.trans (Word.ofInt?_eq_none_iff.mpr hfits)
        simp only [Account.firstFault?_singleton, Operation.fault?, hobjection, Option.none_or,
          if_neg hfits, rollTerm, Play.run_bind, hrun, hvalue]
        exact ⟨_, rfl, rfl⟩

/-- The evaluator follows the account of the expression. -/
theorem Expr.follows_eval {level : Level} (limit : Nat) (e : Expr level) (s : σ) :
    Follows limit (e.eval limit) s (e.account s) := by
  induction e generalizing s with
  | ofProduct product ih => exact ih s
  | ofFactor factor ih => exact ih s
  | ofValue value ih => exact ih s
  | additive left op right ihl ihr =>
    rw [Expr.account, List.append_assoc]
    exact .bind (ihl s) fun _ => .bind (ihr _) fun _ => AddOp.follows_apply ..
  | multiplicative left op right ihl ihr =>
    rw [Expr.account, List.append_assoc]
    exact .bind (ihl s) fun _ => .bind (ihr _) fun _ => MulOp.follows_apply ..
  | dice count sides ihc ihs =>
    rw [Expr.account, List.append_assoc]
    exact .bind (ihc s) fun _ => .bind (ihs _) fun _ => follows_rollTerm ..
  | const n => exact Follows.done n (toString n) s
  | paren inner ih =>
    have h : Follows limit ((paren inner).eval limit) s
        ⟨(inner.account s).value, (inner.account s).operations ++ [], (inner.account s).source⟩ :=
      .bind (ih s) fun expansion => .done _ ("( " ++ expansion ++ " )") _
    rwa [List.append_nil] at h

/-- An expression has a value exactly if every operation of its account is sound, and then it
has the value of the account. Otherwise it fails with the fault of the first operation
that is not. The dice that are thrown are those of the operations up to that one. -/
theorem Expr.eval_exact {level : Level} (e : Expr level) (limit : Nat) (s : σ) :
    let operations := (e.account s).operations
    let run := (e.eval limit).run s
    let faces := (e.eval limit).faces s
    ((∃ outcome, run.1 = .ok outcome) ↔ ∀ operation ∈ operations, operation.Sound limit) ∧
    (∀ outcome, run.1 = .ok outcome →
      outcome.value = (e.account s).value ∧ run.2 = (e.account s).source ∧
      faces = operations.flatMap Operation.faces) ∧
    ∀ error, run.1 = .error error → ∃ before operation after,
      operations = before ++ operation :: after ∧ (∀ earlier ∈ before, earlier.Sound limit) ∧
      operation.fault? limit = some error.fault ∧
      faces = before.flatMap Operation.faces ++ operation.thrown limit := by
  intro operations run faces
  obtain ⟨hfaces, hrun⟩ := follows_eval limit e s
  simp only [← Operation.fault?_eq_none_iff]
  cases hfault : Account.firstFault? limit operations with
  | none =>
    have hsound := Account.firstFault?_eq_none_iff.mp hfault
    rw [hfault] at hrun
    obtain ⟨expansion, hrun⟩ := hrun
    refine ⟨⟨fun _ => hsound, fun _ => ⟨_, congrArg Prod.fst hrun⟩⟩, ?_, ?_⟩
    · intro outcome houtcome
      obtain rfl := Except.ok.inj ((congrArg Prod.fst hrun).symm.trans houtcome)
      exact ⟨rfl, congrArg Prod.snd hrun, hfaces.trans (Account.thrown_of_sound hsound)⟩
    · intro error herror
      cases (congrArg Prod.fst hrun).symm.trans herror
  | some fault =>
    rw [hfault] at hrun
    obtain ⟨error, hrun, hkind⟩ := hrun
    obtain ⟨before, operation, after, hsplit, hoperation, hbefore⟩ :=
      List.findSome?_eq_some_iff.mp hfault
    refine ⟨⟨?_, ?_⟩, ?_, ?_⟩
    · rintro ⟨outcome, houtcome⟩
      cases hrun.symm.trans houtcome
    · intro hsound
      have hnone := Account.firstFault?_eq_none_iff.mpr hsound
      cases hnone.symm.trans hfault
    · intro outcome houtcome
      cases hrun.symm.trans houtcome
    · intro error' herror
      obtain rfl := Except.error.inj (hrun.symm.trans herror)
      refine ⟨before, operation, after, hsplit, hbefore, hkind ▸ hoperation, ?_⟩
      rw [← Account.thrown_of_fault hbefore hoperation, ← hsplit]
      exact hfaces

/-- In `10 / (1d2 - 1) + 3d6` a one on the first die ends the evaluation. -/
theorem Expr.eval_exact_division :
    let e : Expr .sum := .additive
      (.ofProduct (.multiplicative (.ofFactor (.ofValue (.const 10))) .div (.ofValue (.paren
        (.additive (.ofProduct (.ofFactor (.dice (.const 1) (.const 2)))) .sub
          (.ofFactor (.ofValue (.const 1))))))))
      .add (.ofFactor (.dice (.const 3) (.const 6)))
    let s := Script.ofFaces [1, 2, 6]
    LawfulSource Script ∧ ((e.eval 10).run s).1 = .error (.divisionByZero "10 / ( [1] - 1 )") ∧
      (e.eval 10).faces s = [1] ∧ ¬ ∀ operation ∈ (e.account s).operations, operation.Sound 10 := by
  intro e s
  have hrun : ((e.eval 10).run s).1 = .error (.divisionByZero "10 / ( [1] - 1 )") := rfl
  refine ⟨inferInstance, hrun, rfl, fun hsound => ?_⟩
  obtain ⟨outcome, houtcome⟩ := (eval_exact e 10 s).1.mpr hsound
  cases hrun.symm.trans houtcome

end Follows

end Dice
