import Dice.Proofs.Expr.Expansion

/-! What a failure quotes. An operation that fails has the expansions of its operands beside
it, so its context is the text of an expression without dice in which the same operation is
the last to be applied, to the same values; dice that fail are quoted as their term is
written. Main statement: the context of a failed operation is read as an expression that
fails in the same way, and the context of failed dice as a term of the expression. -/

namespace Dice

/-- The failure with the given fault, told with a context. -/
def Fault.quote (context : String) : Fault → EvalError
  | divisionByZero => .divisionByZero context
  | overflow => .overflow context
  | refused refusal => .refusedDice context refusal

@[simp] theorem Fault.fault_quote (context : String) (fault : Fault) :
    (fault.quote context).fault = fault := by
  cases fault <;> rfl

/-! ### Operations that fail -/

theorem Outcome.ofValue_eq (value : Int) (expansion : String) :
    ofValue value expansion = (if Word.Fits value then none else some Fault.overflow).elim
      (.ok ⟨value, expansion⟩) fun fault => .error (fault.quote expansion) := by
  unfold ofValue Word.ofInt?
  by_cases h : Word.Fits value <;> simp [h, Fault.quote]

/-- The values of the operands decide whether an operation fails, and a failure quotes its
expansion. -/
theorem AddOp.apply_eq (op : AddOp) (left right : Outcome) :
    op.apply left right = ((Operation.additive op left.value right.value).fault? 0).elim
      (.ok ⟨(Operation.additive op left.value right.value).result, left.join op.text right⟩)
      fun fault => .error (fault.quote (left.join op.text right)) := by
  cases op <;> exact Outcome.ofValue_eq _ _

theorem MulOp.apply_eq (op : MulOp) (left right : Outcome) :
    op.apply left right = ((Operation.multiplicative op left.value right.value).fault? 0).elim
      (.ok ⟨(Operation.multiplicative op left.value right.value).result, left.join op.text right⟩)
      fun fault => .error (fault.quote (left.join op.text right)) := by
  cases op with
  | mul => exact Outcome.ofValue_eq _ _
  | div =>
    by_cases hright : right.value = 0
    · simp [apply, Operation.fault?, Operation.objection?, hright, Fault.quote]
    · simp only [apply, Operation.fault?, Operation.objection?, hright, ↓reduceIte, Option.none_or]
      exact Outcome.ofValue_eq _ _

theorem AddOp.apply_eq_error_iff {op : AddOp} {left right : Outcome} {error : EvalError} :
    op.apply left right = .error error ↔
      ∃ fault, (Operation.additive op left.value right.value).fault? 0 = some fault ∧
        error = fault.quote (left.join op.text right) := by
  rw [apply_eq]
  cases (Operation.additive op left.value right.value).fault? 0 <;> simp [eq_comm]

theorem MulOp.apply_eq_error_iff {op : MulOp} {left right : Outcome} {error : EvalError} :
    op.apply left right = .error error ↔
      ∃ fault, (Operation.multiplicative op left.value right.value).fault? 0 = some fault ∧
        error = fault.quote (left.join op.text right) := by
  rw [apply_eq]
  cases (Operation.multiplicative op left.value right.value).fault? 0 <;> simp [eq_comm]

/-- Only dice are refused. -/
theorem Operation.fault_ne_refused {limit : Nat} {operation : Operation} {fault : Fault}
    (h : operation.fault? limit = some fault)
    (hdice : ∀ count sides faces, operation ≠ .dice count sides faces) (refusal : Refusal) :
    fault ≠ .refused refusal := by
  rintro rfl
  rcases operation with ⟨op, left, right⟩ | ⟨_ | _, left, right⟩ | ⟨count, sides, faces⟩
  · simp [fault?, objection?] at h
  · simp [fault?, objection?] at h
  · by_cases hright : right = 0 <;> simp [fault?, objection?, hright] at h
  · exact hdice count sides faces rfl

namespace Expr

/-- Evaluation throws no die and fails with the fault, whatever the limit. -/
def Fails {level : Level} (e : Expr level) (fault : Fault) : Prop :=
  ∀ limit, ∃ error, e.eval limit = .fail error ∧ error.fault = fault

variable {fault : Fault} {a b : Int}

theorem Settled.fails_additive {left : Expr .sum} {op : AddOp} {right : Expr .product}
    (hl : left.Settled a) (hr : right.Settled b)
    (h : (Operation.additive op a b).fault? 0 = some fault) :
    (Expr.additive left op right).Fails fault := by
  intro limit
  obtain ⟨x, hleft⟩ := hl limit
  obtain ⟨y, hright⟩ := hr limit
  have heval : (Expr.additive left op right).eval limit =
      Play.ofExcept (op.apply ⟨a, x⟩ ⟨b, y⟩) := by
    rw [eval, hleft, Play.done_bind, hright, Play.done_bind]
  rw [AddOp.apply_eq_error_iff.mpr ⟨fault, h, rfl⟩] at heval
  exact ⟨_, heval, Fault.fault_quote _ fault⟩

theorem Settled.fails_multiplicative {left : Expr .product} {op : MulOp} {right : Expr .factor}
    (hl : left.Settled a) (hr : right.Settled b)
    (h : (Operation.multiplicative op a b).fault? 0 = some fault) :
    (Expr.multiplicative left op right).Fails fault := by
  intro limit
  obtain ⟨x, hleft⟩ := hl limit
  obtain ⟨y, hright⟩ := hr limit
  have heval : (Expr.multiplicative left op right).eval limit =
      Play.ofExcept (op.apply ⟨a, x⟩ ⟨b, y⟩) := by
    rw [eval, hleft, Play.done_bind, hright, Play.done_bind]
  rw [MulOp.apply_eq_error_iff.mpr ⟨fault, h, rfl⟩] at heval
  exact ⟨_, heval, Fault.fault_quote _ fault⟩

/-! ### Dice terms of an expression -/

/-- A dice term alone, as an expression. -/
def ofTerm (count sides : Expr .value) : Expr .sum := .ofProduct (.ofFactor (.dice count sides))

/-- A text that is read as a dice term of the expression, and nothing else. -/
def NamesTerm (e : Expr .sum) (text : String) : Prop :=
  ∃ count sides, parsePlain text = .ok (ofTerm count sides) ∧ (count, sides) ∈ e.diceTerms

/-- The text of a dice term names it. -/
theorem namesTerm_text {e : Expr .sum} {count sides : Expr .value}
    (hnumbers : ∀ n ∈ (dice count sides).constants, 0 ≤ n ∧ n ≤ Word.greatest)
    (hnesting : (dice count sides).nesting ≤ nestingLimit) (h : (count, sides) ∈ e.diceTerms) :
    e.NamesTerm (dice count sides).text := by
  have hread : ofChars (ofTerm count sides).text.toList = .ok (ofTerm count sides) := by
    refine ofChars_text_eq_ok_iff.mpr ⟨rfl, fun n hn => ?_, fun n hn => (hnumbers n hn).1, hnesting⟩
    have := hnumbers n hn
    omega
  exact ⟨count, sides, parsePlain_eq_ok_iff.mpr hread, h⟩

end Expr

/-! ### What is quoted -/

/-- With round brackets for square ones, the text is read as an expression without dice that
fails with the fault. -/
def Reenacts (text : String) (fault : Fault) : Prop :=
  ∃ e, Expr.parse (roundBrackets text) = .ok e ∧ e.diceTerms = [] ∧ e.Fails fault

/-- What a failure of the expression is about: an operation on values that came about, or the
dice of a term. -/
inductive Quotes {level : Level} (e : Expr level) : EvalError → Prop where
  | operation {e' : Expr .sum} {fault : Fault} {context : String} :
    Transcribes context e' → e'.nesting ≤ e.nesting + 1 → e'.Fails fault →
      (∀ refusal, fault ≠ .refused refusal) → Quotes e (fault.quote context)
  | term {count sides : Expr .value} {fault : Fault} :
    (∀ n ∈ (Expr.dice count sides).constants, 0 ≤ n ∧ n ≤ Word.greatest) →
      (Expr.dice count sides).nesting ≤ e.nesting → (count, sides) ∈ e.diceTerms →
      fault ≠ .divisionByZero → Quotes e (fault.quote (Expr.dice count sides).text)

namespace Quotes

/-- A failure of a part is one of the whole. -/
theorem of_part {level level' : Level} {part : Expr level} {e : Expr level'} {error : EvalError}
    (h : Quotes part error) (hnesting : part.nesting ≤ e.nesting)
    (hterms : part.diceTerms ⊆ e.diceTerms) : Quotes e error := by
  cases h with
  | operation htext hdepth hfails hfault =>
    exact .operation htext (Nat.le_trans hdepth (Nat.succ_le_succ hnesting)) hfails hfault
  | term hnumbers hdepth hmem hfault =>
    exact .term hnumbers (Nat.le_trans hdepth hnesting) (hterms hmem) hfault

theorem additive {l l' : Expr .sum} {op : AddOp} {r r' : Expr .product} {left right : Outcome}
    {error : EvalError} (hl : Recounts l l' left) (hr : Recounts r r' right)
    (h : op.apply left right = .error error) : Quotes (.additive l op r) error := by
  obtain ⟨fault, hfault, rfl⟩ := AddOp.apply_eq_error_iff.mp h
  refine .operation (hl.transcribes.additive op hr.transcribes) ?_
    (hl.settled.fails_additive hr.settled hfault) (Operation.fault_ne_refused hfault nofun)
  have := hl.nesting
  have := hr.nesting
  simp only [Expr.nesting]
  omega

theorem multiplicative {l l' : Expr .product} {op : MulOp} {r r' : Expr .factor}
    {left right : Outcome} {error : EvalError} (hl : Recounts l l' left) (hr : Recounts r r' right)
    (h : op.apply left right = .error error) : Quotes (.multiplicative l op r) error := by
  obtain ⟨fault, hfault, rfl⟩ := MulOp.apply_eq_error_iff.mp h
  refine .operation (hl.transcribes.multiplicative op hr.transcribes).ofProduct ?_
    (hl.settled.fails_multiplicative hr.settled hfault) (Operation.fault_ne_refused hfault nofun)
  have := hl.nesting
  have := hr.nesting
  simp only [Expr.nesting]
  omega

end Quotes

/-! ### Evaluation -/

section Evaluation

variable {σ : Type} [Source σ] {limit : Nat}

/-- Dice fail because the roll is refused, or because their sum is too great. -/
theorem run_rollTerm_eq_error {term : String} {count sides : Int} {s t : σ} {error : EvalError}
    (h : (rollTerm limit term count sides).run s = (.error error, t)) :
    ∃ fault, fault ≠ .divisionByZero ∧ error = Fault.quote term fault := by
  rcases Play.run_bind_eq_error_iff.mp h with hroll | ⟨roll, u, -, htotal⟩
  · rw [Play.run_mapError] at hroll
    obtain ⟨refusal, -, rfl⟩ := Expr.mapError_eq_error_iff.mp (congrArg Prod.fst hroll)
    exact ⟨.refused refusal, nofun, rfl⟩
  · cases hsum : roll.total? with
    | none =>
      simp only [hsum] at htotal
      cases htotal
      exact ⟨.overflow, nofun, rfl⟩
    | some total =>
      simp only [hsum] at htotal
      cases htotal

/-- An expression that fails quotes what has failed. -/
theorem Expr.quotes_of_run_eq_error [LawfulSource σ] {level : Level} {e : Expr level}
    (hnumbers : ∀ n ∈ e.constants, 0 ≤ n ∧ n ≤ Word.greatest) {s t : σ} {error : EvalError}
    (h : (e.eval limit).run s = (.error error, t)) : Quotes e error := by
  induction e generalizing s t error with
  | ofProduct product ih => exact (ih hnumbers h).of_part (Nat.le_refl _) (List.Subset.refl _)
  | ofFactor factor ih => exact (ih hnumbers h).of_part (Nat.le_refl _) (List.Subset.refl _)
  | ofValue value ih => exact (ih hnumbers h).of_part (Nat.le_refl _) (List.Subset.refl _)
  | additive left op right ihl ihr =>
    simp only [constants, List.forall_mem_append] at hnumbers
    rcases Play.run_bind_eq_error_iff.mp h with h | ⟨a, u, ha, h⟩
    · exact (ihl hnumbers.1 h).of_part (Nat.le_max_left ..) (List.subset_append_left ..)
    rcases Play.run_bind_eq_error_iff.mp h with h | ⟨b, v, hb, h⟩
    · exact (ihr hnumbers.2 h).of_part (Nat.le_max_right ..) (List.subset_append_right ..)
    rw [Play.run_ofExcept] at h
    obtain ⟨left', hleft⟩ := exists_recounts hnumbers.1 ha
    obtain ⟨right', hright⟩ := exists_recounts hnumbers.2 hb
    exact .additive hleft hright (congrArg Prod.fst h)
  | multiplicative left op right ihl ihr =>
    simp only [constants, List.forall_mem_append] at hnumbers
    rcases Play.run_bind_eq_error_iff.mp h with h | ⟨a, u, ha, h⟩
    · exact (ihl hnumbers.1 h).of_part (Nat.le_max_left ..) (List.subset_append_left ..)
    rcases Play.run_bind_eq_error_iff.mp h with h | ⟨b, v, hb, h⟩
    · exact (ihr hnumbers.2 h).of_part (Nat.le_max_right ..) (List.subset_append_right ..)
    rw [Play.run_ofExcept] at h
    obtain ⟨left', hleft⟩ := exists_recounts hnumbers.1 ha
    obtain ⟨right', hright⟩ := exists_recounts hnumbers.2 hb
    exact .multiplicative hleft hright (congrArg Prod.fst h)
  | dice count sides ihc ihs =>
    obtain ⟨hcount, hsides⟩ := List.forall_mem_append.mp hnumbers
    rcases Play.run_bind_eq_error_iff.mp h with h | ⟨a, u, -, h⟩
    · exact (ihc hcount h).of_part (Nat.le_max_left ..) (by simp [diceTerms])
    rcases Play.run_bind_eq_error_iff.mp h with h | ⟨b, v, -, h⟩
    · exact (ihs hsides h).of_part (Nat.le_max_right ..) (by simp [diceTerms])
    obtain ⟨fault, hfault, rfl⟩ := run_rollTerm_eq_error h
    exact .term hnumbers (Nat.le_refl _) (by simp [diceTerms]) hfault
  | const n => cases h
  | paren inner ih =>
    rcases Play.run_bind_eq_error_iff.mp h with h | ⟨a, u, -, h⟩
    · exact (ih hnumbers h).of_part (Nat.le_succ _) (List.Subset.refl _)
    · cases h

/-- The context of a failed operation is read, with round brackets for square ones, as an
expression without dice that fails in the same way, and it has no `d`. The context of failed
dice has one, and is read as the dice term. -/
theorem Expr.eval_error_context [LawfulSource σ] (e : Expr .sum)
    (hwords : ∀ n ∈ e.constants, Word.Fits n) (hnatural : ∀ n ∈ e.constants, 0 ≤ n)
    (hnesting : e.nesting < nestingLimit) (limit : Nat) (s : σ) (error : EvalError)
    (h : ((e.eval limit).run s).1 = .error error) :
    match error with
    | .divisionByZero context => Reenacts context .divisionByZero
    | .overflow context => ('d' ∉ context.toList → Reenacts context .overflow) ∧
      ('d' ∈ context.toList → e.NamesTerm context)
    | .refusedDice context _ => e.NamesTerm context := by
  have hnumbers : ∀ n ∈ e.constants, 0 ≤ n ∧ n ≤ Word.greatest := fun n hn =>
    ⟨hnatural n hn, (hwords n hn).2⟩
  have hrun : (e.eval limit).run s = (.error error, ((e.eval limit).run s).2) := Prod.ext h rfl
  cases quotes_of_run_eq_error hnumbers hrun with
  | @operation e' fault context htext hdepth hfails hfault =>
    have hreenacts : Reenacts context fault :=
      ⟨e', htext.parse_eq_ok (Nat.le_trans hdepth hnesting), htext.diceless, hfails⟩
    cases fault with
    | divisionByZero => exact hreenacts
    | overflow => exact ⟨fun _ => hreenacts, fun hd => absurd hd htext.not_mem_dice⟩
    | refused refusal => exact absurd rfl (hfault refusal)
  | @term count sides fault hterm hdepth hmem hfault =>
    have hnames := namesTerm_text hterm (Nat.le_trans hdepth (Nat.le_of_lt hnesting)) hmem
    have hd : 'd' ∈ (dice count sides).text.toList := by simp [text_dice]
    cases fault with
    | divisionByZero => exact absurd rfl hfault
    | overflow => exact ⟨fun hnone => absurd hd hnone, fun _ => hnames⟩
    | refused refusal => exact hnames

end Evaluation

/-- In `7 + 2 * 3d6 / (1d2 - 1)` the product fails, and the sum does not show. Two dice with the
greatest number of sides fail as a term. -/
theorem Expr.eval_error_context_product :
    let divisor : Expr .value := .paren (.additive (.ofProduct (.ofFactor
      (.dice (.const 1) (.const 2)))) .sub (.ofFactor (.ofValue (.const 1))))
    let product : Expr .product := .multiplicative (.multiplicative
      (.ofFactor (.ofValue (.const 2))) .mul (.dice (.const 3) (.const 6))) .div (.ofValue divisor)
    let e : Expr .sum := .additive (.ofProduct (.ofFactor (.ofValue (.const 7)))) .add product
    let great : Expr .sum := .ofTerm (.const 2) (.const 9223372036854775807)
    let s := Script.ofFaces [3, 4, 5, 1]
    let zeros := Script.ofFaces [0]
    LawfulSource Script ∧ (∀ n ∈ e.constants ++ great.constants, Word.Fits n ∧ 0 ≤ n) ∧
      e.nesting < nestingLimit ∧ great.nesting < nestingLimit ∧
      ((e.eval 10).run s).1 = .error (.divisionByZero "2 * [3 + 4 + 5] / ( [1] - 1 )") ∧
      ((great.eval 10).run zeros).1 = .error (.overflow "2d9223372036854775807") ∧
      Reenacts "2 * [3 + 4 + 5] / ( [1] - 1 )" .divisionByZero ∧
      great.NamesTerm "2d9223372036854775807" := by
  intro divisor product e great s zeros
  have hnumbers : ∀ n ∈ e.constants ++ great.constants, Word.Fits n ∧ 0 ≤ n := by decide
  have hboth := List.forall_mem_append.mp hnumbers
  have hrun : ((e.eval 10).run s).1 =
    .error (.divisionByZero "2 * [3 + 4 + 5] / ( [1] - 1 )") := rfl
  have hgreat : ((great.eval 10).run zeros).1 = .error (.overflow "2d9223372036854775807") := rfl
  refine ⟨inferInstance, hnumbers, by decide, by decide, hrun, hgreat, ?_, ?_⟩
  · exact eval_error_context e (fun n hn => (hboth.1 n hn).1) (fun n hn => (hboth.1 n hn).2)
      (by decide) 10 s _ hrun
  · exact (eval_error_context great (fun n hn => (hboth.2 n hn).1) (fun n hn => (hboth.2 n hn).2)
      (by decide) 10 zeros _ hgreat).2 (by decide)

end Dice
