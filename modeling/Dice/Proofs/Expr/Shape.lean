import Dice.Expr.Basic
import Dice.Expr.Token

/-! What an expression is made of: its numbers, its dice terms, how deep its parentheses
nest, and the words of its canonical text. Of a row of words, only the parentheses
count here: how many are open after it, and at most how many on the way. -/

namespace Dice

open Token (Kind)

namespace Expr

/-- The numbers, in the order in which they are written. -/
def constants : {level : Level} → Expr level → List Int
  | _, .ofProduct product => product.constants
  | _, .additive left _ right => left.constants ++ right.constants
  | _, .ofFactor factor => factor.constants
  | _, .multiplicative left _ right => left.constants ++ right.constants
  | _, .ofValue value => value.constants
  | _, .dice count sides => count.constants ++ sides.constants
  | _, .const n => [n]
  | _, .paren inner => inner.constants

/-- No number is negative. -/
def Natural {level : Level} (e : Expr level) : Prop := ∀ n ∈ e.constants, 0 ≤ n

/-- The dice terms at any depth, each as its count and its sides. -/
def diceTerms : {level : Level} → Expr level → List (Expr .value × Expr .value)
  | _, .ofProduct product => product.diceTerms
  | _, .additive left _ right => left.diceTerms ++ right.diceTerms
  | _, .ofFactor factor => factor.diceTerms
  | _, .multiplicative left _ right => left.diceTerms ++ right.diceTerms
  | _, .ofValue value => value.diceTerms
  | _, .dice count sides => count.diceTerms ++ sides.diceTerms ++ [(count, sides)]
  | _, .const _ => []
  | _, .paren inner => inner.diceTerms

/-- How deep parentheses nest. -/
def nesting : {level : Level} → Expr level → Nat
  | _, .ofProduct product => product.nesting
  | _, .additive left _ right => max left.nesting right.nesting
  | _, .ofFactor factor => factor.nesting
  | _, .multiplicative left _ right => max left.nesting right.nesting
  | _, .ofValue value => value.nesting
  | _, .dice count sides => max count.nesting sides.nesting
  | _, .const _ => 0
  | _, .paren inner => inner.nesting + 1

/-- The kinds of the words of the canonical text. A negative number is two words. -/
def kinds : {level : Level} → Expr level → List Kind
  | _, .ofProduct product => product.kinds
  | _, .additive left op right => left.kinds ++ .additive op :: right.kinds
  | _, .ofFactor factor => factor.kinds
  | _, .multiplicative left op right => left.kinds ++ .multiplicative op :: right.kinds
  | _, .ofValue value => value.kinds
  | _, .dice count sides => count.kinds ++ .dice :: sides.kinds
  | _, .const n => if n < 0 then [.additive .sub, .integer n.natAbs] else [.integer n.natAbs]
  | _, .paren inner => .openParen :: (inner.kinds ++ [.closeParen])

theorem kinds_const {n : Int} (h : 0 ≤ n) : (const n).kinds = [.integer n.natAbs] := by
  simp [kinds, Int.not_lt.mpr h]

section Words

variable {level : Level}

/-- Every number is one of the words, without its sign. -/
theorem integer_mem_kinds {e : Expr level} {n : Int} (h : n ∈ e.constants) :
    .integer n.natAbs ∈ e.kinds := by
  induction e with
  | ofProduct product ih => exact ih h
  | ofFactor factor ih => exact ih h
  | ofValue value ih => exact ih h
  | additive left op right ihl ihr =>
    rcases List.mem_append.mp h with h | h
    · exact List.mem_append_left _ (ihl h)
    · exact List.mem_append_right _ (List.mem_cons_of_mem _ (ihr h))
  | multiplicative left op right ihl ihr =>
    rcases List.mem_append.mp h with h | h
    · exact List.mem_append_left _ (ihl h)
    · exact List.mem_append_right _ (List.mem_cons_of_mem _ (ihr h))
  | dice count sides ihc ihs =>
    rcases List.mem_append.mp h with h | h
    · exact List.mem_append_left _ (ihc h)
    · exact List.mem_append_right _ (List.mem_cons_of_mem _ (ihs h))
  | const m =>
    obtain rfl := List.mem_singleton.mp h
    rw [kinds]
    split <;> simp
  | paren inner ih => exact List.mem_cons_of_mem _ (List.mem_append_left _ (ih h))

/-- The words of a dice term stand among those of every expression around it. -/
theorem kinds_infix {e : Expr level} {term : Expr .value × Expr .value} (h : term ∈ e.diceTerms) :
    (dice term.1 term.2).kinds <:+: e.kinds := by
  induction e with
  | ofProduct product ih => exact ih h
  | ofFactor factor ih => exact ih h
  | ofValue value ih => exact ih h
  | additive left op right ihl ihr =>
    rcases List.mem_append.mp h with h | h
    · exact List.infix_append_of_infix_left (ihl h)
    · exact List.infix_append_of_infix_right (List.infix_cons (ihr h))
  | multiplicative left op right ihl ihr =>
    rcases List.mem_append.mp h with h | h
    · exact List.infix_append_of_infix_left (ihl h)
    · exact List.infix_append_of_infix_right (List.infix_cons (ihr h))
  | dice count sides ihc ihs =>
    simp only [diceTerms, List.mem_append, List.mem_singleton] at h
    rcases h with (h | h) | rfl
    · rw [kinds]
      exact List.infix_append_of_infix_left (ihc h)
    · rw [kinds]
      exact List.infix_append_of_infix_right (List.infix_cons (ihs h))
    · exact List.infix_rfl
  | const n => cases h
  | paren inner ih => exact List.infix_cons (List.infix_append_of_infix_left (ih h))

end Words

section Natural

variable {level : Level}

@[simp] theorem natural_ofProduct {product : Expr .product} :
    (ofProduct product).Natural ↔ product.Natural := Iff.rfl

@[simp] theorem natural_additive {left : Expr .sum} {op : AddOp} {right : Expr .product} :
    (additive left op right).Natural ↔ left.Natural ∧ right.Natural := by
  simp only [Natural, constants, List.forall_mem_append]

@[simp] theorem natural_ofFactor {factor : Expr .factor} :
    (ofFactor factor).Natural ↔ factor.Natural := Iff.rfl

@[simp] theorem natural_multiplicative {left : Expr .product} {op : MulOp} {right : Expr .factor} :
    (multiplicative left op right).Natural ↔ left.Natural ∧ right.Natural := by
  simp only [Natural, constants, List.forall_mem_append]

@[simp] theorem natural_ofValue {value : Expr .value} :
    (ofValue value).Natural ↔ value.Natural := Iff.rfl

@[simp] theorem natural_dice {count sides : Expr .value} :
    (dice count sides).Natural ↔ count.Natural ∧ sides.Natural := by
  simp only [Natural, constants, List.forall_mem_append]

@[simp] theorem natural_const {n : Int} : (const n).Natural ↔ 0 ≤ n := by
  simp [Natural, constants]

@[simp] theorem natural_paren {inner : Expr .sum} : (paren inner).Natural ↔ inner.Natural := Iff.rfl

end Natural

end Expr

/-! ### Open parentheses -/

namespace Token

/-- How many more parentheses are opened than closed. -/
def unclosed (kinds : List Kind) : Int := kinds.count .openParen - kinds.count .closeParen

/-- At no point are more than `limit` parentheses open. -/
def NestsWithin (limit : Int) (kinds : List Kind) : Prop :=
  ∀ part, part <+: kinds → unclosed part ≤ limit

@[simp] theorem unclosed_nil : unclosed [] = 0 := rfl

theorem unclosed_append (a b : List Kind) : unclosed (a ++ b) = unclosed a + unclosed b := by
  simp only [unclosed, List.count_append]
  omega

theorem unclosed_cons (kind : Kind) (a : List Kind) :
    unclosed (kind :: a) = unclosed [kind] + unclosed a := unclosed_append [kind] a

@[simp] theorem nestsWithin_nil {limit : Int} : NestsWithin limit [] ↔ 0 ≤ limit := by
  simp [NestsWithin]

theorem nestsWithin_cons {limit : Int} {kind : Kind} {a : List Kind} :
    NestsWithin limit (kind :: a) ↔ 0 ≤ limit ∧ NestsWithin (limit - unclosed [kind]) a := by
  constructor
  · intro h
    refine ⟨h [] List.nil_prefix, fun part hpart => ?_⟩
    have := h (kind :: part) (List.cons_prefix_cons.mpr ⟨rfl, hpart⟩)
    rw [unclosed_cons] at this
    omega
  · rintro ⟨h0, h⟩ part hpart
    rcases List.prefix_cons_iff.mp hpart with rfl | ⟨part, rfl, hrest⟩
    · exact h0
    · have := h part hrest
      rw [unclosed_cons]
      omega

theorem nestsWithin_append {limit : Int} {a b : List Kind} :
    NestsWithin limit (a ++ b) ↔ NestsWithin limit a ∧ NestsWithin (limit - unclosed a) b := by
  induction a generalizing limit with
  | nil =>
    simp only [List.nil_append, nestsWithin_nil, unclosed_nil, Int.sub_zero, iff_and_self]
    exact fun h => h [] List.nil_prefix
  | cons kind a ih =>
    rw [List.cons_append, nestsWithin_cons, nestsWithin_cons, ih, unclosed_cons kind a, and_assoc,
      Int.sub_sub]

end Token

namespace Expr

open Token (unclosed NestsWithin unclosed_append unclosed_cons nestsWithin_cons nestsWithin_append)

/-- Every parenthesis of an expression is closed again. -/
theorem unclosed_kinds {level : Level} (e : Expr level) : unclosed e.kinds = 0 := by
  induction e with
  | ofProduct product ih => exact ih
  | ofFactor factor ih => exact ih
  | ofValue value ih => exact ih
  | additive left op right ihl ihr => rw [kinds, unclosed_append, unclosed_cons, ihl, ihr]; rfl
  | multiplicative left op right ihl ihr =>
    rw [kinds, unclosed_append, unclosed_cons, ihl, ihr]
    rfl
  | dice count sides ihc ihs => rw [kinds, unclosed_append, unclosed_cons, ihc, ihs]; rfl
  | const n => rw [kinds]; split <;> rfl
  | paren inner ih => rw [kinds, unclosed_cons, unclosed_append, ih]; rfl

theorem nestsWithin_const (n limit : Int) : NestsWithin limit (const n).kinds ↔ 0 ≤ limit := by
  have hsub : unclosed [.additive .sub] = 0 := rfl
  have hint : unclosed [.integer n.natAbs] = 0 := rfl
  rw [kinds]
  split <;> simp [nestsWithin_cons, hsub, hint]

/-- A word between two operands opens nothing. -/
theorem nestsWithin_operands {l r : Level} (left : Expr l) (right : Expr r) {kind : Token.Kind}
    (h : unclosed [kind] = 0) (limit : Int) :
    NestsWithin limit (left.kinds ++ kind :: right.kinds) ↔
      NestsWithin limit left.kinds ∧ NestsWithin limit right.kinds := by
  rw [nestsWithin_append, nestsWithin_cons, unclosed_kinds, h, Int.sub_zero, Int.sub_zero]
  refine and_congr_right fun _ => and_iff_right_of_imp fun hr => ?_
  exact hr [] List.nil_prefix

/-- As many parentheses are open at once as the expression nests. -/
theorem nestsWithin_kinds {level : Level} (e : Expr level) (limit : Int) :
    NestsWithin limit e.kinds ↔ (e.nesting : Int) ≤ limit := by
  induction e generalizing limit with
  | ofProduct product ih => exact ih limit
  | ofFactor factor ih => exact ih limit
  | ofValue value ih => exact ih limit
  | additive left op right ihl ihr =>
    rw [kinds, nestsWithin_operands left right rfl, ihl, ihr, nesting]
    omega
  | multiplicative left op right ihl ihr =>
    rw [kinds, nestsWithin_operands left right rfl, ihl, ihr, nesting]
    omega
  | dice count sides ihc ihs =>
    rw [kinds, nestsWithin_operands count sides rfl, ihc, ihs, nesting]
    omega
  | const n => exact nestsWithin_const n limit
  | paren inner ih =>
    have hopen : unclosed [.openParen] = 1 := rfl
    have hclose : unclosed [.closeParen] = -1 := rfl
    rw [kinds, nestsWithin_cons, nestsWithin_append, nestsWithin_cons, Token.nestsWithin_nil, ih,
      unclosed_kinds, hopen, hclose, nesting]
    omega

end Expr

end Dice
