import Dice.Proofs.Expr.Shape

/-! The grammar of dice expressions, over the kinds of words. A sum is a product and then
any number of products, each behind `+` or `-`; a product likewise a row of factors
behind `*` or `/`; a factor is a value, or two values around `d`; a value is a number
or a sum in parentheses. The grammar is written as the trees are, with the last
operand of a row split off, and read as a row of operands it is the same. -/

namespace Dice

open Token (Kind)

/-- The words derive the expression. -/
inductive Derives : {level : Level} → List Kind → Expr level → Prop where
  | ofProduct {a : List Kind} {product : Expr .product} :
    Derives a product → Derives a (.ofProduct product)
  | additive {a b : List Kind} {left : Expr .sum} {op : AddOp} {right : Expr .product} :
    Derives a left → Derives b right → Derives (a ++ .additive op :: b) (.additive left op right)
  | ofFactor {a : List Kind} {factor : Expr .factor} :
    Derives a factor → Derives a (.ofFactor factor)
  | multiplicative {a b : List Kind} {left : Expr .product} {op : MulOp} {right : Expr .factor} :
    Derives a left → Derives b right →
      Derives (a ++ .multiplicative op :: b) (.multiplicative left op right)
  | ofValue {a : List Kind} {value : Expr .value} : Derives a value → Derives a (.ofValue value)
  | dice {a b : List Kind} {count sides : Expr .value} :
    Derives a count → Derives b sides → Derives (a ++ .dice :: b) (.dice count sides)
  | const (n : Nat) : Derives [.integer n] (.const n)
  | paren {a : List Kind} {inner : Expr .sum} :
    Derives a inner → Derives (.openParen :: (a ++ [.closeParen])) (.paren inner)

namespace Expr

variable {level : Level}

theorem derives_kinds {e : Expr level} (h : e.Natural) : Derives e.kinds e := by
  induction e with
  | ofProduct product ih => exact .ofProduct (ih h)
  | ofFactor factor ih => exact .ofFactor (ih h)
  | ofValue value ih => exact .ofValue (ih h)
  | additive left op right ihl ihr =>
    rw [natural_additive] at h
    exact .additive (ihl h.1) (ihr h.2)
  | multiplicative left op right ihl ihr =>
    rw [natural_multiplicative] at h
    exact .multiplicative (ihl h.1) (ihr h.2)
  | dice count sides ihc ihs =>
    rw [natural_dice] at h
    exact .dice (ihc h.1) (ihs h.2)
  | const n =>
    rw [natural_const] at h
    rw [kinds_const h]
    have := Derives.const n.natAbs
    rwa [Int.natAbs_of_nonneg h] at this
  | paren inner ih => exact .paren (ih h)

end Expr

namespace Derives

variable {level : Level} {words : List Kind}

theorem natural {e : Expr level} (h : Derives words e) : e.Natural := by
  induction h with
  | ofProduct _ ih => exact ih
  | ofFactor _ ih => exact ih
  | ofValue _ ih => exact ih
  | additive _ _ ihl ihr => exact Expr.natural_additive.mpr ⟨ihl, ihr⟩
  | multiplicative _ _ ihl ihr => exact Expr.natural_multiplicative.mpr ⟨ihl, ihr⟩
  | dice _ _ ihc ihs => exact Expr.natural_dice.mpr ⟨ihc, ihs⟩
  | const n => exact Expr.natural_const.mpr (by omega)
  | paren _ ih => exact ih

theorem eq_kinds {e : Expr level} (h : Derives words e) : words = e.kinds := by
  induction h with
  | ofProduct _ ih => exact ih
  | ofFactor _ ih => exact ih
  | ofValue _ ih => exact ih
  | additive _ _ ihl ihr => rw [Expr.kinds, ← ihl, ← ihr]
  | multiplicative _ _ ihl ihr => rw [Expr.kinds, ← ihl, ← ihr]
  | dice _ _ ihc ihs => rw [Expr.kinds, ← ihc, ← ihs]
  | const n => rw [Expr.kinds_const (by omega), Int.natAbs_natCast]
  | paren _ ih => rw [Expr.kinds, ← ih]

/-- The words that derive an expression are those of its canonical text. -/
theorem iff_kinds {e : Expr level} : Derives words e ↔ e.Natural ∧ words = e.kinds :=
  ⟨fun h => ⟨h.natural, h.eq_kinds⟩, fun ⟨hn, he⟩ => he ▸ Expr.derives_kinds hn⟩

end Derives

/-! ### Rows of operands -/

/-- Any number of operands, each behind its operator. -/
inductive DerivesRow {ω : Type} {level : Level} (word : ω → Kind) :
    List Kind → List (ω × Expr level) → Prop where
  | nil : DerivesRow word [] []
  | cons {a b : List Kind} {op : ω} {operand : Expr level} {row : List (ω × Expr level)} :
    Derives a operand → DerivesRow word b row →
      DerivesRow word (word op :: (a ++ b)) ((op, operand) :: row)

namespace DerivesRow

variable {ω : Type} {level rowLevel : Level} {word : ω → Kind} {a b : List Kind}

theorem concat {op : ω} {operand : Expr level} {row : List (ω × Expr level)}
    (h : DerivesRow word a row) (ho : Derives b operand) :
    DerivesRow word (a ++ word op :: b) (row ++ [(op, operand)]) := by
  induction h with
  | nil => simpa using @cons ω level word b [] op operand [] ho .nil
  | cons hfirst _ ih => simpa using cons hfirst ih

/-- Operands combined from the left, one after another. -/
theorem derives_foldl {combine : Expr level → ω × Expr rowLevel → Expr level}
    (step : ∀ {a b left op right}, Derives a left → Derives b right →
      Derives (a ++ word op :: b) (combine left (op, right)))
    {row : List (ω × Expr rowLevel)} {left : Expr level} (h : DerivesRow word b row)
    (hleft : Derives a left) : Derives (a ++ b) (row.foldl combine left) := by
  induction h generalizing a left with
  | nil => simpa using hleft
  | cons hfirst _ ih => simpa using ih (step hleft hfirst)

end DerivesRow

namespace Expr

/-- The sum of a product and a row of further ones, from the first. -/
def sumOf (first : Expr .product) (row : List (AddOp × Expr .product)) : Expr .sum :=
  row.foldl (fun left operand => .additive left operand.1 operand.2) (.ofProduct first)

/-- The product of a factor and a row of further ones, from the first. -/
def productOf (first : Expr .factor) (row : List (MulOp × Expr .factor)) : Expr .product :=
  row.foldl (fun left operand => .multiplicative left operand.1 operand.2) (.ofFactor first)

theorem exists_sumOf {words : List Kind} : (e : Expr .sum) → Derives words e →
    ∃ first row a b, e = sumOf first row ∧ words = a ++ b ∧ Derives a first ∧
      DerivesRow .additive b row
  | .ofProduct product, .ofProduct h => ⟨product, [], words, [], rfl, by simp, h, .nil⟩
  | .additive left op right, .additive (b := b) hl hr => by
    obtain ⟨first, row, a, c, rfl, rfl, hfirst, hrow⟩ := exists_sumOf left hl
    refine ⟨first, row ++ [(op, right)], a, c ++ .additive op :: b, ?_, ?_, hfirst, hrow.concat hr⟩
    · simp [sumOf]
    · simp

theorem exists_productOf {words : List Kind} : (e : Expr .product) → Derives words e →
    ∃ first row a b, e = productOf first row ∧ words = a ++ b ∧ Derives a first ∧
      DerivesRow .multiplicative b row
  | .ofFactor factor, .ofFactor h => ⟨factor, [], words, [], rfl, by simp, h, .nil⟩
  | .multiplicative left op right, .multiplicative (b := b) hl hr => by
    obtain ⟨first, row, a, c, rfl, rfl, hfirst, hrow⟩ := exists_productOf left hl
    refine ⟨first, row ++ [(op, right)], a, c ++ .multiplicative op :: b, ?_, ?_, hfirst,
      hrow.concat hr⟩
    · simp [productOf]
    · simp

end Expr

namespace Derives

variable {words : List Kind}

/-- A sum is a product and then products behind `+` or `-`, in the order of the text. -/
theorem sum_iff {e : Expr .sum} :
    Derives words e ↔ ∃ first row a b, e = Expr.sumOf first row ∧ words = a ++ b ∧
      Derives a first ∧ DerivesRow .additive b row := by
  constructor
  · exact Expr.exists_sumOf e
  · rintro ⟨first, row, a, b, rfl, rfl, hfirst, hrow⟩
    exact hrow.derives_foldl (fun hl hr => .additive hl hr) (.ofProduct hfirst)

/-- A product is a factor and then factors behind `*` or `/`, in the order of the text. -/
theorem product_iff {e : Expr .product} :
    Derives words e ↔ ∃ first row a b, e = Expr.productOf first row ∧ words = a ++ b ∧
      Derives a first ∧ DerivesRow .multiplicative b row := by
  constructor
  · exact Expr.exists_productOf e
  · rintro ⟨first, row, a, b, rfl, rfl, hfirst, hrow⟩
    exact hrow.derives_foldl (fun hl hr => .multiplicative hl hr) (.ofFactor hfirst)

end Derives

end Dice
