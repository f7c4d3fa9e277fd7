import Dice.Expr.Eval
import Std.Data.ExtTreeMap.Basic

/-! How often each result comes up when an expression is evaluated again and again. The
row of a tally is its least result, and after it the count of every number from the
least to the greatest result. -/

namespace Dice

/-- The number of times that a result came up; results that never did are absent. -/
structure Tally where
  counts : Std.ExtTreeMap Int Nat

/-- The greatest number of results that a row can count. -/
def Tally.widestSpan : Nat := 1000000

/-- The results lie too far apart for a row. -/
structure SpanTooWide where
  span : Nat
deriving Repr, DecidableEq

def SpanTooWide.message (error : SpanTooWide) : String :=
  s!"results span {error.span} values, more than the {Tally.widestSpan} a histogram can hold"

namespace Tally

def empty : Tally := ⟨∅⟩

def count (tally : Tally) (value : Int) : Nat := tally.counts.getD value 0

def add (tally : Tally) (value : Int) : Tally :=
  ⟨tally.counts.insert value (tally.count value + 1)⟩

def ofList (values : List Int) : Tally := values.foldl add empty

/-- Evaluates the expression `samples` times and adds the results to the tally. -/
def sample (limit : Nat) (expr : Expr .sum) : (samples : Nat) → Tally → Play EvalError Tally
  | 0, tally => .done tally
  | samples + 1, tally => do
    let outcome ← expr.eval limit
    sample limit expr samples (tally.add outcome.value)

/-- The counts of `span` numbers from `least` on. -/
def countsFrom (tally : Tally) (least : Int) (span : Nat) : List Int :=
  (List.range span).map fun (i : Nat) => (tally.count (least + (i : Int)) : Int)

/-- A tally without results has an empty row. -/
def row (tally : Tally) : Except SpanTooWide (List Int) :=
  match tally.counts.minKey?, tally.counts.maxKey? with
  | some least, some greatest =>
    let span := (greatest - least + 1).toNat
    if span ≤ widestSpan then .ok (least :: tally.countsFrom least span) else .error ⟨span⟩
  | _, _ => .ok []

end Tally

end Dice
