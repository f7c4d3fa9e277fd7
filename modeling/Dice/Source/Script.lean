import Dice.Source.Basic
import Dice.Word

/-! Faces that are given in advance, used from the first to the last and then again. A
face that the die does not have is wrapped around onto its sides, and a script
without faces shows ones. -/

namespace Dice

structure Script where
  faces : List Int
  /-- The faces that are still to come in this round. -/
  upcoming : List Int
deriving Repr, DecidableEq

namespace Script

def ofFaces (faces : List Int) : Script := ⟨faces, faces⟩

/-- The side of the die on which `face`, a word, lands when counting goes around. -/
def wrap (sides face : Int) : Int := Word.pred face % sides + 1

/-- Takes the next face, starting over once all are used. -/
def throwDie (sides : Int) (script : Script) : Int × Script :=
  match script.upcoming, script.faces with
  | face :: rest, _ => (wrap sides face, { script with upcoming := rest })
  | [], face :: rest => (wrap sides face, { script with upcoming := rest })
  | [], [] => (1, script)

instance : Source Script := ⟨throwDie⟩

theorem one_le_wrap {sides : Int} (h : 1 ≤ sides) (face : Int) : 1 ≤ wrap sides face := by
  have := Int.emod_nonneg (Word.pred face) (b := sides) (by omega)
  simp only [wrap]
  omega

theorem wrap_le {sides : Int} (h : 1 ≤ sides) (face : Int) : wrap sides face ≤ sides := by
  have := Int.emod_lt_of_pos (Word.pred face) (b := sides) (by omega)
  simp only [wrap]
  omega

theorem wrap_of_mem {sides face : Int} (h : 1 ≤ face) (h' : face ≤ sides) :
    wrap sides face = face := by
  rw [wrap, Word.pred_of_pos (by omega), Int.emod_eq_of_lt] <;> omega

instance : LawfulSource Script where
  one_le h script := by
    simp only [Source.throwDie, throwDie]
    split <;> simp [one_le_wrap h]
  le_sides h script := by
    simp only [Source.throwDie, throwDie]
    split <;> simp [wrap_le h, h]

end Script

end Dice
