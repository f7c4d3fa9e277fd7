import Dice.CommandLine.Run
import Dice.Proofs.Json

/-! Results as documents. Every part of a result has a field of its own in its document, a part
that is absent is shown as such, and no two mishaps have the same name, so the document says
which result it is of. Main statement: results of a kind that are shown alike as documents are
the same. -/

namespace Dice

theorem Outcome.toJson_inj {a b : Outcome} (h : a.toJson = b.toJson) : a = b := by
  cases a
  cases b
  simpa [toJson] using h

namespace Pool

theorem Rule.toJson_inj {a b : Rule} (h : a.toJson = b.toJson) : a = b := by
  cases a
  cases b
  simpa [toJson] using h

theorem Die.toJson_inj {a b : Die} (h : a.toJson = b.toJson) : a = b := by
  cases a
  cases b
  simpa [toJson] using h

theorem toJson_inj {a b : Pool} (h : a.toJson = b.toJson) : a = b := by
  cases a
  cases b
  simp only [toJson, Json.object.injEq, List.cons.injEq, Prod.mk.injEq, Json.array.injEq,
    true_and, and_true] at h
  obtain ⟨hrule, hdice⟩ := h
  obtain rfl := Rule.toJson_inj hrule
  obtain rfl := (List.map_inj_right fun _ _ => Die.toJson_inj).mp hdice
  rfl

end Pool

theorem Mishap.name_inj {a b : Mishap} (h : a.name = b.name) : a = b := by
  revert h
  cases a <;> cases b <;> decide

theorem SixPool.toJson_inj {a b : SixPool} (h : a.toJson = b.toJson) : a = b := by
  cases a
  cases b
  simp only [toJson, Json.object.injEq, List.cons.injEq, Prod.mk.injEq, Json.string.injEq,
    true_and, and_true] at h
  obtain ⟨hsize, hpool, hmishap⟩ := h
  obtain rfl := Outcome.toJson_inj hsize
  obtain rfl := Pool.toJson_inj hpool
  obtain rfl := Mishap.name_inj hmishap
  rfl

/-- An absent outcome is shown as nothing that an outcome is shown as. -/
theorem optionalOutcome_inj {a b : Option Outcome}
    (h : a.elim Json.null Outcome.toJson = b.elim Json.null Outcome.toJson) : a = b := by
  cases a with
  | none =>
    cases b with
    | none => rfl
    | some outcome => cases h
  | some outcome =>
    cases b with
    | none => cases h
    | some other => exact congrArg some (Outcome.toJson_inj h)

theorem TenPool.toJson_inj {a b : TenPool} (h : a.toJson = b.toJson) : a = b := by
  cases a
  cases b
  simp only [toJson, Json.object.injEq, List.cons.injEq, Prod.mk.injEq, Json.string.injEq,
    Json.int.injEq, Json.bool.injEq, true_and, and_true] at h
  obtain ⟨rfl, hexpression, rfl, hpool, hmishap⟩ := h
  obtain rfl := optionalOutcome_inj hexpression
  obtain rfl := Pool.toJson_inj hpool
  obtain rfl := Mishap.name_inj hmishap
  rfl

namespace CommandLine

theorem present_document_iff {a b : Json} {line line' : String} :
    present true a line = present true b line' ↔ a = b := by
  rw [present, present, if_pos rfl, if_pos rfl, Product.line.injEq, Json.text_inj]

/-- Two values, two pools of six-sided dice or two pools of ten-sided dice are the same, down to
the last die, if they are shown as documents with the same text. -/
theorem present_document_inj :
    (∀ a b : Outcome, present true a.toJson a.line = present true b.toJson b.line ↔ a = b) ∧
    (∀ a b : SixPool, present true a.toJson a.line = present true b.toJson b.line ↔ a = b) ∧
    ∀ a b : TenPool, present true a.toJson a.line = present true b.toJson b.line ↔ a = b := by
  simp only [present_document_iff]
  exact ⟨fun _ _ => ⟨Outcome.toJson_inj, congrArg _⟩, fun _ _ => ⟨SixPool.toJson_inj, congrArg _⟩,
    fun _ _ => ⟨TenPool.toJson_inj, congrArg _⟩⟩

end CommandLine

end Dice
