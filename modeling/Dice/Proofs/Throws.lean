import Dice.Roll
import Mathlib.Algebra.Order.BigOperators.Group.List
import Mathlib.Algebra.Ring.Int.Defs

/-! The faces that come up. A source shows a stream of faces for dice of a given number
of sides, and a play that is carried out takes some faces from it. A roll takes as many
as it has dice, from the front of the stream, and none when it is refused; and since no
face is negative, its partial sums fit a word exactly if its sum does. -/

namespace Dice

variable {σ ε ε' α β : Type} [Source σ]

/-! ### The stream of a source -/

namespace Source

/-- The next `n` faces of dice with `sides` sides. -/
def faces (sides : Int) : (n : Nat) → σ → List Int
  | 0, _ => []
  | n + 1, s => (throwDie sides s).1 :: faces sides n (throwDie sides s).2

/-- The source after `n` dice with `sides` sides. -/
def after (sides : Int) : (n : Nat) → σ → σ
  | 0, s => s
  | n + 1, s => after sides n (throwDie sides s).2

@[simp] theorem faces_zero (sides : Int) (s : σ) : faces sides 0 s = [] := rfl

@[simp] theorem faces_succ (sides : Int) (n : Nat) (s : σ) :
    faces sides (n + 1) s = (throwDie sides s).1 :: faces sides n (throwDie sides s).2 := rfl

@[simp] theorem after_zero (sides : Int) (s : σ) : after sides 0 s = s := rfl

@[simp] theorem after_succ (sides : Int) (n : Nat) (s : σ) :
    after sides (n + 1) s = after sides n (throwDie sides s).2 := rfl

@[simp] theorem length_faces (sides : Int) (n : Nat) (s : σ) : (faces sides n s).length = n := by
  induction n generalizing s with
  | zero => rfl
  | succ n ih => rw [faces_succ, List.length_cons, ih]

theorem faces_add (sides : Int) (m n : Nat) (s : σ) :
    faces sides (m + n) s = faces sides m s ++ faces sides n (after sides m s) := by
  induction m generalizing s with
  | zero => simp
  | succ m ih => rw [Nat.succ_add, faces_succ, faces_succ, after_succ, ih, List.cons_append]

theorem eq_faces_of_prefix {sides : Int} {n : Nat} {s : σ} {front : List Int}
    (h : front <+: faces sides n s) : front = faces sides front.length s := by
  have hlength : front.length ≤ n := by
    simpa using h.length_le
  obtain ⟨rest, hrest⟩ := h
  obtain ⟨m, rfl⟩ := Nat.exists_eq_add_of_le hlength
  rw [faces_add] at hrest
  exact (List.append_inj hrest (by simp)).1

/-- The face at a position of the stream, counted from one. -/
def face (sides : Int) (position : Nat) (s : σ) : Int :=
  (throwDie sides (after sides (position - 1) s)).1

theorem getElem?_faces (sides : Int) (n i : Nat) (s : σ) :
    (faces sides n s)[i]? = if i < n then some (face sides (i + 1) s) else none := by
  induction n generalizing i s with
  | zero => simp
  | succ n ih =>
    cases i with
    | zero => simp [face]
    | succ i =>
      rw [faces_succ, List.getElem?_cons_succ, ih]
      simp [face]

theorem faces_succ_last (sides : Int) (n : Nat) (s : σ) :
    faces sides (n + 1) s = faces sides n s ++ [face sides (n + 1) s] := by
  rw [faces_add]
  rfl

theorem one_le_of_mem_faces [LawfulSource σ] {sides : Int} (h : 1 ≤ sides) {n : Nat} {s : σ}
    {face : Int} (hface : face ∈ faces sides n s) : 1 ≤ face := by
  induction n generalizing s with
  | zero => cases hface
  | succ n ih =>
    rcases List.mem_cons.mp hface with rfl | hface
    · exact LawfulSource.one_le h s
    · exact ih hface

theorem le_sides_of_mem_faces [LawfulSource σ] {sides : Int} (h : 1 ≤ sides) {n : Nat} {s : σ}
    {face : Int} (hface : face ∈ faces sides n s) : face ≤ sides := by
  induction n generalizing s with
  | zero => cases hface
  | succ n ih =>
    rcases List.mem_cons.mp hface with rfl | hface
    · exact LawfulSource.le_sides h s
    · exact ih hface

end Source

/-! ### The faces of a play -/

namespace Play

/-- The faces that come up when the play is carried out. -/
def faces : Play ε α → σ → List Int
  | done _, _ => []
  | fail _, _ => []
  | throwDie sides next, s =>
    (Source.throwDie sides s).1 ::
      (next (Source.throwDie sides s).1).faces (Source.throwDie sides s).2

theorem faces_throwDie (sides : Int) (next : Int → Play ε α) (s : σ) :
    (throwDie sides next).faces s = (Source.throwDie sides s).1 ::
      (next (Source.throwDie sides s).1).faces (Source.throwDie sides s).2 := rfl

theorem run_throwDie (sides : Int) (next : Int → Play ε α) (s : σ) :
    (throwDie sides next).run s =
      (next (Source.throwDie sides s).1).run (Source.throwDie sides s).2 := rfl

theorem faces_bind (p : Play ε α) (k : α → Play ε β) (s : σ) :
    (p >>= k).faces s = p.faces s ++ match p.run s with
      | (.ok a, s) => (k a).faces s
      | (.error _, _) => [] := by
  induction p generalizing s with
  | done _ => rfl
  | fail _ => rfl
  | throwDie sides next ih => simp [faces, run, ih]

theorem faces_bind_of_ok {p : Play ε α} {a : α} {s s' : σ} (h : p.run s = (.ok a, s'))
    (k : α → Play ε β) : (p >>= k).faces s = p.faces s ++ (k a).faces s' := by
  rw [faces_bind, h]

theorem faces_bind_of_error {p : Play ε α} {cause : ε} {s s' : σ} (h : p.run s = (.error cause, s'))
    (k : α → Play ε β) : (p >>= k).faces s = p.faces s := by
  rw [faces_bind, h, List.append_nil]

theorem run_bind_eq_ok_iff {p : Play ε α} {k : α → Play ε β} {s t : σ} {b : β} :
    (p >>= k).run s = (.ok b, t) ↔ ∃ a u, p.run s = (.ok a, u) ∧ (k a).run u = (.ok b, t) := by
  rw [run_bind]
  cases p.run s with
  | mk result u => cases result <;> simp

theorem run_ofExcept_bind_eq_ok_iff {check : Except ε α} {k : α → Play ε β} {s t : σ} {b : β} :
    (ofExcept check >>= k).run s = (.ok b, t) ↔ ∃ a, check = .ok a ∧ (k a).run s = (.ok b, t) := by
  cases check with
  | ok a => simp [ofExcept]
  | error cause => simp [ofExcept, run]

theorem run_bind_pure_eq_ok_iff {p : Play ε α} {f : α → β} {s t : σ} {b : β} :
    (p >>= fun a => pure (f a)).run s = (.ok b, t) ↔ ∃ a, p.run s = (.ok a, t) ∧ b = f a := by
  rw [run_bind_eq_ok_iff]
  constructor
  · rintro ⟨a, u, hrun, hpure⟩
    cases hpure
    exact ⟨a, hrun, rfl⟩
  · rintro ⟨a, hrun, rfl⟩
    exact ⟨a, t, hrun, rfl⟩

theorem run_bind_eq_error_iff {p : Play ε α} {k : α → Play ε β} {s t : σ} {cause : ε} :
    (p >>= k).run s = (.error cause, t) ↔ p.run s = (.error cause, t) ∨
      ∃ a u, p.run s = (.ok a, u) ∧ (k a).run u = (.error cause, t) := by
  rw [run_bind]
  cases p.run s with
  | mk result u => cases result <;> simp

@[simp] theorem faces_mapError (f : ε → ε') (p : Play ε α) (s : σ) :
    (p.mapError f).faces s = p.faces s := by
  induction p generalizing s with
  | done _ => rfl
  | fail _ => rfl
  | throwDie sides next ih => simp [faces, mapError, ih]

theorem run_mapError_eq_ok_iff {f : ε → ε'} {p : Play ε α} {s t : σ} {a : α} :
    (p.mapError f).run s = (.ok a, t) ↔ p.run s = (.ok a, t) := by
  rw [run_mapError]
  cases p.run s with
  | mk result u => cases result <;> simp [Except.mapError]

@[simp] theorem faces_ofExcept (result : Except ε α) (s : σ) :
    (ofExcept result).faces s = [] := by
  cases result <;> rfl

theorem run_dice (sides : Int) (count : Nat) (thrown : List Int) (s : σ) :
    (dice sides count thrown : Play ε (List Int)).run s =
      (.ok (thrown.reverse ++ Source.faces sides count s), Source.after sides count s) := by
  induction count generalizing thrown s with
  | zero => simp [dice, run]
  | succ count ih => simp [dice, run, ih]

theorem faces_dice (sides : Int) (count : Nat) (thrown : List Int) (s : σ) :
    (dice sides count thrown : Play ε (List Int)).faces s = Source.faces sides count s := by
  induction count generalizing thrown s with
  | zero => rfl
  | succ count ih => simp [dice, faces, ih]

end Play

/-! ### Rolls -/

theorem allowSides_eq_ok_iff {sides : Int} : allowSides sides = .ok () ↔ 1 ≤ sides := by
  unfold allowSides
  split
  · simp only [reduceCtorEq, false_iff]
    omega
  · simp only [true_iff]
    omega

theorem allowRoll_eq_ok_iff {limit : Nat} {count sides : Int} {n : Nat} :
    allowRoll limit count sides = .ok n ↔ 1 ≤ sides ∧ 1 ≤ count ∧ n ≤ limit ∧ count = n := by
  unfold allowRoll allowSides allowCount
  by_cases hsides : sides < 1
  · simp [hsides, bind, Except.bind, Int.not_le.mpr hsides]
  by_cases hcount : count < 1
  · simp [hsides, hcount, bind, Except.bind, Int.not_le.mpr hcount]
  have hneg : ¬ count < 0 := by omega
  by_cases hlimit : count.toNat ≤ limit
  · simp only [hsides, hcount, hneg, hlimit, ↓reduceIte, bind, Except.bind, Except.ok.injEq]
    omega
  · simp only [hsides, hcount, hneg, hlimit, ↓reduceIte, bind, Except.bind, reduceCtorEq, false_iff]
    omega

theorem run_rollDice_of_ok {limit : Nat} {count sides : Int} {n : Nat}
    (h : allowRoll limit count sides = .ok n) (s : σ) :
    (rollDice limit count sides).run s =
      (.ok ⟨Source.faces sides n s⟩, Source.after sides n s) := by
  simp [rollDice, h, Play.ofExcept, Play.run_bind, Play.run_dice, Play.run]

theorem run_rollDice_of_error {limit : Nat} {count sides : Int} {refusal : Refusal}
    (h : allowRoll limit count sides = .error refusal) (s : σ) :
    (rollDice limit count sides).run s = (.error refusal, s) := by
  simp [rollDice, h, Play.ofExcept, Play.run]

/-- An allowed roll takes a face for every die, a refused one none. -/
theorem faces_rollDice (limit : Nat) (count sides : Int) (s : σ) :
    (rollDice limit count sides).faces s = match allowRoll limit count sides with
      | .ok n => Source.faces sides n s
      | .error _ => [] := by
  cases h : allowRoll limit count sides with
  | error refusal => simp [rollDice, h, Play.ofExcept, Play.faces]
  | ok n =>
    simp [rollDice, h, Play.ofExcept, Play.faces_bind, Play.faces_dice, Play.run_dice, Play.faces]

namespace Roll

private theorem foldlM_of_nonneg {faces : List Int} (h : ∀ face ∈ faces, 0 ≤ face) {sum : Int}
    (hsum : Word.Fits sum) :
    faces.foldlM (fun sum face => Word.ofInt? (sum + face)) sum =
      Word.ofInt? (sum + faces.sum) := by
  induction faces generalizing sum with
  | nil => simp [Word.ofInt?, hsum]
  | cons face faces ih =>
    have hface := h face List.mem_cons_self
    have hfaces : ∀ face ∈ faces, 0 ≤ face := fun face hmem => h face (List.mem_cons_of_mem _ hmem)
    have hnonneg : 0 ≤ faces.sum := List.sum_nonneg hfaces
    rw [List.foldlM_cons, List.sum_cons, ← Int.add_assoc]
    by_cases hnext : Word.Fits (sum + face)
    · rw [Word.ofInt?, if_pos hnext]
      exact ih hfaces hnext
    · have hlast : ¬ Word.Fits (sum + face + faces.sum) := by
        simp only [Word.Fits] at hsum hnext ⊢
        omega
      rw [Word.ofInt?, if_neg hnext, Word.ofInt?, if_neg hlast]
      rfl

/-- No partial sum leaves the range unless the sum does. -/
theorem total?_of_nonneg {roll : Roll} (h : ∀ face ∈ roll.faces, 0 ≤ face) :
    roll.total? = Word.ofInt? roll.faces.sum := by
  rw [total?, foldlM_of_nonneg h (by decide), Int.zero_add]

end Roll

end Dice
