import Dice.Pool.Basic
import Dice.Proofs.Throws

/-! Chains of explosions. A pool takes its faces from the front of the stream of the
source, and each die that does not explode settles one of the dice it started with. The
faces of a complete pool settle all of them, the last face does not explode, and none
explodes from the place on at which the limit has been reached; the faces of a broken
pool end with the first that does explode there. No more faces can follow either, so
the stream alone says how a pool ends. -/

namespace Dice.Pool

/-! ### Faces and their marks -/

/-- The number of chains that end within the faces. -/
def Rule.settled (rule : Rule) (faces : List Int) : Nat :=
  faces.countP fun face => face < rule.explodeOn

/-- The dice of some faces; the first is marked as `extra` says. -/
def Rule.lay (rule : Rule) : (extra : Bool) → List Int → List Die
  | _, [] => []
  | extra, face :: faces => ⟨face, extra⟩ :: rule.lay (rule.explodeOn ≤ face) faces

variable {rule : Rule} {room count : Nat} {face : Int} {faces more : List Int}

@[simp] theorem Rule.settled_nil : rule.settled [] = 0 := rfl

theorem Rule.settled_cons_calm (h : face < rule.explodeOn) :
    rule.settled (face :: faces) = rule.settled faces + 1 :=
  List.countP_cons_of_pos (by simpa using h)

theorem Rule.settled_cons_exploding (h : rule.explodeOn ≤ face) :
    rule.settled (face :: faces) = rule.settled faces :=
  List.countP_cons_of_neg (by simpa using h)

theorem Rule.settled_append (a b : List Int) :
    rule.settled (a ++ b) = rule.settled a + rule.settled b := List.countP_append

theorem Rule.settled_of_calm (h : ∀ face ∈ faces, face < rule.explodeOn) :
    rule.settled faces = faces.length :=
  List.countP_eq_length.mpr (by simpa using h)

@[simp] theorem Rule.length_lay (extra : Bool) : (rule.lay extra faces).length = faces.length := by
  induction faces generalizing extra with
  | nil => rfl
  | cons face faces ih => rw [lay, List.length_cons, ih, List.length_cons]

/-! ### How the faces of a pool end -/

/-- The faces of a complete pool of `count` dice; only the first `room` may explode. -/
structure Completes (rule : Rule) (room count : Nat) (faces : List Int) : Prop where
  settled : rule.settled faces = count
  last : ∀ face ∈ faces.getLast?, face < rule.explodeOn
  calm : ∀ face ∈ faces.drop room, face < rule.explodeOn

/-- The faces of a pool of `count` dice that ends with an explosion behind the first `room`. -/
structure Breaks (rule : Rule) (room count : Nat) (faces : List Int) : Prop where
  settled : rule.settled faces < count
  last : ∃ calm face, faces.drop room = calm ++ [face] ∧ (∀ face ∈ calm, face < rule.explodeOn) ∧
    rule.explodeOn ≤ face

/-- One calm face takes up a place, if there is one, and settles a die. -/
theorem Completes.cons_calm (h : face < rule.explodeOn)
    (hfaces : Completes rule (room - 1) count faces) :
    Completes rule room (count + 1) (face :: faces) where
  settled := by rw [Rule.settled_cons_calm h, hfaces.settled]
  last := by
    intro last hlast
    cases faces with
    | nil => simpa [← Option.some.inj hlast] using h
    | cons next faces => exact hfaces.last last (by simpa using hlast)
  calm := by
    cases room with
    | zero => simpa [h] using hfaces.calm
    | succ room => exact hfaces.calm

theorem Completes.cons_exploding (h : rule.explodeOn ≤ face) (hne : faces ≠ [])
    (hfaces : Completes rule room count faces) :
    Completes rule (room + 1) count (face :: faces) where
  settled := by rw [Rule.settled_cons_exploding h, hfaces.settled]
  last := by
    intro last hlast
    exact hfaces.last last (by rwa [List.getLast?_cons_of_ne_nil hne] at hlast)
  calm := hfaces.calm

theorem Breaks.cons_calm (h : face < rule.explodeOn)
    (hfaces : Breaks rule (room - 1) count faces) :
    Breaks rule room (count + 1) (face :: faces) where
  settled := by
    have := hfaces.settled
    rw [Rule.settled_cons_calm h]
    omega
  last := by
    obtain ⟨calm, last, hdrop, hcalm, hlast⟩ := hfaces.last
    cases room with
    | zero =>
      rw [Nat.zero_sub, List.drop_zero] at hdrop
      exact ⟨face :: calm, last, by rw [List.drop_zero, hdrop, List.cons_append],
        by simpa [h] using hcalm, hlast⟩
    | succ room => exact ⟨calm, last, hdrop, hcalm, hlast⟩

theorem Breaks.cons_exploding (h : rule.explodeOn ≤ face)
    (hfaces : Breaks rule room count faces) : Breaks rule (room + 1) count (face :: faces) where
  settled := by
    rw [Rule.settled_cons_exploding h]
    exact hfaces.settled
  last := hfaces.last

/-- No face follows a complete pool. -/
theorem Completes.not_completes_append (h : Completes rule room count faces) (hne : more ≠ []) :
    ¬ Completes rule room count (faces ++ more) := by
  intro h'
  obtain ⟨front, face, rfl⟩ := (List.eq_nil_or_concat' more).resolve_left hne
  have hface : face < rule.explodeOn := h'.last face (by simp)
  have hsettled := h'.settled
  rw [Rule.settled_append, Rule.settled_append, Rule.settled_cons_calm hface, h.settled] at hsettled
  omega

theorem Completes.not_breaks_append (h : Completes rule room count faces) :
    ¬ Breaks rule room count (faces ++ more) := by
  intro h'
  have hsettled := h'.settled
  rw [Rule.settled_append, h.settled] at hsettled
  omega

/-- No face follows a broken pool. -/
theorem Breaks.not_completes_append (h : Breaks rule room count faces) :
    ¬ Completes rule room count (faces ++ more) := by
  intro h'
  obtain ⟨calm, face, hdrop, -, hface⟩ := h.last
  have hmem : face ∈ (faces ++ more).drop room := by
    rw [List.drop_append, hdrop]
    simp
  exact Int.not_lt.mpr hface (h'.calm face hmem)

theorem Breaks.not_breaks_append (h : Breaks rule room count faces) (hne : more ≠ []) :
    ¬ Breaks rule room count (faces ++ more) := by
  intro h'
  obtain ⟨calm, face, hdrop, -, hface⟩ := h.last
  obtain ⟨calm', face', hdrop', hcalm', -⟩ := h'.last
  obtain ⟨front, last, rfl⟩ := (List.eq_nil_or_concat' more).resolve_left hne
  have hroom : room ≤ faces.length := by
    by_contra hroom
    rw [List.drop_of_length_le (by omega)] at hdrop
    simp at hdrop
  rw [List.drop_append_of_le_length hroom, hdrop, ← List.append_assoc] at hdrop'
  obtain ⟨hcalm, -⟩ := List.append_inj' hdrop' rfl
  exact Int.not_lt.mpr hface (hcalm' face (by simp [← hcalm]))

/-! ### Throwing a pool -/

section Throw

variable {σ : Type} [Source σ] {limit : Nat} {sides : Int}

variable {thrown : List Die}

theorem explode_calm (h : face < rule.explodeOn) :
    explode limit sides rule room face thrown = .done ⟨thrown, room⟩ := by
  cases room <;> rw [explode, if_pos h]

theorem explode_full (h : rule.explodeOn ≤ face) :
    explode limit sides rule 0 face thrown = .fail (.tooManyExplosions limit) := by
  rw [explode, if_neg (Int.not_lt.mpr h)]

theorem explode_exploding (h : rule.explodeOn ≤ face) :
    explode limit sides rule (room + 1) face thrown =
      .throwDie sides fun next =>
        explode limit sides rule room next (⟨next, true⟩ :: thrown) := by
  rw [explode, if_neg (Int.not_lt.mpr h)]

/-- What comes after a die that shows `face`: its explosions, and `count` more dice with
theirs. -/
def follow (limit : Nat) (sides : Int) (rule : Rule) (count room : Nat) (face : Int)
    (thrown : List Die) : Play Refusal Table := do
  let table ← explode limit sides rule room face thrown
  throwDice limit sides rule count table

theorem follow_calm (h : face < rule.explodeOn) :
    follow limit sides rule count room face thrown =
      throwDice limit sides rule count ⟨thrown, room⟩ := by
  rw [follow, explode_calm h, Play.done_bind]

theorem follow_full (h : rule.explodeOn ≤ face) :
    follow limit sides rule count 0 face thrown = .fail (.tooManyExplosions limit) := by
  rw [follow, explode_full h, Play.fail_bind]

theorem follow_exploding (h : rule.explodeOn ≤ face) :
    follow limit sides rule count (room + 1) face thrown =
      .throwDie sides fun next =>
        follow limit sides rule count room next (⟨next, true⟩ :: thrown) := by
  rw [follow, explode_exploding h, Play.throwDie_bind]
  rfl

theorem throwDice_succ (table : Table) :
    throwDice limit sides rule (count + 1) table =
      .throwDie sides fun face =>
        follow limit sides rule count (table.room - 1) face (⟨face, false⟩ :: table.thrown) := rfl

/-- The faces of the play complete or break the pool that `before` begins, and its result says
which; the dice they show are laid on those that have been thrown. -/
def Ends (limit : Nat) (sides : Int) (rule : Rule) (room count : Nat) (before : List Int)
    (extra : Bool) (thrown : List Die) (play : Play Refusal Table) (s : σ) : Prop :=
  ∃ n, play.faces s = Source.faces sides n s ∧
    ((Completes rule room count (before ++ Source.faces sides n s) ∧ ∃ left, play.run s =
        (.ok ⟨(rule.lay extra (Source.faces sides n s)).reverse ++ thrown, left⟩,
          Source.after sides n s)) ∨
      (Breaks rule room count (before ++ Source.faces sides n s) ∧
        play.run s = (.error (.tooManyExplosions limit), Source.after sides n s)))

/-- One die more: if the play goes on from its face as it should, and the faces before the die
do not change how the later ones end the pool, then it ends as it should. -/
theorem Ends.throwDie {room' count' : Nat} {before : List Int} {extra : Bool}
    {next : Int → Play Refusal Table} {s : σ}
    (hnext : Ends limit sides rule room' count' [(Source.throwDie sides s).1]
      (rule.explodeOn ≤ (Source.throwDie sides s).1)
      (⟨(Source.throwDie sides s).1, extra⟩ :: thrown)
      (next (Source.throwDie sides s).1) (Source.throwDie sides s).2)
    (hcomplete : ∀ faces, faces ≠ [] → Completes rule room' count' faces →
      Completes rule room count (before ++ faces))
    (hbreak : ∀ faces, Breaks rule room' count' faces → Breaks rule room count (before ++ faces)) :
    Ends limit sides rule room count before extra thrown (.throwDie sides next) s := by
  obtain ⟨n, hfaces, hends⟩ := hnext
  refine ⟨n + 1, by rw [Play.faces_throwDie, hfaces, Source.faces_succ], ?_⟩
  rw [Play.run_throwDie, Source.faces_succ, Source.after_succ]
  rcases hends with ⟨hends, left, hrun⟩ | ⟨hends, hrun⟩
  · refine .inl ⟨hcomplete _ (by simp) hends, left, ?_⟩
    rw [hrun, Rule.lay, List.reverse_cons, List.append_assoc]
    rfl
  · exact .inr ⟨hbreak _ hends, hrun⟩

/-- After each die the play goes on as the rule says: the chain ends or goes on, and the limit
is looked at only if it goes on. -/
theorem ends_follow (face : Int) (thrown : List Die) (s : σ) :
    Ends limit sides rule room (count + 1) [face] (rule.explodeOn ≤ face) thrown
      (follow limit sides rule count room face thrown) s := by
  -- a calm face lowers the count, an explosion the room
  induction h : count + room using Nat.strongRecOn generalizing count room face thrown s with
  | ind measure ih =>
    by_cases hface : face < rule.explodeOn
    · rw [follow_calm hface]
      cases count with
      | zero =>
        refine ⟨0, rfl, .inl ⟨⟨?_, ?_, ?_⟩, room, rfl⟩⟩
        · simp [Rule.settled_cons_calm hface]
        · simpa using hface
        · intro face' hmem
          obtain rfl : face' = face := by simpa using List.mem_of_mem_drop hmem
          exact hface
      | succ count =>
        have hcalm : decide (rule.explodeOn ≤ face) = false := by simpa using hface
        rw [throwDice_succ, hcalm]
        refine .throwDie (ih (count + (room - 1)) (by omega) _ _ _ rfl) ?_ ?_
        · exact fun faces _ hfaces => hfaces.cons_calm hface
        · exact fun faces hfaces => hfaces.cons_calm hface
    · rw [Int.not_lt] at hface
      cases room with
      | zero =>
        rw [follow_full hface]
        refine ⟨0, rfl, .inr ⟨⟨?_, [], face, rfl, by simp, hface⟩, rfl⟩⟩
        simp [Rule.settled_cons_exploding hface]
      | succ room =>
        have hexplodes : decide (rule.explodeOn ≤ face) = true := by simpa using hface
        rw [follow_exploding hface, hexplodes]
        refine .throwDie (ih (count + room) (by omega) _ _ _ rfl) ?_ ?_
        · exact fun faces hne hfaces => hfaces.cons_exploding hface hne
        · exact fun faces hfaces => hfaces.cons_exploding hface

/-- The limit is taken for one place less, since the last die within it may not explode. -/
theorem ends_throwDice (limit : Nat) (sides : Int) (rule : Rule) (count : Nat) (s : σ) :
    Ends limit sides rule (limit - 1) count [] false []
      (throwDice limit sides rule count ⟨[], limit⟩) s := by
  cases count with
  | zero => exact ⟨0, rfl, .inl ⟨⟨rfl, by simp, by simp⟩, limit, rfl⟩⟩
  | succ count =>
    rw [throwDice_succ]
    exact .throwDie (ends_follow _ _ _) (fun _ _ h => h) (fun _ h => h)

theorem allow_eq_ok_iff {count : Int} {n : Nat} :
    allow limit count sides rule = .ok n ↔
      1 ≤ sides ∧ 2 ≤ rule.explodeOn ∧ n ≤ limit ∧ count = n := by
  unfold allow allowSides allowCount
  by_cases hsides : sides < 1
  · simp [hsides, bind, Except.bind, Int.not_le.mpr hsides]
  by_cases hneg : count < 0
  · simp only [hsides, hneg, ↓reduceIte, bind, Except.bind, reduceCtorEq, false_iff]
    omega
  by_cases hlimit : count.toNat ≤ limit
  · by_cases hexplode : rule.explodeOn < 2
    · simp [hsides, hneg, hlimit, hexplode, bind, Except.bind, Int.not_le.mpr hexplode]
    · simp only [hsides, hneg, hlimit, hexplode, ↓reduceIte, bind, Except.bind, Except.ok.injEq]
      omega
  · simp only [hsides, hneg, hlimit, ↓reduceIte, bind, Except.bind, reduceCtorEq, false_iff]
    omega

theorem throw_of_error {count : Int} {refusal : Refusal}
    (h : allow limit count sides rule = .error refusal) (s : σ) :
    (throw limit count sides rule).faces s = [] ∧
      (throw limit count sides rule).run s = (.error refusal, s) := by
  simp [throw, h, Play.ofExcept, Play.faces, Play.run]

/-- An allowed pool takes faces from the stream until they complete or break it. -/
theorem throw_of_ok {count : Int} {n : Nat} (h : allow limit count sides rule = .ok n) (s : σ) :
    ∃ k, (throw limit count sides rule).faces s = Source.faces sides k s ∧
      ((Completes rule (limit - 1) n (Source.faces sides k s) ∧
          (throw limit count sides rule).run s =
            (.ok ⟨rule, rule.lay false (Source.faces sides k s)⟩, Source.after sides k s)) ∨
        (Breaks rule (limit - 1) n (Source.faces sides k s) ∧
          (throw limit count sides rule).run s =
            (.error (.tooManyExplosions limit), Source.after sides k s))) := by
  have hthrow : throw limit count sides rule = (do
      let table ← throwDice limit sides rule n ⟨[], limit⟩
      return ⟨rule, table.thrown.reverse⟩) := by
    rw [throw, h]
    rfl
  obtain ⟨k, hfaces, ⟨hends, left, hrun⟩ | ⟨hends, hrun⟩⟩ := ends_throwDice limit sides rule n s
  · refine ⟨k, ?_, .inl ⟨hends, ?_⟩⟩
    · rw [hthrow, Play.faces_bind_of_ok hrun, hfaces]
      exact List.append_nil _
    · rw [hthrow, Play.run_bind, hrun, List.append_nil]
      simp [Play.run]
  · refine ⟨k, ?_, .inr ⟨hends, ?_⟩⟩
    · rw [hthrow, Play.faces_bind_of_error hrun, hfaces]
    · rw [hthrow, Play.run_bind, hrun]

/-- Only one length of the stream completes or breaks a pool. -/
theorem ends_unique {n a b : Nat} {s : σ}
    (ha : Completes rule room n (Source.faces sides a s) ∨
      Breaks rule room n (Source.faces sides a s))
    (hb : Completes rule room n (Source.faces sides b s) ∨
      Breaks rule room n (Source.faces sides b s)) :
    a = b := by
  wlog hab : a ≤ b generalizing a b
  · exact (this hb ha (by omega)).symm
  obtain ⟨k, rfl⟩ := Nat.exists_eq_add_of_le hab
  rw [Source.faces_add] at hb
  cases k with
  | zero => rfl
  | succ k =>
    have hne : Source.faces sides (k + 1) (Source.after sides a s) ≠ [] := by simp
    rcases ha with ha | ha <;> rcases hb with hb | hb
    · exact absurd hb (ha.not_completes_append hne)
    · exact absurd hb ha.not_breaks_append
    · exact absurd hb ha.not_completes_append
    · exact absurd hb (ha.not_breaks_append hne)

/-- An allowed pool takes the faces of the stream that complete it. -/
theorem throw_of_completes {count : Int} {n k : Nat} {s : σ}
    (hallow : allow limit count sides rule = .ok n)
    (h : Completes rule (limit - 1) n (Source.faces sides k s)) :
    (throw limit count sides rule).run s =
      (.ok ⟨rule, rule.lay false (Source.faces sides k s)⟩, Source.after sides k s) := by
  obtain ⟨j, -, hends⟩ := throw_of_ok hallow s
  obtain rfl : j = k := ends_unique (hends.imp And.left And.left) (.inl h)
  rcases hends with ⟨-, hrun⟩ | ⟨hbreak, -⟩
  · exact hrun
  · rw [← List.append_nil (Source.faces _ _ _)] at hbreak
    exact absurd hbreak h.not_breaks_append

end Throw

end Dice.Pool
