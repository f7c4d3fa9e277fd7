import Dice.Proofs.Pool.Limit

/-! How a pool comes out. The stream of faces alone decides it: the pool takes the shortest
beginning of the stream in which as many faces are calm as it starts with dice, unless a
face explodes from the position of the limit on. Main statement: such a beginning is laid
on the table face by face, with the dice that explosions called for marked, and otherwise
the pool is given up right after the first explosion from the limit on. -/

namespace Dice.Pool

variable {rule : Rule} {face : Int} {faces : List Int}

/-! ### Dice on the table -/

@[simp] theorem Rule.map_face_lay (extra : Bool) : (rule.lay extra faces).map Die.face = faces := by
  induction faces generalizing extra with
  | nil => rfl
  | cons face faces ih => rw [lay, List.map_cons, ih]

/-- A die is marked exactly if the die before it explodes. -/
theorem Rule.isChain_lay (extra : Bool) : (rule.lay extra faces).IsChain fun die next =>
    next.extra = decide (rule.explodeOn ≤ die.face) := by
  induction faces generalizing extra with
  | nil => exact .nil
  | cons face faces ih =>
    cases faces with
    | nil => exact .singleton _
    | cons next faces => exact .cons_cons rfl (ih _)

/-- Each chain has one die that is not marked, which the chain that `extra` continues has laid
before. -/
theorem Rule.countP_lay (extra : Bool) (hne : faces ≠ [])
    (hlast : ∀ face ∈ faces.getLast?, face < rule.explodeOn) :
    (rule.lay extra faces).countP (fun die => !die.extra) + extra.toNat = rule.settled faces := by
  induction faces generalizing extra with
  | nil => exact absurd rfl hne
  | cons face faces ih =>
    rw [lay, List.countP_cons]
    cases faces with
    | nil =>
      rw [Rule.settled_cons_calm (by simpa using hlast)]
      cases extra <;> simp [lay]
    | cons next faces =>
      have hrest := ih (rule.explodeOn ≤ face) (by simp) (by simpa using hlast)
      by_cases hface : face < rule.explodeOn
      · rw [Rule.settled_cons_calm hface, ← hrest]
        cases extra <;> simp [Int.not_le.mpr hface]
      · rw [Int.not_lt] at hface
        rw [Rule.settled_cons_exploding hface, ← hrest]
        cases extra <;> simp [hface]

/-- The pool shows the faces in order. Its first die is not marked, each later one exactly if
the die before it explodes; so `count` dice are not marked, and the last does not explode. -/
structure Shows (pool : Pool) (rule : Rule) (count : Nat) (faces : List Int) : Prop where
  under : pool.rule = rule
  shown : pool.dice.map Die.face = faces
  first : ∀ die ∈ pool.dice.head?, die.extra = false
  later : pool.dice.IsChain fun die next => next.extra = decide (rule.explodeOn ≤ die.face)
  started : pool.dice.countP (fun die => !die.extra) = count
  last : ∀ die ∈ pool.dice.getLast?, die.face < rule.explodeOn

theorem Completes.shows {room count : Nat} (h : Completes rule room count faces) :
    Shows ⟨rule, rule.lay false faces⟩ rule count faces where
  under := rfl
  shown := Rule.map_face_lay false
  first := by
    cases faces with
    | nil => simp [Rule.lay]
    | cons face faces => simp [Rule.lay]
  later := Rule.isChain_lay false
  started := by
    rw [← h.settled]
    by_cases hne : faces = []
    · simp [hne, Rule.lay]
    · exact Rule.countP_lay false hne h.last
  last := by
    intro die hdie
    refine h.last die.face ?_
    rw [← @Rule.map_face_lay rule faces false, List.getLast?_map]
    exact Option.mem_map_of_mem Die.face hdie

/-! ### Positions in the stream -/

section Stream

variable {σ : Type} [Source σ] {limit count k : Nat} {sides : Int} {s : σ}

/-- The first `k` faces are the shortest beginning of the stream with `count` calm faces. -/
structure Settles (rule : Rule) (sides : Int) (count : Nat) (s : σ) (k : Nat) : Prop where
  settled : rule.settled (Source.faces sides k s) = count
  shortest : ∀ j < k, rule.settled (Source.faces sides j s) ≠ count

/-- A face that explodes stands at the position, and the limit is no greater. -/
def LateExplosion (rule : Rule) (sides : Int) (limit : Nat) (s : σ) (position : Nat) : Prop :=
  1 ≤ position ∧ limit ≤ position ∧ rule.explodeOn ≤ Source.face sides position s

instance (position : Nat) : Decidable (LateExplosion rule sides limit s position) :=
  inferInstanceAs (Decidable (_ ∧ _ ∧ _))

theorem mem_drop_faces {face : Int} : face ∈ (Source.faces sides k s).drop (limit - 1) ↔
    ∃ position, 1 ≤ position ∧ limit ≤ position ∧ position ≤ k ∧
      Source.face sides position s = face := by
  rw [List.mem_iff_getElem?]
  simp only [List.getElem?_drop, Source.getElem?_faces, Option.ite_none_right_eq_some,
    Option.some.injEq]
  constructor
  · rintro ⟨i, hi, hface⟩
    exact ⟨limit - 1 + i + 1, by omega, by omega, by omega, hface⟩
  · rintro ⟨position, hpos, hlimit, hk, rfl⟩
    refine ⟨position - 1 - (limit - 1), by omega, ?_⟩
    rw [show limit - 1 + (position - 1 - (limit - 1)) + 1 = position by omega]

theorem calm_iff : (∀ face ∈ (Source.faces sides k s).drop (limit - 1), face < rule.explodeOn) ↔
    ∀ position ≤ k, ¬ LateExplosion rule sides limit s position := by
  simp only [mem_drop_faces, LateExplosion, not_and, Int.not_le]
  constructor
  · intro h position hk hpos hlimit
    exact h _ ⟨position, hpos, hlimit, hk, rfl⟩
  · rintro h _ ⟨position, hpos, hlimit, hk, rfl⟩
    exact h position hk hpos hlimit

theorem settled_faces_le {j : Nat} (h : j ≤ k) :
    rule.settled (Source.faces sides j s) ≤ rule.settled (Source.faces sides k s) := by
  obtain ⟨m, rfl⟩ := Nat.exists_eq_add_of_le h
  rw [Source.faces_add, Rule.settled_append]
  exact Nat.le_add_right _ _

/-- The shortest beginning is the one whose last face is calm. -/
theorem settles_iff : Settles rule sides count s k ↔
    rule.settled (Source.faces sides k s) = count ∧
      ∀ face ∈ (Source.faces sides k s).getLast?, face < rule.explodeOn := by
  cases k with
  | zero => exact ⟨fun h => ⟨h.settled, by simp⟩, fun h => ⟨h.1, by simp⟩⟩
  | succ k =>
    constructor
    · intro h
      refine ⟨h.settled, fun face hface => ?_⟩
      rw [Source.faces_succ_last, List.getLast?_concat] at hface
      obtain rfl : Source.face sides (k + 1) s = face := by simpa using hface
      by_contra hexplodes
      refine h.shortest k (Nat.lt_succ_self k) ?_
      rw [← h.settled, Source.faces_succ_last, Rule.settled_append,
        Rule.settled_cons_exploding (Int.not_lt.mp hexplodes), Rule.settled_nil, Nat.add_zero]
    · rintro ⟨hsettled, hlast⟩
      refine ⟨hsettled, fun j hj => ?_⟩
      have hcalm : Source.face sides (k + 1) s < rule.explodeOn :=
        hlast _ (by rw [Source.faces_succ_last, List.getLast?_concat]; rfl)
      have hmore := @settled_faces_le rule σ _ k sides s j (Nat.lt_succ_iff.mp hj)
      rw [Source.faces_succ_last, Rule.settled_append, Rule.settled_cons_calm hcalm,
        Rule.settled_nil] at hsettled
      omega

theorem completes_iff : Completes rule (limit - 1) count (Source.faces sides k s) ↔
    Settles rule sides count s k ∧ ∀ position ≤ k, ¬ LateExplosion rule sides limit s position := by
  rw [settles_iff, ← calm_iff]
  exact ⟨fun h => ⟨⟨h.settled, h.last⟩, h.calm⟩, fun h => ⟨h.1.1, h.1.2, h.2⟩⟩

/-- A broken pool ends with the first explosion from the limit on. -/
theorem Breaks.late (h : Breaks rule (limit - 1) count (Source.faces sides k s)) :
    LateExplosion rule sides limit s k ∧
      ∀ position < k, ¬ LateExplosion rule sides limit s position := by
  obtain ⟨calm, face, hdrop, hcalm, hface⟩ := h.last
  cases k with
  | zero => simp at hdrop
  | succ k =>
    have hlength := congrArg List.length hdrop
    simp only [List.length_drop, Source.length_faces, List.length_append, List.length_singleton]
      at hlength
    rw [Source.faces_succ_last, List.drop_append_of_le_length (by rw [Source.length_faces]; omega)]
      at hdrop
    obtain ⟨rfl, hlast⟩ := List.append_inj' hdrop rfl
    obtain rfl : Source.face sides (k + 1) s = face := by simpa using hlast
    exact ⟨⟨by omega, by omega, hface⟩, fun position hposition =>
      calm_iff.mp hcalm position (Nat.lt_succ_iff.mp hposition)⟩

/-- If the shortest beginning of the stream with `count` calm faces exists and no face in it
explodes from the position `limit` on, the pool takes these faces and shows them; otherwise it
is given up after the first face that explodes from there on. -/
theorem throw_outcome (limit : Nat) (count sides : Int) (rule : Rule) (s : σ) (hsides : 1 ≤ sides)
    (hcount : 0 ≤ count) (hlimit : count ≤ limit) (hrule : 2 ≤ rule.explodeOn) :
    let play := throw limit count sides rule
    (∀ k, Settles rule sides count.toNat s k →
      (∀ position ≤ k, ¬ LateExplosion rule sides limit s position) →
      ∃ pool, play.run s = (.ok pool, Source.after sides k s) ∧
        play.faces s = Source.faces sides k s ∧
        pool.Shows rule count.toNat (Source.faces sides k s)) ∧
    ((¬ ∃ k, Settles rule sides count.toNat s k ∧
        ∀ position ≤ k, ¬ LateExplosion rule sides limit s position) →
      ∃ position, LateExplosion rule sides limit s position ∧
        (∀ earlier < position, ¬ LateExplosion rule sides limit s earlier) ∧
        play.run s = (.error (.tooManyExplosions limit), Source.after sides position s) ∧
        play.faces s = Source.faces sides position s) := by
  intro play
  have hallow : allow limit count sides rule = .ok count.toNat :=
    allow_eq_ok_iff.mpr ⟨hsides, hrule, by omega, by omega⟩
  obtain ⟨k, hfaces, hends⟩ := throw_of_ok hallow s
  constructor
  · intro j hsettles hcalm
    have hcomplete := completes_iff.mpr ⟨hsettles, hcalm⟩
    obtain rfl : k = j := ends_unique (hends.imp And.left And.left) (.inl hcomplete)
    rcases hends with ⟨-, hrun⟩ | ⟨hbreak, -⟩
    · exact ⟨_, hrun, hfaces, hcomplete.shows⟩
    · rw [← List.append_nil (Source.faces _ _ _)] at hbreak
      exact absurd hbreak hcomplete.not_breaks_append
  · intro hnone
    rcases hends with ⟨hcomplete, -⟩ | ⟨hbreak, hrun⟩
    · exact absurd ⟨k, completes_iff.mp hcomplete⟩ hnone
    · exact ⟨k, hbreak.late.1, hbreak.late.2, hrun, hfaces⟩

/-- Two dice with the faces 6, 2, 6, 6, 1 under a limit of five: the last explosion comes right
before the limit. A single die that always explodes is given up at a limit of two. -/
theorem throw_outcome_two_chains :
    let rule : Rule := ⟨5, 6⟩
    let s := Script.ofFaces [6, 2, 6, 6, 1]
    let sixes := Script.ofFaces [6]
    (1 : Int) ≤ 6 ∧ (2 : Int) ≤ rule.explodeOn ∧
      (∃ pool, (throw 5 2 6 rule).run s = (.ok pool, Source.after 6 5 s) ∧
        pool.Shows rule 2 [6, 2, 6, 6, 1]) ∧
      (throw 2 1 6 rule).run sixes = (.error (.tooManyExplosions 2), Source.after 6 2 sixes) ∧
      (throw 2 1 6 rule).faces sixes = [6, 6] := by
  intro rule s sixes
  refine ⟨by decide, by decide, ?_, ?_⟩
  · have hsettles : Settles rule 6 2 s 5 := ⟨by decide, by decide⟩
    obtain ⟨pool, hrun, -, hshows⟩ :=
      (throw_outcome 5 2 6 rule s (by decide) (by decide) (by decide) (by decide)).1 5 hsettles
        (by decide)
    exact ⟨pool, hrun, hshows⟩
  · have hlate : LateExplosion rule 6 2 sixes 2 := by decide
    have hnone : ¬ ∃ k, Settles rule 6 1 sixes k ∧
        ∀ position ≤ k, ¬ LateExplosion rule 6 2 sixes position := by
      rintro ⟨k, hsettles, hcalm⟩
      have hk : k < 2 := Nat.lt_of_not_le fun hk => hcalm 2 hk hlate
      have hsettled : ∀ k < 2, rule.settled (Source.faces 6 k sixes) ≠ 1 := by decide
      exact hsettled k hk hsettles.settled
    obtain ⟨position, ⟨-, hlimit, -⟩, hfirst, hrun, hfaces⟩ :=
      (throw_outcome 2 1 6 rule sixes (by decide) (by decide) (by decide) (by decide)).2 hnone
    have hposition : position ≤ 2 := Nat.le_of_not_lt fun h => hfirst 2 h hlate
    obtain rfl : position = 2 := Nat.le_antisymm hposition hlimit
    exact ⟨hrun, hfaces⟩

end Stream

end Dice.Pool
