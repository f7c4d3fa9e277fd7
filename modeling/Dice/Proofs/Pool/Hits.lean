import Dice.Proofs.Pool.Outcome

/-! Hits of a pool. A pool that comes out shows a completed row of faces, and has one extra
die for each face that explodes. Where every exploding face is a hit, a pool has no fewer
hits than extra dice; and since a one does not explode, it has no more ones than the dice
that it starts with. -/

namespace Dice.Pool

variable {rule : Rule} {room count : Nat} {faces : List Int}

/-- Counting dice by their faces is counting faces. -/
theorem Rule.countP_face_lay (p : Int → Bool) (extra : Bool) :
    (rule.lay extra faces).countP (fun die => p die.face) = faces.countP p := by
  have hfaces := congrArg (List.countP p) (@Rule.map_face_lay rule faces extra)
  rwa [List.countP_map] at hfaces

/-- A complete pool has the dice that it starts with and its extra dice. -/
theorem Completes.length_eq (h : Completes rule room count faces) :
    (rule.lay false faces).length = count + (rule.lay false faces).countP Die.extra := by
  have hdice : (rule.lay false faces).length = (rule.lay false faces).countP Die.extra +
      (rule.lay false faces).countP (fun die => !die.extra) := by
    simpa using List.length_eq_countP_add_countP Die.extra (l := rule.lay false faces)
  have hstarted : (rule.lay false faces).countP (fun die => !die.extra) = count := h.shows.started
  omega

/-- A complete pool has an extra die for each face that explodes. -/
theorem Completes.countP_extra (h : Completes rule room count faces) :
    (rule.lay false faces).countP Die.extra =
      faces.countP fun face => rule.explodeOn ≤ face := by
  have hdice := h.length_eq
  have hfaces : faces.length =
      rule.settled faces + faces.countP (fun face => rule.explodeOn ≤ face) := by
    simpa [Rule.settled] using
      List.length_eq_countP_add_countP (fun face => decide (face < rule.explodeOn)) (l := faces)
  have hsettled : rule.settled faces = count := h.settled
  rw [Rule.length_lay] at hdice
  omega

theorem Completes.countP_extra_le_hits (h : Completes rule room count faces)
    (hpass : rule.passOn ≤ rule.explodeOn) :
    (rule.lay false faces).countP Die.extra ≤ hits ⟨rule, rule.lay false faces⟩ := by
  rw [h.countP_extra, hits, Rule.countP_face_lay fun face => decide (rule.passOn ≤ face)]
  refine List.countP_mono_left fun face _ hface => ?_
  have hexplodes : rule.explodeOn ≤ face := by simpa using hface
  simpa using Int.le_trans hpass hexplodes

/-- A one ends its chain. -/
theorem Completes.ones_le (h : Completes rule room count faces) (hrule : 2 ≤ rule.explodeOn) :
    ones ⟨rule, rule.lay false faces⟩ ≤ count := by
  rw [ones, Rule.countP_face_lay fun face => decide (face = 1), ← h.settled, Rule.settled]
  refine List.countP_mono_left fun face _ hface => ?_
  have hone : face = 1 := by simpa using hface
  simp only [decide_eq_true_eq]
  omega

theorem hits_eq_zero_iff {pool : Pool} :
    pool.hits = 0 ↔ ∀ die ∈ pool.dice, die.face < pool.rule.passOn := by
  simp [hits, List.countP_eq_zero]

section Throw

variable {σ : Type} [Source σ] {limit : Nat} {count sides : Int} {pool : Pool} {s t : σ}

/-- A pool that comes out has been allowed, and lays faces on the table that complete it. -/
theorem completes_of_run_eq_ok (h : (throw limit count sides rule).run s = (.ok pool, t)) :
    ∃ n k, allow limit count sides rule = .ok n ∧
      Completes rule (limit - 1) n (Source.faces sides k s) ∧
      pool = ⟨rule, rule.lay false (Source.faces sides k s)⟩ ∧ t = Source.after sides k s := by
  cases hallow : allow limit count sides rule with
  | error refusal =>
    rw [(throw_of_error hallow s).2] at h
    cases h
  | ok n =>
    obtain ⟨k, -, ⟨hcomplete, hrun⟩ | ⟨-, hrun⟩⟩ := throw_of_ok hallow s
    · rw [hrun] at h
      cases h
      exact ⟨n, k, rfl, hcomplete, rfl, rfl⟩
    · rw [hrun] at h
      cases h

/-- The dice of a pool show some of their sides. -/
theorem face_mem_sides [LawfulSource σ] (h : (throw limit count sides rule).run s = (.ok pool, t)) :
    ∀ die ∈ pool.dice, 1 ≤ die.face ∧ die.face ≤ sides := by
  obtain ⟨n, k, hallow, -, rfl, -⟩ := completes_of_run_eq_ok h
  have hsides : 1 ≤ sides := (allow_eq_ok_iff.mp hallow).1
  intro die hdie
  have hface : die.face ∈ Source.faces sides k s := by
    rw [← @Rule.map_face_lay rule (Source.faces sides k s) false]
    exact List.mem_map_of_mem hdie
  exact ⟨Source.one_le_of_mem_faces hsides hface, Source.le_sides_of_mem_faces hsides hface⟩

end Throw

end Dice.Pool
