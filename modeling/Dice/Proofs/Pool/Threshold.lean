import Dice.Proofs.Pool.Hits
import Dice.Source.Script

/-! Pools under a higher explosion threshold. A face that is calm under the lower threshold is
calm under the higher one, so each face settles at least as many dice, and the faces of the
lower pool have a beginning that completes the higher one. Nothing in it explodes behind the
limit that did not before. Main statement: whenever a pool comes out, it comes out under any
higher threshold too, with a beginning of its faces and therefore no more hits; and a
threshold above the sides leaves the dice that the pool starts with. -/

namespace Dice.Pool

variable {rule rule' : Rule} {room count : Nat} {faces : List Int}

/-! ### Beginnings of a row of faces -/

theorem Rule.settled_mono (h : rule.explodeOn ≤ rule'.explodeOn) :
    rule.settled faces ≤ rule'.settled faces := by
  refine List.countP_mono_left fun face _ hface => ?_
  simp only [decide_eq_true_eq] at *
  omega

/-- Some beginning settles any number of dice up to those that the whole row settles, and ends
with the last of them. -/
theorem Rule.exists_prefix_settled (h : count ≤ rule.settled faces) :
    ∃ front, front <+: faces ∧ rule.settled front = count ∧
      ∀ face ∈ front.getLast?, face < rule.explodeOn := by
  induction faces generalizing count with
  | nil =>
    obtain rfl : count = 0 := Nat.le_zero.mp h
    exact ⟨[], List.nil_prefix, rfl, by simp⟩
  | cons face faces ih =>
    cases count with
    | zero => exact ⟨[], List.nil_prefix, rfl, by simp⟩
    | succ count =>
      by_cases hface : face < rule.explodeOn
      · rw [settled_cons_calm hface] at h
        obtain ⟨front, hfront, hsettled, hlast⟩ := ih (Nat.le_of_succ_le_succ h)
        refine ⟨face :: front, List.cons_prefix_cons.mpr ⟨rfl, hfront⟩, ?_, ?_⟩
        · rw [settled_cons_calm hface, hsettled]
        · cases front with
          | nil => simpa using hface
          | cons next front => simpa using hlast
      · rw [Int.not_lt] at hface
        rw [settled_cons_exploding hface] at h
        obtain ⟨front, hfront, hsettled, hlast⟩ := ih h
        -- the chain goes on, so the beginning does not end with this face
        have hne : front ≠ [] := by
          rintro rfl
          cases hsettled
        refine ⟨face :: front, List.cons_prefix_cons.mpr ⟨rfl, hfront⟩, ?_, ?_⟩
        · rw [settled_cons_exploding hface, hsettled]
        · rwa [List.getLast?_cons_of_ne_nil hne]

/-- The faces of a complete pool begin with those of a complete pool under a higher threshold. -/
theorem Completes.exists_prefix (h : Completes rule room count faces)
    (hle : rule.explodeOn ≤ rule'.explodeOn) :
    ∃ front, front <+: faces ∧ Completes rule' room count front := by
  have hmore : count ≤ rule'.settled faces := h.settled ▸ Rule.settled_mono hle
  obtain ⟨front, hfront, hsettled, hlast⟩ := Rule.exists_prefix_settled hmore
  refine ⟨front, hfront, hsettled, hlast, fun face hface => ?_⟩
  have hcalm : face < rule.explodeOn := h.calm face ((hfront.sublist.drop room).subset hface)
  exact Int.lt_of_lt_of_le hcalm hle

/-- Where no side explodes, a complete pool has the dice it starts with. -/
theorem Completes.calm_dice (h : Completes rule room count faces)
    (hcalm : ∀ face ∈ faces, face < rule.explodeOn) :
    (rule.lay false faces).length = count ∧ ∀ die ∈ rule.lay false faces, die.extra = false := by
  have hnone : (rule.lay false faces).countP Die.extra = 0 := by
    rw [h.countP_extra, List.countP_eq_zero]
    simpa using hcalm
  constructor
  · rw [h.length_eq, hnone, Nat.add_zero]
  · simpa [List.countP_eq_zero] using hnone

/-! ### Throwing under both thresholds -/

section Throw

variable {σ : Type} [Source σ]

/-- A pool that comes out under the threshold `low` comes out from the same source under any
greater one, `high`. Its faces are a beginning of those under `low`, so that it has no more dice,
hits or ones; and if no side reaches `high`, it has `count` dice and none of them is extra. -/
theorem throw_higher_threshold (limit : Nat) (count sides passOn low high : Int) (s t : σ)
    (pool : Pool) (hle : low ≤ high)
    (h : (throw limit count sides ⟨passOn, low⟩).run s = (.ok pool, t)) :
    ∃ pool' t', (throw limit count sides ⟨passOn, high⟩).run s = (.ok pool', t') ∧
      pool'.dice.map Die.face <+: pool.dice.map Die.face ∧
      pool'.dice.length ≤ pool.dice.length ∧ pool'.hits ≤ pool.hits ∧ pool'.ones ≤ pool.ones ∧
      (LawfulSource σ → sides < high →
        pool'.dice.length = count ∧ ∀ die ∈ pool'.dice, die.extra = false) := by
  obtain ⟨n, k, hallow, hcomplete, rfl, rfl⟩ := completes_of_run_eq_ok h
  obtain ⟨hsides, hlow, hlimit, hcount⟩ := allow_eq_ok_iff.mp hallow
  have hhigh : allow limit count sides ⟨passOn, high⟩ = .ok n :=
    allow_eq_ok_iff.mpr ⟨hsides, Int.le_trans hlow hle, hlimit, hcount⟩
  have hrule : (⟨passOn, low⟩ : Rule).explodeOn ≤ (⟨passOn, high⟩ : Rule).explodeOn := hle
  obtain ⟨front, hfront, hends⟩ := hcomplete.exists_prefix hrule
  have hfaces := Source.eq_faces_of_prefix hfront
  rw [hfaces] at hends
  refine ⟨_, _, throw_of_completes hhigh hends, ?_⟩
  rw [← hfaces] at hends ⊢
  refine ⟨?_, ?_, ?_, ?_, fun hlawful hside => ?_⟩
  · rwa [Rule.map_face_lay, Rule.map_face_lay]
  · rw [Rule.length_lay, Rule.length_lay]
    exact hfront.length_le
  · rw [hits, hits, Rule.countP_face_lay fun face => decide (passOn ≤ face),
      Rule.countP_face_lay fun face => decide (passOn ≤ face)]
    exact hfront.sublist.countP_le
  · rw [ones, ones, Rule.countP_face_lay fun face => decide (face = 1),
      Rule.countP_face_lay fun face => decide (face = 1)]
    exact hfront.sublist.countP_le
  · have hcalm : ∀ face ∈ front, face < high := fun face hface =>
      Int.lt_of_le_of_lt (Source.le_sides_of_mem_faces hsides (hfront.subset hface)) hside
    rw [hcount, Int.natCast_inj]
    exact hends.calm_dice hcalm

/-- Two ten-sided dice show 8, 9, 3, 10, 8, 2 and 5. If eights explode, six dice are thrown; if
only nines or tens do, no more hit, and without explosions two dice are all. -/
theorem throw_higher_threshold_again :
    let s := Script.ofFaces [8, 9, 3, 10, 8, 2, 5]
    let eights : Pool := ⟨⟨8, 8⟩,
      [⟨8, false⟩, ⟨9, true⟩, ⟨3, true⟩, ⟨10, false⟩, ⟨8, true⟩, ⟨2, true⟩]⟩
    (throw 20 2 10 ⟨8, 8⟩).run s = (.ok eights, ⟨s.faces, [5]⟩) ∧
      ∃ nines t tens u calm v, (throw 20 2 10 ⟨8, 9⟩).run s = (.ok nines, t) ∧
        (throw 20 2 10 ⟨8, 10⟩).run s = (.ok tens, u) ∧
        (throw 20 2 10 ⟨8, 11⟩).run s = (.ok calm, v) ∧
        tens.hits ≤ nines.hits ∧ nines.hits ≤ eights.hits ∧ calm.dice.length = (2 : Int) := by
  intro s eights
  have hrun : (throw 20 2 10 ⟨8, 8⟩).run s = (.ok eights, ⟨s.faces, [5]⟩) := by decide
  obtain ⟨nines, t, hnines, -, -, hhits, -⟩ :=
    throw_higher_threshold 20 2 10 8 8 9 s _ eights (by decide) hrun
  obtain ⟨tens, u, htens, -, -, hhits', -⟩ :=
    throw_higher_threshold 20 2 10 8 9 10 s _ nines (by decide) hnines
  obtain ⟨calm, v, hcalm, -, -, -, -, hdice⟩ :=
    throw_higher_threshold 20 2 10 8 10 11 s _ tens (by decide) htens
  exact ⟨hrun, nines, t, tens, u, calm, v, hnines, htens, hcalm, hhits', hhits,
    (hdice inferInstance (by decide)).1⟩

end Throw

end Dice.Pool
