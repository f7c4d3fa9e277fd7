import Dice.Proofs.Pool.Chains
import Dice.Source.Script

/-! The limit on the number of dice. A roll never throws more dice than the limit. A pool
looks at the limit when it begins and before each explosion, but not before the later
dice that it starts with, so these may go past the limit after explosions have used it
up. Main statement: a pool keeps the limit exactly if it is refused, or the faces up to
the limit settle all its dice, or the face at the limit explodes. -/

namespace Dice

variable {σ : Type} [Source σ]

/-- The play throws no more dice than the limit, its result shows no more, and it fails when it
would need more. -/
structure KeepsLimit {α : Type} (limit : Nat) (play : Play Refusal α) (size : α → Nat)
    (needsMore : Prop) (s : σ) : Prop where
  thrown : (play.faces s).length ≤ limit
  shown : ∀ result, (play.run s).1 = .ok result → size result ≤ limit
  refused : needsMore → ∃ refusal, (play.run s).1 = .error refusal

theorem keepsLimit_rollDice (limit : Nat) (count sides : Int) (s : σ) :
    KeepsLimit limit (rollDice limit count sides) (fun roll => roll.faces.length)
      (limit < count) s := by
  cases h : allowRoll limit count sides with
  | error refusal =>
    have hrun := run_rollDice_of_error h s
    refine ⟨by simp [faces_rollDice, h], ?_, fun _ => ⟨refusal, congrArg Prod.fst hrun⟩⟩
    intro roll hroll
    cases (congrArg Prod.fst hrun).symm.trans hroll
  | ok n =>
    obtain ⟨-, -, hlimit, rfl⟩ := allowRoll_eq_ok_iff.mp h
    refine ⟨by simpa [faces_rollDice, h] using hlimit, ?_, fun hmore => by omega⟩
    intro roll hroll
    obtain rfl := Except.ok.inj ((congrArg Prod.fst (run_rollDice_of_ok h s)).symm.trans hroll)
    simpa using hlimit

namespace Pool

variable {rule : Rule} {limit count : Nat} {faces more : List Int}

/-! ### Faces past the limit -/

theorem mem_drop_of_mem_getLast? {face : Int} (h : face ∈ faces.getLast?) :
    face ∈ faces.drop (faces.length - 1) := by
  obtain ⟨front, rfl⟩ := List.getLast?_eq_some_iff.mp h
  simp

theorem mem_drop_append_of_mem_right {face : Int} (h : face ∈ more) :
    face ∈ (faces ++ more).drop (faces.length - 1) := by
  rw [List.drop_append_of_le_length (Nat.sub_le _ _)]
  exact List.mem_append_right _ h

/-- A complete pool that goes on past some faces had dice left to throw there, and the last of
these faces did not explode. -/
theorem Completes.past (h : Completes rule (faces.length - 1) count (faces ++ more))
    (hne : more ≠ []) :
    rule.settled faces < count ∧ ∀ face ∈ faces.getLast?, face < rule.explodeOn := by
  constructor
  · obtain ⟨front, last, rfl⟩ := (List.eq_nil_or_concat' more).resolve_left hne
    have hlast : last < rule.explodeOn := h.last last (by simp)
    have hsettled := h.settled
    rw [Rule.settled_append, Rule.settled_append, Rule.settled_cons_calm hlast] at hsettled
    omega
  · intro face hface
    refine h.calm face ?_
    rw [List.drop_append_of_le_length (Nat.sub_le _ _)]
    exact List.mem_append_left _ (mem_drop_of_mem_getLast? hface)

theorem Breaks.past (h : Breaks rule (faces.length - 1) count (faces ++ more))
    (hne : more ≠ []) :
    rule.settled faces < count ∧ ∀ face ∈ faces.getLast?, face < rule.explodeOn := by
  constructor
  · have hsettled := h.settled
    rw [Rule.settled_append] at hsettled
    omega
  · intro face hface
    obtain ⟨calm, last, hdrop, hcalm, -⟩ := h.last
    obtain ⟨front, last', rfl⟩ := (List.eq_nil_or_concat' more).resolve_left hne
    rw [List.drop_append_of_le_length (Nat.sub_le _ _), ← List.append_assoc] at hdrop
    obtain ⟨rfl, -⟩ := List.append_inj' hdrop rfl
    exact hcalm face (List.mem_append_left _ (mem_drop_of_mem_getLast? hface))

theorem Breaks.getLast? {room : Nat} (h : Breaks rule room count faces) :
    ∃ face ∈ faces.getLast?, rule.explodeOn ≤ face := by
  obtain ⟨calm, face, hdrop, -, hface⟩ := h.last
  refine ⟨face, ?_, hface⟩
  rw [← List.take_append_drop room faces, hdrop]
  simp

section Throw

variable {sides : Int} {s : σ} {n k : Nat}

/-- The faces that complete or break a pool go past the limit exactly if the faces up to it leave
dice to throw and do not end with an explosion. -/
theorem limit_lt_iff (hlimit : n ≤ limit)
    (hends : Completes rule (limit - 1) n (Source.faces sides k s) ∨
      Breaks rule (limit - 1) n (Source.faces sides k s)) :
    limit < k ↔ rule.settled (Source.faces sides limit s) < n ∧
      ∀ face ∈ (Source.faces sides limit s).getLast?, face < rule.explodeOn := by
  constructor
  · intro hk
    obtain ⟨m, rfl⟩ := Nat.exists_eq_add_of_lt hk
    have hne : Source.faces sides (m + 1) (Source.after sides limit s) ≠ [] := by simp
    rw [Nat.add_assoc, Source.faces_add] at hends
    rcases hends with h | h
    · exact Completes.past (by simpa using h) hne
    · exact Breaks.past (by simpa using h) hne
  · rintro ⟨hsettled, hcalm⟩
    by_contra hk
    obtain ⟨m, hm⟩ := Nat.exists_eq_add_of_le (Nat.not_lt.mp hk)
    have hmore : rule.settled (Source.faces sides k s) ≤
        rule.settled (Source.faces sides limit s) := by
      rw [hm, Source.faces_add, Rule.settled_append]
      exact Nat.le_add_right _ _
    rcases hends with h | h
    · have := h.settled
      omega
    · obtain ⟨face, hface, hexplodes⟩ := h.getLast?
      obtain ⟨calm, last, hdrop, -, -⟩ := h.last
      -- a pool breaks at the limit or behind it
      have hlength := congrArg List.length hdrop
      simp only [List.length_drop, Source.length_faces, List.length_append, List.length_singleton]
        at hlength
      obtain rfl : k = limit := by omega
      exact Int.not_lt.mpr hexplodes (hcalm face hface)

/-- Calm faces behind the limit settle the dice that are left. -/
theorem completes_past_limit
    (hsettled : rule.settled (Source.faces sides limit s) < n)
    (hcalm : ∀ face ∈ (Source.faces sides
        (limit + (n - rule.settled (Source.faces sides limit s))) s).drop (limit - 1),
      face < rule.explodeOn) :
    Completes rule (limit - 1) n
      (Source.faces sides (limit + (n - rule.settled (Source.faces sides limit s))) s) := by
  have hcalm' := hcalm
  rw [Source.faces_add] at hcalm'
  generalize hfront : Source.faces sides limit s = front at *
  generalize hrest : Source.faces sides (n - rule.settled front) (Source.after sides limit s) =
    rest at *
  have hlength : front.length = limit := by rw [← hfront, Source.length_faces]
  have hlength' : rest.length = n - rule.settled front := by rw [← hrest, Source.length_faces]
  have hrestcalm : ∀ face ∈ rest, face < rule.explodeOn := fun face hface =>
    hcalm' face (hlength ▸ mem_drop_append_of_mem_right hface)
  refine ⟨?_, ?_, hcalm⟩
  · rw [Source.faces_add, hfront, hrest, Rule.settled_append, Rule.settled_of_calm hrestcalm]
    omega
  · intro face hface
    have hne : rest ≠ [] := by
      rw [← List.length_pos_iff_ne_nil]
      omega
    rw [Source.faces_add, hfront, hrest, List.getLast?_append_of_ne_nil _ hne] at hface
    exact hrestcalm face (List.mem_of_mem_getLast? hface)

/-- A complete pool that has gone past the limit has thrown one calm face for each die that was
left. -/
theorem Completes.eq_past_limit (h : Completes rule (limit - 1) n (Source.faces sides k s))
    (hk : limit < k) : k = limit + (n - rule.settled (Source.faces sides limit s)) := by
  obtain ⟨m, rfl⟩ := Nat.exists_eq_add_of_le (Nat.le_of_lt hk)
  obtain ⟨hsettled, -, hcalm⟩ := h
  rw [Source.faces_add] at hsettled hcalm
  have hmore : rule.settled (Source.faces sides m (Source.after sides limit s)) = m := by
    rw [Rule.settled_of_calm, Source.length_faces]
    intro face hface
    refine hcalm face ?_
    have hmem := @mem_drop_append_of_mem_right (Source.faces sides limit s) _ face hface
    rwa [Source.length_faces] at hmem
  rw [Rule.settled_append, hmore] at hsettled
  omega

theorem exists_past_limit_iff {count : Int} (h : allow limit count sides rule = .ok n) :
    (∃ pool, ((throw limit count sides rule).run s).1 = .ok pool ∧ limit < pool.dice.length) ↔
      rule.settled (Source.faces sides limit s) < n ∧
        ∀ face ∈ (Source.faces sides
          (limit + (n - rule.settled (Source.faces sides limit s))) s).drop (limit - 1),
          face < rule.explodeOn := by
  obtain ⟨-, -, hlimit, -⟩ := allow_eq_ok_iff.mp h
  constructor
  · rintro ⟨pool, hpool, hmore⟩
    obtain ⟨k, -, ⟨hcomplete, hrun⟩ | ⟨-, hrun⟩⟩ := throw_of_ok h s
    · obtain rfl := Except.ok.inj ((congrArg Prod.fst hrun).symm.trans hpool)
      rw [Rule.length_lay, Source.length_faces] at hmore
      refine ⟨((limit_lt_iff hlimit (.inl hcomplete)).mp hmore).1, ?_⟩
      rw [← hcomplete.eq_past_limit hmore]
      exact hcomplete.calm
    · cases (congrArg Prod.fst hrun).symm.trans hpool
  · rintro ⟨hsettled, hcalm⟩
    have hrun := throw_of_completes h (completes_past_limit hsettled hcalm)
    refine ⟨_, congrArg Prod.fst hrun, ?_⟩
    rw [Rule.length_lay, Source.length_faces]
    omega

/-- A pool keeps the limit as soon as it throws no more dice. -/
theorem keepsLimit_throw_iff {count : Int} (h : allow limit count sides rule = .ok n) :
    KeepsLimit limit (throw limit count sides rule) (fun pool => pool.dice.length)
        (rule.settled (Source.faces sides limit s) < count) s ↔
      ((throw limit count sides rule).faces s).length ≤ limit := by
  refine ⟨KeepsLimit.thrown, fun hthrown => ⟨hthrown, ?_, ?_⟩⟩
  all_goals obtain ⟨k, hfaces, ⟨hends, hrun⟩ | ⟨hends, hrun⟩⟩ := throw_of_ok h s
  all_goals rw [hfaces, Source.length_faces] at hthrown
  · intro pool hpool
    obtain rfl := Except.ok.inj ((congrArg Prod.fst hrun).symm.trans hpool)
    simpa using hthrown
  · intro pool hpool
    cases (congrArg Prod.fst hrun).symm.trans hpool
  · intro hmore
    obtain ⟨-, -, -, rfl⟩ := allow_eq_ok_iff.mp h
    obtain ⟨m, rfl⟩ := Nat.exists_eq_add_of_le hthrown
    have hsettled := hends.settled
    rw [Source.faces_add, Rule.settled_append] at hmore
    omega
  · exact fun _ => ⟨_, congrArg Prod.fst hrun⟩

end Throw

end Pool

/-- Every roll keeps the limit. A pool keeps it exactly if it is refused, or the faces up to the
limit settle all its dice, or the last of them explodes; and it comes to show more dice
than the limit exactly if otherwise no face explodes from there on until its dice are
settled. -/
theorem keepsLimit_iff (limit : Nat) (count sides : Int) (rule : Pool.Rule) (s : σ) :
    let play := Pool.throw limit count sides rule
    let faces := Source.faces sides limit s
    let missing := count.toNat - rule.settled faces
    KeepsLimit limit (rollDice limit count sides) (fun roll => roll.faces.length)
      (limit < count) s ∧
    (KeepsLimit limit play (fun pool => pool.dice.length) (rule.settled faces < count) s ↔
      (∃ refusal, Pool.allow limit count sides rule = .error refusal) ∨
        count ≤ rule.settled faces ∨ ∃ face ∈ faces.getLast?, rule.explodeOn ≤ face) ∧
    ((∃ pool, (play.run s).1 = .ok pool ∧ limit < pool.dice.length) ↔
      (∃ n, Pool.allow limit count sides rule = .ok n) ∧ rule.settled faces < count ∧
        ∀ face ∈ (Source.faces sides (limit + missing) s).drop (limit - 1),
          face < rule.explodeOn) := by
  intro play faces missing
  refine ⟨keepsLimit_rollDice limit count sides s, ?_⟩
  cases h : Pool.allow limit count sides rule with
  | error refusal =>
    obtain ⟨hfaces, hrun⟩ := Pool.throw_of_error h s
    have hfail : (play.run s).1 = .error refusal := congrArg Prod.fst hrun
    refine ⟨⟨fun _ => .inl ⟨refusal, rfl⟩, fun _ => ⟨?_, ?_, fun _ => ⟨refusal, hfail⟩⟩⟩, ?_⟩
    · exact hfaces ▸ Nat.zero_le limit
    · intro pool hpool
      cases hfail.symm.trans hpool
    · refine ⟨?_, fun ⟨⟨n, hn⟩, _⟩ => by cases hn⟩
      rintro ⟨pool, hpool, -⟩
      cases hfail.symm.trans hpool
  | ok n =>
    obtain ⟨-, -, hlimit, rfl⟩ := Pool.allow_eq_ok_iff.mp h
    obtain ⟨k, hfaces, hends⟩ := Pool.throw_of_ok h s
    have hpast := @Pool.limit_lt_iff _ _ rule limit sides s n k hlimit (hends.imp And.left And.left)
    constructor
    · rw [Pool.keepsLimit_throw_iff h, hfaces, Source.length_faces, ← Nat.not_lt, hpast, not_and_or]
      simp [faces]
    · rw [Pool.exists_past_limit_iff h]
      simp [missing, faces]

/-- With a limit of two dice, an explosion on the first uses up the limit, and the second is thrown
past it. -/
theorem not_keepsLimit_two_dice :
    let play := Pool.throw 2 2 6 ⟨5, 6⟩
    let s := Script.ofFaces [6, 1, 1]
    (play.run s).1 = .ok ⟨⟨5, 6⟩, [⟨6, false⟩, ⟨1, true⟩, ⟨1, false⟩]⟩ ∧
      ¬ KeepsLimit 2 play (fun pool => pool.dice.length)
        (Pool.Rule.settled ⟨5, 6⟩ (Source.faces 6 2 s) < 2) s := by
  intro play s
  exact ⟨rfl, fun h => absurd h.thrown (by decide)⟩

end Dice
