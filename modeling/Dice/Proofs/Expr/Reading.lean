import Dice.Expr.Parser
import Dice.Proofs.Expr.Grammar

/-! What the reader of expressions accepts. A state holds every word that has been read,
in order, and reading the words of an expression brings the reader to that expression
exactly if no number is negative and its parentheses fit within the limit. Main
statement: a text is read as an expression exactly if its words derive it and never
more than `nestingLimit` parentheses are open, and no words derive two expressions. -/

namespace Dice

open Token (Kind)

namespace Parser

/-! ### The words of a state -/

namespace Slot

def sumKinds (slot : Slot) : List Kind :=
  slot.sum.elim [] fun (left, op) => left.kinds ++ [.additive op]

def productKinds (slot : Slot) : List Kind :=
  slot.product.elim [] fun (left, op) => left.kinds ++ [.multiplicative op]

def countKinds (slot : Slot) : List Kind := slot.count.elim [] fun count => count.kinds ++ [.dice]

/-- The words that have been read into a slot. -/
def kinds (slot : Slot) : List Kind := slot.sumKinds ++ slot.productKinds ++ slot.countKinds

theorem kinds_factor (slot : Slot) (value : Expr .value) :
    (slot.factor value).kinds = slot.countKinds ++ value.kinds := by
  unfold factor countKinds
  cases slot.count <;> simp [Expr.kinds]

theorem kinds_closeProduct (slot : Slot) (value : Expr .value) :
    (slot.closeProduct value).kinds = slot.productKinds ++ slot.countKinds ++ value.kinds := by
  unfold closeProduct productKinds
  cases slot.product <;> simp [Expr.kinds, kinds_factor]

theorem kinds_closeSum (slot : Slot) (value : Expr .value) :
    (slot.closeSum value).kinds = slot.kinds ++ value.kinds := by
  unfold closeSum kinds sumKinds
  cases slot.sum <;> simp [Expr.kinds, kinds_closeProduct]

end Slot

namespace State

def outerKinds : List Slot → List Kind
  | [] => []
  | slot :: outer => outerKinds outer ++ slot.kinds ++ [.openParen]

/-- All words that have been read. -/
def kinds : State → List Kind
  | wanting slot outer => outerKinds outer ++ slot.kinds
  | holding slot value outer => outerKinds outer ++ slot.kinds ++ value.kinds

variable {limit : Nat} {s s' : State}

/-- A token that is taken is added to the words, and none is lost. -/
theorem kinds_step {kind : Kind} (h : s.step limit kind = .ok s') :
    s'.kinds = s.kinds ++ [kind] := by
  cases s with
  | wanting slot outer =>
    cases kind with
    | integer n =>
      cases h
      simp [kinds, Expr.kinds_const]
    | openParen =>
      simp only [step] at h
      split at h
      · cases h
        simp [kinds, outerKinds, Slot.kinds, Slot.sumKinds, Slot.productKinds, Slot.countKinds]
      · cases h
    | _ => cases h
  | holding slot value outer =>
    cases kind with
    | additive op =>
      cases h
      simp [kinds, Slot.kinds, Slot.sumKinds, Slot.productKinds, Slot.countKinds,
        Slot.kinds_closeSum]
    | multiplicative op =>
      cases h
      simp [kinds, Slot.kinds, Slot.sumKinds, Slot.productKinds, Slot.countKinds,
        Slot.kinds_closeProduct]
    | dice =>
      simp only [step] at h
      split at h
      · next hcount =>
        cases h
        rw [Option.isNone_iff_eq_none] at hcount
        simp [kinds, Slot.kinds, Slot.sumKinds, Slot.productKinds, Slot.countKinds, hcount]
      · cases h
    | closeParen =>
      cases outer with
      | nil => cases h
      | cons around outer =>
        cases h
        simp [kinds, outerKinds, Expr.kinds, Slot.kinds_closeSum]
    | _ => cases h

/-- Takes words one after another. -/
def walk (limit : Nat) : State → List Kind → Except Rejection State
  | state, [] => .ok state
  | state, kind :: words =>
    match state.step limit kind with
    | .ok next => walk limit next words
    | .error rejection => .error rejection

theorem walk_cons_eq_ok {kind : Kind} {words : List Kind} :
    s.walk limit (kind :: words) = .ok s' ↔
      ∃ t, s.step limit kind = .ok t ∧ t.walk limit words = .ok s' := by
  rw [walk]
  cases s.step limit kind <;> simp

theorem walk_append_eq_ok {a b : List Kind} :
    s.walk limit (a ++ b) = .ok s' ↔ ∃ t, s.walk limit a = .ok t ∧ t.walk limit b = .ok s' := by
  induction a generalizing s with
  | nil => simp [walk]
  | cons kind a ih =>
    simp only [List.cons_append, walk_cons_eq_ok, ih]
    constructor
    · rintro ⟨t, hstep, u, ha, hb⟩
      exact ⟨u, ⟨t, hstep, ha⟩, hb⟩
    · rintro ⟨u, ⟨t, hstep, ha⟩, hb⟩
      exact ⟨t, hstep, u, ha, hb⟩

theorem kinds_walk {words : List Kind} (h : s.walk limit words = .ok s') :
    s'.kinds = s.kinds ++ words := by
  induction words generalizing s with
  | nil =>
    cases h
    simp
  | cons kind words ih =>
    obtain ⟨t, hstep, hwalk⟩ := walk_cons_eq_ok.mp h
    rw [ih hwalk, kinds_step hstep, List.append_assoc, List.singleton_append]

/-- Reading tokens takes their words, and asks at the end for what has been read. -/
theorem run_eq_ok_iff {tokens : List Token} {e : Expr .sum} :
    s.run limit tokens = .ok e ↔
      ∃ t, s.walk limit (tokens.map Token.kind) = .ok t ∧ t.finish = .ok e := by
  induction tokens generalizing s with
  | nil => simp [run, walk]
  | cons token tokens ih =>
    rw [run, List.map_cons, walk]
    cases s.step limit token.kind <;> simp [ih]

/-- Tokens whose words are taken lead to the state that goes on with the rest. -/
theorem run_append {before rest : List Token} {t : State}
    (h : s.walk limit (before.map Token.kind) = .ok t) :
    s.run limit (before ++ rest) = t.run limit rest := by
  induction before generalizing s with
  | nil =>
    cases h
    rfl
  | cons token before ih =>
    obtain ⟨u, hstep, hwalk⟩ := walk_cons_eq_ok.mp h
    rw [List.cons_append, run, hstep]
    exact ih hwalk

end State

/-! ### Reading an expression -/

namespace Slot

/-- Nothing stands yet where an expression of the given level begins. -/
def Fresh : Level → Slot → Prop
  | .sum, slot => slot = {}
  | .product, slot => slot.product = none ∧ slot.count = none
  | .factor, slot => slot.count = none
  | .value, _ => True

/-- The slot `after`, with `value` read last, holds what `before` held and `e` after it. -/
def Extends : {level : Level} → (before after : Slot) → (value : Expr .value) → Expr level → Prop
  | .sum, _, after, value, e => after.closeSum value = e
  | .product, before, after, value, e => after.closeProduct value = e ∧ after.sum = before.sum
  | .factor, before, after, value, e =>
    after.factor value = e ∧ after.sum = before.sum ∧ after.product = before.product
  | .value, before, after, value, e => after = before ∧ value = e

end Slot

namespace State

open Slot (Fresh Extends)

variable {limit : Nat} {level : Level}

/-- An expression without negative numbers is read where one of its level may begin, if
its parentheses fit within the limit. -/
theorem walk_expr {e : Expr level} (slot : Slot) (outer : List Slot) (hfresh : Fresh level slot)
    (hn : e.Natural) (hdepth : outer.length + e.nesting ≤ limit) :
    ∃ after value, (wanting slot outer).walk limit e.kinds = .ok (holding after value outer) ∧
      Extends slot after value e := by
  induction e generalizing slot outer with
  | ofProduct product ih =>
    have hslot : slot = {} := hfresh
    subst hslot
    obtain ⟨after, value, hwalk, hclose, hsum⟩ := ih {} outer ⟨rfl, rfl⟩ hn hdepth
    exact ⟨after, value, hwalk, by simp [Extends, Slot.closeSum, hclose, hsum]⟩
  | additive left op right ihl ihr =>
    rw [Expr.natural_additive] at hn
    rw [Expr.nesting] at hdepth
    obtain ⟨a, v, hleft, hclose⟩ := ihl slot outer hfresh hn.1 (by omega)
    obtain ⟨after, value, hright, hproduct, hsum⟩ :=
      ihr { sum := some (left, op) } outer ⟨rfl, rfl⟩ hn.2 (by omega)
    have hclose : a.closeSum v = left := hclose
    have hstep : (holding a v outer).step limit (.additive op) =
        .ok (wanting { sum := some (left, op) } outer) := by simp [step, hclose]
    refine ⟨after, value, ?_, by simp [Extends, Slot.closeSum, hproduct, hsum]⟩
    rw [Expr.kinds, walk_append_eq_ok]
    exact ⟨_, hleft, walk_cons_eq_ok.mpr ⟨_, hstep, hright⟩⟩
  | ofFactor factor ih =>
    obtain ⟨after, value, hwalk, hfactor, hsum, hproduct⟩ := ih slot outer hfresh.2 hn hdepth
    rw [hfresh.1] at hproduct
    exact ⟨after, value, hwalk, by simp [Slot.closeProduct, hfactor, hproduct], hsum⟩
  | multiplicative left op right ihl ihr =>
    rw [Expr.natural_multiplicative] at hn
    rw [Expr.nesting] at hdepth
    obtain ⟨a, v, hleft, hclose, hleftSum⟩ := ihl slot outer hfresh hn.1 (by omega)
    obtain ⟨after, value, hright, hfactor, hsum, hproduct⟩ :=
      ihr { sum := a.sum, product := some (left, op) } outer rfl hn.2 (by omega)
    have hstep : (holding a v outer).step limit (.multiplicative op) =
        .ok (wanting { sum := a.sum, product := some (left, op) } outer) := by simp [step, hclose]
    refine ⟨after, value, ?_, by simp [Slot.closeProduct, hfactor, hproduct], hsum.trans hleftSum⟩
    rw [Expr.kinds, walk_append_eq_ok]
    exact ⟨_, hleft, walk_cons_eq_ok.mpr ⟨_, hstep, hright⟩⟩
  | ofValue value ih =>
    have hcount : slot.count = none := hfresh
    obtain ⟨after, v, hwalk, rfl, rfl⟩ := ih slot outer trivial hn hdepth
    exact ⟨after, v, hwalk, by simp [Slot.factor, hcount], rfl, rfl⟩
  | dice count sides ihc ihs =>
    have hcount : slot.count = none := hfresh
    rw [Expr.natural_dice] at hn
    rw [Expr.nesting] at hdepth
    obtain ⟨a, v, hfirst, rfl, rfl⟩ := ihc slot outer trivial hn.1 (by omega)
    obtain ⟨b, w, hsecond, rfl, rfl⟩ :=
      ihs { a with count := some v } outer trivial hn.2 (by omega)
    have hstep : (holding a v outer).step limit .dice =
        .ok (wanting { a with count := some v } outer) := by simp [step, hcount]
    refine ⟨{ a with count := some v }, w, ?_, by simp [Slot.factor], rfl, rfl⟩
    rw [Expr.kinds, walk_append_eq_ok]
    exact ⟨_, hfirst, walk_cons_eq_ok.mpr ⟨_, hstep, hsecond⟩⟩
  | const n =>
    rw [Expr.natural_const] at hn
    refine ⟨slot, .const n, ?_, rfl, rfl⟩
    rw [Expr.kinds_const hn]
    simp [walk, step, Int.natAbs_of_nonneg hn]
  | paren inner ih =>
    rw [Expr.nesting] at hdepth
    have hopen : outer.length < limit := by omega
    obtain ⟨a, v, hinner, hclose⟩ :=
      ih {} (slot :: outer) rfl hn (by rw [List.length_cons]; omega)
    have hclose : a.closeSum v = inner := hclose
    have hstep : (wanting slot outer).step limit .openParen = .ok (wanting {} (slot :: outer)) := by
      simp [step, hopen]
    refine ⟨slot, .paren inner, ?_, rfl, rfl⟩
    rw [Expr.kinds, walk_cons_eq_ok]
    refine ⟨_, hstep, walk_append_eq_ok.mpr ⟨_, hinner, ?_⟩⟩
    simp [walk, step, hclose]

/-- After an expression, the next word is taken in the state in which it has been read. -/
theorem step_of_walk {e : Expr level} (slot : Slot) (outer : List Slot) (hfresh : Fresh level slot)
    (hn : e.Natural) (hdepth : outer.length + e.nesting ≤ limit) {kind : Kind} {rest : List Kind}
    {s : State} (h : (wanting slot outer).walk limit (e.kinds ++ kind :: rest) = .ok s) :
    ∃ after value t, Extends slot after value e ∧
      (holding after value outer).step limit kind = .ok t ∧ t.walk limit rest = .ok s := by
  obtain ⟨after, value, hwalk, hextends⟩ := walk_expr slot outer hfresh hn hdepth
  obtain ⟨t, ht, hrest⟩ := walk_append_eq_ok.mp h
  obtain rfl : t = holding after value outer := by simpa [ht] using hwalk
  obtain ⟨u, hstep, hwalkRest⟩ := walk_cons_eq_ok.mp hrest
  exact ⟨after, value, u, hextends, hstep, hwalkRest⟩

/-- Only such an expression is read there. -/
theorem natural_of_walk {e : Expr level} (slot : Slot) (outer : List Slot) {s : State}
    (hfresh : Fresh level slot) (houter : outer.length ≤ limit)
    (h : (wanting slot outer).walk limit e.kinds = .ok s) :
    e.Natural ∧ outer.length + e.nesting ≤ limit := by
  induction e generalizing slot outer s with
  | ofProduct product ih =>
    have hslot : slot = {} := hfresh
    subst hslot
    exact ih {} outer ⟨rfl, rfl⟩ houter h
  | additive left op right ihl ihr =>
    rw [Expr.kinds] at h
    obtain ⟨_, hleft, -⟩ := walk_append_eq_ok.mp h
    obtain ⟨hnl, hdl⟩ := ihl slot outer hfresh houter hleft
    obtain ⟨a, v, t, -, hstep, hright⟩ := step_of_walk slot outer hfresh hnl hdl h
    cases hstep
    obtain ⟨hnr, hdr⟩ := ihr _ outer ⟨rfl, rfl⟩ houter hright
    exact ⟨Expr.natural_additive.mpr ⟨hnl, hnr⟩, by rw [Expr.nesting]; omega⟩
  | ofFactor factor ih => exact ih slot outer hfresh.2 houter h
  | multiplicative left op right ihl ihr =>
    rw [Expr.kinds] at h
    obtain ⟨_, hleft, -⟩ := walk_append_eq_ok.mp h
    obtain ⟨hnl, hdl⟩ := ihl slot outer hfresh houter hleft
    obtain ⟨a, v, t, -, hstep, hright⟩ := step_of_walk slot outer hfresh hnl hdl h
    cases hstep
    obtain ⟨hnr, hdr⟩ := ihr { sum := a.sum, product := _ } outer rfl houter hright
    exact ⟨Expr.natural_multiplicative.mpr ⟨hnl, hnr⟩, by rw [Expr.nesting]; omega⟩
  | ofValue value ih => exact ih slot outer trivial houter h
  | dice count sides ihc ihs =>
    have hcount : slot.count = none := hfresh
    rw [Expr.kinds] at h
    obtain ⟨_, hfirst, -⟩ := walk_append_eq_ok.mp h
    obtain ⟨hnc, hdc⟩ := ihc slot outer trivial houter hfirst
    obtain ⟨a, v, t, ⟨rfl, rfl⟩, hstep, hsecond⟩ :=
      step_of_walk (e := count) slot outer trivial hnc hdc h
    obtain rfl : wanting { a with count := some v } outer = t := by simpa [step, hcount] using hstep
    obtain ⟨hns, hds⟩ := ihs { a with count := some v } outer trivial houter hsecond
    exact ⟨Expr.natural_dice.mpr ⟨hnc, hns⟩, by rw [Expr.nesting]; omega⟩
  | const n =>
    rw [Expr.kinds] at h
    split at h
    · simp [walk, step] at h
    · next hn => exact ⟨Expr.natural_const.mpr (by omega), houter⟩
  | paren inner ih =>
    rw [Expr.kinds, walk_cons_eq_ok] at h
    obtain ⟨t, hstep, hrest⟩ := h
    simp only [step] at hstep
    split at hstep
    · next hopen =>
      cases hstep
      obtain ⟨_, hinner, -⟩ := walk_append_eq_ok.mp hrest
      obtain ⟨hn, hd⟩ := ih {} (slot :: outer) rfl (by rw [List.length_cons]; omega) hinner
      rw [List.length_cons] at hd
      exact ⟨hn, by rw [Expr.nesting]; omega⟩
    · cases hstep

/-- From the start, exactly the words of an expression without negative numbers are read
as that expression, if its parentheses fit within the limit. -/
theorem walk_start_iff {words : List Kind} {e : Expr .sum} :
    (∃ s, start.walk limit words = .ok s ∧ s.finish = .ok e) ↔
      Derives words e ∧ e.nesting ≤ limit := by
  rw [Derives.iff_kinds]
  constructor
  · rintro ⟨s, hwalk, hfinish⟩
    obtain ⟨slot, value, rfl, rfl⟩ : ∃ slot value, s = holding slot value [] ∧
        slot.closeSum value = e := by
      unfold finish at hfinish
      split at hfinish
      · cases hfinish
      · next slot value => exact ⟨slot, value, rfl, by simpa using hfinish⟩
      · cases hfinish
    have hkinds := kinds_walk hwalk
    obtain rfl : (slot.closeSum value).kinds = words := by
      rw [Slot.kinds_closeSum]
      simpa [kinds, outerKinds, start, Slot.kinds, Slot.sumKinds, Slot.productKinds,
        Slot.countKinds] using hkinds
    obtain ⟨hn, hd⟩ := @natural_of_walk limit .sum _ {} [] _ rfl (Nat.zero_le _) hwalk
    exact ⟨⟨hn, rfl⟩, by simpa using hd⟩
  · rintro ⟨⟨hn, rfl⟩, hd⟩
    obtain ⟨after, value, hwalk, hclose⟩ :=
      @walk_expr limit .sum e {} [] rfl hn (by simpa using hd)
    have hclose : after.closeSum value = e := hclose
    exact ⟨_, hwalk, by simp [finish, hclose]⟩

end State

end Parser

/-- No words derive two expressions. -/
theorem Derives.unique {words : List Kind} {e e' : Expr .sum} (h : Derives words e)
    (h' : Derives words e') : e = e' := by
  obtain ⟨s, hs, hfinish⟩ :=
    Parser.State.walk_start_iff.mpr ⟨h, Nat.le_max_left e.nesting e'.nesting⟩
  obtain ⟨s', hs', hfinish'⟩ :=
    Parser.State.walk_start_iff.mpr ⟨h', Nat.le_max_right e.nesting e'.nesting⟩
  obtain rfl : s = s' := by simpa [hs] using hs'
  simpa [hfinish] using hfinish'

/-- The words of a canonical text derive the expression it was printed from, or none. -/
theorem Expr.derives_kinds_iff {e e' : Expr .sum} : Derives e.kinds e' ↔ e' = e ∧ e.Natural := by
  constructor
  · intro h
    obtain ⟨s, hwalk, -⟩ := Parser.State.walk_start_iff.mpr ⟨h, Nat.le_refl e'.nesting⟩
    obtain ⟨hn, -⟩ := @Parser.State.natural_of_walk _ .sum e {} [] s rfl (Nat.zero_le _) hwalk
    exact ⟨h.unique (Expr.derives_kinds hn), hn⟩
  · rintro ⟨rfl, hn⟩
    exact Expr.derives_kinds hn

/-- Behind a closing parenthesis stands no number. -/
theorem not_derives_closeParen_integer {a b : List Kind} {n : Nat} {e : Expr .sum} :
    ¬ Derives (a ++ .closeParen :: .integer n :: b) e := by
  intro h
  obtain ⟨s, hwalk, -⟩ := Parser.State.walk_start_iff.mpr ⟨h, Nat.le_refl e.nesting⟩
  obtain ⟨t, -, hrest⟩ := Parser.State.walk_append_eq_ok.mp hwalk
  obtain ⟨u, hclose, hrest⟩ := Parser.State.walk_cons_eq_ok.mp hrest
  obtain ⟨v, hnumber, -⟩ := Parser.State.walk_cons_eq_ok.mp hrest
  rcases t with ⟨slot, outer⟩ | ⟨slot, value, _ | ⟨around, outer⟩⟩
  · cases hclose
  · cases hclose
  · cases hclose
    cases hnumber

/-! ### Reading a text -/

namespace Expr

open Token (NestsWithin)

theorem ofChars_eq_ok_iff {text : List Char} {e : Expr .sum} :
    ofChars text = .ok e ↔ ∃ tokens, Token.scan text = .ok tokens ∧
      Derives (tokens.map Token.kind) e ∧ e.nesting ≤ nestingLimit := by
  unfold ofChars
  cases hscan : Token.scan text with
  | error error => simp [bind, Except.bind]
  | ok tokens =>
    simp only [bind, Except.bind, Except.ok.injEq, exists_eq_left']
    rw [Parser.State.run_eq_ok_iff, Parser.State.walk_start_iff]

theorem mapError_eq_ok_iff {ε ε' α : Type} {f : ε → ε'} {result : Except ε α} {a : α} :
    result.mapError f = .ok a ↔ result = .ok a := by
  cases result with
  | ok _ =>
    constructor
    all_goals
      intro h
      cases h
      rfl
  | error _ => constructor <;> intro h <;> cases h

theorem ofChars_eq_error_iff {text : List Char} {error : ParseError Nat} :
    ofChars text = .error error ↔ Token.scan text = .error error ∨
      ∃ tokens, Token.scan text = .ok tokens ∧
        Parser.State.start.run nestingLimit tokens = .error error := by
  unfold ofChars
  cases Token.scan text <;> simp [bind, Except.bind]

theorem mapError_eq_error_iff {ε ε' α : Type} {f : ε → ε'} {result : Except ε α} {error : ε'} :
    result.mapError f = .error error ↔ ∃ cause, result = .error cause ∧ f cause = error := by
  cases result with
  | ok _ =>
    constructor
    · intro h
      cases h
    · rintro ⟨_, h, _⟩
      cases h
  | error cause =>
    constructor
    · intro h
      exact ⟨cause, rfl, Except.error.inj h⟩
    · rintro ⟨_, ⟨⟩, rfl⟩
      rfl

theorem parsePlain_eq_ok_iff {text : String} {e : Expr .sum} :
    parsePlain text = .ok e ↔ ofChars text.toList = .ok e := mapError_eq_ok_iff

theorem parse_eq_ok_iff {text : String} {e : Expr .sum} :
    parse text = .ok e ↔ ofChars (Shorthand.expand text.toList) = .ok e := mapError_eq_ok_iff

/-- A text is read as an expression exactly if it falls into words that derive the expression
and never open more parentheses than the limit; and words derive one expression only. -/
theorem parsePlain_eq_ok_iff_derives (text : String) (e : Expr .sum) :
    (parsePlain text = .ok e ↔ ∃ tokens, Token.scan text.toList = .ok tokens ∧
      Derives (tokens.map Token.kind) e ∧ NestsWithin nestingLimit (tokens.map Token.kind)) ∧
    ∀ words, Derives words e → ∀ e', Derives words e' → e' = e := by
  refine ⟨?_, fun words h e' h' => h'.unique h⟩
  rw [parsePlain_eq_ok_iff, ofChars_eq_ok_iff]
  refine exists_congr fun tokens => and_congr_right fun _ => and_congr_right fun hderives => ?_
  rw [hderives.eq_kinds, nestsWithin_kinds, Int.ofNat_le]

/-- The words of `(1d4)d6 - 2` derive it, and nothing else. -/
theorem parsePlain_nested_count :
    let e : Expr .sum := .additive (.ofProduct (.ofFactor (.dice
      (.paren (.ofProduct (.ofFactor (.dice (.const 1) (.const 4))))) (.const 6))))
      .sub (.ofFactor (.ofValue (.const 2)))
    parsePlain "(1d4)d6 - 2" = .ok e ∧ Derives e.kinds e ∧ ∀ e', Derives e.kinds e' → e' = e := by
  intro e
  have hderives : Derives e.kinds e := derives_kinds (by simp [e])
  have hread := parsePlain_eq_ok_iff_derives "(1d4)d6 - 2" e
  refine ⟨hread.1.mpr ⟨_, rfl, hderives, ?_⟩, hderives, hread.2 e.kinds hderives⟩
  exact (nestsWithin_kinds e nestingLimit).mpr (by decide)

end Expr

end Dice
