import Dice.Proofs.Expr.Exact
import Dice.Proofs.Expr.RoundTrip
import Mathlib.Algebra.Order.Group.Int

/-! The expansion as an account of the value. An evaluation leaves behind an expression
without dice: the one evaluated, with every dice term replaced by the sum of its faces in
parentheses. Its words are those of the expansion with square brackets read as round ones,
and it has the value of the outcome. Main statement: the expansion of a value is read as an
expression without dice that has the same value, and without dice to begin with as the
expression that was evaluated. -/

namespace Dice

open Token (Spells)

/-! ### Square brackets -/

/-- Square brackets are read as round ones. -/
def unbracket (c : Char) : Char :=
  if c = '[' then '(' else if c = ']' then ')' else c

def roundBrackets (text : String) : String := String.ofList (text.toList.map unbracket)

/-- The characters of an expansion: digits, blanks, operators and brackets. -/
def Plain (c : Char) : Prop := c.isDigit ∨ c ∈ " +-*/()[]".toList

theorem unbracket_of_isDigit {c : Char} (h : c.isDigit) : unbracket c = c := by
  unfold unbracket
  split
  · next hc => rw [hc] at h; cases h
  · split
    · next hc => rw [hc] at h; cases h
    · rfl

theorem unbracket_of_symbol {c : Char} {kind : Token.Kind} (h : Token.symbol? c = some kind) :
    unbracket c = c := by
  unfold Token.symbol? at h
  split at h <;> first | rfl | cases h

theorem map_unbracket {text : List Char} (h : ∀ c ∈ text, unbracket c = c) :
    text.map unbracket = text := (List.map_congr_left h).trans (List.map_id text)

theorem unbracket_ne_dice {c : Char} (h : Plain c) : unbracket c ≠ 'd' := by
  rcases h with h | h
  · rw [unbracket_of_isDigit h]
    rintro rfl
    cases h
  · have hall : " +-*/()[]".toList.all (unbracket · != 'd') := by decide
    simpa using List.all_eq_true.mp hall c h

theorem plain_of_symbol {c : Char} {kind : Token.Kind} (h : Token.symbol? c = some kind)
    (hne : kind ≠ .dice) : Plain c := by
  unfold Token.symbol? at h
  split at h
  all_goals first
    | exact .inr (by decide)
    | exact absurd (Option.some.inj h).symm hne
    | cases h

/-! ### Expressions without dice -/

theorem Outcome.ofValue_eq_ok_iff {value : Int} {expansion : String} {outcome : Outcome} :
    ofValue value expansion = .ok outcome ↔ Word.Fits value ∧ outcome = ⟨value, expansion⟩ := by
  unfold ofValue Word.ofInt?
  by_cases h : Word.Fits value <;> simp [h, eq_comm]

theorem AddOp.apply_eq_ok_iff {op : AddOp} {left right outcome : Outcome} :
    op.apply left right = .ok outcome ↔
      (Operation.additive op left.value right.value).Sound 0 ∧
        outcome = ⟨(Operation.additive op left.value right.value).result,
          left.join op.text right⟩ := by
  cases op <;>
    simp [apply, Outcome.ofValue_eq_ok_iff, Operation.Sound, Operation.Allowed, Operation.result]

theorem MulOp.apply_eq_ok_iff {op : MulOp} {left right outcome : Outcome} :
    op.apply left right = .ok outcome ↔
      (Operation.multiplicative op left.value right.value).Sound 0 ∧
        outcome = ⟨(Operation.multiplicative op left.value right.value).result,
          left.join op.text right⟩ := by
  cases op with
  | mul =>
    simp [apply, Outcome.ofValue_eq_ok_iff, Operation.Sound, Operation.Allowed, Operation.result]
  | div =>
    by_cases hright : right.value = 0 <;>
      simp [apply, hright, Outcome.ofValue_eq_ok_iff, Operation.Sound, Operation.Allowed,
        Operation.result]

namespace Expr

variable {level : Level}

/-- Evaluation throws no die and has the value, whatever the limit. -/
def Settled (e : Expr level) (value : Int) : Prop :=
  ∀ limit, ∃ expansion, e.eval limit = .done ⟨value, expansion⟩

theorem settled_const (n : Int) : (const n).Settled n := fun _ => ⟨toString n, rfl⟩

theorem Settled.paren {inner : Expr .sum} {value : Int} (h : inner.Settled value) :
    (paren inner).Settled value := by
  intro limit
  obtain ⟨expansion, heval⟩ := h limit
  exact ⟨_, by rw [eval, heval, Play.done_bind, Play.pure_eq]; rfl⟩

theorem Settled.additive {left : Expr .sum} {op : AddOp} {right : Expr .product} {a b : Int}
    (hl : left.Settled a) (hr : right.Settled b) (h : (Operation.additive op a b).Sound 0) :
    (additive left op right).Settled (Operation.additive op a b).result := by
  intro limit
  obtain ⟨x, hleft⟩ := hl limit
  obtain ⟨y, hright⟩ := hr limit
  have happly := (@AddOp.apply_eq_ok_iff op ⟨a, x⟩ ⟨b, y⟩ _).mpr ⟨h, rfl⟩
  exact ⟨_, by rw [eval, hleft, Play.done_bind, hright, Play.done_bind, happly]; rfl⟩

theorem Settled.multiplicative {left : Expr .product} {op : MulOp} {right : Expr .factor}
    {a b : Int} (hl : left.Settled a) (hr : right.Settled b)
    (h : (Operation.multiplicative op a b).Sound 0) :
    (multiplicative left op right).Settled (Operation.multiplicative op a b).result := by
  intro limit
  obtain ⟨x, hleft⟩ := hl limit
  obtain ⟨y, hright⟩ := hr limit
  have happly := (@MulOp.apply_eq_ok_iff op ⟨a, x⟩ ⟨b, y⟩ _).mpr ⟨h, rfl⟩
  exact ⟨_, by rw [eval, hleft, Play.done_bind, hright, Play.done_bind, happly]; rfl⟩

end Expr

/-! ### Sums of faces -/

namespace Expr

def number (n : Int) : Expr .product := .ofFactor (.ofValue (.const n))

/-- Adds numbers behind a sum, one after another. -/
def addAll (left : Expr .sum) (numbers : List Int) : Expr .sum :=
  numbers.foldl (fun left n => .additive left .add (number n)) left

variable {left : Expr .sum} {n : Int} {numbers : List Int}

theorem addAll_cons :
    addAll left (n :: numbers) = addAll (.additive left .add (number n)) numbers := rfl

theorem constants_addAll : (addAll left numbers).constants = left.constants ++ numbers := by
  induction numbers generalizing left with
  | nil => simp [addAll]
  | cons n numbers ih => simp [addAll_cons, ih, constants, number]

theorem diceTerms_addAll : (addAll left numbers).diceTerms = left.diceTerms := by
  induction numbers generalizing left with
  | nil => rfl
  | cons n numbers ih => simp [addAll_cons, ih, diceTerms, number]

theorem nesting_addAll : (addAll left numbers).nesting = left.nesting := by
  induction numbers generalizing left with
  | nil => rfl
  | cons n numbers ih => simp [addAll_cons, ih, nesting, number]

theorem text_addAll :
    (addAll left numbers).text = String.intercalate " + " (left.text :: numbers.map toString) := by
  induction numbers generalizing left with
  | nil => simp [addAll]
  | cons n numbers ih =>
    have htext : (additive left .add (number n)).text = left.text ++ " + " ++ toString n := by
      simp only [text, number, AddOp.text, String.append_assoc]
      rfl
    rw [addAll_cons, ih, htext, List.map_cons, String.intercalate_cons_cons,
      String.intercalate_cons_append]

/-- The numbers are added as the faces of a roll are. -/
theorem settled_addAll {sum total : Int} (hleft : left.Settled sum)
    (htotal : numbers.foldlM (fun sum n => Word.ofInt? (sum + n)) sum = some total) :
    (addAll left numbers).Settled total := by
  induction numbers generalizing left sum with
  | nil =>
    obtain rfl : sum = total := by simpa using htotal
    exact hleft
  | cons n numbers ih =>
    rw [List.foldlM_cons, Option.bind_eq_bind, Option.bind_eq_some_iff] at htotal
    obtain ⟨next, hnext, hrest⟩ := htotal
    obtain ⟨hfits, rfl⟩ := Word.ofInt?_eq_some_iff.mp hnext
    have hadd : (additive left .add (number n)).Settled (sum + n) :=
      .additive hleft (settled_const n) ⟨trivial, hfits⟩
    exact ih hadd hrest

/-- What holds of digits, blanks and plus signs holds of the characters of a sum. -/
theorem forall_mem_text_addAll {p : Char → Prop} (hleft : ∀ c ∈ left.text.toList, p c)
    (hnumbers : ∀ n ∈ numbers, ∀ c ∈ (toString n).toList, p c) (hblank : p ' ') (hadd : p '+') :
    ∀ c ∈ (addAll left numbers).text.toList, p c := by
  induction numbers generalizing left with
  | nil => exact hleft
  | cons n numbers ih =>
    have hn := hnumbers n List.mem_cons_self
    refine ih ?_ fun m hm => hnumbers m (List.mem_cons_of_mem n hm)
    intro c hc
    simp only [text, AddOp.text, number, String.toList_append, List.mem_append] at hc
    rcases hc with (((hc | hc) | hc) | hc) | hc
    · exact hleft c hc
    · obtain rfl : c = ' ' := by simpa using hc
      exact hblank
    · obtain rfl : c = '+' := by simpa using hc
      exact hadd
    · obtain rfl : c = ' ' := by simpa using hc
      exact hblank
    · exact hn c hc

/-- The sum of the faces of a roll. -/
def ofFaces (face : Int) (faces : List Int) : Expr .sum := addAll (.ofProduct (number face)) faces

variable {face total : Int} {faces : List Int}

theorem constants_ofFaces : (ofFaces face faces).constants = face :: faces := by
  rw [ofFaces, constants_addAll]
  rfl

/-- A roll shows the sum of its faces in brackets. -/
theorem toList_text_roll :
    (Roll.text ⟨face :: faces⟩).toList = '[' :: ((ofFaces face faces).text.toList ++ [']']) := by
  rw [ofFaces, text_addAll, Roll.text]
  simp [text, number]

theorem forall_mem_text_ofFaces (hfaces : ∀ f ∈ face :: faces, 0 ≤ f) :
    ∀ c ∈ (ofFaces face faces).text.toList, Plain c ∧ unbracket c = c := by
  have hdigits : ∀ n ∈ face :: faces, ∀ c ∈ (toString n).toList, Plain c ∧ unbracket c = c :=
    fun n hn c hc =>
      have hdigit := isDigit_of_mem_toString (hfaces n hn) c hc
      ⟨.inl hdigit, unbracket_of_isDigit hdigit⟩
  refine forall_mem_text_addAll (hdigits face List.mem_cons_self)
    (fun n hn => hdigits n (List.mem_cons_of_mem face hn)) ?_ ?_
  · exact ⟨.inr (by decide), rfl⟩
  · exact ⟨.inr (by decide), rfl⟩

theorem map_unbracket_text_roll (hfaces : ∀ f ∈ face :: faces, 0 ≤ f) :
    (Roll.text ⟨face :: faces⟩).toList.map unbracket =
      (paren (ofFaces face faces)).text.toList := by
  rw [toList_text_roll, text_paren, List.map_cons, List.map_append,
    map_unbracket fun c hc => (forall_mem_text_ofFaces hfaces c hc).2]
  rfl

theorem settled_ofFaces (htotal : Roll.total? ⟨face :: faces⟩ = some total) :
    (ofFaces face faces).Settled total := by
  rw [Roll.total?, List.foldlM_cons, Option.bind_eq_bind, Option.bind_eq_some_iff] at htotal
  obtain ⟨first, hfirst, hrest⟩ := htotal
  obtain ⟨-, rfl⟩ := Word.ofInt?_eq_some_iff.mp hfirst
  rw [Int.zero_add] at hrest
  exact settled_addAll (settled_const face) hrest

/-- No face is greater than the total. -/
theorem le_greatest_of_mem_faces (hfaces : ∀ f ∈ face :: faces, 0 ≤ f)
    (htotal : Roll.total? ⟨face :: faces⟩ = some total) :
    ∀ f ∈ face :: faces, f ≤ Word.greatest := by
  rw [Roll.total?_of_nonneg hfaces, Word.ofInt?_eq_some_iff] at htotal
  exact fun f hf => Int.le_trans (List.single_le_sum hfaces f hf) htotal.1.2

end Expr

/-! ### Accounts of a value -/

/-- With round brackets for square ones, the text is in the words of an expression without dice. -/
structure Transcribes {level : Level} (text : String) (e : Expr level) : Prop where
  plain : ∀ c ∈ text.toList, Plain c
  words : Spells (text.toList.map unbracket) e.kinds
  natural : e.Natural
  diceless : e.diceTerms = []

/-- `e'` says how the outcome came about: `e` with every dice term replaced by the sum of its
faces, in the words of the expansion. -/
structure Recounts {level : Level} (e e' : Expr level) (outcome : Outcome) : Prop where
  plain : ∀ c ∈ outcome.expansion.toList, Plain c
  words : Spells (outcome.expansion.toList.map unbracket) e'.kinds
  natural : e'.Natural
  nesting : e'.nesting ≤ e.nesting + 1
  diceless : e'.diceTerms = []
  settled : e'.Settled outcome.value
  unchanged : e.diceTerms = [] → e' = e ∧ ∀ c ∈ outcome.expansion.toList, unbracket c = c

namespace Outcome

variable {left right : Outcome} {op : String} {c : Char}

theorem toList_join (hop : op.toList = [c]) : (left.join op right).toList =
    left.expansion.toList ++ ' ' :: c :: ' ' :: right.expansion.toList := by
  simp [join, hop]

theorem forall_mem_join {p : Char → Prop} (hop : op.toList = [c])
    (hl : ∀ c ∈ left.expansion.toList, p c) (hr : ∀ c ∈ right.expansion.toList, p c)
    (hblank : p ' ') (hc : p c) : ∀ c ∈ (left.join op right).toList, p c := by
  rw [toList_join hop]
  simp only [List.forall_mem_append, List.forall_mem_cons]
  exact ⟨hl, hblank, hc, hblank, hr⟩

theorem spells_join {kind : Token.Kind} {a b : List Token.Kind} (hop : op.toList = [c])
    (hsymbol : Token.symbol? c = some kind)
    (hl : Spells (left.expansion.toList.map unbracket) a)
    (hr : Spells (right.expansion.toList.map unbracket) b) :
    Spells ((left.join op right).toList.map unbracket) (a ++ kind :: b) := by
  have hblank : unbracket ' ' = ' ' := rfl
  rw [toList_join hop, List.map_append, List.map_cons, List.map_cons, List.map_cons, hblank,
    unbracket_of_symbol hsymbol, Token.spells_operator hsymbol]
  exact ⟨a, b, hl, hr, rfl⟩

theorem toList_parenthesize (inner : Outcome) : inner.parenthesize.expansion.toList =
    '(' :: ' ' :: (inner.expansion.toList ++ [' ', ')']) := by
  simp [parenthesize]

theorem forall_mem_parenthesize {inner : Outcome} {p : Char → Prop}
    (h : ∀ c ∈ inner.expansion.toList, p c) (hopen : p '(') (hblank : p ' ') (hclose : p ')') :
    ∀ c ∈ inner.parenthesize.expansion.toList, p c := by
  rw [toList_parenthesize]
  simp only [List.forall_mem_append, List.forall_mem_cons]
  exact ⟨hopen, hblank, h, hblank, hclose, by simp⟩

theorem spells_parenthesize {inner : Outcome} {kinds : List Token.Kind}
    (h : Spells (inner.expansion.toList.map unbracket) kinds) :
    Spells (inner.parenthesize.expansion.toList.map unbracket)
      (.openParen :: (kinds ++ [.closeParen])) := by
  have hblank : Text.isBlank ' ' := by decide
  have hnil : Spells [] [] := Token.spells_nil.mpr rfl
  have hclose : Spells [')'] [.closeParen] :=
    (Token.spells_append_symbol (l := []) rfl).mpr ⟨[], [], hnil, hnil, rfl⟩
  have hinner : Spells (inner.expansion.toList.map unbracket ++ ' ' :: [')'])
      (kinds ++ [.closeParen]) :=
    (Token.spells_append_blank hblank).mpr ⟨kinds, [.closeParen], h, hclose, rfl⟩
  have hafter : Spells (' ' :: (inner.expansion.toList.map unbracket ++ ' ' :: [')']))
      (kinds ++ [.closeParen]) :=
    (Token.spells_append_blank (l := []) hblank).mpr ⟨[], _, hnil, hinner, rfl⟩
  have hall := (Token.spells_append_symbol (l := []) (c := '(') rfl).mpr
    ⟨[], _, hnil, hafter, rfl⟩
  simpa [toList_parenthesize, unbracket] using hall

end Outcome

namespace Transcribes

/-- The words of an operation, whatever comes of it. -/
theorem additive {l : Expr .sum} (op : AddOp) {r : Expr .product} {left right : Outcome}
    (hl : Transcribes left.expansion l) (hr : Transcribes right.expansion r) :
    Transcribes (left.join op.text right) (.additive l op r) := by
  obtain ⟨c, hop, hsymbol⟩ := op.toList_text
  constructor
  · exact Outcome.forall_mem_join hop hl.plain hr.plain (.inr (by decide))
      (plain_of_symbol hsymbol nofun)
  · exact Outcome.spells_join hop hsymbol hl.words hr.words
  · exact Expr.natural_additive.mpr ⟨hl.natural, hr.natural⟩
  · rw [Expr.diceTerms, hl.diceless, hr.diceless, List.append_nil]

theorem multiplicative {l : Expr .product} (op : MulOp) {r : Expr .factor} {left right : Outcome}
    (hl : Transcribes left.expansion l) (hr : Transcribes right.expansion r) :
    Transcribes (left.join op.text right) (.multiplicative l op r) := by
  obtain ⟨c, hop, hsymbol⟩ := op.toList_text
  constructor
  · exact Outcome.forall_mem_join hop hl.plain hr.plain (.inr (by decide))
      (plain_of_symbol hsymbol nofun)
  · exact Outcome.spells_join hop hsymbol hl.words hr.words
  · exact Expr.natural_multiplicative.mpr ⟨hl.natural, hr.natural⟩
  · rw [Expr.diceTerms, hl.diceless, hr.diceless, List.append_nil]

theorem ofProduct {text : String} {e : Expr .product} (h : Transcribes text e) :
    Transcribes text (.ofProduct e) := ⟨h.plain, h.words, h.natural, h.diceless⟩

theorem not_mem_dice {text : String} {level : Level} {e : Expr level} (h : Transcribes text e) :
    'd' ∉ text.toList := fun hd => unbracket_ne_dice (h.plain 'd' hd) rfl

/-- There is no `d` in such a text for the shorthand to look at. -/
theorem parse_eq_ok {text : String} {e : Expr .sum} (h : Transcribes text e)
    (hnesting : e.nesting ≤ nestingLimit) : Expr.parse (roundBrackets text) = .ok e := by
  have hdice : 'd' ∉ text.toList.map unbracket := by
    intro hmem
    obtain ⟨c, hc, hd⟩ := List.mem_map.mp hmem
    exact unbracket_ne_dice (h.plain c hc) hd
  rw [Expr.parse_eq_ok_iff, roundBrackets, String.toList_ofList, Shorthand.expand_eq,
    Shorthand.expandAfter_of_not_mem hdice, Expr.ofChars_eq_ok_iff_spells]
  exact ⟨_, h.words, Expr.derives_kinds h.natural, hnesting⟩

end Transcribes

namespace Recounts

theorem transcribes {level : Level} {e e' : Expr level} {outcome : Outcome}
    (h : Recounts e e' outcome) : Transcribes outcome.expansion e' :=
  ⟨h.plain, h.words, h.natural, h.diceless⟩

theorem ofProduct {e e' : Expr .product} {outcome : Outcome} (h : Recounts e e' outcome) :
    Recounts (.ofProduct e) (.ofProduct e') outcome :=
  ⟨h.plain, h.words, h.natural, h.nesting, h.diceless, h.settled,
    fun hd => (h.unchanged hd).imp_left (congrArg Expr.ofProduct)⟩

theorem ofFactor {e e' : Expr .factor} {outcome : Outcome} (h : Recounts e e' outcome) :
    Recounts (.ofFactor e) (.ofFactor e') outcome :=
  ⟨h.plain, h.words, h.natural, h.nesting, h.diceless, h.settled,
    fun hd => (h.unchanged hd).imp_left (congrArg Expr.ofFactor)⟩

theorem ofValue {e e' : Expr .value} {outcome : Outcome} (h : Recounts e e' outcome) :
    Recounts (.ofValue e) (.ofValue e') outcome :=
  ⟨h.plain, h.words, h.natural, h.nesting, h.diceless, h.settled,
    fun hd => (h.unchanged hd).imp_left (congrArg Expr.ofValue)⟩

theorem const {n : Int} (h0 : 0 ≤ n) (hn : n ≤ Word.greatest) :
    Recounts (.const n) (.const n) ⟨n, toString n⟩ where
  plain c hc := .inl (isDigit_of_mem_toString h0 c hc)
  words := by
    rw [map_unbracket fun c hc => unbracket_of_isDigit (isDigit_of_mem_toString h0 c hc),
      Expr.spells_const]
    exact ⟨by omega, rfl⟩
  natural := Expr.natural_const.mpr h0
  nesting := Nat.zero_le _
  diceless := rfl
  settled := Expr.settled_const n
  unchanged _ := ⟨rfl, fun c hc => unbracket_of_isDigit (isDigit_of_mem_toString h0 c hc)⟩

theorem paren {e e' : Expr .sum} {outcome : Outcome} (h : Recounts e e' outcome) :
    Recounts (.paren e) (.paren e') outcome.parenthesize where
  plain := Outcome.forall_mem_parenthesize h.plain (.inr (by decide)) (.inr (by decide))
    (.inr (by decide))
  words := Outcome.spells_parenthesize h.words
  natural := h.natural
  nesting := Nat.succ_le_succ h.nesting
  diceless := h.diceless
  settled := h.settled.paren
  unchanged hd := by
    obtain ⟨he, htext⟩ := h.unchanged hd
    exact ⟨congrArg Expr.paren he, Outcome.forall_mem_parenthesize htext rfl rfl rfl⟩

theorem additive {l l' : Expr .sum} {op : AddOp} {r r' : Expr .product}
    {left right outcome : Outcome} (hl : Recounts l l' left) (hr : Recounts r r' right)
    (h : op.apply left right = .ok outcome) :
    Recounts (.additive l op r) (.additive l' op r') outcome := by
  obtain ⟨hsound, rfl⟩ := AddOp.apply_eq_ok_iff.mp h
  obtain ⟨hplain, hwords, hnatural, hdiceless⟩ := hl.transcribes.additive op hr.transcribes
  refine ⟨hplain, hwords, hnatural, ?_, hdiceless, hl.settled.additive hr.settled hsound, ?_⟩
  · have := hl.nesting
    have := hr.nesting
    simp only [Expr.nesting]
    omega
  · intro hd
    rw [Expr.diceTerms, List.append_eq_nil_iff] at hd
    obtain ⟨rfl, hleft⟩ := hl.unchanged hd.1
    obtain ⟨rfl, hright⟩ := hr.unchanged hd.2
    obtain ⟨c, hop, hsymbol⟩ := op.toList_text
    exact ⟨rfl, Outcome.forall_mem_join hop hleft hright rfl (unbracket_of_symbol hsymbol)⟩

theorem multiplicative {l l' : Expr .product} {op : MulOp} {r r' : Expr .factor}
    {left right outcome : Outcome} (hl : Recounts l l' left) (hr : Recounts r r' right)
    (h : op.apply left right = .ok outcome) :
    Recounts (.multiplicative l op r) (.multiplicative l' op r') outcome := by
  obtain ⟨hsound, rfl⟩ := MulOp.apply_eq_ok_iff.mp h
  obtain ⟨hplain, hwords, hnatural, hdiceless⟩ := hl.transcribes.multiplicative op hr.transcribes
  refine ⟨hplain, hwords, hnatural, ?_, hdiceless, hl.settled.multiplicative hr.settled hsound, ?_⟩
  · have := hl.nesting
    have := hr.nesting
    simp only [Expr.nesting]
    omega
  · intro hd
    rw [Expr.diceTerms, List.append_eq_nil_iff] at hd
    obtain ⟨rfl, hleft⟩ := hl.unchanged hd.1
    obtain ⟨rfl, hright⟩ := hr.unchanged hd.2
    obtain ⟨c, hop, hsymbol⟩ := op.toList_text
    exact ⟨rfl, Outcome.forall_mem_join hop hleft hright rfl (unbracket_of_symbol hsymbol)⟩

/-- A dice term comes about as the sum of its faces. -/
theorem dice (count sides : Expr .value) {face total : Int} {faces : List Int}
    (hfaces : ∀ f ∈ face :: faces, 0 ≤ f) (htotal : Roll.total? ⟨face :: faces⟩ = some total) :
    Recounts (.dice count sides) (.ofValue (.paren (.ofFaces face faces)))
      ⟨total, Roll.text ⟨face :: faces⟩⟩ := by
  have hconstants : (Expr.paren (.ofFaces face faces)).constants = face :: faces :=
    Expr.constants_ofFaces
  constructor
  · rw [Expr.toList_text_roll]
    simp only [List.forall_mem_cons, List.forall_mem_append]
    have hchars := Expr.forall_mem_text_ofFaces hfaces
    exact ⟨.inr (by decide), fun c hc => (hchars c hc).1, .inr (by decide), by simp⟩
  · rw [Expr.map_unbracket_text_roll hfaces, Expr.spells_text]
    refine ⟨fun n hn => ?_, rfl⟩
    rw [hconstants] at hn
    rw [Int.natAbs_of_nonneg (hfaces n hn)]
    exact Expr.le_greatest_of_mem_faces hfaces htotal n hn
  · exact fun n hn => hfaces n (hconstants ▸ hn)
  · simp [Expr.nesting, Expr.ofFaces, Expr.nesting_addAll, Expr.number]
  · simp [Expr.diceTerms, Expr.ofFaces, Expr.diceTerms_addAll, Expr.number]
  · exact (Expr.settled_ofFaces htotal).paren
  · intro hd
    simp [Expr.diceTerms] at hd

end Recounts

/-! ### Evaluation -/

section Evaluation

variable {σ : Type} [Source σ] [LawfulSource σ] {limit : Nat}

theorem run_rollTerm_eq_ok {term : String} {count sides : Int} {s t : σ} {outcome : Outcome}
    (h : (rollTerm limit term count sides).run s = (.ok outcome, t)) :
    ∃ face faces total, (∀ f ∈ face :: faces, 0 ≤ f) ∧ Roll.total? ⟨face :: faces⟩ = some total ∧
      outcome = ⟨total, Roll.text ⟨face :: faces⟩⟩ := by
  obtain ⟨roll, u, hroll, hrest⟩ := Play.run_bind_eq_ok_iff.mp h
  rw [Play.run_mapError] at hroll
  cases hallow : allowRoll limit count sides with
  | error refusal =>
    rw [run_rollDice_of_error hallow] at hroll
    cases hroll
  | ok n =>
    obtain ⟨hsides, hcount, -, rfl⟩ := allowRoll_eq_ok_iff.mp hallow
    rw [run_rollDice_of_ok hallow] at hroll
    cases hroll
    obtain ⟨n, rfl⟩ : ∃ m, n = m + 1 := ⟨n - 1, by omega⟩
    cases htotal : Roll.total? ⟨Source.faces sides (n + 1) s⟩ with
    | none =>
      simp only [htotal] at hrest
      cases hrest
    | some total =>
      refine ⟨_, _, total, fun f hf => ?_, htotal, ?_⟩
      · exact Int.le_of_lt (Source.one_le_of_mem_faces hsides (n := n + 1) (s := s) hf)
      · simp only [htotal] at hrest
        exact (Except.ok.inj (congrArg Prod.fst hrest)).symm

/-- An outcome of an expression comes with an account of it. -/
theorem Expr.exists_recounts {level : Level} {e : Expr level}
    (hnumbers : ∀ n ∈ e.constants, 0 ≤ n ∧ n ≤ Word.greatest) {s t : σ} {outcome : Outcome}
    (h : (e.eval limit).run s = (.ok outcome, t)) : ∃ e', Recounts e e' outcome := by
  induction e generalizing s t outcome with
  | ofProduct product ih =>
    obtain ⟨product', hproduct⟩ := ih hnumbers h
    exact ⟨_, hproduct.ofProduct⟩
  | ofFactor factor ih =>
    obtain ⟨factor', hfactor⟩ := ih hnumbers h
    exact ⟨_, hfactor.ofFactor⟩
  | ofValue value ih =>
    obtain ⟨value', hvalue⟩ := ih hnumbers h
    exact ⟨_, hvalue.ofValue⟩
  | additive left op right ihl ihr =>
    simp only [constants, List.forall_mem_append] at hnumbers
    obtain ⟨a, u, ha, h⟩ := Play.run_bind_eq_ok_iff.mp h
    obtain ⟨b, v, hb, h⟩ := Play.run_bind_eq_ok_iff.mp h
    rw [Play.run_ofExcept] at h
    obtain ⟨left', hleft⟩ := ihl hnumbers.1 ha
    obtain ⟨right', hright⟩ := ihr hnumbers.2 hb
    exact ⟨_, hleft.additive hright (congrArg Prod.fst h)⟩
  | multiplicative left op right ihl ihr =>
    simp only [constants, List.forall_mem_append] at hnumbers
    obtain ⟨a, u, ha, h⟩ := Play.run_bind_eq_ok_iff.mp h
    obtain ⟨b, v, hb, h⟩ := Play.run_bind_eq_ok_iff.mp h
    rw [Play.run_ofExcept] at h
    obtain ⟨left', hleft⟩ := ihl hnumbers.1 ha
    obtain ⟨right', hright⟩ := ihr hnumbers.2 hb
    exact ⟨_, hleft.multiplicative hright (congrArg Prod.fst h)⟩
  | dice count sides _ _ =>
    obtain ⟨a, u, -, h⟩ := Play.run_bind_eq_ok_iff.mp h
    obtain ⟨b, v, -, h⟩ := Play.run_bind_eq_ok_iff.mp h
    obtain ⟨face, faces, total, hfaces, htotal, rfl⟩ := run_rollTerm_eq_ok h
    exact ⟨_, .dice count sides hfaces htotal⟩
  | const n =>
    obtain ⟨h0, hn⟩ := hnumbers n (by simp [constants])
    cases h
    exact ⟨_, .const h0 hn⟩
  | paren inner ih =>
    obtain ⟨a, u, ha, h⟩ := Play.run_bind_eq_ok_iff.mp h
    obtain ⟨inner', hinner⟩ := ih hnumbers ha
    cases h
    exact ⟨_, hinner.paren⟩

/-- A text that recounts an outcome in round brackets is read as the account. -/
theorem Recounts.parse_eq_ok {e e' : Expr .sum} {outcome : Outcome} (h : Recounts e e' outcome)
    (hnesting : e.nesting < nestingLimit) :
    Expr.parse (roundBrackets outcome.expansion) = .ok e' :=
  h.transcribes.parse_eq_ok (Nat.le_trans h.nesting hnesting)

/-- The expansion of a value consists of digits, blanks, operators and brackets. With round
brackets for square ones it is read as an expression without dice, which has the same value
without a throw; and if no dice term was evaluated, as the expression that was. -/
theorem Expr.eval_expansion (e : Expr .sum) (hwords : ∀ n ∈ e.constants, Word.Fits n)
    (hnatural : ∀ n ∈ e.constants, 0 ≤ n) (hnesting : e.nesting < nestingLimit) (limit : Nat)
    (s : σ) (outcome : Outcome) (h : ((e.eval limit).run s).1 = .ok outcome) :
    (∀ c ∈ outcome.expansion.toList, c.isDigit ∨ c ∈ " +-*/()[]".toList) ∧
    (∃ e', parse (roundBrackets outcome.expansion) = .ok e' ∧ e'.diceTerms = [] ∧
      ∀ limit', ∃ expansion, e'.eval limit' = .done ⟨outcome.value, expansion⟩) ∧
    (e.diceTerms = [] → parse outcome.expansion = .ok e) := by
  have hrun : (e.eval limit).run s = (.ok outcome, ((e.eval limit).run s).2) := Prod.ext h rfl
  obtain ⟨e', haccount⟩ :=
    exists_recounts (fun n hn => ⟨hnatural n hn, (hwords n hn).2⟩) hrun
  have hread := haccount.parse_eq_ok hnesting
  refine ⟨haccount.plain, ⟨e', hread, haccount.diceless, haccount.settled⟩, fun hd => ?_⟩
  obtain ⟨rfl, hsame⟩ := haccount.unchanged hd
  have hround : roundBrackets outcome.expansion = outcome.expansion := by
    rw [roundBrackets, map_unbracket hsame, String.ofList_toList]
  rwa [hround] at hread

end Evaluation

/-- Faces that count dice do not show in the expansion of `2d6 * ( 7 / 2 ) - ( 1d4 )d6`; the
expansion of `( 7 / 2 ) * 3` is its own text. -/
theorem Expr.eval_expansion_nested_dice :
    let half : Expr .value := .paren (.ofProduct (.multiplicative
      (.ofFactor (.ofValue (.const 7))) .div (.ofValue (.const 2))))
    let e : Expr .sum := .additive
      (.ofProduct (.multiplicative (.ofFactor (.dice (.const 2) (.const 6))) .mul (.ofValue half)))
      .sub (.ofFactor (.dice (.paren (.ofProduct (.ofFactor (.dice (.const 1) (.const 4)))))
        (.const 6)))
    let calm : Expr .sum := .ofProduct (.multiplicative (.ofFactor (.ofValue half)) .mul
      (.ofValue (.const 3)))
    let s := Script.ofFaces [3, 5, 2, 4, 6]
    LawfulSource Script ∧ (∀ n ∈ e.constants ++ calm.constants, Word.Fits n ∧ 0 ≤ n) ∧
      e.nesting < nestingLimit ∧ calm.nesting < nestingLimit ∧
      ((e.eval 10).run s).1 = .ok ⟨14, "[3 + 5] * ( 7 / 2 ) - [4 + 6]"⟩ ∧
      ((calm.eval 10).run s).1 = .ok ⟨9, "( 7 / 2 ) * 3"⟩ ∧ calm.diceTerms = [] ∧
      (∃ e', parse "(3 + 5) * ( 7 / 2 ) - (4 + 6)" = .ok e' ∧ e'.diceTerms = [] ∧
        ∀ limit, ∃ expansion, e'.eval limit = .done ⟨14, expansion⟩) ∧
      parse "( 7 / 2 ) * 3" = .ok calm := by
  intro half e calm s
  have hnumbers : ∀ n ∈ e.constants ++ calm.constants, Word.Fits n ∧ 0 ≤ n := by decide
  have hboth := List.forall_mem_append.mp hnumbers
  have hrun : ((e.eval 10).run s).1 = .ok ⟨14, "[3 + 5] * ( 7 / 2 ) - [4 + 6]"⟩ := rfl
  have hcalm : ((calm.eval 10).run s).1 = .ok ⟨9, "( 7 / 2 ) * 3"⟩ := rfl
  have hround : roundBrackets "[3 + 5] * ( 7 / 2 ) - [4 + 6]" =
    "(3 + 5) * ( 7 / 2 ) - (4 + 6)" := by decide
  refine ⟨inferInstance, hnumbers, by decide, by decide, hrun, hcalm, rfl, ?_, ?_⟩
  · have h := eval_expansion e (fun n hn => (hboth.1 n hn).1) (fun n hn => (hboth.1 n hn).2)
      (by decide) 10 s _ hrun
    rw [hround] at h
    exact h.2.1
  · have h := eval_expansion calm (fun n hn => (hboth.2 n hn).1) (fun n hn => (hboth.2 n hn).2)
      (by decide) 10 s _ hcalm
    exact h.2.2 rfl

end Dice
