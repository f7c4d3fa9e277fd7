import Dice.Json
import Dice.Proofs.Decimal
import Dice.Toml.Token

/-! The text of a JSON document. A document can be recovered from any text that begins with its
own, as long as no digit follows: its first character says of which form it is, a number ends
with its last digit, a string at the first quote without a backslash, and behind an entry of an
array or an object stands a comma or the end of the line. Main statement: documents with the same
text are the same. -/

namespace Dice.Json

/-! ### Rows of entries -/

section Rows

variable {α : Type} {write : α → List Char} {between x y : List Char} {entries others : List α}

/-- What stands behind the first entry of a row, up to the end of its last line. -/
def continuation (write : α → List Char) (between : List Char) (entries : List α) : List Char :=
  entries.flatMap fun entry => ',' :: (between ++ write entry)

theorem continuation_cons (entry : α) :
    continuation write between (entry :: entries) ++ x =
      ',' :: (between ++ (write entry ++ (continuation write between entries ++ x))) := by
  simp [continuation]

theorem digitFree_continuation : DigitFree (continuation write between entries ++ '\n' :: x) := by
  cases entries with
  | nil => simp [continuation, DigitFree]
  | cons entry entries => simp [continuation, DigitFree]

theorem continuation_inj (hentries : ∀ entry ∈ entries, Recoverable write entry)
    (h : continuation write between entries ++ '\n' :: x =
      continuation write between others ++ '\n' :: y) : entries = others ∧ x = y := by
  induction entries generalizing others with
  | nil =>
    cases others with
    | nil => exact ⟨rfl, (List.cons.inj h).2⟩
    | cons other others =>
      rw [continuation_cons] at h
      cases h
  | cons entry entries ih =>
    cases others with
    | nil =>
      rw [continuation_cons] at h
      cases h
    | cons other others =>
      obtain ⟨hentry, hlater⟩ := List.forall_mem_cons.mp hentries
      rw [continuation_cons, continuation_cons] at h
      have hbehind := List.append_cancel_left (List.cons.inj h).2
      obtain ⟨rfl, hrest⟩ :=
        hentry other _ _ digitFree_continuation digitFree_continuation hbehind
      obtain ⟨rfl, hxy⟩ := ih hlater hrest
      exact ⟨rfl, hxy⟩

end Rows

/-! ### Strings -/

open Toml.Token (escaped? hexChar?)

/-- The first character of what stands in quotes, and the text behind it; none at a quote. -/
def firstQuoted? : List Char → Option (Char × List Char)
  | '\\' :: 'u' :: a :: b :: c :: d :: rest => (hexChar? [a, b, c, d]).map (·, rest)
  | '\\' :: c :: rest => (escaped? c).map (·, rest)
  | c :: rest => if c = '"' then none else some (c, rest)
  | [] => none

theorem hexChar?_hexPair : ∀ n < 32, hexChar? ('0' :: '0' :: hexPair n) = some (Char.ofNat n) := by
  decide

theorem firstQuoted?_escapeChar (c : Char) (rest : List Char) :
    firstQuoted? (escapeChar c ++ rest) = some (c, rest) := by
  unfold escapeChar
  iterate 7
    split
    · next h =>
      rw [h]
      rfl
  split
  · next h =>
    have hread := hexChar?_hexPair c.toNat h
    rw [Char.ofNat_toNat] at hread
    simp only [hexPair] at hread
    simp [hexPair, firstQuoted?, hread]
  · next hquote hbackslash _ _ _ _ _ _ => simp [firstQuoted?, hquote, hbackslash]

theorem escaped_inj {s t x y : List Char}
    (h : s.flatMap escapeChar ++ '"' :: x = t.flatMap escapeChar ++ '"' :: y) : s = t ∧ x = y := by
  induction s generalizing t with
  | nil =>
    cases t with
    | nil => exact ⟨rfl, (List.cons.inj h).2⟩
    | cons d t =>
      rw [List.flatMap_cons, List.append_assoc] at h
      have hfirst := congrArg firstQuoted? h
      rw [firstQuoted?_escapeChar] at hfirst
      cases hfirst
  | cons c s ih =>
    rw [List.flatMap_cons, List.append_assoc] at h
    cases t with
    | nil =>
      have hfirst := congrArg firstQuoted? h
      rw [firstQuoted?_escapeChar] at hfirst
      cases hfirst
    | cons d t =>
      rw [List.flatMap_cons, List.append_assoc] at h
      have hfirst := congrArg firstQuoted? h
      rw [firstQuoted?_escapeChar, firstQuoted?_escapeChar] at hfirst
      obtain ⟨rfl, hrest⟩ := Prod.mk.inj (Option.some.inj hfirst)
      obtain ⟨rfl, hxy⟩ := ih hrest
      exact ⟨rfl, hxy⟩

theorem toList_quoted (s : String) :
    (quoted s).toList = '"' :: (s.toList.flatMap escapeChar ++ ['"']) := by
  simp [quoted]

theorem quoted_inj {s t : String} {x y : List Char}
    (h : (quoted s).toList ++ x = (quoted t).toList ++ y) : s = t ∧ x = y := by
  rw [toList_quoted, toList_quoted] at h
  simp only [List.cons_append, List.append_assoc, List.nil_append, List.cons.injEq, true_and] at h
  obtain ⟨hchars, hxy⟩ := escaped_inj h
  exact ⟨String.toList_inj.mp hchars, hxy⟩

/-! ### Arrays and objects -/

theorem toList_newLine (depth : Nat) :
    (newLine depth).toList = '\n' :: List.replicate (2 * depth) ' ' := by
  rw [newLine, String.toList_ofList]

section Blocks

variable {α : Type} {write : α → String} {depth : Nat} {opening closing : String} {c d : Char}
  {x y : List Char}

theorem exists_toList_block (ho : opening.toList = [c]) (entries : List String) :
    ∃ rest, (block depth opening closing entries).toList = c :: rest := by
  cases entries <;> simp [block, ho]

theorem toList_block_nil (ho : opening.toList = [c]) (hc : closing.toList = [d]) :
    (block depth opening closing []).toList ++ x = c :: d :: x := by
  simp [block, ho, hc]

theorem toList_block_cons (ho : opening.toList = [c]) (hc : closing.toList = [d]) (entry : α)
    (entries : List α) :
    (block depth opening closing ((entry :: entries).map write)).toList ++ x =
      c :: '\n' :: (List.replicate (2 * (depth + 1)) ' ' ++ ((write entry).toList ++
        (continuation (fun entry => (write entry).toList) (newLine (depth + 1)).toList entries ++
          '\n' :: (List.replicate (2 * depth) ' ' ++ d :: x)))) := by
  have hrow : (String.intercalate ("," ++ newLine (depth + 1)) ((entry :: entries).map write)).toList =
      (write entry).toList ++
        continuation (fun entry => (write entry).toList) (newLine (depth + 1)).toList entries := by
    induction entries generalizing entry with
    | nil => simp [continuation]
    | cons next entries ih =>
      rw [List.map_cons, List.map_cons, String.intercalate_cons_cons, ← List.map_cons,
        String.toList_append, ih]
      simp [continuation]
  rw [List.map_cons, block, ← List.map_cons]
  simp only [String.toList_append, hrow, ho, hc, toList_newLine, List.append_assoc,
    List.cons_append, List.nil_append]

theorem block_inj (ho : opening.toList = [c]) (hc : closing.toList = [d]) (hd : d ≠ '\n')
    {entries others : List α}
    (hentries : ∀ entry ∈ entries, Recoverable (fun entry => (write entry).toList) entry)
    (h : (block depth opening closing (entries.map write)).toList ++ x =
      (block depth opening closing (others.map write)).toList ++ y) :
    entries = others ∧ x = y := by
  cases entries with
  | nil =>
    rw [List.map_nil, toList_block_nil ho hc] at h
    cases others with
    | nil =>
      rw [List.map_nil, toList_block_nil ho hc] at h
      exact ⟨rfl, by simpa using h⟩
    | cons other others =>
      rw [toList_block_cons ho hc] at h
      exact absurd (List.cons.inj (List.cons.inj h).2).1 hd
  | cons entry entries =>
    rw [toList_block_cons ho hc] at h
    cases others with
    | nil =>
      rw [List.map_nil, toList_block_nil ho hc] at h
      exact absurd (List.cons.inj (List.cons.inj h).2).1.symm hd
    | cons other others =>
      obtain ⟨hentry, hlater⟩ := List.forall_mem_cons.mp hentries
      rw [toList_block_cons ho hc] at h
      have hfirst := List.append_cancel_left (List.cons.inj (List.cons.inj h).2).2
      obtain ⟨rfl, hrest⟩ :=
        hentry other _ _ digitFree_continuation digitFree_continuation hfirst
      obtain ⟨rfl, hend⟩ := continuation_inj hlater hrest
      exact ⟨rfl, (List.cons.inj (List.append_cancel_left hend)).2⟩

end Blocks

/-! ### Documents -/

theorem prettyItems_eq (depth : Nat) (items : List Json) :
    prettyItems depth items = items.map (pretty depth) := by
  induction items with
  | nil => rfl
  | cons item items ih => rw [prettyItems, ih, List.map_cons]

/-- A field on a line of its own. -/
def prettyField (depth : Nat) (field : String × Json) : String :=
  quoted field.1 ++ ": " ++ field.2.pretty depth

theorem prettyFields_eq (depth : Nat) (fields : List (String × Json)) :
    prettyFields depth fields = fields.map (prettyField depth) := by
  induction fields with
  | nil => rfl
  | cons field fields ih => rw [prettyFields, ih, List.map_cons, prettyField]

theorem recoverable_field {depth : Nat} {field : String × Json}
    (h : Recoverable (fun value => (pretty depth value).toList) field.2) :
    Recoverable (fun field => (prettyField depth field).toList) field := by
  intro other x y hx hy htext
  simp only [prettyField, String.toList_append, List.append_assoc] at htext
  obtain ⟨hkey, hbehind⟩ := quoted_inj htext
  obtain ⟨hvalue, hxy⟩ := h other.2 x y hx hy (List.append_cancel_left hbehind)
  exact ⟨Prod.ext hkey hvalue, hxy⟩

/-- What the first character of a document tells. -/
inductive Form where
  | null
  | bool (b : Bool)
  | int | string | array | object

def form : Json → Form
  | null => .null
  | bool b => .bool b
  | int _ => .int
  | string _ => .string
  | array _ => .array
  | object _ => .object

def Form.ofChar (c : Char) : Form :=
  if c = 'n' then .null
  else if c = 't' then .bool true
  else if c = 'f' then .bool false
  else if c = '"' then .string
  else if c = '[' then .array
  else if c = '\x7b' then .object
  else .int

theorem Form.ofChar_digit {c : Char} (h : c.isDigit) : ofChar c = .int := by
  have hne : ∀ d : Char, d.isDigit = false → c ≠ d := by
    rintro d hd rfl
    rw [h] at hd
    cases hd
  simp only [ofChar, hne 'n' rfl, hne 't' rfl, hne 'f' rfl, hne '"' rfl, hne '[' rfl,
    hne '\x7b' rfl, ↓reduceIte]

theorem form_eq (document : Json) (depth : Nat) :
    ∃ c rest, (document.pretty depth).toList = c :: rest ∧ Form.ofChar c = document.form := by
  cases document with
  | null => exact ⟨'n', "ull".toList, by simp [pretty], rfl⟩
  | bool b =>
    cases b with
    | true => exact ⟨'t', "rue".toList, by simp [pretty], rfl⟩
    | false => exact ⟨'f', "alse".toList, by simp [pretty], rfl⟩
  | int n =>
    obtain ⟨c, rest, hdigits, hc⟩ := exists_toDigits_cons n.natAbs
    by_cases hn : n < 0
    · exact ⟨'-', _, toList_toString_neg hn, rfl⟩
    · exact ⟨c, rest, (toList_toString_nonneg (Int.not_lt.mp hn)).trans hdigits,
        Form.ofChar_digit hc⟩
  | string s => exact ⟨'"', _, toList_quoted s, rfl⟩
  | array items =>
    have hopening : "[".toList = ['['] := rfl
    obtain ⟨rest, hrest⟩ := exists_toList_block hopening (prettyItems (depth + 1) items)
    exact ⟨'[', rest, hrest, rfl⟩
  | object fields =>
    have hopening : "\x7b".toList = ['\x7b'] := rfl
    obtain ⟨rest, hrest⟩ := exists_toList_block hopening (prettyFields (depth + 1) fields)
    exact ⟨'\x7b', rest, hrest, rfl⟩

theorem form_inj {a b : Json} {depth : Nat} {x y : List Char}
    (h : (a.pretty depth).toList ++ x = (b.pretty depth).toList ++ y) : a.form = b.form := by
  obtain ⟨c, s, ha, hc⟩ := form_eq a depth
  obtain ⟨d, t, hb, hd⟩ := form_eq b depth
  rw [ha, hb] at h
  rw [← hc, ← hd, (List.cons.inj h).1]

mutual

theorem recoverable_pretty : (document : Json) → (depth : Nat) →
    Recoverable (fun document => (pretty depth document).toList) document
  | .null, depth => by
    intro b x y _ _ h
    have hform := form_inj h
    cases b <;> cases hform
    exact ⟨rfl, List.append_cancel_left h⟩
  | .bool b, depth => by
    intro c x y _ _ h
    have hform := form_inj h
    cases c <;> cases hform
    exact ⟨rfl, List.append_cancel_left h⟩
  | .int n, depth => by
    intro b x y hx hy h
    have hform := form_inj h
    cases b <;> cases hform
    obtain ⟨hn, hxy⟩ := recoverable_int n _ x y hx hy h
    exact ⟨congrArg int hn, hxy⟩
  | .string s, depth => by
    intro b x y _ _ h
    have hform := form_inj h
    cases b <;> cases hform
    obtain ⟨hs, hxy⟩ := quoted_inj h
    exact ⟨congrArg string hs, hxy⟩
  | .array items, depth => by
    intro b x y _ _ h
    have hform := form_inj h
    cases b <;> cases hform
    simp only [pretty, prettyItems_eq] at h
    obtain ⟨hitems, hxy⟩ :=
      block_inj rfl rfl (by decide) (recoverable_items items (depth + 1)) h
    exact ⟨congrArg array hitems, hxy⟩
  | .object fields, depth => by
    intro b x y _ _ h
    have hform := form_inj h
    cases b <;> cases hform
    simp only [pretty, prettyFields_eq] at h
    obtain ⟨hfields, hxy⟩ :=
      block_inj rfl rfl (by decide) (recoverable_fields fields (depth + 1)) h
    exact ⟨congrArg object hfields, hxy⟩

theorem recoverable_items : (items : List Json) → (depth : Nat) →
    ∀ item ∈ items, Recoverable (fun document => (pretty depth document).toList) item
  | [], _ => List.forall_mem_nil _
  | item :: items, depth =>
    List.forall_mem_cons.mpr ⟨recoverable_pretty item depth, recoverable_items items depth⟩

theorem recoverable_fields : (fields : List (String × Json)) → (depth : Nat) →
    ∀ field ∈ fields, Recoverable (fun field => (prettyField depth field).toList) field
  | [], _ => List.forall_mem_nil _
  | (_, value) :: fields, depth =>
    List.forall_mem_cons.mpr
      ⟨recoverable_field (recoverable_pretty value depth), recoverable_fields fields depth⟩

end

/-- Documents with the same text are the same. -/
theorem text_inj {a b : Json} : a.text = b.text ↔ a = b := by
  constructor
  · intro h
    have hfree : DigitFree [] := fun c hc => nomatch hc
    have htext := congrArg (fun text => text.toList ++ []) h
    exact (recoverable_pretty a 0 b [] [] hfree hfree htext).1
  · rintro rfl
    rfl

end Dice.Json
