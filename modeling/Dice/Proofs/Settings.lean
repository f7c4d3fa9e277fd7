import Dice.Settings

/-! What settings a text gives. They are those of the entry `roller` of its document, and
the defaults where this entry or a part of it is missing; an entry that is there has to be
usable as a whole. Main statement: a text is read as its settings, or rejected for a reason
in the words of the reader. -/

namespace Dice.Settings

open Toml (Value)

variable {α : Type} {default : α} {number : Nat → α} {found : Option Value} {a : α}

/-- What comes of a number that may be missing. -/
inductive Gives (default : α) (number : Nat → α) : Option Value → α → Prop where
  | missing : Gives default number none default
  | integer (n : Nat) : Gives default number (some (.integer n)) (number n)

/-- The settings that an entry gives: under their names, or the first and the second one of at
most two. -/
inductive Given : Value → Settings → Prop where
  | table {entries : List (String × Value)} {seed : Option Nat} {maxDice : Nat}
      (hseed : Gives none some (entries.lookup "seed") seed)
      (hmaxDice : Gives 10000 id (entries.lookup "max_dice") maxDice) :
      Given (.table entries) ⟨seed, maxDice⟩
  | none : Given (.array []) ⟨none, 10000⟩
  | one (seed : Nat) : Given (.array [.integer seed]) ⟨some seed, 10000⟩
  | both (seed maxDice : Nat) : Given (.array [.integer seed, .integer maxDice]) ⟨some seed, maxDice⟩

/-- The settings of a text. -/
inductive Reads (reader : Reader) : (text : String) → Settings → Prop where
  | absent {text : String} {document : Value} (hdocument : reader.document text = .ok document)
      (hentry : ∀ entries, document = .table entries → entries.lookup "roller" = none) :
      Reads reader text ⟨none, 10000⟩
  | given {text : String} {entries : List (String × Value)} {entry : Value} {settings : Settings}
      (hdocument : reader.document text = .ok (.table entries))
      (hentry : entries.lookup "roller" = some entry) (hgiven : Given entry settings) :
      Reads reader text settings

/-- Why a text has no settings. -/
inductive Rejects (reader : Reader) : (text reason : String) → Prop where
  | text {text reason : String} (h : reader.document text = .error reason) :
      Rejects reader text reason
  | entry {text : String} {entries : List (String × Value)} {entry : Value}
      (hdocument : reader.document text = .ok (.table entries))
      (hentry : entries.lookup "roller" = some entry)
      (hunusable : ∀ settings, ¬ Given entry settings) :
      Rejects reader text (reader.unusable entry)

/-! ### Entries -/

theorem count?_eq_some_iff {value : Value} {n : Nat} : count? value = some n ↔ value = .integer n := by
  cases value with
  | integer i =>
    simp only [count?, Option.ite_none_right_eq_some, Option.some.injEq, Value.integer.injEq]
    omega
  | _ => simp [count?]

theorem orDefault_eq_some_iff {read : Value → Option α}
    (hread : ∀ value a, read value = some a ↔ ∃ n : Nat, value = .integer n ∧ a = number n) :
    orDefault default read found = some a ↔ Gives default number found a := by
  cases found with
  | none =>
    constructor
    · rintro ⟨⟩
      exact .missing
    · rintro ⟨⟩
      rfl
  | some value =>
    rw [orDefault, hread]
    constructor
    · rintro ⟨n, rfl, rfl⟩
      exact .integer n
    · rintro (_ | n)
      exact ⟨n, rfl, rfl⟩

theorem seed_eq_some_iff {seed : Option Nat} :
    orDefault none (fun value => (count? value).map some) found = some seed ↔
      Gives none some found seed :=
  orDefault_eq_some_iff fun value seed => by
    simp only [Option.map_eq_some_iff, count?_eq_some_iff, @eq_comm _ seed]

theorem maxDice_eq_some_iff {maxDice : Nat} :
    orDefault defaultLimit count? found = some maxDice ↔ Gives 10000 id found maxDice :=
  orDefault_eq_some_iff fun value maxDice => by simp [count?_eq_some_iff]

theorem ofValue?_table {entries : List (String × Value)} {settings : Settings} :
    ofValue? (.table entries) = some settings ↔
      Gives none some (entries.lookup "seed") settings.seed ∧
        Gives 10000 id (entries.lookup "max_dice") settings.maxDice := by
  simp only [ofValue?, bind, Option.bind_eq_some_iff, seed_eq_some_iff, maxDice_eq_some_iff]
  constructor
  · rintro ⟨seed, hseed, maxDice, hmaxDice, ⟨⟩⟩
    exact ⟨hseed, hmaxDice⟩
  · rintro ⟨hseed, hmaxDice⟩
    exact ⟨_, hseed, _, hmaxDice, rfl⟩

theorem ofValue?_array {items : List Value} {settings : Settings} :
    ofValue? (.array items) = some settings ↔ Gives none some items[0]? settings.seed ∧
      Gives 10000 id items[1]? settings.maxDice ∧ items.length ≤ 2 := by
  simp only [ofValue?, bind, Option.bind_eq_some_iff, seed_eq_some_iff, maxDice_eq_some_iff,
    Option.ite_none_right_eq_some]
  constructor
  · rintro ⟨seed, hseed, maxDice, hmaxDice, hlength, ⟨⟩⟩
    exact ⟨hseed, hmaxDice, hlength⟩
  · rintro ⟨hseed, hmaxDice, hlength⟩
    exact ⟨_, hseed, _, hmaxDice, hlength, rfl⟩

theorem ofValue?_eq_some_iff {entry : Value} {settings : Settings} :
    ofValue? entry = some settings ↔ Given entry settings := by
  constructor
  · intro h
    cases entry with
    | table entries =>
      obtain ⟨hseed, hmaxDice⟩ := ofValue?_table.mp h
      exact .table hseed hmaxDice
    | array items =>
      obtain ⟨hseed, hmaxDice, hlength⟩ := ofValue?_array.mp h
      obtain ⟨seed, maxDice⟩ := settings
      -- The numbers are given in order, so the length tells which of them are missing.
      match items, seed, maxDice, hseed, hmaxDice, hlength with
      | [], _, _, .missing, .missing, _ => exact .none
      | [_], _, _, .integer seed, .missing, _ => exact .one seed
      | [_, _], _, _, .integer seed, .integer maxDice, _ => exact .both seed maxDice
    | _ => cases h
  · rintro (⟨hseed, hmaxDice⟩ | _ | seed | ⟨seed, maxDice⟩)
    · exact ofValue?_table.mpr ⟨hseed, hmaxDice⟩
    · exact ofValue?_array.mpr ⟨.missing, .missing, by simp⟩
    · exact ofValue?_array.mpr ⟨.integer seed, .missing, by simp⟩
    · exact ofValue?_array.mpr ⟨.integer seed, .integer maxDice, by simp⟩

/-! ### Texts -/

theorem ofText_of_ok {reader : Reader} {text : String} {document : Value}
    (h : reader.document text = .ok document) :
    ofText reader text = match document.get? "roller" with
      | none => .ok {}
      | some entry =>
        match ofValue? entry with
        | some settings => .ok settings
        | none => .error (reader.unusable entry) := by
  rw [ofText, h]
  rfl

theorem ofText_of_reads {reader : Reader} {text : String} {settings : Settings}
    (h : Reads reader text settings) : ofText reader text = .ok settings := by
  cases h with
  | @absent document hdocument hentry =>
    have hnone : document.get? "roller" = none := by
      cases document with
      | table entries => exact hentry entries rfl
      | _ => rfl
    simp only [ofText_of_ok hdocument, hnone]
    rfl
  | given hdocument hentry hgiven =>
    simp only [ofText_of_ok hdocument, Value.get?, hentry, ofValue?_eq_some_iff.mpr hgiven]

theorem ofText_of_rejects {reader : Reader} {text reason : String}
    (h : Rejects reader text reason) : ofText reader text = .error reason := by
  cases h with
  | text h =>
    rw [ofText, h]
    rfl
  | @entry _ entry hdocument hentry hunusable =>
    have hnone : ofValue? entry = none :=
      Option.eq_none_iff_forall_ne_some.mpr fun settings h =>
        hunusable settings (ofValue?_eq_some_iff.mp h)
    simp only [ofText_of_ok hdocument, Value.get?, hentry, hnone]

/-- A text gives settings, or it is rejected. -/
theorem reads_or_rejects (reader : Reader) (text : String) :
    (∃ settings, Reads reader text settings) ∨ ∃ reason, Rejects reader text reason := by
  cases hdocument : reader.document text with
  | error reason => exact .inr ⟨reason, .text hdocument⟩
  | ok document =>
    cases hentry : document.get? "roller" with
    | none =>
      refine .inl ⟨_, .absent hdocument fun entries h => ?_⟩
      rwa [h] at hentry
    | some entry =>
      obtain ⟨entries, rfl⟩ : ∃ entries, document = .table entries := by
        cases document with
        | table entries => exact ⟨entries, rfl⟩
        | _ => cases hentry
      by_cases hgiven : ∃ settings, Given entry settings
      · obtain ⟨settings, hgiven⟩ := hgiven
        exact .inl ⟨settings, .given hdocument hentry hgiven⟩
      · exact .inr ⟨_, .entry hdocument hentry (not_exists.mp hgiven)⟩

end Dice.Settings
