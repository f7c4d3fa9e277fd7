import Dice.CommandLine.Product
import Dice.Proofs.Expr.Canonical
import Dice.Proofs.Expr.Expansion
import Dice.Proofs.Messages
import Dice.Proofs.Pool.Text
import Dice.Proofs.Tally

/-! What a command comes to, told without the program: the document and the line that it
shows, the row that it counts, or the words of its failure. Everything that is shown without
being a document stands on one line. Main statement: the product of a command is what it
shows or counts, and without one it fails. -/

namespace Dice

/-! ### Texts of one line -/

/-- No line ends inside the text. -/
def OneLine (text : String) : Prop := '\n' ∉ text.toList

instance : DecidablePred OneLine := fun text => inferInstanceAs (Decidable ('\n' ∉ text.toList))

theorem oneLine_append {s t : String} : OneLine (s ++ t) ↔ OneLine s ∧ OneLine t := by
  simp [OneLine, not_or]

theorem oneLine_of_plain {text : String} (h : ∀ c ∈ text.toList, Plain c) : OneLine text := by
  intro hmem
  rcases h _ hmem with hdigit | hsymbol
  · cases hdigit
  · revert hsymbol
    decide

theorem oneLine_int (n : Int) : OneLine (toString n) := not_mem_toString (by decide) (by decide)

theorem oneLine_nat (n : Nat) : OneLine (toString n) := oneLine_int n

theorem oneLine_intercalate {separator : String} {texts : List String}
    (hseparator : OneLine separator) (h : ∀ text ∈ texts, OneLine text) :
    OneLine (String.intercalate separator texts) := by
  induction texts with
  | nil => exact (by decide : OneLine "")
  | cons text texts ih =>
    obtain ⟨htext, hlater⟩ := List.forall_mem_cons.mp h
    cases texts with
    | nil => simpa using htext
    | cons next texts =>
      rw [String.intercalate_cons_cons, oneLine_append, oneLine_append]
      exact ⟨⟨htext, hseparator⟩, ih hlater⟩

theorem Pool.oneLine_text (pool : Pool) : OneLine pool.text := by
  refine oneLine_intercalate (by decide) fun text htext => ?_
  obtain ⟨die, -, rfl⟩ := List.mem_map.mp htext
  exact Die.not_mem_text (by decide) (by decide)

/-- A text that is evaluated is recounted in digits, blanks, operators and brackets. -/
theorem plain_of_evaluate {σ : Type} [Source σ] [LawfulSource σ] {limit : Nat} {text : String}
    {s t : σ} {outcome : Outcome} (h : (evaluate limit text).run s = (.ok outcome, t)) :
    ∀ c ∈ outcome.expansion.toList, Plain c := by
  obtain ⟨expr, hread, heval⟩ := Play.run_ofExcept_bind_eq_ok_iff.mp h
  have hbounded := Expr.bounded_of_parse (Expr.mapError_eq_ok_iff.mp hread)
  obtain ⟨e', haccount⟩ :=
    Expr.exists_recounts hbounded (Play.run_mapError_eq_ok_iff.mp heval)
  exact haccount.plain

/-! ### Refusals by a lesser limit -/

/-- A throw of more dice than some limit allows, though not more than a greater one does. -/
inductive Refusal.Lifted (limit : Nat) : Refusal → Prop where
  | dice {count lesser : Nat} (h : count ≤ limit) : Lifted limit (.tooManyDice count lesser)
  | explosions {lesser : Nat} (h : lesser < limit) : Lifted limit (.tooManyExplosions lesser)

inductive Failure.Lifted (limit : Nat) : Failure → Prop where
  | refused {refusal : Refusal} (h : refusal.Lifted limit) : Lifted limit (.refused refusal)
  | evaluation {context : String} {refusal : Refusal} (h : refusal.Lifted limit) :
      Lifted limit (.evaluation (.refusedDice context refusal))

theorem Refusal.lifted_iff {limit : Nat} {refusal : Refusal} :
    refusal.isLiftedBy limit ↔ refusal.Lifted limit := by
  constructor
  · intro h
    cases refusal with
    | tooManyDice count lesser => exact .dice (of_decide_eq_true h)
    | tooManyExplosions lesser => exact .explosions (of_decide_eq_true h)
    | _ => cases h
  · rintro (h | h)
    · exact decide_eq_true h
    · exact decide_eq_true h

theorem Failure.lifted_iff {limit : Nat} {failure : Failure} :
    failure.isLiftedBy limit ↔ failure.Lifted limit := by
  constructor
  · intro h
    match failure, h with
    | .refused refusal, h => exact .refused (Refusal.lifted_iff.mp h)
    | .evaluation (.refusedDice _ refusal), h => exact .evaluation (Refusal.lifted_iff.mp h)
  · rintro (h | h)
    · exact Refusal.lifted_iff.mpr h
    · exact Refusal.lifted_iff.mpr h

namespace CommandLine

/-- What the line of a six-sided pool adds for a mishap. -/
inductive SixRemark : Mishap → String → Prop where
  | clean : SixRemark .clean ""
  | glitch : SixRemark .glitch " (glitch)"
  | criticalGlitch : SixRemark .criticalGlitch " (critical glitch)"

/-- How the line of a ten-sided pool begins. -/
inductive TenLabel (size : Int) : (chance : Bool) → String → Prop where
  | dice : TenLabel size false s!"{size} dice"
  | chance : TenLabel size true "chance die"

/-- What the line of a ten-sided pool adds for a mishap. -/
inductive TenRemark : Mishap → String → Prop where
  | clean : TenRemark .clean ""
  | glitch : TenRemark .glitch ""
  | criticalGlitch : TenRemark .criticalGlitch " (dramatic failure)"

theorem SixRemark.oneLine {mishap : Mishap} {remark : String} (h : SixRemark mishap remark) :
    OneLine remark := by
  cases h <;> decide

theorem TenRemark.oneLine {mishap : Mishap} {remark : String} (h : TenRemark mishap remark) :
    OneLine remark := by
  cases h <;> decide

theorem TenLabel.oneLine {size : Int} {chance : Bool} {label : String}
    (h : TenLabel size chance label) : OneLine label := by
  cases h with
  | dice => exact oneLine_append.mpr ⟨oneLine_int size, by decide⟩
  | chance => decide

namespace Command

variable {σ : Type} [Source σ]

/-- What a command shows, as a document and as a line, when its dice come from a source and the
limit is on the dice of each roll. -/
inductive Shows (limit : Nat) (s : σ) : Command → Json → String → Prop where
  | eval {expression : String} {outcome : Outcome} {after : σ}
      (h : (evaluate limit expression).run s = (.ok outcome, after)) :
      Shows limit s (.eval expression) outcome.toJson s!"{outcome.expansion} = {outcome.value}"
  | sixPool {expression remark : String} {rolled : SixPool} {after : σ}
      (h : (SixPool.throw limit expression).run s = (.ok rolled, after))
      (hremark : SixRemark rolled.mishap remark) :
      Shows limit s (.sixPool expression) rolled.toJson
        (s!"{rolled.size.value} dice: {rolled.pool.text} => {rolled.pool.hits} hits" ++ remark)
  | tenPool {words : List String} {label remark : String} {rolled : TenPool} {after : σ}
      (h : (TenPool.throw limit words).run s = (.ok rolled, after))
      (hlabel : TenLabel rolled.size rolled.chance label)
      (hremark : TenRemark rolled.mishap remark) :
      Shows limit s (.tenPool words) rolled.toJson
        (label ++ s!": {rolled.pool.text} => {rolled.pool.hits} successes" ++ remark)

/-- The row that a command counts, and the path to the file that is to hold it. -/
inductive Counts (limit : Nat) (s : σ) : Command → List Int → String → Prop where
  | stats {expression out : String} {expr : Expr .sum} {values row : List Int} {after : σ}
      (hparse : Expr.parse expression = .ok expr)
      (hvalues : Tally.Evaluations limit expr s values after)
      (hrow : (Tally.ofList values).row = .ok row) :
      Counts limit s (.stats expression values.length out) row out

/-- Why a command shows and counts nothing, in the words in which it is told. -/
inductive Fails (limit : Nat) (s : σ) : Command → String → Prop where
  | eval {expression reason : String} {failure : Failure} {after : σ}
      (h : (evaluate limit expression).run s = (.error failure, after))
      (hwords : failure.Says reason) : Fails limit s (.eval expression) reason
  | sixPool {expression reason : String} {failure : Failure} {after : σ}
      (h : (SixPool.throw limit expression).run s = (.error failure, after))
      (hwords : failure.Says reason) : Fails limit s (.sixPool expression) reason
  | tenPool {words : List String} {reason : String} {failure : Failure} {after : σ}
      (h : (TenPool.throw limit words).run s = (.error failure, after))
      (hwords : failure.Says reason) : Fails limit s (.tenPool words) reason
  | unread {expression out reason : String} {samples : Nat} {error : ParseError Text.Position}
      (hparse : Expr.parse expression = .error error) (hwords : error.Says reason) :
      Fails limit s (.stats expression samples out) ("parse error: " ++ reason)
  /-- One of the evaluations fails, after some that did not. -/
  | unsampled {expression out reason : String} {expr : Expr .sum} {samples : Nat}
      {values : List Int} {t after : σ} {error : EvalError}
      (hparse : Expr.parse expression = .ok expr)
      (hvalues : Tally.Evaluations limit expr s values t) (hlength : values.length < samples)
      (heval : (expr.eval limit).run t = (.error error, after)) (hwords : error.Says reason) :
      Fails limit s (.stats expression samples out) ("evaluation error: " ++ reason)
  | wide {expression out : String} {expr : Expr .sum} {values : List Int} {span : Nat} {after : σ}
      (hparse : Expr.parse expression = .ok expr)
      (hvalues : Tally.Evaluations limit expr s values after)
      (hrow : (Tally.ofList values).row = .error ⟨span⟩) :
      Fails limit s (.stats expression values.length out)
        s!"results span {span} values, more than the {1000000} a histogram can hold"

variable {limit : Nat} {s : σ} {json : Bool} {command : Command}

theorem Shows.oneLine [LawfulSource σ] {document : Json} {line : String}
    (h : command.Shows limit s document line) : OneLine line := by
  cases h with
  | eval h =>
    exact oneLine_append.mpr
      ⟨oneLine_append.mpr ⟨oneLine_of_plain (plain_of_evaluate h), by decide⟩, oneLine_int _⟩
  | @sixPool _ _ rolled _ h hremark =>
    have hsize := oneLine_int rolled.size.value
    have hpool := rolled.pool.oneLine_text
    have hhits := oneLine_nat rolled.pool.hits
    simp only [oneLine_append]
    exact ⟨⟨⟨⟨⟨⟨hsize, by decide⟩, hpool⟩, by decide⟩, hhits⟩, by decide⟩, hremark.oneLine⟩
  | @tenPool _ _ _ rolled _ h hlabel hremark =>
    have hpool := rolled.pool.oneLine_text
    have hhits := oneLine_nat rolled.pool.hits
    simp only [oneLine_append]
    exact ⟨⟨hlabel.oneLine, ⟨⟨⟨by decide, hpool⟩, by decide⟩, hhits⟩, by decide⟩, hremark.oneLine⟩

/-! ### Products -/

/-- What comes of a command before anything is printed or written. -/
inductive ComesTo (limit : Nat) (s : σ) (json : Bool) (command : Command) :
    Except Trouble Product → Prop where
  | line {document : Json} {line : String} (h : command.Shows limit s document line) :
      ComesTo limit s json command (.ok (present json document line))
  | file {row : List Int} {out : String} (h : command.Counts limit s row out) :
      ComesTo limit s json command (.ok (.file out (Npy.encode row)))
  | trouble {trouble : Trouble} (h : command.Fails limit s trouble.message) :
      ComesTo limit s json command (.error trouble)

theorem shows_eval {expression : String} {outcome : Outcome} {after : σ}
    (h : (evaluate limit expression).run s = (.ok outcome, after)) :
    (Command.eval expression).Shows limit s outcome.toJson outcome.line := .eval h

theorem shows_sixPool {expression : String} {rolled : SixPool} {after : σ}
    (h : (SixPool.throw limit expression).run s = (.ok rolled, after)) :
    (Command.sixPool expression).Shows limit s rolled.toJson rolled.line := by
  refine .sixPool h ?_
  cases rolled.mishap <;> constructor

theorem shows_tenPool {words : List String} {rolled : TenPool} {after : σ}
    (h : (TenPool.throw limit words).run s = (.ok rolled, after)) :
    (Command.tenPool words).Shows limit s rolled.toJson rolled.line := by
  refine .tenPool h ?_ ?_
  · cases rolled.chance <;> constructor
  · cases rolled.mishap <;> constructor

/-- A command whose dice are those of one play. -/
theorem comesTo_of_play {α : Type} {play : Play Failure α} {result : α → Result}
    {document : α → Json} {line : α → String}
    (hplay : command.play limit = do return result (← play))
    (hresult : ∀ a, (result a).product json = .ok (present json (document a) (line a)))
    (hok : ∀ a after, play.run s = (.ok a, after) →
      command.Shows limit s (document a) (line a))
    (herror : ∀ failure after, play.run s = (.error failure, after) →
      command.Fails limit s failure.message) :
    command.ComesTo limit s json (command.product limit s json) := by
  rw [product, hplay, Play.run_bind]
  cases hrun : play.run s with
  | mk answer after =>
    cases answer with
    | ok a =>
      show ComesTo _ _ _ _ ((result a).product json)
      rw [hresult]
      exact .line (hok a after hrun)
    | error failure => exact .trouble (herror failure after hrun)

theorem comesTo_stats {expression out : String} {samples : Nat} :
    (stats expression samples out).ComesTo limit s json
      ((stats expression samples out).product limit s json) := by
  cases hparse : Expr.parse expression with
  | error error =>
    rw [product, play, hparse]
    exact .trouble (.unread hparse error.says_message)
  | ok expr =>
    have hplay : (stats expression samples out).play limit = (do
        let tally ← (Tally.sample limit expr samples .empty).mapError .evaluation
        return .tally tally out) := by
      rw [play, hparse]
      rfl
    rw [product, hplay, Play.run_bind, Play.run_mapError]
    cases hrun : (Tally.sample limit expr samples .empty).run s with
    | mk result after =>
      cases result with
      | error error =>
        obtain ⟨values, t, hvalues, hlength, heval⟩ := Tally.run_sample_eq_error_iff.mp hrun
        exact .trouble (.unsampled hparse hvalues hlength heval error.says_message)
      | ok tally =>
        obtain ⟨values, hvalues, rfl, rfl⟩ := Tally.run_sample_eq_ok_iff.mp hrun
        -- Every evaluation has gone well, and still the row may be too wide.
        show ComesTo _ _ _ _ (Product.ofTally out (.ofList values))
        cases hrow : (Tally.ofList values).row with
        | error error =>
          rw [Product.ofTally, hrow]
          exact .trouble (.wide hparse hvalues hrow)
        | ok row =>
          rw [Product.ofTally, hrow]
          exact .file (.stats hparse hvalues hrow)

/-- The product of a command is what it shows or counts, and without one it fails. -/
theorem comesTo_product (limit : Nat) (s : σ) (json : Bool) (command : Command) :
    command.ComesTo limit s json (command.product limit s json) := by
  cases command with
  | eval expression =>
    exact comesTo_of_play rfl (fun _ => rfl) (fun _ _ => shows_eval)
      fun failure _ h => .eval h failure.says_message
  | sixPool expression =>
    exact comesTo_of_play rfl (fun _ => rfl) (fun _ _ => shows_sixPool)
      fun failure _ h => .sixPool h failure.says_message
  | tenPool words =>
    exact comesTo_of_play rfl (fun _ => rfl) (fun _ _ => shows_tenPool)
      fun failure _ h => .tenPool h failure.says_message
  | stats expression samples out => exact comesTo_stats

/-! ### Memory -/

/-- Under the limit that the memory of a machine bears, a command is refused for its number of
dice, which the limit of its own, a greater one, lets pass. -/
structure Overtaxes (room limit : Nat) (s : σ) (command : Command) : Prop where
  room_lt : room < limit
  lifted : ∃ failure after, (command.play room).run s = (.error failure, after) ∧
    failure.Lifted limit

theorem overtaxes_iff {room : Nat} :
    command.overtaxes room limit s = true ↔ command.Overtaxes room limit s := by
  rw [overtaxes, Bool.and_eq_true, decide_eq_true_iff]
  cases hrun : (command.play room).run s with
  | mk result after =>
    cases result with
    | ok result =>
      constructor
      · rintro ⟨-, ⟨⟩⟩
      · rintro ⟨-, failure, t, h, -⟩
        cases hrun.symm.trans h
    | error failure =>
      constructor
      · rintro ⟨hroom, h⟩
        exact ⟨hroom, failure, after, hrun, Failure.lifted_iff.mp h⟩
      · rintro ⟨hroom, _, _, h, hlifted⟩
        cases hrun.symm.trans h
        exact ⟨hroom, Failure.lifted_iff.mpr hlifted⟩

end Command

end CommandLine

end Dice
