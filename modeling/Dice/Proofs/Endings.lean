import Dice.Proofs.Commands
import Dice.Proofs.Settings
import Dice.Proofs.Stored

/-! How a run ends. The settings are read first; then a command is carried out up to what it
shows or the row that it counts, and only then is anything printed or written. A command that
fails does so before that, and a file is written as a whole or not at all. Main statement: on
every lawful disk and with every lawful source, a run prints one result and touches no file, or
stores one row and prints nothing, or apologizes and does neither; a machine whose memory bears
the limit on the dice lets every run come to one of these ends. -/

namespace Dice.CommandLine

variable {σ τ δ : Type} [Disk δ]

/-! ### The configuration -/

/-- A text is read from the file to which a path leads. -/
structure Holds (disk : δ) (path text : String) : Prop where
  read : Disk.readText disk path = .ok text
  file : ∃ file, Disk.file? disk path = some file ∧ Disk.bytes? disk file = some (encodeText text)

/-- The settings that a run works with: the defaults, or those of a text that can be read. -/
inductive Configured (reader : Settings.Reader) (disk : δ) : Option String → Settings → Prop where
  | absent : Configured reader disk none ⟨none, 10000⟩
  | file {path text : String} {settings : Settings} (htext : Holds disk path text)
      (hreads : Settings.Reads reader text settings) :
      Configured reader disk (some path) settings

/-- What is wrong with the configuration of a run. -/
inductive Misconfigured (reader : Settings.Reader) (disk : δ) : Option String → String → Prop where
  | unreadable {path reason : String} {error : DiskError}
      (hread : Disk.readText disk path = .error error) (hwords : error.Says reason) :
      Misconfigured reader disk (some path) s!"unable to read config file {path}: {reason}"
  | malformed {path text reason : String} (htext : Holds disk path text)
      (hrejects : Settings.Rejects reader text reason) :
      Misconfigured reader disk (some path) ("malformed config: " ++ reason)

/-- The configuration of a run, or the trouble with it. -/
def configuration (reader : Settings.Reader) (disk : δ) :
    (config : Option String) → Except Trouble Settings
  | none => .ok {}
  | some path =>
    match Disk.readText disk path with
    | .error error => .error (.unreadableConfig path error)
    | .ok text => (Settings.ofText reader text).mapError .malformedConfig

theorem run_readSettings (reader : Settings.Reader) (config : Option String) (disk : δ) :
    (readSettings reader config : StateM δ _).run disk = (configuration reader disk config, disk) := by
  cases config with
  | none => rfl
  | some path =>
    have hread : (MonadDisk.readText path : StateM δ _).run disk =
        (Disk.readText disk path, disk) := rfl
    rw [readSettings, StateT.run_bind, hread, configuration]
    cases Disk.readText disk path <;> rfl

theorem configuration_of_configured {reader : Settings.Reader} {disk : δ} {config : Option String}
    {settings : Settings} (h : Configured reader disk config settings) :
    configuration reader disk config = .ok settings := by
  cases h with
  | absent => rfl
  | file htext hreads =>
    rw [configuration, htext.read]
    exact congrArg (Except.mapError _) (Settings.ofText_of_reads hreads)

theorem configuration_of_misconfigured {reader : Settings.Reader} {disk : δ}
    {config : Option String} {reason : String} (h : Misconfigured reader disk config reason) :
    ∃ trouble, configuration reader disk config = .error trouble ∧ trouble.message = reason := by
  cases h with
  | @unreadable path _ error hread hwords =>
    refine ⟨.unreadableConfig path error, ?_, ?_⟩
    · rw [configuration, hread]
    · rw [DiskError.says_iff.mp hwords]
      rfl
  | @malformed _ _ reason htext hrejects =>
    refine ⟨.malformedConfig reason, ?_, rfl⟩
    rw [configuration, htext.read]
    exact congrArg (Except.mapError _) (Settings.ofText_of_rejects hrejects)

/-- A run has its settings, or else its configuration is at fault. -/
theorem configured_or_misconfigured [LawfulDisk δ] (reader : Settings.Reader) (disk : δ)
    (config : Option String) :
    (∃ settings, Configured reader disk config settings) ∨
      ∃ reason, Misconfigured reader disk config reason := by
  cases config with
  | none => exact .inl ⟨_, .absent⟩
  | some path =>
    cases hread : Disk.readText disk path with
    | error error => exact .inr ⟨_, .unreadable hread (DiskError.says_iff.mpr rfl)⟩
    | ok text =>
      have htext : Holds disk path text := ⟨hread, LawfulDisk.readText_ok hread⟩
      rcases Settings.reads_or_rejects reader text with ⟨settings, h⟩ | ⟨reason, h⟩
      · exact .inl ⟨settings, .file htext h⟩
      · exact .inr ⟨_, .malformed htext h⟩

/-! ### What a run leaves behind -/

/-- No file is made, changed or taken away. -/
def Untouched (before after : δ) : Prop :=
  ∀ file : Disk.File δ, Disk.bytes? after file = Disk.bytes? before file

/-- A run that prints a text and touches no file. -/
structure Prints (text : String) (before : δ) (ran : Ending × δ) : Prop where
  exitCode : ran.1.exitCode = 0
  stdout : ran.1.stdout = text ++ "\n"
  stderr : ran.1.stderr = ""
  files : Untouched before ran.2

/-- A run that stores bytes in the file to which a path leads, and prints nothing. -/
structure Stores (path : String) (bytes : List UInt8) (before : δ) (ran : Ending × δ) : Prop where
  exitCode : ran.1.exitCode = 0
  stdout : ran.1.stdout = ""
  stderr : ran.1.stderr = ""
  files : ∃ file, Disk.file? before path = some file ∧ Disk.bytes? ran.2 file = some bytes ∧
    ∀ other, other ≠ file → Disk.bytes? ran.2 other = Disk.bytes? before other

/-- A run that says why it fails, and does nothing else. -/
structure Apologizes (reason : String) (before : δ) (ran : Ending × δ) : Prop where
  exitCode : ran.1.exitCode = 1
  stdout : ran.1.stdout = ""
  stderr : ran.1.stderr = "Sorry, I couldn't do that: " ++ reason ++ "\n"
  files : Untouched before ran.2

/-- A run that the machine ends, in its own way, before it has done anything. -/
structure CutOff (cutoff : Cutoff) (before : δ) (ran : Ending × δ) : Prop where
  exitCode : ran.1.exitCode = cutoff.exitCode
  stdout : ran.1.stdout = ""
  stderr : ran.1.stderr = cutoff.words
  files : Untouched before ran.2

theorem prints_printed (text : String) (disk : δ) : Prints text disk (.printed text, disk) :=
  ⟨rfl, rfl, rfl, fun _ => rfl⟩

theorem apologizes_failed (trouble : Trouble) {before after : δ} (h : Untouched before after) :
    Apologizes trouble.message before (.failed trouble, after) := ⟨rfl, rfl, rfl, h⟩

theorem cutOff_cutOff (cutoff : Cutoff) (disk : δ) : CutOff cutoff disk (.cutOff cutoff, disk) :=
  ⟨rfl, rfl, rfl, fun _ => rfl⟩

/-- A file is written as a whole or not at all. -/
theorem deliver_file [LawfulDisk δ] (path : String) (bytes : List UInt8) (disk : δ) :
    let ran := (deliver (.file path bytes) : StateM δ Ending).run disk
    Stores path bytes disk ran ∨
    ∃ error, (Disk.writeBytes disk path bytes).1 = .error error ∧
      Apologizes (Trouble.unwritable error).message disk ran := by
  cases hwrite : Disk.writeBytes disk path bytes with
  | mk answer after =>
    cases answer with
    | ok =>
      rw [deliver_of_ok hwrite]
      exact .inl ⟨rfl, rfl, rfl, LawfulDisk.writeBytes_ok hwrite⟩
    | error error =>
      rw [deliver_of_error hwrite]
      exact .inr ⟨error, rfl, apologizes_failed _ (LawfulDisk.writeBytes_error hwrite)⟩

/-! ### Commands -/

/-- How a command ends that is carried out on a source of dice, and what the disk is like then. -/
inductive Ends [Source τ] (limit : Nat) (s : τ) (json : Bool) (command : Command) (disk : δ)
    (ran : Ending × δ) : Prop where
  | prints {document : Json} {line : String} (hshows : command.Shows limit s document line)
      (hline : '\n' ∉ line.toList) (h : Prints (if json then document.text else line) disk ran)
  | stores {row : List Int} {out : String} (hcounts : command.Counts limit s row out)
      (h : Stores out (Npy.encode row) disk ran)
  | fails {reason : String} (hfails : command.Fails limit s reason)
      (h : Apologizes reason disk ran)
  | unwritten {row : List Int} {out reason : String} {error : DiskError}
      (hcounts : command.Counts limit s row out)
      (hwrite : (Disk.writeBytes disk out (Npy.encode row)).1 = .error error)
      (hwords : error.Says reason) (h : Apologizes reason disk ran)

theorem Command.ends_conclude [Source τ] [LawfulSource τ] [LawfulDisk δ] (limit : Nat) (s : τ)
    (json : Bool) (command : Command) (disk : δ) : Ends limit s json command disk
      ((conclude (command.product limit s json) : StateM δ Ending).run disk) := by
  have hcomes := command.comesTo_product limit s json
  generalize command.product limit s json = product at hcomes ⊢
  cases hcomes with
  | line hshows => exact .prints hshows hshows.oneLine (prints_printed _ disk)
  | @file row out hcounts =>
    rcases deliver_file out (Npy.encode row) disk with hstores | ⟨error, hwrite, hapologizes⟩
    · exact .stores hcounts hstores
    · exact .unwritten hcounts hwrite (DiskError.says_iff.mpr rfl) hapologizes
  | trouble hfails => exact .fails hfails (apologizes_failed _ fun _ => rfl)

/-- How a machine carries out a command: to its end, or as far as the memory goes. -/
structure CarriedOut [Source τ] (host : Host σ) (limit : Nat) (s : τ) (json : Bool)
    (command : Command) (disk : δ) (ran : Ending × δ) : Prop where
  ends (h : ¬ command.Overtaxes host.room limit s) : Ends limit s json command disk ran
  cutOff (h : command.Overtaxes host.room limit s) : CutOff host.cutoff disk ran

theorem Command.carriedOut_carryOut [Source τ] [LawfulSource τ] [LawfulDisk δ] (host : Host σ)
    (limit : Nat) (s : τ) (json : Bool) (command : Command) (disk : δ) :
    CarriedOut host limit s json command disk
      ((command.carryOut host limit s json : StateM δ Ending).run disk) := by
  by_cases hovertaxes : command.overtaxes host.room limit s = true
  · rw [carryOut, if_pos hovertaxes]
    exact ⟨fun h => absurd (overtaxes_iff.mp hovertaxes) h, fun _ => cutOff_cutOff _ disk⟩
  · rw [carryOut, if_neg hovertaxes]
    exact ⟨fun _ => command.ends_conclude limit s json disk,
      fun h => absurd (overtaxes_iff.mpr h) hovertaxes⟩

section Evaluations

variable [Source τ] {limit : Nat} {s : τ} {json : Bool} {text : String} {disk : δ}
  {ran : Ending × δ}

/-- An evaluation that has an outcome is printed. -/
theorem Ends.prints_outcome {outcome : Outcome} (h : Ends limit s json (.eval text) disk ran)
    (heval : ((evaluate limit text).run s).1 = .ok outcome) :
    Prints (if json then outcome.toJson.text else s!"{outcome.expansion} = {outcome.value}")
      disk ran := by
  cases h with
  | prints hshows _ h =>
    cases hshows with
    | eval hrun =>
      rw [hrun] at heval
      cases heval
      exact h
  | fails hfails _ =>
    cases hfails with
    | eval hrun _ =>
      rw [hrun] at heval
      cases heval
  | stores hcounts _ => cases hcounts
  | unwritten hcounts _ _ _ => cases hcounts

/-- An evaluation that fails is apologized for. -/
theorem Ends.apologizes_failure {failure : Failure} (h : Ends limit s json (.eval text) disk ran)
    (heval : ((evaluate limit text).run s).1 = .error failure) :
    ∃ reason, failure.Says reason ∧ Apologizes reason disk ran := by
  cases h with
  | prints hshows _ _ =>
    cases hshows with
    | eval hrun =>
      rw [hrun] at heval
      cases heval
  | fails hfails h =>
    cases hfails with
    | eval hrun hwords =>
      rw [hrun] at heval
      cases heval
      exact ⟨_, hwords, h⟩
  | stores hcounts _ => cases hcounts
  | unwritten hcounts _ _ _ => cases hcounts

end Evaluations

/-! ### Runs -/

namespace Invocation

variable [Source σ] {host : Host σ} {disk : δ} {invocation : Invocation}

/-- How a run ends, and what the disk is like then. -/
def runOn (host : Host σ) (disk : δ) (invocation : Invocation) : Ending × δ :=
  (invocation.run host : StateM δ Ending).run disk

/-- A configuration that is at fault ends a run, which looks at no command. -/
theorem apologizes_of_misconfigured {reason : String}
    (h : Misconfigured host.reader disk invocation.config reason) :
    Apologizes reason disk (invocation.runOn host disk) := by
  obtain ⟨trouble, htrouble, rfl⟩ := configuration_of_misconfigured h
  have hran : invocation.runOn host disk = (.failed trouble, disk) := by
    rw [runOn, run, StateT.run_bind, run_readSettings, htrouble]
    rfl
  rw [hran]
  exact apologizes_failed trouble fun _ => rfl

theorem runOn_of_seed {settings : Settings} {seed : Nat}
    (h : Configured host.reader disk invocation.config settings)
    (hseed : (invocation.seed <|> settings.seed) = some seed) :
    invocation.runOn host disk = (invocation.command.carryOut host settings.maxDice
      (Xoshiro.ofSeed seed.toUInt64) invocation.json : StateM δ Ending).run disk := by
  rw [runOn, run, StateT.run_bind, run_readSettings, configuration_of_configured h]
  simp only [bind, hseed]

theorem runOn_of_noSeed {settings : Settings}
    (h : Configured host.reader disk invocation.config settings)
    (hseed : (invocation.seed <|> settings.seed) = none) :
    invocation.runOn host disk = (invocation.command.carryOut host settings.maxDice
      host.unseeded invocation.json : StateM δ Ending).run disk := by
  rw [runOn, run, StateT.run_bind, run_readSettings, configuration_of_configured h]
  simp only [bind, hseed]

end Invocation

end Dice.CommandLine
