import CanonicalLR.CommandLine.Run
import CanonicalLR.Proofs.Failures
import Mathlib

/-!
# The command line and the build behind it

A run on a grammar file does what a build of the stored text does.  The line breaks of the file are
unified before it is read; the lines are the same (`Text.lines_unifyBreaks`), and with them the
rules and the numbers of malformed lines.  Nothing is printed before the build has succeeded, so an
error leaves the standard output empty (`shows_runBuild`).

The choices of a run are read from its arguments in any order, before and after the file, with long
options in full or shortened (`read_of_written`).  `run_agrees` has both parts.
-/

namespace CanonicalLR.CommandLine

/-! ## What a run shows -/

/-- What a run shows of the end of a build: the grammar, on demand the automaton, and the table,
each but the last followed by a blank line; or the message of a grammar error. -/
inductive Shows (states : Bool) : Except BuildError Build → Outcome → Prop
  | built (b : Build) : Shows states (.ok b)
      ⟨0, b.listing.render ++ "\n" ++ "\n" ++
        (if states then b.automaton.render ++ "\n" ++ "\n" else "") ++ b.table.render ++ "\n", ""⟩
  | failed (e : BuildError) (report : Report) (h : e.report? = some report) :
      Shows states (.error e) ⟨1, "", "error: " ++ report.message ++ "\n"⟩

section Run

variable {config : Config} {states : Bool} {text : String}

theorem printed_eq (states : Bool) (b : Build) : printed states b =
    b.listing.render ++ "\n" ++ "\n" ++
      (if states then b.automaton.render ++ "\n" ++ "\n" else "") ++ b.table.render ++ "\n" := by
  cases states <;> simp [printed, unlines, ← String.append_assoc]

theorem failed_nil (message : String) :
    failed [] message = ⟨1, "", "error: " ++ message ++ "\n"⟩ := by
  simp [failed, unlines]

/-- Nothing is printed before the build has come to its end. -/
theorem shows_runBuild : Shows states (build text config) (runBuild config states false text) := by
  unfold runBuild
  cases hread : Listing.read text with
  | error e =>
    rw [build_of_read_error hread]
    show Shows states _ (failed [] e.report.message)
    rw [failed_nil]
    exact .failed (.text e) e.report rfl
  | ok listing =>
    have hbuild := build_of_read config hread
    rw [build, hread] at hbuild ⊢
    simp only at hbuild ⊢
    cases htable : (listing.analyse config.firstStrategy).table config.conflictPolicy with
    | ok table =>
      show Shows states (.ok _) ⟨0, printed states _, unlines []⟩
      rw [printed_eq]
      exact .built _
    | error e =>
      rw [htable] at hbuild
      rcases hbuild with ⟨b, hb, -⟩ | ⟨-, c, hb, -⟩
      · cases hb
      · cases hb
        show Shows states _ (failed [] c.message)
        rw [failed_nil]
        exact .failed (.table (.conflict c)) (.conflict c) rfl

theorem read_unifyBreaks (text : String) :
    Listing.read (String.ofList (Text.unifyBreaks text.toList)) = Listing.read text := by
  rw [Listing.read, Listing.read, String.toList_ofList, Text.lines_unifyBreaks]

theorem decodeFile_toUTF8 (text : String) :
    decodeFile text.toUTF8 = .ok (String.ofList (Text.unifyBreaks text.toList)) := by
  have hdecoded : String.fromUTF8? text.toUTF8 = some text := dif_pos text.isValidUTF8
  rw [decodeFile, hdecoded]

/-- A run on a stored text shows the build of the text as it is stored. -/
theorem shows_run {contents : Argument → Except FileFault ByteArray} {arguments : List Argument}
    {request : Request} (hread : Request.read arguments = .ok request)
    (hhelp : request.help = false) (hverbose : request.verbose = false)
    (hfile : contents (request.grammar.getD []) = .ok text.toUTF8) :
    ∃ outcome, run contents arguments = .ok outcome ∧
      Shows request.states (build text request.config) outcome := by
  refine ⟨runBuild request.config request.states false text, ?_, shows_runBuild⟩
  have hsame : runBuild request.config request.states false
      (String.ofList (Text.unifyBreaks text.toList)) =
        runBuild request.config request.states false text := by
    rw [runBuild, runBuild, read_unifyBreaks]
  unfold run
  simp only [hread, hhelp, hfile, decodeFile_toUTF8, hverbose, Except.map, hsame]
  rfl

end Run

/-! ## Choices -/

/-- A choice that the arguments of a run can make. -/
inductive Choice where
  | conflictPolicy (policy : ConflictPolicy)
  | firstStrategy (strategy : FirstStrategy)
  | states
deriving DecidableEq

namespace Choice

def flag : Choice → Flag
  | conflictPolicy _ => .conflictPolicy
  | firstStrategy _ => .firstStrategy
  | states => .states

/-- The long spelling of the option of a choice. -/
def spelling : Choice → String
  | conflictPolicy _ => "--conflict-policy"
  | firstStrategy _ => "--first-strategy"
  | states => "--states"

/-- The names of the option: its spelling, and the beginnings of it with at least one letter. -/
def names (choice : Choice) : List Argument := (Text.points choice.spelling).inits.drop 3

/-- The value that is chosen, if the option takes one. -/
def value? : Choice → Option String
  | conflictPolicy policy => some policy.name
  | firstStrategy strategy => some strategy.name
  | states => none

/-- The arguments that make a choice. -/
inductive Written (choice : Choice) : List Argument → Prop
  | bare (name : Argument) (hname : name ∈ choice.names) (hvalue : choice.value? = none) :
      Written choice [name]
  | apart (name : Argument) (value : String) (hname : name ∈ choice.names)
      (hvalue : choice.value? = some value) : Written choice [name, Text.points value]
  | equated (name : Argument) (value : String) (hname : name ∈ choice.names)
      (hvalue : choice.value? = some value) :
      Written choice [name ++ .char '=' :: Text.points value]

/-- A configuration after a choice. -/
def configure (config : Config) : Choice → Config
  | conflictPolicy policy => { config with conflictPolicy := policy }
  | firstStrategy strategy => { config with firstStrategy := strategy }
  | states => config

/-- A request after a choice. -/
def make (request : Request) (choice : Choice) : Request :=
  { request with
    config := choice.configure request.config
    states := request.states || decide (choice = states) }

end Choice

/-- The arguments that make some choices, one after the other. -/
inductive ChoicesWritten : List Choice → List Argument → Prop
  | nil : ChoicesWritten [] []
  | cons {choice : Choice} {choices : List Choice} {given arguments : List Argument}
      (h : choice.Written given) (rest : ChoicesWritten choices arguments) :
      ChoicesWritten (choice :: choices) (given ++ arguments)

/-- Arguments whose words change a request in a given way, whatever comes behind them. -/
structure Reads (given : List Argument) (words : List Word) (change : Request → Request) :
    Prop where
  classify : ∀ rest, classifyAll (given ++ rest) = (classifyAll rest).map (words ++ ·)
  read : ∀ (request : Request) (rest : List Word), request.help = false →
    readWords request (words ++ rest) = readWords (change request) rest
  help : ∀ request : Request, (change request).help = request.help
  head : words.head? ≠ some .separator

section Choices

variable {choice : Choice} {choices before after : List Choice}
  {given given' arguments left right : List Argument} {words words' : List Word}
  {change change' : Request → Request} {name file : Argument} {value : String} {request : Request}

theorem Reads.nil : Reads [] [] id where
  classify rest := by cases h : classifyAll rest <;> simp [h, Except.map]
  read _ _ _ := rfl
  help _ := rfl
  head := by simp

theorem Reads.append (h : Reads given words change) (h' : Reads given' words' change') :
    Reads (given ++ given') (words ++ words') (change' ∘ change) where
  classify rest := by
    rw [List.append_assoc, h.classify, h'.classify]
    cases classifyAll rest <;> simp [Except.map]
  read request rest hhelp := by
    rw [List.append_assoc, h.read request _ hhelp, h'.read _ _ ((h.help request).trans hhelp)]
    rfl
  help request := (h'.help _).trans (h.help request)
  head := by
    cases words with
    | nil => exact h'.head
    | cons word words => exact h.head

/-! The names and values are finitely many, so that they are read as meant is computed. -/

theorem classify_name (hname : name ∈ choice.names) :
    name ≠ separatorText ∧ classify name = .ok (.option choice.flag false none) := by
  revert name
  rcases choice with (_ | _) | (_ | _) | _ <;> decide +kernel

theorem classify_equated (hname : name ∈ choice.names) (hvalue : choice.value? = some value) :
    name ++ .char '=' :: Text.points value ≠ separatorText ∧
      classify (name ++ .char '=' :: Text.points value) =
        .ok (.option choice.flag false (some (Text.points value))) := by
  revert name
  rcases choice with (_ | _) | (_ | _) | _ <;> cases hvalue <;> decide +kernel

theorem classify_value (hvalue : choice.value? = some value) :
    Text.points value ≠ separatorText ∧
      classify (Text.points value) = .ok (.plain (Text.points value)) := by
  rcases choice with (_ | _) | (_ | _) | _ <;> cases hvalue <;> decide +kernel

theorem takeValue_eq (hvalue : choice.value? = some value) (request : Request) :
    choice.flag.takesValue = true ∧
      request.takeValue choice.flag (Text.points value) = .ok (choice.make request) := by
  have unchanged : (request.states || decide (choice = .states)) = request.states := by
    have hne : choice ≠ .states := by
      rintro rfl
      cases hvalue
    rw [decide_eq_false hne, Bool.or_false]
  rw [Choice.make, unchanged]
  rcases choice with (_ | _) | (_ | _) | _ <;> cases hvalue <;> exact ⟨by decide, rfl⟩

theorem classifyAll_cons {word : Word} {rest : List Argument}
    (h : name ≠ separatorText ∧ classify name = .ok word) :
    classifyAll (name :: rest) = (classifyAll rest).map (word :: ·) := by
  rw [classifyAll, if_neg h.1, h.2]

theorem readWords_apart (hvalue : choice.value? = some value) (request : Request)
    (rest : List Word) :
    readWords request (.option choice.flag false none :: .plain (Text.points value) :: rest) =
      readWords (choice.make request) rest := by
  obtain ⟨htakes, htaken⟩ := takeValue_eq hvalue request
  rw [readWords, if_pos htakes, htaken]

theorem readWords_equated (hvalue : choice.value? = some value) (hhelp : request.help = false)
    (rest : List Word) :
    readWords request (.option choice.flag false (some (Text.points value)) :: rest) =
      readWords (choice.make request) rest := by
  obtain ⟨htakes, htaken⟩ := takeValue_eq hvalue request
  have hnext : (choice.make request).help = false := hhelp
  rw [readWords]
  · simp [Request.takeOption, htakes, htaken, hnext]
  · intro text more _ hnone
    cases hnone

theorem readWords_states (hhelp : request.help = false) (rest : List Word) :
    readWords request (.option .states false none :: rest) =
      readWords (Choice.states.make request) rest := by
  have htakes : Flag.states.takesValue = false := by decide
  have hmake : request.takeFlag .states = Choice.states.make request := by
    simp [Request.takeFlag, Choice.make, Choice.configure]
  have hnext : (Choice.states.make request).help = false := hhelp
  -- a value behind the option would be looked for first
  rcases rest with _ | ⟨_ | _ | _ | _, rest⟩ <;>
    simp [readWords, Request.takeOption, htakes, hmake, hnext]

/-- The arguments of a choice make that choice. -/
theorem Choice.Written.reads (h : choice.Written given) :
    ∃ words, Reads given words choice.make := by
  cases h with
  | bare name hname hvalue =>
    cases choice with
    | conflictPolicy => cases hvalue
    | firstStrategy => cases hvalue
    | states =>
      refine ⟨[.option .states false none], ?_, fun _ rest hhelp => readWords_states hhelp rest,
        fun _ => rfl, by simp⟩
      exact fun rest => classifyAll_cons (classify_name hname)
  | apart name value hname hvalue =>
    refine ⟨[.option choice.flag false none, .plain (Text.points value)], fun rest => ?_,
      fun request rest _ => readWords_apart hvalue request rest, fun _ => rfl, by simp⟩
    rw [List.cons_append, classifyAll_cons (classify_name hname), List.singleton_append,
      classifyAll_cons (classify_value hvalue)]
    cases classifyAll rest <;> rfl
  | equated name value hname hvalue =>
    refine ⟨[.option choice.flag false (some (Text.points value))], ?_,
      fun _ rest hhelp => readWords_equated hvalue hhelp rest, fun _ => rfl, by simp⟩
    exact fun rest => classifyAll_cons (classify_equated hname hvalue)

theorem ChoicesWritten.reads (h : ChoicesWritten choices arguments) :
    ∃ words, Reads arguments words fun request => choices.foldl (fun r c => c.make r) request := by
  induction h with
  | nil => exact ⟨[], .nil⟩
  | cons h _ ih =>
    obtain ⟨words, hwords⟩ := h.reads
    obtain ⟨others, hothers⟩ := ih
    exact ⟨words ++ others, hwords.append hothers⟩

/-- What is asked for by some choices, made one after the other. -/
theorem foldl_make (request : Request) :
    choices.foldl (fun r c => c.make r) request =
      { request with
        config := choices.foldl Choice.configure request.config
        states := request.states || decide (.states ∈ choices) } := by
  induction choices generalizing request with
  | nil => simp
  | cons choice choices ih =>
    rw [List.foldl_cons, ih]
    simp [Choice.make, Bool.or_assoc, eq_comm]

/-- The first plain argument is the file. -/
theorem readWords_file (hgrammar : request.grammar = none)
    (hwords : words.head? ≠ some .separator) :
    readWords request (.plain file :: words) =
      readWords { request with grammar := some file } words := by
  have hnone : ¬ request.grammar.isSome = true := by simp [hgrammar]
  rw [readWords, if_neg hnone]
  rintro rest rfl
  exact hwords rfl

/-- **Choices are read as they are written**, before and after the file, the last one of a kind
counting. -/
theorem read_of_written (hl : ChoicesWritten before left) (hr : ChoicesWritten after right)
    (hfile : file.head? ≠ some (.char '-')) :
    Request.read (left ++ file :: right) =
      .ok ⟨some file, (before ++ after).foldl Choice.configure .standard,
        decide (.states ∈ before ++ after), false, false, []⟩ := by
  obtain ⟨leftWords, hleft⟩ := hl.reads
  obtain ⟨rightWords, hright⟩ := hr.reads
  have hplain : file ≠ separatorText ∧ classify file = .ok (.plain file) := by
    refine ⟨?_, by rw [classify, if_pos (.inl hfile)]⟩
    rintro rfl
    exact hfile rfl
  have hwords : classifyAll (left ++ file :: right) =
      .ok (leftWords ++ .plain file :: rightWords) := by
    have hend := hright.classify []
    rw [List.append_nil] at hend
    rw [hleft.classify, classifyAll_cons hplain, hend]
    simp [classifyAll, Except.map]
  have hread : readWords .start (leftWords ++ .plain file :: rightWords) =
      .ok ⟨some file, (before ++ after).foldl Choice.configure .standard,
        decide (.states ∈ before ++ after), false, false, []⟩ := by
    have hend := hright.read ⟨some file, before.foldl Choice.configure .standard,
      decide (.states ∈ before), false, false, []⟩ [] rfl
    rw [List.append_nil, foldl_make, readWords] at hend
    rw [hleft.read _ _ rfl, foldl_make, readWords_file rfl hright.head]
    simp only [Request.start, Bool.false_or]
    rw [hend, List.foldl_append]
    simp
  rw [Request.read, hwords]
  simp only [hread]
  rfl

end Choices

/-- No choice of a run is refused as a configuration. -/
theorem ofFields_names (config : Config) : Config.ofFields (.record
    [("conflict_policy", .string config.conflictPolicy.name),
      ("first_strategy", .string config.firstStrategy.name)]) = .ok config := by
  rcases config with ⟨_ | _, _ | _⟩ <;> rfl

/-- **A run agrees with the build of the stored text.**  Whatever the arguments are that ask for
neither help nor the log, if their file holds a text, the run shows the build of this text under the
configuration that they choose: the grammar, on demand the automaton, and the table, or else just
the message of the grammar error.  All choices can be made, in any order and in every spelling,
before and after the file; and their names always are a configuration. -/
theorem run_agrees :
    (∀ {contents : Argument → Except FileFault ByteArray} {arguments : List Argument}
      {request : Request} {text : String}, Request.read arguments = .ok request →
      request.help = false → request.verbose = false →
      contents (request.grammar.getD []) = .ok text.toUTF8 →
      ∃ outcome, run contents arguments = .ok outcome ∧
        Shows request.states (build text request.config) outcome) ∧
    (∀ {before after : List Choice} {left right : List Argument} {file : Argument},
      ChoicesWritten before left → ChoicesWritten after right → file.head? ≠ some (.char '-') →
      Request.read (left ++ file :: right) =
        .ok ⟨some file, (before ++ after).foldl Choice.configure .standard,
          decide (.states ∈ before ++ after), false, false, []⟩) ∧
    ∀ config : Config, Config.ofFields (.record
      [("conflict_policy", .string config.conflictPolicy.name),
        ("first_strategy", .string config.firstStrategy.name)]) = .ok config :=
  ⟨shows_run, read_of_written, ofFields_names⟩

/-- The third line is malformed, behind an empty line between two short breaks; a shortened option
before the file and one after it. -/
theorem run_agrees_malformed :
    let text := "S -> A\r\rA -> -> b\r\n"
    let contents := fun name =>
      if name = Text.points "g.txt" then .ok text.toUTF8 else .error .missing
    let left := ["--conf", "overwrite", "--first-strategy=fixed_point"].map Text.points
    let right := ["--states", "--conflict-policy", "error"].map Text.points
    let arguments := left ++ Text.points "g.txt" :: right
    Request.read arguments =
      .ok ⟨some (Text.points "g.txt"), ⟨.error, .fixedPoint⟩, true, false, false, []⟩ ∧
    build text ⟨.error, .fixedPoint⟩ =
      .error (.text (.malformed 3 "A -> -> b" .repeatedArrow)) ∧
    run contents arguments = .ok ⟨1, "", "error: Line 3: more than one '->'\n"⟩ := by
  intro text contents left right arguments
  obtain ⟨shown, written, -⟩ := run_agrees
  have hl : ChoicesWritten [.conflictPolicy .overwrite, .firstStrategy .fixedPoint] left :=
    .cons (.apart (Text.points "--conf") "overwrite" (by decide) rfl)
      (.cons (.equated (Text.points "--first-strategy") "fixed_point" (by decide) rfl) .nil)
  have hr : ChoicesWritten [.states, .conflictPolicy .error] right :=
    .cons (.bare (Text.points "--states") (by decide) rfl)
      (.cons (.apart (Text.points "--conflict-policy") "error" (by decide) rfl) .nil)
  have hread : Request.read arguments =
      .ok ⟨some (Text.points "g.txt"), ⟨.error, .fixedPoint⟩, true, false, false, []⟩ :=
    written hl hr (by decide)
  have hbuild : build text ⟨.error, .fixedPoint⟩ =
      .error (.text (.malformed 3 "A -> -> b" .repeatedArrow)) := by cbv
  have hfile : contents (Text.points "g.txt") = .ok text.toUTF8 := rfl
  obtain ⟨outcome, hrun, hshows⟩ := shown hread rfl rfl hfile
  refine ⟨hread, hbuild, ?_⟩
  rw [hrun]
  rw [hbuild] at hshows
  cases hshows with
  | failed e report h =>
    cases h
    rfl

end CanonicalLR.CommandLine
