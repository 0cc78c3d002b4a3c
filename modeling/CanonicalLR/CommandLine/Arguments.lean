import CanonicalLR.Config
import CanonicalLR.Text.Digits

/-!
# Command line arguments

Options may stand before and after the grammar file.  A long option may be shortened to any
beginning that no other option shares, and a value follows it as the next argument or after an
equals sign.  The letters after a short option, with or without an equals sign before them, are
short options too.  After `--` no argument is an option, and an argument that looks like a negative
number or holds a space is none either, unless it begins like one.  Of several values for an option
the last one counts; the value `--` after an equals sign stands for the standard choice.
-/

namespace CanonicalLR.CommandLine

/-- An argument, which need not be a well-formed text. -/
abbrev Argument := List CodePoint

/-- The options of the program. -/
inductive Flag where
  | help
  | conflictPolicy
  | firstStrategy
  | states
  | verbose
deriving DecidableEq, Repr

namespace Flag

/-- All spellings of all options, in the order in which ambiguities list them. -/
def spellings : List (String × Flag) :=
  [("-h", help), ("--help", help), ("--conflict-policy", conflictPolicy),
    ("--first-strategy", firstStrategy), ("--states", states), ("-v", verbose),
    ("--verbose", verbose)]

/-- The option with a given spelling. -/
def ofSpelling? (text : Argument) : Option Flag :=
  (spellings.find? fun entry => Text.points entry.1 = text).map (·.2)

/-- The values that an option takes; none if it takes no value. -/
def choices : Flag → List String
  | conflictPolicy => [ConflictPolicy.overwrite, .error].map ConflictPolicy.name
  | firstStrategy => [FirstStrategy.guarded, .fixedPoint].map FirstStrategy.name
  | _ => []

/-- Whether an option takes a value. -/
def takesValue (flag : Flag) : Bool := !flag.choices.isEmpty

/-- The name of an option in messages, all its spellings. -/
def name (flag : Flag) : String :=
  "/".intercalate ((spellings.filter fun entry => entry.2 = flag).map (·.1))

end Flag

/-- What is wrong with some arguments. -/
inductive UsageError where
  | missingGrammar
  | unrecognized (arguments : List Argument)
  | missingValue (flag : Flag)
  | badChoice (flag : Flag) (value : Argument)
  | needlessValue (flag : Flag) (value : Argument)
  | ambiguous (argument : Argument) (spellings : List String)
deriving DecidableEq, Repr

/-- The explanation of a usage error. -/
def UsageError.message : UsageError → String
  | missingGrammar => "the following arguments are required: grammar"
  | unrecognized arguments =>
    "unrecognized arguments: " ++ " ".intercalate (arguments.map Text.shown)
  | missingValue flag => "argument " ++ flag.name ++ ": expected one argument"
  | badChoice flag value =>
    "argument " ++ flag.name ++ ": invalid choice: " ++ Text.quoted value ++ " (choose from " ++
      ", ".intercalate (flag.choices.map fun choice => Text.quoted (Text.points choice)) ++ ")"
  | needlessValue flag value =>
    "argument " ++ flag.name ++ ": ignored explicit argument " ++ Text.quoted value
  | ambiguous argument spellings =>
    "ambiguous option: " ++ Text.shown argument ++ " could match " ++
      ", ".intercalate spellings

/-- An argument by its role.  An option may carry a value, after an equals sign or, behind a single
dash, directly. -/
inductive Word where
  | plain (text : Argument)
  | separator
  | option (flag : Flag) (isShort : Bool) (value : Option Argument)
  | unknown (text : Argument)
deriving DecidableEq, Repr

/-- A text without the line feed at its end, if it has one. -/
def dropLineFeed (text : Argument) : Argument :=
  if text.getLast? = some (.char '\n') then text.dropLast else text

/-- Whether an argument looks like a negative number, with digits of any script and perhaps a line
feed at its end. -/
def looksNegative (text : Argument) : Bool :=
  match dropLineFeed text with
  | .char '-' :: rest =>
    let whole := rest.takeWhile Text.isDigit
    match rest.dropWhile Text.isDigit with
    | [] => !whole.isEmpty
    | .char '.' :: fraction => !fraction.isEmpty && fraction.all Text.isDigit
    | _ => false
  | _ => false

/-- An argument cut at its first equals sign, if it has one. -/
def cutEquals (text : Argument) : Argument × Option Argument :=
  let before := text.takeWhile (· ≠ .char '=')
  match text.drop before.length with
  | [] => (before, none)
  | _ :: value => (before, some value)

/-- The options that an argument which spells none in full may stand for. -/
def candidates (text : Argument) : List (String × Word) :=
  match text with
  | .char '-' :: .char '-' :: _ =>
    let cut := cutEquals text
    Flag.spellings.filterMap fun entry =>
      if cut.1.isPrefixOf (Text.points entry.1) then some (entry.1, .option entry.2 false cut.2)
      else none
  | .char '-' :: letter :: rest =>
    Flag.spellings.filterMap fun entry =>
      if Text.points entry.1 = [.char '-', letter] then
        some (entry.1, .option entry.2 true (some rest))
      else none
  | _ => []

/-- The option that an argument spells in full, by itself or before an equals sign. -/
def spelled? (text : Argument) : Option Word :=
  match Flag.ofSpelling? text with
  | some flag => some (.option flag (text.length == 2) none)
  | none =>
    match cutEquals text with
    | (before, some value) =>
      (Flag.ofSpelling? before).map fun flag => .option flag (before.length == 2) (some value)
    | _ => none

/-- The role of an argument before any separator. -/
def classify (argument : Argument) : Except UsageError Word :=
  if argument.head? ≠ some (.char '-') ∨ argument = [.char '-'] then .ok (.plain argument)
  else
    match spelled? argument with
    | some word => .ok word
    | none =>
      match candidates argument with
      | [] =>
        if looksNegative argument || argument.contains (.char ' ') then .ok (.plain argument)
        else .ok (.unknown argument)
      | [entry] => .ok entry.2
      | entries => .error (.ambiguous argument (entries.map (·.1)))

/-- The argument after which no argument is an option. -/
def separatorText : Argument := Text.points "--"

/-- The roles of all arguments. -/
def classifyAll : List Argument → Except UsageError (List Word)
  | [] => .ok []
  | argument :: rest =>
    if argument = separatorText then .ok (.separator :: rest.map .plain)
    else
      match classify argument with
      | .error e => .error e
      | .ok word => (classifyAll rest).map (word :: ·)

/-- What the arguments ask for. -/
structure Request where
  grammar : Option Argument
  config : Config
  states : Bool
  verbose : Bool
  help : Bool
  extras : List Argument
deriving DecidableEq, Repr

/-- Nothing is asked for. -/
def Request.start : Request := ⟨none, .standard, false, false, false, []⟩

namespace Request

/-- Notes an argument that no one takes. -/
def leave (request : Request) (text : Argument) : Request :=
  { request with extras := request.extras ++ [text] }

/-- Takes an option without a value. -/
def takeFlag (request : Request) : Flag → Request
  | .help => { request with help := true }
  | .states => { request with states := true }
  | .verbose => { request with verbose := true }
  | _ => request

/-- The choice that a value names; the value `--` names the standard one. -/
def choice? {α : Type} (standard : α) (ofName? : String → Option α) (value : Argument) : Option α :=
  if value = separatorText then some standard else (Text.ofPoints? value).bind ofName?

/-- Takes an option with its value. -/
def takeValue (request : Request) (flag : Flag) (value : Argument) : Except UsageError Request :=
  match flag with
  | .conflictPolicy =>
    match choice? Config.standard.conflictPolicy ConflictPolicy.ofName? value with
    | some conflictPolicy => .ok { request with config := { request.config with conflictPolicy } }
    | none => .error (.badChoice flag value)
  | .firstStrategy =>
    match choice? Config.standard.firstStrategy FirstStrategy.ofName? value with
    | some firstStrategy => .ok { request with config := { request.config with firstStrategy } }
    | none => .error (.badChoice flag value)
  | _ => .error (.needlessValue flag value)

end Request

/-- A short option with the options that the letters after it name. -/
def joined (flag : Flag) : Argument → Except UsageError (List Flag)
  | [] => .ok [flag]
  | letter :: rest =>
    match Flag.ofSpelling? [.char '-', letter] with
    | none => .error (.needlessValue flag (letter :: rest))
    | some next => (joined next rest).map (flag :: ·)

/-- Takes an option that is followed by no value of its own, with what it carries. -/
def Request.takeOption (request : Request) (flag : Flag) (isShort : Bool)
    (value : Option Argument) : Except UsageError Request :=
  match value with
  | none => if flag.takesValue then .error (.missingValue flag) else .ok (request.takeFlag flag)
  | some text =>
    if flag.takesValue then request.takeValue flag text
    else if isShort && !text.isEmpty then
      (joined flag text).map fun flags => flags.foldl takeFlag request
    else .error (.needlessValue flag text)

/-- Reads the arguments from left to right.  The first plain argument is the grammar file, and a
separator next to it goes with it.  Asking for help ends the reading. -/
def readWords (request : Request) : List Word → Except UsageError Request
  | [] => .ok request
  | .plain text :: .separator :: rest =>
    if request.grammar.isSome then readWords ((request.leave text).leave separatorText) rest
    else readWords { request with grammar := some text } rest
  | .separator :: .plain text :: rest =>
    if request.grammar.isSome then readWords ((request.leave separatorText).leave text) rest
    else readWords { request with grammar := some text } rest
  | .option flag isShort none :: .plain text :: rest =>
    if flag.takesValue then
      match request.takeValue flag text with
      | .error e => .error e
      | .ok next => readWords next rest
    else
      match request.takeOption flag isShort none with
      | .error e => .error e
      | .ok next => if next.help then .ok next else readWords next (.plain text :: rest)
  | .option flag isShort value :: rest =>
    match request.takeOption flag isShort value with
    | .error e => .error e
    | .ok next => if next.help then .ok next else readWords next rest
  | .plain text :: rest =>
    if request.grammar.isSome then readWords (request.leave text) rest
    else readWords { request with grammar := some text } rest
  | .separator :: rest => readWords (request.leave separatorText) rest
  | .unknown text :: rest => readWords (request.leave text) rest
termination_by words => words.length

/-- Reads all arguments; unless help is asked for, there must be a grammar file and nothing else
left over. -/
def Request.read (arguments : List Argument) : Except UsageError Request :=
  match classifyAll arguments with
  | .error e => .error e
  | .ok words =>
    match readWords .start words with
    | .error e => .error e
    | .ok request =>
      if request.help then .ok request
      else if request.grammar.isNone then .error .missingGrammar
      else if request.extras.isEmpty then .ok request
      else .error (.unrecognized request.extras)

end CanonicalLR.CommandLine
