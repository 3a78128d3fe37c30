import NamingLint.Path

/-!
# NamingLint — command line arguments

`check [PATH]` and `list-rules`, with options in long and short form. An option that takes a value
takes it after an equals sign, from the next argument, or, in short form, from the rest of its own
argument. Short options without values may be run together. After `--` everything is a path.

* `Scan` — what was read at one level: before the command, or after it.
* `Invocation.parse` — the command that the arguments ask for.
-/

namespace NamingLint.Command

/-- How results are printed. -/
inductive Format where
  | text
  | json
  | compact
  deriving DecidableEq, Repr

/-- The format with a name. -/
def Format.ofName? (s : String) : Option Format :=
  if s = "text" then some .text
  else if s = "json" then some .json
  else if s = "compact" then some .compact
  else none

/-- What `check` is asked to do. -/
structure CheckOptions where
  path : Path
  format : Format
  config : Option Path
  /-- Is the report directory written? -/
  writesReport : Bool
  /-- The report of another tool, to be passed along. -/
  externalReport : Option Path
  deriving DecidableEq, Repr

/-- A command with its options. -/
inductive Task where
  | check (options : CheckOptions)
  | listRules
  deriving DecidableEq, Repr

/-- What the arguments ask for. -/
structure Invocation where
  verbose : Bool
  task : Task
  deriving DecidableEq, Repr

/-- Why there is nothing to run. -/
inductive Refusal where
  /-- The arguments make no sense. -/
  | misuse
  /-- The arguments ask for help, or for the version. -/
  | help
  deriving DecidableEq, Repr

/-! ## Options -/

/-- An option. -/
inductive Flag where
  | verbose
  | config
  | format
  | noReport
  | externalReport
  | help
  | version
  deriving DecidableEq, Repr

namespace Flag

/-- Does the option take a value? -/
def takesValue : Flag → Bool
  | config | format | externalReport => true
  | verbose | noReport | help | version => false

/-- The long form. -/
def long : Flag → String
  | verbose => "verbose"
  | config => "config"
  | format => "format"
  | noReport => "no-report"
  | externalReport => "external-report"
  | help => "help"
  | version => "version"

/-- The short form, if there is one. -/
def short? : Flag → Option Char
  | verbose => some 'v'
  | config => some 'c'
  | format => some 'f'
  | noReport => none
  | externalReport => none
  | help => some 'h'
  | version => some 'V'

/-- May the option have this value? -/
def admits : Flag → String → Bool
  | format, v => (Format.ofName? v).isSome
  | config, v | externalReport, v => v ≠ ""
  | _, _ => true

end Flag

/-- Where an argument stands. -/
inductive Level where
  /-- Before the command. -/
  | top
  | check
  | listRules
  deriving DecidableEq, Repr

namespace Level

/-- The options that a level knows. -/
def flags : Level → List Flag
  | top => [.verbose, .config, .help, .version]
  | check => [.verbose, .config, .format, .noReport, .externalReport, .help]
  | listRules => [.verbose, .config, .help]

/-- The option with a long form. -/
def long? (l : Level) (name : String) : Option Flag :=
  l.flags.find? fun f => f.long = name

/-- The option with a short form. -/
def short? (l : Level) (c : Char) : Option Flag :=
  l.flags.find? fun f => f.short? = some c

end Level

/-! ## Scanning -/

/-- What was read at one level. -/
structure Scan where
  /-- Options with their values; an option without one has the empty value. -/
  given : List (Flag × String) := []
  /-- The path, if one was given. -/
  path : Option String := none
  /-- An option whose value comes next. -/
  pending : Option Flag := none
  /-- Is everything that follows a path? -/
  trailing : Bool := false

namespace Scan

/-- Adds an option; it may be given only once. -/
def give (s : Scan) (f : Flag) (value : String) : Except Refusal Scan :=
  if f = .help ∨ f = .version then .error .help
  else if (s.given.lookup f).isSome ∨ !f.admits value then .error .misuse
  else .ok { s with given := s.given ++ [(f, value)], pending := none }

/-- Reads a long option without its dashes. -/
def readLong (l : Level) (s : Scan) (t : Text) : Except Refusal Scan :=
  match l.long? (String.ofList (t.takeWhile (· ≠ '='))), t.dropWhile (· ≠ '=') with
  | none, _ => .error .misuse
  | some f, [] => if f.takesValue then .ok { s with pending := some f } else s.give f ""
  | some f, _ :: value => if f.takesValue then s.give f (String.ofList value) else .error .misuse

/-- Reads short options without their dash. -/
def readShort (l : Level) (s : Scan) : Text → Except Refusal Scan
  | [] => .ok s
  | c :: t =>
    match l.short? c with
    | none => .error .misuse
    | some f =>
      if !f.takesValue then (s.give f "").bind fun s => readShort l s t
      else
        match t with
        | [] => .ok { s with pending := some f }
        | '=' :: value => s.give f (String.ofList value)
        | value => s.give f (String.ofList value)

/-- Reads a path; only `check` has one. -/
def readPath (l : Level) (s : Scan) (arg : String) : Except Refusal Scan :=
  if l = .check ∧ s.path = none ∧ arg ≠ "" then .ok { s with path := some arg } else .error .misuse

/-- Reads one argument that is no command. -/
def readArgument (l : Level) (s : Scan) (arg : String) : Except Refusal Scan :=
  if s.trailing then s.readPath l arg
  else
    match s.pending, arg.toList with
    | none, ['-', '-'] => .ok { s with trailing := true }
    | none, '-' :: '-' :: t => readLong l s t
    | none, '-' :: c :: t => readShort l s (c :: t)
    | none, _ => s.readPath l arg
    | some _, '-' :: _ :: _ => .error .misuse
    | some f, _ => s.give f arg

/-- Ends a level; no value may be outstanding. -/
def finish (s : Scan) : Except Refusal Scan :=
  if s.pending.isSome then .error .misuse else .ok s

/-- Reads all arguments of a command. -/
def readAll (l : Level) (s : Scan) (args : List String) : Except Refusal Scan :=
  (args.foldlM (readArgument l) s).bind finish

/-- Is the next argument the name of a command? -/
def awaitsCommand (s : Scan) : Bool :=
  s.pending.isNone && !s.trailing

/-- The value of an option. -/
def value? (s : Scan) (f : Flag) : Option String :=
  s.given.lookup f

/-- Was an option given? -/
def has (s : Scan) (f : Flag) : Bool :=
  (s.value? f).isSome

end Scan

/-! ## Commands -/

/-- The command with a name. -/
def commandLevel? (name : String) : Option Level :=
  if name = "check" then some .check
  else if name = "list-rules" then some .listRules
  else none

/-- The task of a command, from what was read before and after its name. Options may stand on either
side; after the name they count more. -/
def task (l : Level) (top scan : Scan) : Task :=
  if l = .check then
    .check
      { path := ⟨scan.path.getD "."⟩
        format := ((scan.value? .format).bind Format.ofName?).getD .text
        config := ((scan.value? .config).or (top.value? .config)).map Path.mk
        writesReport := !scan.has .noReport
        externalReport := (scan.value? .externalReport).map Path.mk }
  else .listRules

/-- Is this a request for help? -/
def isHelp (arg : String) : Bool :=
  arg = "help"

/-- What a request for help with some arguments gives: they may name one command. -/
def helpOn : List String → Refusal
  | [] => .help
  | [arg] => if (commandLevel? arg).isSome || isHelp arg then .help else .misuse
  | _ => .misuse

/-- Reads arguments up to the command and then those of the command. -/
def parseFrom (top : Scan) : List String → Except Refusal Invocation
  | [] => .error .misuse
  | arg :: args =>
    if top.awaitsCommand && isHelp arg then .error (helpOn args)
    else
      match top.awaitsCommand, commandLevel? arg with
      | true, some l => do
        let scan ← Scan.readAll l {} args
        return ⟨top.has .verbose || scan.has .verbose, task l top scan⟩
      | _, _ => do parseFrom (← top.readArgument .top arg) args

/-- What some arguments ask for. -/
def Invocation.parse (args : List String) : Except Refusal Invocation :=
  parseFrom {} args

end NamingLint.Command
