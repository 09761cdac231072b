import Clausal.Compile
import Clausal.Printer
import Clausal.Scenario

/-!
# The command line

The program compiles a scenario and prints the module that comes of it, with
the diagnostics on the side. Arguments are read from left to right
(`Request.parse`), and the first one that cannot be accepted, or that asks for
help or the version, settles what happens.

A value is given to a setting by the next argument, or in the same argument
after an equals sign. Nothing may be given twice.
-/

namespace Clausal

namespace CommandLine

/-- The program's name. -/
def programName : String := "hldsc"

/-- The program's version. -/
def versionNumber : String := "0.1.0"

/-- Something that is asked for by being named. -/
inductive Switch where
  | quiet
  | traceTableIo | traceTableIoAll | traceTableIoRequire | traceTableIoStates
  | traceTableIoOnlyRetry | tablingViaExtraArgs
deriving DecidableEq, Repr, Inhabited

namespace Switch

def all : List Switch :=
  [.quiet, .traceTableIo, .traceTableIoAll, .traceTableIoRequire, .traceTableIoStates,
   .traceTableIoOnlyRetry, .tablingViaExtraArgs]

def name : Switch → String
  | .quiet => "quiet"
  | .traceTableIo => "trace-table-io"
  | .traceTableIoAll => "trace-table-io-all"
  | .traceTableIoRequire => "trace-table-io-require"
  | .traceTableIoStates => "trace-table-io-states"
  | .traceTableIoOnlyRetry => "trace-table-io-only-retry"
  | .tablingViaExtraArgs => "tabling-via-extra-args"

/-- What the switch is for, for the reader of the help. -/
def purpose : Switch → String
  | .quiet => "Only print the diagnostics, not the transformed module"
  | .traceTableIo => "Table the I/O actions of primitives annotated as tabled for I/O"
  | .traceTableIoAll => "Table I/O for the declarative debugger, not just for retry"
  | .traceTableIoRequire => "Require every I/O primitive to carry a tabled-for-I/O annotation"
  | .traceTableIoStates => "Also save and restore the I/O states themselves"
  | .traceTableIoOnlyRetry => "Only table I/O for retry, even for exported predicates"
  | .tablingViaExtraArgs => "Emit tabling primitives as inline foreign code instead of calls"

end Switch

/-- Something that has a value. -/
inductive Setting where
  | scenario | target | collector
deriving DecidableEq, Repr, Inhabited

namespace Setting

def all : List Setting := [.scenario, .target, .collector]

def name : Setting → String
  | .scenario => "scenario"
  | .target => "target"
  | .collector => "gc"

/-- The setting and its value, for the reader of a message. -/
def usage (s : Setting) : String := "--" ++ s.name ++ " <" ++ s.name.toUpper ++ ">"

/-- What the setting is for, for the reader of the help. -/
def purpose : Setting → String
  | .scenario => "Demonstration module to compile"
  | .target => "Language the module will be compiled to [default: c]"
  | .collector => "Garbage collector of the generated program [default: boehm]"

/-- The values that can be given. -/
def values : Setting → List String
  | .scenario => Scenario.all.map Scenario.name
  | .target => Target.all.map Target.render
  | .collector => Collector.all.map Collector.render

end Setting

/-- Why a command line is not accepted. -/
inductive UsageError where
  | unknown (text : String)
  | repeated (name : String)
  | missingValue (setting : Setting)
  | invalidValue (setting : Setting) (value : String)
  /-- A value is given to something that has none. -/
  | unexpectedValue (name value : String)
  | missingScenario
deriving DecidableEq, Repr, Inhabited

def UsageError.message : UsageError → String
  | .unknown text => "unexpected argument '" ++ text ++ "' found"
  | .repeated name => "the argument '--" ++ name ++ "' cannot be used multiple times"
  | .missingValue s => "a value is required for '" ++ s.usage ++ "' but none was supplied"
  | .invalidValue s value => "invalid value '" ++ value ++ "' for '" ++ s.usage ++ "'"
  | .unexpectedValue name value => "unexpected value '" ++ value ++ "' for '--" ++ name ++ "' found"
  | .missingScenario => "the argument '" ++ Setting.scenario.usage ++ "' is required"

/-- What one argument says on its own. -/
inductive Word where
  | switch (s : Switch)
  /-- A setting, with its value if that is in the same argument. -/
  | setting (s : Setting) (value : Option String)
  | help | version
  /-- What comes after is not to be read as a switch or a setting. -/
  | separator
  | plain (text : String)
  | wrong (error : UsageError)
deriving DecidableEq, Repr, Inhabited

namespace Word

/-- A word that takes no value. -/
def withoutValue (word : Word) (name : String) : (value : Option String) → Word
  | none => word
  | some value => .wrong (.unexpectedValue name value)

/-- What an argument with two dashes says. -/
def ofLong (name : String) (value : Option String) : Word :=
  match Setting.all.find? (·.name == name), Switch.all.find? (·.name == name) with
  | some s, _ => .setting s value
  | none, some s => withoutValue (.switch s) name value
  | none, none =>
    if name = "help" then withoutValue .help name value
    else if name = "version" then withoutValue .version name value
    else .wrong (.unknown ("--" ++ name))

/-- What follows the first equals sign, if there is one. -/
def valueOf (text : List Char) : Option String :=
  match text.dropWhile (· != '=') with
  | [] => none
  | _ :: value => some (String.ofList value)

/-- What an argument says. -/
def ofText (text : String) : Word :=
  match text.toList with
  | ['-', '-'] => .separator
  | '-' :: '-' :: rest => ofLong (String.ofList (rest.takeWhile (· != '='))) (valueOf rest)
  | '-' :: 'h' :: _ => .help
  | '-' :: 'V' :: _ => .version
  | '-' :: c :: _ => .wrong (.unknown ("-" ++ String.singleton c))
  | _ => .plain text

end Word

/-- What a command line asks for. -/
structure Request where
  scenario : Option Scenario := none
  target : Option Target := none
  collector : Option Collector := none
  switches : List Switch := []
deriving DecidableEq, Repr, Inhabited

/-- What happens without anything being compiled. -/
inductive Stop where
  | usage (error : UsageError)
  | help | version
deriving DecidableEq, Repr, Inhabited

namespace Request

/-- The value of a setting, unless it has one already. -/
def setOnce {α : Type} (s : Setting) (old : Option α) (values : List α) (render : α → String)
    (value : String) : Except Stop (Option α) :=
  if old.isSome then .error (.usage (.repeated s.name))
  else
    match values.find? (render · == value) with
    | some a => .ok (some a)
    | none => .error (.usage (.invalidValue s value))

/-- The request with a value for a setting. -/
def set (r : Request) (s : Setting) (value : String) : Except Stop Request :=
  match s with
  | .scenario => do
    return { r with scenario := ← setOnce s r.scenario Scenario.all Scenario.name value }
  | .target => do return { r with target := ← setOnce s r.target Target.all Target.render value }
  | .collector => do
    return { r with collector := ← setOnce s r.collector Collector.all Collector.render value }

/-- The request with one more switch. -/
def addSwitch (r : Request) (s : Switch) : Except Stop Request :=
  if r.switches.contains s then .error (.usage (.repeated s.name))
  else .ok { r with switches := s :: r.switches }

/-- Adds what arguments say to a request. -/
def parse (r : Request) : List String → Except Stop Request
  | [] => .ok r
  | text :: rest =>
    match Word.ofText text with
    | .help => .error .help
    | .version => .error .version
    | .wrong e => .error (.usage e)
    | .plain text => .error (.usage (.unknown text))
    | .switch s => do (← r.addSwitch s).parse rest
    | .setting s (some value) => do (← r.set s value).parse rest
    | .setting s none =>
      match rest with
      | [] => .error (.usage (.missingValue s))
      | value :: rest =>
        match Word.ofText value with
        | .plain value => do (← r.set s value).parse rest
        | _ => .error (.usage (.missingValue s))
    | .separator =>
      match rest with
      | [] => .ok r
      | text :: _ => .error (.usage (.unknown text))

def has (r : Request) (s : Switch) : Bool := r.switches.contains s

/-- The options of the compilation that is asked for. -/
def options (r : Request) : Options :=
  { target := r.target.getD .c
    collector := r.collector.getD .boehm
    traceTableIo := r.has .traceTableIo
    traceTableIoAll := r.has .traceTableIoAll
    traceTableIoRequire := r.has .traceTableIoRequire
    traceTableIoStates := r.has .traceTableIoStates
    traceTableIoOnlyRetry := r.has .traceTableIoOnlyRetry
    tablingViaExtraArgs := r.has .tablingViaExtraArgs }

end Request

/-- What a run of the program comes to. -/
structure Outcome where
  exitCode : Nat := 0
  /-- What is printed. -/
  output : String := ""
  /-- The lines that are printed on the side. -/
  messages : List String := []
deriving DecidableEq, Repr, Inhabited

/-- The help. -/
def helpText : String :=
  let entry (name purpose : String) : String :=
    "      " ++ name ++ "\n          " ++ purpose ++ "\n"
  let settings := Setting.all.map fun s =>
    entry s.usage (s.purpose ++ " [possible values: " ++ commas s.values ++ "]")
  let switches := Switch.all.map fun s => entry ("--" ++ s.name) s.purpose
  "Logic Language Compiler: polymorphism and tabling transformations over the HLDS\n\nUsage: " ++
    programName ++ " [OPTIONS] " ++ Setting.scenario.usage ++ "\n\nOptions:\n" ++
    String.join (settings ++ switches) ++
    entry "-h, --help" "Print help" ++ entry "-V, --version" "Print version"

/-- What is said instead of compiling. -/
def Stop.outcome : Stop → Outcome
  | .help => { output := helpText }
  | .version => { output := programName ++ " " ++ versionNumber ++ "\n" }
  | .usage e =>
    { exitCode := 2
      messages :=
        ["error: " ++ e.message, "",
         "Usage: " ++ programName ++ " [OPTIONS] " ++ Setting.scenario.usage] }

/-- What is said of a compiled module. -/
def outcomeOf (quiet : Bool) (m : Module) : Except Fault Outcome := do
  let output ← if quiet then pure "" else m.render false
  let diagnostics := m.diagnostics.map (·.render false)
  let warnings := (m.diagnostics.filter (·.severity == .warning)).length
  match m.failure? with
  | some failure =>
    return { exitCode := 1, output, messages := diagnostics ++ ["error: " ++ failure] }
  | none =>
    let note := if warnings = 0 then [] else ["note: " ++ toString warnings ++ " warning(s)"]
    return { output, messages := diagnostics ++ note }

/-- Runs the program. -/
def run (args : List String) : Except Fault Outcome :=
  match ({} : Request).parse args with
  | .error stop => .ok stop.outcome
  | .ok r =>
    match r.scenario with
    | none => .ok (Stop.outcome (.usage .missingScenario))
    | some s => do outcomeOf (r.has .quiet) (← (← s.build r.options).compile)

end CommandLine

end Clausal
