import Clausal.Name
import Clausal.Text.Style

/-!
# Diagnostics

What the passes tell the user about the program, in the order in which they
find it.
-/

namespace Clausal

inductive Severity where
  | informational | warning | error
deriving DecidableEq, Repr, Inhabited

namespace Severity

/-- Full names, for reports by severity. -/
def name : Severity → String
  | .informational => "informational"
  | .warning => "warning"
  | .error => "error"

/-- How a message is marked. -/
def label : Severity → String
  | .informational => "info"
  | .warning => "warning"
  | .error => "error"

def style : Severity → Text.Style
  | .informational => .cyan
  | .warning => .yellow
  | .error => .red

/-- The more serious of two. -/
def max : Severity → Severity → Severity
  | .error, _ | _, .error => .error
  | .warning, _ | _, .warning => .warning
  | .informational, .informational => .informational

end Severity

structure Diagnostic where
  severity : Severity
  context : Context
  /-- The predicate that the message is about, described. -/
  pred : Option String
  message : String
  /-- Where in the compiler the message comes from. -/
  trace : Option String := none
deriving DecidableEq, Repr, Inhabited

/-- The text of a diagnostic, in colours if asked for. -/
def Diagnostic.render (colours : Bool) (d : Diagnostic) : String :=
  let trace :=
    match d.trace with
    | some t => Text.paint colours .blue "backtrace" ++ ": " ++ t ++ "\n"
    | none => ""
  let pred :=
    match d.pred with
    | some p => "In " ++ p ++ ": "
    | none => ""
  trace ++ d.context.render ++ ": " ++
    Text.paint colours d.severity.style d.severity.label ++ ": " ++ pred ++ d.message

/-- How many of the diagnostics are errors. -/
def errorCount (ds : List Diagnostic) : Nat := (ds.filter (·.severity == .error)).length

/-- The severity of the most serious diagnostic. -/
def maxSeverity? : List Diagnostic → Option Severity
  | [] => none
  | d :: ds => some (ds.foldl (fun s d => s.max d.severity) d.severity)

end Clausal
