/-!
# Options

What the passes are asked to do, and for which target. Tables need the C
target and a collector that does not move cells (`Options.tablingRefused?`).
-/

namespace Clausal

/-- The language that is generated. -/
inductive Target where
  | c | java | csharp | erlang
deriving DecidableEq, Repr, Inhabited

def Target.all : List Target := [.c, .java, .csharp, .erlang]

def Target.render : Target → String
  | .c => "c"
  | .java => "java"
  | .csharp => "csharp"
  | .erlang => "erlang"

/-- The garbage collector of the generated program. -/
inductive Collector where
  | none | boehm | accurate
deriving DecidableEq, Repr, Inhabited

def Collector.all : List Collector := [.none, .boehm, .accurate]

def Collector.render : Collector → String
  | .none => "none"
  | .boehm => "boehm"
  | .accurate => "accurate"

structure Options where
  target : Target := .c
  collector : Collector := .boehm
  /-- Table the I/O actions of the predicates that ask for it. -/
  traceTableIo : Bool := false
  /-- Table them for the declarative debugger too. -/
  traceTableIoAll : Bool := false
  /-- Require every I/O primitive to say whether it is tabled. -/
  traceTableIoRequire : Bool := false
  /-- Save and restore the I/O states too. -/
  traceTableIoStates : Bool := false
  /-- Table for doing actions again only, even in exported predicates. -/
  traceTableIoOnlyRetry : Bool := false
  /-- Emit tabling primitives as inline foreign code. -/
  tablingViaExtraArgs : Bool := false
deriving DecidableEq, Repr, Inhabited

/-- Why procedures cannot be tabled. -/
inductive TablingRefusal where
  | target (target : Target)
  | collector
deriving DecidableEq, Repr, Inhabited

def TablingRefusal.message : TablingRefusal → String
  | .target t => "tabling is not supported when targeting " ++ t.render
  | .collector => "tabling is incompatible with accurate garbage collection"

/-- Why procedures cannot be tabled, unless they can. -/
def Options.tablingRefused? (o : Options) : Option TablingRefusal :=
  if o.target != .c then some (.target o.target)
  else if o.collector == .accurate then some .collector
  else none

end Clausal
