/-!
# Identifiers, names and positions

Variables, type variables, predicates and procedures are numbered by their
position in the table that declares them. A number from outside is read as a
32-bit word (`ProgVar.ofNat` and its kin); a table's own next number is its
size. The four kinds of number are different types, so that one cannot stand
for another, and each has its own spelling in listings (`V_3`, `T0`, `pred70`,
`proc0`).
-/

namespace Clausal

/-- How many different identifiers of one kind there are: they are 32-bit
    words. -/
def idSpan : Nat := Nat.pow 2 32

/-- A variable of one procedure, by its position in the variable table. -/
structure ProgVar where
  index : Nat
deriving DecidableEq, Repr, Inhabited

/-- A type variable of one declaration, by its position in the declaration's
    set of type variables. -/
structure TypeVar where
  index : Nat
deriving DecidableEq, Repr, Inhabited

/-- A predicate or function, by its position in the module's predicate
    table. -/
structure PredId where
  index : Nat
deriving DecidableEq, Repr, Inhabited

/-- One mode of a predicate, by its position among the predicate's
    procedures. -/
structure ProcId where
  index : Nat
deriving DecidableEq, Repr, Inhabited

/-- A procedure of a module: a predicate and one of its modes. -/
structure ProcRef where
  pred : PredId
  proc : ProcId := ⟨0⟩
deriving DecidableEq, Repr, Inhabited

def ProgVar.ofNat (n : Nat) : ProgVar := ⟨n % idSpan⟩
def TypeVar.ofNat (n : Nat) : TypeVar := ⟨n % idSpan⟩
def PredId.ofNat (n : Nat) : PredId := ⟨n % idSpan⟩
def ProcId.ofNat (n : Nat) : ProcId := ⟨n % idSpan⟩

def ProgVar.render (v : ProgVar) : String := "V_" ++ toString v.index
def TypeVar.render (v : TypeVar) : String := "T" ++ toString v.index
def PredId.render (p : PredId) : String := "pred" ++ toString p.index
def ProcId.render (p : ProcId) : String := "proc" ++ toString p.index

/-- The source position a goal or a declaration comes from. Goals that a pass
    makes inherit the position of the goal they are made for. -/
structure Context where
  file : String := ""
  line : Nat := 0
deriving DecidableEq, Repr, Inhabited

def Context.render (c : Context) : String := c.file ++ ":" ++ toString c.line

/-- A name, possibly qualified by the module that declares it. -/
structure SymName where
  qualifier : Option String
  name : String
deriving DecidableEq, Repr, Inhabited

namespace SymName

def qualified (qualifier name : String) : SymName := ⟨some qualifier, name⟩

def unqualified (name : String) : SymName := ⟨none, name⟩

def render (n : SymName) : String :=
  match n.qualifier with
  | some q => q ++ "." ++ n.name
  | none => n.name

end SymName

end Clausal
