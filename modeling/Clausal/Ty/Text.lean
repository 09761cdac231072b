import Clausal.Text.Quoted
import Clausal.Ty.Matching

/-!
# Types as text

Three ways to write a type: as in a declaration, with the names of its
variables (`TypeScope.render`); as a key that tells apart the instances of a
class (`Ty.instanceKey`); and as a term, with every part labelled, where a
message has to show two types that print alike (`Ty.listing`).
-/

namespace Clausal

/-- The texts between commas. -/
def commas (texts : List String) : String := ", ".intercalate texts

namespace TypeScope

mutual

/-- A type as in a declaration. Names are not qualified. -/
def render (s : TypeScope) : Ty → String
  | .var v => s.varName v
  | .defined n [] => n.name
  | .defined n (t :: ts) => n.name ++ "(" ++ commas (renderList s (t :: ts)) ++ ")"
  | .tuple ts => "\x7b" ++ commas (renderList s ts) ++ "\x7d"
  | .higherOrder .predicate ts => "pred(" ++ commas (renderList s ts) ++ ")"
  | .higherOrder .function ts =>
    let texts := renderList s ts
    match texts.getLast? with
    | some result => "func(" ++ commas texts.dropLast ++ ") = " ++ result
    | none => "func"

/-- Types as in a declaration, one text each. -/
def renderList (s : TypeScope) : List Ty → List String
  | [] => []
  | t :: ts => render s t :: renderList s ts

end

end TypeScope

namespace Ty

/-- The constructor of a type, spelt so that it can be part of a name. -/
def instanceKey : Ty → String
  | .var _ => "var"
  | .defined n ts =>
    n.qualifier.getD "" ++ "__" ++ n.name ++ "__arity" ++ toString ts.length
  | .tuple ts => "tuple__arity" ++ toString ts.length
  | .higherOrder k ts => k.render ++ "__arity" ++ toString ts.length

/-- The key that tells apart the instances of a class: it names the
    constructor of each type. -/
def instanceKeys (ts : List Ty) : String := "__".intercalate (ts.map instanceKey)

end Ty

/-- A labelled group of parts. -/
def group (label parts : String) : String := label ++ " \x7b " ++ parts ++ " \x7d"

def SymName.listing (n : SymName) : String :=
  let qualifier :=
    match n.qualifier with
    | some q => "Some(" ++ Text.quoted q ++ ")"
    | none => "None"
  group "SymName" ("module: " ++ qualifier ++ ", name: " ++ Text.quoted n.name)

def TypeCtor.listing (c : TypeCtor) : String :=
  group "TypeCtor" ("name: " ++ c.name.listing ++ ", arity: " ++ toString c.arity)

def CallableKind.listing : CallableKind → String
  | .predicate => "Predicate"
  | .function => "Function"

namespace Ty

mutual

/-- A type as a term, with every part labelled. -/
def listing : Ty → String
  | .var v => "Variable(TypeVar(" ++ toString v.index ++ "))"
  | .defined n ts =>
    "Defined(" ++ TypeCtor.listing ⟨n, ts.length⟩ ++ ", [" ++ commas (listingList ts) ++ "])"
  | .tuple ts => "Tuple([" ++ commas (listingList ts) ++ "])"
  | .higherOrder k ts =>
    group "HigherOrder"
      ("pred_or_func: " ++ k.listing ++ ", args: [" ++ commas (listingList ts) ++ "]")

/-- Types as terms, one text each. -/
def listingList : List Ty → List String
  | [] => []
  | t :: ts => listing t :: listingList ts

end

end Ty

/-- What is wrong, for the reader of a message. -/
def MatchError.message : MatchError → String
  | .mismatch t u => "type mismatch between " ++ t.listing ++ " and " ++ u.listing
  | .lengths m n =>
    "type lists differ in length (" ++ toString m ++ " vs " ++ toString n ++ ")"

end Clausal
