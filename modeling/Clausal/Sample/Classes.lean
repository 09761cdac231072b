import Clausal.Module.Declaring

/-!
# Modules about classes

Programs whose calls need dictionaries: passed on, built from instances, and
taken out of the dictionaries of subclasses.
-/

namespace Clausal.Sample

open Declaring

/-- The type of lists. -/
def listOf (t : Ty) : Ty := .named "list" "list" [t]

/-- A predicate that does nothing but constrain its arguments. Each has a type
    of its own, given by the name of a type variable. -/
def consumer (name : String) (args : List (String × String)) (universal : List Constraint)
    (n : Nat) : Declaring ProcRef :=
  pred
    { name
      scope := .ofNames (args.map Prod.snd)
      args := args.zipIdx.map fun ((arg, _), i) => .input arg (.var ⟨i⟩)
      constraints := { universal } }
    (return .success (← line n))

/-- Passing dictionaries on, and building them.

    ```
    :- instance foo(list(T)) <= foo(T).
    :- pred q(T2, T3) <= (foo(T2), bar(T3)).
    :- pred r(T4, T5) <= foo(T4).
    :- pred p(T) <= foo(T).
    p(X) :- q([X], 0), r(X, 0).
    ``` -/
def constraintForwarding : Declaring Unit := do
  let t : Ty := .var ⟨0⟩
  let foo ← typeclass "foo"
  let bar ← typeclass "bar"
  let barInt ← instanceOf bar .int
  let _ ← instanceOf foo .int
  let fooList ← instanceOf foo (listOf t) (.ofNames ["E"]) [⟨foo, [t]⟩]
  let q ← consumer "q" [("A", "T2"), ("B", "T3")] [⟨foo, [t]⟩, ⟨bar, [.var ⟨1⟩]⟩] 2
  let r ← consumer "r" [("A", "T4"), ("B", "T5")] [⟨foo, [t]⟩] 5
  let (x, nil, singleton, zero) : ProgVar × ProgVar × ProgVar × ProgVar := (⟨0⟩, ⟨1⟩, ⟨2⟩, ⟨3⟩)
  let _ ← pred
    { name := "p"
      scope := .ofNames ["T"]
      args := [.input "X" t]
      locals := [.named "Nil" (listOf t), .named "Xs" (listOf t), .named "Zero" .int]
      constraints := { universal := [⟨foo, [t]⟩] }
      proofs := .ofList [(⟨foo, [listOf t]⟩, fooList), (⟨bar, [.int]⟩, barInt)] } do
    let c ← line 9
    return .conjoin
      [.construct nil (.cons (.qualified "list" "[]") 0) [] c,
       .construct singleton (.cons (.qualified "list" "[|]") 2) [x, nil] c,
       .intConst zero 0 c,
       ← call q [singleton, zero] c,
       ← call r [x, zero] (← line 10)] c

/-- The type of lists of lists of … of integers. -/
def nestedList : (depth : Nat) → Ty
  | 0 => .int
  | n + 1 => listOf (nestedList n)

/-- Instances that build on each other, as deep as the lists are nested.

    ```
    :- instance foo(int).
    :- instance foo(list(T)) <= foo(T).
    :- pred show(T) <= foo(T).
    :- pred s(list(...(list(int)))).
    s(L) :- show(L).
    ``` -/
def instanceChain (depth : Nat) : Declaring Unit := do
  let t : Ty := .var ⟨0⟩
  let foo ← typeclass "foo"
  let fooInt ← instanceOf foo .int
  let fooList ← instanceOf foo (listOf t) (.ofNames ["T"]) [⟨foo, [t]⟩]
  let showPred ← consumer "show" [("X", "T")] [⟨foo, [t]⟩] 3
  let listProofs := (List.range depth).map fun n =>
    ((⟨foo, [nestedList (n + 1)]⟩ : Constraint), fooList)
  let _ ← pred
    { name := "s"
      args := [.input "L" (nestedList depth)]
      proofs := .ofList ((⟨foo, [.int]⟩, fooInt) :: listProofs) } do
    call showPred [⟨0⟩] (← line 6)

/-- Superclasses of superclasses.

    ```
    :- typeclass c0(T).
    :- typeclass c1(T) <= c0(T).
    ...
    :- pred need(T) <= c0(T).
    :- pred have(T) <= cN(T).
    have(X) :- need(X).
    ``` -/
def superclassChain (depth : Nat) : Declaring Unit := do
  let t : Ty := .var ⟨0⟩
  let className (n : Nat) : String := "c" ++ toString n
  let _ ← typeclass (className 0)
  for n in List.range depth do
    let _ ← typeclass (className (n + 1)) [className n]
  let m ← get
  let constraint (n : Nat) : Constraint := ⟨m.qualify (className n), [t]⟩
  let need ← consumer "need" [("X", "T")] [constraint 0] 1
  let _ ← pred
    { name := "have"
      scope := .ofNames ["T"]
      args := [.input "X" t]
      constraints := { universal := [constraint depth] }
      proofs := .ofList ((List.range depth).map fun n =>
        (constraint n, .bySuperclass (constraint (n + 1)))) } do
    call need [⟨0⟩] (← line 4)

end Clausal.Sample
