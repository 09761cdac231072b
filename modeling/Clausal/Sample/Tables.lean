import Clausal.Module.Declaring

/-!
# Modules about tables

Programs with a predicate for each way of tabling, and with arguments that are
looked up in different ways.
-/

namespace Clausal.Sample

open Declaring

/-- An imported operation on integers. -/
def intOperation (name : String) (determinism : Determinism) (outputs : List ArgDecl) :
    Declaring ProcRef :=
  pred
    { name
      home := some "int"
      status := .imported
      determinism
      args := [.input "A" .int, .input "B" .int] ++ outputs }
    (return .success (← line 1))

/-- One tabled predicate for each way of evaluation.

    ```
    :- pragma loop_check(walk/1).      walk(N) :- ( N > 0 -> walk(N - 1) ; true ).
    :- pragma loop_check(check/1).     check(N) :- N > 0.
    :- pragma loop_check(explore/2).   explore(N, M) :- ( M = N ; explore(N - 1, M) ).
    :- pragma memo(fib/2).             fib(N, F) :- ( N > 1 -> ... ; F = N ).
    :- pragma memo(is_small/1).        is_small(N) :- 10 > N.
    :- pragma memo(choose/2).          choose(N, M) :- ( M = N ; M = N - 1 ).
    :- pragma memo(size/2).            size(_, 1).
    :- pragma minimal_model(path/2).   path(X, Y) :- edge(X, Y) ; edge(X, Z), path(Z, Y).
    :- pragma minimal_model(reach/2).  (own stacks) the same as path
    ``` -/
def tabling : Declaring Unit := do
  let gt ← intOperation ">" .semidet []
  let minus ← intOperation "-" .det [.output "C" .int]
  let plus ← intOperation "+" .det [.output "C" .int]
  let ints (names : List String) : List VarEntry := names.map (.named · .int)
  let _ ← recPred
    { name := "walk"
      args := [.input "N" .int]
      locals := ints ["Zero", "One", "M"]
      method := .loopCheck .allStrict } fun self => do
    let c ← line 1
    let (n, zero, one, m) : ProgVar × ProgVar × ProgVar × ProgVar := (⟨0⟩, ⟨1⟩, ⟨2⟩, ⟨3⟩)
    return .ifThenElse
      (.conjoin [.intConst zero 0 c, ← call gt [n, zero] c] c)
      (.conjoin [.intConst one 1 c, ← call minus [n, one, m] c, self [m] c] c)
      (.success c) c
  let _ ← pred
    { name := "check"
      args := [.input "N" .int]
      locals := ints ["Zero"]
      determinism := .semidet
      method := .loopCheck .allStrict } do
    let c ← line 2
    let (n, zero) : ProgVar × ProgVar := (⟨0⟩, ⟨1⟩)
    return .conjoin [.intConst zero 0 c, ← call gt [n, zero] c] c
  let _ ← recPred
    { name := "explore"
      args := [.input "N" .int, .output "M" .int]
      locals := ints ["One", "N1"]
      determinism := .nondet
      method := .loopCheck .allStrict } fun self => do
    let c ← line 3
    let (n, m, one, n₁) : ProgVar × ProgVar × ProgVar × ProgVar := (⟨0⟩, ⟨1⟩, ⟨2⟩, ⟨3⟩)
    return .disjoin
      [.assign m n c,
       .conjoin [.intConst one 1 c, ← call minus [n, one, n₁] c, self [n₁, m] c] c] c
  let _ ← recPred
    { name := "fib"
      args := [.input "N" .int, .output "F" .int]
      locals := ints ["One", "Two", "N1", "N2", "F1", "F2"]
      method := .memo .allStrict } fun self => do
    let c ← line 4
    let (n, f, one, two) : ProgVar × ProgVar × ProgVar × ProgVar := (⟨0⟩, ⟨1⟩, ⟨2⟩, ⟨3⟩)
    let (n₁, n₂, f₁, f₂) : ProgVar × ProgVar × ProgVar × ProgVar := (⟨4⟩, ⟨5⟩, ⟨6⟩, ⟨7⟩)
    return .ifThenElse
      (.conjoin [.intConst one 1 c, ← call gt [n, one] c] c)
      (.conjoin
        [← call minus [n, one, n₁] c,
         .intConst two 2 c,
         ← call minus [n, two, n₂] c,
         self [n₁, f₁] c,
         self [n₂, f₂] c,
         ← call plus [f₁, f₂, f] c] c)
      (.assign f n c) c
  let _ ← pred
    { name := "is_small"
      args := [.input "N" .int]
      locals := ints ["Ten"]
      determinism := .semidet
      method := .memo .allStrict } do
    let c ← line 5
    let (n, ten) : ProgVar × ProgVar := (⟨0⟩, ⟨1⟩)
    return .conjoin [.intConst ten 10 c, ← call gt [ten, n] c] c
  let _ ← pred
    { name := "choose"
      args := [.input "N" .int, .output "M" .int]
      locals := ints ["One"]
      determinism := .nondet
      method := .memo .allStrict } do
    let c ← line 6
    let (n, m, one) : ProgVar × ProgVar × ProgVar := (⟨0⟩, ⟨1⟩, ⟨2⟩)
    return .disjoin
      [.assign m n c, .conjoin [.intConst one 1 c, ← call minus [n, one, m] c] c] c
  let _ ← pred
    { name := "size"
      scope := .ofNames ["T"]
      args := [.input "X" (.var ⟨0⟩), .output "N" .int]
      method := .memo .allStrict }
    (return .intConst ⟨1⟩ 1 (← line 7))
  let edge ← pred
    { name := "edge"
      args := [.input "X" .int, .output "Y" .int]
      status := .imported
      determinism := .nondet }
    (return .success (← line 8))
  let models : List (String × ModelMethod) := [("path", .stackCopy), ("reach", .ownStacks)]
  for (name, method) in models do
    let _ ← recPred
      { name
        args := [.input "X" .int, .output "Y" .int]
        locals := ints ["Z"]
        determinism := .nondet
        method := .minimalModel method .allStrict } fun self => do
      let c ← line 9
      let (x, y, z) : ProgVar × ProgVar × ProgVar := (⟨0⟩, ⟨1⟩, ⟨2⟩)
      return .disjoin
        [← call edge [x, y] c, .conjoin [← call edge [x, z] c, self [z, y] c] c] c

/-- Arguments that are looked up in different ways, one of them of an
    equivalence type, for which there is a unification predicate too.

    ```
    :- type count == int.
    :- pragma memo(pick/3, [promise_implied, addr]).
    pick(Key, Pair, Out) :- Out = 0.
    :- pragma memo(tally/2, fast_loose).
    tally(C, N) :- N = C.
    use_pick(Out) :- Pair = {1, 2}, pick("key", Pair, Out).
    ``` -/
def tableStrictness : Declaring Unit := do
  let count ← type "count" { body := .equivalence .int }
  let countCtor : TypeCtor := ⟨(← get).qualify "count", 0⟩
  let pairOf : Ty := .tuple [.int, .int]
  let pick ← pred
    { name := "pick"
      args := [.input "Key" .string, .input "Pair" pairOf, .output "Out" .int]
      method := .memo (.specified [.implied, .addr]) }
    (return .intConst ⟨2⟩ 0 (← line 2))
  let _ ← pred
    { name := "tally"
      args := [.input "C" count, .output "N" .int]
      method := .memo .allFastLoose }
    (return .assign ⟨1⟩ ⟨0⟩ (← line 4))
  let _ ← pred
    { name := "use_pick"
      args := [.output "Out" .int]
      locals :=
        [.named "One" .int, .named "Two" .int, .named "Key" .string, .named "Pair" pairOf] } do
    let c ← line 6
    let (out, one, two) : ProgVar × ProgVar × ProgVar := (⟨0⟩, ⟨1⟩, ⟨2⟩)
    let (key, pair) : ProgVar × ProgVar := (⟨3⟩, ⟨4⟩)
    return .conjoin
      [.intConst one 1 c,
       .intConst two 2 c,
       .construct pair (.tuple 2) [one, two] c,
       .stringConst key "key" c,
       ← call pick [key, pair, out] c] c
  let _ ← pred
    { name := "__Unify__"
      args := [.input "X" count, .input "Y" count]
      origin := .unification countCtor
      determinism := .semidet }
    (return .test ⟨0⟩ ⟨1⟩ (← line 1))

end Clausal.Sample
