import Clausal.Module.Declaring

/-!
# Modules about hidden types and higher-order goals

Programs with existential types, closures, negation, unification at any type
and insertion into relations.
-/

namespace Clausal.Sample

open Declaring

/-- Existential types.

    ```
    :- some [T] pred mk(T::out) => show(T).
    mk(42).
    :- some [U] pred any(U::out).
    any("any").
    :- pred display(T::in) <= show(T).
    :- pred use_mk.
    use_mk :- mk(X), display(X).
    :- type box ---> some [T] box(T).
    boxing(B) :- N = 7, B = box(N).
    unboxing(B) :- B = box(_).
    ``` -/
def existential : Declaring Unit := do
  let t : Ty := .var ⟨0⟩
  let x : ProgVar := ⟨0⟩
  let showable ← typeclass "show"
  let showInt ← instanceOf showable .int
  let boxName := (← get).qualify "box"
  let box ← type "box"
    { scope := .ofNames ["T"]
      body := .union [{ name := boxName, existVars := [⟨0⟩], args := [t] }] }
  let mk ← pred
    { name := "mk"
      scope := .ofNames ["T"]
      args := [{ ArgDecl.output "X" t with bodyType := some .int }]
      existVars := [⟨0⟩]
      constraints := { existential := [⟨showable, [t]⟩] }
      proofs := .ofList [(⟨showable, [.int]⟩, showInt)] }
    (return .intConst x 42 (← line 2))
  let _ ← pred
    { name := "any"
      scope := .ofNames ["U"]
      args := [{ ArgDecl.output "X" t with bodyType := some .string }]
      existVars := [⟨0⟩] }
    (return .stringConst x "any" (← line 4))
  let display ← pred
    { name := "display"
      scope := .ofNames ["T"]
      args := [.input "X" t]
      constraints := { universal := [⟨showable, [t]⟩] } }
    (return .success (← line 6))
  let _ ← pred { name := "use_mk", scope := .ofNames ["A"], locals := [.named "X" t] } do
    let c ← line 8
    return .conjoin [← call mk [x] c, ← call display [x] c] c
  let _ ← pred
    { name := "boxing", args := [.output "B" box], locals := [.named "N" .int] } do
    let c ← line 11
    let (b, n) : ProgVar × ProgVar := (⟨0⟩, ⟨1⟩)
    return .conjoin [.intConst n 7 c, .construct b (.cons boxName 1) [n] c] c
  let _ ← pred
    { name := "unboxing"
      scope := .ofNames ["E"]
      args := [.input "B" box]
      locals := [.named "Y" t] }
    (return .deconstruct ⟨0⟩ (.cons boxName 1) [⟨1⟩] false (← line 12))

/-- Closures, unification, negation and insertion.

    ```
    :- pred id(T::in, T::out).
    id(X, X).
    :- pred apply_id(int::in, int::out).
    apply_id(A, B) :- F = id, call(F, A, B).
    :- pred same(T::in, T::in) is semidet.
    same(X, Y) :- X = Y.
    :- pred distinct(T::in, T::in) is semidet.
    distinct(X, Y) :- \+ same(X, Y).
    :- pred nonzero(int::in) is semidet.
    nonzero(N) :- some [Zero] (Zero = 0, \+ N == Zero).
    :- pred store(T::in, relation::in, relation::out).
    store(X, S0, S) :- aditi_insert(rel(X), S0, S).
    ``` -/
def higherOrder : Declaring Unit := do
  let t : Ty := .var ⟨0⟩
  let (x, y, z) : ProgVar × ProgVar × ProgVar := (⟨0⟩, ⟨1⟩, ⟨2⟩)
  let relation ← type "relation" { body := .abstract }
  let id ← pred
    { name := "id", scope := .ofNames ["T"], args := [.input "X" t, .output "Y" t] }
    (return .assign y x (← line 2))
  let _ ← pred
    { name := "apply_id"
      args := [.input "A" .int, .output "B" .int]
      locals := [.named "F" (.higherOrder .predicate [.int, .int])] } do
    let c ← line 4
    return .conjoin
      [.construct z (.closure id) [] c,
       .callGeneric (.closure z) [x, y] [.input, .output] {} c] c
  let same ← pred
    { name := "same"
      scope := .ofNames ["T"]
      args := [.input "X" t, .input "Y" t]
      determinism := .semidet }
    (return .unifyVars x y (← line 6))
  let _ ← pred
    { name := "distinct"
      scope := .ofNames ["T"]
      args := [.input "X" t, .input "Y" t]
      determinism := .semidet } do
    let c ← line 10
    return .negate (← call same [x, y] c) c
  let _ ← pred
    { name := "nonzero"
      args := [.input "N" .int]
      locals := [.named "Zero" .int]
      determinism := .semidet } do
    let c ← line 11
    return .within (.exist [y])
      (.conjoin [.intConst y 0 c, .negate (.test x y c) c] c) c
  let rel ← pred
    { name := "rel", scope := .ofNames ["T"], args := [.input "X" t], markers := [.aditi] }
    (return .success (← line 8))
  let _ ← pred
    { name := "store"
      scope := .ofNames ["T"]
      args := [.input "X" t, .input "S0" relation, .output "S" relation] }
    (return .callGeneric (.insertion rel) [x, y, z] [.input, .input, .output] {} (← line 9))

end Clausal.Sample
