import Clausal.Module.Declaring

/-!
# Modules about actions and parallel goals

Programs with foreign procedures that do I/O, and with conjunctions that
profiling has found worth running in parallel.
-/

namespace Clausal.Sample

open Declaring

/-- A foreign procedure that does I/O. -/
def action (d : PredDecl) (ioTabling : Option IoTabling) (code : String) : Declaring ProcRef := do
  let d := { d with args := d.args ++ [.input "IO0" .ioState, .output "IO" .ioState] }
  pred d (return (← get).foreignBody d ioTabling false code .pure (← line 1))

/-- Actions that say different things about being tabled.

    ```
    :- pred write_int(int::in, io::di, io::uo) is det.           tabled_for_io
    :- pred read_line(string::out, io::di, io::uo) is det.       tabled_for_io_unitize, exported
    :- pred flush(io::di, io::uo) is det.                        not_tabled_for_io
    :- pred log_child(io::di, io::uo) is det.                    tabled_for_descendant_io
    :- pred write_char(int::in, io::di, io::uo) is det.          tabled_for_io, no_inline
    :- pred unmarked(io::di, io::uo) is det.                     says nothing
    main(IO0, IO) :- write_int(42, IO0, IO).
    ``` -/
def ioTabling : Declaring Unit := do
  let writeInt ← action { name := "write_int", args := [.input "V" .int] } (some .tabled)
    "printf(\"%ld\", (long) V); IO = IO0;"
  let _ ← action { name := "read_line", args := [.output "V" .string], status := .exported }
    (some .unitize) "V = MR_read_line(); IO = IO0;"
  let _ ← action { name := "flush" } (some .notTabled) "fflush(stdout); IO = IO0;"
  let _ ← action { name := "log_child" } (some .descendant) "MR_log_child(); IO = IO0;"
  let _ ← action { name := "write_char", args := [.input "V" .int], markers := [.noInline] }
    (some .tabled) "putchar((int) V); IO = IO0;"
  let _ ← action { name := "unmarked" } none "IO = IO0;"
  let _ ← pred
    { name := "main"
      args := [.input "IO0" .ioState, .output "IO" .ioState]
      locals := [.named "N" .int] } do
    let c ← line 9
    let (io₀, io, n) : ProgVar × ProgVar × ProgVar := (⟨0⟩, ⟨1⟩, ⟨2⟩)
    return .conjoin [.intConst n 42 c, ← call writeInt [n, io₀, io] c] c

/-- Candidates for running in parallel: an explicit parallel conjunction, a
    plain one, and one that does not exist any more.

    ```
    :- pred dup(int::in, int::out, int::out).
    dup(X, Y, Z) :- Y = X & Z = X.
    :- pred split(int::in, int::out, int::out).
    split(X, Y, Z) :- Y = X, Z = X.
    ``` -/
def parallel : Declaring Unit := do
  let args : List ArgDecl := [.input "X" .int, .output "Y" .int, .output "Z" .int]
  let copies (c : Context) : List Goal := [.assign ⟨1⟩ ⟨0⟩ c, .assign ⟨2⟩ ⟨0⟩ c]
  let c ← line 2
  let dup ← pred { name := "dup", args, markers := [.parallelConjunctions] }
    (return .parallel (copies c) c)
  let split ← pred { name := "split", args } (return .conjoin (copies c) c)
  modify (·.addCandidate ⟨dup, []⟩)
  modify (·.addCandidate ⟨split, []⟩)
  modify (·.addCandidate ⟨split, [5]⟩)

end Clausal.Sample
