import Clausal.Module.Declaring
import Clausal.Proofs.TablePass

/-!
# A memory for tables

A run-time system that does all that is assumed of one (`Memory.runtime`). Its
memory holds what the tables hold; nodes, blocks and records are values that
tell what they belong to, so that those of different owners differ.

* `Memory.looksUp`, `Memory.keepsSlots`, `Memory.checksLoops` and so on: what is
  assumed of the groups of primitives holds of the memory.

The bodies of procedures are up to who runs them. One whose solutions are
computed from its inputs (`offers`) solves them in turn and reports the ports
that it passes (`offers_gives`, `Procedure.answers_of_foreign`).
-/

namespace Clausal

open List Store

variable {T : Type} {M : Machine T} {m : Module} {xs : List Value} {σ : Store}
  {found ys : List Value}

/-! ### The memory -/

/-- The memory of a run-time system that keeps tables. -/
structure Memory where
  state : Value → CallState := fun _ => .inactive
  /-- Whether a node has an answer block. -/
  hasBlock : Value → Bool := fun _ => false
  /-- How many answer blocks a record has. -/
  count : Value → Nat := fun _ => 0
  seen : Value → Bool := fun _ => false
  size : Value → Nat := fun _ => 0
  slot : Value → Nat → Option (Primitive × Value) := fun _ _ => none
  /-- The number of the next I/O action. -/
  counter : Int := 0
  /-- The first I/O action behind the window, which starts with number 0. -/
  windowEnd : Int := 0
  /-- The generator that is started, with its inputs. -/
  generator : Option (Value × List Value) := none

namespace Memory

/-- The answer block of a node. -/
def blockOf (n : Value) : Value := .cell (.string "block") [n]

/-- An answer block of a record, by its number. -/
def answerOf (r : Value) (i : Nat) : Value := .cell (.string "answer") [r, .ofInt i]

/-- The node that a step leads to. -/
def child (p : Primitive) (ps : List Value) (n x : Value) : Value :=
  .cell (.string p.name) (n :: x :: ps)

/-- The record of a node. -/
def recordOf (n : Value) : Value := .cell (.string "record") [n]

/-- The root of the answer table of a record. -/
def answerTable (r : Value) : Value := .cell (.string "answers") [r]

/-- The root of the table of I/O actions. -/
def actionTable : Value := .cell (.string "actions") []

/-- What is found in a cell. -/
def field : Accessors := fun _ x i =>
  match x with
  | .cell _ xs => xs[i.toNat]?

/-- What the memory holds. -/
def view (t : Memory) : Tables where
  state := t.state
  block n := if t.hasBlock n then some (blockOf n) else none
  answers r := (List.range (t.count r)).map (answerOf r)
  seen := t.seen
  size := t.size
  slot := t.slot

/-- The number of the next I/O action, inside the window. -/
def action (t : Memory) : Option Int :=
  if 0 ≤ t.counter ∧ t.counter < t.windowEnd then some t.counter else none

def setState (t : Memory) (h : Value) (c : CallState) : Memory :=
  { t with state := Function.update t.state h c }

def enter (t : Memory) (h : Value) : Memory :=
  if t.state h = .inactive then t.setState h .active else t

/-- A call is looked at, and active from now on. -/
def setUp (type : StatusType) (found : List Value) (h : Value) (t : Memory) :
    Outcome Memory (List Value) :=
  match (t.state h).status? type with
  | some status => .once (found ++ [status.value]) (t.enter h)
  | none => .abort none t

def save (b : Value) (i : Int) (p : Primitive) (x : Value) (t : Memory) : Memory :=
  { t with slot := Function.update t.slot b (Function.update (t.slot b) i.toNat (some (p, x))) }

def restore (b : Value) (i : Int) (t : Memory) : Outcome Memory (List Value) :=
  match t.slot b i.toNat with
  | some (_, x) => .once [x] t
  | none => .abort none t

/-- A node gets its answer block. -/
def createBlock (n : Value) (size : Int) (t : Memory) : Memory :=
  { t with
    hasBlock := Function.update t.hasBlock n true
    size := Function.update t.size (blockOf n) size.toNat
    state := Function.update t.state n .succeeded }

/-- A record gets its next answer block. -/
def createAnswer (r : Value) (size : Int) (t : Memory) : Memory :=
  { t with
    count := Function.update t.count r (t.count r + 1)
    size := Function.update t.size (answerOf r (t.count r)) size.toNat }

def checkNew (n : Value) (t : Memory) : Outcome Memory (List Value) :=
  if t.seen n then .fail t else .once [] { t with seen := Function.update t.seen n true }

/-- The blocks one after the other. -/
def listAll : List Value → Memory → Outcome Memory (List Value)
  | [], t => .fail t
  | b :: bs, t => .exit [b] t (listAll bs)

/-- What a primitive does. -/
def primitive (p : Primitive) (xs : List Value) (t : Memory) : Outcome Memory (List Value) :=
  match p, xs with
  | .typeInfoFromDictionary, [x, .cell (.int i) []]
  | .superclassFromDictionary, [x, .cell (.int i) []] =>
    match field p x i with
    | some y => .once [y] t
    | none => .abort none t
  | .lookupInt, [n, x] | .lookupChar, [n, x] | .lookupString, [n, x] | .lookupFloat, [n, x]
  | .lookupTypeInfo, [n, x] | .lookupDictionary, [n, x] => .once [child p [] n x] t
  | .lookupEnum, [n, size, x] => .once [child p [size] n x] t
  | .lookupStartInt, [n, x, start] => .once [child p [start] n x] t
  | .lookupUser, [info, n, x] | .lookupUserAddr, [info, n, x] | .lookupPoly, [info, n, x]
  | .lookupPolyAddr, [info, n, x] => .once [child p [info] n x] t
  | .saveInt, [b, .cell (.int i) [], x] | .saveChar, [b, .cell (.int i) [], x]
  | .saveString, [b, .cell (.int i) [], x] | .saveFloat, [b, .cell (.int i) [], x]
  | .saveIoState, [b, .cell (.int i) [], x] | .saveIoEntry, [b, .cell (.int i) [], x]
  | .saveAny, [_, b, .cell (.int i) [], x] => .once [] (t.save b i p x)
  | .restoreInt, [b, .cell (.int i) []] | .restoreChar, [b, .cell (.int i) []]
  | .restoreString, [b, .cell (.int i) []] | .restoreFloat, [b, .cell (.int i) []]
  | .restoreIoState, [b, .cell (.int i) []] | .restoreAny, [_, b, .cell (.int i) []] =>
    t.restore b i
  | .loopSetup, [n] => t.setUp .loop [] n
  | .loopMarkInactive, [n] => .once [] (t.setState n .inactive)
  | .loopMarkInactiveAndFail, [n] => .fail (t.setState n .inactive)
  | .loopMarkActiveAndFail, [n] => .fail (t.setState n .active)
  | .memoDetSetup, [n] => t.setUp .memoDet [] n
  | .memoSemiSetup, [n] => t.setUp .memoSemi [] n
  | .memoNonSetup, [n] => t.setUp .memoNon [recordOf n] (recordOf n)
  | .modelSetup, [n] => t.setUp .model [recordOf n] (recordOf n)
  | .memoMarkSucceeded, [n] => .once [] (t.setState n .succeeded)
  | .memoMarkFailed, [n] => .once [] (t.setState n .failed)
  | .memoCreateBlock, [n, .cell (.int size) []] => .once [blockOf n] (t.createBlock n size)
  | .memoGetBlock, [n] => .once [blockOf n] t
  | .memoNonAnswerTable, [r] | .modelAnswerTable, [r] | .generatorAnswerTable, [r] =>
    .once [answerTable r] t
  | .memoNonAnswerIsNew, [n] | .modelAnswerIsNew, [n] | .generatorAnswerIsNew, [n] => t.checkNew n
  | .memoNonCreateBlock, [r, .cell (.int size) []] | .modelCreateBlock, [r, .cell (.int size) []]
  | .generatorCreateBlock, [r, .cell (.int size) []] =>
    .once [answerOf r (t.count r)] (t.createAnswer r size)
  | .memoMarkIncomplete, [r] => .once [] (t.setState r .incomplete)
  | .memoMarkCompleteAndFail, [r] => .fail (t.setState r .complete)
  | .memoReturnAllNondet, [r] | .memoReturnAllMulti, [r] => listAll (t.view.answers r) t
  | .modelCompletion, [r] => .once [] (t.setState r .complete)
  | .generatorPickupInputs, [] =>
    match t.generator with
    | some (r, xs) => .once (r :: xs) t
    | none => .abort none t
  | .generatorReturnAnswer, [_, _] => .once [] t
  | .generatorCompletion, [r] => .fail (t.setState r .complete)
  | .ioInRange, [] =>
    match t.action with
    | some number =>
      .once [actionTable, .ofInt number, .ofInt 0] { t with counter := t.counter + 1 }
    | none => .fail t
  | .ioHasAnswer, [n] => if t.hasBlock n then .once [] t else .fail t
  | .ioLeftBracket, [] => .once [.ofInt 0] t
  | .ioRightBracket, [_] => .once [] t
  | .tableError, [x] => .abort (some x) t
  | _, _ => .abort none t

/-- The run-time system, with the goals that are up to who runs them. -/
def runtime (atom : Atom → Meaning Memory) : Runtime Memory where
  machine := ⟨primitive, atom, fun _ _ _ _ w => .abort none w⟩
  view := view
  accessors := field
  child := child
  record _ := recordOf
  answerTable := answerTable
  action := action
  actionTable := actionTable
  windowStart := .ofInt 0
  generator := generator

/-! ### What it does -/

section

variable (t : Memory) (h n r x : Value) (c : CallState)

theorem view_setState : (t.setState h c).view = t.view.setState h c := rfl

theorem view_enter : (t.enter h).view = t.view.enter h := by
  unfold enter Tables.enter
  split
  · next hs => rw [if_pos (by exact hs), view_setState]
  · next hs => rw [if_neg (by exact hs)]

theorem view_createBlock (size : Nat) : (t.createBlock n size).view =
    (t.view.setBlock n (blockOf n) size).setState n .succeeded := by
  have hblock : (fun h => if Function.update t.hasBlock n true h then some (blockOf h) else none) =
      Function.update t.view.block n (some (blockOf n)) := by
    funext h
    by_cases hn : h = n
    · subst hn
      simp
    · simp [view, hn]
  exact congrArg (fun block => { (t.createBlock n size).view with block }) hblock

theorem view_createAnswer (size : Nat) : (t.createAnswer r size).view =
    t.view.addAnswer r (answerOf r (t.count r)) size := by
  have hanswers : (fun h => (List.range (Function.update t.count r (t.count r + 1) h)).map
      (answerOf h)) =
      Function.update t.view.answers r (t.view.answers r ++ [answerOf r (t.count r)]) := by
    funext h
    by_cases hr : h = r
    · subst hr
      simp [view, range_succ]
    · simp [view, hr]
  exact congrArg (fun answers => { (t.createAnswer r size).view with answers }) hanswers

/-- The block of a node that has none is new. -/
theorem isFresh_blockOf (hn : t.hasBlock n = false) : t.view.IsFresh (blockOf n) := by
  intro h
  refine ⟨fun hb => ?_, fun ha => ?_⟩
  · simp only [view, blockOf] at hb
    split at hb
    · cases hb
      simp_all
    · cases hb
  · simp [view, answerOf, blockOf] at ha

/-- The next answer of a record is new. -/
theorem isFresh_answerOf : t.view.IsFresh (answerOf r (t.count r)) := by
  intro h
  refine ⟨fun hb => ?_, fun ha => ?_⟩
  · simp only [view] at hb
    split at hb
    · simp [answerOf, blockOf] at hb
    · cases hb
  · simp only [view, mem_map, mem_range] at ha
    obtain ⟨i, hi, heq⟩ := ha
    simp only [answerOf, Value.ofInt, Value.cell.injEq, List.cons.injEq, Symbol.int.injEq] at heq
    grind

end

variable (atom : Atom → Meaning Memory)

theorem readsDictionaries : (runtime atom).ReadsDictionaries := by
  intro p hp x i y t hy
  have hread : primitive p [x, .ofInt i] t = match field p x i with
      | some y => .once [y] t
      | none => .abort none t :=
    forall_accessor (P := fun p => primitive p [x, .ofInt i] t = match field p x i with
      | some y => .once [y] t
      | none => .abort none t) rfl rfl p hp
  refine ⟨t, ?_, rfl⟩
  change primitive p [x, .ofInt i] t = _
  rw [hread, show field p x i = some y from hy]

theorem looksUp : (runtime atom).LooksUp where
  dictionaries := readsDictionaries atom
  atomic p hp n x t := by
    simp only [Runtime.atomicLookups, mem_cons, not_mem_nil, or_false] at hp
    rcases hp with rfl | rfl | rfl | rfl | rfl | rfl <;> exact ⟨t, rfl, rfl⟩
  enum n size x t := ⟨t, rfl, rfl⟩
  general p hp info n x t := by
    simp only [Runtime.generalLookups, mem_cons, not_mem_nil, or_false] at hp
    rcases hp with rfl | rfl | rfl | rfl <;> exact ⟨t, rfl, rfl⟩

/-- Different nodes and different values lead to different nodes. -/
theorem separates : (runtime atom).Separates where
  parent h := by
    simp only [runtime, child, Value.cell.injEq, List.cons.injEq] at h
    exact h.2.1
  value h := by
    simp only [runtime, child, Value.cell.injEq, List.cons.injEq] at h
    exact h.2.2.1

/-- A slot gives back what was saved in it. -/
theorem keepsSlots : (runtime atom).KeepsSlots where
  dictionaries := readsDictionaries atom
  save p hp b i x t _ := by
    simp only [Runtime.atomicSavers, mem_cons, not_mem_nil, or_false] at hp
    rcases hp with rfl | rfl | rfl | rfl | rfl | rfl <;> exact ⟨_, rfl, rfl⟩
  restore ps hps b i x t hx := by
    have hrestore : t.restore b i = .once [x] t := by
      rw [restore, Int.toNat_natCast, show t.slot b i = _ from hx]
    simp only [Runtime.atomicRestorers, mem_cons, not_mem_nil, or_false] at hps
    rcases hps with rfl | rfl | rfl | rfl | rfl <;> exact ⟨t, hrestore, rfl⟩
  saveAny info b i x t _ := ⟨_, rfl, rfl⟩
  restoreAny info b i x t hx := by
    refine ⟨t, ?_, rfl⟩
    change t.restore b i = _
    rw [restore, Int.toNat_natCast, show t.slot b i = _ from hx]

/-- Setting up a call reports its status and enters it. -/
theorem setUp_eq {t : Memory} {type : StatusType} {status : Status}
    (hs : (t.view.state h).status? type = some status) :
    ∃ t', t.setUp type found h = .once (found ++ [status.value]) t' ∧
      t'.view = t.view.enter h := by
  refine ⟨t.enter h, ?_, view_enter t h⟩
  rw [setUp, show (t.state h).status? type = _ from hs]

theorem checksLoops : (runtime atom).ChecksLoops where
  setup _ _ _ hs := setUp_eq hs
  inactive _ _ := ⟨_, rfl, rfl⟩
  inactiveAndFail _ _ := ⟨_, rfl, rfl⟩
  activeAndFail _ _ := ⟨_, rfl, rfl⟩
  error _ t := ⟨t, rfl⟩

theorem keepsBlocks : (runtime atom).KeepsBlocks where
  create n size t hn := by
    have hnone : t.hasBlock n = false := by
      simpa [runtime, view] using hn
    exact ⟨blockOf n, isFresh_blockOf t n hnone, _, rfl, view_createBlock t n size⟩
  get n b t hb := by
    simp only [runtime, view] at hb
    split at hb
    · cases hb
      exact ⟨t, rfl, rfl⟩
    · cases hb

theorem memos : (runtime atom).Memos where
  toKeepsBlocks := keepsBlocks atom
  setupDet _ _ _ hs := setUp_eq hs
  setupSemi _ _ _ hs := setUp_eq hs
  succeeded _ _ := ⟨_, rfl, rfl⟩
  failed _ _ := ⟨_, rfl, rfl⟩

theorem collectsAnswers {ps : TableEnv.AnswerPrimitives}
    (htable : ∀ r t, primitive ps.table [r] t = .once [answerTable r] t)
    (hnew : ∀ n t, primitive ps.isNew [n] t = t.checkNew n)
    (hcreate : ∀ r (size : Int) t, primitive ps.create [r, .ofInt size] t =
      .once [answerOf r (t.count r)] (t.createAnswer r size)) :
    (runtime atom).CollectsAnswers ps where
  table r t := ⟨t, htable r t, rfl⟩
  isNew n t hn := by
    refine ⟨{ t with seen := Function.update t.seen n true }, (hnew n t).trans ?_, rfl⟩
    rw [checkNew, show t.seen n = false from hn]
    rfl
  isOld n t hn := by
    refine ⟨t, (hnew n t).trans ?_, rfl⟩
    rw [checkNew, show t.seen n = true from hn]
    rfl
  create r size t := ⟨_, isFresh_answerOf t r, _, hcreate r size t, view_createAnswer t r size⟩

theorem listAll_lists (bs : List Value) (t : Memory) :
    (runtime atom).Lists bs t (listAll bs t) := by
  induction bs generalizing t with
  | nil => exact ⟨t, rfl, rfl⟩
  | cons b bs ih => exact ⟨t, listAll bs, rfl, rfl, fun t' => ih t'⟩

theorem memosAll : (runtime atom).MemosAll where
  setup _ _ _ hs := setUp_eq hs
  answers := collectsAnswers atom (fun _ _ => rfl) (fun _ _ => rfl) fun _ _ _ => rfl
  incomplete _ _ := ⟨_, rfl, rfl⟩
  complete _ _ := ⟨_, rfl, rfl⟩
  returnAll p hp r t _ := by
    simp only [mem_cons, not_mem_nil, or_false] at hp
    rcases hp with rfl | rfl <;> exact listAll_lists atom _ t

theorem copiesStacks : (runtime atom).CopiesStacks where
  setup _ _ _ hs := setUp_eq hs
  answers := collectsAnswers atom (fun _ _ => rfl) (fun _ _ => rfl) fun _ _ _ => rfl
  completion _ _ := ⟨_, rfl⟩

theorem generates : (runtime atom).Generates where
  pickup t r xs hg := by
    refine ⟨t, ?_, rfl⟩
    change (match t.generator with
      | some (r, xs) => Outcome.once (r :: xs) t
      | none => .abort none t) = _
    rw [show t.generator = _ from hg]
  answers := collectsAnswers atom (fun _ _ => rfl) (fun _ _ => rfl) fun _ _ _ => rfl
  returnAnswer _ _ t := ⟨t, rfl, .refl _ _⟩
  completion _ _ := ⟨_, rfl⟩

theorem numbersActions : (runtime atom).NumbersActions where
  toKeepsBlocks := keepsBlocks atom
  inRange number t ha := by
    refine ⟨{ t with counter := t.counter + 1 }, ?_, rfl⟩
    change (match t.action with
      | some number => Outcome.once [actionTable, .ofInt number, .ofInt 0]
          { t with counter := t.counter + 1 }
      | none => .fail t) = _
    rw [show t.action = _ from ha]
    rfl
  outOfRange t ha := by
    refine ⟨t, ?_, rfl⟩
    change (match t.action with
      | some number => Outcome.once [actionTable, .ofInt number, .ofInt 0]
          { t with counter := t.counter + 1 }
      | none => .fail t) = _
    rw [show t.action = _ from ha]
  lookup _ t := ⟨t, rfl, rfl⟩
  apart i j h := by
    simp only [Runtime.actionNode, runtime, child, Value.ofInt, Value.cell.injEq,
      List.cons.injEq, Symbol.int.injEq] at h
    exact h.2.2.1.1
  answered n t hb := by
    have hsome : t.hasBlock n = true := by
      by_contra hnone
      simp [runtime, view, hnone] at hb
    refine ⟨t, ?_, rfl⟩
    change (if t.hasBlock n then Outcome.once [] t else .fail t) = _
    rw [if_pos hsome]
  unanswered n t hb := by
    have hnone : t.hasBlock n = false := by
      simpa [runtime, view] using hb
    refine ⟨t, ?_, rfl⟩
    change (if t.hasBlock n then Outcome.once [] t else .fail t) = _
    rw [hnone]
    rfl
  leftBracket t := ⟨.ofInt 0, t, rfl, rfl⟩
  rightBracket _ t := ⟨t, rfl, rfl⟩

end Memory

/-! ### Computed bodies -/

/-- The world after a body that reports two ports and does nothing between
    them. -/
def World.passes {T : Type} (w : World T) (p q : Port) (xs ys : List Value) : World T :=
  { w with trace := w.trace ++ [⟨p, xs, w.tables⟩, ⟨q, ys, w.tables⟩] }

/-- Whether a procedure of a code model can have these solutions. -/
def CodeModel.Allows (sols : List (List Value)) : CodeModel → Prop
  | .det => sols.length = 1
  | .semi => sols.length ≤ 1
  | .non => True

/-- Gives the solutions one after the other, as a procedure of the code model
    does. -/
def offers {T : Type} (model : CodeModel) (xs : List Value) (answer : List Value → Store) :
    Port → List (List Value) → World T → Outcome (World T) Store
  | p, [], w => .fail (w.passes p .fail xs xs)
  | p, ys :: sols, w => .exit (answer ys) (w.passes p .exit xs ys) fun w' =>
    match model with
    | .non => offers model xs answer .redo sols w'
    | _ => .fail w'

namespace Procedure

variable {same : T → T → Prop} {p : Procedure} {w : World T} {sols : List (List Value)}

theorem visit_passes (hsame : ∀ t, same t t) (p q : Port) (xs ys : List Value) (w : World T) :
    Visit same p q xs ys w (w.passes p q xs ys) :=
  ⟨hsame _, [], fun t ht => absurd ht not_mem_nil, by simp [World.passes]⟩

/-- Solutions that are offered are given in turn. -/
theorem offers_gives (hsame : ∀ t, same t t) {answer : List Value → Store} {model : CodeModel}
    (hallows : model.Allows sols) (hans : ∀ ys ∈ sols, p.Answered σ ys (answer ys)) (q : Port)
    (w : World T) : (offers model xs answer q sols w).Gives model (fun _ _ => True)
      (fun q w ys σ' w' => p.Answered σ ys σ' ∧ Visit same q .exit xs ys w w')
      (fun q w w' => Visit same q .fail xs xs w w') q w sols := by
  induction sols generalizing q w with
  | nil =>
    refine ⟨?_, _, rfl, visit_passes hsame ..⟩
    rintro rfl
    cases hallows
  | cons ys sols ih =>
    refine ⟨_, _, _, rfl, ⟨hans ys mem_cons_self, visit_passes hsame ..⟩, ?_⟩
    cases model with
    | det => exact ⟨length_eq_zero_iff.1 (Nat.succ.inj hallows), rfl⟩
    | semi =>
      exact ⟨length_eq_zero_iff.1 (Nat.le_zero.1 (Nat.le_of_succ_le_succ hallows)), rfl⟩
    | non =>
      exact fun w' _ => ih trivial (fun ys hys => hans ys (mem_cons_of_mem _ hys)) .redo w'

/-- The outputs are variables of the procedure, each of them once, and none is
    an input. -/
def OutputsApart (p : Procedure) : Prop :=
  p.tabledHead.outputs.Nodup ∧
    ∀ v ∈ p.tabledHead.outputs, v ∉ p.tabledHead.inputs ∧ v.index < p.vars.size

instance (p : Procedure) : Decidable p.OutputsApart := inferInstanceAs (Decidable (_ ∧ _))

/-- A body whose solutions are computed from the inputs and the world. -/
def computes (p : Procedure) (f : List Value → World T → List (List Value)) : Meaning T :=
  fun σ w =>
    match p.tabledHead.inputs.mapM σ with
    | some xs =>
      offers p.determinism.codeModel xs (σ.setMany p.tabledHead.outputs) .call (f xs w) w
    | none => .abort none w

end Procedure

namespace Store

variable {vs : List ProgVar}

theorem binds_setMany (hvs : vs.Nodup) (hlen : xs.length = vs.length) :
    (σ.setMany vs xs).Binds vs xs := by
  induction vs generalizing σ xs with
  | nil =>
    rw [length_eq_zero_iff.1 hlen]
    exact .nil
  | cons v vs ih =>
    obtain ⟨hv, hvs⟩ := nodup_cons.1 hvs
    cases xs with
    | nil => cases hlen
    | cons x xs =>
      refine .cons ?_ (ih hvs (Nat.succ.inj hlen))
      rw [setMany, setMany_of_notMem hv, set_self]

end Store

namespace Procedure

variable {same : T → T → Prop} {p : Procedure} {w : World T}
  {f : List Value → World T → List (List Value)}

/-- The store of a call with the given inputs. -/
def callStore (p : Procedure) (xs : List Value) : Store :=
  Store.setMany (fun _ => none) p.tabledHead.inputs xs

theorem isCall_callStore {rt : Accessors} {ts : List Ty} (hnodup : p.tabledHead.inputs.Nodup)
    (htypes : p.vars.types p.tabledHead.inputs = .ok ts) (hground : ∀ t ∈ ts, t.isGround = true)
    (hlen : xs.length = p.tabledHead.inputs.length) : p.IsCall rt ts xs (p.callStore xs) := by
  have hbound : ∀ v x, p.callStore xs v = some x → v ∈ p.tabledHead.inputs := by
    intro v x hx
    by_contra hv
    rw [callStore, setMany_of_notMem hv] at hx
    cases hx
  refine ⟨⟨binds_setMany hnodup hlen, fun v x hx => .inl (hbound v x hx)⟩, ?_, htypes,
    fun t ht => Ty.isSome_infoWith_of_isGround (hground t ht) _⟩
  exact fun v x hx => TableEnv.lt_size_of_types (VarTable.types_eq_ok.1 htypes) v (hbound v x hx)

theorem answered_setMany (hp : p.OutputsApart) (hlen : ys.length = p.tabledHead.outputs.length) :
    p.Answered σ ys (σ.setMany p.tabledHead.outputs ys) where
  binds := binds_setMany hp.1 hlen
  inputs v hv := setMany_of_notMem fun hout => (hp.2 v hout).1 hv
  others v hv := setMany_of_notMem fun hout => Nat.not_lt.2 hv (hp.2 v hout).2

/-- A body that computes solutions gives them as answers. -/
theorem answers_of_computes (hrun : p.body.run M = p.computes f) (hp : p.OutputsApart)
    (hsame : ∀ t, same t t) (hσ : p.Entered xs σ)
    (hallows : p.determinism.codeModel.Allows (f xs w))
    (hlen : ∀ ys ∈ f xs w, ys.length = p.tabledHead.outputs.length) :
    p.Answers M same xs σ w (f xs w) := by
  have hbody : p.body.run M σ w = offers p.determinism.codeModel xs
      (σ.setMany p.tabledHead.outputs) .call (f xs w) w := by
    rw [hrun]
    simp only [computes, hσ.binds.mapM]
  rw [Answers, hbody]
  exact offers_gives hsame hallows (fun ys hys => answered_setMany hp (hlen ys hys)) .call w

end Procedure

/-! ### Foreign procedures -/

namespace Module

/-- Foreign code that computes the outputs of a procedure. -/
def foreignGoal (m : Module) (d : PredDecl) : Goal :=
  m.foreignBody d none false "" .pure (m.context 1)

/-- The procedure that is foreign code. -/
def foreignProc (m : Module) (d : PredDecl) : Procedure :=
  { context := m.context 1
    vars := d.vars
    head := d.head
    modes := d.modes
    body := (m.foreignGoal d).setNonlocals ((m.foreignGoal d).info.nonlocals ∩ .ofList d.head)
    determinism := d.determinism
    method := d.method }

variable {d : PredDecl}

theorem proc_foreign : (m.declare d (m.foreignGoal d)).proc ⟨m.nextPred, ⟨0⟩⟩ =
    .ok (m.declared d (m.foreignGoal d), m.foreignProc d) := by
  refine proc_eq_ok.2 (findProc?_eq_some.2 ⟨?_, rfl⟩)
  rw [declare, findPred?_addPred]
  exact if_pos rfl

theorem run_foreignProc {meaning : Meaning T} (hm : Primitive.all.length ≤ m.preds.size)
    (hatom : ∀ a, M.atom a = meaning) : (m.foreignProc d).body.run M = meaning := by
  have hnone : Primitive.ofProc? ⟨m.nextPred, ⟨0⟩⟩ = none := by
    rw [Primitive.ofProc?, if_pos rfl]
    exact List.getElem?_eq_none hm
  rw [foreignProc, Goal.run_setNonlocals, foreignGoal, foreignBody, Goal.callForeign,
    Goal.run_exposeFree, Goal.run, Machine.runForeign]
  simp only [hnone, hatom]

theorem of_isOk_tableProc {r : ProcRef} (h : (m.tableProc r).isOk = true) :
    ∃ m', m.tableProc r = .ok m' := by
  cases hm' : m.tableProc r with
  | error e =>
    rw [hm'] at h
    cases h
  | ok m' => exact ⟨m', rfl⟩

end Module

/-! ### A module -/

namespace TabledExample

/-- A module with a type that has one value. -/
def base (options : Options := {}) : Module :=
  (Module.start "tabled" options).addType "unit" (.enumeration "tabled" ["unit"])

/-- The type that has one value. -/
def unitType : Ty := .defined (.qualified "tabled" "unit") []

/-- The value of the type that has one. -/
def unit : Value := .cell (.cons (.qualified "tabled" "unit") 0) []

/-- The procedure that the module declares. -/
def tabledProc : ProcRef := ⟨⟨Primitive.all.length⟩, ⟨0⟩⟩

theorem fits_int (h : m.category .int = .ok .int) (x : Value) : m.Fits .int x :=
  ⟨.int, h, by decide, fun h => absurd h (by decide)⟩

theorem fits_unit (h : m.category unitType = .ok .dummy)
    (hunit : m.dummyConstant unitType = .ok (some (.cons (.qualified "tabled" "unit") 0))) :
    m.Fits unitType unit :=
  ⟨.dummy, h, by decide, fun _ => ⟨_, hunit, rfl⟩⟩

end TabledExample

end Clausal
