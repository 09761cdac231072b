import Clausal.Proofs.Execution

/-!
# The tabling runtime

What is assumed of the run-time system that keeps the tables. Its state is
seen through what the tables hold (`Tables`): the states of calls, their answer
blocks, which answers were met before, and what was saved in the slots of the
blocks. The run-time system itself is a parameter (`Runtime`). Each group of
its primitives is known by what a primitive returns and how it changes what the
tables hold:

* `Runtime.LooksUp`, `Runtime.Separates`: the steps down a trie;
* `Runtime.KeepsSlots`: the slots of a block;
* `Runtime.ChecksLoops`, `Runtime.Memos`, `Runtime.MemosAll`,
  `Runtime.CollectsAnswers`: the primitives of the ways of tabling;
* `Runtime.NumbersActions`: those of input and output.

Goals that set something up for such a primitive have one answer, keep what is
bound and report nothing (`Runtime.Runs`).
-/

namespace Clausal

open Function

variable {b h b' x : Value}

/-! ### What tables hold -/

/-- The state that a call is in, or the record of its answers. -/
inductive CallState where
  | inactive | active | succeeded | failed | incomplete | complete
deriving DecidableEq, Repr, Inhabited

/-- What a way of tabling reports of a state, if it knows the state. -/
def CallState.status? : StatusType → CallState → Option Status
  | .loop, .inactive => some .loopInactive
  | .loop, .active => some .loopActive
  | .memoDet, .inactive => some .memoDetInactive
  | .memoDet, .active => some .memoDetActive
  | .memoDet, .succeeded => some .memoDetSucceeded
  | .memoSemi, .inactive => some .memoSemiInactive
  | .memoSemi, .active => some .memoSemiActive
  | .memoSemi, .succeeded => some .memoSemiSucceeded
  | .memoSemi, .failed => some .memoSemiFailed
  | .memoNon, .inactive => some .memoNonInactive
  | .memoNon, .active => some .memoNonActive
  | .memoNon, .complete => some .memoNonComplete
  | .memoNon, .incomplete => some .memoNonIncomplete
  | .model, .inactive => some .modelInactive
  | .model, .active => some .modelActive
  | .model, .complete => some .modelComplete
  | _, _ => none

/-- A status as a value. -/
def Status.value (s : Status) : Value := .cell s.symbol []

/-- What the tables hold. -/
structure Tables where
  /-- The state of a call, by its node or its record. -/
  state : Value → CallState
  /-- The answer block of a node. -/
  block : Value → Option Value
  /-- The answer blocks of a record, in the order in which they were made. -/
  answers : Value → List Value
  /-- Whether an answer has been met that leads to a node. -/
  seen : Value → Bool
  /-- How many slots a block has. -/
  size : Value → Nat
  /-- What was saved in a slot of a block, and by which primitive. -/
  slot : Value → Nat → Option (Primitive × Value)

namespace Tables

variable {v v' v'' : Tables} {N N' : Value → Prop}

/-- A call, or its record, gets into a state. -/
def setState (v : Tables) (h : Value) (c : CallState) : Tables :=
  { v with state := Function.update v.state h c }

/-- A call is made: if it was inactive, it is active now. -/
def enter (v : Tables) (h : Value) : Tables :=
  if v.state h = .inactive then v.setState h .active else v

/-- A node gets an answer block. -/
def setBlock (v : Tables) (h b : Value) (size : Nat) : Tables :=
  { v with block := Function.update v.block h (some b), size := Function.update v.size b size }

/-- A record gets one more answer block. -/
def addAnswer (v : Tables) (h b : Value) (size : Nat) : Tables :=
  { v with
    answers := Function.update v.answers h (v.answers h ++ [b])
    size := Function.update v.size b size }

/-- An answer is met that leads to a node. -/
def see (v : Tables) (n : Value) : Tables := { v with seen := Function.update v.seen n true }

/-- The slots of a block change. -/
def setSlots (v : Tables) (b : Value) (f : Nat → Option (Primitive × Value)) : Tables :=
  { v with slot := Function.update v.slot b f }

/-- A value is saved in a slot. -/
def setSlot (v : Tables) (b : Value) (i : Nat) (p : Primitive) (x : Value) : Tables :=
  v.setSlots b (Function.update (v.slot b) i (some (p, x)))

/-- No table has the block. -/
def IsFresh (v : Tables) (b : Value) : Prop := ∀ h, v.block h ≠ some b ∧ b ∉ v.answers h

/-- The nodes and records of a set have not been touched, nor have their
    blocks. -/
structure SameOn (N : Value → Prop) (v v' : Tables) : Prop where
  state : ∀ h, N h → v'.state h = v.state h
  block : ∀ h, N h → v'.block h = v.block h
  answers : ∀ h, N h → v'.answers h = v.answers h
  seen : ∀ h, N h → v'.seen h = v.seen h
  slots : ∀ h b, N h → v.block h = some b ∨ b ∈ v.answers h →
    v'.size b = v.size b ∧ v'.slot b = v.slot b

theorem SameOn.refl (N : Value → Prop) (v : Tables) : v.SameOn N v :=
  ⟨fun _ _ => rfl, fun _ _ => rfl, fun _ _ => rfl, fun _ _ => rfl, fun _ _ _ _ => ⟨rfl, rfl⟩⟩

theorem SameOn.trans (h : v.SameOn N v') (h' : v'.SameOn N v'') : v.SameOn N v'' where
  state n hn := (h'.state n hn).trans (h.state n hn)
  block n hn := (h'.block n hn).trans (h.block n hn)
  answers n hn := (h'.answers n hn).trans (h.answers n hn)
  seen n hn := (h'.seen n hn).trans (h.seen n hn)
  slots n b hn hb := by
    have hb' : v'.block n = some b ∨ b ∈ v'.answers n := by
      rwa [h.block n hn, h.answers n hn]
    obtain ⟨h₁, h₂⟩ := h.slots n b hn hb
    obtain ⟨h₁', h₂'⟩ := h'.slots n b hn hb'
    exact ⟨h₁'.trans h₁, h₂'.trans h₂⟩

theorem SameOn.mono (h : v.SameOn N v') (hN : ∀ k, N' k → N k) : v.SameOn N' v' where
  state k hk := h.state k (hN k hk)
  block k hk := h.block k (hN k hk)
  answers k hk := h.answers k (hN k hk)
  seen k hk := h.seen k (hN k hk)
  slots k b hk := h.slots k b (hN k hk)

theorem sameOn_setState {n : Value} (v : Tables) (c : CallState) :
    v.SameOn (· ≠ n) (v.setState n c) where
  state _ hk := update_of_ne hk ..
  block _ _ := rfl
  answers _ _ := rfl
  seen _ _ := rfl
  slots _ _ _ _ := ⟨rfl, rfl⟩

theorem sameOn_newBlock {n : Value} (h : v.IsFresh b) (size : Nat) (c : CallState)
    (f : Nat → Option (Primitive × Value)) :
    v.SameOn (· ≠ n) (((v.setBlock n b size).setState n c).setSlots b f) where
  state _ hk := update_of_ne hk ..
  block _ hk := update_of_ne hk ..
  answers _ _ := rfl
  seen _ _ := rfl
  slots k b' _ hb' := by
    have hne : b' ≠ b := by
      rintro rfl
      rcases hb' with hb' | hb'
      · exact (h k).1 hb'
      · exact (h k).2 hb'
    exact ⟨update_of_ne hne .., update_of_ne hne ..⟩

theorem enter_of_inactive (hs : v.state h = .inactive) :
    v.enter h = v.setState h .active :=
  if_pos hs

theorem enter_of_ne (hs : v.state h ≠ .inactive) : v.enter h = v := if_neg hs

@[simp] theorem state_setState_self (v : Tables) (h : Value) (c : CallState) :
    (v.setState h c).state h = c := by
  simp [setState]

@[simp] theorem slot_setSlots_self (v : Tables) (b : Value)
    (f : Nat → Option (Primitive × Value)) : (v.setSlots b f).slot b = f := by
  simp [setSlots]

theorem slot_setSlots_of_ne (h : b' ≠ b) (v : Tables) (f : Nat → Option (Primitive × Value)) :
    (v.setSlots b f).slot b' = v.slot b' :=
  update_of_ne h ..

@[simp] theorem setSlots_setSlots (v : Tables) (b : Value)
    (f g : Nat → Option (Primitive × Value)) :
    (v.setSlots b f).setSlots b g = v.setSlots b g := by
  simp [setSlots]

@[simp] theorem size_setSlots (v : Tables) (b : Value) (f : Nat → Option (Primitive × Value)) :
    (v.setSlots b f).size = v.size := rfl

theorem setSlots_eq_self (v : Tables) (b : Value) : v.setSlots b (v.slot b) = v := by
  simp [setSlots]

end Tables

/-! ### The run-time system -/

/-- A run-time system, with the names under which its tables are spoken of. -/
structure Runtime (T : Type) where
  machine : Machine T
  /-- What the tables hold. -/
  view : T → Tables
  /-- What the accessors take out of dictionaries. -/
  accessors : Accessors
  /-- Where a primitive leads to that looks a value up: it is told something of
      the type of the value, the node where it starts from, and the value. -/
  child : Primitive → List Value → Value → Value → Value
  /-- The record of a call, by the primitive that sets it up and its node. -/
  record : Primitive → Value → Value
  /-- The root of the answer table of a record. -/
  answerTable : Value → Value
  /-- The number of the next I/O action, if the window of actions has it. -/
  action : T → Option Int
  /-- The root of the table of I/O actions. -/
  actionTable : Value
  /-- Where the window of I/O actions starts. -/
  windowStart : Value
  /-- The generator that is started, and the inputs of the call that it
      answers. -/
  generator : T → Option (Value × List Value)

namespace Runtime

variable {T : Type} (R : Runtime T)

/-- A primitive succeeds once, returns `ys` and leaves the tables as in
    `v`. -/
def Does (p : Primitive) (xs : List Value) (t : T) (ys : List Value) (v : Tables) : Prop :=
  ∃ t', R.machine.primitive p xs t = .once ys t' ∧ R.view t' = v

/-- A primitive fails and leaves the tables as in `v`. -/
def Fails (p : Primitive) (xs : List Value) (t : T) (v : Tables) : Prop :=
  ∃ t', R.machine.primitive p xs t = .fail t' ∧ R.view t' = v

/-- The accessors of dictionaries. -/
def ReadsDictionaries : Prop :=
  ∀ p ∈ dictionaryAccessors, ∀ x i y t, R.accessors p x i = some y →
    R.Does p [x, .ofInt i] t [y] (R.view t)

/-- The primitives that look up a value without its type-info. -/
def atomicLookups : List Primitive :=
  [.lookupInt, .lookupChar, .lookupString, .lookupFloat, .lookupTypeInfo, .lookupDictionary]

/-- The primitives that look up a value through its type-info. -/
def generalLookups : List Primitive := [.lookupUser, .lookupUserAddr, .lookupPoly, .lookupPolyAddr]

/-- The steps down a trie. Equal values lead to the same node, and nothing
    else changes. -/
structure LooksUp : Prop where
  dictionaries : R.ReadsDictionaries
  atomic : ∀ p ∈ atomicLookups, ∀ n x t, R.Does p [n, x] t [R.child p [] n x] (R.view t)
  enum : ∀ n size x t,
    R.Does .lookupEnum [n, size, x] t [R.child .lookupEnum [size] n x] (R.view t)
  general : ∀ p ∈ generalLookups, ∀ info n x t,
    R.Does p [info, n, x] t [R.child p [info] n x] (R.view t)

/-- Different values lead to different nodes, and so do different nodes. -/
structure Separates : Prop where
  parent : ∀ {p p' ps ps' n n' x x'}, R.child p ps n x = R.child p' ps' n' x' → n = n'
  value : ∀ {p ps n x x'}, R.child p ps n x = R.child p ps n x' → x = x'

/-- The nodes of a trie. -/
inductive Below (root : Value) : Value → Prop
  | root : Below root root
  | child {n : Value} (p : Primitive) (ps : List Value) (x : Value) (h : Below root n) :
      Below root (R.child p ps n x)

/-- The primitives that save a value in a slot without its type-info. -/
def atomicSavers : List Primitive :=
  [.saveInt, .saveChar, .saveString, .saveFloat, .saveIoState, .saveIoEntry]

/-- The primitives that restore a value without its type-info, each behind the
    one that saves it. -/
def atomicRestorers : List (Primitive × Primitive) :=
  [(.saveInt, .restoreInt), (.saveChar, .restoreChar), (.saveString, .restoreString),
   (.saveFloat, .restoreFloat), (.saveIoState, .restoreIoState)]

/-- A slot of a block gives back what was saved in it. -/
structure KeepsSlots : Prop where
  dictionaries : R.ReadsDictionaries
  save : ∀ p ∈ atomicSavers, ∀ b (i : Nat) x t, i < (R.view t).size b →
    R.Does p [b, .ofInt i, x] t [] ((R.view t).setSlot b i p x)
  restore : ∀ ps ∈ atomicRestorers, ∀ b (i : Nat) x t, (R.view t).slot b i = some (ps.1, x) →
    R.Does ps.2 [b, .ofInt i] t [x] (R.view t)
  saveAny : ∀ info b (i : Nat) x t, i < (R.view t).size b →
    R.Does .saveAny [info, b, .ofInt i, x] t [] ((R.view t).setSlot b i .saveAny x)
  restoreAny : ∀ info b (i : Nat) x t, (R.view t).slot b i = some (.saveAny, x) →
    R.Does .restoreAny [info, b, .ofInt i] t [x] (R.view t)

/-- A primitive reports the state of a call, and the call is active from then
    on if it was inactive. -/
def SetsUp (p : Primitive) (type : StatusType) : Prop :=
  ∀ n t status, ((R.view t).state n).status? type = some status →
    R.Does p [n] t [status.value] ((R.view t).enter n)

/-- A primitive gives the record of a call too, which has its state. -/
def SetsUpRecord (p : Primitive) (type : StatusType) : Prop :=
  ∀ n t status, ((R.view t).state (R.record p n)).status? type = some status →
    R.Does p [n] t [R.record p n, status.value] ((R.view t).enter (R.record p n))

/-- A broken table is reported, and the program is given up. -/
def GivesUp : Prop := ∀ x t, ∃ t', R.machine.primitive .tableError [x] t = .abort (some x) t'

/-- The primitives of loop checking. -/
structure ChecksLoops : Prop where
  setup : R.SetsUp .loopSetup .loop
  inactive : ∀ n t, R.Does .loopMarkInactive [n] t [] ((R.view t).setState n .inactive)
  inactiveAndFail : ∀ n t, R.Fails .loopMarkInactiveAndFail [n] t ((R.view t).setState n .inactive)
  activeAndFail : ∀ n t, R.Fails .loopMarkActiveAndFail [n] t ((R.view t).setState n .active)
  error : R.GivesUp

/-- The answer block of a node. Making one marks a call as succeeded. -/
structure KeepsBlocks : Prop where
  create : ∀ n size t, (R.view t).block n = none → ∃ b, (R.view t).IsFresh b ∧
    R.Does .memoCreateBlock [n, .ofInt (size : Nat)] t [b]
      (((R.view t).setBlock n b size).setState n .succeeded)
  get : ∀ n b t, (R.view t).block n = some b → R.Does .memoGetBlock [n] t [b] (R.view t)

/-- The primitives of memoing calls with at most one answer. -/
structure Memos : Prop extends R.KeepsBlocks where
  setupDet : R.SetsUp .memoDetSetup .memoDet
  setupSemi : R.SetsUp .memoSemiSetup .memoSemi
  succeeded : ∀ n t, R.Does .memoMarkSucceeded [n] t [] ((R.view t).setState n .succeeded)
  failed : ∀ n t, R.Does .memoMarkFailed [n] t [] ((R.view t).setState n .failed)

/-- The primitives that keep the answers of a record apart: an answer is new
    the first time it is met. -/
structure CollectsAnswers (ps : TableEnv.AnswerPrimitives) : Prop where
  table : ∀ r t, R.Does ps.table [r] t [R.answerTable r] (R.view t)
  isNew : ∀ n t, (R.view t).seen n = false → R.Does ps.isNew [n] t [] ((R.view t).see n)
  isOld : ∀ n t, (R.view t).seen n = true → R.Fails ps.isNew [n] t (R.view t)
  create : ∀ r size t, ∃ b, (R.view t).IsFresh b ∧
    R.Does ps.create [r, .ofInt (size : Nat)] t [b] ((R.view t).addAnswer r b size)

/-- An outcome gives the blocks one after the other. The tables stay as they
    are. -/
def Lists : List Value → T → Outcome T (List Value) → Prop
  | [], t, o => ∃ t', o = .fail t' ∧ R.view t' = R.view t
  | b :: bs, t, o => ∃ t' redo, o = .exit [b] t' redo ∧ R.view t' = R.view t ∧
    ∀ t'', Lists bs t'' (redo t'')

/-- The primitives of memoing calls with many answers. -/
structure MemosAll : Prop where
  setup : R.SetsUpRecord .memoNonSetup .memoNon
  answers : R.CollectsAnswers
    ⟨.memoNonAnswerTable, .memoNonAnswerIsNew, .memoNonCreateBlock⟩
  incomplete : ∀ r t, R.Does .memoMarkIncomplete [r] t [] ((R.view t).setState r .incomplete)
  complete : ∀ r t, R.Fails .memoMarkCompleteAndFail [r] t ((R.view t).setState r .complete)
  returnAll : ∀ p ∈ [Primitive.memoReturnAllNondet, .memoReturnAllMulti], ∀ r t,
    (R.view t).state r = .complete →
      R.Lists ((R.view t).answers r) t (R.machine.primitive p [r] t)

/-- What belongs to a record: the record itself, and the nodes of its answer
    table. -/
def OfRecord (r h : Value) : Prop := h = r ∨ R.Below (R.answerTable r) h

/-- The primitives of minimal models that run with a subgoal's answers: what
    completion does is left open. -/
structure CopiesStacks : Prop where
  setup : R.SetsUpRecord .modelSetup .model
  answers : R.CollectsAnswers ⟨.modelAnswerTable, .modelAnswerIsNew, .modelCreateBlock⟩
  completion : ∀ r t, ∃ t', R.machine.primitive .modelCompletion [r] t = .once [] t'

/-- The primitives that a generator runs: what completion does is left
    open. -/
structure Generates : Prop where
  pickup : ∀ t r xs, R.generator t = some (r, xs) →
    R.Does .generatorPickupInputs [] t (r :: xs) (R.view t)
  answers : R.CollectsAnswers
    ⟨.generatorAnswerTable, .generatorAnswerIsNew, .generatorCreateBlock⟩
  returnAnswer : ∀ r b t, ∃ t', R.machine.primitive .generatorReturnAnswer [r, b] t = .once [] t' ∧
    (R.view t).SameOn (R.OfRecord r) (R.view t')
  completion : ∀ r t, ∃ t', R.machine.primitive .generatorCompletion [r] t = .fail t'

/-- The node of an I/O action. -/
def actionNode (number : Int) : Value :=
  R.child .lookupStartInt [R.windowStart] R.actionTable (.ofInt number)

/-- The primitives of I/O tabling. An action inside the window has its number,
    and each number has its node. -/
structure NumbersActions : Prop extends R.KeepsBlocks where
  inRange : ∀ number t, R.action t = some number →
    R.Does .ioInRange [] t [R.actionTable, .ofInt number, R.windowStart] (R.view t)
  outOfRange : ∀ t, R.action t = none → R.Fails .ioInRange [] t (R.view t)
  lookup : ∀ number t, R.Does .lookupStartInt [R.actionTable, .ofInt number, R.windowStart] t
    [R.actionNode number] (R.view t)
  apart : ∀ i j, R.actionNode i = R.actionNode j → i = j
  answered : ∀ n t, ((R.view t).block n).isSome → R.Does .ioHasAnswer [n] t [] (R.view t)
  unanswered : ∀ n t, (R.view t).block n = none → R.Fails .ioHasAnswer [n] t (R.view t)
  leftBracket : ∀ t, ∃ x, R.Does .ioLeftBracket [] t [x] (R.view t)
  rightBracket : ∀ x t, R.Does .ioRightBracket [x] t [] (R.view t)

end Runtime

/-! ### Setting something up -/

namespace Store

/-- More is bound in `σ'`: variables between `m` and `n`. -/
structure Grows (m n : Nat) (σ σ' : Store) : Prop where
  keeps : σ.Keeps σ'
  below : σ'.Below n
  frame : ∀ v, v.index < m → σ' v = σ v

variable {m n n' : Nat} {σ σ' σ'' : Store}

theorem Grows.refl (h : σ.Below n) : Grows m n σ σ := ⟨.refl σ, h, fun _ _ => rfl⟩

theorem Grows.trans (h : Grows m n σ σ') (h' : Grows m n' σ' σ'') : Grows m n' σ σ'' :=
  ⟨h.keeps.trans h'.keeps, h'.below, fun v hv => (h'.frame v hv).trans (h.frame v hv)⟩

theorem keeps_set {v : ProgVar} (h : ∀ y, σ v = some y → y = x) :
    σ.Keeps (σ.set v x) := by
  intro u y hu
  by_cases hv : u = v
  · subst hv
    rw [set_self, h y hu]
  · rw [set_of_ne hv, hu]

theorem Below.none (h : σ.Below n) {v : ProgVar} (hv : n ≤ v.index) : σ v = none := by
  cases hx : σ v with
  | none => rfl
  | some x => exact absurd (h v x hx) (Nat.not_lt.2 hv)

/-- A new variable is bound. -/
theorem Grows.set (hσ : σ.Below n) {v : ProgVar} (hm : m ≤ v.index) (hn : n ≤ v.index)
    (hn' : v.index < n') (x : Value) : Grows m n' σ (σ.set v x) where
  keeps := hσ.keeps_set hn
  below := hσ.set (Nat.le_of_lt (Nat.lt_of_le_of_lt hn hn')) hn'
  frame u hu := set_of_ne (by rintro rfl; omega) σ x

/-- The variable that a state would add next is bound. -/
theorem Grows.next {s : WitnessState} (hσ : σ.Below s.vars.size) (hm : m ≤ s.vars.size)
    (x : Value) : Grows m (s.vars.size + 1) σ (σ.set s.nextVar x) :=
  .set hσ hm (Nat.le_refl _) (Nat.lt_succ_self _) x

end Store

/-- The goal runs a primitive that reads `ins` and binds `outs`. -/
structure Goal.Calls (g : Goal) (p : Primitive) (ins outs : List ProgVar) : Prop where
  run_eq : ∀ {T : Type} (M : Machine T) {σ : Store} {xs : List Value} (w : World T),
    σ.Binds ins xs →
      g.run M σ w = ((M.primitive p xs w.tables).inWorld w.trace).map (σ.setMany outs)

namespace Runtime

variable {T : Type} {R : Runtime T} {g : Goal} {goals more : List Goal} {p : Primitive}
  {ins outs : List ProgVar} {xs ys : List Value} {σ σ' : Store} {w w' : World T} {v : Tables}
  {m n n' : Nat} {Q Q' : Store → Tables → Prop}

/-- Where a primitive succeeds once, so does its call. -/
theorem Does.run (h : R.Does p xs w.tables ys v) (hg : g.Calls p ins outs) (hb : σ.Binds ins xs) :
    (g.run R.machine σ w).Once fun σ' w' =>
      σ' = σ.setMany outs ys ∧ w'.trace = w.trace ∧ R.view w'.tables = v := by
  obtain ⟨t', ht, hv⟩ := h
  rw [hg.run_eq R.machine w hb, ht]
  exact .intro ⟨rfl, rfl, hv⟩

/-- Where a primitive fails, so does its call. -/
theorem Fails.run (h : R.Fails p xs w.tables v) (hg : g.Calls p ins outs) (hb : σ.Binds ins xs) :
    ∃ w', g.run R.machine σ w = .fail w' ∧ w'.trace = w.trace ∧ R.view w'.tables = v := by
  obtain ⟨t', ht, hv⟩ := h
  rw [hg.run_eq R.machine w hb, ht]
  exact ⟨_, rfl, rfl, hv⟩

variable (R) in
/-- Goals set something up: they have one answer, bind variables between `m`
    and `n` and report nothing, and `Q` holds of the store and the tables
    then. -/
def Runs (m n : Nat) (goals : List Goal) (σ : Store) (w : World T)
    (Q : Store → Tables → Prop) : Prop :=
  (Goal.runAll R.machine goals σ w).Once fun σ' w' =>
    σ.Grows m n σ' ∧ w'.trace = w.trace ∧ Q σ' (R.view w'.tables)

theorem Runs.nil (hσ : σ.Below n) (h : Q σ (R.view w.tables)) : R.Runs m n [] σ w Q :=
  .intro ⟨.refl hσ, rfl, h⟩

theorem Runs.imp (h : R.Runs m n goals σ w Q)
    (hQ : ∀ σ' v, σ.Grows m n σ' → Q σ' v → Q' σ' v) : R.Runs m n goals σ w Q' := by
  refine Outcome.Once.imp h ?_
  rintro σ' w' ⟨hσ, hw, hq⟩
  exact ⟨hσ, hw, hQ σ' _ hσ hq⟩

theorem Runs.append (h : R.Runs m n goals σ w Q)
    (h' : ∀ σ' w', σ.Grows m n σ' → w'.trace = w.trace → Q σ' (R.view w'.tables) →
      R.Runs m n' more σ' w' Q') : R.Runs m n' (goals ++ more) σ w Q' := by
  unfold Runs
  rw [Goal.runAll_append]
  refine Outcome.Once.bind h ?_
  rintro σ' w' ⟨hσ, hw, hq⟩
  exact Outcome.Once.imp (h' σ' w' hσ hw hq) fun σ'' w'' ⟨hσ', hw', hq'⟩ =>
    ⟨hσ.trans hσ', hw'.trans hw, hq'⟩

/-- A construction, and what comes after it. -/
theorem Runs.construct {u : ProgVar} {f : Symbol} {args : List ProgVar} {context : Context}
    (hargs : σ.Binds args xs) (hu : σ.Grows m n (σ.set u (.cell f xs)))
    (h : R.Runs m n' more (σ.set u (.cell f xs)) w Q) :
    R.Runs m n' (.construct u f args context :: more) σ w Q := by
  have hrun : (Goal.construct u f args context).run R.machine σ w =
      .once (σ.set u (.cell f xs)) w := by
    simp only [Goal.run_construct, Machine.runUnify, hargs.mapM]
  unfold Runs
  rw [Goal.runAll_cons, hrun, Outcome.once_bind]
  refine Outcome.Once.imp h ?_
  rintro σ' w' ⟨hσ, hw, hq⟩
  exact ⟨hu.trans hσ, hw, hq⟩

/-- The call of a primitive that succeeds once, and what comes after it. -/
theorem Runs.call (hg : g.Calls p ins outs) (hb : σ.Binds ins xs)
    (hd : R.Does p xs w.tables ys v) (hu : σ.Grows m n (σ.setMany outs ys))
    (h : ∀ w', w'.trace = w.trace → R.view w'.tables = v →
      R.Runs m n' more (σ.setMany outs ys) w' Q) :
    R.Runs m n' (g :: more) σ w Q := by
  refine Outcome.Once.bind (hd.run hg hb) ?_
  rintro σ' w' ⟨hσ, hw, hv⟩
  subst hσ
  exact Outcome.Once.imp (h w' hw hv) fun σ'' w'' ⟨hσ', hw', hq⟩ =>
    ⟨hu.trans hσ', hw'.trans hw, hq⟩

end Runtime

end Clausal
