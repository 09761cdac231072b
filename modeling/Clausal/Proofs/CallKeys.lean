import Clausal.Proofs.Strictness

/-!
# Calls are told apart by their keys

The way of a call down the call table starts at the root of the procedure and
takes one step for each input. A step looks at the content of a value or at its
address, and may be told the type-info of the value. That is its key
(`TrieStep.key`). Where a run-time system has a child of its own for each node
and key (`Runtime.GivesEachKey`), the ends of two ways are the same node exactly
if the keys are the same at all the inputs that are looked up.
-/

namespace Clausal

open List

variable {xs xs' : List Value}

/-! ### Steps and their keys -/

namespace TrieStep

/-- What the primitive for a step is told of the type of the value. -/
def told (info : Ty → Value) : TrieStep → List Value
  | .enum size => [.ofInt size]
  | .general type _ _ => [info type]
  | _ => []

/-- The step as it is taken, if it is. -/
def taken (info : Ty → Value) (step : TrieStep) : Option (Primitive × List Value) :=
  step.primitive?.map (·, step.told info)

/-- What a step finds of a value: its content, or its address for a step by
    address, and the content of the type-info that is passed with it. -/
def key (content address : Value → Value) (info : Ty → Value) (x : Value) :
    TrieStep → Value × Option Value
  | .general type _ byAddr => (if byAddr then address x else content x, content (info type))
  | _ => (content x, none)

end TrieStep

theorem TypeCategory.step?_eq_taken (c : TypeCategory) (type : Ty) (info : Ty → Value)
    (byAddr : Bool) : c.step? type (info type) byAddr = (c.trieStep type byAddr).taken info := by
  cases c <;> rfl

/-- What a primitive finds of a value. -/
def Primitive.sees (content address : Value → Value) (p : Primitive) (x : Value) : Value :=
  if p ∈ [.lookupUserAddr, .lookupPolyAddr] then address x else content x

namespace Runtime

variable {T : Type} (R : Runtime T)

/-- Each node has a child of its own for each key. What is told of the types is
    compared by content. -/
structure GivesEachKey (content address : Value → Value) : Prop where
  child_eq_iff : ∀ p ∈ trieLookups, ∀ ps ps' n n' x x',
    R.child p ps n x = R.child p ps' n' x' ↔
      n = n' ∧ ps.map content = ps'.map content ∧
        p.sees content address x = p.sees content address x'

variable {R} {content address : Value → Value} {info info' : Ty → Value} {n n' x x' : Value}

theorem down_taken_eq_iff (hR : R.GivesEachKey content address) (step : TrieStep) :
    R.down (step.taken info) n x = R.down (step.taken info') n' x' ↔
      n = n' ∧ (step ≠ .dummy → step ≠ .implied →
        step.key content address info x = step.key content address info' x') := by
  simp only [TrieStep.taken]
  cases step with
  | dummy | implied => simp [TrieStep.primitive?, down]
  | int | char | string | float | typeInfo | dictionary | enum =>
    refine (hR.child_eq_iff _ (by decide) ..).trans ?_
    simp [TrieStep.told, TrieStep.key, Primitive.sees]
  | general type isPoly byAddr =>
    refine (hR.child_eq_iff _ (by cases isPoly <;> cases byAddr <;> decide) ..).trans ?_
    cases isPoly <;> cases byAddr <;>
      simp [TrieStep.told, TrieStep.key, Primitive.sees, TableEnv.generalPrimitive, and_comm]

/-- The ways of two calls end in the same node if they start from the same one
    and find the same keys, and only then. -/
theorem follow_taken_eq_iff (hR : R.GivesEachKey content address) {steps : List TrieStep}
    (hxs : xs.length = steps.length) (hxs' : xs'.length = steps.length) :
    R.follow (steps.map (·.taken info)) xs n = R.follow (steps.map (·.taken info')) xs' n' ↔
      n = n' ∧ ∀ e ∈ steps.zip (xs.zip xs'), e.1 ≠ .dummy → e.1 ≠ .implied →
        e.1.key content address info e.2.1 = e.1.key content address info' e.2.2 := by
  induction steps generalizing xs xs' n n' with
  | nil => simp [follow]
  | cons step steps ih =>
    obtain ⟨x, xs, rfl⟩ := exists_cons_of_length_eq_add_one hxs
    obtain ⟨x', xs', rfl⟩ := exists_cons_of_length_eq_add_one hxs'
    simp only [map_cons, follow]
    rw [ih (Nat.succ.inj hxs) (Nat.succ.inj hxs'), down_taken_eq_iff hR, and_assoc,
      zip_cons_cons, zip_cons_cons, forall_mem_cons]

end Runtime

/-! ### The way of a call -/

theorem Module.length_trieSteps {m : Module} {strictness : Strictness} {slot : Nat}
    {types : List Ty} {steps : List TrieStep} (h : m.trieSteps strictness slot types = .ok steps) :
    steps.length = types.length := by
  induction types generalizing slot steps with
  | nil =>
    cases h
    rfl
  | cons type types ih =>
    simp only [trieSteps, except_bind_eq_ok] at h
    obtain ⟨step, -, rest, hrest, heq⟩ := h
    cases heq
    rw [length_cons, length_cons, ih hrest]

/-- The type-infos that steps are told are described in a store. -/
def WitnessState.Tells (s : WitnessState) (rt : Accessors) (σ : Store) (info : Ty → Value)
    (steps : List TrieStep) : Prop :=
  ∀ t isPoly byAddr, .general t isPoly byAddr ∈ steps → s.Describes rt σ t (info t)

/-- The inputs of the given types are recorded with their numbers. -/
def TabledArg.numbered (slot : Nat) (vars : List ProgVar) (types : List Ty) : List TabledArg :=
  ((vars.zip types).zipIdx slot).map fun e => ⟨e.1.1, e.2, e.1.2⟩

namespace TableEnv

open Synth Goal

variable {T : Type} {R : Runtime T} {e : TableEnv} {s s' : WitnessState} {m : Nat} {σ : Store}
  {w : World T} {node var : ProgVar} {vars : List ProgVar} {strictness : Strictness} {slot : Nat}
  {way : CallLookup} {types : List Ty}

theorem lookupFrom_inputs (h : Returns (e.lookupFrom strictness slot node vars) s way s')
    (htypes : Forall₂ (fun v t => s.vars.type v = .ok t) vars types) :
    way.inputs = TabledArg.numbered slot vars types := by
  induction vars generalizing s slot node way types with
  | nil =>
    obtain ⟨rfl, -⟩ := returns_pure.1 h
    cases htypes
    rfl
  | cons var vars ih =>
    obtain ⟨step, node₁, goals₁, s₁, type, rest, h₁, htype, h₂, rfl⟩ := returns_lookupFrom_cons h
    obtain ⟨t, types, ht, hts, rfl⟩ := forall₂_cons_left_iff.1 htypes
    have hs : s.Extends s₁ := by
      rcases h₁ with ⟨-, -, -, -, rfl⟩ | ⟨-, h₁⟩
      · exact .refl _
      · exact adds_lookupArg.mono h₁
    obtain rfl : t = type := Except.ok.inj ((hs.vars.type_eq ht).symm.trans htype)
    rw [ih h₂ (hts.imp fun _ _ ht => hs.vars.type_eq ht)]
    rfl

/-- The way down is the one that the recorded steps tell of. -/
theorem lookupFrom_follows (hR : R.LooksUp) {info : Ty → Value} {n : Value}
    (h : Returns (e.lookupFrom strictness slot node vars) s way s') (hm : m ≤ s.vars.size)
    (hσ : σ.Below s.vars.size) (htypes : Forall₂ (fun v t => s.vars.type v = .ok t) vars types)
    (hinfo : s.Tells R.accessors σ info way.steps) (hn : σ node = some n) (hxs : σ.Binds vars xs) :
    R.Computes m s'.vars.size way.goals σ w way.tip
      (R.follow (way.steps.map (·.taken info)) xs n) := by
  induction vars generalizing s slot node n σ w way types xs with
  | nil =>
    obtain ⟨rfl, rfl⟩ := returns_pure.1 h
    cases hxs
    exact .nil hσ ⟨hn, rfl⟩
  | cons var vars ih =>
    obtain ⟨step, node₁, goals₁, s₁, type, rest, h₁, -, h₂, rfl⟩ := returns_lookupFrom_cons h
    obtain ⟨t, types, ht, hts, rfl⟩ := forall₂_cons_left_iff.1 htypes
    obtain ⟨x, xs, hx, hmore, rfl⟩ := forall₂_cons_left_iff.1 hxs
    have hfirst : s.Extends s₁ ∧
        R.Computes m s₁.vars.size goals₁ σ w node₁ (R.down (step.taken info) n x) := by
      rcases h₁ with ⟨-, rfl, rfl, rfl, rfl⟩ | ⟨-, h₁⟩
      · exact ⟨.refl _, .nil hσ ⟨hn, rfl⟩⟩
      · obtain ⟨c, hc, rfl, -⟩ := lookupArg_step h₁ ht
        obtain ⟨c', hc', hcomp⟩ := lookupArg_computes (w := w) hR hm hσ h₁ ht
          (fun _ hstep => hinfo t _ _ (mem_cons.2 (.inl hstep.symm))) hn hx
        obtain rfl : c = c' := Except.ok.inj (hc.symm.trans hc')
        rw [c.step?_eq_taken] at hcomp
        exact ⟨adds_lookupArg.mono h₁, hcomp⟩
    obtain ⟨hs₁, hcomp⟩ := hfirst
    refine hcomp.append ?_
    rintro σ₁ w₁ hσ₁ - ⟨hnode, hv₁⟩
    have hrest : s₁.Tells R.accessors σ₁ info rest.steps := fun t _ _ hmem =>
      (hinfo t _ _ (mem_cons_of_mem _ hmem)).mono hs₁ hσ₁.keeps
    refine Runtime.Runs.imp (ih h₂ (Nat.le_trans hm hs₁.size_le) hσ₁.below
      (hts.imp fun _ _ ht => hs₁.vars.type_eq ht) hrest hnode
      (Store.Binds.keeps hmore hσ₁.keeps)) ?_
    rintro σ₂ v - ⟨htip, hv⟩
    exact ⟨htip, hv.trans hv₁⟩

/-- The code for a call leads from the root of its table, a step for each input. -/
theorem lookup_follows (hR : R.LooksUp) {info : Ty → Value}
    (h : Returns (e.lookup vars strictness) s way s') (hσ : σ.Below s.vars.size)
    (htypes : Forall₂ (fun v t => s.vars.type v = .ok t) vars types)
    (hinfo : s.Tells R.accessors σ info way.steps) (hxs : σ.Binds vars xs) :
    R.Computes s.vars.size s'.vars.size way.goals σ w way.tip
      (R.follow (way.steps.map (·.taken info)) xs (Runtime.root e.proc)) := by
  obtain ⟨way, hway, rfl⟩ := returns_lookup h
  have hroot := Store.Grows.next hσ (Nat.le_refl _) (Runtime.root e.proc)
  have hs : s.Extends (s.addVar "T0" Handle.trie.type) := .addVar ..
  refine .construct .nil hroot (lookupFrom_follows hR hway hs.size_le ?_
    (htypes.imp fun _ _ ht => hs.vars.type_eq ht)
    (fun t _ _ hmem => (hinfo t _ _ hmem).mono hs hroot.keeps) (Store.set_self ..)
    (Store.Binds.keeps hxs hroot.keeps))
  rw [WitnessState.size_addVar]
  exact hroot.below

/-- The way of a call down the call table. It starts at the root of the
    procedure, and there is one step for each input. The steps are those for the
    types of the inputs, they are recorded in order with the inputs and their
    numbers, and they name the primitives that are called. Two calls get to the
    same node exactly if they have the same keys at all the inputs that are looked
    up. The node is what is recorded as the place of the call. -/
theorem calls_told_apart {content address : Value → Value} (hlooks : R.LooksUp)
    (hkeys : R.GivesEachKey content address) {inputs : List ProgVar}
    (h : Returns (e.lookup inputs strictness) s way s')
    (htypes : List.Forall₂ (fun v t => s.vars.type v = .ok t) inputs types) :
    e.env.trieSteps strictness 0 types = .ok way.steps ∧ way.steps.length = inputs.length ∧
    way.inputs = TabledArg.numbered 0 inputs types ∧
    [.construct s.nextVar (.tableRoot e.proc) [] e.context] <+: way.goals ∧
    lookupsList way.goals = TrieStep.lookups way.steps inputs ∧
    (∀ {σ σ' : Store} {info info' : Ty → Value} {xs xs' : List Value} (w w' : World T),
      σ.Below s.vars.size → s.Tells R.accessors σ info way.steps → σ.Binds inputs xs →
      σ'.Below s.vars.size → s.Tells R.accessors σ' info' way.steps → σ'.Binds inputs xs' →
        ∃ n n', R.Computes s.vars.size s'.vars.size way.goals σ w way.tip n ∧
          R.Computes s.vars.size s'.vars.size way.goals σ' w' way.tip n' ∧
          n = R.follow (way.steps.map (·.taken info)) xs (Runtime.root e.proc) ∧
          (n = n' ↔ ∀ x ∈ way.steps.zip (xs.zip xs'), x.1 ≠ .dummy → x.1 ≠ .implied →
            x.1.key content address info x.2.1 = x.1.key content address info' x.2.2)) ∧
    ∀ {proc : Procedure} {tabled : Tabled} {s₂ : WitnessState}, proc.headOf .input = inputs →
      proc.method.strictness? = some strictness → Returns (e.tabled proc) s (some tabled) s₂ →
        (Module.inTable e proc tabled s₂).tableTip = some way.tip ∧
        ∃ outputs, (Module.inTable e proc tabled s₂).table =
          some (.callTable way.steps way.inputs outputs) := by
  obtain ⟨hsteps, hvars, hlookups⟩ := lookup_steps h htypes
  have hlen : way.steps.length = inputs.length := by
    rw [Module.length_trieSteps hsteps, htypes.length_eq]
  refine ⟨hsteps, hlen, ?_, ?_, hlookups, ?_, ?_⟩
  · obtain ⟨way, hway, rfl⟩ := returns_lookup h
    have hs : s.Extends (s.addVar "T0" Handle.trie.type) := .addVar ..
    change way.inputs = _
    exact lookupFrom_inputs hway (htypes.imp fun _ _ ht => hs.vars.type_eq ht)
  · obtain ⟨way, -, rfl⟩ := returns_lookup h
    exact ⟨way.goals, rfl⟩
  · intro σ σ' info info' xs xs' w w' hσ hinfo hxs hσ' hinfo' hxs'
    refine ⟨_, _, lookup_follows hlooks h hσ htypes hinfo hxs,
      lookup_follows hlooks h hσ' htypes hinfo' hxs', rfl, ?_⟩
    rw [Runtime.follow_taken_eq_iff hkeys (hxs.length_eq.symm.trans hlen.symm)
      (hxs'.length_eq.symm.trans hlen.symm)]
    exact and_iff_right rfl
  · rintro proc tabled s₂ rfl hmethod htabled
    obtain ⟨way', s₁, goals, outputs, hway, -, hlayout, htip⟩ := tabled_lookup htabled hmethod
    obtain ⟨rfl, -⟩ := Returns.unique h hway
    exact ⟨htip, outputs, congrArg some hlayout⟩

end TableEnv

/-! ### Example -/

theorem Memory.givesEachKey (atom : Atom → Meaning Memory) :
    (Memory.runtime atom).GivesEachKey id id where
  child_eq_iff p hp ps ps' n n' x x' := by
    simp only [Memory.runtime, Memory.child, Primitive.sees, Value.cell.injEq, List.cons.injEq,
      map_id, ite_self, id, true_and]
    exact and_congr_right fun _ => and_comm

namespace TabledExample

/-- A procedure with three inputs: the first is looked up by its address, the
    second is implied and the third is looked up by its value. -/
def seekPred : Predicate :=
  let m := Module.start "m"
  m.declared
    { name := "seek"
      args := [.input "P" (.tuple [.int]), .input "N" .int, .input "K" .int, .output "M" .int]
      method := .memo (.specified [.addr, .implied, .value]) }
    (.assign ⟨3⟩ ⟨2⟩ (m.context 1))

def seekEnv : TableEnv := ⟨Module.start "m", tabledProc, seekPred, ⟨"m.m", 1⟩⟩

def seekState : WitnessState := .ofProc seekPred (seekPred.procs[0]?.getD default)

/-- The inputs of a call of the procedure. -/
def seekStore (x y z : Value) : Store := Store.setMany (fun _ => none) [⟨0⟩, ⟨1⟩, ⟨2⟩] [x, y, z]

/-- A run-time system that looks at all of a value. -/
def seekRuntime : Runtime Memory := Memory.runtime fun _ _ w => .fail w

/-- Calls with the same tuple and the same last input are the same to the table,
    whatever the input between them is. -/
theorem seek_told_apart : ∃ way s',
    Synth.Returns (seekEnv.lookup [⟨0⟩, ⟨1⟩, ⟨2⟩] (.specified [.addr, .implied, .value])) seekState
      way s' ∧
    way.steps = [.general (.tuple [.int]) false true, .implied, .int] ∧
    ∀ x y z x' y' z', ∃ n n',
      seekRuntime.Computes 4 s'.vars.size way.goals (seekStore x y z) ⟨{}, []⟩ way.tip n ∧
      seekRuntime.Computes 4 s'.vars.size way.goals (seekStore x' y' z') ⟨{}, []⟩ way.tip n' ∧
      (n = n' ↔ x = x' ∧ z = z') := by
  obtain ⟨way, s', h, hsteps⟩ : ∃ way s', Synth.Returns (seekEnv.lookup [⟨0⟩, ⟨1⟩, ⟨2⟩]
      (.specified [.addr, .implied, .value])) seekState way s' ∧
      way.steps = [.general (.tuple [.int]) false true, .implied, .int] := ⟨_, _, rfl, rfl⟩
  have htypes : List.Forall₂ (fun v t => seekState.vars.type v = .ok t) [⟨0⟩, ⟨1⟩, ⟨2⟩]
      [.tuple [.int], .int, .int] := .cons rfl (.cons rfl (.cons rfl .nil))
  obtain ⟨-, -, -, -, -, hcalls, -⟩ := TableEnv.calls_told_apart (R := seekRuntime)
    (Memory.looksUp _) (Memory.givesEachKey _) h htypes
  have hbelow : ∀ x y z, (seekStore x y z).Below 4 := by
    intro x y z v u hv
    by_contra hlt
    have hmem : v ∉ ([⟨0⟩, ⟨1⟩, ⟨2⟩] : List ProgVar) := by
      rintro hmem
      simp only [List.mem_cons, List.not_mem_nil, or_false] at hmem
      rcases hmem with rfl | rfl | rfl <;> simp at hlt
    rw [seekStore, Store.setMany_of_notMem hmem] at hv
    cases hv
  have hbinds : ∀ x y z, (seekStore x y z).Binds [⟨0⟩, ⟨1⟩, ⟨2⟩] [x, y, z] := fun _ _ _ =>
    .cons rfl (.cons rfl (.cons rfl .nil))
  -- The tuple type has no variables, so that its description does not depend on the store.
  have htells : ∀ σ, seekState.Tells seekRuntime.accessors σ
      (fun t => (t.infoWith fun _ => none).getD default) way.steps := by
    intro σ t isPoly byAddr hmem
    rw [hsteps] at hmem
    simp only [List.mem_cons, TrieStep.general.injEq, reduceCtorEq, List.not_mem_nil,
      or_false] at hmem
    obtain ⟨rfl, -, -⟩ := hmem
    rfl
  refine ⟨way, s', h, hsteps, fun x y z x' y' z' => ?_⟩
  obtain ⟨n, n', hn, hn', -, hiff⟩ := hcalls ⟨{}, []⟩ ⟨{}, []⟩ (hbelow x y z) (htells _)
    (hbinds x y z) (hbelow x' y' z') (htells _) (hbinds x' y' z')
  refine ⟨n, n', hn, hn', hiff.trans ?_⟩
  rw [hsteps]
  simp [TrieStep.key]

end TabledExample

end Clausal
