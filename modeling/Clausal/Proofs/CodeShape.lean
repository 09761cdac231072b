import Clausal.Proofs.Actions
import Clausal.Proofs.AnswerTables
import Clausal.Proofs.Effects

/-!
# The shape of tabling code

The code for a table is put around a body. Whatever the method, it is made of
the body, of steps that succeed (`TableEnv.Step`) and of goals that fail
(`TableEnv.Fails`), and these are put together in a few ways
(`TableEnv.Shape`). What the code refers to, what is known of it and which
effects it has can be read off its shape.
-/

namespace Clausal

open List

variable {n : Nat} {g : Goal} {gs gs' : List Goal} {e : TableEnv} {context : Context}
  {name problem : String} {bound inputs vs : List ProgVar} {byAddr kept : Bool} {first size : Nat}
  {v status : ProgVar} {arm : Status → Synth Goal}

/-! ### Goals of a kind -/

/-- The procedure that a symbol stands for. -/
def Symbol.proc? : Symbol → Option ProcRef
  | .closure r | .tableRoot r | .ioEntry r => some r
  | _ => none

namespace Goal

/-- Goals that are all of a kind. -/
def AllOf (Q : Goal → Prop) (gs : List Goal) : Prop := ∀ g ∈ gs, Q g

section

variable {Q : Goal → Prop}

theorem AllOf.nil : AllOf Q [] := fun _ h => absurd h not_mem_nil

theorem AllOf.cons (h : Q g) (hs : AllOf Q gs) : AllOf Q (g :: gs) := forall_mem_cons.2 ⟨h, hs⟩

theorem AllOf.append (h : AllOf Q gs) (h' : AllOf Q gs') : AllOf Q (gs ++ gs') :=
  forall_mem_append.2 ⟨h, h'⟩

theorem AllOf.single (h : Q g) : AllOf Q [g] := .cons h .nil

theorem AllOf.imp {R : Goal → Prop} (h : AllOf Q gs) (hQR : ∀ g, Q g → R g) : AllOf R gs :=
  fun g hg => hQR g (h g hg)

/-- Goals of a kind that are known to bind variables. -/
structure Binding (Q : Goal → Prop) (vs : List ProgVar) (gs : List Goal) : Prop where
  all : AllOf Q gs
  binds : ∀ v ∈ vs, ∃ g ∈ gs, v ∈ g.info.bound

theorem Binding.of_all (h : AllOf Q gs) : Binding Q [] gs := ⟨h, by simp⟩

theorem Binding.append {vs vs' : List ProgVar} (h : Binding Q vs gs) (h' : Binding Q vs' gs') :
    Binding Q (vs ++ vs') (gs ++ gs') := by
  refine ⟨h.all.append h'.all, fun v hv => ?_⟩
  rcases mem_append.1 hv with hv | hv
  · exact (h.binds v hv).imp fun g hg => ⟨mem_append_left _ hg.1, hg.2⟩
  · exact (h'.binds v hv).imp fun g hg => ⟨mem_append_right _ hg.1, hg.2⟩

end

/-- A goal that has effects, and in which a variable from number `n` on occurs
    free. -/
structure Marked (n : Nat) (g : Goal) : Prop where
  purity : g.info.purity = .impure
  var : ∃ v ∈ g.freeVars, n ≤ v.index

/-- A marked goal that is no conjunction. -/
def Mark (n : Nat) (g : Goal) : Prop := g.Marked n ∧ g.conjuncts = [g]

theorem freeVars_exposeFree (g : Goal) : g.exposeFree.freeVars = g.freeVars := freeVars_setInfo ..

end Goal

/-! ### Steps that write code -/

namespace Synth

variable {α β : Type} {Q : α → Prop} {R : β → Prop} {x : Synth α} {f : α → Synth β}

/-- Whatever a step returns is of a kind, if the variables below `n` are there
    when it is taken. -/
structure Writes (n : Nat) (Q : α → Prop) (x : Synth α) : Prop where
  of_returns : ∀ {s a s'}, Returns x s a s' → n ≤ s.vars.size → s.Extends s' ∧ Q a

theorem writes_of_adds (ha : Adds x) (h : ∀ {s a s'}, Returns x s a s' → n ≤ s.vars.size → Q a) :
    Writes n Q x :=
  ⟨fun hr hn => ⟨ha.mono hr, h hr hn⟩⟩

theorem writes_pure {a : α} (h : Q a) : Writes n Q (pure a) := by
  refine writes_of_adds (adds_pure a) fun hr _ => ?_
  obtain ⟨rfl, -⟩ := returns_pure.1 hr
  exact h

/-- What one step has written can be used to say what the next one writes. -/
theorem writes_bind (hx : Writes n Q x) (hf : ∀ a, Q a → Writes n R (f a)) :
    Writes n R (x >>= f) := by
  refine ⟨fun hr hn => ?_⟩
  obtain ⟨a, s₁, h₁, h₂⟩ := returns_bind.1 hr
  obtain ⟨hs, ha⟩ := hx.of_returns h₁ hn
  obtain ⟨hs', hb⟩ := (hf a ha).of_returns h₂ (Nat.le_trans hn hs.size_le)
  exact ⟨hs.trans hs', hb⟩

theorem writes_after (ha : Adds x) (hf : ∀ a, Writes n R (f a)) : Writes n R (x >>= f) :=
  writes_bind (writes_of_adds (Q := fun _ => True) ha fun _ _ => trivial) fun a _ => hf a

theorem Writes.imp {Q' : α → Prop} (h : Writes n Q x) (hQ : ∀ a, Q a → Q' a) : Writes n Q' x :=
  ⟨fun hr hn => (h.of_returns hr hn).imp_right (hQ _)⟩

/-- A step may return the value. -/
def MayReturn (x : Synth α) (a : α) : Prop := ∃ s s', Returns x s a s'

theorem writes_self (ha : Adds x) : Writes n (MayReturn x) x :=
  writes_of_adds ha fun hr _ => ⟨_, _, hr⟩

theorem writes_newVar (name : String) (type : Ty) :
    Writes n (fun v => n ≤ v.index) (newVar name type) := by
  refine writes_of_adds (adds_newVar ..) fun hr hn => ?_
  obtain ⟨rfl, -⟩ := returns_newVar.1 hr
  exact hn

theorem writes_goalsOf {Q : Goal → Prop} (targets : α → List ProgVar)
    {step : α → Synth (List Goal)} {as : List α}
    (h : ∀ a ∈ as, Writes n (Goal.Binding Q (targets a)) (step a)) :
    Writes n (Goal.Binding Q (as.flatMap targets)) (goalsOf step as) := by
  induction as with
  | nil => exact writes_pure (.of_all .nil)
  | cons a as ih =>
    obtain ⟨hfirst, hrest⟩ := forall_mem_cons.1 h
    exact writes_bind hfirst fun _ hgoals => writes_bind (ih hrest) fun _ hmore =>
      writes_pure (hgoals.append hmore)

end Synth

/-- What the code for a table does. -/
inductive TableKind where
  /-- Goes on from the state of the call, in code of a model. If the call is only
      checked for loops, no answers are kept. -/
  | switch (loops : Bool) (model : CodeModel)
  /-- Takes answers from a generator. -/
  | consume
  /-- Does an action once. -/
  | action

def Procedure.tableKind (proc : Procedure) : TableKind :=
  match proc.method with
  | .loopCheck _ => .switch true proc.determinism.codeModel
  | .memo _ | .normal => .switch false proc.determinism.codeModel
  | .minimalModel .stackCopy _ => .switch false .non
  | .minimalModel .ownStacks _ => .consume
  | .tableIo .. => .action

/-- The primitive takes some arguments and always has one solution. -/
def Primitive.Takes (p : Primitive) (k : Nat) : Prop := p.modes.length = k ∧ p.determinism = .det

namespace TableEnv

open Synth Goal

variable {p : Primitive} {args vars outputs : List ProgVar} {node var block owner tip : ProgVar}
  {type : Ty} {slot : Int} {next : String} {many : Bool} {body : Goal} {strictness : Strictness}
  {s s' : WitnessState}

/-- A step of the code around a body whose variables are below `n`: the run of a
    primitive or the construction of a value, with a variable of its own. An
    output whose type has one value only may be made anew. Unless there may be
    many solutions, the step has one. -/
inductive Step (e : TableEnv) (n : Nat) (outputs : List ProgVar) (many : Bool) : Goal → Prop
  | run {p : Primitive} {args : List ProgVar} {g : Goal} {s s' : WitnessState}
      (returns : Returns (e.call p args) s g s') (length : args.length = p.modes.length)
      (det : many = false → p.determinism = .det) (some : p.determinism.maxSolutions ≠ .zero)
      (new : ∃ v ∈ args, n ≤ v.index) : Step e n outputs many g
  | access {p : Primitive} {d slot r : ProgVar} {context : Context}
      (accessor : p ∈ dictionaryAccessors) (new : n ≤ r.index) :
      Step e n outputs many (Synth.accessor p d slot r context)
  | build {v : ProgVar} {f : Symbol} {args : List ProgVar} {context : Context} (new : n ≤ v.index)
      (symbol : ∀ r, f.proc? = some r → r = e.proc ∧ f.isClosure = false) :
      Step e n outputs many (.construct v f args context)
  | remake {v : ProgVar} {name : SymName} {context : Context} (output : v ∈ outputs) :
      Step e n outputs many (.construct v (.cons name 0) [] context)

abbrev Steps (e : TableEnv) (n : Nat) (outputs : List ProgVar) (many : Bool) : List Goal → Prop :=
  AllOf (e.Step n outputs many)

/-- The call of a primitive is a step, annotated with what the primitive declares. -/
theorem run_writes (hlen : args.length = p.modes.length)
    (hdet : many = false → p.determinism = .det) (hsome : p.determinism.maxSolutions ≠ .zero)
    (hnew : ∃ v ∈ args, n ≤ v.index) :
    Writes n (fun g => e.Step n outputs many g ∧ g.info.determinism = p.determinism ∧
      ∀ v ∈ outputVars args p.modes, v ∈ g.info.bound) (e.call p args) := by
  refine writes_of_adds (adds_call ..) fun h _ => ⟨.run h hlen hdet hsome hnew, ?_⟩
  obtain ⟨-, ⟨-, -, rfl⟩ | ⟨code, rfl, -, hextra, hcode⟩⟩ := callWith_cases h
  · exact ⟨rfl, fun _ => VarSet.mem_ofList.2⟩
  · obtain ⟨hvars, hmodes⟩ := hcode hlen
    refine ⟨rfl, fun v hv => VarSet.mem_ofList.2 ?_⟩
    rw [hextra, append_nil, varsOf_of_map hvars hmodes]
    exact hv

theorem call_writes (hp : p.Takes args.length) (hnew : ∃ v ∈ args, n ≤ v.index) :
    Writes n (e.Step n outputs many) (e.call p args) :=
  (run_writes hp.1.symm (fun _ => hp.2) (by rw [hp.2]; decide) hnew).imp fun _ => And.left

theorem intVar_writes {value : Int} :
    Writes n (fun r => n ≤ r.1.index ∧ e.Step n outputs many r.2) (e.intVar name value) :=
  writes_bind (writes_newVar ..) fun _ hv =>
    writes_pure ⟨hv, .build hv fun _ hr => by cases hr⟩

/-- Goals that set up witnesses are steps of table code. -/
theorem Steps.of_setup {X : ProgVar → Prop} (h : Setup context X gs bound)
    (hb : ∀ b ∈ bound, n ≤ b.index) : e.Steps n outputs many gs := by
  induction h with
  | nil => exact .nil
  | @construct _ _ f _ _ _ hf _ _ ih =>
    obtain ⟨hv, hb⟩ := forall_mem_cons.1 hb
    refine .cons (.build hv fun _ hr => ?_) (ih hb)
    cases f <;> first | exact absurd hf Bool.false_ne_true | cases hr
  | accessor hp _ _ ih =>
    obtain ⟨hr, hb⟩ := forall_mem_cons.1 hb
    exact .cons (.access hp hr) (ih hb)

theorem typeInfo_writes :
    Writes n (fun r => e.Steps n outputs many r.2) (typeInfo context type) := by
  refine writes_of_adds (adds_typeInfo ..) fun h hn => ?_
  obtain ⟨bound, hb, hsetup⟩ := (typeInfo_makes type h).setup
  exact .of_setup (hsetup (fun _ => True) (fun _ _ _ => trivial) fun _ _ _ => trivial).1
    fun b hmem => Nat.le_trans hn (hb.new b hmem).1

/-! The way of a call down a table. The node that is reached is new if the one
that it starts from is. -/

theorem lookupAtomic_writes {step : TrieStep} (hp : p.Takes 3) :
    Writes n (fun r => n ≤ r.2.1.index ∧ e.Steps n outputs many r.2.2)
      (e.lookupAtomic step p node var next) :=
  writes_bind (writes_newVar ..) fun v hv =>
    writes_bind (call_writes hp ⟨v, by simp, hv⟩) fun _ hcall => writes_pure ⟨hv, .single hcall⟩

theorem lookupGeneral_writes :
    Writes n (fun r => n ≤ r.2.1.index ∧ e.Steps n outputs many r.2.2)
      (e.lookupGeneral type byAddr node var next) := by
  have hp : ∀ isPoly, (generalPrimitive isPoly byAddr).Takes 4 := by
    intro isPoly
    cases isPoly <;> cases byAddr <;> exact ⟨rfl, rfl⟩
  exact writes_bind typeInfo_writes fun _ hinfo => writes_bind (writes_newVar ..) fun v hv =>
    writes_bind (call_writes (hp _) ⟨v, by simp, hv⟩) fun _ hcall =>
      writes_pure ⟨hv, hinfo.append (.single hcall)⟩

theorem lookupArg_writes (hnode : n ≤ node.index) :
    Writes n (fun r => n ≤ r.2.1.index ∧ e.Steps n outputs many r.2.2)
      (e.lookupArg node var byAddr next) := by
  refine writes_after (adds_varType _) fun type => writes_after (adds_lift _) fun category => ?_
  cases category with
  | dummy | void => exact writes_pure ⟨hnode, .nil⟩
  | int | char | string | float | typeInfo | dictionary => exact lookupAtomic_writes ⟨rfl, rfl⟩
  | enum size =>
    exact writes_bind (writes_newVar ..) fun v hv => writes_bind intVar_writes fun _ hsize =>
      writes_bind (call_writes ⟨rfl, rfl⟩ ⟨v, by simp, hv⟩) fun _ hcall =>
        writes_pure ⟨hv, .cons hsize.2 (.single hcall)⟩
  | higherOrder | typeCtorInfo | baseDictionary => exact lookupGeneral_writes
  | «variable» | tuple | user => exact lookupGeneral_writes

theorem lookupFrom_writes {slot : Nat} (hnode : n ≤ node.index) :
    Writes n (fun way => n ≤ way.tip.index ∧ e.Steps n outputs many way.goals)
      (e.lookupFrom strictness slot node vars) := by
  induction vars generalizing slot node with
  | nil => exact writes_pure ⟨hnode, .nil⟩
  | cons v vars ih =>
    refine writes_of_adds adds_lookupFrom fun h hn => ?_
    obtain ⟨step, node₁, goals₁, s₁, type, rest, h₁, -, h₂, rfl⟩ := returns_lookupFrom_cons h
    rcases h₁ with ⟨-, -, rfl, rfl, rfl⟩ | ⟨-, h₁⟩
    · exact ((ih hnode).of_returns h₂ hn).2
    · obtain ⟨hs, hnode₁, hgoals₁⟩ := (lookupArg_writes hnode).of_returns h₁ hn
      obtain ⟨-, htip, hgoals₂⟩ := (ih hnode₁).of_returns h₂ (Nat.le_trans hn hs.size_le)
      exact ⟨htip, hgoals₁.append hgoals₂⟩

theorem lookup_writes :
    Writes n (fun way => n ≤ way.tip.index ∧ e.Steps n outputs many way.goals)
      (e.lookup inputs strictness) := by
  have hroot : Writes n (fun r => n ≤ r.1.index ∧ e.Step n outputs many r.2) e.root :=
    writes_bind (writes_newVar ..) fun _ hv =>
      writes_pure ⟨hv, .build hv fun _ hr => ⟨(Option.some.inj hr).symm, rfl⟩⟩
  exact writes_bind hroot fun _ hroot => writes_bind (lookupFrom_writes hroot.1) fun _ hway =>
    writes_pure ⟨hway.1, .cons hroot.2 hway.2⟩

theorem answerLookupFrom_writes {slot : Nat} (hnode : n ≤ node.index) :
    Writes n (fun r => n ≤ r.1.index ∧ e.Steps n outputs many r.2)
      (e.answerLookupFrom slot node vars) := by
  induction vars generalizing slot node with
  | nil => exact writes_pure ⟨hnode, .nil⟩
  | cons v vars ih =>
    exact writes_bind (lookupArg_writes hnode) fun _ hlookup => writes_bind (ih hlookup.1)
      fun _ hmore => writes_pure ⟨hmore.1, hlookup.2.append hmore.2⟩

/-! Answer blocks. What is taken out of a slot is bound. -/

theorem moveAtomic_writes (targets : List ProgVar) (hp : p.Takes 3)
    (ht : ∀ slot, targets ⊆ outputVars [block, slot, var] p.modes) :
    Writes n (Binding (e.Step n outputs many) targets) (e.moveAtomic p block slot var) :=
  writes_bind intVar_writes fun v hslot =>
    writes_bind (run_writes hp.1.symm (fun _ => hp.2) (by rw [hp.2]; decide)
      ⟨v.1, by simp, hslot.1⟩) fun g hcall =>
        writes_pure ⟨.cons hslot.2 (.single hcall.1),
          fun w hw => ⟨g, by simp, hcall.2.2 w (ht _ hw)⟩⟩

theorem moveGeneral_writes (targets : List ProgVar) (hp : p.Takes 4)
    (ht : ∀ info slot, targets ⊆ outputVars [info, block, slot, var] p.modes) :
    Writes n (Binding (e.Step n outputs many) targets) (e.moveGeneral p type block slot var) :=
  writes_bind typeInfo_writes fun _ hinfo => writes_bind intVar_writes fun v hslot =>
    writes_bind (run_writes hp.1.symm (fun _ => hp.2) (by rw [hp.2]; decide)
      ⟨v.1, by simp, hslot.1⟩) fun g hcall =>
        writes_pure ⟨hinfo.append (.cons hslot.2 (.single hcall.1)),
          fun w hw => ⟨g, by simp, hcall.2.2 w (ht _ _ hw)⟩⟩

theorem save_writes : Writes n (Binding (e.Step n outputs many) []) (e.save block slot var) := by
  refine writes_after (adds_varType _) fun type => writes_after (adds_lift _) fun category => ?_
  split
  · exact writes_pure (.of_all .nil)
  · cases category with
    | int | char | string | float => exact moveAtomic_writes [] ⟨rfl, rfl⟩ (by simp)
    | _ => exact moveGeneral_writes [] ⟨rfl, rfl⟩ (by simp)

theorem restore_writes (hvar : var ∈ outputs) :
    Writes n (Binding (e.Step n outputs many) [var]) (e.restore block slot var) := by
  refine writes_after (adds_varType _) fun type => writes_after (adds_lift _) fun category => ?_
  split
  · refine ⟨fun h _ => ?_⟩
    simp only [restoreDummy, returns_bind, returns_lift] at h
    obtain ⟨constant, s₁, ⟨hconstant, rfl⟩, h⟩ := h
    cases constant with
    | none => exact absurd h not_returns_breach
    | some f =>
      obtain ⟨name, rfl⟩ := Module.dummyConstant_eq_cons hconstant
      obtain ⟨rfl, rfl⟩ := returns_pure.1 h
      exact ⟨.refl _, .single (.remake hvar), fun v hv =>
        ⟨_, mem_cons_self, by simpa using hv⟩⟩
  · cases category with
    | int | char | string | float =>
      exact moveAtomic_writes [var] ⟨rfl, rfl⟩ fun _ => List.Subset.refl _
    | _ => exact moveGeneral_writes [var] ⟨rfl, rfl⟩ fun _ _ => List.Subset.refl _

theorem saveFrom_writes :
    Writes n (e.Steps n outputs many) (e.saveFrom block first vars) := by
  have h : Writes n (Binding (e.Step n outputs many) ((vars.zipIdx first).flatMap fun _ => []))
      (e.saveFrom block first vars) := writes_goalsOf _ fun _ _ => save_writes
  exact h.imp fun _ h => h.all

theorem restoreFrom_writes (hvars : vars ⊆ outputs) :
    Writes n (Binding (e.Step n outputs many) vars) (e.restoreFrom block first vars) := by
  have h : Writes n (Binding (e.Step n outputs many) ((vars.zipIdx first).flatMap fun a => [a.1]))
      (e.restoreFrom block first vars) :=
    writes_goalsOf _ fun _ ha => restore_writes (hvars (fst_mem_of_mem_zipIdx ha))
  rwa [← map_eq_flatMap, zipIdx_map_fst] at h

theorem newBlock_writes (hp : p.Takes 3) :
    Writes n (fun r => n ≤ r.1.index ∧ e.Steps n outputs many r.2) (e.newBlock p owner size) :=
  writes_bind intVar_writes fun _ hsize => writes_bind (writes_newVar ..) fun v hv =>
    writes_bind (call_writes hp ⟨v, by simp, hv⟩) fun _ hcall =>
      writes_pure ⟨hv, .cons hsize.2 (.single hcall)⟩

theorem saveAnswer_writes (hp : p.Takes 3) :
    Writes n (fun r => n ≤ r.1.index ∧ e.Steps n outputs many r.2) (e.saveAnswer p owner vars) :=
  writes_bind (newBlock_writes hp) fun _ hblock => writes_bind saveFrom_writes fun _ hsaves =>
    writes_pure ⟨hblock.1, hblock.2.append hsaves⟩

theorem restoreAnswer_writes (hp : p.modes.length = 2) (hdet : many = false → p.determinism = .det)
    (hsome : p.determinism.maxSolutions ≠ .zero) :
    Writes n (Binding (e.Step n outputs many) outputs) (e.restoreAnswer p owner outputs) :=
  writes_bind (writes_newVar ..) fun v hv =>
    writes_bind (run_writes hp.symm hdet hsome ⟨v, by simp, hv⟩) fun _ hfound =>
      writes_bind (restoreFrom_writes (List.Subset.refl _)) fun _ hrestores =>
        writes_pure ((Binding.of_all (.single hfound.1)).append hrestores)

/-- The body and steps after it. One of them drops answers that are not new. -/
def Answered (e : TableEnv) (n : Nat) (outputs : List ProgVar) (body : Goal) (gs : List Goal) :
    Prop :=
  ∃ code, gs = body :: code ∧ e.Steps n outputs true code ∧
    ∃ g ∈ code, g.info.determinism = .semidet

theorem Answered.append (h : e.Answered n outputs body gs) (h' : e.Steps n outputs true gs') :
    e.Answered n outputs body (gs ++ gs') := by
  obtain ⟨code, rfl, hcode, g, hg, hdrops⟩ := h
  exact ⟨code ++ gs', rfl, hcode.append h', g, mem_append_left _ hg, hdrops⟩

theorem newAnswer_writes {ps : AnswerPrimitives} (htable : ps.table.Takes 2)
    (hnew : ps.isNew.modes.length = 1 ∧ ps.isNew.determinism = .semidet)
    (hcreate : ps.create.Takes 3) :
    Writes n (fun r => n ≤ r.1.index ∧ e.Answered n outputs body r.2)
      (e.newAnswer ps body owner outputs) :=
  writes_bind (writes_newVar ..) fun v hv =>
    writes_bind (call_writes htable ⟨v, by simp, hv⟩) fun _ hgetTable =>
      writes_bind (answerLookupFrom_writes hv) fun node hlookups =>
        writes_bind (run_writes hnew.1.symm (fun h => by cases h) (by rw [hnew.2]; decide)
          ⟨node.1, by simp, hlookups.1⟩) fun isNew hisNew =>
            writes_bind (saveAnswer_writes hcreate) fun _ hsaves =>
              writes_pure ⟨hsaves.1, _, rfl, ((AllOf.cons hgetTable hlookups.2).append
                (.single hisNew.1)).append hsaves.2, isNew, by simp, hisNew.2.1.trans hnew.2⟩

/-! Actions. -/

/-- A step, or a value is passed on. -/
def Move (e : TableEnv) (n : Nat) (outputs : List ProgVar) (g : Goal) : Prop :=
  e.Step n outputs false g ∨ ∃ v w, g = .assign v w e.context

section

variable {h : IoHead} {slots : IoSlots} {purpose : IoPurpose} {unit : IoUnit}

theorem Move.binding (h : Binding (e.Step n outputs false) vs gs) :
    Binding (e.Move n outputs) vs gs :=
  ⟨h.all.imp fun _ => .inl, h.binds⟩

theorem restoreStates_writes {pairs : List (ProgVar × ProgVar)} :
    Writes n (Binding (e.Move n outputs) (pairs.map Prod.fst)) (goalsOf (fun (state, before) =>
      if kept then e.moveAtomic .restoreIoState block slot state
      else pure [.assign state before e.context]) pairs) := by
  rw [map_eq_flatMap]
  refine writes_goalsOf _ fun pair _ => ?_
  simp only
  split
  · exact (moveAtomic_writes [pair.1] ⟨rfl, rfl⟩ fun _ => List.Subset.refl _).imp
      fun _ => Move.binding
  · exact writes_pure ⟨.single (.inr ⟨_, _, rfl⟩), fun v hv =>
      ⟨_, mem_cons_self, VarSet.mem_singleton.2 (mem_singleton.1 hv)⟩⟩

theorem ioRestore_writes :
    Writes n (Binding (e.Move n h.outputs) (h.outputs ++ h.statePairs.map Prod.fst))
      (e.ioRestore h slots tip) :=
  writes_bind (writes_newVar ..) fun block hblock =>
    writes_bind (call_writes ⟨rfl, rfl⟩ ⟨block, by simp, hblock⟩) fun _ hget =>
      writes_bind (restoreFrom_writes (List.Subset.refl _)) fun _ houtputs =>
        writes_bind restoreStates_writes fun _ hstates => writes_pure
          ((Move.binding ((Binding.of_all (.single hget)).append houtputs)).append hstates)

/-- Steps before and after the body. -/
def Around (e : TableEnv) (n : Nat) (outputs : List ProgVar) (body : Goal) (gs : List Goal) :
    Prop :=
  ∃ pre post, gs = pre ++ body :: post ∧ e.Steps n outputs false pre ∧ e.Steps n outputs false post

theorem Around.append (h : e.Around n outputs body gs) (h' : e.Steps n outputs false gs') :
    e.Around n outputs body (gs ++ gs') := by
  obtain ⟨pre, post, rfl, hpre, hpost⟩ := h
  exact ⟨pre, post ++ gs', by simp, hpre, hpost.append h'⟩

theorem ioBracket_writes : Writes n (e.Around n outputs body) (e.ioBracket unit body) := by
  cases unit with
  | alone => exact writes_pure ⟨[], [], rfl, .nil, .nil⟩
  | unitize =>
    exact writes_bind (writes_newVar ..) fun v hv =>
      writes_bind (call_writes ⟨rfl, rfl⟩ ⟨v, by simp, hv⟩) fun left hleft =>
        writes_bind (call_writes ⟨rfl, rfl⟩ ⟨v, by simp, hv⟩) fun right hright =>
          writes_pure ⟨[left], [right], rfl, .single hleft, .single hright⟩

theorem ioSaveFor_writes :
    Writes n (e.Steps n outputs many) (e.ioSaveFor purpose h slots block) := by
  unfold ioSaveFor
  split
  · exact writes_bind (writes_newVar ..) fun entry hentry =>
      writes_bind (moveAtomic_writes [] ⟨rfl, rfl⟩ (by simp)) fun _ hsave =>
        writes_bind saveFrom_writes fun _ hinputs => writes_pure ((AllOf.cons
          (.build hentry fun _ hr => ⟨(Option.some.inj hr).symm, rfl⟩) hsave.all).append hinputs)
  · exact writes_pure .nil

theorem ioSaveStates_writes :
    Writes n (e.Steps n outputs many) (e.ioSaveStates h slots block) := by
  unfold ioSaveStates
  split
  · exact (writes_goalsOf (fun _ => []) fun _ _ =>
      moveAtomic_writes [] ⟨rfl, rfl⟩ (by simp)).imp fun _ h => h.all
  · exact writes_pure .nil

theorem ioRecord_writes :
    Writes n (e.Around n outputs body) (e.ioRecord body purpose unit h slots tip) := by
  rw [ioRecord_eq]
  exact writes_bind ioBracket_writes fun _ haction => writes_bind (newBlock_writes ⟨rfl, rfl⟩)
    fun _ hcreate => writes_bind ioSaveFor_writes fun _ hentry => writes_bind saveFrom_writes
      fun _ hsaves => writes_bind ioSaveStates_writes fun _ hstates =>
        writes_pure ((((haction.append hcreate.2).append hentry).append hsaves).append hstates)

end

/-! ### Shapes -/

section

variable (e : TableEnv) (n : Nat) (outputs : List ProgVar) (body : Goal)

/-- A goal that fails. -/
inductive Fails : Goal → Prop
  | call {p : Primitive} {args : List ProgVar} {g : Goal} (call : (e.call p args).MayReturn g)
      (fails : p.determinism = .failure) : Fails g
  | failure : Fails (.failure e.context)
  | after {g : Goal} (step : e.Step n outputs false g) :
      Fails (.conjoin [g, .failure e.context] e.context)

/-- What is done after the body. -/
inductive Rest (many : Bool) : Goal → Prop
  | step {g : Goal} (step : e.Step n outputs many g) : Rest many g
  | steps {gs : List Goal} (steps : e.Steps n outputs many gs) :
      Rest many (.conjoin gs e.context)
  | retry {g f : Goal} (step : e.Step n outputs many g) (fails : Fails e n outputs f) :
      Rest many (.disjoin [g, f] e.context)

/-- The body is run, in code of a model. If there may be many solutions, some are
    dropped. -/
inductive Visit (many : Bool) : CodeModel → Goal → Prop
  | once {g : Goal} (rest : Rest e n outputs many g) :
      Visit many .det (.conjoin [body, g] e.context)
  | cond {g f : Goal} (rest : Rest e n outputs many g) (fails : Fails e n outputs f) :
      Visit many .semi (.ifThenElse body g f e.context)
  | each {gs : List Goal} {f : Goal} (rest : AllOf (Rest e n outputs many) gs)
      (drops : many = true → ∃ g ∈ gs, g.info.determinism = .semidet)
      (fails : Fails e n outputs f) :
      Visit many .non (.disjoin [.conjoin (body :: gs) e.context, f] e.context)

/-- Answers are taken from the table. -/
def Answer (many : Bool) (g : Goal) : Prop :=
  ∃ gs, Binding (e.Step n outputs many) outputs gs ∧ g = .conjoin gs e.context

/-- What is done in one state of a call. -/
inductive Arm (many : Bool) (model : CodeModel) : Goal → Prop
  | visit {g : Goal} (visit : Visit e n outputs body many model g) : Arm many model g
  | answer {g : Goal} (answer : Answer e n outputs many g) : Arm many model g
  | fails (semi : model = .semi) : Arm many model (.failure e.context)
  | error {g : Goal} {problem : String} (error : (e.tableError problem).MayReturn g) :
      Arm many model g

/-- The code of a generator. -/
def GeneratorShape (g : Goal) : Prop :=
  ∃ pickup answers owner extra, (e.callWith .generatorPickupInputs [owner] extra).MayReturn pickup ∧
    pickup.Mark n ∧ Visit e n outputs body true .non answers ∧
    g = .conjoin [pickup, answers] e.context

/-- The code for a table. Either the call is looked up and a switch goes on from
    its state; or answers are taken from a generator; or an action is done or
    taken from the table, if it is inside the window. -/
inductive Shape (given : Prop) : TableKind → Goal → Option Generator → Prop
  | switch {many loops : Bool} {model : CodeModel} {pre : List Goal} {setup : Goal}
      {status : ProgVar} {arms : List (Symbol × Goal)} (many_eq : many = (!loops && model == .non))
      (pre_steps : e.Steps n outputs false pre) (setup_step : e.Step n outputs false setup)
      (mark : setup.Mark n)
      (arm : ∀ a ∈ arms, (∃ st : Status, a.1 = st.symbol) ∧ Arm e n outputs body many model a.2)
      (visit : ∃ a ∈ arms, Visit e n outputs body many model a.2)
      (answer : loops = false → ∃ a ∈ arms, Answer e n outputs many a.2) :
      Shape given (.switch loops model)
        (.conjoin (pre ++ [setup, .switchOn status arms false e.context]) e.context) none
  | consume {pre answers : List Goal} {save setup : Goal} {name closure : ProgVar} {text : String}
      {extra : List ForeignArg} {gen : Generator} (pre_steps : e.Steps n outputs false pre)
      (save_call : (e.callWith .generatorSaveInputs [] extra).MayReturn save)
      (setup_step : e.Step n outputs false setup) (mark : setup.Mark n)
      (answers_bind : Binding (e.Step n outputs true) outputs answers)
      (gen_outputs : gen.outputs = outputs) (gen_shape : GeneratorShape e n outputs body gen.body) :
      Shape given .consume (.conjoin (pre ++ ([save, .stringConst name text e.context,
        .construct closure (.closure ⟨e.env.nextPred, ⟨0⟩⟩) [] e.context, setup] ++ answers))
        e.context) (some gen)
  | action {inRange lookup hasAnswer : Goal} {restore record : List Goal}
      {range tip restored : List ProgVar}
      (inRange_call : (e.call .ioInRange range).MayReturn inRange)
      (mark : inRange.Mark n) (lookup_step : e.Step n outputs false lookup)
      (hasAnswer_call : (e.call .ioHasAnswer tip).MayReturn hasAnswer)
      (restore_moves : AllOf (e.Move n restored) restore)
      (restore_binds : given → ∀ v ∈ outputs, ∃ g ∈ restore, v ∈ g.info.bound)
      (record_around : e.Around n outputs body record) :
      Shape given .action (.ifThenElse inRange (.conjoin [lookup, .ifThenElse hasAnswer
        (.conjoin restore e.context) (.conjoin record e.context) e.context] e.context) body
        e.context) none

/-- Code that has a shape once the call has been looked up. -/
def Shaped (given : Prop) (loops : Bool) (model : CodeModel) (gs : List Goal) : Prop :=
  ∀ pre, e.Steps n outputs false pre →
    Shape e n outputs body given (.switch loops model) (.conjoin (pre ++ gs) e.context) none

end

variable {head : TabledHead} {model : CodeModel} {loops : Bool} {given : Prop}
  {determinism : Determinism} {kind : TableKind}

theorem callWith_mark {extra : List ForeignArg} (h : (e.callWith p args extra).MayReturn g)
    (hp : p.purity = .impure) (hlen : args.length = p.modes.length) (hv : v ∈ args)
    (hn : n ≤ v.index) : g.Mark n := by
  obtain ⟨_, _, h⟩ := h
  obtain ⟨-, ⟨-, -, rfl⟩ | ⟨code, rfl, -, -, hcode⟩⟩ := callWith_cases h
  · refine ⟨⟨hp, v, ?_, hn⟩, rfl⟩
    rw [Goal.callProc, freeVars_exposeFree, Goal.freeVars, VarSet.mem_ofList]
    exact hv
  · refine ⟨⟨hp, v, ?_, hn⟩, rfl⟩
    rw [Goal.callForeign, freeVars_exposeFree, Goal.freeVars, VarSet.mem_ofList, (hcode hlen).1]
    exact mem_append_left _ hv

theorem setup_writes (hp : p.Takes args.length) (himpure : p.purity = .impure)
    (hnew : ∃ v ∈ args, n ≤ v.index) :
    Writes n (fun g => e.Step n outputs false g ∧ g.Mark n) (e.call p args) := by
  refine ⟨fun hr hn => ?_⟩
  obtain ⟨hs, hstep⟩ := (call_writes hp hnew).of_returns hr hn
  obtain ⟨v, hv, hnew⟩ := hnew
  exact ⟨hs, hstep, callWith_mark ⟨_, _, hr⟩ himpure hp.1.symm hv hnew⟩

theorem fails_writes (hp : p.determinism = .failure) :
    Writes n (e.Fails n outputs) (e.call p args) :=
  (writes_self (adds_call ..)).imp fun _ h => .call h hp

theorem error_writes :
    Writes n (e.Arm n outputs body many model) (e.tableError problem) :=
  (writes_self (adds_tableError _)).imp fun _ => .error

/-- Each status has an arm, and each arm is that of a status. -/
theorem arms_write {R : Status → Goal → Prop} (harm : ∀ st, Writes n (R st) (arm st))
    (statuses : List Status) :
    Writes n (fun arms => (∀ a ∈ arms, ∃ st, a.1 = st.symbol ∧ R st a.2) ∧
        ∀ st ∈ statuses, ∃ a ∈ arms, R st a.2)
      (statuses.mapM fun st => do return (st.symbol, ← arm st)) := by
  induction statuses with
  | nil => exact writes_pure (by simp)
  | cons st statuses ih =>
    rw [mapM_cons]
    refine writes_bind (Q := fun a : Symbol × Goal => a.1 = st.symbol ∧ R st a.2)
      (writes_bind (harm st) fun _ hg => writes_pure ⟨rfl, hg⟩) fun a ha => ?_
    refine writes_bind ih fun arms harms => writes_pure ⟨?_, ?_⟩
    · exact forall_mem_cons.2 ⟨⟨st, ha⟩, harms.1⟩
    · refine forall_mem_cons.2 ⟨⟨a, mem_cons_self, ha.2⟩, fun st hst => ?_⟩
      obtain ⟨b, hb, hR⟩ := harms.2 st hst
      exact ⟨b, mem_cons_of_mem a hb, hR⟩

/-- New answers are recorded one by one, and behind the last the call fails. -/
theorem Visit.of_answered {f : Goal} (h : e.Answered n outputs body gs) (hf : e.Fails n outputs f) :
    e.Visit n outputs body true .non (.disjoin [.conjoin gs e.context, f] e.context) := by
  obtain ⟨code, rfl, hcode, hdrops⟩ := h
  exact .each (hcode.imp fun _ => .step) (fun _ => hdrops) hf

/-- A switch on the state of a call. In some state the body is run, and unless it
    is only checked for loops, in another answers are taken from the table. -/
theorem statusSwitch_writes {type : StatusType} {setup : Goal}
    (hmany : many = (!loops && model == .non)) (visited answered : Status)
    (hvisited : visited ∈ type.statuses) (hanswered : answered ∈ type.statuses)
    (hsetup : e.Step n outputs false setup ∧ setup.Mark n)
    (harm : ∀ st, Writes n (fun g => e.Arm n outputs body many model g ∧
      (st = visited → e.Visit n outputs body many model g) ∧
      (st = answered → loops = false → e.Answer n outputs many g)) (arm st)) :
    Writes n (fun switch => e.Shaped n outputs body given loops model [setup, switch])
      (e.statusSwitch type status arm) := by
  refine writes_bind (arms_write harm _) fun arms harms => writes_pure fun pre hpre =>
    .switch hmany hpre hsetup.1 hsetup.2 (fun a ha => ?_) ?_ fun hloops => ?_
  · obtain ⟨st, hsymbol, harm, -⟩ := harms.1 a ha
    exact ⟨⟨st, hsymbol⟩, harm⟩
  · obtain ⟨a, ha, -, hvisit, -⟩ := harms.2 _ hvisited
    exact ⟨a, ha, hvisit rfl⟩
  · obtain ⟨a, ha, -, -, hanswer⟩ := harms.2 _ hanswered
    exact ⟨a, ha, hanswer rfl hloops⟩

theorem tabledBy_writes {way : CallLookup} {gen : Option Generator}
    (h : e.Shape n outputs body given kind (.conjoin (way.goals ++ gs) e.context) gen) :
    Writes n (fun t => e.Shape n outputs body given kind t.body gen ∧ t.generator = none)
      (e.tabledBy way outputs gs) :=
  writes_after (adds_tabledArgs ..) fun _ => writes_pure ⟨h, rfl⟩

/-! Ways of tabling. -/

theorem loopInactive_writes (htip : n ≤ tip.index) :
    Writes n (e.Visit n outputs body false model) (e.loopInactive model body tip) := by
  refine writes_bind (Q := e.Step n outputs false) (call_writes ⟨rfl, rfl⟩ ⟨tip, by simp, htip⟩)
    fun _ hinactive => writes_bind (Q := e.Fails n outputs) (fails_writes rfl) fun _ hfail => ?_
  cases model with
  | det => exact writes_pure (.once (.step hinactive))
  | semi => exact writes_pure (.cond (.step hinactive) hfail)
  | non =>
    exact writes_bind (fails_writes rfl) fun _ hactive => writes_pure
      (.each (.single (.retry hinactive hactive)) (fun h => by cases h) hfail)

/-- Loop checking switches on the status of the call. -/
theorem loopCheck_writes :
    Writes n (fun t => e.Shape n head.outputs body given (.switch true determinism.codeModel) t.body
      none ∧ t.generator = none) (e.loopCheck body determinism head strictness) := by
  refine writes_bind lookup_writes fun way hway => writes_after (adds_newVar ..) fun status =>
    writes_bind (setup_writes ⟨rfl, rfl⟩ rfl ⟨way.tip, by simp, hway.1⟩) fun setup hsetup =>
      writes_bind (statusSwitch_writes rfl .loopInactive .loopInactive (by decide) (by decide)
        hsetup fun st => ?_) fun _ hswitch => tabledBy_writes (hswitch _ hway.2)
  cases st with
  | loopInactive =>
    exact (loopInactive_writes hway.1).imp fun _ hvisit =>
      ⟨.visit hvisit, fun _ => hvisit, fun _ h => by cases h⟩
  | _ => exact error_writes.imp fun _ harm => ⟨harm, by simp, by simp⟩

theorem memoSave_writes (htip : n ≤ tip.index) :
    Writes n (e.Rest n outputs false) (e.memoSave tip outputs) := by
  unfold memoSave
  split
  · exact (call_writes ⟨rfl, rfl⟩ ⟨tip, by simp, htip⟩).imp fun _ => .step
  · exact writes_bind (saveAnswer_writes ⟨rfl, rfl⟩) fun _ hsaves => writes_pure (.steps hsaves.2)

theorem memoRestore_writes :
    Writes n (e.Answer n outputs false) (e.memoRestore tip outputs) := by
  unfold memoRestore
  split
  · next hempty =>
    rw [List.isEmpty_iff.1 hempty]
    exact writes_pure ⟨[], .of_all .nil, rfl⟩
  · exact writes_bind (restoreAnswer_writes rfl (fun _ => rfl) (by decide)) fun gs hgs =>
      writes_pure ⟨gs, hgs, rfl⟩

theorem memoDet_writes (htip : n ≤ tip.index) :
    Writes n (e.Shaped n outputs body given false .det) (e.memoDet body tip outputs) := by
  refine writes_after (adds_newVar ..) fun status =>
    writes_bind (setup_writes ⟨rfl, rfl⟩ rfl ⟨tip, by simp, htip⟩) fun setup hsetup =>
      writes_bind (statusSwitch_writes rfl .memoDetInactive .memoDetSucceeded (by decide)
        (by decide) hsetup fun st => ?_) fun _ => writes_pure
  cases st with
  | memoDetInactive =>
    exact writes_bind (memoSave_writes htip) fun _ hsave =>
      writes_pure ⟨.visit (.once hsave), fun _ => .once hsave, by simp⟩
  | memoDetSucceeded =>
    exact memoRestore_writes.imp fun _ hanswer => ⟨.answer hanswer, by simp, fun _ _ => hanswer⟩
  | _ => exact error_writes.imp fun _ harm => ⟨harm, by simp, by simp⟩

theorem memoSemi_writes (htip : n ≤ tip.index) :
    Writes n (e.Shaped n outputs body given false .semi) (e.memoSemi body tip outputs) := by
  refine writes_after (adds_newVar ..) fun status =>
    writes_bind (setup_writes ⟨rfl, rfl⟩ rfl ⟨tip, by simp, htip⟩) fun setup hsetup =>
      writes_bind (statusSwitch_writes rfl .memoSemiInactive .memoSemiSucceeded (by decide)
        (by decide) hsetup fun st => ?_) fun _ => writes_pure
  cases st with
  | memoSemiInactive =>
    exact writes_bind (memoSave_writes htip) fun _ hsave => writes_bind
      (call_writes ⟨rfl, rfl⟩ ⟨tip, by simp, htip⟩) fun _ hfailed => writes_pure
        ⟨.visit (.cond hsave (.after hfailed)), fun _ => .cond hsave (.after hfailed), by simp⟩
  | memoSemiSucceeded =>
    exact memoRestore_writes.imp fun _ hanswer => ⟨.answer hanswer, by simp, fun _ _ => hanswer⟩
  | memoSemiFailed => exact writes_pure ⟨.fails rfl, by simp, by simp⟩
  | _ => exact error_writes.imp fun _ harm => ⟨harm, by simp, by simp⟩

theorem memoNon_writes :
    Writes n (e.Shaped n outputs body given false .non)
      (e.memoNon body determinism tip outputs) := by
  have hreturn : (returnAll determinism).modes.length = 2 ∧
      (returnAll determinism).determinism.maxSolutions ≠ .zero := by
    unfold returnAll
    split <;> decide
  refine writes_bind (writes_newVar ..) fun record hrecord => writes_after (adds_newVar ..)
    fun status => writes_bind (setup_writes ⟨rfl, rfl⟩ rfl ⟨record, by simp, hrecord⟩)
      fun setup hsetup => writes_bind (statusSwitch_writes rfl .memoNonInactive .memoNonComplete
        (by decide) (by decide) hsetup fun st => ?_) fun _ => writes_pure
  cases st with
  | memoNonInactive =>
    refine writes_bind (newAnswer_writes ⟨rfl, rfl⟩ ⟨rfl, rfl⟩ ⟨rfl, rfl⟩) fun _ hanswer =>
      writes_bind (Q := e.Step n outputs true) (call_writes ⟨rfl, rfl⟩ ⟨record, by simp, hrecord⟩)
        fun _ hincomplete => writes_bind (Q := e.Fails n outputs) (fails_writes rfl)
          fun _ hcomplete => writes_pure ?_
    have hvisit := Visit.of_answered (hanswer.2.append (.single hincomplete)) hcomplete
    exact ⟨.visit hvisit, fun _ => hvisit, by simp⟩
  | memoNonComplete =>
    exact writes_bind (restoreAnswer_writes hreturn.1 (fun h => by cases h) hreturn.2) fun gs hgs =>
      writes_pure ⟨.answer ⟨gs, hgs, rfl⟩, by simp, fun _ _ => ⟨gs, hgs, rfl⟩⟩
  | _ => exact error_writes.imp fun _ harm => ⟨harm, by simp, by simp⟩

theorem memo_writes :
    Writes n (fun t => e.Shape n head.outputs body given (.switch false determinism.codeModel)
      t.body none ∧ t.generator = none)
      (e.memo body determinism head strictness) := by
  refine writes_bind (Q := fun way => n ≤ way.tip.index ∧ e.Steps n head.outputs false way.goals)
    lookup_writes fun _ hway => ?_
  cases determinism.codeModel with
  | det => exact writes_bind (memoDet_writes hway.1) fun _ h => tabledBy_writes (h _ hway.2)
  | semi => exact writes_bind (memoSemi_writes hway.1) fun _ h => tabledBy_writes (h _ hway.2)
  | non => exact writes_bind memoNon_writes fun _ h => tabledBy_writes (h _ hway.2)

theorem stackCopy_writes :
    Writes n (fun t => e.Shape n head.outputs body given (.switch false .non) t.body none ∧
      t.generator = none) (e.stackCopy body head strictness) := by
  refine writes_bind lookup_writes fun _ hway => writes_bind (writes_newVar ..)
    fun subgoal hsubgoal => writes_after (adds_newVar ..) fun status =>
      writes_bind (setup_writes ⟨rfl, rfl⟩ rfl ⟨subgoal, by simp, hsubgoal⟩) fun setup hsetup =>
        writes_bind (statusSwitch_writes rfl .modelInactive .modelComplete (by decide) (by decide)
          hsetup fun st => ?_) fun _ hswitch => tabledBy_writes (hswitch _ hway.2)
  cases st with
  | modelInactive =>
    refine writes_bind (newAnswer_writes ⟨rfl, rfl⟩ ⟨rfl, rfl⟩ ⟨rfl, rfl⟩) fun _ hanswer =>
      writes_bind (Q := e.Step n head.outputs false)
        (call_writes ⟨rfl, rfl⟩ ⟨subgoal, by simp, hsubgoal⟩) fun _ hcompletion => writes_pure ?_
    have hvisit := Visit.of_answered hanswer.2 (.after hcompletion)
    exact ⟨.visit hvisit, fun _ => hvisit, by simp⟩
  | _ =>
    exact writes_bind (restoreAnswer_writes rfl (fun h => by cases h) (by decide)) fun gs hgs =>
      writes_pure ⟨.answer ⟨gs, hgs, rfl⟩, by simp, fun _ _ => ⟨gs, hgs, rfl⟩⟩

theorem generator_writes :
    Writes n (fun gen => gen.outputs = head.outputs ∧ e.GeneratorShape n head.outputs body gen.body)
      (e.generator body head) :=
  writes_bind (writes_newVar ..) fun owner howner =>
    writes_after (adds_mapM (adds_foreignArg · .output) _) fun extra =>
      writes_bind (writes_self (adds_callWith ..)) fun _ hpickup =>
        writes_bind (newAnswer_writes ⟨rfl, rfl⟩ ⟨rfl, rfl⟩ ⟨rfl, rfl⟩) fun _ hanswer =>
          writes_bind (call_writes ⟨rfl, rfl⟩ ⟨owner, by simp, howner⟩) fun _ hanswered =>
            writes_bind (fails_writes rfl) fun _ hcompletion => writes_pure ⟨rfl, _, _, _, _,
              hpickup, callWith_mark hpickup rfl rfl mem_cons_self howner,
              .of_answered (hanswer.2.append (.single hanswered)) hcompletion, rfl⟩

/-- With stacks of its own, a call takes answers from a generator that runs the body. -/
theorem ownStacks_writes :
    Writes n (fun t => e.Shape n head.outputs body given .consume t.body t.generator)
      (e.ownStacks body head strictness) :=
  writes_bind lookup_writes fun way hway =>
    writes_after (adds_mapM (adds_foreignArg · .input) _) fun extra =>
      writes_bind (writes_self (adds_callWith ..)) fun _ hsave =>
        writes_after (adds_newVar ..) fun name => writes_bind (writes_newVar ..)
          fun closure hclosure => writes_after (adds_newVar ..) fun consumer =>
            writes_bind (setup_writes ⟨rfl, rfl⟩ rfl ⟨closure, by simp, hclosure⟩) fun _ hsetup =>
              writes_bind (Q := Binding (e.Step n head.outputs true) head.outputs)
                (restoreAnswer_writes rfl (by simp) (by decide)) fun _ hanswers =>
                  writes_bind generator_writes fun gen hgen =>
                    writes_bind (tabledBy_writes (.consume hway.2 hsave hsetup.1 hsetup.2 hanswers
                      hgen.1 hgen.2)) fun _ ht => writes_pure ht.1

section

variable {pred : Predicate} {proc : Procedure} {tabled : Tabled}

/-- An action is performed and recorded, or taken from the table. -/
theorem tableIo_shape (hin : given → proc.ioHead.statesIn ≠ [])
    (hr : Returns (e.tableIo proc.body purpose unit proc.tabledHead) (.ofProc pred proc) tabled
      s') :
    e.Shape proc.vars.size proc.tabledHead.outputs proc.body given .action tabled.body
      tabled.generator := by
  obtain ⟨h, s₁, hhead, hr⟩ := returns_bind.1 hr
  obtain ⟨rfl, rfl⟩ := returns_ioHead hhead
  refine (Writes.of_returns (Q := fun t : Tabled => e.Shape proc.vars.size proc.tabledHead.outputs
    proc.body given .action t.body t.generator) ?_ hr (Nat.le_refl _)).2
  refine writes_bind (writes_newVar ..) fun root hroot => writes_after (adds_newVar ..) fun _ =>
    writes_after (adds_newVar ..) fun _ => writes_bind (writes_self (adds_call ..)) fun _ hrange =>
      writes_bind (writes_newVar ..) fun tip htip => writes_bind
        (Q := e.Step proc.vars.size proc.tabledHead.outputs false)
        (call_writes ⟨rfl, rfl⟩ ⟨tip, by simp, htip⟩) fun _ hlookup =>
          writes_bind (writes_self (adds_call ..)) fun _ hhas =>
            writes_bind ioRestore_writes fun _ hrestore => writes_bind
              (Q := e.Around proc.vars.size proc.tabledHead.outputs proc.body) ioRecord_writes
              fun _ hrecord => writes_after (adds_tabledArgs ..) fun _ =>
                writes_after (adds_tabledArgs ..) fun _ => writes_pure ?_
  refine .action hrange (callWith_mark hrange rfl rfl mem_cons_self hroot) hlookup hhas
    hrestore.all (fun hgiven v hv => ?_) hrecord
  have hbinds := hrestore.binds v
  rw [IoHead.map_fst_statePairs (hin hgiven)] at hbinds
  exact hbinds (Procedure.outputs_subset_ioHead hv)

/-- Whatever the method, the code of a tabled procedure has a shape. -/
theorem tabled_shape (hr : Returns (e.tabled proc) (.ofProc pred proc) (some tabled) s') :
    e.Shape proc.vars.size proc.tabledHead.outputs proc.body
      (∀ purpose unit, proc.method = .tableIo purpose unit → proc.ioHead.statesIn ≠ [])
      proc.tableKind tabled.body tabled.generator := by
  have hn : proc.vars.size ≤ (WitnessState.ofProc pred proc).vars.size := Nat.le_refl _
  unfold Procedure.tableKind
  rcases tabled_cases hr with ⟨_, hm, hr⟩ | ⟨_, hm, hr⟩ | ⟨_, hm, hr⟩ | ⟨_, hm, hr⟩ | ⟨_, _, hm, hr⟩
  · obtain ⟨-, hshape, hnone⟩ := loopCheck_writes.of_returns hr hn
    simpa only [hm, hnone] using hshape
  · obtain ⟨-, hshape, hnone⟩ := memo_writes.of_returns hr hn
    simpa only [hm, hnone] using hshape
  · obtain ⟨-, hshape, hnone⟩ := stackCopy_writes.of_returns hr hn
    simpa only [hm, hnone] using hshape
  · simpa only [hm] using (ownStacks_writes.of_returns hr hn).2
  · rw [hm]
    exact tableIo_shape (fun hin => hin _ _ rfl) hr

end

end TableEnv

end Clausal
