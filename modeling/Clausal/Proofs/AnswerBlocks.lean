import Clausal.Proofs.Actions
import Clausal.Proofs.TypeNames

/-!
# What goes into an answer block comes out again

The slot of a value is a matter of three parts: the code that saves it, the code
that restores it, and the description of the table. They meet at the list of
the variables with their slots, `vars.zipIdx first`: the goals come in groups,
one for each element of it, and both groups of a variable use its slot, by the
primitives of the category of its type.
-/

namespace Clausal

open List Goal Store Tables WitnessState VarTable

variable {T : Type} {R : Runtime T} {m : Module} {t : Ty} {f : Nat → Option (Primitive × Value)}
  {i : Nat} {types : List Ty} {xs : List Value}

/-- The primitive that restores a value of a category. -/
def TypeCategory.restorer (c : TypeCategory) : Primitive :=
  (c.slotPrimitives?.map Prod.snd).getD .restoreAny

/-- The variable and the slot of an argument in the description of a table. -/
def TabledArg.place (arg : TabledArg) : ProgVar × Nat := (arg.var, arg.slot)

/-- Goals come in groups, one for each element of a list. -/
def Goal.Grouped {α : Type} (P : α → List Goal → Prop) (as : List α) (goals : List Goal) : Prop :=
  ∃ groups : List (List Goal), goals = groups.flatten ∧ Forall₂ P as groups

namespace Module

/-- What becomes of a value in a block: the constant of a type with a single
    value is made anew, and other values stay. -/
def restored (m : Module) (t : Ty) (x : Value) : Value :=
  match m.category t, m.dummyConstant t with
  | .ok .dummy, .ok (some f) => .cell f []
  | _, _ => x

theorem restored_of_ne_dummy {c : TypeCategory} (hc : m.category t = .ok c) (hne : c ≠ .dummy)
    (x : Value) : m.restored t x = x := by
  rw [restored, hc]
  split
  · next h _ => exact absurd (Except.ok.inj h) hne
  · rfl

theorem single_restored (t : Ty) (x : Value) : m.Single t (m.restored t x) := by
  intro h
  obtain ⟨-, -, -, ctor, -, -, -, -, hconst⟩ := dummyConstant_of_category h
  exact ⟨_, hconst, by rw [restored, h, hconst]⟩

theorem Holds.restored (h : m.Holds f i types xs) :
    m.Holds f i types (zipWith m.restored types xs) := by
  induction types generalizing i xs with
  | nil => trivial
  | cons t types ih =>
    cases xs with
    | nil => trivial
    | cons x xs =>
      refine ⟨fun c hc hne => ?_, ih h.2⟩
      rw [restored_of_ne_dummy hc hne]
      exact h.1 c hc hne

end Module

namespace TableEnv

open Synth

variable {e : TableEnv} {s s' : WitnessState} {p : Primitive} {vars : VarTable} {h : IoHead}
  {block owner var tip : ProgVar} {outputs ins outs : List ProgVar} {goals : List Goal}
  {purpose : IoPurpose} {kept : Bool} {first : Nat}

/-! ### The code of a slot -/

/-- Goals call a primitive on a slot of a block; the type-info that it may need
    comes first. -/
def UsesSlot (e : TableEnv) (p : Primitive) (block : ProgVar) (slot : Nat)
    (ins outs : List ProgVar) (goals : List Goal) : Prop :=
  ∃ setup slotVar infos g, goals = setup ++ [.intConst slotVar slot e.context, g] ∧
    g.Calls p (infos ++ block :: slotVar :: ins) outs

/-- Goals save a variable in a slot, by the primitive of the category of its
    type. -/
def Saves (e : TableEnv) (vars : VarTable) (block : ProgVar) (x : ProgVar × Nat)
    (goals : List Goal) : Prop :=
  ∀ type, vars.type x.1 = .ok type → ∃ c, e.env.category type = .ok c ∧
    (c = .dummy ∧ goals = [] ∨ c ≠ .dummy ∧ e.UsesSlot c.saver block x.2 [x.1] [] goals)

/-- Goals restore a variable from a slot, by the primitive of the category of its
    type. -/
def Restores (e : TableEnv) (vars : VarTable) (block : ProgVar) (x : ProgVar × Nat)
    (goals : List Goal) : Prop :=
  ∀ type, vars.type x.1 = .ok type → ∃ c, e.env.category type = .ok c ∧
    ((c = .dummy ∧ ∃ name, e.env.dummyConstant type = .ok (some (.cons name 0)) ∧
        goals = [.construct x.1 (.cons name 0) [] e.context]) ∨
      c ≠ .dummy ∧ e.UsesSlot c.restorer block x.2 [] [x.1] goals)

theorem moveAtomic_uses (hr : Returns (e.moveAtomic p block i var) s goals s')
    (hvar : ins ++ outs = [var]) (hin : ins.length + 2 = p.signature.inputs.length)
    (hout : outs.length = p.signature.outputs.length) : e.UsesSlot p block i ins outs goals := by
  simp only [moveAtomic, returns_bind, returns_intVar, returns_pure] at hr
  obtain ⟨_, _, ⟨rfl, rfl⟩, g, _, hcall, rfl, rfl⟩ := hr
  rw [← hvar] at hcall
  obtain ⟨-, hg⟩ := returns_call (block :: s.nextVar :: ins) outs hcall hin hout
  exact ⟨[], s.nextVar, [], g, rfl, hg⟩

theorem moveGeneral_uses (hr : Returns (e.moveGeneral p t block i var) s goals s')
    (hvar : ins ++ outs = [var]) (hin : ins.length + 3 = p.signature.inputs.length)
    (hout : outs.length = p.signature.outputs.length) : e.UsesSlot p block i ins outs goals := by
  simp only [moveGeneral, returns_bind, returns_intVar, returns_pure] at hr
  obtain ⟨⟨info, infoGoals⟩, s₁, -, _, _, ⟨rfl, rfl⟩, g, _, hcall, rfl, rfl⟩ := hr
  rw [← hvar] at hcall
  obtain ⟨-, hg⟩ := returns_call (info :: block :: s₁.nextVar :: ins) outs hcall hin hout
  exact ⟨infoGoals, s₁.nextVar, [info], g, rfl, hg⟩

theorem save_saves (hr : Returns (e.save block i var) s goals s') (hs : vars.Extends s.vars) :
    e.Saves vars block (var, i) goals := by
  intro type htype
  obtain ⟨type', c, htype', hc, hr⟩ := save_cases hr
  obtain rfl := Except.ok.inj ((hs.type_eq htype).symm.trans htype')
  refine ⟨c, hc, ?_⟩
  rcases hr with ⟨hdummy, rfl, -⟩ | ⟨hdummy, ⟨p, q, hpq, hr⟩ | ⟨hnone, hr⟩⟩
  · exact .inl ⟨hdummy, rfl⟩
  · have hlen : 3 = p.signature.inputs.length ∧ 0 = p.signature.outputs.length := by
      cases c <;> cases hpq <;> decide
    have hsaver : c.saver = p := by rw [TypeCategory.saver, hpq]; rfl
    exact .inr ⟨hdummy, hsaver ▸ moveAtomic_uses hr rfl hlen.1 hlen.2⟩
  · have hsaver : c.saver = .saveAny := by rw [TypeCategory.saver, hnone]; rfl
    exact .inr ⟨hdummy, hsaver ▸ moveGeneral_uses hr rfl rfl rfl⟩

theorem restore_restores (hr : Returns (e.restore block i var) s goals s')
    (hs : vars.Extends s.vars) : e.Restores vars block (var, i) goals := by
  intro type htype
  obtain ⟨type', c, htype', hc, hr⟩ := restore_cases hr
  obtain rfl := Except.ok.inj ((hs.type_eq htype).symm.trans htype')
  refine ⟨c, hc, ?_⟩
  rcases hr with ⟨rfl, ⟨f, hf, rfl⟩, -⟩ | ⟨hdummy, ⟨p, q, hpq, hr⟩ | ⟨hnone, hr⟩⟩
  · obtain ⟨name, rfl⟩ := Module.dummyConstant_eq_cons hf
    exact .inl ⟨rfl, name, hf, rfl⟩
  · have hlen : 2 = q.signature.inputs.length ∧ 1 = q.signature.outputs.length := by
      cases c <;> cases hpq <;> decide
    have hrestorer : c.restorer = q := by rw [TypeCategory.restorer, hpq]; rfl
    exact .inr ⟨hdummy, hrestorer ▸ moveAtomic_uses hr rfl hlen.1 hlen.2⟩
  · have hrestorer : c.restorer = .restoreAny := by rw [TypeCategory.restorer, hnone]; rfl
    exact .inr ⟨hdummy, hrestorer ▸ moveGeneral_uses hr rfl rfl rfl⟩

theorem restore_dummy (htype : s.vars.type var = .ok t) (hdummy : e.env.category t = .ok .dummy)
    (block : ProgVar) (slot : Int) : ∃ name,
      Returns (e.restore block slot var) s [.construct var (.cons name 0) [] e.context] s := by
  obtain ⟨-, -, -, ctor, -, -, -, -, hconst⟩ := Module.dummyConstant_of_category hdummy
  refine ⟨ctor.name, ?_⟩
  simp only [restore, returns_bind, returns_varType, returns_lift]
  refine ⟨t, s, ⟨htype, rfl⟩, .dummy, s, ⟨hdummy, rfl⟩, ?_⟩
  rw [if_pos rfl]
  simp only [restoreDummy, returns_bind, returns_lift]
  exact ⟨_, s, ⟨hconst, rfl⟩, returns_pure.2 ⟨rfl, rfl⟩⟩

/-! ### The code of a block -/

theorem grouped_of_goalsOf {α : Type} {step : α → Synth (List Goal)} {as : List α}
    {P : α → List Goal → Prop} (hr : Returns (goalsOf step as) s goals s')
    (hstep : ∀ a, Adds (step a))
    (hP : ∀ a s₁ gs s₂, s.Extends s₁ → Returns (step a) s₁ gs s₂ → P a gs) :
    Grouped P as goals := by
  induction as generalizing s goals with
  | nil =>
    obtain ⟨rfl, -⟩ := returns_pure.1 hr
    exact ⟨[], rfl, .nil⟩
  | cons a as ih =>
    rw [returns_goalsOf_cons] at hr
    obtain ⟨goals₁, s₁, goals₂, h₁, h₂, rfl⟩ := hr
    have hs₁ : s.Extends s₁ := (hstep a).mono h₁
    obtain ⟨groups, rfl, hgroups⟩ := ih h₂ fun b s₂ gs s₃ hs₂ => hP b s₂ gs s₃ (hs₁.trans hs₂)
    exact ⟨goals₁ :: groups, rfl, .cons (hP a s goals₁ s₁ (.refl s) h₁) hgroups⟩

theorem saveFrom_grouped (hr : Returns (e.saveFrom block first outputs) s goals s')
    (hs : vars.Extends s.vars) :
    Grouped (e.Saves vars block) (outputs.zipIdx first) goals :=
  grouped_of_goalsOf hr (fun _ => adds_save) fun _ _ _ _ hs₁ h₁ => save_saves h₁ (hs.trans hs₁.vars)

theorem restoreFrom_grouped (hr : Returns (e.restoreFrom block first outputs) s goals s')
    (hs : vars.Extends s.vars) :
    Grouped (e.Restores vars block) (outputs.zipIdx first) goals :=
  grouped_of_goalsOf hr (fun _ => adds_restore) fun _ _ _ _ hs₁ h₁ =>
    restore_restores h₁ (hs.trans hs₁.vars)

theorem tabledArgs_place {args : List TabledArg}
    (hr : Returns (tabledArgs first outputs) s args s') :
    args.map TabledArg.place = outputs.zipIdx first := by
  unfold tabledArgs at hr
  generalize outputs.zipIdx first = places at hr
  induction places generalizing s args with
  | nil =>
    obtain ⟨rfl, -⟩ := returns_mapM_nil.1 hr
    rfl
  | cons place places ih =>
    obtain ⟨arg, s₁, args, h₁, h₂, rfl⟩ := returns_mapM_cons.1 hr
    simp only [returns_bind, returns_pure] at h₁
    obtain ⟨type, _, -, rfl, -⟩ := h₁
    rw [map_cons, ih h₂]
    rfl

theorem newBlock_code {size : Nat} (hr : Returns (e.newBlock p owner size) s (block, goals) s')
    (hin : 2 = p.signature.inputs.length) (hout : 1 = p.signature.outputs.length) :
    ∃ sizeVar create, goals = [.intConst sizeVar size e.context, create] ∧
      create.Calls p [owner, sizeVar] [block] := by
  simp only [newBlock, returns_bind, returns_intVar, returns_newHandle, returns_pure] at hr
  obtain ⟨_, _, ⟨rfl, rfl⟩, v, _, ⟨rfl, rfl⟩, g, _, hcall, heq, rfl⟩ := hr
  cases heq
  exact ⟨_, g, rfl, (returns_call [owner, _] [_] hcall hin hout).2⟩

/-- The code of answer blocks, for variables with the types of a table. -/
structure CodesAnswers (e : TableEnv) (vars : VarTable) : Prop where
  /-- The block has a slot for each output, and what is saved stays in it. -/
  saved : ∀ p owner outputs s block goals s', 2 = p.signature.inputs.length →
    1 = p.signature.outputs.length → vars.Extends s.vars →
    Returns (e.saveAnswer p owner outputs) s (block, goals) s' →
    ∃ sizeVar create saves, goals = .intConst sizeVar outputs.length e.context :: create :: saves ∧
      create.Calls p [owner, sizeVar] [block] ∧ (∀ x ∈ outputs.zipIdx, x.2 < outputs.length) ∧
      Grouped (e.Saves vars block) outputs.zipIdx saves
  restored : ∀ p owner outputs s goals s', 1 = p.signature.inputs.length →
    1 = p.signature.outputs.length → vars.Extends s.vars →
    Returns (e.restoreAnswer p owner outputs) s goals s' →
    ∃ get block restores, goals = get :: restores ∧ get.Calls p [owner] [block] ∧
      Grouped (e.Restores vars block) outputs.zipIdx restores
  described : ∀ way outputs goals s tabled s',
    Returns (e.tabledBy way outputs goals) s tabled s' →
    ∃ args, tabled.layout = .callTable way.steps way.inputs args ∧
      args.map TabledArg.place = outputs.zipIdx

theorem codesAnswers (e : TableEnv) (vars : VarTable) : e.CodesAnswers vars where
  saved p owner outputs s block goals s' hin hout hs hr := by
    simp only [saveAnswer, returns_bind, returns_pure] at hr
    obtain ⟨⟨block, create⟩, s₁, hnew, saves, s₂, hsaves, heq, rfl⟩ := hr
    cases heq
    obtain ⟨sizeVar, create, rfl, hcreate⟩ := newBlock_code hnew hin hout
    refine ⟨sizeVar, create, saves, rfl, hcreate, fun x hx => ?_,
      saveFrom_grouped hsaves (hs.trans (adds_newBlock.mono hnew).vars)⟩
    exact Nat.zero_add outputs.length ▸ snd_lt_add_of_mem_zipIdx hx
  restored p owner outputs s goals s' hin hout hs hr := by
    simp only [restoreAnswer, returns_bind, returns_newHandle, returns_pure] at hr
    obtain ⟨_, _, ⟨rfl, rfl⟩, g, s₁, hcall, restores, _, hrestores, rfl, rfl⟩ := hr
    obtain ⟨rfl, hg⟩ := returns_call [owner] [s.nextVar] hcall hin hout
    have hadd : s.Extends (s.addVar "AnswerBlock" Handle.block.type) := .addVar ..
    exact ⟨g, _, restores, rfl, hg, restoreFrom_grouped hrestores (hs.trans hadd.vars)⟩
  described way outputs goals s tabled s' hr := by
    simp only [tabledBy, returns_bind, returns_pure] at hr
    obtain ⟨args, _, hargs, rfl, -⟩ := hr
    exact ⟨args, rfl, tabledArgs_place hargs⟩

/-! ### The code of the block of an action -/

/-- The slots of an action that something is saved in: that of its description
    and those of its inputs, those of its outputs, and that of the I/O state. -/
def IoHead.usedSlots (h : IoHead) (purpose : IoPurpose) (kept : Bool) : List Nat :=
  let slots := h.slots purpose kept
  (if purpose = .decl then 0 :: (h.inputs.zipIdx slots.firstInput).map Prod.snd else []) ++
    ((h.outputs.zipIdx slots.firstOutput).map Prod.snd ++
      if kept && !h.statesOut.isEmpty then [slots.state] else [])

/-- Every slot of the block is used, and none is used twice. -/
theorem IoHead.usedSlots_eq (h : IoHead) (purpose : IoPurpose) (kept : Bool) :
    h.usedSlots purpose kept = List.range (h.slots purpose kept).size := by
  have hsnd : ∀ (vs : List ProgVar) n, (vs.zipIdx n).map Prod.snd = List.range' n vs.length :=
    fun vs n => zipIdx_map_snd n vs
  have hlast : ∀ (keep : Bool) n k, List.range' n k ++ (if keep then [n + k] else []) =
      List.range' n (k + if keep then 1 else 0) := by
    intro keep n k
    rw [← List.range'_append_1]
    cases keep <;> rfl
  have hsize : ∀ (keep : Bool) (n : Nat), (if keep then n + 1 else n) =
      n + if keep then 1 else 0 := by
    intro keep n
    cases keep <;> rfl
  unfold usedSlots slots
  dsimp only
  rw [hsize, hsnd, hsnd, hlast, List.range_eq_range']
  cases purpose with
  | decl =>
    simp only [reduceIte, cons_append, List.range'_append_1]
    rw [Nat.add_assoc, Nat.add_assoc, Nat.add_comm 1, List.range'_succ]
  | proc => rw [if_neg (by decide), if_neg (by decide), nil_append, Nat.zero_add]

/-- Goals do an action and keep its effect in a block with a slot for each part
    of it. -/
def KeepsEffect (e : TableEnv) (vars : VarTable) (purpose : IoPurpose) (h : IoHead)
    (tip : ProgVar) (goals : List Goal) : Prop :=
  ∃ action sizeVar create block entry saves states,
    goals = action ++ .intConst sizeVar (e.ioSlots h purpose).size e.context :: create ::
      (entry ++ (saves ++ states)) ∧
    create.Calls .memoCreateBlock [tip, sizeVar] [block] ∧
    (if purpose = .decl then ∃ description save inputs,
      entry = .construct description (.ioEntry e.proc) [] e.context :: save ++ inputs ∧
      e.UsesSlot .saveIoEntry block 0 [description] [] save ∧
      Grouped (e.Saves vars block) (h.inputs.zipIdx (e.ioSlots h purpose).firstInput) inputs
    else entry = []) ∧
    Grouped (e.Saves vars block) (h.outputs.zipIdx (e.ioSlots h purpose).firstOutput) saves ∧
    if e.env.options.traceTableIoStates then
      Grouped (fun state => e.UsesSlot .saveIoState block (e.ioSlots h purpose).state [state] [])
        h.statesOut states
    else states = []

/-- Goals take the effect of an action from a block. -/
def RestoresEffect (e : TableEnv) (vars : VarTable) (purpose : IoPurpose) (h : IoHead)
    (tip : ProgVar) (goals : List Goal) : Prop :=
  ∃ get block restores states, goals = get :: restores ++ states ∧
    get.Calls .memoGetBlock [tip] [block] ∧
    Grouped (e.Restores vars block) (h.outputs.zipIdx (e.ioSlots h purpose).firstOutput) restores ∧
    (e.env.options.traceTableIoStates = true →
      Grouped (fun x => e.UsesSlot .restoreIoState block (e.ioSlots h purpose).state [] [x.1])
        h.statePairs states)

theorem ioRecord_keeps {body : Goal} {unit : IoUnit} (hs : vars.Extends s.vars)
    (hr : Returns (e.ioRecord body purpose unit h (e.ioSlots h purpose) tip) s goals s') :
    e.KeepsEffect vars purpose h tip goals := by
  obtain ⟨action, s₁, block, create, s₂, entry, s₃, saves, s₄, states, haction, hnew, hentry,
    hsaves, hstates, rfl⟩ := returns_ioRecord hr
  have hs₂ : vars.Extends s₂.vars :=
    (hs.trans (adds_ioBracket.mono haction).vars).trans (adds_newBlock.mono hnew).vars
  have hs₃ : vars.Extends s₃.vars := hs₂.trans (adds_ioSaveFor.mono hentry).vars
  obtain ⟨sizeVar, g, rfl, hg⟩ := newBlock_code hnew rfl rfl
  refine ⟨action, sizeVar, g, block, entry, saves, states, rfl, hg, ?_,
    saveFrom_grouped hsaves hs₃, ?_⟩
  · unfold ioSaveFor at hentry
    split at hentry
    · next hdecl =>
      simp only [ioSaveEntry, returns_bind, returns_newHandle, returns_pure] at hentry
      obtain ⟨_, _, ⟨rfl, rfl⟩, save, s₅, hsave, inputs, s₆, hinputs, rfl, rfl⟩ := hentry
      have hadd : s₂.Extends (s₂.addVar "TableIoEntry" Handle.ioEntry.type) := .addVar ..
      rw [if_pos hdecl]
      exact ⟨_, save, inputs, rfl, moveAtomic_uses hsave rfl rfl rfl, saveFrom_grouped hinputs
        (hs₂.trans (hadd.trans (adds_moveAtomic.mono hsave)).vars)⟩
    · next hdecl =>
      rw [if_neg hdecl]
      exact (returns_pure.1 hentry).1
  · unfold ioSaveStates at hstates
    split at hstates
    · next hkept =>
      rw [if_pos hkept]
      exact grouped_of_goalsOf hstates (fun _ => adds_moveAtomic) fun _ _ _ _ _ h₁ =>
        moveAtomic_uses h₁ rfl rfl rfl
    · next hkept =>
      rw [if_neg hkept]
      exact (returns_pure.1 hstates).1

theorem ioRestore_restores (hs : vars.Extends s.vars)
    (hr : Returns (e.ioRestore h (e.ioSlots h purpose) tip) s goals s') :
    e.RestoresEffect vars purpose h tip goals := by
  simp only [ioRestore, returns_bind, returns_newHandle, returns_pure] at hr
  obtain ⟨_, _, ⟨rfl, rfl⟩, g, s₁, hcall, restores, s₂, hrestores, states, s₃, hstates, rfl,
    rfl⟩ := hr
  obtain ⟨rfl, hg⟩ := returns_call [tip] [s.nextVar] hcall rfl rfl
  have hadd : s.Extends (s.addVar "AnswerBlock" Handle.block.type) := .addVar ..
  refine ⟨g, _, restores, states, rfl, hg, restoreFrom_grouped hrestores (hs.trans hadd.vars),
    fun hkept => ?_⟩
  simp only [hkept, if_true] at hstates
  exact grouped_of_goalsOf hstates (fun _ => adds_moveAtomic) fun _ _ _ _ _ h₁ =>
    moveAtomic_uses h₁ rfl rfl rfl

/-- The code of the blocks of I/O actions. -/
def CodesActions (e : TableEnv) : Prop :=
  ∀ proc pred purpose unit tabled s',
    Returns (e.tableIo proc.body purpose unit proc.tabledHead) (.ofProc pred proc) tabled s' →
    ∃ inRange lookup hasAnswer tip restore record ins outs,
      tabled.body = .ifThenElse inRange (.conjoin [lookup, .ifThenElse hasAnswer
        (.conjoin restore e.context) (.conjoin record e.context) e.context] e.context)
        proc.body e.context ∧
      e.KeepsEffect proc.vars purpose proc.ioHead tip record ∧
      e.RestoresEffect proc.vars purpose proc.ioHead tip restore ∧
      tabled.layout = .ioTable purpose unit ins outs ∧
      ins.map TabledArg.place =
        proc.ioHead.inputs.zipIdx (e.ioSlots proc.ioHead purpose).firstInput ∧
      outs.map TabledArg.place =
        proc.ioHead.outputs.zipIdx (e.ioSlots proc.ioHead purpose).firstOutput

theorem codesActions (e : TableEnv) : e.CodesActions := by
  intro proc pred purpose unit tabled s' hr
  obtain ⟨inRange, lookup, hasAnswer, restore, record, s₁, s₂, s₃, -, -, -, hs₁, -, hs₂, hrestore,
    hrecord, hbody, ins, outs, s₄, hlayout, hins, houts⟩ := returns_tableIo hr
  exact ⟨inRange, lookup, hasAnswer, _, restore, record, ins, outs, hbody,
    ioRecord_keeps (hs₁.trans hs₂).vars hrecord, ioRestore_restores hs₁.vars hrestore, hlayout,
    tabledArgs_place hins, tabledArgs_place houts⟩

/-! ### Running the code -/

/-- Outputs that are saved in a block get their values back from it, as long as
    nothing else is saved in their slots. -/
def RoundTrips (e : TableEnv) (R : Runtime T) : Prop :=
  ∀ {first outputs types xs s saves s' σ w b block} {infoOf : Ty → Option Value},
    Returns (e.saveFrom block first outputs) s saves s' → σ.Below s.vars.size →
    Described R s σ infoOf outputs types → σ block = some b → σ.Binds outputs xs →
    first + outputs.length ≤ (R.view w.tables).size b →
    R.Runs 0 s'.vars.size saves σ w fun _ v => ∃ f, v = (R.view w.tables).setSlots b f ∧
      (∀ j < first, f j = (R.view w.tables).slot b j) ∧
      ∀ {block t restores t' σ₁ bound bs} {w₁ : World T},
        Returns (e.restoreFrom block first outputs) t restores t' → σ₁.Below t.vars.size →
        Forall₂ (fun v type => t.vars.type v = .ok type) outputs types →
        t.witnesses.InTurn R.accessors bound bs outputs types
          (zipWith e.env.restored types xs) →
        σ₁.Binds bound bs → σ₁ block = some b → (∀ v ∈ outputs, σ₁ v = none) →
        (∀ j, first ≤ j → j < first + outputs.length → (R.view w₁.tables).slot b j = f j) →
        R.Runs 0 t'.vars.size restores σ₁ w₁ fun σ' v =>
          σ'.Binds outputs (zipWith e.env.restored types xs) ∧ v = R.view w₁.tables

/-- The I/O state that is saved in a block is restored from it. -/
def StatesRoundTrip (e : TableEnv) (R : Runtime T) : Prop :=
  ∀ {slot : Nat} {state x s saves s' σ w b block},
    Returns (e.moveAtomic .saveIoState block slot state) s saves s' → σ.Below s.vars.size →
    σ block = some b → σ state = some x → slot < (R.view w.tables).size b →
    R.Runs 0 s'.vars.size saves σ w fun _ v => ∃ f, v = (R.view w.tables).setSlots b f ∧
      (∀ j ≠ slot, f j = (R.view w.tables).slot b j) ∧
      ∀ {block t restores t' σ₁} {w₁ : World T},
        Returns (e.moveAtomic .restoreIoState block slot state) t restores t' →
        σ₁.Below t.vars.size → state.index < t.vars.size → σ₁ block = some b →
        (R.view w₁.tables).slot b slot = f slot →
        R.Sets t.vars.size t'.vars.size restores σ₁ w₁ state x

/-- There is a store in which the outputs have the values that they get back. -/
theorem exists_binds_restored {σ : Store}
    (htypes : Forall₂ (fun v type => vars.type v = .ok type) outputs types)
    (hxs : σ.Binds outputs xs) :
    ∃ ρ : Store, ρ.Binds outputs (zipWith e.env.restored types xs) := by
  refine ⟨fun v => (vars.type v).toOption.bind fun type => (σ v).map (e.env.restored type), ?_⟩
  induction htypes generalizing xs with
  | nil => exact .nil
  | cons htype _ ih =>
    obtain ⟨x, xs, hx, hmore, rfl⟩ := forall₂_cons_left_iff.1 hxs
    refine .cons ?_ (ih hmore)
    simp [htype, hx, Except.toOption]

theorem roundTrips (hR : R.KeepsSlots) : e.RoundTrips R := by
  intro first outputs types xs s saves s' σ w b block infoOf hsaves hσ hd hb hxs hsize
  refine Runtime.Runs.imp (saveFrom_runs hR hσ hb (Nat.zero_le _) hsaves hd hxs hsize) ?_
  rintro - v - ⟨f, hv, hbefore, hheld⟩
  refine ⟨f, hv, hbefore, ?_⟩
  intro block t restores t' σ₁ bound bs w₁ hrestores hσ₁ htypes hturn hbound hb₁ hfree hslots
  have hlen : outputs.length = types.length := htypes.length_eq
  have hsingle : Forall₂ e.env.Single types (zipWith e.env.restored types xs) := by
    refine forall₂_iff_get.2 ⟨?_, fun j _ _ => ?_⟩
    · rw [length_zipWith, ← hlen, ← hxs.length_eq, Nat.min_self]
    · simpa using Module.single_restored _ _
  obtain ⟨ρ, hρ⟩ := exists_binds_restored hd.types hxs
  refine restoreFrom_runs hR hσ₁ hb₁ hrestores htypes (fun _ _ h => h) hturn hbound hsingle
    (hheld.restored.congr fun j hj hlt => hslots j hj (hlen ▸ hlt)) hρ fun v hv x hx => ?_
  rw [hfree v hv] at hx
  cases hx

theorem statesRoundTrip (hR : R.KeepsSlots) : e.StatesRoundTrip R := by
  intro slot state x s saves s' σ w b block hsaves hσ hb hx hslot
  refine Runtime.Runs.imp (moveAtomic_saves hR hσ hb (Nat.zero_le _) (by decide) hsaves hx hslot) ?_
  rintro - v - rfl
  refine ⟨_, rfl, fun j hj => Function.update_of_ne hj .., ?_⟩
  intro block t restores t' σ₁ w₁ hrestores hσ₁ hstate hb₁ hsame
  exact moveAtomic_restores hR hσ₁ hb₁ (by decide) hrestores hstate
    (hsame.trans (Function.update_self ..))

/-- What goes into an answer block comes out again, in every memory whose slots
    give back what was saved in them last. An output of a type with a single value
    is always made anew from its constant. -/
theorem answer_blocks_round_trip (e : TableEnv) :
    (∀ s var type block slot, s.vars.type var = .ok type → e.env.category type = .ok .dummy →
      ∃ name, Returns (e.restore block slot var) s [.construct var (.cons name 0) [] e.context] s) ∧
    (∀ vars, e.CodesAnswers vars) ∧ e.CodesActions ∧
    (∀ (h : IoHead) purpose kept,
      h.usedSlots purpose kept = List.range (h.slots purpose kept).size) ∧
    ∀ (T : Type) (R : Runtime T), R.KeepsSlots → e.RoundTrips R ∧ e.StatesRoundTrip R :=
  ⟨fun _ _ _ block slot htype hdummy => restore_dummy htype hdummy block slot, e.codesAnswers,
    e.codesActions, fun h purpose kept => h.usedSlots_eq purpose kept,
    fun _ _ hR => ⟨roundTrips hR, statesRoundTrip hR⟩⟩

end TableEnv

/-! ### An example -/

namespace TabledExample

/-- The code of answer blocks in the example module. -/
def answerEnv : TableEnv := ⟨base, tabledProc, default, default⟩

/-- A block and two outputs, the second of the type that has one value. -/
def answerVars : WitnessState where
  vars := ⟨#[⟨some "Block", Handle.block.type⟩, ⟨some "N", .int⟩, ⟨some "U", unitType⟩]⟩
  scope := .empty

theorem below_setMany (vs : List ProgVar) (xs : List Value) (h : ∀ v ∈ vs, v.index < 3) :
    Store.Below (setMany (fun _ => none) vs xs) 3 := by
  intro v x hx
  by_contra hv
  rw [setMany_of_notMem fun hmem => hv (h v hmem)] at hx
  cases hx

/-- Of the answer `7, unit` the number is saved in the first slot of a block and comes
    back from there, and the other value is made anew. -/
theorem seven_comes_back : ∃ saves s' restores t',
    Synth.Returns (answerEnv.saveFrom ⟨0⟩ 0 [⟨1⟩, ⟨2⟩]) answerVars saves s' ∧
    Synth.Returns (answerEnv.restoreFrom ⟨0⟩ 0 [⟨1⟩, ⟨2⟩]) answerVars restores t' ∧
    numbering.Runs 0 s'.vars.size saves
      (setMany (fun _ => none) [⟨0⟩, ⟨1⟩, ⟨2⟩] [Memory.blockOf unit, .ofInt 7, unit])
      ⟨Memory.createBlock unit 2 {}, []⟩ fun _ v => ∀ w : World Memory,
        numbering.view w.tables = v → numbering.Runs 0 t'.vars.size restores
          (setMany (fun _ => none) [⟨0⟩] [Memory.blockOf unit]) w fun σ' v' =>
            σ'.Binds [⟨1⟩, ⟨2⟩] [.ofInt 7, unit] ∧ v' = v := by
  obtain ⟨⟨saves, s'⟩, hsaves⟩ : ∃ r, answerEnv.saveFrom ⟨0⟩ 0 [⟨1⟩, ⟨2⟩] answerVars = .ok r :=
    exists_of_isOk (by decide +kernel)
  obtain ⟨⟨restores, t'⟩, hrestores⟩ :
      ∃ r, answerEnv.restoreFrom ⟨0⟩ 0 [⟨1⟩, ⟨2⟩] answerVars = .ok r :=
    exists_of_isOk (by decide +kernel)
  have hround : answerEnv.RoundTrips numbering :=
    (answerEnv.answer_blocks_round_trip.2.2.2.2 Memory numbering (Memory.keepsSlots _)).1
  have htypes : Forall₂ (fun v type => answerVars.vars.type v = .ok type) [⟨1⟩, ⟨2⟩]
    [.int, unitType] := .cons rfl (.cons rfl .nil)
  have hground : ∀ t ∈ [Ty.int, unitType], t.isGround = true := by decide
  have hvalues : zipWith base.restored [.int, unitType] [.ofInt 7, unit] = [.ofInt 7, unit] := by
    decide +kernel
  have hdescribed : ∀ σ, TableEnv.Described numbering answerVars σ
      (·.infoWith (answerVars.witnesses.infoOf numbering.accessors σ)) [⟨1⟩, ⟨2⟩]
      [.int, unitType] := by
    refine fun σ => ⟨htypes, fun t ht => ?_⟩
    obtain ⟨i, hi⟩ := Option.isSome_iff_exists.1 (Ty.isSome_infoWith_of_isGround (hground t ht) _)
    exact ⟨i, hi, hi⟩
  refine ⟨saves, s', restores, t', hsaves, hrestores, Runtime.Runs.imp (hround hsaves
    (below_setMany _ _ (by decide)) (hdescribed _) rfl (.cons rfl (.cons rfl .nil)) (by decide)) ?_⟩
  rintro - v - ⟨f, rfl, -, hback⟩ w hw
  have hslots : ∀ j, 0 ≤ j → j < 0 + 2 →
      (numbering.view w.tables).slot (Memory.blockOf unit) j = f j := by simp [hw, setSlots]
  have hruns := hback hrestores (below_setMany [⟨0⟩] [Memory.blockOf unit] (by decide))
    htypes (WitnessMap.inTurn_of_isGround hground) .nil rfl (by decide) hslots
  rw [← hvalues, ← hw]
  exact hruns

end TabledExample

end Clausal
