import Clausal.Proofs.InlinedGoals
import Clausal.Proofs.Actions
import Clausal.Proofs.AnswerTables

/-!
# Emitting inline code

Emitting tabling code takes the same steps whether primitives are reached by
plain calls or by inline code, and leaves the same state (`Synth.Alike`). What
is emitted differs in the calls alone (`Goal.Inlines`). Inline code names its
arguments, so that it can only be emitted where they are variables of the
table, as they are if the witnesses on record are.
-/

namespace Clausal

open List VarTable

variable {C : Prop} {s s' : WitnessState} {α β : Type} {vs ws : List ProgVar}
  {block node owner tip v var : ProgVar} {name problem next : String} {type : Ty}
  {args vars inputs outputs : List ProgVar} {head : TabledHead} {p : Primitive} {value slot : Int}
  {byAddr : Bool} {strictness : Strictness} {first size : Nat} {body : Goal}
  {determinism : Determinism} {slots : IoSlots} {unit : IoUnit} {purpose : IoPurpose}

/-! ### Steps side by side -/

namespace Synth

/-- Under the condition `C`, the witnesses on record are in the table, and so are
    the variables `vs`. -/
def Stocked (C : Prop) (vs : List ProgVar) (s : WitnessState) : Prop :=
  C → s.Closed ∧ ∀ v ∈ vs, v.index < s.vars.size

theorem Stocked.mono (h : Stocked C vs s) (hs : s.Extends s') : Stocked C vs s' :=
  fun hC => ⟨hs.closed (h hC).1, fun v hv => Nat.lt_of_lt_of_le ((h hC).2 v hv) hs.size_le⟩

theorem Stocked.subset (h : Stocked C vs s) (hsub : ws ⊆ vs) : Stocked C ws s :=
  fun hC => ⟨(h hC).1, fun v hv => (h hC).2 v (hsub hv)⟩

/-- The steps `x` and `y` leave the same state and results that are related by
    `R`, if the variables `vs` are in the table. Where `y` returns so does `x`, and
    the other way round under the condition `C`. The variables `o` are in the
    table then. -/
structure Alike (C : Prop) (vs : List ProgVar) (o : α → List ProgVar) (R : α → α → Prop)
    (x y : Synth α) : Prop where
  back : ∀ {s b s'}, Stocked C vs s → Returns y s b s' →
    ∃ a, Returns x s a s' ∧ R a b ∧ Stocked C (o b ++ vs) s'
  forth : C → ∀ {s a s'}, Stocked C vs s → Returns x s a s' →
    ∃ b, Returns y s b s' ∧ R a b ∧ Stocked C (o b ++ vs) s'

/-- The steps are alike, whatever variables are new. -/
abbrev AlikeBy (C : Prop) (vs : List ProgVar) (R : α → α → Prop) (x y : Synth α) : Prop :=
  Alike C vs (fun _ => []) R x y

namespace Alike

variable {o : α → List ProgVar} {o' : β → List ProgVar} {R R' : α → α → Prop}
  {S : β → β → Prop} {x y : Synth α} {f g : α → Synth β}

theorem imp (h : Alike C vs o R x y)
    (himp : ∀ {s a s'} b, Returns x s a s' → R a b → R' a b) : Alike C vs o R' x y where
  back hs hy := by
    obtain ⟨a, hx, hR, hout⟩ := h.back hs hy
    exact ⟨a, hx, himp _ hx hR, hout⟩
  forth hC s a s' hs hx := by
    obtain ⟨b, hy, hR, hout⟩ := h.forth hC hs hx
    exact ⟨b, hy, himp b hx hR, hout⟩

theorem self (hadds : Adds x) (hR : ∀ a, R a a)
    (hout : ∀ {s a s'}, s.Closed → Returns x s a s' → ∀ v ∈ o a, v.index < s'.vars.size) :
    Alike C vs o R x x := by
  have hstocked : ∀ {s a s'}, Stocked C vs s → Returns x s a s' → Stocked C (o a ++ vs) s' := by
    intro s a s' hs hr hC
    obtain ⟨hclosed, hvs⟩ := hs.mono (hadds.mono hr) hC
    exact ⟨hclosed, forall_mem_append.2 ⟨hout (hs hC).1 hr, hvs⟩⟩
  exact ⟨fun hs h => ⟨_, h, hR _, hstocked hs h⟩, fun _ _ _ _ hs h => ⟨_, h, hR _, hstocked hs h⟩⟩

theorem pureWith {a b : α} (h : R a b) (hout : o b ⊆ vs) :
    Alike C vs o R (pure a) (pure b) := by
  refine ⟨fun {s b' s'} hs hb => ?_, fun _ {s a' s'} hs ha => ?_⟩
  · obtain ⟨rfl, rfl⟩ := returns_pure.1 hb
    exact ⟨a, returns_pure.2 ⟨rfl, rfl⟩, h, hs.subset (by simpa using hout)⟩
  · obtain ⟨rfl, rfl⟩ := returns_pure.1 ha
    exact ⟨b, returns_pure.2 ⟨rfl, rfl⟩, h, hs.subset (by simpa using hout)⟩

protected theorem pure {a b : α} (h : R a b) : AlikeBy C vs R (pure a) (pure b) :=
  pureWith h (nil_subset _)

/-- One step after the other. -/
protected theorem bind (h : Alike C vs o R x y)
    (hf : ∀ a b, R a b → Alike C (o b ++ vs) o' S (f a) (g b)) :
    Alike C vs o' S (x >>= f) (y >>= g) where
  back hs hy := by
    obtain ⟨b, s₁, h₁, h₂⟩ := returns_bind.1 hy
    obtain ⟨a, hx, hR, hs₁⟩ := h.back hs h₁
    obtain ⟨c, hc, hS, hs₂⟩ := (hf a b hR).back hs₁ h₂
    exact ⟨c, returns_bind.2 ⟨a, s₁, hx, hc⟩, hS, hs₂.subset (by simp)⟩
  forth hC s c s' hs hx := by
    obtain ⟨a, s₁, h₁, h₂⟩ := returns_bind.1 hx
    obtain ⟨b, hy, hR, hs₁⟩ := h.forth hC hs h₁
    obtain ⟨d, hd, hS, hs₂⟩ := (hf a b hR).forth hC hs₁ h₂
    exact ⟨d, returns_bind.2 ⟨b, s₁, hy, hd⟩, hS, hs₂.subset (by simp)⟩

/-- The same step on both sides, then another. -/
theorem same (hadds : Adds x)
    (hout : ∀ {s a s'}, s.Closed → Returns x s a s' → ∀ v ∈ o a, v.index < s'.vars.size)
    (hf : ∀ a, Alike C (o a ++ vs) o' S (f a) (g a)) : Alike C vs o' S (x >>= f) (x >>= g) :=
  (Alike.self (R := fun a b => b = a) hadds (fun _ => rfl) hout).bind fun a _ h => h ▸ hf a

theorem skip (hadds : Adds x) (hf : ∀ a, Alike C vs o' S (f a) (g a)) :
    Alike C vs o' S (x >>= f) (x >>= g) :=
  same (o := fun _ => []) hadds (by simp) hf

theorem mapM {f g : β → Synth α} {bs : List β} (hf : ∀ b ∈ bs, AlikeBy C vs R (f b) (g b)) :
    AlikeBy C vs (Forall₂ R) (bs.mapM f) (bs.mapM g) := by
  induction bs with
  | nil => exact .pure .nil
  | cons b bs ih =>
    obtain ⟨hb, hbs⟩ := forall_mem_cons.1 hf
    rw [mapM_cons, mapM_cons]
    exact hb.bind fun _ _ ha => (ih hbs).bind fun _ _ has => .pure (.cons ha has)

end Alike

end Synth

/-! ### Emitted goals -/

open Synth

/-- The goals of the one list are those of the other with inline code. -/
abbrev InlinesAll : List Goal → List Goal → Prop := Forall₂ Goal.Inlines

/-- A variable with the goals that bind it. -/
def SameBinding (a b : ProgVar × List Goal) : Prop := b.1 = a.1 ∧ InlinesAll a.2 b.2

/-- A look-up. -/
def SameStep (a b : TrieStep × ProgVar × List Goal) : Prop := b.1 = a.1 ∧ SameBinding a.2 b.2

/-- The way of a call down the call table. -/
structure CallLookup.Same (a b : CallLookup) : Prop where
  tip : b.tip = a.tip
  steps : b.steps = a.steps
  inputs : b.inputs = a.inputs
  goals : InlinesAll a.goals b.goals

/-- A generator with inline code. -/
structure Generator.Inlines (a b : Generator) : Prop where
  name : b.name = a.name
  outputs : b.outputs = a.outputs
  body : a.body.Inlines b.body

/-- The tabled form of a procedure with inline code. -/
structure Tabled.Inlines (a b : Tabled) : Prop where
  body : a.body.Inlines b.body
  layout : b.layout = a.layout
  tip : b.tip = a.tip
  generator : Option.Rel Generator.Inlines a.generator b.generator

/-- The same is read while a procedure is tabled, but that primitives are
    reached by plain calls in the one case and by inline code in the other. -/
structure TableEnv.Twin (e e' : TableEnv) : Prop where
  calls : e.env.options.tablingViaExtraArgs = false
  inline : e'.env.options.tablingViaExtraArgs = true
  category : ∀ t, e'.env.category t = e.env.category t
  dummyConstant : ∀ t, e'.env.dummyConstant t = e.env.dummyConstant t
  states : e'.env.options.traceTableIoStates = e.env.options.traceTableIoStates
  nextPred : e'.env.nextPred = e.env.nextPred
  proc : e'.proc = e.proc
  pred : e'.pred = { e.pred with procs := e'.pred.procs }
  context : e'.context = e.context

namespace TableEnv

variable {e e' : TableEnv}

theorem Twin.describe_eq (h : e.Twin e') : e'.pred.describe = e.pred.describe := by
  rw [h.pred]
  rfl

section

variable {f g : ProgVar → Synth α} {o : α → List ProgVar} {R : α → α → Prop}

theorem newVar_alike (hf : ∀ v, Alike C (v :: vs) o R (f v) (g v)) :
    Alike C vs o R (newVar name type >>= f) (newVar name type >>= g) := by
  refine .same (o := fun v => [v]) (adds_newVar ..) (fun _ h => ?_) hf
  obtain ⟨rfl, rfl⟩ := returns_newVar.1 h
  simp [WitnessState.nextVar]

theorem varType_alike {f g : Ty → Synth α} (hf : ∀ t, Alike C (var :: vs) o R (f t) (g t)) :
    Alike C vs o R (varType var >>= f) (varType var >>= g) := by
  refine .same (o := fun _ => [var]) (adds_varType var) (fun _ h => ?_) hf
  obtain ⟨ht, rfl⟩ := returns_varType.1 h
  simpa using lt_size_of_type ht

theorem typeInfo_alike {context : Context} {f g : ProgVar × List Goal → Synth α}
    (hf : ∀ r, Alike C (r.1 :: vs) o R (f r) (g r)) :
    Alike C vs o R (typeInfo context type >>= f) (typeInfo context type >>= g) := by
  refine .same (o := fun r : ProgVar × List Goal => [r.1]) (adds_typeInfo ..)
    (fun {s r s'} hs h => ?_) hf
  have hmakes := typeInfo_makes type h
  refine (hmakes.results (fun _ v => v.index < s'.vars.size) ?_ ?_).2
  · exact hs.mono fun _ v hv => Nat.lt_of_lt_of_le hv hmakes.grows.vars.size_le
  · exact fun _ v _ hv => lt_size_of_type hv

end

/-- Foreign code with the arguments of a call inlines the call. -/
theorem inlines_callForeign (p : Primitive) {code : ForeignCode} (context : Context)
    (hcallee : code.callee = p.proc) (hextra : code.extraArgs = [])
    (hargs : code.args.map (fun a => (a.var, a.mode)) = args.zip p.modes)
    (hlen : args.length = p.modes.length) :
    (Goal.callProc p.proc p.symName args (Goal.outputVars args p.modes)
        ⟨p.determinism, p.purity⟩ context).Inlines
      (.callForeign code ⟨p.determinism, p.purity⟩ context) := by
  have hvars : code.args.map (·.var) = args := by
    rw [← map_fst_zip (Nat.le_of_eq hlen), ← hargs, map_map]
    rfl
  have houtputs : ((code.args ++ code.extraArgs).filter (·.mode == .output)).map (·.var) =
      Goal.outputVars args p.modes := by
    rw [hextra, append_nil, Goal.outputVars, ← hargs, filter_map, map_map]
    rfl
  have hinfo : ∀ i j : GoalInfo, j = { i with unreachable := false } →
      i.unreachable = p.isHopeless →
        i.Blurs (Goal.call i p.proc p.symName args).RunsHopeless j := by
    rintro i _ rfl hi
    refine ⟨rfl, rfl, rfl, rfl, fun h => absurd h (by simp), fun _ _ hv => hv, fun hhopeful => ?_⟩
    rw [Goal.runsHopeless_call, Bool.not_eq_true, ← hi] at hhopeful
    rw [← hhopeful]
  unfold Goal.callProc Goal.callForeign
  rw [houtputs]
  exact (Goal.Inlines.call hcallee hvars hextra (hinfo _ _ rfl rfl)).exposeFree

theorem get_of_lt {t : VarTable} (h : v.index < t.size) : ∃ entry, t.get v = .ok entry := by
  obtain ⟨entry, hentry⟩ : ∃ entry, t.find? v = some entry := ⟨_, Array.getElem?_eq_getElem h⟩
  exact ⟨entry, by rw [VarTable.get, hentry]⟩

theorem exists_forall₂ {α β : Type} {R : α → β → Prop} {as : List α}
    (h : ∀ a ∈ as, ∃ b, R a b) : ∃ bs, Forall₂ R as bs := by
  induction as with
  | nil => exact ⟨[], .nil⟩
  | cons a as ih =>
    obtain ⟨⟨b, hb⟩, has⟩ := forall_mem_cons.1 h
    obtain ⟨bs, hbs⟩ := ih has
    exact ⟨b :: bs, .cons hb hbs⟩

/-- Inline code is emitted for variables of the table. -/
theorem exists_inline {t : VarTable} {as : List (ProgVar × Mode)} {extra : List ForeignArg}
    (has : ∀ v ∈ as.map Prod.fst ++ extra.map (·.var), v.index < t.size) :
    ∃ fs names, Forall₂ (ArgOf t) as fs ∧
      Forall₂ (fun a name => t.name a.var = .ok name) (fs ++ extra) names := by
  rw [forall_mem_append] at has
  obtain ⟨fs, hfs⟩ : ∃ fs, Forall₂ (ArgOf t) as fs := exists_forall₂ fun a ha => by
    obtain ⟨entry, hentry⟩ := get_of_lt (has.1 a.1 (mem_map_of_mem ha))
    exact ⟨_, entry, hentry, rfl⟩
  have hname : ∀ f ∈ fs ++ extra, ∃ name, t.name f.var = .ok name := by
    intro f hf
    have hlt : f.var.index < t.size := by
      rcases mem_append.1 hf with hf | hf
      · have hmem : (f.var, f.mode) ∈ as := ArgOf.pairs hfs ▸ mem_map_of_mem hf
        exact has.1 f.var (mem_map_of_mem (f := Prod.fst) hmem)
      · exact has.2 f.var (mem_map_of_mem hf)
    obtain ⟨entry, hentry⟩ := get_of_lt hlt
    exact ⟨VarTable.label f.var entry, by rw [VarTable.name, hentry]; rfl⟩
  obtain ⟨names, hnames⟩ := exists_forall₂ hname
  exact ⟨fs, names, hfs, hnames⟩

theorem goalsOf_alike {f g : α → Synth (List Goal)} {as : List α}
    (hf : ∀ a ∈ as, AlikeBy C vs InlinesAll (f a) (g a)) :
    AlikeBy C vs InlinesAll (goalsOf f as) (goalsOf g as) := by
  induction as with
  | nil => exact .pure .nil
  | cons a as ih =>
    obtain ⟨ha, has⟩ := forall_mem_cons.1 hf
    exact ha.bind fun _ _ hgs => (ih has).bind fun _ _ hmore => .pure (rel_append hgs hmore)

/-- The look-up of an input in a given way. -/
def lookupBy (e : TableEnv) (way : ArgLookup) (slot : Nat) (node var : ProgVar) :
    Synth (TrieStep × ProgVar × List Goal) :=
  if way = .implied then pure (.implied, node, [])
  else e.lookupArg node var (way == .addr) ("T" ++ toString (slot + 1))

theorem lookupFrom_cons (strictness : Strictness) (slot : Nat) (node var : ProgVar)
    (vars : List ProgVar) : e.lookupFrom strictness slot node (var :: vars) = do
      let (step, node, goals) ← e.lookupBy (strictness.lookup slot) slot node var
      let type ← varType var
      let rest ← e.lookupFrom strictness (slot + 1) node vars
      return ⟨goals ++ rest.goals, rest.tip, step :: rest.steps,
        ⟨var, slot, type⟩ :: rest.inputs⟩ := by
  rw [lookupFrom]
  cases strictness.lookup slot <;> rfl

/-- The state outputs of a head are in the table once it has been split. -/
theorem ioHead_alike {f g : IoHead → Synth α} {o : α → List ProgVar} {R : α → α → Prop}
    (hf : ∀ h, Alike C (h.statesOut ++ vs) o R (f h) (g h)) :
    Alike C vs o R (ioHead head >>= f) (ioHead head >>= g) := by
  have hio : ∀ {s h s'}, Returns (ioHead head) s h s' →
      s' = s ∧ h.statesOut = head.outputs.filter s.vars.isState := by
    intro s h s' hr
    simp only [ioHead, returns_bind, returns_pure] at hr
    obtain ⟨_, _, hin, _, _, hout, rfl, rfl⟩ := hr
    obtain ⟨rfl, rfl⟩ := returns_splitStates hin
    obtain ⟨rfl, rfl⟩ := returns_splitStates hout
    exact ⟨rfl, rfl⟩
  refine .same ⟨fun hr => (hio hr).1 ▸ .refl _⟩ (fun {s h s'} _ hr v hv => ?_) hf
  obtain ⟨rfl, hstates⟩ := hio hr
  rw [hstates] at hv
  have hstate := (mem_filter.1 hv).2
  unfold VarTable.isState at hstate
  cases htype : s'.vars.type v with
  | error fault =>
    rw [htype] at hstate
    cases hstate
  | ok type => exact lt_size_of_type htype

section

variable (he : e.Twin e')

include he

/-- A primitive is reached by a plain call or by inline code. -/
theorem callWith_alike {extra : List ForeignArg} (hlen : args.length = p.modes.length)
    (hargs : args ⊆ vs) :
    AlikeBy C vs Goal.Inlines (e.callWith p args extra) (e'.callWith p args extra) := by
  rcases extra with _ | ⟨a, extra⟩
  · have hplain : e.callWith p args [] = pure (.callProc p.proc p.symName args
        (Goal.outputVars args p.modes) ⟨p.determinism, p.purity⟩ e.context) := by
      simp [callWith, he.calls]
    rw [hplain, ← he.context]
    refine ⟨fun {s g s'} hs h => ?_, fun hC {s g s'} hs h => ?_⟩
    · obtain ⟨⟨fs, names, hfs, -, rfl⟩, rfl⟩ := (returns_callWith_inline (.inl he.inline)).1 h
      exact ⟨_, returns_pure.2 ⟨rfl, rfl⟩,
        inlines_callForeign p _ rfl rfl (ArgOf.pairs hfs) hlen, hs⟩
    · obtain ⟨rfl, rfl⟩ := returns_pure.1 h
      have hlt : ∀ v ∈ (args.zip p.modes).map Prod.fst ++ ([] : List ForeignArg).map (·.var),
          v.index < s'.vars.size := by
        rw [map_fst_zip (Nat.le_of_eq hlen)]
        simpa using fun v hv => (hs hC).2 v (hargs hv)
      obtain ⟨fs, names, hfs, hnames⟩ := exists_inline hlt
      refine ⟨_, (returns_callWith_inline (.inl he.inline)).2 ⟨⟨fs, names, hfs, hnames, rfl⟩, rfl⟩,
        inlines_callForeign p _ rfl rfl (ArgOf.pairs hfs) hlen, hs⟩
  · -- With values besides its arguments, a primitive is always reached by inline code.
    have heq : e.callWith p args (a :: extra) = e'.callWith p args (a :: extra) := by
      simp [callWith, he.context]
    rw [heq]
    exact .self (adds_callWith ..) .same (by simp)

theorem call_alike (hlen : args.length = p.modes.length) (hargs : args ⊆ vs) :
    AlikeBy C vs Goal.Inlines (e.call p args) (e'.call p args) :=
  callWith_alike he hlen hargs

theorem intVar_alike {f g : ProgVar × Goal → Synth α} {o : α → List ProgVar} {R : α → α → Prop}
    (hf : ∀ r, Alike C (r.1 :: vs) o R (f r) (g r)) :
    Alike C vs o R (e.intVar name value >>= f) (e'.intVar name value >>= g) := by
  have heq : e'.intVar name value = e.intVar name value := by simp only [intVar, he.context]
  rw [heq]
  refine .same (o := fun r : ProgVar × Goal => [r.1]) (adds_intVar ..) (fun _ h => ?_) hf
  simp only [intVar, returns_bind, returns_newVar, returns_pure] at h
  obtain ⟨_, _, ⟨rfl, rfl⟩, rfl, rfl⟩ := h
  simp [WitnessState.nextVar]

theorem tableError_alike :
    AlikeBy C vs Goal.Inlines (e.tableError problem) (e'.tableError problem) := by
  refine newVar_alike fun v => (call_alike he rfl (by simp)).bind fun _ _ hg => .pure ?_
  rw [he.context, he.describe_eq]
  exact Goal.Inlines.conjoin (.cons (.same _) (.cons hg .nil)) _

/-! ### Tables -/

theorem lookupAtomic_alike {step : TrieStep} (hlen : p.modes.length = 3) (hnode : node ∈ vs)
    (hvar : var ∈ vs) :
    Alike C vs (fun b => [b.2.1]) SameStep (e.lookupAtomic step p node var next)
      (e'.lookupAtomic step p node var next) :=
  newVar_alike fun v => (call_alike he (by simp [hlen]) (by simp [hnode, hvar])).bind fun _ _ hg =>
    .pureWith ⟨rfl, rfl, .cons hg .nil⟩ (by simp)

theorem lookupGeneral_alike (hnode : node ∈ vs) (hvar : var ∈ vs) :
    Alike C vs (fun b => [b.2.1]) SameStep (e.lookupGeneral type byAddr node var next)
      (e'.lookupGeneral type byAddr node var next) := by
  unfold lookupGeneral
  rw [he.context]
  have hlen : (generalPrimitive (!type.isGround) byAddr).modes.length = 4 := by
    cases type.isGround <;> cases byAddr <;> rfl
  exact typeInfo_alike fun r => newVar_alike fun v =>
    (call_alike he (by simp [hlen]) (by simp [hnode, hvar])).bind fun _ _ hg =>
      .pureWith ⟨rfl, rfl, rel_append (forall₂_same.2 fun g _ => .same g)
        (.cons hg .nil)⟩ (by simp)

theorem lookupArg_alike (hnode : node ∈ vs) :
    Alike C vs (fun b => [b.2.1]) SameStep (e.lookupArg node var byAddr next)
      (e'.lookupArg node var byAddr next) := by
  unfold lookupArg
  refine varType_alike fun type => ?_
  rw [he.category]
  refine .skip (adds_lift _) fun category => ?_
  have hnode : node ∈ var :: vs := by simp [hnode]
  cases category with
  | dummy | void => exact .pureWith ⟨rfl, rfl, .nil⟩ (by simpa using hnode)
  | int | char | string | float | typeInfo | dictionary =>
    exact lookupAtomic_alike he rfl hnode mem_cons_self
  | enum size =>
    exact newVar_alike fun v => intVar_alike he fun r => (call_alike he rfl
      (by simp [mem_cons.1 hnode])).bind fun _ _ hg =>
        .pureWith ⟨rfl, rfl, .cons (.same _) (.cons hg .nil)⟩ (by simp)
  | _ => exact lookupGeneral_alike he hnode mem_cons_self

theorem lookupFrom_alike {slot : Nat} (hnode : node ∈ vs) :
    Alike C vs (fun b => [b.tip]) CallLookup.Same (e.lookupFrom strictness slot node vars)
      (e'.lookupFrom strictness slot node vars) := by
  induction vars generalizing slot node vs with
  | nil => exact .pureWith ⟨rfl, rfl, rfl, .nil⟩ (by simpa using hnode)
  | cons var vars ih =>
    have hby : Alike C vs (fun b => [b.2.1]) SameStep
        (e.lookupBy (strictness.lookup slot) slot node var)
        (e'.lookupBy (strictness.lookup slot) slot node var) := by
      unfold lookupBy
      split
      · exact .pureWith ⟨rfl, rfl, .nil⟩ (by simpa using hnode)
      · exact lookupArg_alike he hnode
    rw [lookupFrom_cons, lookupFrom_cons]
    refine hby.bind ?_
    rintro ⟨_, _, goals⟩ ⟨step, node₁, goals'⟩ ⟨rfl, rfl, hgoals⟩
    refine varType_alike fun type => (ih (by simp)).bind fun _ _ hrest => .pureWith ?_ (by simp)
    exact ⟨hrest.tip, congrArg (step :: ·) hrest.steps, congrArg (_ :: ·) hrest.inputs,
      rel_append hgoals hrest.goals⟩

theorem lookup_alike :
    Alike C vs (fun b => [b.tip]) CallLookup.Same (e.lookup inputs strictness)
      (e'.lookup inputs strictness) := by
  unfold lookup root newHandle
  rw [he.context, he.proc]
  simp only [bind_assoc, pure_bind]
  exact newVar_alike fun v => (lookupFrom_alike he mem_cons_self).bind fun _ _ hway =>
    .pureWith ⟨hway.tip, hway.steps, hway.inputs, .cons (.same _) hway.goals⟩ (by simp)

theorem answerLookupFrom_alike {slot : Nat} (hnode : node ∈ vs) :
    Alike C vs (fun b => [b.1]) SameBinding (e.answerLookupFrom slot node vars)
      (e'.answerLookupFrom slot node vars) := by
  induction vars generalizing slot node vs with
  | nil => exact .pureWith ⟨rfl, .nil⟩ (by simpa using hnode)
  | cons var vars ih =>
    refine (lookupArg_alike he hnode).bind ?_
    rintro ⟨_, _, goals⟩ ⟨step, node₁, goals'⟩ ⟨-, rfl, hgoals⟩
    exact (ih (by simp)).bind fun _ _ hrest =>
      .pureWith ⟨hrest.1, rel_append hgoals hrest.2⟩ (by simp)

/-! ### Answer blocks -/

section

variable (hblock : block ∈ vs)

include hblock

theorem moveAtomic_alike (hlen : p.modes.length = 3) (hvar : var ∈ vs) :
    AlikeBy C vs InlinesAll (e.moveAtomic p block slot var) (e'.moveAtomic p block slot var) :=
  intVar_alike he fun r => (call_alike he (by simp [hlen]) (by simp [hblock, hvar])).bind
    fun _ _ hg => .pure (.cons (.same _) (.cons hg .nil))

theorem moveGeneral_alike (hlen : p.modes.length = 4) (hvar : var ∈ vs) :
    AlikeBy C vs InlinesAll (e.moveGeneral p type block slot var)
      (e'.moveGeneral p type block slot var) := by
  unfold moveGeneral
  rw [he.context]
  exact typeInfo_alike fun r => intVar_alike he fun slot =>
    (call_alike he (by simp [hlen]) (by simp [hblock, hvar])).bind fun _ _ hg =>
      .pure (rel_append (forall₂_same.2 fun g _ => .same g)
        (.cons (.same _) (.cons hg .nil)))

theorem save_alike : AlikeBy C vs InlinesAll (e.save block slot var) (e'.save block slot var) := by
  unfold save
  refine varType_alike fun type => ?_
  rw [he.category]
  refine .skip (adds_lift _) fun category => ?_
  have hblock : block ∈ var :: vs := mem_cons_of_mem _ hblock
  split
  · exact .pure .nil
  · cases category with
    | int | char | string | float => exact moveAtomic_alike he hblock rfl mem_cons_self
    | _ => exact moveGeneral_alike he hblock rfl mem_cons_self

theorem restore_alike :
    AlikeBy C vs InlinesAll (e.restore block slot var) (e'.restore block slot var) := by
  unfold restore restoreDummy
  refine varType_alike fun type => ?_
  rw [he.category, he.dummyConstant, he.context]
  refine .skip (adds_lift _) fun category => ?_
  have hblock : block ∈ var :: vs := mem_cons_of_mem _ hblock
  split
  · refine .skip (adds_lift _) fun constant => ?_
    cases constant with
    | some f => exact .pure (.cons (.same _) .nil)
    | none =>
      exact ⟨fun _ h => absurd h not_returns_breach, fun _ _ _ _ _ h => absurd h not_returns_breach⟩
  · cases category with
    | int | char | string | float => exact moveAtomic_alike he hblock rfl mem_cons_self
    | _ => exact moveGeneral_alike he hblock rfl mem_cons_self

theorem saveFrom_alike :
    AlikeBy C vs InlinesAll (e.saveFrom block first vars) (e'.saveFrom block first vars) :=
  goalsOf_alike fun _ _ => save_alike he hblock

theorem restoreFrom_alike :
    AlikeBy C vs InlinesAll (e.restoreFrom block first vars) (e'.restoreFrom block first vars) :=
  goalsOf_alike fun _ _ => restore_alike he hblock

end

theorem newBlock_alike (hlen : p.modes.length = 3) (howner : owner ∈ vs) :
    Alike C vs (fun b => [b.1]) SameBinding (e.newBlock p owner size)
      (e'.newBlock p owner size) :=
  intVar_alike he fun size => newVar_alike fun block =>
    (call_alike he (by simp [hlen]) (by simp [howner])).bind fun _ _ hg =>
      .pureWith ⟨rfl, .cons (.same _) (.cons hg .nil)⟩ (by simp)

theorem saveAnswer_alike (hlen : p.modes.length = 3) (howner : owner ∈ vs) :
    Alike C vs (fun b => [b.1]) SameBinding (e.saveAnswer p owner outputs)
      (e'.saveAnswer p owner outputs) := by
  refine (newBlock_alike he hlen howner).bind ?_
  rintro ⟨_, goals⟩ ⟨block, goals'⟩ ⟨rfl, hgoals⟩
  exact (saveFrom_alike he (by simp)).bind fun _ _ hsaves =>
    .pureWith ⟨rfl, rel_append hgoals hsaves⟩ (by simp)

theorem restoreAnswer_alike (hlen : p.modes.length = 2) (howner : owner ∈ vs) :
    AlikeBy C vs InlinesAll (e.restoreAnswer p owner outputs)
      (e'.restoreAnswer p owner outputs) :=
  newVar_alike fun block => (call_alike he (by simp [hlen]) (by simp [howner])).bind fun _ _ hg =>
    (restoreFrom_alike he (by simp)).bind fun _ _ hrestores => .pure (.cons hg hrestores)

theorem returnAnswer_alike (hlen : p.modes.length = 2) (howner : owner ∈ vs) :
    AlikeBy C vs Goal.Inlines
      (do return .conjoin (← e.restoreAnswer p owner outputs) e.context)
      (do return .conjoin (← e'.restoreAnswer p owner outputs) e'.context) := by
  rw [he.context]
  exact (restoreAnswer_alike he hlen howner).bind fun _ _ hgs => .pure (.conjoin hgs _)

theorem newAnswer_alike {ps : AnswerPrimitives} (htable : ps.table.modes.length = 2)
    (hisNew : ps.isNew.modes.length = 1) (hcreate : ps.create.modes.length = 3)
    (howner : owner ∈ vs) :
    Alike C vs (fun b => [b.1]) SameBinding (e.newAnswer ps body owner outputs)
      (e'.newAnswer ps body owner outputs) := by
  refine newVar_alike fun table => ?_
  refine (call_alike he (by simp [htable]) (by simp [howner])).bind fun _ _ hget => ?_
  refine (answerLookupFrom_alike he (by simp)).bind ?_
  rintro ⟨_, lookups⟩ ⟨node, lookups'⟩ ⟨rfl, hlookups⟩
  refine (call_alike he (by simp [hisNew]) (by simp)).bind fun _ _ hnew => ?_
  refine (saveAnswer_alike he hcreate (by simp [howner])).bind fun a b hab => .pureWith ?_ (by simp)
  exact ⟨hab.1, rel_append (rel_append (rel_append
    (.cons (.same _) (.cons hget .nil)) hlookups) (.cons hnew .nil)) hab.2⟩

/-! ### Ways of tabling -/

theorem tabledBy_alike {way way' : CallLookup} {goals goals' : List Goal} (hway : way.Same way')
    (hgoals : InlinesAll goals goals') :
    AlikeBy C vs Tabled.Inlines (e.tabledBy way outputs goals)
      (e'.tabledBy way' outputs goals') := by
  unfold tabledBy
  rw [hway.steps, hway.inputs, hway.tip, he.context]
  exact .skip (adds_tabledArgs ..) fun _ =>
    .pure ⟨.conjoin (rel_append hway.goals hgoals) _, rfl, rfl, .none⟩

theorem statusSwitch_alike {type : StatusType} {status : ProgVar} {arm arm' : Status → Synth Goal}
    (harm : ∀ st, AlikeBy C vs Goal.Inlines (arm st) (arm' st)) :
    AlikeBy C vs Goal.Inlines (e.statusSwitch type status arm)
      (e'.statusSwitch type status arm') := by
  have harms : AlikeBy C vs (Forall₂ fun a b => b.1 = a.1 ∧ a.2.Inlines b.2)
      (type.statuses.mapM fun st => do return (st.symbol, ← arm st))
      (type.statuses.mapM fun st => do return (st.symbol, ← arm' st)) :=
    .mapM fun st _ => (harm st).bind fun _ _ hg => .pure ⟨rfl, hg⟩
  refine harms.bind fun arms arms' h => .pure ?_
  rw [he.context]
  exact Goal.Inlines.switchOn (.of_forall₂ h) status false _

theorem loopInactive_alike {model : CodeModel} (htip : tip ∈ vs) :
    AlikeBy C vs Goal.Inlines (e.loopInactive model body tip) (e'.loopInactive model body tip) := by
  unfold loopInactive
  rw [he.context]
  refine (call_alike he rfl (by simp [htip])).bind fun _ _ hinactive => ?_
  refine (call_alike he rfl (by simp [htip])).bind fun _ _ hfails => ?_
  cases model with
  | det => exact .pure (.conjoin (.cons (.same body) (.cons hinactive .nil)) _)
  | semi => exact .pure (.ifThenElse (.same body) hinactive hfails rfl _)
  | non =>
    refine (call_alike he rfl (by simp [htip])).bind fun _ _ hactive => .pure ?_
    have hexit := Goal.Inlines.disjoin (.cons hinactive (.cons hactive .nil)) e.context
    have hbody := Goal.Inlines.conjoin (.cons (.same body) (.cons hexit .nil)) e.context
    exact Goal.Inlines.disjoin (.cons hbody (.cons hfails .nil)) _

theorem loopCheck_alike :
    AlikeBy C vs Tabled.Inlines (e.loopCheck body determinism head strictness)
      (e'.loopCheck body determinism head strictness) := by
  refine (lookup_alike he).bind fun way way' hway => newVar_alike fun status => ?_
  rw [hway.tip]
  refine (call_alike he rfl (by simp)).bind fun _ _ hsetup => ?_
  refine (statusSwitch_alike he fun st => ?_).bind fun _ _ hswitch =>
    tabledBy_alike he hway (.cons hsetup (.cons hswitch .nil))
  cases st with
  | loopInactive => exact loopInactive_alike he (by simp)
  | _ => exact tableError_alike he

theorem memoSave_alike (htip : tip ∈ vs) :
    AlikeBy C vs Goal.Inlines (e.memoSave tip outputs) (e'.memoSave tip outputs) := by
  unfold memoSave
  rw [he.context]
  split
  · exact call_alike he rfl (by simp [htip])
  · exact (saveAnswer_alike he rfl htip).bind fun _ _ hab => .pure (.conjoin hab.2 _)

theorem memoRestore_alike (htip : tip ∈ vs) :
    AlikeBy C vs Goal.Inlines (e.memoRestore tip outputs) (e'.memoRestore tip outputs) := by
  unfold memoRestore
  split
  · rw [he.context]
    exact .pure (.same _)
  · exact returnAnswer_alike he rfl htip

theorem memoDet_alike (htip : tip ∈ vs) :
    AlikeBy C vs InlinesAll (e.memoDet body tip outputs) (e'.memoDet body tip outputs) := by
  refine newVar_alike fun status => (call_alike he rfl (by simp [htip])).bind fun _ _ hsetup => ?_
  refine (statusSwitch_alike he fun st => ?_).bind fun _ _ hswitch =>
    .pure (.cons hsetup (.cons hswitch .nil))
  cases st with
  | memoDetInactive =>
    simp only [memoDetArm, he.context]
    exact (memoSave_alike he (by simp [htip])).bind fun _ _ hsave =>
      .pure (.conjoin (.cons (.same body) (.cons hsave .nil)) _)
  | memoDetSucceeded => exact memoRestore_alike he (by simp [htip])
  | _ => exact tableError_alike he

theorem memoSemi_alike (htip : tip ∈ vs) :
    AlikeBy C vs InlinesAll (e.memoSemi body tip outputs) (e'.memoSemi body tip outputs) := by
  refine newVar_alike fun status => (call_alike he rfl (by simp [htip])).bind fun _ _ hsetup => ?_
  refine (statusSwitch_alike he fun st => ?_).bind fun _ _ hswitch =>
    .pure (.cons hsetup (.cons hswitch .nil))
  cases st with
  | memoSemiInactive =>
    simp only [memoSemiArm, he.context]
    refine (memoSave_alike he (by simp [htip])).bind fun _ _ hsave => ?_
    refine (call_alike he rfl (by simp [htip])).bind fun _ _ hfailed => .pure ?_
    have hno := Goal.Inlines.conjoin (.cons hfailed (.cons (.same (.failure e.context)) .nil))
      e.context
    exact .ifThenElse (.same body) hsave hno rfl _
  | memoSemiSucceeded => exact memoRestore_alike he (by simp [htip])
  | memoSemiFailed =>
    simp only [memoSemiArm, he.context]
    exact .pure (.same _)
  | _ => exact tableError_alike he

theorem memoNon_alike (htip : tip ∈ vs) :
    AlikeBy C vs InlinesAll (e.memoNon body determinism tip outputs)
      (e'.memoNon body determinism tip outputs) := by
  refine newVar_alike fun record => newVar_alike fun status => ?_
  refine (call_alike he rfl (by simp [htip])).bind fun _ _ hsetup => ?_
  refine (statusSwitch_alike he fun st => ?_).bind fun _ _ hswitch =>
    .pure (.cons hsetup (.cons hswitch .nil))
  cases st with
  | memoNonInactive =>
    simp only [memoNonArm, he.context]
    refine (newAnswer_alike he rfl rfl rfl (by simp)).bind fun _ _ hanswer => ?_
    refine (call_alike he rfl (by simp)).bind fun _ _ hincomplete => ?_
    refine (call_alike he rfl (by simp)).bind fun _ _ hcomplete => .pure ?_
    have hfirst := Goal.Inlines.conjoin (rel_append hanswer.2 (.cons hincomplete .nil))
      e.context
    exact .disjoin (.cons hfirst (.cons hcomplete .nil)) _
  | memoNonComplete =>
    have hlen : (returnAll determinism).modes.length = 2 := by
      unfold returnAll
      split <;> rfl
    exact returnAnswer_alike he hlen (by simp)
  | _ => exact tableError_alike he

theorem memo_alike :
    AlikeBy C vs Tabled.Inlines (e.memo body determinism head strictness)
      (e'.memo body determinism head strictness) := by
  refine (lookup_alike he).bind fun way way' hway => ?_
  rw [hway.tip]
  cases determinism.codeModel with
  | det => exact (memoDet_alike he (by simp)).bind fun _ _ => tabledBy_alike he hway
  | semi => exact (memoSemi_alike he (by simp)).bind fun _ _ => tabledBy_alike he hway
  | non => exact (memoNon_alike he (by simp)).bind fun _ _ => tabledBy_alike he hway

theorem stackCopy_alike :
    AlikeBy C vs Tabled.Inlines (e.stackCopy body head strictness)
      (e'.stackCopy body head strictness) := by
  refine (lookup_alike he).bind fun way way' hway => ?_
  rw [hway.tip]
  refine newVar_alike fun subgoal => newVar_alike fun status => ?_
  refine (call_alike he rfl (by simp)).bind fun _ _ hsetup => ?_
  refine (statusSwitch_alike he fun st => ?_).bind fun _ _ hswitch =>
    tabledBy_alike he hway (.cons hsetup (.cons hswitch .nil))
  cases st with
  | modelInactive =>
    simp only [modelArm, he.context]
    refine (newAnswer_alike he rfl rfl rfl (by simp)).bind fun _ _ hanswer => ?_
    refine (call_alike he rfl (by simp)).bind fun _ _ hcompletion => .pure ?_
    have hno := Goal.Inlines.conjoin (.cons hcompletion (.cons (.same (.failure e.context)) .nil))
      e.context
    exact .disjoin (.cons (.conjoin hanswer.2 _) (.cons hno .nil)) _
  | _ => exact returnAnswer_alike he rfl (by simp)

theorem generator_alike :
    AlikeBy C vs Generator.Inlines (e.generator body head) (e'.generator body head) := by
  refine newVar_alike fun owner => ?_
  refine .skip (adds_mapM (adds_foreignArg · _) _) fun inputs => ?_
  refine (callWith_alike he rfl (by simp)).bind fun _ _ hpickup => ?_
  refine (newAnswer_alike he rfl rfl rfl (by simp)).bind ?_
  rintro ⟨_, answer⟩ ⟨block, answer'⟩ ⟨rfl, hanswer⟩
  refine (call_alike he rfl (by simp)).bind fun _ _ hanswered => ?_
  refine (call_alike he rfl (by simp)).bind fun _ _ hcompletion => .pure ?_
  have hfirst := Goal.Inlines.conjoin (rel_append hanswer (.cons hanswered .nil)) e.context
  have hanswers := Goal.Inlines.disjoin (.cons hfirst (.cons hcompletion .nil)) e.context
  rw [he.context, he.pred]
  exact ⟨rfl, rfl, Goal.Inlines.conjoin (.cons hpickup (.cons hanswers .nil)) _⟩

theorem ownStacks_alike :
    AlikeBy C vs Tabled.Inlines (e.ownStacks body head strictness)
      (e'.ownStacks body head strictness) := by
  refine (lookup_alike he).bind fun way way' hway => ?_
  rw [hway.tip]
  refine .skip (adds_mapM (adds_foreignArg · _) _) fun inputs => ?_
  refine (callWith_alike he rfl (by simp)).bind fun _ _ hsave => ?_
  refine newVar_alike fun name => newVar_alike fun closure => newVar_alike fun consumer => ?_
  refine (call_alike he rfl (by simp)).bind fun _ _ hsetup => ?_
  refine (restoreAnswer_alike he rfl (by simp)).bind fun _ _ hanswer => ?_
  refine (generator_alike he).bind fun _ _ hgen => ?_
  have hbindings := forall₂_same.2 fun g
    (_ : g ∈ [.stringConst name (e.pred.symName.render ++ "/" ++ toString e.pred.arity) e.context,
      .construct closure (.closure ⟨e.env.nextPred, ⟨0⟩⟩) [] e.context]) => Goal.Inlines.same g
  have hgoals :=
    rel_append (.cons hsave (rel_append hbindings (.cons hsetup .nil))) hanswer
  rw [he.context, he.nextPred, he.pred]
  exact (tabledBy_alike he hway hgoals).bind fun _ _ htabled =>
    .pure { htabled with generator := .some hgen }

/-! ### Actions -/

theorem ioRestore_alike (htip : tip ∈ vs) (hstates : h.statesOut ⊆ vs) :
    AlikeBy C vs InlinesAll (e.ioRestore h slots tip) (e'.ioRestore h slots tip) := by
  unfold ioRestore
  rw [he.states, he.context]
  refine newVar_alike fun block => (call_alike he rfl (by simp [htip])).bind fun _ _ hget => ?_
  refine (restoreFrom_alike he (by simp)).bind fun _ _ houtputs => ?_
  refine (goalsOf_alike fun pair hpair => ?_).bind fun _ _ hst =>
    .pure (.cons hget (rel_append houtputs hst))
  have hstate : pair.1 ∈ h.statesOut := by
    obtain ⟨i, hi, hmap⟩ := mem_filterMap.1 hpair
    obtain ⟨_, -, rfl⟩ := Option.map_eq_some_iff.1 hmap
    exact fst_mem_of_mem_zipIdx hi
  obtain ⟨state, before⟩ := pair
  simp only
  split
  · exact moveAtomic_alike he (by simp) rfl (by simp [hstates hstate])
  · exact .pure (.cons (.same _) .nil)

theorem ioBracket_alike :
    AlikeBy C vs InlinesAll (e.ioBracket unit body) (e'.ioBracket unit body) := by
  cases unit with
  | alone => exact .pure (.cons (.same body) .nil)
  | unitize =>
    exact newVar_alike fun traced => (call_alike he rfl (by simp)).bind fun _ _ hleft =>
      (call_alike he rfl (by simp)).bind fun _ _ hright =>
        .pure (.cons hleft (.cons (.same body) (.cons hright .nil)))

theorem ioSaveFor_alike (hblock : block ∈ vs) :
    AlikeBy C vs InlinesAll (e.ioSaveFor purpose h slots block)
      (e'.ioSaveFor purpose h slots block) := by
  unfold ioSaveFor
  split
  · unfold ioSaveEntry
    rw [he.proc, he.context]
    exact newVar_alike fun entry => (moveAtomic_alike he (by simp [hblock]) rfl (by simp)).bind
      fun _ _ hsave => (saveFrom_alike he (by simp [hblock])).bind fun _ _ hinputs =>
        .pure (.cons (.same _) (rel_append hsave hinputs))
  · exact .pure .nil

theorem ioSaveStates_alike (hblock : block ∈ vs) (hstates : h.statesOut ⊆ vs) :
    AlikeBy C vs InlinesAll (e.ioSaveStates h slots block) (e'.ioSaveStates h slots block) := by
  unfold ioSaveStates
  rw [he.states]
  split
  · exact goalsOf_alike fun state hstate => moveAtomic_alike he hblock rfl (hstates hstate)
  · exact .pure .nil

theorem ioRecord_alike (htip : tip ∈ vs) (hstates : h.statesOut ⊆ vs) :
    AlikeBy C vs InlinesAll (e.ioRecord body purpose unit h slots tip)
      (e'.ioRecord body purpose unit h slots tip) := by
  rw [ioRecord_eq, ioRecord_eq]
  refine (ioBracket_alike he).bind fun _ _ haction => ?_
  refine (newBlock_alike he rfl (by simp [htip])).bind ?_
  rintro ⟨_, create⟩ ⟨block, create'⟩ ⟨rfl, hcreate⟩
  refine (ioSaveFor_alike he (by simp)).bind fun _ _ hentry => ?_
  refine (saveFrom_alike he (by simp)).bind fun _ _ houtputs => ?_
  have hstates' : h.statesOut ⊆ [block] ++ ([] ++ vs) := fun v hv => by simp [hstates hv]
  refine (ioSaveStates_alike he (by simp) hstates').bind fun _ _ hst => .pure ?_
  exact rel_append (rel_append (rel_append (rel_append haction hcreate) hentry)
    houtputs) hst

theorem condition_alike (hlen : args.length = p.modes.length) (hargs : args ⊆ vs)
    (hhopeful : p.isHopeless = false) :
    AlikeBy C vs (fun g g' => g.Inlines g' ∧ g'.info.bound = g.info.bound) (e.call p args)
      (e'.call p args) := by
  refine (call_alike he hlen hargs).imp fun {_ g _} g' hg hinlines => ⟨hinlines, ?_⟩
  have hnot : ¬ g.RunsHopeless := by
    simp only [call, callWith, he.calls, Bool.not_false, isEmpty_nil, Bool.and_self, if_true,
      returns_pure] at hg
    obtain ⟨rfl, -⟩ := hg
    rw [Goal.callProc, Goal.exposeFree, Goal.setNonlocals, Goal.runsHopeless_setInfo,
      Goal.runsHopeless_call, hhopeful]
    exact Bool.false_ne_true
  rw [hinlines.info.exact hnot]

theorem tableIo_alike :
    AlikeBy C vs Tabled.Inlines (e.tableIo body purpose unit head)
      (e'.tableIo body purpose unit head) := by
  unfold tableIo
  rw [he.states, he.context]
  refine ioHead_alike fun h => ?_
  refine newVar_alike fun root => newVar_alike fun counter => newVar_alike fun start => ?_
  refine (condition_alike he rfl (by simp) rfl).bind fun _ _ hinRange => newVar_alike fun tip => ?_
  refine (call_alike he rfl (by simp)).bind fun _ _ hlookup => ?_
  refine (condition_alike he rfl (by simp) rfl).bind fun _ _ hhas => ?_
  have hstates : ∀ ws, h.statesOut ⊆ tip :: start :: counter :: root :: (h.statesOut ++ ws) :=
    fun ws v hv => by simp [hv]
  refine (ioRestore_alike he (by simp) (hstates vs)).bind fun _ _ hrestore => ?_
  refine (ioRecord_alike he (by simp) (hstates vs)).bind fun _ _ hrecord => ?_
  refine .skip (adds_tabledArgs ..) fun _ => .skip (adds_tabledArgs ..) fun _ => .pure ?_
  have honce := Goal.Inlines.ifThenElse hhas.1 (.conjoin hrestore e.context)
    (.conjoin hrecord e.context) hhas.2 e.context
  exact ⟨.ifThenElse hinRange.1 (.conjoin (.cons hlookup (.cons honce .nil)) _) (.same body)
    hinRange.2 _, rfl, rfl, .none⟩

/-- Whatever the method, both settings emit the same code but for inlining. -/
theorem tabled_alike (proc : Procedure) :
    AlikeBy C vs (Option.Rel Tabled.Inlines) (e.tabled proc) (e'.tabled proc) := by
  unfold tabled
  cases proc.method with
  | normal => exact .pure .none
  | loopCheck strictness => exact (loopCheck_alike he).bind fun _ _ h => .pure (.some h)
  | memo strictness => exact (memo_alike he).bind fun _ _ h => .pure (.some h)
  | minimalModel model strictness =>
    cases model with
    | stackCopy => exact (stackCopy_alike he).bind fun _ _ h => .pure (.some h)
    | ownStacks => exact (ownStacks_alike he).bind fun _ _ h => .pure (.some h)
  | tableIo purpose unit => exact (tableIo_alike he).bind fun _ _ h => .pure (.some h)

end

end TableEnv

end Clausal
