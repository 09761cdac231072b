import Clausal.Proofs.CallSites
import Clausal.Proofs.TableMemory

/-!
# How inputs are looked up

A procedure that is tabled may say of each input how it is looked up in the
call table. What is said goes by the number of an input, and inputs are
numbered when the procedure is tabled: by then the witnesses are in front of
those that were declared, so that what is said of the first inputs is taken to
be about witnesses.
-/

namespace Clausal

open List

variable {s s' : WitnessState} {types : List Ty} {strictness : Strictness} {way : CallLookup}

/-! ### Steps down a trie -/

/-- The step for an argument of a category. -/
def TypeCategory.trieStep (c : TypeCategory) (type : Ty) (byAddr : Bool) : TrieStep :=
  match c with
  | .dummy | .void => .dummy
  | .int => .int
  | .char => .char
  | .string => .string
  | .float => .float
  | .typeInfo => .typeInfo
  | .dictionary => .dictionary
  | .enum size => .enum size
  | .higherOrder | .typeCtorInfo | .baseDictionary => .general type (!type.isGround) true
  | .variable | .tuple | .user => .general type (!type.isGround) byAddr

namespace TrieStep

/-- The primitive that takes a step. -/
def primitive? : TrieStep → Option Primitive
  | .dummy | .implied => none
  | .int => some .lookupInt
  | .char => some .lookupChar
  | .string => some .lookupString
  | .float => some .lookupFloat
  | .typeInfo => some .lookupTypeInfo
  | .dictionary => some .lookupDictionary
  | .enum _ => some .lookupEnum
  | .general _ isPoly byAddr => some (TableEnv.generalPrimitive isPoly byAddr)

/-- The look-ups that take the steps, each on the value of a variable. -/
def lookups : List TrieStep → List ProgVar → List (Primitive × ProgVar)
  | step :: steps, v :: vs => (step.primitive?.map (·, v)).toList ++ lookups steps vs
  | _, _ => []

end TrieStep

namespace Module

variable {m m' : Module} {slot : Nat} {types' : List Ty} {steps : List TrieStep}

/-- The step for an argument that is looked up in the given way. -/
def trieStep (m : Module) (type : Ty) (lookup : ArgLookup) : Except Fault TrieStep :=
  if lookup = .implied then .ok .implied
  else (·.trieStep type (lookup == .addr)) <$> m.category type

/-- The steps for inputs of the given types, from number `slot` on. -/
def trieSteps (m : Module) (strictness : Strictness) :
    (slot : Nat) → List Ty → Except Fault (List TrieStep)
  | _, [] => .ok []
  | slot, type :: types => do
    let step ← m.trieStep type (strictness.lookup slot)
    let steps ← m.trieSteps strictness (slot + 1) types
    return step :: steps

theorem trieSteps_append (h : m.trieSteps strictness slot (types ++ types') = .ok steps) :
    ∃ front back, steps = front ++ back ∧ m.trieSteps strictness slot types = .ok front ∧
      m.trieSteps strictness (slot + types.length) types' = .ok back := by
  induction types generalizing slot steps with
  | nil => exact ⟨[], steps, rfl, rfl, h⟩
  | cons type types ih =>
    simp only [cons_append, trieSteps, except_bind_eq_ok] at h
    obtain ⟨step, hstep, rest, hrest, heq⟩ := h
    cases heq
    obtain ⟨front, back, rfl, hfront, hback⟩ := ih hrest
    refine ⟨step :: front, back, rfl, ?_, ?_⟩
    · rw [trieSteps, hstep, hfront]
      rfl
    · rw [← hback, length_cons, Nat.add_assoc, Nat.add_comm 1]

theorem eq_implied_iff_of_trieStep {type : Ty} {lookup : ArgLookup} {step : TrieStep}
    (h : m.trieStep type lookup = .ok step) : step = .implied ↔ lookup = .implied := by
  unfold trieStep at h
  split at h
  · next hl =>
    cases h
    exact iff_of_true rfl hl
  · next hl =>
    refine iff_of_false ?_ hl
    cases hc : m.category type with
    | error e =>
      rw [hc] at h
      cases h
    | ok c =>
      rw [hc] at h
      cases h
      cases c <;> exact TrieStep.noConfusion

theorem getElem?_eq_implied_iff (h : m.trieSteps strictness slot types = .ok steps) {i : Nat}
    (hi : i < types.length) :
    steps[i]? = some .implied ↔ strictness.lookup (slot + i) = .implied := by
  induction types generalizing slot steps i with
  | nil => cases hi
  | cons type types ih =>
    simp only [trieSteps, except_bind_eq_ok] at h
    obtain ⟨step, hstep, rest, hrest, heq⟩ := h
    cases heq
    cases i with
    | zero =>
      rw [List.getElem?_cons_zero, Option.some.injEq]
      exact eq_implied_iff_of_trieStep hstep
    | succ i =>
      rw [List.getElem?_cons_succ, ih hrest (Nat.lt_of_succ_lt_succ hi), Nat.add_assoc,
        Nat.add_comm 1]

section

variable (h : m'.types = m.types)

include h

theorem findName?_congr (c : TypeCtor) : m'.findName? c = m.findName? c := by
  rw [findName?, h]
  rfl

theorem followName_congr (depth : Nat) : m'.followName depth = m.followName depth := by
  induction depth with
  | zero =>
    funext c
    rw [followName, followName, findName?_congr h]
  | succ depth ih =>
    funext c
    rw [followName, followName, findName?_congr h, ih]

theorem lookThrough_congr (names : Nat) (t : Ty) :
    m'.lookThrough names t = m.lookThrough names t := by
  induction names generalizing t with
  | zero => rfl
  | succ names ih =>
    cases t with
    | defined n args =>
      rw [lookThrough, lookThrough, findName?_congr h]
      simp only [ih]
    | _ => rfl

theorem denotedWithin_congr (turns : Nat) (t : Ty) :
    m'.denotedWithin turns t = m.denotedWithin turns t := by
  have hname : m'.isName = m.isName := by
    funext t
    cases t with
    | defined n args => rw [isName, isName, findName?_congr h]
    | _ => rfl
  have htrail : m'.headTrail = m.headTrail := by
    funext t
    rw [headTrail, headTrail, h, followName_congr h]
  induction turns generalizing t with
  | zero =>
    rw [denotedWithin, denotedWithin, htrail]
    simp only [lookThrough_congr h, hname]
  | succ turns ih =>
    rw [denotedWithin, denotedWithin, htrail]
    simp only [lookThrough_congr h, hname, ih]

theorem denoted_congr (t : Ty) : m'.denoted t = m.denoted t := by
  rw [denoted, denoted, denotedWithin_congr h]

theorem category_congr (t : Ty) : m'.category t = m.category t := by
  have hown : m'.ownCategory = m.ownCategory := by
    funext t
    cases t with
    | defined n args =>
      rw [ownCategory, ownCategory, h]
    | _ => rfl
  rw [category, category, hown, denoted_congr h]

end

theorem trieSteps_congr (h : ∀ t, m'.category t = m.category t) :
    m'.trieSteps strictness slot types = m.trieSteps strictness slot types := by
  induction types generalizing slot with
  | nil => rfl
  | cons type types ih => rw [trieSteps, trieSteps, ih, trieStep, trieStep, h]

end Module

/-! ### Look-ups in code -/

/-- The primitives that take a step down a trie. -/
def trieLookups : List Primitive :=
  .lookupEnum :: (Runtime.atomicLookups ++ Runtime.generalLookups)

/-- What a call looks up in a trie: the argument in front of the node that is
    reached. -/
def CallSite.lookup? (site : CallSite) : Option (Primitive × ProgVar) :=
  (Primitive.ofProc? site.callee).bind fun p =>
    if p ∈ trieLookups then site.args.dropLast.getLast?.map (p, ·) else none

namespace Goal

/-- The look-ups of a goal, in order. -/
def lookups (g : Goal) : List (Primitive × ProgVar) := g.callSites.filterMap CallSite.lookup?

/-- The look-ups of goals, in order. -/
def lookupsList (gs : List Goal) : List (Primitive × ProgVar) :=
  (callSitesList gs).filterMap CallSite.lookup?

theorem lookupsList_append (gs gs' : List Goal) :
    lookupsList (gs ++ gs') = lookupsList gs ++ lookupsList gs' := by
  rw [lookupsList, callSitesList_append, filterMap_append]
  rfl

theorem lookupsList_cons (g : Goal) (gs : List Goal) :
    lookupsList (g :: gs) = g.lookups ++ lookupsList gs := by
  rw [lookupsList, callSitesList, filterMap_append]
  rfl

theorem lookups_tabledBody (e : TableEnv) (purity : Purity) (head : List ProgVar) (g : Goal) :
    (Module.tabledBody e purity head g).lookups = g.lookups := by
  have hsites : (Module.tabledBody e purity head g).callSites = g.callSites := by
    unfold Module.tabledBody TableEnv.promised
    split
    · rw [within, exposeFree, setNonlocals, callSites_setInfo, callSites, callSites_requantify]
    · rw [callSites_requantify]
  rw [lookups, hsites, lookups]

end Goal

theorem Makes.lookupsList {context : Context} {dicts infos : List ProgVar} {goals : List Goal}
    (h : Makes context s dicts infos goals s') : Goal.lookupsList goals = [] := by
  refine filterMap_eq_nil_iff.2 fun site hsite => ?_
  obtain ⟨bound, -, hsetup⟩ := h.setup
  have hagree : SitesAgree (fun _ _ => False) [] (Goal.callSitesList goals) :=
    (hsetup (fun _ => True) (fun _ _ _ => trivial) fun _ _ _ => trivial).1.sitesAgree
  rcases hagree.origin hsite with ⟨_, hmem, -⟩ | ⟨p, hp, -, hcallee, -⟩
  · cases hmem
  · have hnot : ∀ p ∈ dictionaryAccessors, p ∉ trieLookups := by decide
    rw [CallSite.lookup?, hcallee, Primitive.ofProc?_proc, Option.bind_some, if_neg (hnot p hp)]

namespace TableEnv

open Synth Goal

variable {e : TableEnv} {g : Goal} {goals : List Goal} {node var tip nextNode : ProgVar}
  {step : TrieStep} {next : String} {type : Ty} {byAddr : Bool} {p : Primitive}

theorem callSites_call {args : List ProgVar} (h : Returns (e.call p args) s g s')
    (hlen : args.length = p.modes.length) : ∃ kind, g.callSites = [⟨kind, p.proc, args⟩] := by
  obtain ⟨-, ⟨-, -, rfl⟩ | ⟨code, rfl, hcallee, -, hargs⟩⟩ := callWith_cases h
  · exact ⟨.call, rfl⟩
  · refine ⟨.foreign, ?_⟩
    rw [callForeign, exposeFree, setNonlocals, callSites_setInfo, callSites, hcallee,
      (hargs hlen).1]

theorem lookups_call (front : List ProgVar) (hp : p ∈ trieLookups)
    (h : Returns (e.call p (front ++ [var, nextNode])) s g s')
    (hlen : front.length + 2 = p.modes.length) : g.lookups = [(p, var)] := by
  obtain ⟨kind, hsites⟩ := callSites_call h (by simpa using hlen)
  rw [Goal.lookups, hsites]
  simp [CallSite.lookup?, hp]

theorem lookupAtomic_step {step' : TrieStep} (hp : p ∈ Runtime.atomicLookups)
    (h : Returns (e.lookupAtomic step p node var next) s (step', tip, goals) s') :
    step' = step ∧ lookupsList goals = [(p, var)] := by
  have hmem : ∀ p ∈ Runtime.atomicLookups, p ∈ trieLookups ∧ 1 + 2 = p.modes.length := by decide
  simp only [lookupAtomic, returns_bind, returns_newHandle, returns_pure] at h
  obtain ⟨_, _, ⟨rfl, rfl⟩, g, _, hcall, heq, rfl⟩ := h
  cases heq
  rw [lookupsList_cons, lookups_call [node] (hmem p hp).1 hcall (hmem p hp).2]
  exact ⟨rfl, rfl⟩

theorem lookupGeneral_step
    (h : Returns (e.lookupGeneral type byAddr node var next) s (step, tip, goals) s') :
    step = .general type (!type.isGround) byAddr ∧
      lookupsList goals = [(generalPrimitive (!type.isGround) byAddr, var)] := by
  have hmem : ∀ isPoly byAddr, generalPrimitive isPoly byAddr ∈ trieLookups ∧
      2 + 2 = (generalPrimitive isPoly byAddr).modes.length := by decide
  simp only [lookupGeneral, returns_bind, returns_newHandle, returns_pure] at h
  obtain ⟨⟨info, infoGoals⟩, s₁, hinfo, _, _, ⟨rfl, rfl⟩, g, _, hcall, heq, rfl⟩ := h
  cases heq
  rw [lookupsList_append, (typeInfo_makes _ hinfo).lookupsList, lookupsList_cons,
    lookups_call [info, node] (hmem _ _).1 hcall (hmem _ _).2]
  exact ⟨rfl, rfl⟩

theorem lookupArg_step (h : Returns (e.lookupArg node var byAddr next) s (step, tip, goals) s')
    (ht : s.vars.type var = .ok type) :
    ∃ c, e.env.category type = .ok c ∧ step = c.trieStep type byAddr ∧
      lookupsList goals = (step.primitive?.map (·, var)).toList := by
  simp only [lookupArg, returns_bind, returns_varType, returns_lift] at h
  obtain ⟨type', s, ⟨ht', rfl⟩, c, s, ⟨hc, rfl⟩, h⟩ := h
  obtain rfl : type = type' := Except.ok.inj (ht.symm.trans ht')
  refine ⟨c, hc, ?_⟩
  cases c with
  | dummy | void =>
    obtain ⟨heq, -⟩ := returns_pure.1 h
    cases heq
    exact ⟨rfl, rfl⟩
  | int | char | string | float | typeInfo | dictionary =>
    obtain ⟨rfl, hlookups⟩ := lookupAtomic_step (by decide) h
    exact ⟨rfl, hlookups⟩
  | enum size =>
    simp only [returns_bind, returns_newHandle, returns_intVar, returns_pure] at h
    obtain ⟨_, _, ⟨rfl, rfl⟩, _, _, ⟨rfl, rfl⟩, g, _, hcall, heq, rfl⟩ := h
    cases heq
    rw [lookupsList_cons, lookupsList_cons, lookups_call [node, _] (by decide) hcall rfl]
    exact ⟨rfl, rfl⟩
  | higherOrder | typeCtorInfo | baseDictionary | «variable» | tuple | user =>
    obtain ⟨rfl, hlookups⟩ := lookupGeneral_step h
    exact ⟨rfl, hlookups⟩

theorem lookupFrom_steps {slot : Nat} {vars : List ProgVar}
    (h : Returns (e.lookupFrom strictness slot node vars) s way s')
    (htypes : Forall₂ (fun v t => s.vars.type v = .ok t) vars types) :
    e.env.trieSteps strictness slot types = .ok way.steps ∧ way.inputs.map (·.var) = vars ∧
      lookupsList way.goals = TrieStep.lookups way.steps vars := by
  induction vars generalizing s slot node way types with
  | nil =>
    obtain ⟨rfl, -⟩ := returns_pure.1 h
    cases htypes
    exact ⟨rfl, rfl, rfl⟩
  | cons var vars ih =>
    obtain ⟨step, node₁, goals₁, s₁, type', rest, h₁, -, h₂, rfl⟩ := returns_lookupFrom_cons h
    obtain ⟨type, types, ht, hts, rfl⟩ := forall₂_cons_left_iff.1 htypes
    have hfirst : s.Extends s₁ ∧ e.env.trieStep type (strictness.lookup slot) = .ok step ∧
        lookupsList goals₁ = (step.primitive?.map (·, var)).toList := by
      rcases h₁ with ⟨hl, rfl, -, rfl, rfl⟩ | ⟨hl, h₁⟩
      · rw [Module.trieStep, if_pos hl]
        exact ⟨.refl _, rfl, rfl⟩
      · obtain ⟨c, hc, rfl, hlookups⟩ := lookupArg_step h₁ ht
        rw [Module.trieStep, if_neg hl, hc]
        exact ⟨adds_lookupArg.mono h₁, rfl, hlookups⟩
    obtain ⟨hs, hstep, hlookups⟩ := hfirst
    obtain ⟨hsteps, hvars, hmore⟩ := ih h₂ (hts.imp fun _ _ ht => hs.vars.type_eq ht)
    refine ⟨?_, ?_, ?_⟩
    · rw [Module.trieSteps, hstep, hsteps]
      rfl
    · rw [map_cons, hvars]
    · rw [lookupsList_append, hlookups, hmore]
      rfl

/-- The inputs of a call are recorded and looked up by their numbers. -/
theorem lookup_steps {inputs : List ProgVar} (h : Returns (e.lookup inputs strictness) s way s')
    (htypes : Forall₂ (fun v t => s.vars.type v = .ok t) inputs types) :
    e.env.trieSteps strictness 0 types = .ok way.steps ∧ way.inputs.map (·.var) = inputs ∧
      lookupsList way.goals = TrieStep.lookups way.steps inputs := by
  obtain ⟨way, h₂, rfl⟩ := returns_lookup h
  have hs : s.Extends (s.addVar "T0" Handle.trie.type) := .addVar ..
  obtain ⟨hsteps, hvars, hlookups⟩ := lookupFrom_steps h₂
    (htypes.imp fun _ _ ht => hs.vars.type_eq ht)
  exact ⟨hsteps, hvars, hlookups⟩

end TableEnv

/-- The steps down the call table. -/
def TableLayout.steps : TableLayout → List TrieStep
  | .callTable steps .. => steps
  | .ioTable .. => []

/-- How the inputs are looked up in the call table, if there is one. -/
def EvalMethod.strictness? : EvalMethod → Option Strictness
  | .normal | .tableIo .. => none
  | .loopCheck s | .memo s | .minimalModel _ s => some s

namespace TableEnv

open Synth Goal

variable {e : TableEnv}

theorem tabled_lookup {proc : Procedure} {tabled : Tabled}
    (h : Returns (e.tabled proc) s (some tabled) s')
    (hmethod : proc.method.strictness? = some strictness) : ∃ way s₁ goals args,
      Returns (e.lookup (proc.headOf .input) strictness) s way s₁ ∧
      tabled.body = .conjoin (way.goals ++ goals) e.context ∧
      tabled.layout = .callTable way.steps way.inputs args ∧ tabled.tip = some way.tip := by
  rcases tabled_cases h with ⟨_, hm, h⟩ | ⟨_, hm, h⟩ | ⟨_, hm, h⟩ | ⟨_, hm, h⟩ | ⟨_, _, hm, h⟩
  all_goals rw [hm] at hmethod; cases hmethod
  · simp only [loopCheck, returns_bind] at h
    obtain ⟨way, s₁, hway, _, _, -, _, _, -, _, _, -, h⟩ := h
    obtain ⟨hbody, -, args, hlayout, htip⟩ := returns_tabledBy h
    exact ⟨way, s₁, _, args, hway, hbody, hlayout, htip⟩
  · obtain ⟨way, s₁, goals, s₂, hway, -, h⟩ := returns_memo h
    obtain ⟨hbody, -, args, hlayout, htip⟩ := returns_tabledBy h
    exact ⟨way, s₁, goals, args, hway, hbody, hlayout, htip⟩
  · simp only [stackCopy, returns_bind] at h
    obtain ⟨way, s₁, hway, _, _, -, _, _, -, _, _, -, _, _, -, h⟩ := h
    obtain ⟨hbody, -, args, hlayout, htip⟩ := returns_tabledBy h
    exact ⟨way, s₁, _, args, hway, hbody, hlayout, htip⟩
  · simp only [ownStacks, returns_bind, returns_pure] at h
    obtain ⟨way, s₁, hway, _, _, -, _, _, -, _, _, -, _, _, -, _, _, -, _, _, -, _, _, -, _, _, -,
      tabled', _, hby, rfl, -⟩ := h
    obtain ⟨hbody, -, args, hlayout, htip⟩ := returns_tabledBy hby
    exact ⟨way, s₁, _, args, hway, hbody, hlayout, htip⟩

end TableEnv

/-! ### Both passes -/

/-- The types of the witnesses that the procedures of a predicate take as
    inputs. -/
def Predicate.witnessInputs (p : Predicate) : List Ty :=
  if p.isExempt then []
  else p.constraints.universal.map (fun _ => .dictionary) ++
    p.bareTypeVars.1.map (fun _ => .typeInfo)

theorem forall₂_ofMode {α β : Type} {R : α → β → Prop} {as : List α} {bs : List β}
    (h : Forall₂ R as bs) (modes : List Mode) (mode : Mode) :
    Forall₂ R (((as.zip modes).filter (·.2 == mode)).map Prod.fst)
      (((bs.zip modes).filter (·.2 == mode)).map Prod.fst) := by
  induction h generalizing modes with
  | nil => exact .nil
  | cons hab _ ih =>
    cases modes with
    | nil => exact .nil
    | cons first modes =>
      rw [zip_cons_cons, zip_cons_cons, filter_cons, filter_cons]
      by_cases hmode : first == mode
      · rw [if_pos hmode, if_pos hmode]
        exact .cons hab (ih modes)
      · rw [if_neg hmode, if_neg hmode]
        exact ih modes

theorem inputs_zip_map {α : Type} (as : List α) (type : Ty) (mode : Mode) :
    (((as.map fun _ => type).zip (as.map fun _ => mode)).filter (·.2 == .input)).map Prod.fst =
      if mode = .input then as.map fun _ => type else [] := by
  induction as with
  | nil => simp
  | cons a as ih => cases mode <;> simp

theorem Predicate.inputs_witnessTypes {p : Predicate} (hexempt : p.isExempt = false) :
    ((p.witnessTypes.zip p.witnessModes).filter (·.2 == .input)).map Prod.fst =
      p.witnessInputs := by
  rw [witnessTypes, witnessModes, witnessInputs, hexempt]
  simp only [zip_append, length_append, length_map, filter_append,
    map_append, inputs_zip_map]
  simp

namespace Module

variable {m m₁ m₂ : Module} {r : ProcRef} {pred : Predicate} {proc : Procedure}

theorem Changes.headOf_input {env : Module} {p : Predicate} {out : WitnessHead} {body : Goal}
    (h : Changes m r proc env p out body s) (hexempt : p.isExempt = false) :
    ∃ w, (changed proc out body s).headOf .input = w ++ proc.headOf .input ∧
      Forall₂ (fun t v => s.vars.type v = .ok t) p.witnessInputs w := by
  obtain ⟨w, hhead, hmodes, hw⟩ := h.head
  have hlen : w.length = p.witnessModes.length := by
    rw [← hw.length_eq]
    simp [Predicate.witnessTypes, Predicate.witnessModes, Nat.add_assoc]
  refine ⟨((w.zip p.witnessModes).filter (·.2 == .input)).map Prod.fst, ?_, ?_⟩
  · rw [Procedure.headOf, changed, hhead, hmodes, zip_append hlen, filter_append,
      map_append]
    rfl
  · rw [← Predicate.inputs_witnessTypes hexempt]
    exact forall₂_ofMode (hw.imp fun _ _ hv => hv.2) _ _

theorem addWitnesses_inputs (h : m.addWitnesses = .ok m₁) (hr : m.findProc? r = some (pred, proc)) :
    ∃ proc₁ w, m₁.procAt? r = some proc₁ ∧ proc₁.method = proc.method ∧
      proc.vars.Extends proc₁.vars ∧ proc₁.headOf .input = w ++ proc.headOf .input ∧
      Forall₂ (fun t v => proc₁.vars.type v = .ok t) pred.witnessInputs w := by
  obtain ⟨pred₁, proc₁, hr₁, hexempt, hnonexempt⟩ := addWitnesses_proc h hr
  cases hex : pred.isExempt with
  | true =>
    obtain ⟨-, rfl⟩ := hexempt hex
    refine ⟨proc₁, [], procAt?_of_findProc? hr₁, rfl, .refl _, rfl, ?_⟩
    rw [Predicate.witnessInputs, if_pos hex]
    exact .nil
  | false =>
    obtain ⟨-, env, p, out, body, s, hc, hsame, rfl⟩ := hnonexempt hex
    obtain ⟨w, hinputs, hw⟩ := hc.headOf_input (hsame.isExempt_eq ▸ hex)
    obtain ⟨s₁, parts, hparts, hgrows⟩ := Synth.procedure_head hc.returns
    refine ⟨_, w, procAt?_of_findProc? hr₁, rfl, hparts.grows.vars.trans hgrows.vars, hinputs, ?_⟩
    have heq : p.witnessInputs = pred.witnessInputs := by
      rw [hsame.decl]
      rfl
    exact heq ▸ hw

theorem category_of_passes {env : Module} (h : m.addWitnesses = .ok m₁) (hgrows : m₁.Grows env)
    (t : Ty) : env.category t = m.category t := by
  obtain ⟨m', -, hd, hadds⟩ := addWitnesses_cases h
  exact category_congr (by rw [hgrows.rest, hadds.rest, hd.rest]) t

/-- After both passes the inputs of a procedure with a call table are recorded
    and looked up by their numbers, those that are witnesses first. What is said
    of the first inputs is about witnesses, and the inputs that were declared are
    numbered from there on. -/
theorem inputs_looked_up_by_number (hw : m.addWitnesses = .ok m₁) (h : m₁.table = .ok m₂)
    (hsupported : m.options.tablingRefused? = none) (hr : m.findProc? r = some (pred, proc))
    {lookups : List ArgLookup} (hmethod : proc.method.strictness? = some (.specified lookups))
    {types : List Ty}
    (htypes : List.Forall₂ (fun v t => proc.vars.type v = .ok t) (proc.headOf .input) types) :
    ∃ proc' w front back inputs outputs, m₂.procAt? r = some proc' ∧
      proc'.headOf .input = w ++ proc.headOf .input ∧ w.length = pred.witnessInputs.length ∧
      m.trieSteps (.specified lookups) 0 pred.witnessInputs = .ok front ∧
      m.trieSteps (.specified lookups) pred.witnessInputs.length types = .ok back ∧
      proc'.table = some (.callTable (front ++ back) inputs outputs) ∧
      inputs.map (·.var) = proc'.headOf .input ∧
      TrieStep.lookups (front ++ back) (proc'.headOf .input) <+: proc'.body.lookups ∧
      ∀ i < (proc'.headOf .input).length,
        (front ++ back)[i]? = some .implied ↔ lookups[i]? = some .implied := by
  obtain ⟨proc₁, w, hproc₁, hmethod₁, hvars, hinputs, hwtypes⟩ := addWitnesses_inputs hw hr
  have hoptions : m₁.options = m.options := by
    obtain ⟨m', -, hd, hadds⟩ := addWitnesses_cases hw
    rw [hadds.rest, hd.rest]
  have htabled : proc₁.method ≠ .normal := by
    intro hnormal
    rw [← hmethod₁, hnormal] at hmethod
    cases hmethod
  obtain ⟨env, q, tabled, s, added, hgrows, hreturns, hplace⟩ :=
    table_tabled h (hoptions ▸ hsupported) hproc₁ htabled
  obtain ⟨way, s₁, goals, args, hway, hbody, hlayout, -⟩ :=
    TableEnv.tabled_lookup hreturns.returns (hmethod₁ ▸ hmethod)
  have halltypes : List.Forall₂ (fun v t => proc₁.vars.type v = .ok t) (proc₁.headOf .input)
      (pred.witnessInputs ++ types) := by
    rw [hinputs]
    exact List.rel_append hwtypes.flip (htypes.imp fun _ _ ht => hvars.type_eq ht)
  obtain ⟨hsteps, hargs, hlookups⟩ := TableEnv.lookup_steps hway halltypes
  replace hsteps := (trieSteps_congr (category_of_passes hw hgrows)).symm.trans hsteps
  obtain ⟨front, back, heq, hfront, hback⟩ := trieSteps_append hsteps
  rw [Nat.zero_add] at hback
  refine ⟨_, w, front, back, way.inputs, args, hplace, hinputs, hwtypes.length_eq.symm, hfront,
    hback, ?_, hargs, ?_, fun i hi => ?_⟩
  · rw [← heq, ← hlayout]
    rfl
  · refine ⟨Goal.lookupsList goals, ?_⟩
    show _ = (tabledBody ..).lookups
    rw [Goal.lookups_tabledBody, hbody, Goal.lookups, Goal.callSites_conjoin, ← Goal.lookupsList,
      Goal.lookupsList_append, hlookups, heq]
    rfl
  · have hlt : i < (pred.witnessInputs ++ types).length := by
      rw [← halltypes.length_eq]
      exact hi
    rw [← heq, getElem?_eq_implied_iff hsteps hlt, Nat.zero_add, Strictness.lookup]
    cases lookups[i]? <;> simp

end Module

/-! ### Examples -/

namespace TabledExample

/-- A procedure with an input of any type and one that is an integer, which are
    to be looked up in the given ways. -/
def pickPred (lookups : List ArgLookup) : Predicate :=
  let m := Module.start "m"
  m.declared
    { name := "pick"
      scope := .ofNames ["T"]
      args := [.input "X" (.var ⟨0⟩), .input "N" .int, .output "M" .int]
      method := .memo (.specified lookups) }
    (.assign ⟨2⟩ ⟨1⟩ (m.context 1))

def pickModule (lookups : List ArgLookup) : Module := (Module.start "m").addPred (pickPred lookups)

/-- What is said of the second input is about the one of any type, since the
    first is its type-info. -/
theorem pick_second_implied : ∃ m₁ m₂ proc' inputs outputs,
    (pickModule [.value, .implied]).addWitnesses = .ok m₁ ∧ m₁.table = .ok m₂ ∧
      m₂.procAt? tabledProc = some proc' ∧
      proc'.table = some (.callTable [.typeInfo, .implied, .int] inputs outputs) := by
  have hfront : (pickModule [.value, .implied]).trieSteps (.specified [.value, .implied]) 0
      [.typeInfo] = .ok [.typeInfo] := by decide +kernel
  have hback : (pickModule [.value, .implied]).trieSteps (.specified [.value, .implied]) 1
      [.var ⟨0⟩, .int] = .ok [.implied, .int] := by decide +kernel
  obtain ⟨m₁, h₁, h⟩ := Module.exists_of_toOption
    (x := (pickModule [.value, .implied]).addWitnesses)
    (q := fun m₁ => m₁.table.toOption.any fun _ => true) (by decide +kernel)
  obtain ⟨m₂, h₂, -⟩ := Module.exists_of_toOption h
  obtain ⟨proc', w, front, back, inputs, outputs, hproc', -, -, hfront', hback', htable, -⟩ :=
    Module.inputs_looked_up_by_number (r := tabledProc) h₁ h₂ rfl
      (rfl : _ = some (pickPred [.value, .implied], _)) rfl
      (.cons (b := .var ⟨0⟩) rfl (.cons (b := .int) rfl .nil))
  obtain rfl : [.typeInfo] = front := Except.ok.inj (hfront.symm.trans hfront')
  obtain rfl : [.implied, .int] = back := Except.ok.inj (hback.symm.trans hback')
  exact ⟨m₁, m₂, proc', inputs, outputs, h₁, h₂, hproc', htable⟩

/-- The input that is said to be implied is looked up, and its type-info is
    not. -/
theorem pick_first_not_implied : ∃ m₁ m₂ proc' layout,
    (pickModule [.implied]).addWitnesses = .ok m₁ ∧ m₁.table = .ok m₂ ∧
      m₂.procAt? tabledProc = some proc' ∧ proc'.headOf .input = [⟨3⟩, ⟨0⟩, ⟨1⟩] ∧
      proc'.table = some layout ∧
      layout.steps = [.implied, .general (.var ⟨0⟩) true false, .int] ∧
      proc'.body.lookups = [(.lookupPoly, ⟨0⟩), (.lookupInt, ⟨1⟩)] := by
  have hq : ((pickModule [.implied]).addWitnesses.toOption.any fun m₁ =>
      m₁.table.toOption.any fun m₂ => (m₂.procAt? tabledProc).any fun p =>
        p.headOf .input = [⟨3⟩, ⟨0⟩, ⟨1⟩] ∧
          p.table.map TableLayout.steps = some [.implied, .general (.var ⟨0⟩) true false, .int] ∧
          p.body.lookups = [(.lookupPoly, ⟨0⟩), (.lookupInt, ⟨1⟩)]) = true := by
    decide +kernel
  obtain ⟨m₁, h₁, h⟩ := Module.exists_of_toOption hq
  obtain ⟨m₂, proc', h₂, hproc', hq⟩ := Module.exists_of_table h
  obtain ⟨hhead, htable, hlookups⟩ := of_decide_eq_true hq
  obtain ⟨layout, hlayout, hsteps⟩ := Option.map_eq_some_iff.1 htable
  exact ⟨m₁, m₂, proc', layout, h₁, h₂, hproc', hhead, hlayout, hsteps, hlookups⟩

end TabledExample

end Clausal
