import Clausal.Proofs.Emission

/-!
# What tabling code does

What the goals do that look up a call or an answer and that move values
between variables and answer blocks.
-/

namespace Clausal

open List Store Goal WitnessState Tables Outcome

variable {s s' : WitnessState} {rt : Accessors} {σ σ' : Store} {t : Ty} {x : Value} {p : Primitive}
  {var : ProgVar} {bound vars : List ProgVar} {ts types : List Ty} {strictness : Strictness}
  {slot : Nat} {way : CallLookup} {xs ys : List Value} {m : Module} {T : Type} {R : Runtime T}
  {goals : List Goal} {w : World T} {args inputs ins : List ProgVar} {n'' size : Nat} {g : Goal}
  {ys' : List Value} {calls : List (List Value)}

/-! ### Type-infos -/

/-- The description of a type, as it is found in a store. -/
def WitnessState.Describes (s : WitnessState) (rt : Accessors) (σ : Store) (t : Ty) (x : Value) :
    Prop :=
  t.infoWith (s.witnesses.infoOf rt σ) = some x

/-- A description is still found when variables are added and bound. -/
theorem WitnessState.Describes.mono (h : s.Describes rt σ t x) (hs : s.Extends s')
    (hσ : σ.Keeps σ') : s'.Describes rt σ' t x :=
  Ty.infoWith_mono (fun _ _ hv => WitnessMap.infoOf_mono hs.infos hσ hv) h

section

variable {m n : Nat} {context : Context}

variable (R) in
/-- Goals bind a variable to a value and leave the tables alone. -/
def Runtime.Computes (m n : Nat) (goals : List Goal) (σ : Store) (w : World T) (var : ProgVar)
    (x : Value) : Prop :=
  R.Runs m n goals σ w fun σ' v => σ' var = some x ∧ v = R.view w.tables

/-- A construction that runs has bound its variable to a cell. -/
theorem exec_construct_eq_some {v : ProgVar} {f : Symbol}
    (h : (Goal.construct v f args context).exec rt σ = some σ') :
    ∃ xs, args.mapM σ = some xs ∧ σ' = σ.set v (.cell f xs) := by
  change (do return σ.set v (.cell f (← args.mapM σ))) = some σ' at h
  simp only [Option.pure_def, Option.bind_eq_bind, Option.bind_eq_some_iff,
    Option.some.injEq] at h
  obtain ⟨xs, hxs, rfl⟩ := h
  exact ⟨xs, hxs, rfl⟩

theorem exec_accessor_eq {d slot r : ProgVar} :
    (Synth.accessor p d slot r context).exec rt σ =
      match dictionaryAccessors.find? (fun q => q.proc == p.proc), σ d, σ slot with
      | some p, some x, some (.cell (.int i) []) => (rt p x i).map (σ.set r)
      | _, _, _ => none :=
  rfl

/-- An accessor that runs has read a slot of a dictionary. -/
theorem exec_accessor_eq_some (hp : p ∈ dictionaryAccessors) {d slot r : ProgVar}
    (h : (Synth.accessor p d slot r context).exec rt σ = some σ') :
    ∃ x i y, σ d = some x ∧ σ slot = some (.ofInt i) ∧ rt p x i = some y ∧ σ' = σ.set r y := by
  have hfind : dictionaryAccessors.find? (fun q => q.proc == p.proc) = some p :=
    forall_accessor (P := fun p => dictionaryAccessors.find? (·.proc == p.proc) = some p) rfl rfl p
      hp
  rw [exec_accessor_eq, hfind] at h
  split at h
  · next q x i hq hd hslot =>
    cases hq
    obtain ⟨y, hy, rfl⟩ := Option.map_eq_some_iff.1 h
    exact ⟨x, i, y, hd, hslot, hy, rfl⟩
  · cases h

theorem accessor_calls (hp : p ∈ dictionaryAccessors) (d slot r : ProgVar) :
    (Synth.accessor p d slot r context).Calls p [d, slot] [r] := by
  refine ⟨fun M σ xs w hb => ?_⟩
  have hmodes : Mode.input.vars ([d, slot] ++ [r]) p.modes = [d, slot] ∧
      Mode.output.vars ([d, slot] ++ [r]) p.modes = [r] := by
    refine TableEnv.vars_modes ?_ ?_
    · exact forall_accessor (P := fun p => 2 = p.signature.inputs.length) rfl rfl p hp
    · exact forall_accessor (P := fun p => 1 = p.signature.outputs.length) rfl rfl p hp
  rw [Synth.accessor, Goal.callProc, run_exposeFree, Goal.run, Machine.runCall,
    Primitive.ofProc?_proc]
  simp only [cons_append, nil_append] at hmodes
  simp only [Machine.runPrimitive, hmodes.1, hmodes.2, hb.mapM]

variable (R) in
/-- Goals give a variable a value, whether or not it has one, and leave the
    tables and the other variables below `n` alone. -/
def Runtime.Sets (n n' : Nat) (goals : List Goal) (σ : Store) (w : World T) (var : ProgVar)
    (x : Value) : Prop :=
  (Goal.runAll R.machine goals σ w).Once fun σ' w' => σ' var = some x ∧
    (∀ u, u ≠ var → u.index < n → σ' u = σ u) ∧ σ'.Below n' ∧ w'.trace = w.trace ∧
    R.view w'.tables = R.view w.tables

/-- A variable is given the value that it has if it has one, and then comes
    something else. -/
theorem Runtime.Sets.append {n' : Nat} {more : List Goal} {Q : Store → Tables → Prop}
    (h : R.Sets n n' goals σ w var x) (hσ : σ.Below n) (hvar : ∀ y, σ var = some y → y = x)
    (h' : ∀ σ' w', σ.Grows 0 n' σ' → σ' var = some x →
      (∀ u, u ≠ var → u.index < n → σ' u = σ u) → R.view w'.tables = R.view w.tables →
        R.Runs 0 n'' more σ' w' Q) :
    R.Runs 0 n'' (goals ++ more) σ w Q := by
  unfold Runtime.Runs
  rw [runAll_append]
  refine Outcome.Once.bind h ?_
  rintro σ' w' ⟨hx, hother, hb, ht, hv⟩
  have hgrows : σ.Grows 0 n' σ' := by
    refine ⟨fun u y hu => ?_, hb, fun v hv => absurd hv (Nat.not_lt_zero _)⟩
    by_cases huv : u = var
    · rw [huv, hx, hvar y (huv ▸ hu)]
    · rw [hother u huv (hσ u y hu), hu]
  exact Outcome.Once.imp (h' σ' w' hgrows hx hother hv) fun σ'' w'' ⟨hσ', ht', hq⟩ =>
    ⟨hgrows.trans hσ', ht'.trans ht, hq⟩

/-- Set-up goals that run through bind their own variables only, and leave the
    tables alone. -/
theorem Setup.run (hR : R.ReadsDictionaries) {X : ProgVar → Prop} (h : Setup context X goals bound)
    (hexec : Goal.execAll R.accessors goals σ = some σ') (w : World T) :
    ∃ w', Goal.runAll R.machine goals σ w = .once σ' w' ∧ w'.trace = w.trace ∧
      R.view w'.tables = R.view w.tables ∧ ∀ v ∉ bound, σ' v = σ v := by
  induction h generalizing σ w with
  | nil =>
    cases hexec
    exact ⟨w, rfl, rfl, rfl, fun _ _ => rfl⟩
  | @construct X v f args goals bound _ _ _ ih =>
    rw [Goal.execAll, foldlM_cons] at hexec
    obtain ⟨σ₁, h₁, hrest⟩ := Option.bind_eq_some_iff.1 hexec
    obtain ⟨xs, hargs, rfl⟩ := exec_construct_eq_some h₁
    obtain ⟨w', hrun, htrace, hview, hframe⟩ := ih hrest w
    refine ⟨w', ?_, htrace, hview, fun u hu => ?_⟩
    · rw [runAll_cons, run_construct]
      simp only [Machine.runUnify, hargs, once_bind]
      exact hrun
    · rw [mem_cons, not_or] at hu
      rw [hframe u hu.2, set_of_ne hu.1]
  | @accessor X p d slot r goals bound hp _ _ ih =>
    rw [Goal.execAll, foldlM_cons] at hexec
    obtain ⟨σ₁, h₁, hrest⟩ := Option.bind_eq_some_iff.1 hexec
    obtain ⟨x, i, y, hd, hslot, hy, rfl⟩ := exec_accessor_eq_some hp h₁
    obtain ⟨σ₁, w₁, hcall, rfl, htrace₁, hview₁⟩ := (hR p hp x i y w.tables hy).run
      (accessor_calls hp d slot r) (.cons hd (.cons hslot .nil))
    obtain ⟨w', hrun, htrace, hview, hframe⟩ := ih hrest w₁
    refine ⟨w', ?_, htrace.trans htrace₁, hview.trans hview₁, fun u hu => ?_⟩
    · rw [runAll_cons, hcall, once_bind, setMany_single]
      exact hrun
    · rw [mem_cons, not_or] at hu
      rw [hframe u hu.2, set_of_ne hu.1]

/-- The goals that describe a type compute its description. -/
theorem typeInfo_computes (hR : R.ReadsDictionaries)
    (h : Synth.Returns (Synth.typeInfo context t) s (var, goals) s') (hm : m ≤ s.vars.size)
    (hσ : σ.Below s.vars.size) (hx : s.Describes R.accessors σ t x) :
    R.Computes m s'.vars.size goals σ w var x := by
  obtain ⟨-, hbuilds⟩ := Synth.typeInfo_builds t h (located_of_infoWith hx)
  obtain ⟨σ', hexec, hk, hb, hvar⟩ := hbuilds σ x hσ hx
  obtain ⟨bound, hbound, hsetup⟩ := (Synth.typeInfo_makes t h).setup
  obtain ⟨hs, -, -⟩ := hsetup (fun _ => True) (fun _ _ _ => trivial) (fun _ _ _ => trivial)
  obtain ⟨w', hrun, htrace, hview, hframe⟩ := hs.run hR hexec w
  refine ⟨σ', w', hrun, ⟨hk, hb, fun v hv => hframe v fun hmem => ?_⟩, htrace, hvar, hview⟩
  exact absurd (hbound.new v hmem).1 (by omega)

end

/-! ### Ways down a trie -/

/-- The primitive that looks up a value of a category, and what it is told of
    the type. The values of some categories are not looked up. -/
def TypeCategory.step? (c : TypeCategory) (type : Ty) (info : Value) (byAddr : Bool) :
    Option (Primitive × List Value) :=
  match c with
  | .dummy | .void => none
  | .int => some (.lookupInt, [])
  | .char => some (.lookupChar, [])
  | .string => some (.lookupString, [])
  | .float => some (.lookupFloat, [])
  | .typeInfo => some (.lookupTypeInfo, [])
  | .dictionary => some (.lookupDictionary, [])
  | .enum size => some (.lookupEnum, [.ofInt size])
  | .higherOrder | .typeCtorInfo | .baseDictionary =>
    some (TableEnv.generalPrimitive (!type.isGround) true, [info])
  | .variable | .tuple | .user =>
    some (TableEnv.generalPrimitive (!type.isGround) byAddr, [info])

/-- The step down a trie for an argument, if it takes one. -/
def Module.step? (m : Module) (info : Ty → Option Value) (type : Ty) (lookup : ArgLookup) :
    Option (Primitive × List Value) :=
  if lookup = .implied then none
  else (m.category type).toOption.bind fun c =>
    c.step? type ((info type).getD default) (lookup == .addr)

/-- The steps of a call down the call table, for inputs of the given types
    from number `slot` on. -/
def Module.callSteps (m : Module) (info : Ty → Option Value) (strictness : Strictness)
    (slot : Nat) (types : List Ty) : List (Option (Primitive × List Value)) :=
  (types.zipIdx slot).map fun (type, i) => m.step? info type (strictness.lookup i)

/-- The steps of an answer down an answer table. -/
def Module.answerSteps (m : Module) (info : Ty → Option Value) (types : List Ty) :
    List (Option (Primitive × List Value)) :=
  types.map fun type => m.step? info type .value

namespace Runtime

variable (R : Runtime T)

/-- The node that a step leads to. -/
def down (step : Option (Primitive × List Value)) (n x : Value) : Value :=
  match step with
  | some (p, ps) => R.child p ps n x
  | none => n

/-- The node that the values of arguments lead to. -/
def follow : List (Option (Primitive × List Value)) → List Value → Value → Value
  | step :: steps, x :: xs, n => follow steps xs (R.down step n x)
  | _, _, n => n

/-- The root of the call table of a procedure. -/
def root (r : ProcRef) : Value := .cell (.tableRoot r) []

/-- The place of a call in the call table of a procedure. -/
def place (m : Module) (r : ProcRef) (info : Ty → Option Value) (strictness : Strictness)
    (types : List Ty) (xs : List Value) : Value :=
  R.follow (m.callSteps info strictness 0 types) xs (root r)

end Runtime

namespace TableEnv

open Synth

variable {e : TableEnv} {m : Nat} {node tip : ProgVar} {step : TrieStep} {next : String}
  {n info : Value} {type : Ty} {byAddr : Bool}

theorem adds_lookupAtomic : Adds (e.lookupAtomic step p node var next) :=
  adds_bind (adds_newVar ..) fun _ => adds_bind (adds_call ..) fun _ => adds_pure _

theorem adds_lookupGeneral : Adds (e.lookupGeneral type byAddr node var next) :=
  adds_bind (adds_typeInfo ..) fun _ => adds_bind (adds_newVar ..) fun _ =>
    adds_bind (adds_call ..) fun _ => adds_pure _

theorem adds_lookupArg : Adds (e.lookupArg node var byAddr next) := by
  refine adds_bind (adds_varType _) fun type => adds_bind (adds_lift _) fun c => ?_
  cases c with
  | dummy | void => exact adds_pure _
  | int | char | string | float | typeInfo | dictionary => exact adds_lookupAtomic
  | enum size =>
    exact adds_bind (adds_newVar ..) fun _ => adds_bind (adds_intVar ..) fun _ =>
      adds_bind (adds_call ..) fun _ => adds_pure _
  | higherOrder | typeCtorInfo | baseDictionary | «variable» | tuple | user =>
    exact adds_lookupGeneral

theorem generalPrimitive_mem (isPoly byAddr : Bool) :
    generalPrimitive isPoly byAddr ∈ Runtime.generalLookups := by
  revert isPoly byAddr
  decide

/-- The types of some variables, and descriptions of the types that are found
    in a store. -/
structure Described (R : Runtime T) (s : WitnessState) (σ : Store) (info : Ty → Option Value)
    (vars : List ProgVar) (ts : List Ty) : Prop where
  types : Forall₂ (fun v t => s.vars.type v = .ok t) vars ts
  infos : ∀ t ∈ ts, ∃ i, info t = some i ∧ s.Describes R.accessors σ t i

theorem Described.mono {info : Ty → Option Value} (h : Described R s σ info vars ts)
    (hs : s.Extends s') (hσ : σ.Keeps σ') : Described R s' σ' info vars ts where
  types := h.types.imp fun _ _ ht => hs.vars.type_eq ht
  infos t ht :=
    let ⟨i, hi, hd⟩ := h.infos t ht
    ⟨i, hi, hd.mono hs hσ⟩

theorem described_cons {info : Ty → Option Value} (h : Described R s σ info (var :: vars) ts) :
    ∃ t ts' i, ts = t :: ts' ∧
      s.vars.type var = .ok t ∧ info t = some i ∧ s.Describes R.accessors σ t i ∧
        Described R s σ info vars ts' := by
  obtain ⟨t, ts', ht, hts, rfl⟩ := forall₂_cons_left_iff.1 h.types
  obtain ⟨i, hi, hd⟩ := h.infos t mem_cons_self
  exact ⟨t, ts', i, rfl, ht, hi, hd, hts, fun t ht => h.infos t (mem_cons_of_mem _ ht)⟩

/-- The first input is looked up, unless it is implied, and then the others. -/
theorem returns_lookupFrom_cons
    (h : Returns (e.lookupFrom strictness slot node (var :: vars)) s way s') :
    ∃ step node₁ goals₁ s₁ type rest,
      (strictness.lookup slot = .implied ∧ step = .implied ∧ node₁ = node ∧ goals₁ = [] ∧ s₁ = s ∨
        strictness.lookup slot ≠ .implied ∧
          Returns (e.lookupArg node var (strictness.lookup slot == .addr)
            ("T" ++ toString (slot + 1))) s (step, node₁, goals₁) s₁) ∧
      s₁.vars.type var = .ok type ∧
      Returns (e.lookupFrom strictness (slot + 1) node₁ vars) s₁ rest s' ∧
      way = ⟨goals₁ ++ rest.goals, rest.tip, step :: rest.steps,
        ⟨var, slot, type⟩ :: rest.inputs⟩ := by
  rw [lookupFrom] at h
  cases hl : strictness.lookup slot with
  | value | addr =>
    rw [hl] at h
    simp only [returns_bind, returns_varType, returns_pure] at h
    obtain ⟨⟨step, node₁, goals₁⟩, s₁, h₁, t, s₁, ⟨ht, rfl⟩, rest, s₂, h₂, rfl, rfl⟩ := h
    exact ⟨step, node₁, goals₁, s₁, t, rest, .inr ⟨by decide, h₁⟩, ht, h₂, rfl⟩
  | implied =>
    rw [hl] at h
    simp only [returns_bind, returns_varType, returns_pure] at h
    obtain ⟨_, s₁, ⟨rfl, rfl⟩, t, s₁, ⟨ht, rfl⟩, rest, s₂, h₂, rfl, rfl⟩ := h
    exact ⟨.implied, node, [], s₁, t, rest, .inl ⟨rfl, rfl, rfl, rfl, rfl⟩, ht, h₂, rfl⟩

theorem adds_lookupFrom : Adds (e.lookupFrom strictness slot node vars) := by
  induction vars generalizing slot node with
  | nil => exact adds_pure _
  | cons var vars ih =>
    refine ⟨fun h => ?_⟩
    obtain ⟨step, node₁, goals₁, s₁, type, rest, h₁, -, h₂, -⟩ := returns_lookupFrom_cons h
    rcases h₁ with ⟨-, -, -, -, rfl⟩ | ⟨-, h₁⟩
    · exact ih.mono h₂
    · exact (adds_lookupArg.mono h₁).trans (ih.mono h₂)

/-- A call is looked up from the root of its call table. -/
theorem returns_lookup (h : Returns (e.lookup inputs strictness) s way s') :
    ∃ way', Returns (e.lookupFrom strictness 0 s.nextVar inputs)
        (s.addVar "T0" Handle.trie.type) way' s' ∧
      way = { way' with
        goals := .construct s.nextVar (.tableRoot e.proc) [] e.context :: way'.goals } := by
  simp only [lookup, root, returns_bind, returns_newHandle, returns_pure] at h
  obtain ⟨_, _, ⟨_, _, ⟨rfl, rfl⟩, rfl, rfl⟩, way, s₂, h₂, rfl, rfl⟩ := h
  exact ⟨way, h₂, rfl⟩

theorem adds_lookup : Adds (e.lookup inputs strictness) :=
  adds_bind (adds_bind (adds_newVar ..) fun _ => adds_pure _) fun _ =>
    adds_bind adds_lookupFrom fun _ => adds_pure _

theorem adds_answerLookupFrom : Adds (e.answerLookupFrom slot node vars) := by
  induction vars generalizing slot node with
  | nil => exact adds_pure _
  | cons var vars ih =>
    exact adds_bind adds_lookupArg fun _ => adds_bind ih fun _ => adds_pure _

section

variable (hR : R.LooksUp) (hm : m ≤ s.vars.size) (hσ : σ.Below s.vars.size)

include hR hm hσ

/-- A value of an atomic category is looked up by its own primitive. -/
theorem lookupAtomic_computes (hp : p ∈ Runtime.atomicLookups) {step' : TrieStep}
    (h : Returns (e.lookupAtomic step p node var next) s (step', tip, goals) s')
    (hn : σ node = some n) (hx : σ var = some x) :
    R.Computes m s'.vars.size goals σ w tip (R.child p [] n x) := by
  have hlen : ∀ p ∈ Runtime.atomicLookups, 2 = p.signature.inputs.length ∧
      1 = p.signature.outputs.length := by decide
  simp only [lookupAtomic, returns_bind, returns_newHandle, returns_pure] at h
  obtain ⟨_, _, ⟨rfl, rfl⟩, g, _, hcall, heq, rfl⟩ := h
  cases heq
  obtain ⟨rfl, hg⟩ := returns_call [node, var] [s.nextVar] hcall (hlen p hp).1 (hlen p hp).2
  have hgrows := Grows.next hσ hm (R.child p [] n x)
  refine .call hg (.cons hn (.cons hx .nil)) (hR.atomic p hp n x w.tables) hgrows
    fun w' _ hv => ?_
  rw [size_addVar]
  exact .nil hgrows.below ⟨set_self .., hv⟩

/-- Any other value is looked up with a description of its type. -/
theorem lookupGeneral_computes
    (h : Returns (e.lookupGeneral type byAddr node var next) s (step, tip, goals) s')
    (hi : step = .general type (!type.isGround) byAddr → s.Describes R.accessors σ type info)
    (hn : σ node = some n) (hx : σ var = some x) :
    R.Computes m s'.vars.size goals σ w tip
      (R.child (generalPrimitive (!type.isGround) byAddr) [info] n x) := by
  have hlen : ∀ p ∈ Runtime.generalLookups, 3 = p.signature.inputs.length ∧
      1 = p.signature.outputs.length := by decide
  have hp := generalPrimitive_mem (!type.isGround) byAddr
  simp only [lookupGeneral, returns_bind, returns_newHandle, returns_pure] at h
  obtain ⟨⟨infoVar, infoGoals⟩, s₁, h₁, _, _, ⟨rfl, rfl⟩, g, _, hcall, heq, rfl⟩ := h
  cases heq
  obtain ⟨rfl, hg⟩ := returns_call [infoVar, node, var] [s₁.nextVar] hcall (hlen _ hp).1
    (hlen _ hp).2
  have hs : s.Extends s₁ := (adds_typeInfo ..).mono h₁
  refine (typeInfo_computes hR.dictionaries h₁ hm hσ (hi rfl)).append ?_
  rintro σ₁ w₁ hσ₁ - ⟨hinfo, hv₁⟩
  have hgrows := Grows.next hσ₁.below (Nat.le_trans hm hs.size_le)
    (R.child (generalPrimitive (!type.isGround) byAddr) [info] n x)
  refine .call hg (.cons hinfo (.cons (hσ₁.keeps _ _ hn) (.cons (hσ₁.keeps _ _ hx) .nil)))
    (hR.general _ hp info n x w₁.tables) hgrows fun w' _ hv => ?_
  rw [size_addVar]
  exact .nil hgrows.below ⟨set_self .., hv.trans hv₁⟩

/-- A value of an enumeration is looked up with the number of its values. -/
theorem lookupEnum_computes (hg : g.Calls .lookupEnum [node, ⟨s.vars.size + 1⟩, var] [s.nextVar])
    (hn : σ node = some n) (hx : σ var = some x) :
    R.Computes m (s.vars.size + 2) [.intConst ⟨s.vars.size + 1⟩ size e.context, g] σ w s.nextVar
      (R.child .lookupEnum [.ofInt size] n x) := by
  -- The node is numbered before the variable that is bound first.
  have hsize : σ.Grows m (s.vars.size + 2) (σ.set ⟨s.vars.size + 1⟩ (.ofInt size)) :=
    .set hσ (by simp; omega) (by simp) (by simp) _
  refine .construct .nil hsize ?_
  have hnode : (σ.set ⟨s.vars.size + 1⟩ (.ofInt size)) s.nextVar = none := by
    rw [set_of_ne (by simp [WitnessState.nextVar])]
    exact hσ.none (Nat.le_refl _)
  have hgrows : (σ.set ⟨s.vars.size + 1⟩ (.ofInt size)).Grows m (s.vars.size + 2)
      ((σ.set ⟨s.vars.size + 1⟩ (.ofInt size)).set s.nextVar
        (R.child .lookupEnum [.ofInt size] n x)) := by
    refine ⟨keeps_set ?_, hsize.below.set (Nat.le_refl _) ?_, fun v hv => ?_⟩
    · simp [hnode]
    · simp [WitnessState.nextVar]
    · refine set_of_ne ?_ _ _
      rintro rfl
      exact absurd hm (Nat.not_le.2 hv)
  refine .call hg (.cons (hsize.keeps _ _ hn) (.cons (set_self ..)
    (.cons (hsize.keeps _ _ hx) .nil))) (hR.enum n (.ofInt size) x w.tables) hgrows
    fun w' _ hv => ?_
  exact .nil hgrows.below ⟨set_self .., hv⟩

/-- An input leads one step down, as the category of its type says. -/
theorem lookupArg_computes (h : Returns (e.lookupArg node var byAddr next) s (step, tip, goals) s')
    (ht : s.vars.type var = .ok type)
    (hi : ∀ byAddr, step = .general type (!type.isGround) byAddr →
      s.Describes R.accessors σ type info)
    (hn : σ node = some n) (hx : σ var = some x) :
    ∃ c, e.env.category type = .ok c ∧
      R.Computes m s'.vars.size goals σ w tip (R.down (c.step? type info byAddr) n x) := by
  simp only [lookupArg, returns_bind, returns_varType, returns_lift] at h
  obtain ⟨type', s, ⟨ht', rfl⟩, c, s, ⟨hc, rfl⟩, h⟩ := h
  obtain rfl : type = type' := Except.ok.inj (ht.symm.trans ht')
  refine ⟨c, hc, ?_⟩
  cases c with
  | dummy | void =>
    obtain ⟨heq, rfl⟩ := returns_pure.1 h
    cases heq
    exact .nil hσ ⟨hn, rfl⟩
  | int | char | string | float | typeInfo | dictionary =>
    exact lookupAtomic_computes hR hm hσ (by decide) h hn hx
  | enum size =>
    simp only [returns_bind, returns_newHandle, returns_intVar, returns_pure] at h
    obtain ⟨_, _, ⟨rfl, rfl⟩, _, _, ⟨rfl, rfl⟩, g, _, hcall, heq, rfl⟩ := h
    cases heq
    have hvar := s.nextVar_addVar next Handle.trie.type
    rw [hvar] at hcall
    obtain ⟨rfl, hg⟩ := returns_call [node, ⟨s.vars.size + 1⟩, var] [s.nextVar] hcall rfl rfl
    rw [size_addVar, size_addVar, hvar]
    exact lookupEnum_computes hR hm hσ hg hn hx
  | higherOrder | typeCtorInfo | baseDictionary | «variable» | tuple | user =>
    exact lookupGeneral_computes hR hm hσ h (hi _) hn hx

/-- The inputs of a call lead down its table, one step for each. -/
theorem lookupFrom_computes {info : Ty → Option Value}
    (h : Returns (e.lookupFrom strictness slot node vars) s way s')
    (hd : Described R s σ info vars types) (hn : σ node = some n) (hxs : σ.Binds vars xs) :
    R.Computes m s'.vars.size way.goals σ w way.tip
      (R.follow (e.env.callSteps info strictness slot types) xs n) := by
  induction vars generalizing s slot node n σ w way types xs with
  | nil =>
    obtain ⟨rfl, rfl⟩ := returns_pure.1 h
    cases hxs
    exact .nil hσ ⟨by simpa [Runtime.follow] using hn, rfl⟩
  | cons var vars ih =>
    obtain ⟨step, node₁, goals₁, s₁, type, rest, h₁, -, h₂, rfl⟩ := returns_lookupFrom_cons h
    obtain ⟨t, ts, i, rfl, ht, hi, hdesc, hrest⟩ := described_cons hd
    obtain ⟨x, xs, hx, hmore, rfl⟩ := forall₂_cons_left_iff.1 hxs
    have hfirst : s.Extends s₁ ∧ R.Computes m s₁.vars.size goals₁ σ w node₁
        (R.down (e.env.step? info t (strictness.lookup slot)) n x) := by
      rcases h₁ with ⟨hl, -, rfl, rfl, rfl⟩ | ⟨hl, h₁⟩
      · rw [Module.step?, if_pos hl]
        exact ⟨.refl _, .nil hσ ⟨hn, rfl⟩⟩
      · obtain ⟨c, hc, hcomp⟩ := lookupArg_computes hR hm hσ h₁ ht (fun _ _ => hdesc) hn hx
        rw [Module.step?, if_neg hl, hc, hi]
        exact ⟨adds_lookupArg.mono h₁, hcomp⟩
    obtain ⟨hs₁, hcomp⟩ := hfirst
    refine hcomp.append ?_
    rintro σ₁ w₁ hσ₁ - ⟨hnode, hv₁⟩
    refine Runtime.Runs.imp (ih (Nat.le_trans hm hs₁.size_le) hσ₁.below h₂
      (hrest.mono hs₁ hσ₁.keeps) hnode (Store.Binds.keeps hmore hσ₁.keeps)) ?_
    rintro σ₂ v - ⟨htip, hv⟩
    exact ⟨htip, hv.trans hv₁⟩

/-- A call is looked up where its inputs lead to. -/
theorem lookup_computes {info : Ty → Option Value}
    (h : Returns (e.lookup inputs strictness) s way s') (hd : Described R s σ info inputs types)
    (hxs : σ.Binds inputs xs) :
    R.Computes m s'.vars.size way.goals σ w way.tip
      (R.place e.env e.proc info strictness types xs) := by
  obtain ⟨way, h₂, rfl⟩ := returns_lookup h
  have hroot := Grows.next hσ hm (Runtime.root e.proc)
  have hs₁ : s.Extends (s.addVar "T0" Handle.trie.type) := .addVar ..
  refine .construct .nil hroot ?_
  have hbelow : (σ.set s.nextVar (Runtime.root e.proc)).Below
      (s.addVar "T0" Handle.trie.type).vars.size := by
    rw [size_addVar]
    exact hroot.below
  exact lookupFrom_computes hR (Nat.le_trans hm hs₁.size_le) hbelow h₂
    (hd.mono hs₁ hroot.keeps) (set_self ..) (Store.Binds.keeps hxs hroot.keeps)

/-- The outputs of an answer are looked up one after the other. -/
theorem answerLookupFrom_computes {info : Ty → Option Value}
    (h : Returns (e.answerLookupFrom slot node vars) s (tip, goals) s')
    (hd : Described R s σ info vars types) (hn : σ node = some n) (hxs : σ.Binds vars xs) :
    R.Computes m s'.vars.size goals σ w tip (R.follow (e.env.answerSteps info types) xs n) := by
  induction vars generalizing s slot node n σ w tip goals types xs with
  | nil =>
    obtain ⟨heq, rfl⟩ := returns_pure.1 h
    cases heq
    cases hxs
    exact .nil hσ ⟨by simpa [Runtime.follow] using hn, rfl⟩
  | cons var vars ih =>
    simp only [answerLookupFrom, returns_bind, returns_pure] at h
    obtain ⟨⟨step, node₁, goals₁⟩, s₁, h₁, ⟨tip, goals₂⟩, s₂, h₂, heq, rfl⟩ := h
    cases heq
    obtain ⟨t, ts, i, rfl, ht, hi, hdesc, hrest⟩ := described_cons hd
    obtain ⟨x, xs, hx, hmore, rfl⟩ := forall₂_cons_left_iff.1 hxs
    obtain ⟨c, hc, hcomp⟩ := lookupArg_computes hR hm hσ h₁ ht (fun _ _ => hdesc) hn hx
    have hstep : e.env.step? info t .value = c.step? t i false := by
      rw [Module.step?, if_neg (by decide), hc, hi]
      rfl
    have hs₁ : s.Extends s₁ := adds_lookupArg.mono h₁
    refine Runtime.Runs.append hcomp ?_
    rintro σ₁ w₁ hσ₁ - ⟨hnode, hv₁⟩
    refine Runtime.Runs.imp (ih (Nat.le_trans hm hs₁.size_le) hσ₁.below h₂
      (hrest.mono hs₁ hσ₁.keeps) hnode (Store.Binds.keeps hmore hσ₁.keeps)) ?_
    rintro σ₂ v - ⟨htip, hv⟩
    refine ⟨?_, hv.trans hv₁⟩
    rw [htip, ← hstep]
    rfl

end

end TableEnv

/-! ### Slots of answer blocks -/

/-- The primitive that saves a value of a category. -/
def TypeCategory.saver (c : TypeCategory) : Primitive :=
  (c.slotPrimitives?.map Prod.fst).getD .saveAny

namespace Module

/-- The slots from number `i` on hold values of the given types. The slot of a
    type with a single value may hold anything. -/
def Holds (m : Module) (f : Nat → Option (Primitive × Value)) :
    (i : Nat) → List Ty → List Value → Prop
  | i, t :: ts, x :: xs =>
    (∀ c, m.category t = .ok c → c ≠ .dummy → f i = some (c.saver, x)) ∧ m.Holds f (i + 1) ts xs
  | _, _, _ => True

theorem Holds.congr {f g : Nat → Option (Primitive × Value)} (h : m.Holds f i ts xs)
    (hfg : ∀ j, i ≤ j → j < i + ts.length → g j = f j) : m.Holds g i ts xs := by
  induction ts generalizing i xs with
  | nil => cases xs <;> trivial
  | cons t ts ih =>
    cases xs with
    | nil => trivial
    | cons x xs =>
      rw [length_cons] at hfg
      refine ⟨fun c hc hne => ?_, ih h.2 fun j hj hlt => hfg j (by omega) (by omega)⟩
      rw [hfg i (Nat.le_refl i) (by omega), h.1 c hc hne]

/-- The value is one that a variable of the type can have: the value of a type
    with a single value is its constant. -/
def Fits (m : Module) (t : Ty) (x : Value) : Prop :=
  ∃ c, m.category t = .ok c ∧ c ≠ .void ∧
    (c = .dummy → ∃ f, m.dummyConstant t = .ok (some f) ∧ x = .cell f [])

/-- The value of a type with a single value is its constant. -/
def Single (m : Module) (t : Ty) (x : Value) : Prop :=
  m.category t = .ok .dummy → ∃ f, m.dummyConstant t = .ok (some f) ∧ x = .cell f []

theorem Fits.single (h : m.Fits t x) : m.Single t x := by
  obtain ⟨c, hc, -, hconst⟩ := h
  exact fun hdummy => hconst (Except.ok.inj (hc.symm.trans hdummy))

end Module

/-- The types of variables can be described in turn: the type of each from the
    values of `bound` and of the variables before it. -/
def WitnessMap.InTurn (w : WitnessMap) (rt : Accessors) :
    (bound : List ProgVar) → List Value → List ProgVar → List Ty → List Value → Prop
  | bound, xs, v :: vs, t :: ts, y :: ys =>
    (∀ σ : Store, σ.Binds bound xs → (t.infoWith (w.infoOf rt σ)).isSome) ∧
      w.InTurn rt (v :: bound) (y :: xs) vs ts ys
  | _, _, _, _, _ => True

namespace WitnessMap

variable {w : WitnessMap} {vs : List ProgVar}

/-- Ground types are described without any values. -/
theorem inTurn_of_isGround (h : ∀ t ∈ ts, t.isGround = true) : w.InTurn rt bound xs vs ts ys := by
  induction ts generalizing bound xs vs ys with
  | nil => cases vs <;> trivial
  | cons t ts ih =>
    cases vs <;> cases ys <;> try trivial
    exact ⟨fun σ _ => Ty.isSome_infoWith_of_isGround (h t mem_cons_self) _,
      ih fun t ht => h t (mem_cons_of_mem _ ht)⟩

/-- Types that can be described in turn are described once all is bound. -/
theorem InTurn.isSome (h : w.InTurn rt bound xs vs ts ys) (hxs : σ.Binds bound xs)
    (hys : σ.Binds vs ys) (hlen : vs.length = ts.length) :
    ∀ t ∈ ts, (t.infoWith (w.infoOf rt σ)).isSome := by
  induction ts generalizing bound xs vs ys with
  | nil => exact fun t ht => absurd ht not_mem_nil
  | cons t ts ih =>
    cases hys with
    | nil => cases hlen
    | @cons v y vs ys hy hys =>
      intro t' ht'
      rcases mem_cons.1 ht' with rfl | ht'
      · exact h.1 σ hxs
      · exact ih h.2 (.cons hy hxs) hys (Nat.succ.inj hlen) t' ht'

end WitnessMap

namespace TableEnv

open Synth

variable {e : TableEnv} {m : Nat} {block : ProgVar} {i : Nat} {b info : Value} {type : Ty}

theorem adds_moveAtomic {slot : Int} : Adds (e.moveAtomic p block slot var) :=
  adds_bind (adds_intVar ..) fun _ => adds_bind (adds_call ..) fun _ => adds_pure _

theorem adds_moveGeneral {slot : Int} : Adds (e.moveGeneral p type block slot var) :=
  adds_bind (adds_typeInfo ..) fun _ => adds_bind (adds_intVar ..) fun _ =>
    adds_bind (adds_call ..) fun _ => adds_pure _

theorem adds_save {slot : Int} : Adds (e.save block slot var) := by
  refine adds_bind (adds_varType _) fun type => adds_bind (adds_lift _) fun c => ?_
  split
  · exact adds_pure _
  · split
    · exact adds_moveAtomic
    · exact adds_moveGeneral

theorem adds_restore {slot : Int} : Adds (e.restore block slot var) := by
  refine adds_bind (adds_varType _) fun type => adds_bind (adds_lift _) fun c => ?_
  split
  · refine adds_bind (adds_lift _) fun constant => ?_
    cases constant with
    | none => exact ⟨fun h => absurd h not_returns_breach⟩
    | some f => exact adds_pure _
  · split
    · exact adds_moveAtomic
    · exact adds_moveGeneral

theorem adds_saveFrom : Adds (e.saveFrom block i vars) :=
  adds_goalsOf (fun _ => adds_save) _

theorem adds_restoreFrom : Adds (e.restoreFrom block i vars) :=
  adds_goalsOf (fun _ => adds_restore) _

/-- What is emitted to save a value: nothing for a dummy, a primitive of its own
    for an atomic category, and otherwise one that takes a description of the
    type. -/
theorem save_cases {slot : Int} (h : Returns (e.save block slot var) s goals s') :
    ∃ type c, s.vars.type var = .ok type ∧ e.env.category type = .ok c ∧
      (c = .dummy ∧ goals = [] ∧ s' = s ∨ c ≠ .dummy ∧
        ((∃ p q, c.slotPrimitives? = some (p, q) ∧
          Returns (e.moveAtomic p block slot var) s goals s') ∨
        c.slotPrimitives? = none ∧
          Returns (e.moveGeneral .saveAny type block slot var) s goals s')) := by
  simp only [save, returns_bind, returns_varType, returns_lift] at h
  obtain ⟨type, s, ⟨ht, rfl⟩, c, s, ⟨hc, rfl⟩, h⟩ := h
  refine ⟨type, c, ht, hc, ?_⟩
  split at h
  · next hdummy => exact .inl ⟨hdummy, returns_pure.1 h⟩
  · next hdummy =>
    split at h
    · next p q hpq => exact .inr ⟨hdummy, .inl ⟨p, q, hpq, h⟩⟩
    · next hnone => exact .inr ⟨hdummy, .inr ⟨hnone, h⟩⟩

/-- The same for restoring a value, where a dummy is made anew. -/
theorem restore_cases {slot : Int} (h : Returns (e.restore block slot var) s goals s') :
    ∃ type c, s.vars.type var = .ok type ∧ e.env.category type = .ok c ∧
      (c = .dummy ∧ (∃ f, e.env.dummyConstant type = .ok (some f) ∧
          goals = [.construct var f [] e.context]) ∧ s' = s ∨ c ≠ .dummy ∧
        ((∃ p q, c.slotPrimitives? = some (p, q) ∧
          Returns (e.moveAtomic q block slot var) s goals s') ∨
        c.slotPrimitives? = none ∧
          Returns (e.moveGeneral .restoreAny type block slot var) s goals s')) := by
  simp only [restore, returns_bind, returns_varType, returns_lift] at h
  obtain ⟨type, s, ⟨ht, rfl⟩, c, s, ⟨hc, rfl⟩, h⟩ := h
  refine ⟨type, c, ht, hc, ?_⟩
  split at h
  · next hdummy =>
    simp only [restoreDummy, returns_bind, returns_lift] at h
    obtain ⟨constant, s, ⟨hf, rfl⟩, h⟩ := h
    cases constant with
    | none => exact absurd h not_returns_breach
    | some f =>
      obtain ⟨rfl, rfl⟩ := returns_pure.1 h
      exact .inl ⟨hdummy, ⟨f, hf, rfl⟩, rfl⟩
  · next hdummy =>
    split at h
    · next p q hpq => exact .inr ⟨hdummy, .inl ⟨p, q, hpq, h⟩⟩
    · next hnone => exact .inr ⟨hdummy, .inr ⟨hnone, h⟩⟩

theorem lt_size_of_types {table : VarTable}
    (h : Forall₂ (fun v t => table.type v = .ok t) vars types) :
    ∀ v ∈ vars, v.index < table.size := by
  induction h with
  | nil => exact fun v hv => absurd hv not_mem_nil
  | cons ht _ ih =>
    intro v hv
    rcases mem_cons.1 hv with rfl | hv
    · exact VarTable.lt_size_of_type ht
    · exact ih v hv

/-- A call that leaves the tables as they are binds its only output. -/
theorem call_sets {σ₁ : Store} {n n' : Nat} (hg : g.Calls p ins [var]) (hb : σ₁.Binds ins xs)
    (hd : R.Does p xs w.tables [x] (R.view w.tables)) (hσ : σ.Grows n n' σ₁)
    (hvar : var.index < n') :
    (Goal.runAll R.machine [g] σ₁ w).Once fun σ' w' =>
      σ' var = some x ∧ (∀ u, u ≠ var → u.index < n → σ' u = σ u) ∧ σ'.Below n' ∧
        w'.trace = w.trace ∧ R.view w'.tables = R.view w.tables := by
  rw [runAll_single]
  refine Outcome.Once.imp (hd.run hg hb) ?_
  rintro σ' w' ⟨hσ', ht, hv⟩
  rw [setMany_single] at hσ'
  subst hσ'
  refine ⟨set_self .., fun u hu hn => ?_, hσ.below.set (Nat.le_refl _) hvar, ht, hv⟩
  rw [set_of_ne hu, hσ.frame u hn]

section

variable (hR : R.KeepsSlots) (hσ : σ.Below s.vars.size) (hb : σ block = some b)

include hR hσ hb

section

variable (hm : m ≤ s.vars.size)

include hm

theorem moveAtomic_saves (hp : p ∈ Runtime.atomicSavers)
    (h : Returns (e.moveAtomic p block i var) s goals s') (hx : σ var = some x)
    (hi : i < (R.view w.tables).size b) :
    R.Runs m s'.vars.size goals σ w fun _ v => v = (R.view w.tables).setSlot b i p x := by
  have hlen : ∀ p ∈ Runtime.atomicSavers, 3 = p.signature.inputs.length ∧
      0 = p.signature.outputs.length := by decide
  simp only [moveAtomic, returns_bind, returns_intVar, returns_pure] at h
  obtain ⟨_, _, ⟨rfl, rfl⟩, g, _, hcall, rfl, rfl⟩ := h
  obtain ⟨rfl, hg⟩ := returns_call [block, s.nextVar, var] [] hcall (hlen p hp).1 (hlen p hp).2
  have hslot := Grows.next hσ hm (.ofInt i)
  refine .construct .nil hslot (.call hg ?_ (hR.save p hp b i x w.tables hi) (.refl hslot.below)
    fun w' _ hv => ?_)
  · exact .cons (hslot.keeps _ _ hb) (.cons (set_self ..) (.cons (hslot.keeps _ _ hx) .nil))
  · rw [size_addVar]
    exact .nil hslot.below hv

theorem moveGeneral_saves (h : Returns (e.moveGeneral .saveAny type block i var) s goals s')
    (hinfo : s.Describes R.accessors σ type info) (hx : σ var = some x)
    (hi : i < (R.view w.tables).size b) :
    R.Runs m s'.vars.size goals σ w fun _ v => v = (R.view w.tables).setSlot b i .saveAny x := by
  simp only [moveGeneral, returns_bind, returns_intVar, returns_pure] at h
  obtain ⟨⟨infoVar, infoGoals⟩, s₁, h₁, _, _, ⟨rfl, rfl⟩, g, _, hcall, rfl, rfl⟩ := h
  obtain ⟨rfl, hg⟩ := returns_call [infoVar, block, s₁.nextVar, var] [] hcall rfl rfl
  have hs : s.Extends s₁ := (adds_typeInfo ..).mono h₁
  refine (typeInfo_computes hR.dictionaries h₁ hm hσ hinfo).append ?_
  rintro σ₁ w₁ hσ₁ - ⟨hinfo, hv₁⟩
  have hslot := Grows.next hσ₁.below (Nat.le_trans hm hs.size_le) (.ofInt i)
  have hk := hσ₁.keeps.trans hslot.keeps
  refine .construct .nil hslot (.call hg ?_ (hR.saveAny info b i x w₁.tables (hv₁ ▸ hi))
    (.refl hslot.below) fun w' _ hv => ?_)
  · exact .cons (hslot.keeps _ _ hinfo) (.cons (hk _ _ hb) (.cons (set_self ..)
      (.cons (hk _ _ hx) .nil)))
  · rw [size_addVar]
    exact .nil hslot.below (hv₁ ▸ hv)

/-- A value is saved in its slot, and the other slots stay. -/
theorem save_runs (h : Returns (e.save block i var) s goals s') (ht : s.vars.type var = .ok type)
    (hinfo : s.Describes R.accessors σ type info) (hx : σ var = some x)
    (hi : i < (R.view w.tables).size b) :
    R.Runs m s'.vars.size goals σ w fun _ v => ∃ f, v = (R.view w.tables).setSlots b f ∧
      (∀ j ≠ i, f j = (R.view w.tables).slot b j) ∧
      ∀ c, e.env.category type = .ok c → c ≠ .dummy → f i = some (c.saver, x) := by
  obtain ⟨type', c, ht', hc, h⟩ := save_cases h
  obtain rfl : type = type' := Except.ok.inj (ht.symm.trans ht')
  -- What is saved by a primitive is found in the slot, and the others stay.
  have hslot : ∀ {v : Tables},
      v = (R.view w.tables).setSlot b i c.saver x → ∃ f, v = (R.view w.tables).setSlots b f ∧
        (∀ j ≠ i, f j = (R.view w.tables).slot b j) ∧
        ∀ c', e.env.category type = .ok c' → c' ≠ .dummy → f i = some (c'.saver, x) := by
    intro v hv
    refine ⟨_, hv, fun j hj => Function.update_of_ne hj .., fun c' hc' _ => ?_⟩
    obtain rfl : c = c' := Except.ok.inj (hc.symm.trans hc')
    exact Function.update_self ..
  rcases h with ⟨hdummy, rfl, rfl⟩ | ⟨-, ⟨p, q, hpq, h⟩ | ⟨hnone, h⟩⟩
  · refine .nil hσ ⟨_, (setSlots_eq_self _ b).symm, fun _ _ => rfl, fun c' hc' hne => ?_⟩
    exact absurd (Except.ok.inj (hc'.symm.trans hc) ▸ hdummy) hne
  · have hp : p ∈ Runtime.atomicSavers := by
      cases c <;> simp [TypeCategory.slotPrimitives?] at hpq <;>
        simp [← hpq.1, Runtime.atomicSavers]
    have hsaver : c.saver = p := by rw [TypeCategory.saver, hpq]; rfl
    exact (moveAtomic_saves hR hσ hb hm hp h hx hi).imp fun _ v _ hv =>
      hslot (hsaver.symm ▸ hv)
  · have hsaver : c.saver = .saveAny := by rw [TypeCategory.saver, hnone]; rfl
    exact (moveGeneral_saves hR hσ hb hm h hinfo hx hi).imp fun _ v _ hv =>
      hslot (hsaver.symm ▸ hv)

/-- Values are saved in slots from a number on, and the slots before that stay
    as they are. -/
theorem saveFrom_runs {infoOf : Ty → Option Value}
    (h : Returns (e.saveFrom block i vars) s goals s') (hd : Described R s σ infoOf vars types)
    (hxs : σ.Binds vars xs) (hi : i + vars.length ≤ (R.view w.tables).size b) :
    R.Runs m s'.vars.size goals σ w fun _ v => ∃ f, v = (R.view w.tables).setSlots b f ∧
      (∀ j < i, f j = (R.view w.tables).slot b j) ∧ e.env.Holds f i types xs := by
  induction vars generalizing s i goals σ w types xs with
  | nil =>
    obtain ⟨rfl, rfl⟩ := returns_pure.1 h
    cases hxs
    refine .nil hσ ⟨_, (setSlots_eq_self _ b).symm, fun _ _ => rfl, ?_⟩
    cases types <;> trivial
  | cons var vars ih =>
    simp only [saveFrom, zipIdx_cons, returns_goalsOf_cons] at h
    obtain ⟨goals₁, s₁, goals₂, h₁, h₂, rfl⟩ := h
    obtain ⟨t, ts, inf, rfl, ht, -, hdesc, hrest⟩ := described_cons hd
    obtain ⟨x, xs, hx, hmore, rfl⟩ := forall₂_cons_left_iff.1 hxs
    have hs₁ : s.Extends s₁ := adds_save.mono h₁
    rw [length_cons] at hi
    refine (save_runs hR hσ hb hm h₁ ht hdesc hx (by omega)).append ?_
    rintro σ₁ w₁ hσ₁ - ⟨f₁, hv₁, hf₁, hfirst⟩
    have hi₁ : i + 1 + vars.length ≤ (R.view w₁.tables).size b := by
      rw [hv₁, size_setSlots]
      omega
    refine Runtime.Runs.imp (ih hσ₁.below (hσ₁.keeps _ _ hb) (Nat.le_trans hm hs₁.size_le) h₂
      (hrest.mono hs₁ hσ₁.keeps) (Store.Binds.keeps hmore hσ₁.keeps) hi₁) ?_
    rintro σ₂ v - ⟨f₂, hv₂, hf₂, hheld⟩
    rw [hv₁, slot_setSlots_self] at hf₂
    refine ⟨f₂, ?_, fun j hj => ?_, fun c hc hne => ?_, hheld⟩
    · rw [hv₂, hv₁, setSlots_setSlots]
    · rw [hf₂ j (by omega), hf₁ j (by omega)]
    · rw [hf₂ i (by omega), hfirst c hc hne]

end

theorem moveAtomic_restores {q : Primitive} (hp : (q, p) ∈ Runtime.atomicRestorers)
    (h : Returns (e.moveAtomic p block i var) s goals s') (hvar : var.index < s.vars.size)
    (hslot : (R.view w.tables).slot b i = some (q, x)) :
    R.Sets s.vars.size s'.vars.size goals σ w var x := by
  have hlen : ∀ ps ∈ Runtime.atomicRestorers, 2 = ps.2.signature.inputs.length ∧
      1 = ps.2.signature.outputs.length := by decide
  simp only [moveAtomic, returns_bind, returns_intVar, returns_pure] at h
  obtain ⟨_, _, ⟨rfl, rfl⟩, g, _, hcall, rfl, rfl⟩ := h
  obtain ⟨rfl, hg⟩ := returns_call [block, s.nextVar] [var] hcall (hlen _ hp).1 (hlen _ hp).2
  have hgrows := Grows.next hσ (Nat.le_refl _) (.ofInt i)
  unfold Runtime.Sets
  rw [runAll_cons, Goal.intConst, run_construct]
  simp only [Machine.runUnify, mapM_nil, Option.pure_def, once_bind,
    size_addVar]
  exact call_sets hg (.cons (hgrows.keeps _ _ hb) (.cons (set_self ..) .nil))
    (hR.restore (q, p) hp b i x w.tables hslot) hgrows (Nat.lt_succ_of_lt hvar)

theorem moveGeneral_restores (h : Returns (e.moveGeneral .restoreAny type block i var) s goals s')
    (hvar : var.index < s.vars.size) (hinfo : s.Describes R.accessors σ type info)
    (hslot : (R.view w.tables).slot b i = some (.saveAny, x)) :
    R.Sets s.vars.size s'.vars.size goals σ w var x := by
  simp only [moveGeneral, returns_bind, returns_intVar, returns_pure] at h
  obtain ⟨⟨infoVar, infoGoals⟩, s₁, h₁, _, _, ⟨rfl, rfl⟩, g, _, hcall, rfl, rfl⟩ := h
  obtain ⟨rfl, hg⟩ := returns_call [infoVar, block, s₁.nextVar] [var] hcall rfl rfl
  have hs : s.Extends s₁ := (adds_typeInfo ..).mono h₁
  unfold Runtime.Sets
  rw [runAll_append]
  refine Outcome.Once.bind (typeInfo_computes hR.dictionaries h₁ (Nat.le_refl _) hσ hinfo) ?_
  rintro σ₁ w₁ ⟨hσ₁, ht₁, hinfo, hv₁⟩
  have hgrows := Grows.next hσ₁.below hs.size_le (.ofInt i)
  have hall := hσ₁.trans hgrows
  rw [runAll_cons, Goal.intConst, run_construct]
  simp only [Machine.runUnify, mapM_nil, Option.pure_def, once_bind,
    size_addVar, ← ht₁, ← hv₁]
  refine call_sets hg (.cons (hgrows.keeps _ _ hinfo) (.cons (hall.keeps _ _ hb)
    (.cons (set_self ..) .nil))) (hR.restoreAny info b i x w₁.tables (hv₁ ▸ hslot)) hall ?_
  exact Nat.lt_succ_of_lt (Nat.lt_of_lt_of_le hvar hs.size_le)

/-- A value that has been saved comes back out of its slot. -/
theorem restore_sets (h : Returns (e.restore block i var) s goals s')
    (ht : s.vars.type var = .ok type) (hinfo : s.Describes R.accessors σ type info)
    (hsingle : e.env.Single type x)
    (hslot : ∀ c, e.env.category type = .ok c → c ≠ .dummy →
      (R.view w.tables).slot b i = some (c.saver, x))
    : R.Sets s.vars.size s'.vars.size goals σ w var x := by
  have hvar := VarTable.lt_size_of_type ht
  obtain ⟨type', c, ht', hc, h⟩ := restore_cases h
  obtain rfl : type = type' := Except.ok.inj (ht.symm.trans ht')
  rcases h with ⟨rfl, ⟨f, hf, rfl⟩, rfl⟩ | ⟨hdummy, ⟨p, q, hpq, h⟩ | ⟨hnone, h⟩⟩
  · obtain ⟨f', hf', rfl⟩ := hsingle hc
    cases hf.symm.trans hf'
    unfold Runtime.Sets
    rw [runAll_single, run_construct]
    simp only [Machine.runUnify, mapM_nil, Option.pure_def]
    exact .intro ⟨set_self .., fun u hu _ => set_of_ne hu ..,
      hσ.set (Nat.le_refl _) hvar, rfl, rfl⟩
  · have hq : (p, q) ∈ Runtime.atomicRestorers := by
      cases c <;> simp [TypeCategory.slotPrimitives?] at hpq <;>
        simp [← hpq.1, ← hpq.2, Runtime.atomicRestorers]
    have hslot := hslot c hc hdummy
    rw [TypeCategory.saver, hpq] at hslot
    exact moveAtomic_restores hR hσ hb hq h hvar hslot
  · have hslot := hslot c hc hdummy
    rw [TypeCategory.saver, hnone] at hslot
    exact moveGeneral_restores hR hσ hb h hvar hinfo hslot

/-- What the slots from a number on hold is restored in turn. A variable that
    has a value already is given that value again. -/
theorem restoreFrom_runs {witnesses : WitnessMap} {ρ : Store}
    (h : Returns (e.restoreFrom block i vars) s goals s')
    (hts : Forall₂ (fun v t => s.vars.type v = .ok t) vars types)
    (hw : ∀ t source, witnesses.typeInfos.find? t = some source →
      s.witnesses.typeInfos.find? t = some source)
    (hturn : witnesses.InTurn R.accessors bound xs vars types ys) (hbound : σ.Binds bound xs)
    (hsingle : Forall₂ e.env.Single types ys)
    (hheld : e.env.Holds ((R.view w.tables).slot b) i types ys) (hρ : ρ.Binds vars ys)
    (hsame : ∀ v ∈ vars, ∀ x, σ v = some x → ρ v = some x) :
    R.Runs 0 s'.vars.size goals σ w fun σ' v => σ'.Binds vars ys ∧ v = R.view w.tables := by
  induction vars generalizing s i goals σ w types bound xs ys with
  | nil =>
    obtain ⟨rfl, rfl⟩ := returns_pure.1 h
    cases hρ
    exact .nil hσ ⟨.nil, rfl⟩
  | cons var vars ih =>
    simp only [restoreFrom, zipIdx_cons, returns_goalsOf_cons] at h
    obtain ⟨goals₁, s₁, goals₂, h₁, h₂, rfl⟩ := h
    obtain ⟨t, ts, ht, hmore, rfl⟩ := forall₂_cons_left_iff.1 hts
    obtain ⟨y, ys, hy, hys, rfl⟩ := forall₂_cons_left_iff.1 hρ
    obtain ⟨hfirst, hsingle⟩ := forall₂_cons.1 hsingle
    obtain ⟨inf, hinf⟩ := Option.isSome_iff_exists.1 (hturn.1 σ hbound)
    have hdesc : s.Describes R.accessors σ t inf :=
      Ty.infoWith_mono (fun _ _ hv => WitnessMap.infoOf_mono hw (.refl σ) hv) hinf
    have hs₁ : s.Extends s₁ := adds_restore.mono h₁
    have hvar : ∀ z, σ var = some z → z = y := by
      intro z hz
      exact Option.some.inj ((hsame var mem_cons_self z hz).symm.trans hy)
    refine (restore_sets hR hσ hb h₁ ht hdesc hfirst hheld.1).append hσ hvar
      fun σ₁ w₁ hσ₁ hx hother hv₁ => ?_
    have hsame₁ : ∀ v ∈ vars, ∀ x, σ₁ v = some x → ρ v = some x := by
      intro v hv x hx₁
      by_cases hne : v = var
      · rw [hne, hx] at hx₁
        rw [hne, hy, hx₁]
      · rw [hother v hne (lt_size_of_types hmore v hv)] at hx₁
        exact hsame v (mem_cons_of_mem _ hv) x hx₁
    refine Runtime.Runs.imp (ih hσ₁.below (hσ₁.keeps _ _ hb) h₂
      (hmore.imp fun _ _ h => hs₁.vars.type_eq h)
      (fun t source h => hs₁.infos t source (hw t source h)) hturn.2
      (.cons hx (Store.Binds.keeps hbound hσ₁.keeps)) hsingle (hv₁ ▸ hheld.2) hys hsame₁) ?_
    rintro σ₂ v hσ₂ ⟨hbinds, hv⟩
    exact ⟨.cons (hσ₂.keeps _ _ hx) hbinds, hv.trans hv₁⟩

end

end TableEnv

/-! ### Different values -/

/-- Descriptions of types agree in turn: those of each type as soon as the
    values before it are the same. -/
def AgreeInTurn (info info' : Ty → Option Value) : List Ty → List Value → List Value → Prop
  | t :: ts, x :: xs, x' :: xs' => info t = info' t ∧ (x = x' → AgreeInTurn info info' ts xs xs')
  | _, _, _ => True

theorem AgreeInTurn.refl (info : Ty → Option Value) (ts : List Ty) (xs xs' : List Value) :
    AgreeInTurn info info ts xs xs' := by
  induction ts generalizing xs xs' with
  | nil => trivial
  | cons t ts ih =>
    cases xs <;> cases xs' <;> try trivial
    exact ⟨rfl, fun _ => ih _ _⟩

theorem AgreeInTurn.eq {info info' : Ty → Option Value} (h : AgreeInTurn info info' ts xs xs)
    (hlen : ts.length = xs.length) : ∀ t ∈ ts, info t = info' t := by
  induction ts generalizing xs with
  | nil => exact fun t ht => absurd ht not_mem_nil
  | cons t ts ih =>
    cases xs with
    | nil => cases hlen
    | cons x xs =>
      intro t' ht'
      rcases mem_cons.1 ht' with rfl | ht'
      · exact h.1
      · exact ih (h.2 rfl) (Nat.succ.inj hlen) t' ht'

namespace WitnessMap

variable {w : WitnessMap} {vs : List ProgVar}

/-- A description that the values of `bound` suffice for depends on nothing else. -/
theorem infoWith_eq_of_binds
    (h : ∀ σ : Store, σ.Binds bound xs → (t.infoWith (w.infoOf rt σ)).isSome)
    (hσ : σ.Binds bound xs) (hσ' : σ'.Binds bound xs) :
    t.infoWith (w.infoOf rt σ) = t.infoWith (w.infoOf rt σ') := by
  -- Nothing but the variables in question is bound in this store.
  let least : Store := fun v => if v ∈ bound then σ v else none
  have hleast : least.Binds bound xs := by
    refine ((forall₂_and_left _ _).2 ⟨fun v hv => hv, hσ⟩).imp ?_
    rintro v x ⟨hmem, hv⟩
    rw [show least v = σ v from if_pos hmem, hv]
  have hkeeps : ∀ ρ : Store, ρ.Binds bound xs → least.Keeps ρ := by
    intro ρ hρ v x hx
    by_cases hmem : v ∈ bound
    · rw [show least v = σ v from if_pos hmem, hσ.eq_of_mem hρ hmem] at hx
      exact hx
    · rw [show least v = none from if_neg hmem] at hx
      cases hx
  obtain ⟨i, hi⟩ := Option.isSome_iff_exists.1 (h least hleast)
  have hinfo : ∀ ρ : Store, ρ.Binds bound xs → t.infoWith (w.infoOf rt ρ) = some i :=
    fun ρ hρ => Ty.infoWith_mono
      (fun _ _ hv => infoOf_mono (fun _ _ h => h) (hkeeps ρ hρ) hv) hi
  rw [hinfo σ hσ, hinfo σ' hσ']

/-- Types described in turn have one description as long as the values agree. -/
theorem InTurn.agree (h : w.InTurn rt bound xs vs ts ys) (hσ : σ.Binds bound xs)
    (hσ' : σ'.Binds bound xs) (hys : σ.Binds vs ys) (hys' : σ'.Binds vs ys') :
    AgreeInTurn (fun t => t.infoWith (w.infoOf rt σ)) (fun t => t.infoWith (w.infoOf rt σ')) ts ys
      ys' := by
  induction ts generalizing bound xs vs ys ys' with
  | nil => trivial
  | cons t ts ih =>
    cases hys with
    | nil =>
      cases hys'
      trivial
    | @cons v y vs ys hy hys =>
      obtain ⟨y', ys', hy', hmore, rfl⟩ := forall₂_cons_left_iff.1 hys'
      refine ⟨infoWith_eq_of_binds h.1 hσ hσ', ?_⟩
      rintro rfl
      exact ih h.2 (.cons hy hσ) (.cons hy' hσ') hys hmore

end WitnessMap

/-- Where every input is strict, calls and answers take the same steps. -/
theorem Module.callSteps_allStrict (m : Module) (info : Ty → Option Value) (slot : Nat)
    (ts : List Ty) : m.callSteps info .allStrict slot ts = m.answerSteps info ts := by
  induction ts generalizing slot with
  | nil => rfl
  | cons t ts ih => exact congrArg _ (ih (slot + 1))

namespace Runtime

variable {info info' : Ty → Option Value} {x' n n' : Value} {xs' : List Value}

theorem below_follow (steps : List (Option (Primitive × List Value))) (xs : List Value)
    {k : Value} (h : R.Below k n) : R.Below k (R.follow steps xs n) := by
  induction steps generalizing xs n with
  | nil => exact h
  | cons step steps ih =>
    cases xs with
    | nil => exact h
    | cons x xs =>
      refine ih xs ?_
      cases step with
      | none => exact h
      | some step => exact .child step.1 step.2 x h

/-- Steps that lead to one node start at one node. -/
theorem down_parent (hR : R.Separates)
    (h : R.down (m.step? info t .value) n x = R.down (m.step? info' t .value) n' x') : n = n' := by
  unfold Module.step? at h
  rw [if_neg (by decide), if_neg (by decide)] at h
  cases hc : m.category t with
  | error e =>
    rw [hc] at h
    exact h
  | ok c =>
    rw [hc] at h
    cases c with
    | dummy | void => exact h
    | _ => exact hR.parent h

/-- Steps from a node to one node are for one value. -/
theorem down_value (hR : R.Separates) (hx : m.Fits t x) (hx' : m.Fits t x')
    (h : R.down (m.step? info t .value) n x = R.down (m.step? info t .value) n x') : x = x' := by
  obtain ⟨c, hc, hvoid, hdummy⟩ := hx
  obtain ⟨c', hc', -, hdummy'⟩ := hx'
  obtain rfl : c = c' := Except.ok.inj (hc.symm.trans hc')
  rw [Module.step?, if_neg (by decide), hc] at h
  cases c with
  | void => exact absurd rfl hvoid
  | dummy =>
    obtain ⟨f, hf, rfl⟩ := hdummy rfl
    obtain ⟨f', hf', rfl⟩ := hdummy' rfl
    obtain rfl : f = f' := Option.some.inj (Except.ok.inj (hf.symm.trans hf'))
    rfl
  | _ => exact hR.value h

/-- Ways that lead to one node start at one node. -/
theorem follow_parent (hR : R.Separates) (hlen : xs.length = xs'.length)
    (h : R.follow (m.answerSteps info ts) xs n = R.follow (m.answerSteps info' ts) xs' n') :
    n = n' := by
  induction ts generalizing xs xs' n n' with
  | nil => exact h
  | cons t ts ih =>
    cases xs with
    | nil =>
      rw [length_eq_zero_iff.1 hlen.symm] at h
      exact h
    | cons x xs =>
      cases xs' with
      | nil => cases hlen
      | cons x' xs' => exact down_parent hR (ih (Nat.succ.inj hlen) h)

/-- Different values of the same types lead to different nodes. -/
theorem follow_inj (hR : R.Separates) (hxs : Forall₂ m.Fits ts xs)
    (hxs' : Forall₂ m.Fits ts xs') (hinfo : AgreeInTurn info info' ts xs xs')
    (h : R.follow (m.answerSteps info ts) xs n = R.follow (m.answerSteps info' ts) xs' n) :
    xs = xs' := by
  induction hxs generalizing xs' n with
  | nil =>
    cases hxs'
    rfl
  | @cons t x ts xs hx hxs ih =>
    obtain ⟨x', xs', hx', hmore, rfl⟩ := forall₂_cons_left_iff.1 hxs'
    obtain ⟨hfirst, hrest⟩ := hinfo
    have hlen : xs.length = xs'.length := hxs.length_eq.symm.trans hmore.length_eq
    have hstep : m.step? info' t .value = m.step? info t .value := by
      rw [Module.step?, Module.step?, hfirst]
    change R.follow (m.answerSteps info ts) xs (R.down (m.step? info t .value) n x) =
      R.follow (m.answerSteps info' ts) xs' (R.down (m.step? info' t .value) n x') at h
    -- The first steps lead to the same node, since what comes after them does.
    have hdown := follow_parent hR hlen h
    rw [hstep] at hdown h
    obtain rfl := down_value hR hx hx' hdown
    rw [ih hmore (hrest rfl) h]

end Runtime

/-! ### Keys -/

theorem eraseDups_concat {α : Type} [BEq α] [LawfulBEq α] (l : List α) (a : α) :
    (l ++ [a]).eraseDups = if a ∈ l then l.eraseDups else l.eraseDups ++ [a] := by
  rw [eraseDups_append]
  split
  · next h => simp [List.removeAll, h]
  · next h => simp [List.removeAll, h, eraseDups_cons]

namespace Module

/-- The values of a call or an answer that tell it apart: all but those of types
    with a single value. -/
def keyOf (m : Module) : List Ty → List Value → List Value
  | t :: ts, x :: xs =>
    if (m.category t).toOption = some .dummy then m.keyOf ts xs else x :: m.keyOf ts xs
  | _, _ => []

/-- Different calls have different keys. -/
theorem keyOf_inj (hxs : Forall₂ m.Fits ts xs) (hxs' : Forall₂ m.Fits ts xs')
    (h : m.keyOf ts xs = m.keyOf ts xs') : xs = xs' := by
  induction hxs generalizing xs' with
  | nil =>
    cases hxs'
    rfl
  | @cons t x ts xs hx hxs ih =>
    obtain ⟨x', xs', hx', hmore, rfl⟩ := forall₂_cons_left_iff.1 hxs'
    obtain ⟨c, hc, -, hdummy⟩ := hx
    obtain ⟨c', hc', -, hdummy'⟩ := hx'
    obtain rfl : c = c' := Except.ok.inj (hc.symm.trans hc')
    simp only [keyOf, hc, Except.toOption, Option.some.injEq] at h
    split at h
    · next hd =>
      -- A type with a single value does not tell them apart, and need not.
      obtain ⟨f, hf, rfl⟩ := hdummy hd
      obtain ⟨f', hf', rfl⟩ := hdummy' hd
      obtain rfl : f = f' := Option.some.inj (Except.ok.inj (hf.symm.trans hf'))
      rw [ih hmore h]
    · obtain ⟨rfl, hrest⟩ := List.cons.inj h
      rw [ih hmore hrest]

theorem mem_map_keyOf (hxs : Forall₂ m.Fits ts xs) (hcalls : ∀ xs ∈ calls, Forall₂ m.Fits ts xs) :
    m.keyOf ts xs ∈ calls.map (m.keyOf ts) ↔ xs ∈ calls := by
  refine ⟨fun h => ?_, mem_map_of_mem⟩
  obtain ⟨xs', hmem, hkey⟩ := mem_map.1 h
  exact keyOf_inj (hcalls xs' hmem) hxs hkey ▸ hmem

/-- Calls are repeated exactly where their keys are. -/
theorem map_keyOf_eraseDups (h : ∀ xs ∈ calls, Forall₂ m.Fits ts xs) :
    calls.eraseDups.map (m.keyOf ts) = (calls.map (m.keyOf ts)).eraseDups := by
  induction calls using List.reverseRecOn with
  | nil => rfl
  | append_singleton calls xs ih =>
    have hcalls : ∀ xs ∈ calls, Forall₂ m.Fits ts xs :=
      fun xs hmem => h xs (mem_append_left _ hmem)
    have hkey := mem_map_keyOf (h xs (mem_append_right _ mem_cons_self)) hcalls
    rw [map_append, map_singleton, eraseDups_concat, eraseDups_concat, ← ih hcalls]
    by_cases hmem : xs ∈ calls
    · rw [if_pos hmem, if_pos (hkey.2 hmem)]
    · rw [if_neg hmem, if_neg (mt hkey.1 hmem), map_append, map_singleton]

end Module

end Clausal
