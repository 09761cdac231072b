import Clausal.Proofs.Dictionaries
import Clausal.Proofs.Setup

/-!
# Dictionaries are made once

A request for dictionaries puts on record what it makes, and makes nothing that is
on record. Each constraint that is not on record at the start is therefore resolved
once, by one goal: the construction of a cell if its proof is an instance, the
extraction from another dictionary if its proof is a superclass
(`Goal.dictionaryStep?`). What a step is made from is found in the record as well
(`Explained`), so that constraints that are asked for in several places get the same
variable.
-/

namespace Clausal

open List

variable {context : Context} {s s' : WitnessState} {goals : List Goal} {depth n : Nat}
  {sub : Constraint}

/-! ### Steps of a search -/

/-- How the dictionary of a constraint is made. -/
inductive DictionaryStep where
  /-- A cell is made from the dictionaries that an instance needs. -/
  | cell
  /-- The dictionary is taken out of the one of a subclass. -/
  | extraction
deriving DecidableEq, Repr

/-- The step that a proof is for. -/
def ConstraintProof.step : ConstraintProof → DictionaryStep
  | .byInstance _ => .cell
  | .bySuperclass _ => .extraction

/-- The step that a goal takes, if it makes a dictionary. -/
def Goal.dictionaryStep? : Goal → Option DictionaryStep
  | .unify _ _ _ (.construct _ .dictionary _) => some .cell
  | .call _ callee _ _ =>
    if callee = Primitive.superclassFromDictionary.proc then some .extraction else none
  | _ => none

theorem Synth.Describing.dictionaryStep {vs : List ProgVar} (h : Describing context s vs goals s') :
    goals.filterMap Goal.dictionaryStep? = [] := by
  induction h with
  | nil s => rfl
  | cons _ _ ih₁ ih₂ => rw [filterMap_append, ih₁, ih₂, append_nil]
  | typeVar info =>
    rcases typeVarInfo_cases info with ⟨-, rfl, -⟩ | ⟨_, _, -, -, rfl, -⟩ | ⟨-, -, rfl, -⟩ <;> rfl
  | cell _ info ih =>
    rw [filterMap_append, ih]
    rcases typeCell_cases info with ⟨-, -, -, rfl, -⟩ | ⟨-, -, -, rfl, -⟩ | ⟨-, -, rfl, -⟩ <;> rfl

/-- What an instance comes with where it proves a constraint: the class, the
    variables and proofs that it brings with it, and the constraints that it
    needs. -/
structure Premises where
  cls : ClassDefn
  scope : TypeScope
  proofs : ProofMap
  constraints : List Constraint

/-- The premises of instance number `n` for a constraint, in the given scope. -/
def Module.premises? (m : Module) (scope : TypeScope) (c : Constraint) (n : Nat) :
    Option Premises := do
  let inst ← m.instance? c.classId n
  let cls ← m.classes.find? c.classId
  let shift := scope.shiftOf inst.scope
  let subst ← (Subst.ofMatch (inst.types.map (·.shift shift)) c.args).toOption
  let proofs ← (ProofMap.shift shift inst.proofs).subst? subst
  let constraints ← inst.constraints.mapM fun d => (d.shift shift).subst? subst
  return ⟨cls, inst.scope, proofs, constraints⟩

/-- The state in which the constraints of an instance are resolved. -/
def WitnessState.enter (s : WitnessState) (p : Premises) : WitnessState :=
  (s.mergeScope p.scope).addProofs p.proofs

theorem Synth.MadeByInstance.of_premises
    (h : MadeByInstance env context resolve c n s var goals s') :
    ∃ p supers ds ss ts goals₁ goals₂ goals₃ more s₁ s₂ s₃ base,
      env.env.premises? s.scope c n = some p ∧
      Returns (collect resolve p.constraints) (s.enter p) (ds, goals₁) s₁ ∧
      p.cls.supersAt? s₁.scope c.args = some supers ∧
      Returns (collect resolve supers) s₁ (ss, goals₂) s₂ ∧
      Describing context s₂ ts goals₃ s₃ ∧
      goals = goals₁ ++ goals₂ ++ goals₃ ++ more ∧
      .construct var .dictionary (base :: ds ++ ss ++ ts) context ∈ more ∧
      more.filterMap Goal.dictionaryStep? = [.cell] ∧
      s'.witnesses.dictionaries = s₃.witnesses.dictionaries := by
  obtain @⟨inst, cls, subst, proofs, constraints, supers, ds, ss, ts, goals₁, goals₂, goals₃,
    s₁, s₂, s₃, hinst, hcls, hmatch, hproofs, hcs, h₁, hsupers, h₂, h₃⟩ := h
  refine ⟨⟨cls, inst.scope, proofs, constraints⟩, supers, ds, ss, ts, goals₁, goals₂, goals₃, _, s₁,
    s₂, s₃, _, ?_, h₁, hsupers, h₂, typeInfos_describing _ h₃, rfl,
    mem_cons_of_mem _ mem_cons_self, rfl, rfl⟩
  have hinst : env.env.instance? c.classId n = some inst := hinst
  simp [Module.premises?, hinst, hcls, hmatch, hproofs, hcs, Except.toOption]

/-! ### What is resolved -/

/-- There is a goal that makes the dictionary of a constraint, as its proof says,
    from the variables on record. -/
inductive Explained (m : Module) (context : Context) (record : Assoc Constraint ProgVar)
    (goals : List Goal) (c : Constraint) : ConstraintProof → Prop
  | byInstance {n : Nat} {scope scope' : TypeScope} {p : Premises} {supers : List Constraint}
      {base var : ProgVar} {ds ss ts : List ProgVar}
      (premises : m.premises? scope c n = some p)
      (supers_eq : p.cls.supersAt? scope' c.args = some supers)
      (from_constraints : Forall₂ (fun d v => record.find? d = some v) p.constraints ds)
      (from_supers : Forall₂ (fun d v => record.find? d = some v) supers ss)
      (recorded : record.find? c = some var)
      (goal : .construct var .dictionary (base :: ds ++ ss ++ ts) context ∈ goals) :
      Explained m context record goals c (.byInstance n)
  | bySuperclass {sub : Constraint} {whole slot var : ProgVar}
      (from_sub : record.find? sub = some whole) (recorded : record.find? c = some var)
      (goal : Synth.accessor .superclassFromDictionary whole slot var context ∈ goals) :
      Explained m context record goals c (.bySuperclass sub)

variable {m : Module} {pending : List Constraint} {c : Constraint} {goals' more : List Goal}
  {d d' d'' : Assoc Constraint ProgVar} {new new' : List (Constraint × ConstraintProof)}
  {proof : ConstraintProof} {var : ProgVar}

theorem Explained.mono (h : Explained m context d goals c proof)
    (hr : ∀ c v, d.find? c = some v → d'.find? c = some v) (hg : goals ⊆ goals') :
    Explained m context d' goals' c proof := by
  cases h with
  | byInstance hp hsupers h₁ h₂ h₃ hgoal =>
    exact .byInstance hp hsupers (h₁.imp fun _ _ => hr _ _) (h₂.imp fun _ _ => hr _ _)
      (hr _ _ h₃) (hg hgoal)
  | bySuperclass h₁ h₂ hgoal => exact .bySuperclass (hr _ _ h₁) (hr _ _ h₂) (hg hgoal)

/-- In a part of a search the record gains the constraints `new`, each of which is
    resolved by its proof. Those that are pending are none of them. -/
structure Gains (m : Module) (context : Context) (pending : List Constraint)
    (d : Assoc Constraint ProgVar) (goals : List Goal) (d' : Assoc Constraint ProgVar)
    (new : List (Constraint × ConstraintProof)) : Prop where
  keeps : ∀ c v, d.find? c = some v → d'.find? c = some v
  unrecorded : ∀ c, d'.find? c = none ↔ d.find? c = none ∧ c ∉ new.map Prod.fst
  fresh : ∀ c ∈ new.map Prod.fst, d.find? c = none ∧ c ∉ pending
  nodup : (new.map Prod.fst).Nodup
  steps : goals.filterMap Goal.dictionaryStep? = new.map (·.2.step)
  explained : ∀ x ∈ new, Explained m context d' goals x.1 x.2

namespace Gains

theorem idle (h : goals.filterMap Goal.dictionaryStep? = []) :
    Gains m context pending d goals d [] where
  keeps _ _ h := h
  unrecorded c := by simp
  fresh c hc := by cases hc
  nodup := .nil
  steps := h
  explained x hx := by cases hx

theorem append (h : Gains m context pending d goals d' new)
    (h' : Gains m context pending d' more d'' new') :
    Gains m context pending d (goals ++ more) d'' (new ++ new') where
  keeps c v hc := h'.keeps c v (h.keeps c v hc)
  unrecorded c := by
    rw [h'.unrecorded, h.unrecorded, map_append, mem_append, not_or, and_assoc]
  fresh c hc := by
    rw [map_append, mem_append] at hc
    rcases hc with hc | hc
    · exact h.fresh c hc
    · exact ⟨((h.unrecorded c).1 (h'.fresh c hc).1).1, (h'.fresh c hc).2⟩
  nodup := by
    rw [map_append]
    exact h.nodup.append h'.nodup fun c hc hc' =>
      ((h.unrecorded c).1 (h'.fresh c hc').1).2 hc
  steps := by rw [filterMap_append, h.steps, h'.steps, map_append]
  explained x hx := by
    rcases mem_append.1 hx with hx | hx
    · exact (h.explained x hx).mono h'.keeps (subset_append_left ..)
    · exact (h'.explained x hx).mono (fun _ _ h => h) (subset_append_right ..)

theorem insert_keeps (h : Gains m context (c :: pending) d goals d' new) (hc : d.find? c = none)
    (var : ProgVar) (b : Constraint) (v : ProgVar) (hb : d'.find? b = some v) :
    (d'.insert c var).find? b = some v := by
  have hnone : d'.find? c = none :=
    (h.unrecorded c).2 ⟨hc, fun hmem => (h.fresh c hmem).2 mem_cons_self⟩
  rw [Assoc.find?_insert, if_neg, hb]
  rintro rfl
  rw [hb] at hnone
  cases hnone

/-- A constraint is resolved, after what it was pending on. -/
theorem record (h : Gains m context (c :: pending) d goals d' new) (proof : ConstraintProof)
    (hc : d.find? c = none) (hpending : c ∉ pending)
    (hmore : more.filterMap Goal.dictionaryStep? = [proof.step])
    (he : Explained m context (d'.insert c var) (goals ++ more) c proof) :
    Gains m context pending d (goals ++ more) (d'.insert c var) (new ++ [(c, proof)]) := by
  have hnew : c ∉ new.map Prod.fst := fun hmem => (h.fresh c hmem).2 mem_cons_self
  have hkeeps := h.insert_keeps hc var
  refine ⟨fun b v hb => hkeeps b v (h.keeps b v hb), fun b => ?_, fun b hb => ?_, ?_, ?_, ?_⟩
  · rw [Assoc.find?_insert, map_append, mem_append, not_or, ← and_assoc,
      ← h.unrecorded]
    split
    · next hbc => simp [hbc]
    · next hbc => simp [hbc]
  · rw [map_append, mem_append] at hb
    rcases hb with hb | hb
    · exact ⟨(h.fresh b hb).1, fun hp => (h.fresh b hb).2 (mem_cons_of_mem _ hp)⟩
    · obtain rfl := mem_singleton.1 hb
      exact ⟨hc, hpending⟩
  · rw [map_append]
    exact h.nodup.append (nodup_singleton _) fun b hb hb' => by
      obtain rfl := mem_singleton.1 hb'
      exact hnew hb
  · rw [filterMap_append, h.steps, hmore, map_append]
    rfl
  · intro x hx
    rcases mem_append.1 hx with hx | hx
    · exact (h.explained x hx).mono hkeeps (subset_append_left ..)
    · obtain rfl := mem_singleton.1 hx
      exact he

end Gains

namespace Synth

variable {env : WitnessEnv} {resolve : Constraint → Synth (ProgVar × List Goal)}
  {cs : List Constraint} {vs : List ProgVar}

/-- What is asked for is on record in the end. -/
def Resolver (m : Module) (context : Context) (pending : List Constraint)
    (resolve : Constraint → Synth (ProgVar × List Goal)) : Prop :=
  ∀ c s s' v goals, Returns (resolve c) s (v, goals) s' →
    s'.witnesses.dictionaries.find? c = some v ∧ ∃ new,
      Gains m context pending s.witnesses.dictionaries goals s'.witnesses.dictionaries new

theorem Resolver.collect (hr : Resolver m context pending resolve)
    (h : Returns (collect resolve cs) s (vs, goals) s') :
    Forall₂ (fun c v => s'.witnesses.dictionaries.find? c = some v) cs vs ∧ ∃ new,
      Gains m context pending s.witnesses.dictionaries goals s'.witnesses.dictionaries new := by
  induction cs generalizing s vs goals with
  | nil =>
    obtain ⟨heq, rfl⟩ := returns_collect_nil.1 h
    cases heq
    exact ⟨.nil, [], .idle rfl⟩
  | cons c cs ih =>
    obtain ⟨v, goals₁, s₁, vs, goals₂, h₁, h₂, heq⟩ := returns_collect_cons.1 h
    cases heq
    obtain ⟨hv, new₁, hnew₁⟩ := hr _ _ _ _ _ h₁
    obtain ⟨hvs, new₂, hnew₂⟩ := ih h₂
    exact ⟨.cons (hnew₂.keeps _ _ hv) hvs, _, hnew₁.append hnew₂⟩

theorem Resolver.ofInstance (hr : Resolver env.env context (c :: pending) resolve)
    (h : MadeByInstance env context resolve c n s var goals s')
    (hc : s.witnesses.dictionaries.find? c = none) (hpending : c ∉ pending) :
    ∃ new, Gains env.env context pending s.witnesses.dictionaries goals
      (s'.witnesses.dictionaries.insert c var) new := by
  obtain ⟨p, supers, ds, ss, ts, goals₁, goals₂, goals₃, more, s₁, s₂, s₃, base, hp, h₁, hsupers,
    h₂, h₃, rfl, hcell, hstep, hs'⟩ := h.of_premises
  obtain ⟨hds, new₁, hnew₁⟩ := hr.collect h₁
  obtain ⟨hss, new₂, hnew₂⟩ := hr.collect h₂
  have hparts := (hnew₁.append hnew₂).append (.idle h₃.dictionaryStep)
  rw [← h₃.dictionaries_eq, ← hs'] at hparts hnew₂ hss
  have hrecord := hparts.insert_keeps hc var
  exact ⟨_, hparts.record (.byInstance n) hc hpending hstep
    (.byInstance hp hsupers (hds.imp fun _ _ hd => hrecord _ _ (hnew₂.keeps _ _ hd))
      (hss.imp fun _ _ => hrecord _ _) (Assoc.find?_insert_self ..)
      (mem_append_right _ hcell))⟩

theorem Resolver.ofSuperclass (hr : Resolver env.env context (c :: pending) resolve)
    (h : MadeBySuperclass env context resolve c sub s var goals s')
    (hc : s.witnesses.dictionaries.find? c = none) (hpending : c ∉ pending) :
    ∃ new, Gains env.env context pending s.witnesses.dictionaries goals
      (s'.witnesses.dictionaries.insert c var) new := by
  obtain @⟨cls, supers, position, whole, goals₁, s₁, h₁, -, -, -⟩ := h
  obtain ⟨hwhole, new, hnew⟩ := hr _ _ _ _ _ h₁
  exact ⟨_, hnew.record (.bySuperclass sub) hc hpending rfl (.bySuperclass
    (hnew.insert_keeps hc _ _ _ hwhole) (Assoc.find?_insert_self ..)
    (mem_append_right _ (mem_cons_of_mem _ mem_cons_self)))⟩

/-- A search resolves what it is asked for, and what that leads to. -/
theorem dictionaryWithin_gains (depth : Nat) (pending : List Constraint) :
    Resolver env.env context pending (dictionaryWithin env context depth pending) := by
  induction depth generalizing pending with
  | zero =>
    intro c s s' v goals h
    rcases dictionaryWithin_cases h with ⟨hv, rfl, rfl⟩ | ⟨_, _, _, hdepth, -⟩
    · exact ⟨hv, [], .idle rfl⟩
    · cases hdepth
  | succ depth ih =>
    intro c s s' v goals h
    rcases dictionaryWithin_cases h with ⟨hv, rfl, rfl⟩ |
      ⟨_, _, s₁, hdepth, hc, hpending, -, rfl, ⟨n, -, hmade⟩ | ⟨sub, -, hmade⟩⟩
    · exact ⟨hv, [], .idle rfl⟩
    all_goals cases hdepth
    · exact ⟨Assoc.find?_insert_self .., (ih _).ofInstance hmade hc hpending⟩
    · exact ⟨Assoc.find?_insert_self .., (ih _).ofSuperclass hmade hc hpending⟩

/-! ### Chains of proofs -/

/-- Proofs of which each leads to one constraint, down to one that is on record or
    to an instance that needs none. The steps are those from there up. -/
inductive Chain (m : Module) : WitnessState → Constraint → List DictionaryStep → Prop
  | located {s : WitnessState} {c : Constraint} {v : ProgVar}
      (recorded : s.witnesses.dictionaries.find? c = some v) : Chain m s c []
  | base {s : WitnessState} {c : Constraint} {n : Nat} {p : Premises}
      (unrecorded : s.witnesses.dictionaries.find? c = none)
      (proof : s.proofs.find? c = some (.byInstance n))
      (premises : m.premises? s.scope c n = some p) (constraints : p.constraints = [])
      (supers : p.cls.supers = []) : Chain m s c [.cell]
  | byInstance {s : WitnessState} {c d : Constraint} {n : Nat} {p : Premises}
      {steps : List DictionaryStep} (unrecorded : s.witnesses.dictionaries.find? c = none)
      (proof : s.proofs.find? c = some (.byInstance n))
      (premises : m.premises? s.scope c n = some p) (constraints : p.constraints = [d])
      (supers : p.cls.supers = []) (next : Chain m (s.enter p) d steps) :
      Chain m s c (steps ++ [.cell])
  | bySuperclass {s : WitnessState} {c sub : Constraint} {steps : List DictionaryStep}
      (unrecorded : s.witnesses.dictionaries.find? c = none)
      (proof : s.proofs.find? c = some (.bySuperclass sub)) (next : Chain m s sub steps) :
      Chain m s c (steps ++ [.extraction])

theorem steps_of_byInstance {p : Premises}
    (h : Returns (dictionaryWithin env context depth pending c) s (var, goals) s')
    (hc : s.witnesses.dictionaries.find? c = none)
    (hproof : s.proofs.find? c = some (.byInstance n)) (hp : env.env.premises? s.scope c n = some p)
    (hsupers : p.cls.supers = []) :
    ∃ depth' ds goals₁ s₁,
      Returns (collect (dictionaryWithin env context depth' (c :: pending)) p.constraints)
        (s.enter p) (ds, goals₁) s₁ ∧
      goals.filterMap Goal.dictionaryStep? =
        goals₁.filterMap Goal.dictionaryStep? ++ [.cell] := by
  rcases dictionaryWithin_cases h with ⟨hv, -⟩ |
    ⟨depth', _, _, -, -, -, hproof', -, ⟨n', rfl, hmade⟩ | ⟨sub, rfl, -⟩⟩
  · simp [hc] at hv
  · cases hproof.symm.trans hproof'
    obtain ⟨p', supers, ds, ss, ts, goals₁, goals₂, goals₃, more, s₁, s₂, s₃, base, hp', h₁,
      hsupers', h₂, h₃, rfl, -, hstep, -⟩ := hmade.of_premises
    cases hp.symm.trans hp'
    obtain rfl : [] = supers := by simpa [ClassDefn.supersAt?, hsupers] using hsupers'
    cases (returns_collect_nil.1 h₂).1
    refine ⟨depth', ds, goals₁, s₁, h₁, ?_⟩
    simp [filterMap_append, h₃.dictionaryStep, hstep]
  · cases hproof.symm.trans hproof'

/-- Each level of a chain of proofs is one step. -/
theorem chain_steps {steps : List DictionaryStep} (hchain : Chain env.env s c steps)
    (h : Returns (dictionaryWithin env context depth pending c) s (var, goals) s') :
    goals.filterMap Goal.dictionaryStep? = steps := by
  induction hchain generalizing depth pending var goals s' with
  | located recorded =>
    rcases dictionaryWithin_cases h with ⟨-, rfl, -⟩ | ⟨_, _, _, -, hnone, -⟩
    · rfl
    · simp [recorded] at hnone
  | base unrecorded proof premises constraints supers =>
    obtain ⟨_, _, _, _, h₁, hsteps⟩ := steps_of_byInstance h unrecorded proof premises supers
    rw [constraints] at h₁
    cases (returns_collect_nil.1 h₁).1
    exact hsteps
  | byInstance unrecorded proof premises constraints supers _ ih =>
    obtain ⟨_, _, _, _, h₁, hsteps⟩ := steps_of_byInstance h unrecorded proof premises supers
    rw [constraints] at h₁
    obtain ⟨_, _, _, _, _, hfirst, hrest, heq⟩ := returns_collect_cons.1 h₁
    cases heq
    cases (returns_collect_nil.1 hrest).1
    rw [hsteps, append_nil, ih hfirst]
  | bySuperclass unrecorded proof _ ih =>
    rcases dictionaryWithin_cases h with ⟨hv, -⟩ |
      ⟨_, _, _, -, -, -, hproof, -, ⟨n, rfl, -⟩ | ⟨sub, rfl, hmade⟩⟩
    · simp [unrecorded] at hv
    · cases proof.symm.trans hproof
    · cases proof.symm.trans hproof
      obtain @⟨cls, supers, position, whole, goals₁, s₂, h₁, -, -, -⟩ := hmade
      rw [filterMap_append, ih h₁]
      rfl

/-! ### Requests -/

/-- Constraints on record can be left out of a search. -/
theorem collect_unrecorded
    (h : Returns (collect (dictionaryWithin env context depth pending) cs) s (vs, goals) s')
    (hd : ∀ c v, d.find? c = some v → s.witnesses.dictionaries.find? c = some v) :
    ∃ vs', Returns (collect (dictionaryWithin env context depth pending)
      (cs.filter fun c => (d.find? c).isNone)) s (vs', goals) s' := by
  induction cs generalizing s vs goals with
  | nil =>
    obtain ⟨heq, rfl⟩ := returns_collect_nil.1 h
    cases heq
    exact ⟨[], returns_collect_nil.2 ⟨rfl, rfl⟩⟩
  | cons c cs ih =>
    obtain ⟨v, goals₁, s₁, vs, goals₂, h₁, h₂, heq⟩ := returns_collect_cons.1 h
    cases heq
    obtain ⟨-, new, hnew⟩ := dictionaryWithin_gains depth pending _ _ _ _ _ h₁
    obtain ⟨vs', hvs'⟩ := ih h₂ fun c v hc => hnew.keeps c v (hd c v hc)
    rw [filter_cons]
    cases hc : d.find? c with
    | none =>
      exact ⟨v :: vs', returns_collect_cons.2 ⟨v, goals₁, s₁, vs', goals₂, h₁, hvs', rfl⟩⟩
    | some u =>
      rcases dictionaryWithin_cases h₁ with ⟨-, rfl, rfl⟩ | ⟨_, _, _, -, hnone, -⟩
      · exact ⟨vs', hvs'⟩
      · rw [hd c u hc] at hnone
        cases hnone

/-- A request resolves each constraint once. In the end the constraints that were
    asked for are on record with the variables that are returned, and what was on
    record at the start still is. What is new has been resolved: the goals that make
    dictionaries are one for each of them, of the kind that its proof says, and
    made from what is on record. What is on record at the start adds no goals, and a
    chain of proofs is one goal for each level. Afterwards the dictionaries on record
    and the proofs are those from before. -/
theorem resolved_once (h : Returns (dictionaries env context cs) s (vs, goals) s') :
    ∃ (record : Assoc Constraint ProgVar) (resolved : List (Constraint × ConstraintProof)),
      List.Forall₂ (fun c v => record.find? c = some v) cs vs ∧
      (∀ c v, s.witnesses.dictionaries.find? c = some v → record.find? c = some v) ∧
      (∀ c, record.find? c = none ↔
        s.witnesses.dictionaries.find? c = none ∧ c ∉ resolved.map Prod.fst) ∧
      (∀ c ∈ resolved.map Prod.fst, s.witnesses.dictionaries.find? c = none) ∧
      (resolved.map Prod.fst).Nodup ∧
      (∀ x ∈ resolved, Explained env.env context record goals x.1 x.2) ∧
      goals.filterMap Goal.dictionaryStep? = resolved.map (·.2.step) ∧
      (∃ vs', Returns (dictionaries env context
        (cs.filter fun c => (s.witnesses.dictionaries.find? c).isNone)) s (vs', goals) s') ∧
      (∀ c steps, cs = [c] → Chain env.env s c steps →
        goals.filterMap Goal.dictionaryStep? = steps) ∧
      s'.witnesses.dictionaries = s.witnesses.dictionaries ∧ s'.proofs = s.proofs := by
  simp only [dictionaries, dictionariesWithin, returns_bind, returns_get, returns_modify,
    returns_pure] at h ⊢
  obtain ⟨_, _, ⟨rfl, rfl⟩, _, _, ⟨rfl, rfl⟩, _, s₁, h₁, _, _, rfl, rfl, rfl⟩ := h
  obtain ⟨hvs, new, hnew⟩ := Resolver.collect (dictionaryWithin_gains _ []) h₁
  refine ⟨s₁.witnesses.dictionaries, new, hvs, hnew.keeps, hnew.unrecorded,
    fun c hc => (hnew.fresh c hc).1, hnew.nodup, hnew.explained, hnew.steps, ?_, ?_, rfl, rfl⟩
  · obtain ⟨vs', hvs'⟩ := collect_unrecorded h₁ fun _ _ hc => hc
    exact ⟨vs', _, _, ⟨rfl, rfl⟩, _, _, ⟨rfl, rfl⟩, _, s₁, hvs', ⟨⟩, _, rfl, rfl, rfl⟩
  · rintro c steps rfl hchain
    obtain ⟨_, _, _, _, _, hfirst, hrest, heq⟩ := returns_collect_cons.1 h₁
    cases heq
    cases (returns_collect_nil.1 hrest).1
    rw [List.append_nil]
    exact chain_steps hchain hfirst

end Synth

/-- The equality of lists is asked for twice and made once, from the one that the
    order of their members holds. That order is on record. -/
theorem OrderedLists.list_equality_resolved_once : ∃ v goals s',
    Synth.Returns (Synth.dictionaries ⟨orders, ""⟩ {}
      [eq (list (.var ⟨0⟩)), ord (.var ⟨0⟩), eq (list (.var ⟨0⟩))]) state
        ([v, ⟨0⟩, v], goals) s' ∧
    goals.filterMap Goal.dictionaryStep? = [.extraction, .cell] ∧ s'.proofs = state.proofs := by
  have hq : ((Synth.dictionaries ⟨orders, ""⟩ {}
      [eq (list (.var ⟨0⟩)), ord (.var ⟨0⟩), eq (list (.var ⟨0⟩))]).run state).toOption.any
        (fun r => r.1.2.filterMap Goal.dictionaryStep? = [.extraction, .cell]) = true := by
    decide +kernel
  cases h : (Synth.dictionaries ⟨orders, ""⟩ {}
      [eq (list (.var ⟨0⟩)), ord (.var ⟨0⟩), eq (list (.var ⟨0⟩))]).run state with
  | error e =>
    rw [h] at hq
    cases hq
  | ok r =>
    rw [h] at hq
    obtain ⟨⟨vs, goals⟩, s'⟩ := r
    obtain ⟨record, resolved, hvs, hkeeps, -, -, -, -, -, -, -, -, hproofs⟩ :=
      Synth.resolved_once h
    obtain - | ⟨hv, - | ⟨hu, - | ⟨hw, hnil⟩⟩⟩ := hvs
    cases hnil
    cases hw.symm.trans hv
    cases hu.symm.trans (hkeeps _ _ rfl)
    exact ⟨_, goals, s', h, of_decide_eq_true hq, hproofs⟩

end Clausal
