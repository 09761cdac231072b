import Clausal.Proofs.Pass
import Clausal.Proofs.Renumbering
import Clausal.Proofs.Steady

/-!
# Witnesses in wider scopes

Making witnesses appends the type variables of what is called to the scope of the
caller. How many there are depends on what has become of the callees, and so do the
numbers that they get. None of them stays in anything but the scope, as long as
declarations are range-restricted (`Module.RangeRestricted`): every variable that
is instantiated is found in types that are matched, against types over the declared
variables (`WitnessState.Fits`).

What is made of a procedure in one scope is therefore made of it in another
(`Synth.Steady`), and in a module in which more procedures have got their witnesses
already (`Module.Widens`).
-/

namespace Clausal

open List Ty WitnessState Predicate Subst

variable {type : Ty} {v : TypeVar} {ts : List Ty} {e e' : WitnessEnv} {i : PredId} {p : Predicate}
  {β : Type} {d k : TypeScope} {cs : List Constraint} {procs : Array Procedure} {context : Context}
  {m : Module} {vs args : List ProgVar} {r callee : ProcRef} {other other' k' : TypeScope}
  {cls : ClassDefn} {procs' : Array Procedure}

/-! ### Wider scopes -/

namespace TypeScope

/-- The variable is one of the scope's. -/
def Has (d : TypeScope) (v : TypeVar) : Prop := v.index < d.size

instance (d : TypeScope) (v : TypeVar) : Decidable (d.Has v) :=
  inferInstanceAs (Decidable (v.index < d.size))

theorem Extends.merge (h : d.Extends k) (other : TypeScope) : d.Extends (k.merge other).2 := by
  obtain ⟨more, h⟩ := h
  exact ⟨more ++ other.names, by simp [TypeScope.merge, h, Array.append_assoc]⟩

theorem Extends.has (h : d.Extends k) (hv : d.Has v) : k.Has v := by
  obtain ⟨more, h⟩ := h
  simp only [Has, size, h, Array.size_append] at hv ⊢
  omega

theorem Extends.varName_eq (h : d.Extends k) (hv : d.Has v) : k.varName v = d.varName v := by
  obtain ⟨more, h⟩ := h
  rw [varName, varName, name?, name?, h, Array.getElem?_append_left hv]

end TypeScope

namespace WitnessState

variable {s : WitnessState}

/-- The state with another scope. -/
def withScope (s : WitnessState) (k : TypeScope) : WitnessState := { s with scope := k }

@[simp] theorem scope_withScope : (s.withScope k).scope = k := rfl

@[simp] theorem witnesses_withScope : (s.withScope k).witnesses = s.witnesses := rfl

/-- What is known of types and proofs is over the variables of the scope `d`,
    which the scope of the state extends. -/
structure Fits (d : TypeScope) (s : WitnessState) : Prop where
  scope : d.Extends s.scope
  types : ∀ v t, s.vars.type v = .ok t → ∀ w ∈ t.occurrences, d.Has w
  proofs : ∀ c sub, s.proofs.find? c = some (.bySuperclass sub) → sub.Over d.Has

theorem Fits.setWitnesses (h : s.Fits d) (w : WitnessMap) : (s.setWitnesses w).Fits d :=
  ⟨h.scope, h.types, h.proofs⟩

theorem Fits.mergeScope (h : s.Fits d) (other : TypeScope) : (s.mergeScope other).Fits d :=
  ⟨h.scope.merge other, h.types, h.proofs⟩

theorem Fits.addVar (h : s.Fits d) (name : String) (ht : ∀ w ∈ type.occurrences, d.Has w) :
    (s.addVar name type).Fits d where
  scope := h.scope
  types v t hv := by
    obtain ⟨e, he, rfl⟩ := VarTable.type_eq_ok.1 hv
    change (s.vars.entries.push ⟨some name, type⟩)[v.index]? = some e at he
    rw [Array.getElem?_push] at he
    split at he
    · cases he
      exact ht
    · exact h.types v e.type (VarTable.type_eq_ok.2 ⟨e, he, rfl⟩)
  proofs := h.proofs

theorem Fits.addProofs (h : s.Fits d) {proofs : ProofMap}
    (hp : ∀ c sub, (c, ConstraintProof.bySuperclass sub) ∈ proofs.entries → sub.Over d.Has) :
    (s.addProofs proofs).Fits d where
  scope := h.scope
  types := h.types
  proofs c sub hc := (s.of_find?_addProofs hc).elim (hp c sub) (h.proofs c sub)

/-- The variables of `d` are called the same in both scopes. -/
theorem Fits.varName_eq (h : s.Fits d) (hk : d.Extends k) (hv : d.Has v) :
    (s.withScope k).scope.varName v = s.scope.varName v :=
  (hk.varName_eq hv).trans (h.scope.varName_eq hv).symm

theorem Fits.varTypes (h : s.Fits d) (hts : s.vars.types vs = .ok ts) :
    ∀ w ∈ Ty.occurrencesList ts, d.Has w := by
  intro w hw
  obtain ⟨t, ht, hwt⟩ := mem_occurrencesList.1 hw
  obtain ⟨v, -, hv⟩ := exists_of_forall₂ (VarTable.types_eq_ok.1 hts) ht
  exact h.types v t hv w hwt

end WitnessState

/-! ### Steps in wider scopes -/

/-- A state and the same in another scope, both of which extend the scope `d`. -/
def TypeScope.Alike (d : TypeScope) (s t : WitnessState) : Prop :=
  s.Fits d ∧ ∃ k, d.Extends k ∧ t = s.withScope k

instance : Similarity d.Alike d.Has where
  vars h := by obtain ⟨-, _, -, rfl⟩ := h; rfl
  witnesses h := by obtain ⟨-, _, -, rfl⟩ := h; rfl
  varName h hv := by obtain ⟨hs, _, hk, rfl⟩ := h; exact hs.varName_eq hk hv
  setWitnesses w h := by obtain ⟨hs, k, hk, rfl⟩ := h; exact ⟨hs.setWitnesses w, k, hk, rfl⟩
  addVar name h ht := by obtain ⟨hs, k, hk, rfl⟩ := h; exact ⟨hs.addVar name ht, k, hk, rfl⟩

namespace Synth

variable {α : Type}

namespace Steady

variable {x x' : Synth α} {f f' : α → Synth β}

theorem get_bind {f f' : WitnessState → Synth β}
    (hf : ∀ s k, s.Fits d → d.Extends k → Steady d.Alike (f s) (f' (s.withScope k))) :
    Steady d.Alike (get >>= f) (get >>= f') :=
  .ofGet fun s t h => by
    obtain ⟨hs, k, hk, rfl⟩ := h
    exact hf s k hs hk

theorem modify_fits {f f' : WitnessState → WitnessState}
    (hf : ∀ s k, s.Fits d → (f s).Fits d ∧ f' (s.withScope k) = (f s).withScope k) :
    Steady d.Alike (modify f) (modify f') :=
  .modify fun s t h => by
    obtain ⟨hs, k, hk, rfl⟩ := h
    exact ⟨(hf s k hs).1, k, hk, (hf s k hs).2⟩

theorem varTypes_bind {f f' : List Ty → Synth β}
    (hf : ∀ ts, (∀ w ∈ Ty.occurrencesList ts, d.Has w) → Steady d.Alike (f ts) (f' ts)) :
    Steady d.Alike (varTypes vs >>= f) (varTypes vs >>= f') :=
  .bind_of fun {_ t ts _} hR h => by
    obtain ⟨hts, rfl⟩ := returns_varTypes.1 h
    refine ⟨ts, t, hR, returns_varTypes.2 ⟨?_, rfl⟩, hf ts (hR.1.varTypes hts)⟩
    rw [Similarity.vars hR, hts]

/-- The variables of a declaration get numbers that are not those of variables
    of `d`, whichever these are. -/
theorem renameApart_bind {f f' : Shift → Synth β}
    (hf : ∀ r r' : Shift, (∀ v, d.Has v → v.index < r.base ∧ v.index < r'.base) →
      r.count = other.size → r'.count = other'.size → Steady d.Alike (f r) (f' r')) :
    Steady d.Alike (renameApart other >>= f) (renameApart other' >>= f') :=
  .bind_of fun {s t r _} hR h => by
    obtain ⟨rfl, rfl⟩ := returns_renameApart.1 h
    obtain ⟨hs, k, hk, rfl⟩ := hR
    exact ⟨k.shiftOf other', _, ⟨hs.mergeScope other, _, hk.merge other', rfl⟩,
      returns_renameApart.2 ⟨rfl, rfl⟩,
      hf _ _ (fun v hv => ⟨hs.scope.has hv, hk.has hv⟩) rfl rfl⟩

theorem mapM_ofOption {as : List α} {f : α → Option β} {bs : List β} (h : as.mapM f = some bs) :
    (as.mapM fun a => (ofOption (f a) : Synth β)) = pure bs := by
  induction as generalizing bs with
  | nil =>
    cases h
    rfl
  | cons a as ih =>
    simp only [mapM_cons, Option.bind_eq_bind, Option.pure_def, Option.bind_eq_some_iff,
      Option.some.injEq] at h
    obtain ⟨b, hb, bs, hbs, rfl⟩ := h
    rw [mapM_cons, hb, ih hbs]
    rfl

end Steady

theorem typeVarHolder_steady (hv : d.Has v) :
    Steady d.Alike (typeVarHolder v) (typeVarHolder v) := by
  refine .get_bind fun s k _ _ => ?_
  rw [witnesses_withScope]
  split
  · exact .pure _
  · exact (typeVarInfo_steady hv).bind fun _ => .pure _

end Synth

/-! ### Modules with wider scopes -/

/-- The types and proofs of a predicate, and the types of the variables of its
    procedures, are over its scope. Its constraints have no variables beside those
    of the argument types, and there is a mode for each argument. -/
structure Predicate.WellScoped (p : Predicate) : Prop where
  argTypes : ∀ v ∈ Ty.occurrencesList p.argTypes, p.scope.Has v
  constraints : ∀ c ∈ p.constraints.universal ++ p.constraints.existential, ∀ v ∈ c.occurrences,
    v ∈ Ty.occurrencesList p.argTypes
  proofs : ∀ x ∈ p.proofs.entries, ∀ v ∈ x.2.occurrences, p.scope.Has v
  vars : ∀ proc ∈ p.procs, ∀ x ∈ proc.vars.entries, ∀ v ∈ x.type.occurrences, p.scope.Has v
  modes : ∀ proc ∈ p.procs, proc.modes.length = p.argTypes.length

instance (p : Predicate) : Decidable p.WellScoped :=
  decidable_of_iff (_ ∧ _ ∧ _ ∧ _ ∧ _)
    ⟨fun h => ⟨h.1, h.2.1, h.2.2.1, h.2.2.2.1, h.2.2.2.2⟩,
      fun h => ⟨h.argTypes, h.constraints, h.proofs, h.vars, h.modes⟩⟩

namespace Predicate

/-- The declaration of a predicate with another scope and other procedures. -/
def widened (p : Predicate) (k : TypeScope) (procs : Array Procedure) : Predicate :=
  { p with scope := k, procs }

@[simp] theorem scope_widened : (p.widened k procs).scope = k := rfl

@[simp] theorem argTypes_widened : (p.widened k procs).argTypes = p.argTypes := rfl

@[simp] theorem constraints_widened : (p.widened k procs).constraints = p.constraints := rfl

@[simp] theorem bareTypeVars_widened : (p.widened k procs).bareTypeVars = p.bareTypeVars := rfl

theorem mem_argTypes_of_bare (hv : v ∈ p.bareTypeVars.1 ∨ v ∈ p.bareTypeVars.2) :
    v ∈ Ty.occurrencesList p.argTypes := by
  simp only [bareTypeVars, partition_eq_filter_filter, mem_filter,
    mem_typeVarsList] at hv
  exact hv.elim (·.1.1) (·.1.1)

theorem WellScoped.foreignWitnessNames_widened (hp : p.WellScoped) (hk : p.scope.Extends k) :
    (p.widened k procs).foreignWitnessNames = p.foreignWitnessNames := by
  have hname : ∀ v ∈ Ty.occurrencesList p.argTypes, k.varName v = p.scope.varName v :=
    fun v hv => hk.varName_eq (hp.argTypes v hv)
  refine congrArg₂ (· ++ ·) (map_congr_left fun c hc => ?_)
    (map_congr_left fun v hv => ?_)
  · refine congrArg (fun names => String.join (_ :: names)) (map_congr_left fun v hv => ?_)
    exact congrArg ("_" ++ ·) (hname v (hp.constraints c hc v (Constraint.mem_typeVars.1 hv)))
  · exact congrArg ("TypeInfo_for_" ++ ·) (hname v (mem_argTypes_of_bare (mem_append.1 hv)))

end Predicate

/-- The types of a constructor are over the scope of its type. It quantifies
    variables of its argument types, and its constraints have no variables beside
    these and the parameters. -/
structure CtorDefn.WellScoped (defn : TypeDefn) (ctor : CtorDefn) : Prop where
  params : ∀ v ∈ defn.params, defn.scope.Has v
  args : ∀ v ∈ Ty.occurrencesList ctor.args, defn.scope.Has v
  existVars : ∀ v ∈ ctor.existVars, v ∈ Ty.occurrencesList ctor.args
  constraints : ∀ c ∈ ctor.constraints, ∀ v ∈ c.occurrences,
    v ∈ defn.params ∨ v ∈ Ty.occurrencesList ctor.args

namespace Module

/-- No declaration has variables in constraints and proofs that are not found
    in its types. -/
structure RangeRestricted (m : Module) : Prop where
  wellScoped : m.WellScoped
  declared : ∀ p ∈ m.preds, p.WellScoped
  constructors : ∀ x ∈ m.types.entries, ∀ ctors, x.2.body = .union ctors → ∀ ctor ∈ ctors,
    CtorDefn.WellScoped x.2 ctor

/-- The predicates of `m'` are those of `m`, with more variables in their scopes
    and more arguments in front of those that they have. -/
structure Widens (m m' : Module) : Prop where
  decls : m.SameDecls m'
  scopes : ∀ i p q, m.findPred? i = some p → m'.findPred? i = some q → p.scope.Extends q.scope
  determinism : ∀ r k k', m.procAt? r = some k → m'.procAt? r = some k' →
    k'.determinism = k.determinism

variable {m' : Module}

theorem RangeRestricted.preds (h : m.RangeRestricted) (hp : m.findPred? i = some p) :
    p.WellScoped :=
  h.declared p (Array.mem_of_getElem? hp)

theorem RangeRestricted.ctors (h : m.RangeRestricted) {t : Ty} {name : SymName} {arity : Nat}
    {defn : TypeDefn} {ctor : CtorDefn} (hctor : m.findCtor? t name arity = some (defn, ctor)) :
    CtorDefn.WellScoped defn ctor := by
  simp only [findCtor?, Option.bind_eq_bind, Option.bind_eq_some_iff] at hctor
  obtain ⟨c, -, defn', hdefn, hctor⟩ := hctor
  split at hctor
  · next ctors hbody =>
    obtain ⟨ctor', hfind, heq⟩ := Option.bind_eq_some_iff.1 hctor
    cases heq
    exact h.constructors _ (Assoc.mem_of_firstValue hdefn) ctors hbody _
      (mem_of_find?_eq_some hfind)
  · cases hctor
  · cases hctor

theorem Widens.classes_eq (h : m.Widens m') : m'.classes = m.classes := by rw [h.decls.rest]

theorem Widens.instances_eq (h : m.Widens m') : m'.instances = m.instances := by rw [h.decls.rest]

theorem Widens.findCtor?_eq (h : m.Widens m') (t : Ty) (name : SymName) (arity : Nat) :
    m'.findCtor? t name arity = m.findCtor? t name arity := by
  rw [h.decls.rest]
  rfl

end Module

/-- The witnesses of some procedures of `m` have been made in one module, and those
    of other ones in the other. -/
structure Beside (m : Module) (e e' : WitnessEnv) : Prop where
  restricted : m.RangeRestricted
  left : m.Widens e.env
  right : m.Widens e'.env

/-! ### Dictionaries -/

namespace Synth

variable {resolve resolve' : Constraint → Synth (ProgVar × List Goal)} {c : Constraint}

section

variable (hm : Beside m e e')

include hm

theorem findClass_bind {cls : ClassId} {f f' : ClassDefn → Synth β}
    (hf : ∀ defn, m.classes.find? cls = some defn → Steady d.Alike (f defn) (f' defn)) :
    Steady d.Alike (findClass e cls >>= f) (findClass e' cls >>= f') := by
  rw [findClass, findClass, hm.left.classes_eq, hm.right.classes_eq]
  cases h : m.classes.find? cls with
  | none => exact .breach_bind
  | some defn =>
    simp only [pure_bind]
    exact hf defn h

theorem recordDictionary_steady (c : Constraint) (var : ProgVar) :
    Steady d.Alike (recordDictionary e c var) (recordDictionary e' c var) := by
  intro s t u s₁ hR h
  obtain ⟨cls, hcls, rfl⟩ := returns_recordDictionary.1 h
  rw [hm.left.classes_eq] at hcls
  refine ⟨_, Similarity.setWitnesses _ hR,
    returns_recordDictionary.2 ⟨cls, by rw [hm.right.classes_eq, hcls], ?_⟩⟩
  rw [Similarity.witnesses hR]

theorem supersAt?_eq (hcls : m.classes.find? c.classId = some cls) (hc : c.Over d.Has)
    (hk : d.Extends k) : cls.supersAt? k c.args = some (cls.supersOf c.args) := by
  obtain ⟨hclass, hlen⟩ := hm.restricted.wellScoped.classes c.classId cls hcls
  exact ClassDefn.supersAt?_eq_some hclass hlen fun v hv => hk.has (hc v hv)

theorem over_supersOf (hcls : m.classes.find? c.classId = some cls) (hc : c.Over d.Has) :
    ∀ b ∈ cls.supersOf c.args, b.Over d.Has := by
  obtain ⟨hclass, hlen⟩ := hm.restricted.wellScoped.classes c.classId cls hcls
  exact fun b hb v hv => hc v (ClassDefn.mem_supersOf_occurrences hclass hlen hb hv)

theorem instanceDictionary_steady
    (hr : ∀ b : Constraint, b.Over d.Has → Steady d.Alike (resolve b) (resolve' b))
    (hc : c.Over d.Has) (n : Nat) :
    Steady d.Alike (instanceDictionary e context resolve c n)
      (instanceDictionary e' context resolve' c n) := by
  unfold instanceDictionary
  rw [hm.left.instances_eq, hm.right.instances_eq]
  split
  · next inst hinst =>
    have hi : inst.WellScoped := hm.restricted.wellScoped.instances c.classId n inst hinst
    refine findClass_bind hm fun cls hcls => .renameApart_bind fun r r' hbase hn hn' => ?_
    cases hmatch : Subst.ofMatch (inst.types.map (·.shift r)) c.args with
    | error err => exact .never fun s a s₁ h => by simp at h
    | ok subst =>
      obtain ⟨subst', hmatch', hagree⟩ := ofMatch_shift_agree r' hmatch
        (fun v hv => ⟨hn ▸ hi.types v hv, hn' ▸ hi.types v hv⟩) fun v hv => hbase v (hc v hv)
      obtain ⟨proofs, hp, hp', hpover⟩ := hagree.proofs hi.proofs
      obtain ⟨cs, hcs, hcs', hcsover⟩ := hagree.constraints _ hi.constraints
      simp only [hmatch', hp, hp', hcs, hcs', pure_bind, ofOption]
      refine Steady.bind (.modify_fits fun s k hs => ⟨hs.addProofs fun b sub hb v hv =>
        hc v (hpover b sub hb v hv), rfl⟩) fun _ => ?_
      refine (Steady.collect fun b hb => hr b fun v hv => hc v (hcsover b hb v hv)).bind
        fun _ => .get_bind fun s k hs hk => ?_
      simp only [supersAt?_eq hm hcls hc hs.scope, supersAt?_eq hm hcls hc hk,
        scope_withScope, pure_bind]
      refine (Steady.collect fun b hb => hr b (over_supersOf hm hcls hc b hb)).bind fun _ => ?_
      exact (typeInfos_steady hc).bind fun _ => (newGround_steady _ rfl).bind fun _ =>
        (newDictionary_steady _).bind fun _ => .pure _
  · exact .breach

theorem superclassDictionary_steady {sub : Constraint}
    (hr : Steady d.Alike (resolve sub) (resolve' sub)) (hsub : sub.Over d.Has) :
    Steady d.Alike (superclassDictionary e context resolve c sub)
      (superclassDictionary e' context resolve' c sub) := by
  refine hr.bind fun _ => findClass_bind hm fun cls hcls => .get_bind fun s k hs hk => ?_
  simp only [supersAt?_eq hm hcls hsub hs.scope, supersAt?_eq hm hcls hsub hk,
    scope_withScope, pure_bind, ofOption]
  split
  · exact (takeSlot_steady _ _ _ _ (newDictionary_steady _)).bind fun _ => .pure _
  · exact .breach

/-- A search leads to constraints over `d` only. -/
theorem dictionaryWithin_steady (depth : Nat) (pending : List Constraint) (hc : c.Over d.Has) :
    Steady d.Alike (dictionaryWithin e context depth pending c)
      (dictionaryWithin e' context depth pending c) := by
  refine search_steady (fun h => ?_) (fun h => h.1.proofs _ _)
    (fun hr _ hb => instanceDictionary_steady hm hr hb) (superclassDictionary_steady hm) depth
    pending hc
  obtain ⟨-, _, -, rfl⟩ := h
  rfl

theorem dictionariesWithin_steady (depth : Nat) (hcs : ∀ c ∈ cs, c.Over d.Has) :
    Steady d.Alike (dictionariesWithin e depth context cs)
      (dictionariesWithin e' depth context cs) := by
  refine .get_bind fun before k hbefore _ => ?_
  refine (Steady.collect fun c hc => dictionaryWithin_steady hm depth [] (hcs c hc)).bind
    fun _ => Steady.bind (.modify_fits fun s k hs => ⟨?_, rfl⟩) fun _ => .pure _
  exact ⟨hs.scope, hs.types, hbefore.proofs⟩

theorem dictionaries_steady (hcs : ∀ c ∈ cs, c.Over d.Has) :
    Steady d.Alike (dictionaries e context cs) (dictionaries e' context cs) := by
  have hcount : instanceProofCount e'.env = instanceProofCount e.env := by
    rw [instanceProofCount, instanceProofCount, hm.left.instances_eq, hm.right.instances_eq]
  refine .get_bind fun s k _ _ => ?_
  rw [hcount]
  exact dictionariesWithin_steady hm _ hcs

end

/-! ### Signatures -/

theorem checkLocated_steady (cs : List Constraint) :
    Steady d.Alike (checkLocated e cs) (checkLocated e' cs) := by
  refine .get_bind fun s k _ _ => ?_
  simp only [witnesses_withScope]
  refine Steady.bind (.forIn fun c _ u => ?_) fun _ => .pure _
  refine Steady.bind (.forIn fun v _ u => ?_) fun _ => .pure _
  exact .ite (fun _ => .breach_bind) fun _ => .pure _

section

variable (hm : Beside m e e')

include hm

theorem setupHead_steady (hp : ∀ v ∈ Ty.occurrencesList p.argTypes, d.Has v) (proc : Procedure) :
    Steady d.Alike (setupHead e p proc) (setupHead e' p proc) := by
  have hbare : ∀ v, v ∈ p.bareTypeVars.1 ∨ v ∈ p.bareTypeVars.2 → d.Has v :=
    fun v hv => hp v (mem_argTypes_of_bare hv)
  refine (Steady.mapM fun c _ => newDictionary_steady _).bind fun _ => ?_
  refine (Steady.mapM fun c _ => (newDictionary_steady _).bind fun var =>
    (recordDictionary_steady hm c var).bind fun _ => .pure _).bind fun _ => ?_
  refine (checkLocated_steady _).bind fun _ => ?_
  refine (Steady.mapM fun v hv => .get_bind fun s k hs hk => ?_).bind fun _ => ?_
  · rw [hs.varName_eq hk (hbare v (.inl hv))]
    exact (newTypeInfo_steady _).bind fun _ => (putTypeInfo_steady _ _).bind fun _ => .pure _
  refine (Steady.mapM fun v hv => .get_bind fun s k hs hk => ?_).bind fun _ => ?_
  · rw [hs.varName_eq hk (hbare v (.inr hv))]
    exact newTypeInfo_steady _
  exact Steady.bind (.modify_fits fun s k hs => ⟨⟨hs.scope, hs.types, hs.proofs⟩, rfl⟩) fun _ =>
    .pure _

/-- A callee that is known by its declared types, in one scope and in another:
    its variables are renumbered in different ways. -/
theorem callWitnesses_steady (hp : p.WellScoped) (hk : p.scope.Extends k) (hk' : p.scope.Extends k')
    (args : List ProgVar) :
    Steady d.Alike (callWitnesses e (p.widened k procs) args context)
      (callWitnesses e' (p.widened k' procs') args context) := by
  refine .renameApart_bind fun r r' hbase hn hn' => .varTypes_bind fun ts hts => ?_
  simp only [argTypes_widened, constraints_widened,
    bareTypeVars_widened, scope_widened, hp.foreignWitnessNames_widened hk,
    hp.foreignWitnessNames_widened hk']
  cases hmatch : Subst.ofMatch (p.argTypes.map (·.shift r)) ts with
  | error err => exact .breach_bind
  | ok subst =>
    obtain ⟨subst', hmatch', hagree⟩ := ofMatch_shift_agree r' hmatch
      (fun v hv => ⟨hn ▸ hk.has (hp.argTypes v hv), hn' ▸ hk'.has (hp.argTypes v hv)⟩)
      fun v hv => hbase v (hts v hv)
    obtain ⟨us, hus, hus', husover⟩ := hagree.constraints p.constraints.universal
      fun c hc => hp.constraints c (mem_append_left _ hc)
    obtain ⟨xs, hxs, hxs', -⟩ := hagree.constraints p.constraints.existential
      fun c hc => hp.constraints c (mem_append_right _ hc)
    obtain ⟨uts, huts, huts', hutsover⟩ := hagree.vars p.bareTypeVars.1
      fun v hv => mem_argTypes_of_bare (.inl hv)
    obtain ⟨xts, hxts, hxts', -⟩ := hagree.vars p.bareTypeVars.2
      fun v hv => mem_argTypes_of_bare (.inr hv)
    simp only [hmatch', pure_bind, Steady.mapM_ofOption hus, Steady.mapM_ofOption hus',
      Steady.mapM_ofOption hxs, Steady.mapM_ofOption hxs', Steady.mapM_ofOption huts,
      Steady.mapM_ofOption huts', Steady.mapM_ofOption hxts, Steady.mapM_ofOption hxts']
    refine (dictionaries_steady hm fun c hc v hv => hts v (husover c hc v hv)).bind
      fun _ => ?_
    refine (Steady.mapM fun c _ => newDictionary_steady _).bind fun _ => ?_
    refine (typeInfos_steady fun v hv => hts v (hutsover v hv)).bind fun _ => ?_
    refine (Steady.mapM fun v hv => ?_).bind fun _ => ?_
    · have hv := hp.argTypes v (mem_argTypes_of_bare (.inr hv))
      rw [hk.varName_eq hv, hk'.varName_eq hv]
      exact newTypeInfo_steady _
    refine (Steady.forIn fun a _ _ => (recordDictionary_steady hm _ _).bind fun _ =>
      .pure _).bind fun _ => ?_
    refine (Steady.forIn fun a _ _ => ?_).bind fun _ => .pure _
    split
    · exact (addTypeInfo_steady _ _).bind fun _ => .pure _
    · exact .pure _

/-- The witnesses of constraints and variables with types over `d` put in. -/
theorem instantiated_steady {subst : Subst}
    (hs : ∀ v t, subst.find? v = some t → ∀ w ∈ t.occurrences, d.Has w)
    (hcs : ∀ c ∈ cs, c.Over d.Has) {vs : List TypeVar} (hvs : ∀ v ∈ vs, d.Has v)
    {f : List ProgVar × List Goal → List ProgVar × List Goal → β} :
    Steady d.Alike
      (do
        let dicts ← dictionaries e context (← ofOption (cs.mapM (·.subst? subst)))
        let infos ← typeInfos context (← ofOption (vs.mapM fun v => subst.instantiate? (.var v)))
        return f dicts infos)
      (do
        let dicts ← dictionaries e' context (← ofOption (cs.mapM (·.subst? subst)))
        let infos ← typeInfos context (← ofOption (vs.mapM fun v => subst.instantiate? (.var v)))
        return f dicts infos) := by
  refine .ofOption_bind fun ds hds => ?_
  refine (dictionaries_steady hm fun c hc v hv => ?_).bind fun _ => ?_
  · obtain ⟨b, hb, hbc⟩ := exists_of_forall₂ (mapM_eq_some_iff.1 hds) hc
    obtain ⟨ts, hts, heq⟩ := Option.bind_eq_some_iff.1 hbc
    cases heq
    exact over_instantiateList? hs hts (hcs b hb) v hv
  refine .ofOption_bind fun ts hts => ?_
  refine (typeInfos_steady fun w hw => ?_).bind fun _ => .pure _
  obtain ⟨t, ht, hwt⟩ := mem_occurrencesList.1 hw
  obtain ⟨v, hv, hvt⟩ := exists_of_forall₂ (mapM_eq_some_iff.1 hts) ht
  exact over_resolve? hs hvt (hvs v hv) w hwt

theorem produceExistentials_steady (hcs : ∀ c ∈ p.constraints.existential, c.Over d.Has)
    (declared : List ProgVar) {head : WitnessHead} (hhead : ∀ v ∈ head.existVars, d.Has v) :
    Steady d.Alike (produceExistentials e p declared head context)
      (produceExistentials e' p declared head context) := by
  refine .ite (fun _ => .pure _) fun _ => .varTypes_bind fun ts hts => ?_
  dsimp only
  split
  · next subst hmatch =>
    refine instantiated_steady hm (fun v t hv w hw => ?_) hcs hhead
    rcases (ofMatch_spec hmatch).1.only v t hv with hv | ⟨-, hmem⟩
    · cases hv
    · exact hts w (hmem w hw)
  · exact instantiated_steady hm (fun v t hv => by cases hv) hcs hhead
  · exact .breach_bind

end

end Synth

/-! ### Bodies -/

namespace Module

variable {m' : Module}

theorem SameDecls.of_findProc? (h : m.SameDecls m') {x : Predicate × Procedure}
    (hx : m'.findProc? r = some x) : ∃ p proc, m.findProc? r = some (p, proc) := by
  obtain ⟨hp', hproc'⟩ := findProc?_eq_some.1 hx
  obtain ⟨p, hp, hdecl⟩ := h.of_findPred? hp'
  have hlt : r.proc.index < p.procs.size :=
    hdecl.size ▸ (Array.getElem?_eq_some_iff.1 hproc').1
  exact ⟨p, _, findProc?_eq_some.2 ⟨hp, Array.getElem?_eq_getElem hlt⟩⟩

namespace Widens

/-- A predicate that is referred to is that of `m`, in a wider scope. -/
theorem of_pred (h : m.Widens m') {q : Predicate} (hq : m'.pred i = .ok q) :
    ∃ p, m.findPred? i = some p ∧ q = p.widened q.scope q.procs ∧ p.scope.Extends q.scope := by
  obtain ⟨p, hp, hdecl⟩ := h.decls.of_findPred? (pred_eq_ok.1 hq)
  exact ⟨p, hp, hdecl.decl, h.scopes i p q hp (pred_eq_ok.1 hq)⟩

theorem pred (h : m.Widens m') {i : PredId} {p : Predicate} (hp : m.findPred? i = some p) :
    ∃ k procs, m'.pred i = .ok (p.widened k procs) ∧ p.scope.Extends k := by
  obtain ⟨q, hq, hdecl⟩ := h.decls.findPred? hp
  exact ⟨q.scope, q.procs, pred_eq_ok.2 (hq.trans (congrArg some hdecl.decl)),
    h.scopes i p q hp hq⟩

theorem proc (h : m.Widens m') {r : ProcRef} {p : Predicate} {proc : Procedure}
    (hr : m.findProc? r = some (p, proc)) :
    ∃ k procs q, m'.proc r = .ok (p.widened k procs, q) ∧ proc.modes <:+ q.modes ∧
      q.determinism = proc.determinism := by
  obtain ⟨hp, hproc⟩ := findProc?_eq_some.1 hr
  obtain ⟨p', hp', hdecl⟩ := h.decls.findPred? hp
  have hlt : r.proc.index < p'.procs.size :=
    hdecl.size ▸ (Array.getElem?_eq_some_iff.1 hproc).1
  have hq := Array.getElem?_eq_getElem hlt
  have hr' : m'.findProc? r = some (p', p'.procs[r.proc.index]) := findProc?_eq_some.2 ⟨hp', hq⟩
  refine ⟨p'.scope, p'.procs, _, proc_eq_ok.2 (hr'.trans ?_),
    hdecl.modes _ _ _ hproc hq, h.determinism r _ _ ?_ ?_⟩
  · exact congrArg (fun x => some (x, p'.procs[r.proc.index])) hdecl.decl
  · rw [procAt?, hr]
    rfl
  · rw [procAt?, hr']
    rfl

end Widens

end Module

namespace Synth

theorem pred_bind (hm : Beside m e e') {f f' : Predicate → Synth β}
    (hf : ∀ p k k' procs procs', m.findPred? i = some p → p.scope.Extends k → p.scope.Extends k' →
      Steady d.Alike (f (p.widened k procs)) (f' (p.widened k' procs'))) :
    Steady d.Alike ((liftM (e.env.pred i) : Synth Predicate) >>= f)
      ((liftM (e'.env.pred i) : Synth Predicate) >>= f') := by
  refine .bind_of fun {_ t q _} hR h => ?_
  obtain ⟨hq, rfl⟩ := returns_lift.1 h
  obtain ⟨p, hp, hqp, hscope⟩ := hm.left.of_pred hq
  obtain ⟨k', procs', hq', hscope'⟩ := hm.right.pred hp
  rw [hqp]
  exact ⟨_, t, hR, returns_lift.2 ⟨hq', rfl⟩, hf p _ k' _ procs' hp hscope hscope'⟩

theorem absorb_steady (vars : VarSet) (part : Goal) :
    Steady d.Alike (absorb vars part) (absorb vars part) :=
  .get_bind fun _ _ _ _ => .pure _

theorem callGoal_steady (hm : Beside m e e') (info : GoalInfo) (callee : ProcRef) (name : SymName)
    (args : List ProgVar) :
    Steady d.Alike (callGoal e info callee name args) (callGoal e' info callee name args) := by
  refine pred_bind hm fun p k k' procs procs' hp hk hk' => .ite (fun _ => .pure _) fun _ => ?_
  exact (callWitnesses_steady hm (hm.restricted.preds hp) hk hk' args).bind
    fun _ => .pure _

theorem foreignGoal_steady (hm : Beside m e e') (info : GoalInfo) (code : ForeignCode) :
    Steady d.Alike (foreignGoal e info code) (foreignGoal e' info code) := by
  refine pred_bind hm fun p k k' procs procs' hp hk hk' => .ite (fun _ => .pure _) fun _ => ?_
  exact (callWitnesses_steady hm (hm.restricted.preds hp) hk hk' _).bind
    fun _ => .pure _

theorem genericGoal_steady (info : GoalInfo) (callee : GenericCallee) (args : List ProgVar)
    (modes : List Mode) :
    Steady d.Alike (genericGoal e info callee args modes)
      (genericGoal e' info callee args modes) := by
  cases callee with
  | closure v => exact .pure _
  | insertion p =>
    refine .ite (fun _ => .breach_bind) fun _ => .varTypes_bind fun ts hts => ?_
    exact (typeInfos_steady hts).bind fun _ => .pure _

theorem lambdaGoal_steady (info : GoalInfo) (lhs : ProgVar) (head : LambdaHead) (body : Goal)
    (kind : Unification) :
    Steady d.Alike (lambdaGoal info lhs head body kind) (lambdaGoal info lhs head body kind) :=
  .get_bind fun _ _ _ _ => .pure _

end Synth

namespace Ty

theorem mem_occurrences_of_args {t : Ty} (h : v ∈ occurrencesList t.args) : v ∈ t.occurrences := by
  cases t with
  | var w => cases h
  | defined n ts => exact h
  | tuple ts => exact h
  | higherOrder k ts => exact h

theorem mem_occurrencesList_append {us : List Ty} :
    v ∈ occurrencesList (ts ++ us) ↔ v ∈ occurrencesList ts ∨ v ∈ occurrencesList us := by
  simp only [mem_occurrencesList, mem_append, or_and_right, exists_or]

end Ty

namespace CtorDefn

variable {defn : TypeDefn} {ctor : CtorDefn}

/-- The parameters of the type and the arguments of the constructor. -/
def allTypes (defn : TypeDefn) (ctor : CtorDefn) : List Ty := defn.params.map .var ++ ctor.args

theorem map_shift_allTypes (r : Shift) :
    defn.params.map (fun v => Ty.var (r.apply v)) ++ ctor.args.map (·.shift r) =
      (allTypes defn ctor).map (·.shift r) := by
  simp [allTypes, Ty.shift, Ty.mapVars]

theorem mem_allTypes :
    v ∈ Ty.occurrencesList (allTypes defn ctor) ↔
      v ∈ defn.params ∨ v ∈ Ty.occurrencesList ctor.args := by
  rw [allTypes, mem_occurrencesList_append]
  simp [mem_occurrencesList, Ty.occurrences]

theorem WellScoped.has (h : WellScoped defn ctor)
    (hv : v ∈ Ty.occurrencesList (allTypes defn ctor)) : defn.scope.Has v :=
  (mem_allTypes.1 hv).elim (h.params v) (h.args v)

end CtorDefn

namespace Synth

theorem produceCellWitnesses_steady (hm : Beside m e e')
    (hts : ∀ w ∈ Ty.occurrencesList ts, d.Has w) (hcs : ∀ c ∈ cs, c.Over d.Has) :
    Steady d.Alike (produceCellWitnesses e ts cs context) (produceCellWitnesses e' ts cs context) :=
  (typeInfos_steady hts).bind fun _ => (dictionaries_steady hm hcs).bind fun _ => .pure _

theorem consumeCellWitnesses_steady (hm : Beside m e e')
    (hts : ∀ w ∈ Ty.occurrencesList ts, d.Has w) (cs : List Constraint) :
    Steady d.Alike (consumeCellWitnesses e ts cs) (consumeCellWitnesses e' ts cs) := by
  refine (Steady.mapM fun t ht => ?_).bind fun _ => ?_
  · split
    · next v =>
      refine .get_bind fun s k hs hk => ?_
      rw [hs.varName_eq hk (hts v (mem_occurrencesList.2 ⟨_, ht, by simp [Ty.occurrences]⟩))]
      exact (newTypeInfo_steady _).bind fun _ => (addTypeInfo_steady _ _).bind fun _ => .pure _
    · exact newTypeInfo_steady _
  · exact (Steady.mapM fun c _ => (newDictionary_steady _).bind fun _ =>
      (recordDictionary_steady hm c _).bind fun _ => .pure _).bind fun _ => .pure _

theorem consGoal_steady (hm : Beside m e e') (info : GoalInfo) (lhs : ProgVar) (name : SymName)
    (arity : Nat) (args : List ProgVar) (kind : Unification) :
    Steady d.Alike (consGoal e info lhs name arity args kind)
      (consGoal e' info lhs name arity args kind) := by
  refine .get_bind fun s k hs hk => .lift_bind fun t ht => ?_
  simp only [hm.left.findCtor?_eq, hm.right.findCtor?_eq]
  split
  · next defn ctor hctor =>
    have hc := hm.restricted.ctors hctor
    refine .ite (fun _ => .pure _) fun _ => .renameApart_bind fun r r' hbase hn hn' =>
      .varTypes_bind fun ts hts => ?_
    have hspecific : ∀ w ∈ Ty.occurrencesList (t.args ++ ts), d.Has w := by
      intro w hw
      rcases mem_occurrencesList_append.1 hw with hw | hw
      · exact hs.types lhs t ht w (mem_occurrences_of_args hw)
      · exact hts w hw
    simp only [CtorDefn.map_shift_allTypes]
    cases hmatch : Subst.ofMatch ((CtorDefn.allTypes defn ctor).map (·.shift r)) (t.args ++ ts) with
    | error err => exact .breach_bind
    | ok subst =>
      obtain ⟨subst', hmatch', hagree⟩ := ofMatch_shift_agree r' hmatch
        (fun v hv => ⟨hn ▸ hc.has hv, hn' ▸ hc.has hv⟩) fun v hv => hbase v (hspecific v hv)
      obtain ⟨cs, hcs, hcs', hcsover⟩ := hagree.constraints ctor.constraints
        fun c h v hv => CtorDefn.mem_allTypes.2 (hc.constraints c h v hv)
      obtain ⟨us, hus, hus', husover⟩ := hagree.vars
        (ctor.existVars.filter fun v => !(Constraint.typeVarsList ctor.constraints).contains v)
        fun v hv => CtorDefn.mem_allTypes.2 (.inr (hc.existVars v (mem_of_mem_filter hv)))
      simp only [hmatch', hcs, hcs', hus, hus', pure_bind, ofOption]
      split
      · exact (produceCellWitnesses_steady hm
          (fun w hw => hspecific w (husover w hw))
          fun c hc v hv => hspecific v (hcsover c hc v hv)).bind fun _ => .pure _
      · exact (consumeCellWitnesses_steady hm (fun w hw => hspecific w (husover w hw)) cs).bind
          fun _ => .pure _
  · exact .pure _

theorem drop_of_suffix {as bs : List Mode} (h : as <:+ bs) {n : Nat} (hn : n ≤ as.length) :
    bs.drop (bs.length - n) = as.drop (as.length - n) := by
  obtain ⟨cs, rfl⟩ := h
  rw [length_append, Nat.add_sub_assoc hn, drop_length_add_append]

theorem length_args_of_callGoal (he : m.Widens e.env) {info : GoalInfo} {name : SymName}
    (hp : m.findPred? callee.pred = some p) (hz : p.witnessCount ≠ 0) {s s' : WitnessState}
    {g : Goal} (h : Returns (callGoal e info callee name args) s g s') :
    args.length = p.argTypes.length := by
  obtain ⟨q, hq, h⟩ := callGoal_cases h
  obtain ⟨p', hp', hdecl, -⟩ := he.of_pred hq
  obtain rfl : p = p' := Option.some.inj (hp.symm.trans hp')
  rw [hdecl] at h
  rcases h with ⟨hz', -⟩ | ⟨-, w, parts, hcall, -⟩
  · exact absurd hz' hz
  · exact hcall.arity

section

variable (hm : Beside m e e')

include hm

theorem proc_bind {f f' : Predicate × Procedure → Synth β}
    (hf : ∀ p k k' procs procs' proc q q', m.findProc? r = some (p, proc) →
      proc.modes <:+ q.modes → proc.modes <:+ q'.modes → q'.determinism = q.determinism →
        Steady d.Alike (f (p.widened k procs, q)) (f' (p.widened k' procs', q')))
    :
    Steady d.Alike ((liftM (e.env.proc r) : Synth (Predicate × Procedure)) >>= f)
      ((liftM (e'.env.proc r) : Synth (Predicate × Procedure)) >>= f') := by
  refine .bind_of fun {_ t x _} hR h => ?_
  obtain ⟨hx, rfl⟩ := returns_lift.1 h
  obtain ⟨p, proc, hproc⟩ := hm.left.decls.of_findProc? (Module.proc_eq_ok.1 hx)
  obtain ⟨k₁, procs, q, hq, hmodes, hdet⟩ := hm.left.proc hproc
  obtain ⟨k₂, procs', q', hq', hmodes', hdet'⟩ := hm.right.proc hproc
  obtain rfl : x = _ := Except.ok.inj (hx.symm.trans hq)
  exact ⟨_, t, hR, returns_lift.2 ⟨hq', rfl⟩, hf p k₁ k₂ procs procs' proc q q' hproc hmodes
    hmodes' (hdet'.trans hdet.symm)⟩

/-- The lambda expression of a closure takes the last modes of the procedure,
    which are declared ones as far as the call that it makes can be made. -/
theorem closure_steady (info : GoalInfo) (lhs : ProgVar) (callee : ProcRef) (args : List ProgVar)
    (kind : Unification) :
    Steady d.Alike (unifyGoal e info lhs (.functor (.closure callee) args) kind)
      (unifyGoal e' info lhs (.functor (.closure callee) args) kind) := by
  refine pred_bind hm fun p k k' procs procs' hp hk hk' => .ite (fun _ => .pure _) fun hz => ?_
  simp only [closureLambda, bind_assoc]
  refine proc_bind hm fun p' _ _ _ _ proc q q' hproc hmodes hmodes' hdet => ?_
  obtain ⟨hp', hproc⟩ := Module.findProc?_eq_some.1 hproc
  obtain rfl : p = p' := Option.some.inj (hp.symm.trans hp')
  have harity : proc.modes.length = p.argTypes.length :=
    (hm.restricted.preds hp).modes proc (Array.mem_of_getElem? hproc)
  refine .get_bind fun s k hs hk => .lift_bind fun t ht => ?_
  cases t with
  | var v => exact .never fun s a s₁ h => by simp at h
  | defined n ts => exact .never fun s a s₁ h => by simp at h
  | tuple ts => exact .never fun s a s₁ h => by simp at h
  | higherOrder kd ts =>
    simp only [bind_assoc]
    refine (Steady.mapM fun x hx => newVar_steady _ fun w hw => ?_).bind fun vs => ?_
    · exact hs.types lhs _ ht w (mem_occurrencesList.2 ⟨x.1, fst_mem_of_mem_zipIdx hx, hw⟩)
    by_cases hq : q.modes.length < vs.length
    · rw [if_pos hq, bind_assoc]
      exact .breach_bind
    rw [if_neg hq, pure_bind]
    by_cases hlen : vs.length ≤ proc.modes.length
    · rw [if_neg (Nat.not_lt.2 (Nat.le_trans hlen hmodes'.length_le)), pure_bind,
        drop_of_suffix hmodes hlen, drop_of_suffix hmodes' hlen, hdet]
      exact (callGoal_steady hm _ _ _ _).bind fun _ => lambdaGoal_steady _ _ _ _ _
    · -- The call that the lambda expression makes has more arguments than the
      -- procedure.
      refine .never fun s a s₁ h => ?_
      obtain ⟨_, _, hcall, -⟩ := returns_bind.1 h
      have hargs : (args ++ vs).length = p.argTypes.length :=
        length_args_of_callGoal hm.left hp hz hcall
      rw [length_append] at hargs
      omega

theorem unifyGoal_steady (info : GoalInfo) (lhs : ProgVar) (rhs : UnifyRhs) (kind : Unification) :
    Steady d.Alike (unifyGoal e info lhs rhs kind) (unifyGoal e' info lhs rhs kind) := by
  cases rhs with
  | var v =>
    cases kind with
    | complicated canFail old =>
      refine .get_bind fun s k hs hk => .lift_bind fun t ht => ?_
      refine (Steady.mapM fun v hv => typeVarHolder_steady ?_).bind fun _ => .pure _
      exact hs.types lhs t ht v (mem_typeVars.1 hv)
    | construct v f args => exact .pure _
    | deconstruct v f args canFail => exact .pure _
    | assign target source => exact .pure _
    | test left right => exact .pure _
  | functor symbol args =>
    cases symbol with
    | closure callee => exact closure_steady hm info lhs callee args kind
    | cons name arity => exact consGoal_steady hm info lhs name arity args kind
    | _ => exact .pure _

end

mutual

theorem goal_steady (hm : Beside m e e') :
    ∀ g : Goal, Steady d.Alike (goal e g) (goal e' g)
  | .conj info kind gs => by
    rw [goal, goal]
    exact (goals_steady hm _ gs).bind fun _ => .pure _
  | .disj info gs => by
    rw [goal, goal]
    exact (goals_steady hm _ gs).bind fun _ => .pure _
  | .switch info v canFail cases => by
    rw [goal, goal]
    exact (arms_steady hm _ cases).bind fun _ => .pure _
  | .negation info g => by
    rw [goal, goal]
    exact (goal_steady hm g).bind fun _ => (absorb_steady _ _).bind fun _ => .pure _
  | .ite info locals c y n => by
    rw [goal, goal]
    refine (goal_steady hm c).bind fun _ => (absorb_steady _ _).bind fun _ => ?_
    refine (goal_steady hm y).bind fun _ => (absorb_steady _ _).bind fun _ => ?_
    exact (goal_steady hm n).bind fun _ => (absorb_steady _ _).bind fun _ => .pure _
  | .scope info reason g => by
    rw [goal, goal]
    exact (goal_steady hm g).bind fun _ => (absorb_steady _ _).bind fun _ => .pure _
  | .call info callee name args => by
    rw [goal, goal]
    exact callGoal_steady hm info callee name args
  | .genericCall info callee args modes => by
    rw [goal, goal]
    exact genericGoal_steady info callee args modes
  | .foreign info code => by
    rw [goal, goal]
    exact foreignGoal_steady hm info code
  | .unify info lhs rhs kind => by
    rw [goal, goal]
    exact unifyGoal_steady hm info lhs rhs kind
  | .lambda info lhs head body kind => by
    rw [goal, goal]
    exact (goal_steady hm body).bind fun _ => lambdaGoal_steady info lhs head _ kind

theorem goals_steady (hm : Beside m e e') :
    ∀ (vars : VarSet) (gs : List Goal), Steady d.Alike (goals e vars gs) (goals e' vars gs)
  | vars, [] => by
    rw [goals, goals]
    exact .pure _
  | vars, g :: gs => by
    rw [goals, goals]
    exact (goal_steady hm g).bind fun _ => (absorb_steady _ _).bind fun _ =>
      (goals_steady hm _ gs).bind fun _ => .pure _

theorem arms_steady (hm : Beside m e e') :
    ∀ (vars : VarSet) (cases : List (Symbol × Goal)),
      Steady d.Alike (arms e vars cases) (arms e' vars cases)
  | vars, [] => by
    rw [arms, arms]
    exact .pure _
  | vars, (s, g) :: rest => by
    rw [arms, arms]
    exact (goal_steady hm g).bind fun _ => (absorb_steady _ _).bind fun _ =>
      (arms_steady hm _ rest).bind fun _ => .pure _

end

/-- A procedure gets the same head, body and witnesses in both scopes. -/
theorem procedure_steady (hm : Beside m e e') (hp : m.findPred? i = some p) (proc : Procedure) :
    Steady p.scope.Alike (procedure e (p.widened k procs) proc)
      (procedure e' (p.widened k' procs') proc) := by
  have hps := hm.restricted.preds hp
  refine Steady.bind_of_returns (setupHead_steady (p := p) hm hps.argTypes proc)
    fun {s head s₁} (hhead : Returns (setupHead e p proc) s head s₁) => ?_
  obtain ⟨parts, hparts⟩ := setupHead_cases hhead
  refine .ite (fun _ => .pure _) fun _ => (goal_steady hm proc.body).bind fun _ => ?_
  refine (produceExistentials_steady (p := p) hm (fun c hc v hv => ?_) _
    fun v hv => ?_).bind fun _ => .get_bind fun s k _ _ => ?_
  · exact hps.argTypes v (hps.constraints c (mem_append_right _ hc) v hv)
  · exact hps.argTypes v (mem_argTypes_of_bare (.inr (hparts.existVars ▸ hv)))
  · exact .ite (fun _ => .pure _) fun _ => .pure _

end Synth

end Clausal
