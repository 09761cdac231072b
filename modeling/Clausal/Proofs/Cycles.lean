import Clausal.Proofs.Descriptions
import Clausal.Proofs.Matching
import Clausal.Proofs.Renumbering
import Clausal.Proofs.Setup

/-!
# Searches come to an end

The proofs that a search for dictionaries follows can lead back to where they start
from, and instances bring further proofs with them, which stand in for those that
were there. A search ends all the same: what is being made is not made again on the
way, so no search is deeper than there are constraints with proofs. How it ends is
read off the proofs. It finds a cycle only where there is one, and it finds what it
is asked for if there is no cycle and, for each constraint that it meets, a proof is
there by then and each proof that can stand there is one of the constraint.

That there is a proof of each constraint at some time is not enough
(`OrderedLists.asked_too_early`).
-/

namespace Clausal

open List Assoc Option Constraint

variable {needs : List Constraint} {S : Finset Constraint} {s' t' : WitnessState} {cause : Breach}
  {brings : List (Constraint × ConstraintProof)} {more : List Constraint} {n depth : Nat}
  {sub : Constraint}

/-! ### Where proofs lead -/

/-- Instance number `n` proves a constraint, with `f v` in the place of each of its
    variables `v`. -/
structure Module.Applies (m : Module) (c : Constraint) (n : Nat) (inst : InstanceDefn)
    (cls : ClassDefn) (f : TypeVar → Ty) : Prop where
  instance_eq : m.instance? c.classId n = some inst
  class_eq : m.classes.find? c.classId = some cls
  args_eq : Ty.mapVarsList f inst.types = c.args

/-- What a proof of the constraint `c` needs, and which proofs it brings with it. An
    instance needs its constraints and the superclass constraints of `c`. -/
inductive Module.Uses (m : Module) (c : Constraint) :
    ConstraintProof → List Constraint → List (Constraint × ConstraintProof) → Prop
  | byInstance {n : Nat} {inst : InstanceDefn} {cls : ClassDefn} {f : TypeVar → Ty}
      (applies : m.Applies c n inst cls f) :
      Uses m c (.byInstance n) (inst.constraints.map (·.mapVars f) ++ cls.supersOf c.args)
        (inst.proofs.toList.map fun e => (e.1.mapVars f, e.2.mapVars f))
  | bySuperclass (sub : Constraint) : Uses m c (.bySuperclass sub) [sub] []

/-- The proof is one of the constraint: by an instance that matches, or by a parent
    of which it is a superclass constraint. -/
def Module.Proves (m : Module) (c : Constraint) : ConstraintProof → Prop
  | .byInstance n => ∃ inst cls f, m.Applies c n inst cls f
  | .bySuperclass sub => ∃ cls, m.classes.find? sub.classId = some cls ∧ c ∈ cls.supersOf sub.args

namespace WitnessState

/-- There is no dictionary of the constraint on record. -/
def Lacks (s : WitnessState) (c : Constraint) : Prop := s.witnesses.dictionaries.find? c = none

/-- The proofs that a search from `s` can come to have: those of the state, and
    those that the instances bring with them which are used. -/
inductive CanRecord (m : Module) (s : WitnessState) : Constraint → ConstraintProof → Prop
  | initial {c : Constraint} {p : ConstraintProof} (found : s.proofs.find? c = some p) :
      CanRecord m s c p
  | brought {c d : Constraint} {p q : ConstraintProof} {needs : List Constraint}
      {brings : List (Constraint × ConstraintProof)} (proof : CanRecord m s c p) (lacks : s.Lacks c)
      (uses : m.Uses c p needs brings) (mem : (d, q) ∈ brings) : CanRecord m s d q

/-- A proof that there can be of `c` needs `d`. -/
def Depends (m : Module) (s : WitnessState) (c d : Constraint) : Prop :=
  s.Lacks c ∧ ∃ p needs brings, s.CanRecord m c p ∧ m.Uses c p needs brings ∧ d ∈ needs

/-- A search for the constraints `cs` comes to a constraint, and by then there are
    proofs of those in the list. -/
inductive Met (m : Module) (s : WitnessState) (cs : List Constraint) :
    List Constraint → Constraint → Prop
  | asked {c : Constraint} (mem : c ∈ cs) : Met m s cs (s.proofs.entries.map Prod.fst) c
  | needed {proved needs : List Constraint} {c d : Constraint} {p : ConstraintProof}
      {brings : List (Constraint × ConstraintProof)} (met : Met m s cs proved c) (lacks : s.Lacks c)
      (proof : s.CanRecord m c p) (uses : m.Uses c p needs brings) (mem : d ∈ needs) :
      Met m s cs (brings.map Prod.fst ++ proved) d

/-- No proof leads back, and there is a proof of what a search comes to, whichever
    one it finds. -/
structure Supplied (m : Module) (s : WitnessState) (cs : List Constraint) : Prop where
  acyclic : ∀ c, ¬ Relation.TransGen (s.Depends m) c c
  proved : ∀ proved c, s.Met m cs proved c →
    ¬ s.Lacks c ∨ c ∈ proved ∧ ∀ p, s.CanRecord m c p → m.Proves c p

/-- The proofs are about type variables of the scope. -/
def ProofsScoped (s : WitnessState) : Prop :=
  ∀ c p, s.proofs.find? c = some p → ∀ v ∈ c.occurrences ++ p.occurrences, v.index < s.scope.size

end WitnessState

variable {m : Module} {s t : WitnessState} {c d : Constraint} {p : ConstraintProof}
  {cs proved pending : List Constraint} {env : WitnessEnv} {context : Context}

theorem Assoc.mem_keys_ofList {κ ν : Type} [DecidableEq κ] {es : List (κ × ν)} {k : κ} :
    k ∈ (ofList es).entries.map Prod.fst ↔ k ∈ es.map Prod.fst := by
  have h : Assoc.firstValue k (ofList es).entries = Assoc.firstValue k es.reverse :=
    Assoc.find?_ofList es k
  rw [← firstValue_isSome, h, firstValue_isSome, map_reverse, mem_reverse]

theorem ConstraintProof.mem_occurrences_mapVars {f : TypeVar → Ty} {v : TypeVar}
    (h : v ∈ (p.mapVars f).occurrences) : ∃ w ∈ p.occurrences, v ∈ (f w).occurrences := by
  cases p with
  | byInstance n => cases h
  | bySuperclass sub => exact mem_occurrences_mapVars.1 h

theorem WitnessState.CanRecord.scoped (hm : m.WellScoped) (hs : s.ProofsScoped)
    (h : s.CanRecord m c p) : ∀ v ∈ c.occurrences ++ p.occurrences, v.index < s.scope.size := by
  induction h with
  | initial found => exact hs _ _ found
  | brought proof _ uses mem ih =>
    cases uses with
    | bySuperclass sub => cases mem
    | @byInstance n inst cls f applies =>
      obtain ⟨e, he, heq⟩ := mem_map.1 mem
      cases heq
      intro v hv
      obtain ⟨w, hw, hvw⟩ : ∃ w ∈ e.1.occurrences ++ e.2.occurrences, v ∈ (f w).occurrences := by
        rcases mem_append.1 hv with hv | hv
        · obtain ⟨w, hw, hvw⟩ := mem_occurrences_mapVars.1 hv
          exact ⟨w, mem_append_left _ hw, hvw⟩
        · obtain ⟨w, hw, hvw⟩ := ConstraintProof.mem_occurrences_mapVars hv
          exact ⟨w, mem_append_right _ hw, hvw⟩
      have hwt := (hm.instances _ _ _ applies.instance_eq).proofs e (mem_reverse.1 he) w hw
      have hva := (Ty.mem_occurrencesList_mapVarsList inst.types).2 ⟨w, hwt, hvw⟩
      rw [applies.args_eq] at hva
      exact ih v (mem_append_left _ hva)

/-! ### However a step ends -/

namespace Synth

section

variable {α β : Type} {x : Synth α} {P P' : α → WitnessState → Prop} {Q : Fault → Prop}

/-- `P` holds of what the step returns and the state it leaves, or `Q` of the fault
    that it ends with. -/
def Ends (x : Synth α) (s : WitnessState) (P : α → WitnessState → Prop) (Q : Fault → Prop) : Prop :=
  match x.run s with
  | .ok (a, s') => P a s'
  | .error e => Q e

theorem Returns.ends {a : α} (h : Returns x s a s') :
    Ends x s P Q ↔ P a s' := by
  rw [Ends, h]

theorem Ends.imp (h : Ends x s P Q) (hP : ∀ a s', P a s' → P' a s') : Ends x s P' Q := by
  unfold Ends at h ⊢
  cases hx : x.run s with
  | error e => simpa only [hx] using h
  | ok r =>
    simp only [hx] at h ⊢
    exact hP _ _ h

@[simp] theorem ends_bind {f : α → Synth β} {P : β → WitnessState → Prop} :
    Ends (x >>= f) s P Q ↔ Ends x s (fun a s₁ => Ends (f a) s₁ P Q) Q := by
  have hrun : (x >>= f).run s = x.run s >>= fun r => (f r.1).run r.2 := rfl
  unfold Ends
  rw [hrun]
  cases x.run s with
  | error e => rfl
  | ok r => rfl

@[simp] theorem ends_pure {a : α} : Ends (pure a) s P Q ↔ P a s := Iff.rfl

@[simp] theorem ends_get {P : WitnessState → WitnessState → Prop} : Ends get s P Q ↔ P s s :=
  Iff.rfl

@[simp] theorem ends_modify {f : WitnessState → WitnessState} {P : PUnit → WitnessState → Prop} :
    Ends (modify f) s P Q ↔ P ⟨⟩ (f s) :=
  Iff.rfl

@[simp] theorem ends_breach :
    Ends (breach env cause) s P Q ↔ Q (.breach env.pred cause) :=
  Iff.rfl

@[simp] theorem ends_ofOption_some {a : α} : Ends (ofOption (some a)) s P Q ↔ P a s := Iff.rfl

end

end Synth

/-! ### Searches -/

/-- A state that a search from `s` can come to, with proofs of the constraints in the
    list. -/
structure WitnessState.Reached (m : Module) (s : WitnessState) (proved : List Constraint)
    (t : WitnessState) : Prop where
  scope : s.scope.size ≤ t.scope.size
  lacks : ∀ c, t.Lacks c → s.Lacks c
  proofs : ∀ c p, t.proofs.find? c = some p → s.CanRecord m c p
  proved : ∀ c ∈ proved, ∃ p, t.proofs.find? c = some p

/-- A search comes to the constraint `c` while those in `pending` are being made. -/
structure WitnessState.Path (m : Module) (s : WitnessState) (cs pending proved : List Constraint)
    (c : Constraint) : Prop where
  pending : ∀ b ∈ pending, Relation.TransGen (s.Depends m) b c
  met : s.Met m cs proved c

theorem WitnessState.Path.step (h : s.Path m cs pending proved c) (hc : s.Lacks c)
    (hp : s.CanRecord m c p) (hu : m.Uses c p needs brings) (hd : d ∈ needs) :
    s.Path m cs (c :: pending) (brings.map Prod.fst ++ proved) d where
  pending b hb := by
    have hstep : s.Depends m c d := ⟨hc, p, needs, brings, hp, hu, hd⟩
    rcases mem_cons.1 hb with rfl | hb
    · exact .single hstep
    · exact (h.pending b hb).tail hstep
  met := .needed h.met hc hp hu hd

/-- The fault that a search ends with is a breach. If it is a cycle, there is one,
    and there is none if all is supplied. -/
structure Blamed (env : WitnessEnv) (s : WitnessState) (cs : List Constraint) (e : Fault) :
    Prop where
  breach : ∃ cause, e = .breach env.pred cause ∧
    ∀ k c, cause = .cyclicProof k c → Relation.TransGen (s.Depends env.env) c c
  unsupplied : ¬ s.Supplied env.env cs

theorem Blamed.of_breach (h : ∀ k c, cause ≠ .cyclicProof k c) (hs : ¬ s.Supplied env.env cs) :
    Blamed env s cs (.breach env.pred cause) :=
  ⟨⟨cause, rfl, fun k c hc => absurd hc (h k c)⟩, hs⟩

theorem WitnessState.Reached.of_eq (h : s.Reached m proved t) (hscope : t'.scope = t.scope)
    (hproofs : t'.proofs = t.proofs) (hlacks : ∀ c, t'.Lacks c → t.Lacks c) :
    s.Reached m proved t' where
  scope := hscope ▸ h.scope
  lacks c hc := h.lacks c (hlacks c hc)
  proofs := hproofs ▸ h.proofs
  proved := hproofs ▸ h.proved

theorem WitnessState.Reached.of_append (h : s.Reached m (more ++ proved) t) :
    s.Reached m proved t :=
  ⟨h.scope, h.lacks, h.proofs, fun c hc => h.proved c (mem_append_right _ hc)⟩

theorem WitnessState.Reached.enter (h : s.Reached m proved t) (hc : s.Lacks c)
    (hp : s.CanRecord m c p) {es : List (Constraint × ConstraintProof)}
    {g : Constraint × ConstraintProof → Constraint × ConstraintProof}
    (hu : m.Uses c p needs (es.map g)) (hg : ∀ e e', e.1 = e'.1 → (g e).1 = (g e').1)
    (other : TypeScope) :
    s.Reached m ((es.map g).map Prod.fst ++ proved) ((t.mergeScope other).addProofs
      (Assoc.ofList ((Assoc.ofList es).toList.map g))) where
  scope := by
    show _ ≤ (t.scope.merge other).2.size
    rw [TypeScope.size_merge]
    exact h.scope.trans (Nat.le_add_right ..)
  lacks := h.lacks
  proofs d q hd := by
    rcases WitnessState.of_find?_addProofs _ hd with hd | hd
    · obtain ⟨e, he, heq⟩ := mem_map.1 (mem_entries_ofList hd)
      exact .brought hp hc hu (mem_map.2
        ⟨e, mem_entries_ofList (mem_reverse.1 he), heq⟩)
    · exact h.proofs d q hd
  proved d hd := by
    refine isSome_iff_exists.1 ?_
    show ((t.proofs.shadowMany _).find? d).isSome
    rw [Assoc.find?_shadowMany, isSome_or, Bool.or_eq_true, Assoc.toList,
      reverse_reverse, firstValue_isSome, mem_keys_ofList]
    refine (mem_append.1 hd).imp (fun hd => ?_) fun hd =>
      isSome_iff_exists.2 (h.proved d hd)
    -- Of entries with the same key the last one is left, and its key is the same.
    obtain ⟨_, hx, rfl⟩ := mem_map.1 hd
    obtain ⟨e, he, rfl⟩ := mem_map.1 hx
    obtain ⟨e', he', heq⟩ := mem_map.1 (mem_keys_ofList.2 (mem_map_of_mem he))
    exact mem_map.2 ⟨g e', mem_map_of_mem (mem_reverse.2 he'), hg _ _ heq⟩

namespace Synth

variable {resolve : Constraint → Synth (ProgVar × List Goal)}

/-- However a search for a constraint that it comes to ends, what is known of the
    state stays so, or the fault is to be blamed on the proofs. -/
def Searches (env : WitnessEnv) (s : WitnessState) (cs pending : List Constraint)
    (resolve : Constraint → Synth (ProgVar × List Goal)) : Prop :=
  ∀ proved c t, s.Path env.env cs pending proved c → s.Reached env.env proved t →
    Ends (resolve c) t (fun _ t' => s.Reached env.env proved t') (Blamed env s cs)

theorem Searches.collect (hr : Searches env s cs pending resolve) {ds : List Constraint}
    (hds : ∀ d ∈ ds, s.Path env.env cs pending proved d) (ht : s.Reached env.env proved t) :
    Ends (collect resolve ds) t (fun _ t' => s.Reached env.env proved t') (Blamed env s cs) := by
  induction ds generalizing t with
  | nil => exact ht
  | cons d ds ih =>
    simp only [Synth.collect, ends_bind]
    refine (hr _ _ _ (hds d mem_cons_self) ht).imp fun r t₁ ht₁ => ?_
    exact (ih (fun b hb => hds b (mem_cons_of_mem _ hb)) ht₁).imp fun _ _ h => h

theorem Searches.ofInstance (hm : env.env.WellScoped) (hs : s.ProofsScoped)
    (hr : Searches env s cs (c :: pending) resolve) (hpath : s.Path env.env cs pending proved c)
    (hc : s.Lacks c) (hp : s.CanRecord env.env c (.byInstance n))
    (ht : s.Reached env.env proved t) :
    Ends (instanceDictionary env context resolve c n) t
      (fun _ t' => s.Reached env.env proved t') (Blamed env s cs) := by
  have hover : ∀ v ∈ Ty.occurrencesList c.args, v.index < s.scope.size :=
    fun v hv => hp.scoped hm hs v (mem_append_left _ hv)
  have hnot (h : ¬ env.env.Proves c (.byInstance n)) : ¬ s.Supplied env.env cs := fun hall =>
    (hall.proved _ _ hpath.met).elim (fun hl => hl hc) fun hall => h (hall.2 _ hp)
  unfold instanceDictionary
  cases hinst : env.env.instance? c.classId n with
  | none =>
    have hi : ((env.env.instances.find? c.classId).getD [])[n]? = none := hinst
    simp only [hi, ends_breach]
    refine .of_breach (fun _ _ => by simp) (hnot ?_)
    rintro ⟨inst, cls, f, ha⟩
    cases hinst.symm.trans ha.instance_eq
  | some inst =>
    have hi : ((env.env.instances.find? c.classId).getD [])[n]? = some inst := hinst
    have hwell := hm.instances _ _ _ hinst
    simp only [hi, findClass]
    cases hcls : env.env.classes.find? c.classId with
    | none =>
      refine .of_breach (fun _ _ => by simp) (hnot ?_)
      rintro ⟨inst, cls, f, ha⟩
      cases hcls.symm.trans ha.class_eq
    | some cls =>
      obtain ⟨hclass, hlen⟩ := hm.classes _ _ hcls
      simp only [ends_bind, ends_pure, (returns_renameApart.2 ⟨rfl, rfl⟩).ends]
      cases hmatch : Subst.ofMatch (inst.types.map (·.shift (t.scope.shiftOf inst.scope)))
          c.args with
      | error e =>
        simp only [ends_bind, ends_get, ends_breach]
        refine .of_breach (fun _ _ => by simp) (hnot ?_)
        rintro ⟨inst', cls', f, ha⟩
        cases hinst.symm.trans ha.instance_eq
        obtain ⟨subst, hsubst⟩ := (Subst.ofMatch_isOk_iff (inst.types.map
          (·.shift (t.scope.shiftOf inst.scope))) c.args).2 ⟨fun w => f ⟨w.index - t.scope.size⟩, by
            rw [Shift.map_shift, ← ha.args_eq]
            exact Shift.mapVarsList_renumbered (r := t.scope.shiftOf inst.scope) hwell.types⟩
        cases hmatch.symm.trans hsubst
      | ok subst =>
        obtain ⟨hidem, hargs, -⟩ := Subst.ofMatch_shift hmatch hwell.types
          fun v hv => (hover v hv).trans_le ht.scope
        have hu : env.env.Uses c (.byInstance n) _ _ := .byInstance ⟨hinst, hcls, hargs⟩
        have hkeys : ∀ e ∈ inst.proofs.entries,
            e.1.Over fun v => v.index < (t.scope.shiftOf inst.scope).count := fun e he v hv =>
          hwell.types v (hwell.proofs e he v (mem_append_left _ hv))
        simp only [ends_pure, ends_bind, ends_modify, ends_get, ProofMap.shift_subst? hidem hkeys,
          mapM_eq_some_map fun d _ => shift_subst? hidem _ d, ends_ofOption_some]
        have ht₀ := ht.enter hc hp hu (fun e e' h => by rw [h]) inst.scope
        refine (hr.collect (fun d hd => hpath.step hc hp hu (mem_append_left _ hd)) ht₀).imp
          fun r₁ t₁ ht₁ => ?_
        rw [ClassDefn.supersAt?_eq_some hclass hlen fun v hv => (hover v hv).trans_le ht₁.scope]
        refine (hr.collect (fun d hd => hpath.step hc hp hu (mem_append_right _ hd)) ht₁).imp
          fun r₂ t₂ ht₂ => ?_
        obtain ⟨⟨ts, goals⟩, t₃, h₃⟩ := typeInfos_return context c.args t₂
        obtain ⟨hscope, hproofs, hdicts⟩ := (typeInfos_describing _ h₃).keeps
        rw [h₃.ends]
        refine ht₂.of_append.of_eq hscope hproofs fun b hb => ?_
        rw [WitnessState.Lacks, ← hdicts]
        exact hb

theorem Searches.ofSuperclass (hm : env.env.WellScoped) (hs : s.ProofsScoped)
    (hr : Searches env s cs (c :: pending) resolve) (hpath : s.Path env.env cs pending proved c)
    (hc : s.Lacks c) (hp : s.CanRecord env.env c (.bySuperclass sub))
    (ht : s.Reached env.env proved t) :
    Ends (superclassDictionary env context resolve c sub) t
      (fun _ t' => s.Reached env.env proved t') (Blamed env s cs) := by
  have hnot (h : ¬ env.env.Proves c (.bySuperclass sub)) : ¬ s.Supplied env.env cs := fun hall =>
    (hall.proved _ _ hpath.met).elim (fun hl => hl hc) fun hall => h (hall.2 _ hp)
  have hu : env.env.Uses c (.bySuperclass sub) [sub] [] := .bySuperclass sub
  simp only [superclassDictionary, ends_bind]
  refine (hr proved sub t (hpath.step hc hp hu mem_cons_self) ht).imp fun r₁ t₁ ht₁ => ?_
  unfold findClass
  cases hcls : env.env.classes.find? sub.classId with
  | none =>
    refine .of_breach (fun _ _ => by simp) (hnot ?_)
    rintro ⟨cls, hcls', -⟩
    cases hcls.symm.trans hcls'
  | some cls =>
    obtain ⟨hclass, hlen⟩ := hm.classes _ _ hcls
    simp only [ends_pure, ends_get, ClassDefn.supersAt?_eq_some hclass hlen fun v hv =>
      (hp.scoped hm hs v (mem_append_right _ hv)).trans_le ht₁.scope, ends_ofOption_some]
    cases hpos : (cls.supersOf sub.args).findIdx? (· == c) with
    | none =>
      refine .of_breach (fun _ _ => by simp) (hnot ?_)
      rintro ⟨cls', hcls', hmem⟩
      cases hcls.symm.trans hcls'
      simpa using List.findIdx?_eq_none_iff.1 hpos c hmem
    | some i => exact ht₁.of_eq rfl rfl fun _ hb => hb

/-- A search ends, if it may go as deep as there are constraints with proofs that are
    not pending. -/
theorem dictionaryWithin_ends (hm : env.env.WellScoped) (hs : s.ProofsScoped)
    (hS : ∀ c p, s.CanRecord env.env c p → c ∈ S) (hnodup : pending.Nodup)
    (hpending : ∀ c ∈ pending, c ∈ S) (hdepth : S.card ≤ depth + pending.length) :
    Searches env s cs pending (dictionaryWithin env context depth pending) := by
  induction depth using Nat.strong_induction_on generalizing pending with
  | _ depth ih =>
    intro proved c t hpath ht
    unfold dictionaryWithin
    simp only [ends_bind, ends_get]
    cases hlacks : t.witnesses.dictionaries.find? c with
    | some v => exact ht
    | none =>
      have hc : s.Lacks c := ht.lacks c hlacks
      by_cases hmem : c ∈ pending
      · -- Each pending constraint leads to the one that is met, so this one to itself.
        have hcycle := hpath.pending c hmem
        simp only [hmem, if_true, ends_bind, ends_breach]
        exact ⟨⟨_, rfl, fun k b hb => by cases hb; exact hcycle⟩, fun hall => hall.acyclic c hcycle⟩
      · simp only [hmem, if_false]
        cases hproof : t.proofs.find? c with
        | none =>
          refine .of_breach (fun _ _ => by simp) fun hall => ?_
          rcases hall.proved _ _ hpath.met with hl | ⟨hc, -⟩
          · exact hl hc
          · obtain ⟨p, hp⟩ := ht.proved c hc
            cases hproof.symm.trans hp
        | some p =>
          have hp := ht.proofs c p hproof
          have hnew : (c :: pending).Nodup := nodup_cons.2 ⟨hmem, hnodup⟩
          have hsub : ∀ b ∈ c :: pending, b ∈ S := forall_mem_cons.2 ⟨hS c p hp, hpending⟩
          have hcard : (c :: pending).length ≤ S.card := by
            rw [← toFinset_card_of_nodup hnew]
            exact Finset.card_le_card fun b hb => hsub b (mem_toFinset.1 hb)
          rw [length_cons] at hcard
          cases depth with
          | zero => omega
          | succ depth =>
            have hr := @ih depth (Nat.lt_succ_self _) (c :: pending) hnew hsub
              (by rw [length_cons]; omega)
            have hrecord : ∀ (r : ProgVar × List Goal) t', s.Reached env.env proved t' →
                Ends (do putDictionary c r.1; return (r.1, r.2)) t'
                  (fun _ t' => s.Reached env.env proved t') (Blamed env s cs) := fun r t' ht' =>
              ht'.of_eq rfl rfl fun b hb => by
                have hb : (t'.witnesses.dictionaries.insert c r.1).find? b = none := hb
                rw [Assoc.find?_insert] at hb
                split at hb
                · cases hb
                · exact hb
            cases p with
            | byInstance n =>
              exact ends_bind.2 ((hr.ofInstance hm hs hpath hc hp ht).imp hrecord)
            | bySuperclass sub =>
              exact ends_bind.2 ((hr.ofSuperclass hm hs hpath hc hp ht).imp hrecord)

/-! ### Requests -/

/-- A request for the constraints `cs` ends, either with what it was asked for or
    with a breach. The breach is a cycle only where there is one, and there is none
    at all if everything is supplied. -/
structure Settles {α : Type} (env : WitnessEnv) (s : WitnessState) (cs : List Constraint)
    (x : Synth α) : Prop where
  ends : (∃ r s', Returns x s r s') ∨ ∃ cause, x.run s = .error (.breach env.pred cause)
  cycle : ∀ k c, x.run s = .error (.breach env.pred (.cyclicProof k c)) →
    Relation.TransGen (s.Depends env.env) c c
  returns : s.Supplied env.env cs → ∃ r s', Returns x s r s'

theorem Ends.settles {α : Type} {x : Synth α} {P : α → WitnessState → Prop}
    (h : Ends x s P (Blamed env s cs)) : Settles env s cs x := by
  unfold Ends at h
  cases hx : x.run s with
  | ok r =>
    have hr : ∃ r s', Returns x s r s' := ⟨r.1, r.2, hx⟩
    exact ⟨.inl hr, fun k c hc => (by cases hx.symm.trans hc), fun _ => hr⟩
  | error e =>
    simp only [hx] at h
    obtain ⟨⟨cause, rfl, hcycle⟩, hs⟩ := h
    refine ⟨.inr ⟨cause, hx⟩, fun k c hc => ?_, fun hall => absurd hall hs⟩
    cases hx.symm.trans hc
    exact hcycle k c rfl

theorem dictionariesWithin_settles (hm : env.env.WellScoped) (hs : s.ProofsScoped)
    (hS : ∀ c p, s.CanRecord env.env c p → c ∈ S) (hdepth : S.card ≤ depth) :
    Settles env s cs (dictionariesWithin env depth context cs) := by
  have hr : Searches env s cs [] (dictionaryWithin env context depth []) :=
    dictionaryWithin_ends hm hs hS .nil (fun _ hc => by cases hc) hdepth
  have hstart : s.Reached env.env (s.proofs.entries.map Prod.fst) s :=
    ⟨le_rfl, fun _ h => h, fun _ _ => .initial, fun c hc =>
      isSome_iff_exists.1 (firstValue_isSome.2 hc)⟩
  refine Ends.settles (P := fun _ _ => True) ?_
  simp only [dictionariesWithin, ends_bind, ends_get, ends_modify, ends_pure]
  exact (hr.collect (fun c hc => ⟨fun _ hb => (by cases hb), .asked hc⟩) hstart).imp
    fun _ _ _ => trivial

theorem dictionaries_settle (hm : env.env.WellScoped) (hs : s.ProofsScoped)
    (hS : ∀ c p, s.CanRecord env.env c p → c ∈ S)
    (hdepth : S.card ≤ s.proofs.entries.length + instanceProofCount env.env + depthLimit) :
    Settles env s cs (dictionaries env context cs) := by
  have hrun : (dictionaries env context cs).run s = (dictionariesWithin env
      (s.proofs.entries.length + instanceProofCount env.env + depthLimit) context cs).run s := by
    simp only [dictionaries, StateT.run_bind, StateT.run_get, pure_bind]
  obtain ⟨hends, hcycle, hreturns⟩ := dictionariesWithin_settles hm hs hS hdepth
  constructor
  · simpa only [Returns, hrun] using hends
  · simpa only [hrun] using hcycle
  · simpa only [Returns, hrun] using hreturns

/-- Whatever the proofs, a request comes to an end. Let `S` be a finite set of
    constraints, among them all those of which there can be a proof. Then a search that
    may be as deep as `S` has members returns dictionaries or ends with a breach. It
    says that there is a cycle only of a constraint that depends on itself; and it
    returns if there is no cycle and a proof is there of each constraint that it
    comes to. Requests are such searches as long as `S` is not beyond the bound on
    their depth, which it is not where instances bring no proofs with them. -/
theorem searches_end (hm : env.env.WellScoped) (hs : s.ProofsScoped) (context : Context)
    (cs : List Constraint) :
    (∀ S : Finset Constraint, (∀ c p, s.CanRecord env.env c p → c ∈ S) →
      (∀ depth, S.card ≤ depth → Settles env s cs (dictionariesWithin env depth context cs)) ∧
      (S.card ≤ s.proofs.entries.length + instanceProofCount env.env + depthLimit →
        Settles env s cs (dictionaries env context cs))) ∧
    ((∀ id n inst, env.env.instance? id n = some inst → inst.proofs.entries = []) →
      Settles env s cs (dictionaries env context cs)) := by
  refine ⟨fun S hS => ⟨fun depth => dictionariesWithin_settles hm hs hS,
    dictionaries_settle hm hs hS⟩, fun hnone => ?_⟩
  have hkeys : ∀ c p, s.CanRecord env.env c p → c ∈ (s.proofs.entries.map Prod.fst).toFinset := by
    intro c p hp
    rw [List.mem_toFinset]
    cases hp with
    | initial found => exact Assoc.firstValue_isSome.1 (Option.isSome_iff_exists.2 ⟨p, found⟩)
    | brought proof _ uses mem =>
      cases uses with
      | bySuperclass sub => cases mem
      | byInstance applies =>
        rw [Assoc.toList, hnone _ _ _ applies.instance_eq] at mem
        cases mem
  have hcard := (s.proofs.entries.map Prod.fst).toFinset_card_le
  rw [List.length_map] at hcard
  exact dictionaries_settle hm hs hkeys (by omega)

end Synth

/-! ### Asking too early -/

namespace OrderedLists

/-- Integers have an order, and the instance proves that they have an equality. -/
def integers : Module :=
  { orders with
    instances := .ofList [
      ((eq .int).classId, [⟨.unqualified "order", [], [.int], .empty, ∅⟩]),
      ((ord .int).classId, [⟨.unqualified "order", [], [.int], .empty,
        .ofList [(eq .int, .byInstance 0)]⟩])] }

/-- The order of the integers is by the instance. -/
def orderState : WitnessState where
  vars := ⟨#[]⟩
  scope := .empty
  proofs := .ofList [(ord .int, .byInstance 0)]

theorem wellScoped_integers : integers.WellScoped :=
  .of_entries (by decide +kernel) (by decide +kernel)

theorem uses_integers (hc : c = ord .int ∨ c = eq .int)
    (h : integers.Uses c (.byInstance 0) needs brings) :
    (c = ord .int ∧ needs = [eq .int] ∧ brings = [(eq .int, .byInstance 0)]) ∨
      (c = eq .int ∧ needs = [] ∧ brings = []) := by
  obtain @⟨_, inst, cls, f, hinst, hcls, -⟩ := h
  rcases hc with rfl | rfl
  · cases hinst
    cases hcls
    exact .inl ⟨rfl, rfl, rfl⟩
  · cases hinst
    cases hcls
    exact .inr ⟨rfl, rfl, rfl⟩

theorem canRecord_integers (h : orderState.CanRecord integers c p) :
    (c = ord .int ∨ c = eq .int) ∧ p = .byInstance 0 := by
  induction h with
  | initial found =>
    have := mem_entries_ofList (mem_of_firstValue found)
    simp only [mem_cons, not_mem_nil, or_false, Prod.mk.injEq] at this
    exact ⟨.inl this.1, this.2⟩
  | brought _ _ uses mem ih =>
    obtain ⟨hc, rfl⟩ := ih
    rcases uses_integers hc uses with ⟨-, -, rfl⟩ | ⟨-, -, rfl⟩
    · cases mem_singleton.1 mem
      exact ⟨.inr rfl, rfl⟩
    · cases mem

theorem depends_integers (h : orderState.Depends integers c d) :
    c = ord .int ∧ d = eq .int := by
  obtain ⟨-, p, needs, brings, hp, hu, hd⟩ := h
  obtain ⟨hc, rfl⟩ := canRecord_integers hp
  rcases uses_integers hc hu with ⟨rfl, rfl, -⟩ | ⟨rfl, rfl, -⟩
  · exact ⟨rfl, mem_singleton.1 hd⟩
  · cases hd

theorem acyclic_integers (c : Constraint) :
    ¬ Relation.TransGen (orderState.Depends integers) c c := by
  intro h
  obtain ⟨b, hb, -⟩ := Relation.TransGen.head'_iff.1 h
  obtain ⟨d, -, hd⟩ := Relation.TransGen.tail'_iff.1 h
  have := (depends_integers hb).1.symm.trans (depends_integers hd).2
  exact absurd this (by decide)

theorem proves_integers (hc : c = ord .int ∨ c = eq .int) :
    integers.Proves c (.byInstance 0) := by
  rcases hc with rfl | rfl <;> exact ⟨_, _, .var, rfl, rfl, rfl⟩

theorem met_integers (h : orderState.Met integers [ord .int] proved c) :
    (c = ord .int ∨ c = eq .int) ∧ c ∈ proved := by
  induction h with
  | asked mem =>
    obtain rfl := mem_singleton.1 mem
    exact ⟨.inl rfl, by decide⟩
  | needed _ _ proof uses mem ih =>
    obtain ⟨hc, rfl⟩ := canRecord_integers proof
    rcases uses_integers hc uses with ⟨-, rfl, rfl⟩ | ⟨-, rfl, -⟩
    · obtain rfl := mem_singleton.1 mem
      exact ⟨.inr rfl, mem_cons_self⟩
    · cases mem

/-- The order of the integers is found, and their equality by the proof that the
    instance of the order brings with it. -/
theorem order_found : orderState.ProofsScoped ∧ ∃ r s',
    Synth.Returns (Synth.dictionaries ⟨integers, ""⟩ {} [ord .int]) orderState r s' := by
  have hscoped : orderState.ProofsScoped := by
    intro c p hp
    obtain ⟨rfl | rfl, rfl⟩ := canRecord_integers (.initial hp) <;> decide
  refine ⟨hscoped, ((Synth.searches_end wellScoped_integers hscoped {} [ord .int]).1
    {ord .int, eq .int} fun c p hp => ?_).2 (by decide) |>.returns ⟨acyclic_integers, ?_⟩⟩
  · obtain ⟨rfl | rfl, -⟩ := canRecord_integers hp <;> decide
  · intro proved c hmet
    obtain ⟨hc, hproved⟩ := met_integers hmet
    refine .inr ⟨hproved, fun p hp => ?_⟩
    obtain ⟨-, rfl⟩ := canRecord_integers hp
    exact proves_integers hc

/-- The equality of the integers is asked for before there is a proof of it. No proof
    leads back, each constraint has a proof at some time, and each of the proofs is
    right; but the request fails. -/
theorem asked_too_early :
    (∀ c, ¬ Relation.TransGen (orderState.Depends integers) c c) ∧
    (∀ b ∈ [eq .int, ord .int], ∀ c, Relation.ReflTransGen (orderState.Depends integers) b c →
      (∃ p, orderState.CanRecord integers c p) ∧
        ∀ p, orderState.CanRecord integers c p → integers.Proves c p) ∧
    ¬ ∃ r s', Synth.Returns (Synth.dictionaries ⟨integers, ""⟩ {} [eq .int, ord .int])
      orderState r s' := by
  refine ⟨acyclic_integers, fun b hb c h => ?_, ?_⟩
  · have hc : c = ord .int ∨ c = eq .int := by
      rcases Relation.ReflTransGen.cases_tail h with rfl | ⟨d, -, hd⟩
      · simpa [or_comm] using hb
      · exact .inr (depends_integers hd).2
    have hord : orderState.CanRecord integers (ord .int) (.byInstance 0) := .initial rfl
    refine ⟨⟨.byInstance 0, ?_⟩, fun p hp => ?_⟩
    · rcases hc with rfl | rfl
      · exact hord
      · exact .brought hord rfl (.byInstance (f := .var) ⟨rfl, rfl, rfl⟩) List.mem_cons_self
    · obtain ⟨-, rfl⟩ := canRecord_integers hp
      exact proves_integers hc
  · rintro ⟨r, s', h⟩
    have hfails : ((Synth.dictionaries ⟨integers, ""⟩ {} [eq .int, ord .int]).run
        orderState).toBool = false := by decide +kernel
    rw [h] at hfails
    cases hfails

end OrderedLists

end Clausal
