import Clausal.Proofs.Captures

/-!
# Bodies that need not be quantified again

A body is not quantified again if no witnesses have come to be on record. The goals
that then stand in front of calls build everything from constants, in new variables
that a goal next to them reads, so that no goal around them has got any non-local
variables. New variables of one goal do not occur in another one, so what is visible
outside a goal stays the same as well (`Goal.Widens`). All this is of bodies in
which no unification has type-infos before: these are replaced, and the non-local
variables are kept.
-/

namespace Clausal

open List Goal WitnessMap VarTable

variable {v : ProgVar} {g g' : Goal} {a b n : Nat} {V : VarSet} {pred : Predicate} {E E' O : VarSet}

namespace Goal

variable {O O' : VarSet} {gs gs' : List Goal}

/-! ### Conjunctions -/

theorem freeVarsList_append : freeVarsList (gs ++ gs') = freeVarsList gs ∪ freeVarsList gs' := by
  ext v
  simp [mem_freeVarsList, or_and_right, exists_or]

theorem freeVarsList_flatMap_conjuncts : freeVarsList (gs.flatMap conjuncts) = freeVarsList gs := by
  induction gs with
  | nil => rfl
  | cons g gs ih =>
    have hg : freeVarsList g.conjuncts = g.freeVars := by
      unfold conjuncts
      split
      · rw [freeVars]
      · ext v; simp [freeVarsList]
    rw [flatMap_cons, freeVarsList_append, hg, ih, freeVarsList]

theorem quantifiedConj_append : QuantifiedConj O (gs ++ gs') ↔
    QuantifiedConj (O ∪ freeVarsList gs') gs ∧ QuantifiedConj (O ∪ freeVarsList gs) gs' := by
  induction gs generalizing O with
  | nil =>
    have : O ∪ freeVarsList [] = O := by ext v; simp [freeVarsList]
    simp [this, QuantifiedConj]
  | cons g gs ih =>
    have h₁ : O ∪ freeVarsList (gs ++ gs') = O ∪ freeVarsList gs' ∪ freeVarsList gs := by
      ext v; simp only [freeVarsList_append, VarSet.mem_union]; tauto
    have h₂ : O ∪ g.freeVars ∪ freeVarsList gs' = O ∪ freeVarsList gs' ∪ g.freeVars := by
      ext v; simp only [VarSet.mem_union]; tauto
    have h₃ : O ∪ g.freeVars ∪ freeVarsList gs = O ∪ freeVarsList (g :: gs) := by
      ext v; simp only [freeVarsList, VarSet.mem_union]; tauto
    simp only [cons_append, QuantifiedConj, ih, h₁, h₂, h₃, and_assoc]

theorem QuantifiedConj.flatten (h : QuantifiedConj O gs) :
    QuantifiedConj O (gs.flatMap conjuncts) := by
  induction gs generalizing O with
  | nil => exact h
  | cons g gs ih =>
    have hfree := @freeVarsList_flatMap_conjuncts [g]
    rw [flatMap_singleton] at hfree
    rw [flatMap_cons, quantifiedConj_append, freeVarsList_flatMap_conjuncts, hfree]
    have hg : O ∪ freeVarsList [g] = O ∪ g.freeVars := by ext v; simp [freeVarsList]
    refine ⟨?_, hg ▸ ih h.2⟩
    unfold conjuncts
    split
    · have hconj := h.1
      rw [Quantified] at hconj
      exact hconj.2
    · refine ⟨?_, trivial⟩
      have : O ∪ freeVarsList gs ∪ freeVarsList [] = O ∪ freeVarsList gs := by
        ext v; simp [freeVarsList]
      rw [this]
      exact h.1

theorem quantifiedArms_eq {arms : List (Symbol × Goal)} :
    QuantifiedArms O arms ↔ QuantifiedList O (arms.map Prod.snd) := by
  induction arms with
  | nil => exact Iff.rfl
  | cons arm arms ih => exact and_congr_right' ih

theorem quantified_of_isAtom (h : g.isAtom) : g.Quantified O ↔ g.Narrow O := by
  cases g with
  | call | genericCall | foreign | unify => rw [Quantified]
  | _ => cases h

theorem quantified_of_exposed (hatom : g.isAtom) (hexposed : g.info.nonlocals = g.freeVars)
    (h : ∀ v ∈ g.freeVars, v ∈ O) : g.Quantified O := by
  rw [quantified_of_isAtom hatom, Narrow, hexposed]
  ext v
  simpa using h v

theorem QuantifiedConj.each (h : QuantifiedConj O gs) : ∀ g ∈ gs, ∃ P, g.Quantified P := by
  induction gs generalizing O with
  | nil => simp
  | cons g gs ih => exact forall_mem_cons.2 ⟨⟨_, h.1⟩, ih h.2⟩

theorem QuantifiedList.each (h : QuantifiedList O gs) : ∀ g ∈ gs, ∃ P, g.Quantified P := by
  induction gs with
  | nil => simp
  | cons g gs ih => exact forall_mem_cons.2 ⟨⟨_, h.1⟩, ih h.2⟩

/-! ### Wider goals -/

/-- The variables below `n` are the same, and the others lie between `a` and `b`. -/
structure Widened (n a b : Nat) (F F' : VarSet) : Prop where
  old : ∀ v, v.index < n → (v ∈ F' ↔ v ∈ F)
  new : ∀ v ∈ F', v.index < n ∨ a ≤ v.index ∧ v.index < b

/-- The variables below `n` are the same, and none lies between `a` and `b`. -/
structure Sees (n a b : Nat) (O O' : VarSet) : Prop where
  old : ∀ v, v.index < n → (v ∈ O' ↔ v ∈ O)
  apart : ∀ v ∈ O', v.index < a ∨ b ≤ v.index

/-- The goal has got new variables between `a` and `b`. Where these are not visible
    outside, it is quantified as it was. -/
structure Widens (n a b : Nat) (g g' : Goal) : Prop where
  le : a ≤ b
  free : Widened n a b g.freeVars g'.freeVars
  quantified : ∀ O O', g.Quantified O → Sees n a b O O' → g'.Quantified O'

/-- Goals one after the other, each with new variables of its own. -/
inductive WidensAll (n : Nat) : Nat → Nat → List Goal → List Goal → Prop
  | nil {a : Nat} : WidensAll n a a [] []
  | cons {a c b : Nat} {g g' : Goal} {gs gs' : List Goal} (head : Widens n a c g g')
      (rest : WidensAll n c b gs gs') : WidensAll n a b (g :: gs) (g' :: gs')

variable {c d : Nat} {F F' : VarSet}

theorem Widened.union (h : Widened n a c F F') (h' : Widened n c b E E') (hac : a ≤ c)
    (hcb : c ≤ b) : Widened n a b (F ∪ E) (F' ∪ E') where
  old v hv := by rw [VarSet.mem_union, VarSet.mem_union, h.old v hv, h'.old v hv]
  new v hv := by
    rcases VarSet.mem_union.1 hv with hv | hv
    · have := h.new v hv; omega
    · have := h'.new v hv; omega

theorem Widened.eraseMany (h : Widened n a b F F') (vs : List ProgVar) :
    Widened n a b (F.eraseMany vs) (F'.eraseMany vs) where
  old v hv := by rw [VarSet.mem_eraseMany, VarSet.mem_eraseMany, h.old v hv]
  new v hv := h.new v (VarSet.mem_eraseMany.1 hv).1

theorem Widened.insert (h : Widened n a b F F') (hv : v.index < n) :
    Widened n a b (F.insert v) (F'.insert v) where
  old w hw := by rw [VarSet.mem_insert, VarSet.mem_insert, h.old w hw]
  new w hw := by
    rcases VarSet.mem_insert.1 hw with rfl | hw
    · exact .inl hv
    · exact h.new w hw

theorem Sees.insert (h : Sees n a b O O') (hna : n ≤ a) (hv : v.index < n) :
    Sees n a b (O.insert v) (O'.insert v) where
  old w hw := by rw [VarSet.mem_insert, VarSet.mem_insert, h.old w hw]
  apart w hw := by
    rcases VarSet.mem_insert.1 hw with rfl | hw
    · omega
    · exact h.apart w hw

theorem Sees.union (h : Sees n a b O O') (h' : Widened n c d F F') (hna : n ≤ a)
    (hap : d ≤ a ∨ b ≤ c) : Sees n a b (O ∪ F) (O' ∪ F') where
  old v hv := by rw [VarSet.mem_union, VarSet.mem_union, h.old v hv, h'.old v hv]
  apart v hv := by
    rcases VarSet.mem_union.1 hv with hv | hv
    · exact h.apart v hv
    · have := h'.new v hv; omega

theorem Sees.mono (h : Sees n a b O O') (hac : a ≤ c) (hdb : d ≤ b) : Sees n c d O O' :=
  ⟨h.old, fun v hv => by have := h.apart v hv; omega⟩

theorem Sees.eraseMany (h : Sees n a b O O') (vs : List ProgVar) :
    Sees n a b (O.eraseMany vs) (O'.eraseMany vs) where
  old v hv := by rw [VarSet.mem_eraseMany, VarSet.mem_eraseMany, h.old v hv]
  apart v hv := h.apart v (VarSet.mem_eraseMany.1 hv).1

theorem Widens.nonlocals (h : Widens n a b g g') (hna : n ≤ a) (hg : g.Quantified O) :
    ∀ v ∈ g'.info.nonlocals, v.index < n := by
  have hsees : Sees n a b O (O.filter fun v => v.index < n) :=
    ⟨fun v hv => by simp [hv], fun v hv => .inl (by simp at hv; omega)⟩
  intro v hv
  have := ((h.quantified O _ hg hsees).nonlocals_subset hv).2
  simp_all

theorem Widens.around (hle : a ≤ b) (hold : ∀ v ∈ g.freeVars, v.index < n)
    (hfree : Widened n a b g.freeVars g'.freeVars)
    (hq : ∀ O, g.Quantified O → g'.info.nonlocals = g.info.nonlocals ∧
      ∀ O', Sees n a b O O' → g'.Narrow O' → g'.Quantified O') : Widens n a b g g' := by
  refine ⟨hle, hfree, fun O O' hg hsees => ?_⟩
  obtain ⟨hsame, hinside⟩ := hq O hg
  refine hinside O' hsees ?_
  rw [Narrow, hsame, hg.narrow]
  ext v
  simp only [VarSet.mem_inter]
  constructor
  · rintro ⟨hv, ho⟩
    exact ⟨(hfree.old v (hold v hv)).2 hv, (hsees.old v (hold v hv)).2 ho⟩
  · rintro ⟨hv, ho⟩
    have hlt : v.index < n := by
      have := hfree.new v hv
      have := hsees.apart v ho
      omega
    exact ⟨(hfree.old v hlt).1 hv, (hsees.old v hlt).1 ho⟩

namespace WidensAll

theorem free (h : WidensAll n a b gs gs') :
    a ≤ b ∧ Widened n a b (freeVarsList gs) (freeVarsList gs') := by
  induction h with
  | nil => exact ⟨Nat.le_refl _, fun _ _ => Iff.rfl, fun v hv => by simp [freeVarsList] at hv⟩
  | cons hg _ ih =>
    exact ⟨Nat.le_trans hg.le ih.1, hg.free.union ih.2 hg.le ih.1⟩

theorem conj (h : WidensAll n a b gs gs') (hna : n ≤ a) (hq : QuantifiedConj O gs)
    (hsees : Sees n a b O O') : QuantifiedConj O' gs' := by
  induction h generalizing O O' with
  | nil => trivial
  | cons hg hgs ih =>
    have hac := hg.le
    obtain ⟨hcb, hfree⟩ := hgs.free
    have hnc := Nat.le_trans hna hac
    exact ⟨hg.quantified _ _ hq.1 ((hsees.mono le_rfl hcb).union hfree hna (.inr le_rfl)),
      ih hnc hq.2 ((hsees.mono hac le_rfl).union hg.free hnc (.inl le_rfl))⟩

theorem list (h : WidensAll n a b gs gs') (hq : QuantifiedList O gs) (hsees : Sees n a b O O') :
    QuantifiedList O' gs' := by
  induction h with
  | nil => trivial
  | cons hg hgs ih =>
    exact ⟨hg.quantified _ _ hq.1 (hsees.mono (Nat.le_refl _) hgs.free.1),
      ih hq.2 (hsees.mono hg.le (Nat.le_refl _))⟩

theorem uncons (h : WidensAll n a b (g :: gs) (g' :: gs')) :
    ∃ c, Widens n a c g g' ∧ WidensAll n c b gs gs' := by
  cases h with
  | cons hg hgs => exact ⟨_, hg, hgs⟩

theorem single (h : WidensAll n a b [g] [g']) : Widens n a b g g' := by
  obtain ⟨c, hg, hnil⟩ := h.uncons
  cases hnil
  exact hg

end WidensAll

end Goal

/-! ### Set-ups -/

section

variable {context : Context} {X : ProgVar → Prop} {goals : List Goal} {bound vs : List ProgVar}

theorem Setup.exposed (h : Setup context X goals bound) :
    ∀ g ∈ goals, g.info.nonlocals = g.freeVars := by
  induction h with
  | nil => simp
  | construct _ _ _ ih | accessor _ _ _ ih =>
    refine forall_mem_cons.2 ⟨?_, ih⟩
    simp only [Goal.construct, Synth.accessor, Goal.callProc, Goal.exposeFree, Goal.setNonlocals,
      info_setInfo, freeVars_setInfo]

/-- The goals of a set-up bind its variables and mention nothing else but what they
    read. -/
theorem Setup.freeVars (h : Setup context X goals bound) :
    (∀ v, (∃ g ∈ goals, v ∈ g.info.bound) ↔ v ∈ bound) ∧
      (∀ v ∈ bound, v ∈ Goal.freeVarsList goals) ∧
      ∀ v ∈ Goal.freeVarsList goals, v ∈ bound ∨ X v := by
  induction h with
  | nil => simp [Goal.freeVarsList]
  | construct _ hreads _ ih | accessor _ hreads _ ih =>
    obtain ⟨hb, hf, hv⟩ := ih
    simp [Goal.freeVarsList, hb]
    grind

theorem Setup.quantified (h : Setup context X goals bound) (hfeeds : Feeds vs goals)
    (hX : ∀ v, X v → v ∈ O) (hvs : ∀ v ∈ vs, v ∈ O) : Goal.QuantifiedConj O goals := by
  have hexposed := h.exposed
  induction h generalizing O with
  | nil => trivial
  | construct _ hreads _ ih | accessor _ hreads _ ih =>
    obtain ⟨hg, hgoals⟩ := forall_mem_cons.1 hexposed
    refine ⟨quantified_of_exposed rfl hg fun w hw => ?_, ih hfeeds.2 (fun w hw => ?_)
      (fun w hw => VarSet.mem_union.2 (.inl (hvs w hw))) hgoals⟩
    · have hfed := hfeeds.1 w
      simp at hfed hw ⊢
      grind
    · rcases hw with rfl | hw
      · simp
      · simp [hX w hw]

namespace Goal

theorem mem_freeVars_withSetup (h : ∀ h ∈ goals ++ [g], h.isAtom) :
    v ∈ (withSetup goals g).freeVars ↔ v ∈ freeVarsList goals ∨ v ∈ g.freeVars := by
  by_cases hne : goals = []
  · simp [hne, withSetup, freeVarsList]
  · obtain ⟨i, hi⟩ := withSetup_eq_conj hne h
    simp [hi, freeVars, freeVarsList_append, freeVarsList]

theorem mem_nonlocals_withSetup :
    v ∈ (withSetup goals g).info.nonlocals ↔
      (v ∈ g.info.nonlocals ∨ ∃ h ∈ goals, v ∈ h.info.nonlocals) ∧
        ¬∃ h ∈ goals, v ∈ h.info.bound := by
  unfold withSetup
  split
  · simp_all
  · simp [setNonlocals]

/-- A goal that gets witnesses from a set-up of its own in front of it. -/
theorem Widens.ofSetup (hset : Setup context (fun _ => False) goals bound) (hfeeds : Feeds vs goals)
    (hvs : ∀ v ∈ vs, v ∈ bound) (hbound : ∀ v ∈ bound, a ≤ v.index ∧ v.index < b) (hab : a ≤ b)
    (hna : n ≤ a) (hold : ∀ v ∈ g.freeVars, v.index < n) (hatom : g'.isAtom)
    (hfree : ∀ v, v ∈ g'.freeVars ↔ v ∈ vs ∨ v ∈ g.freeVars)
    (hinfo : ∀ v, v ∈ g'.info.nonlocals ↔ v ∈ vs ∨ v ∈ g.info.nonlocals) :
    Widens n a b g (withSetup goals g') := by
  obtain ⟨hb, hbf, hfb⟩ := hset.freeVars
  simp only [or_false] at hfb
  have hnew : ∀ v ∈ bound, ¬v.index < n := fun v hv => by have := hbound v hv; omega
  have hatoms : ∀ h ∈ goals ++ [g'], h.isAtom :=
    forall_mem_append.2 ⟨fun g hg => (hset.plain g hg).1, by simpa using hatom⟩
  have hblock : ∀ v, v ∈ (withSetup goals g').freeVars ↔ v ∈ bound ∨ v ∈ g.freeVars := by
    intro v
    rw [mem_freeVars_withSetup hatoms, hfree]
    have := hvs v; have := hbf v; have := hfb v
    tauto
  refine .around hab hold ⟨fun v hv => ?_, fun v hv => ?_⟩ fun O hO =>
    ⟨?_, fun O' hsees hnarrow => ?_⟩
  · have := hnew v
    rw [hblock]
    tauto
  · exact ((hblock v).1 hv).symm.imp (hold v) (hbound v)
  · ext v
    have hneeds : (∃ h ∈ goals, v ∈ h.info.nonlocals) ↔ v ∈ freeVarsList goals := by
      rw [mem_freeVarsList]
      exact exists_congr fun h => and_congr_right fun hh => by rw [hset.exposed h hh]
    rw [mem_nonlocals_withSetup, hinfo, hb, hneeds]
    have := fun hv => hold v (hO.nonlocals_subset hv).1
    have := hvs v; have := hnew v; have := hfb v
    tauto
  · by_cases hne : goals = []
    · subst hne
      exact (quantified_of_isAtom hatom).2 hnarrow
    · obtain ⟨i, hi⟩ := withSetup_eq_conj hne hatoms
      rw [hi] at hnarrow ⊢
      refine ⟨hnarrow, quantifiedConj_append.2 ⟨hset.quantified hfeeds (by simp) fun v hv => ?_,
        (quantified_of_isAtom hatom).2 ?_, trivial⟩⟩
      · simp [freeVarsList, hfree, hv]
      · ext v
        have hg : v ∈ g.info.nonlocals ↔ v ∈ g.freeVars ∧ v ∈ O := by
          rw [hO.narrow, VarSet.mem_inter]
        simp only [hinfo, hg, VarSet.mem_inter, VarSet.mem_union, hfree, freeVarsList,
          VarSet.not_mem_empty, or_false]
        have := hold v; have := hsees.old v; have := hvs v; have := hbf v; have := hfb v
        have := hnew v
        tauto

theorem Widens.refl (hab : a ≤ b) (hold : ∀ v ∈ g.freeVars, v.index < n) (hatom : g.isAtom) :
    Widens n a b g g := by
  refine .around hab hold ⟨fun _ _ => Iff.rfl, fun v hv => .inl (hold v hv)⟩ fun O hO =>
    ⟨rfl, fun O' _ hn => (quantified_of_isAtom hatom).2 hn⟩

end Goal

end

/-! ### Goals of bodies -/

/-- Whether all that a predicate takes witnesses for is given by its callers. -/
def Predicate.isUniversal (p : Predicate) : Bool :=
  p.existVars.isEmpty && p.constraints.existential.isEmpty

/-- Whether the goal is no lambda expression, becomes none, does not get any
    witnesses from what it calls or takes apart, and has no type-infos of its own. -/
def Goal.isPlain (m : Module) (vars : VarTable) : Goal → Bool
  | .call _ callee _ _ => (m.findPred? callee.pred).all (·.isUniversal)
  | .foreign _ code => (m.findPred? code.callee.pred).all (·.isUniversal)
  | .unify _ _ (.var _) kind => kind.witnesses.isEmpty
  | .unify _ _ (.functor (.closure callee) _) _ =>
    (m.findPred? callee.pred).all (·.witnessCount = 0)
  | .unify _ lhs (.functor (.cons name arity) _) _ =>
    ((vars.type lhs).toOption.bind (m.findCtor? · name arity)).all fun x =>
      x.2.existVars.isEmpty && x.2.constraints.isEmpty
  | .lambda .. => false
  | _ => true

/-- All variables of the goal are in the table and all goals in it are plain. -/
structure Goal.Ordinary (m : Module) (vars : VarTable) (g : Goal) : Prop where
  known : ∀ v ∈ g.vars, v.index < vars.size
  plain : ∀ k ∈ g.gather ([·]), k.isPlain m vars

/-- The variables of the table are there, and are not in the head as witnesses. -/
structure WitnessState.Above (vars : VarTable) (s : WitnessState) : Prop where
  table : vars.Extends s.vars
  heads : ∀ v ∈ s.headWitnesses, vars.size ≤ v.index

section

variable {m : Module} {vars : VarTable} {env : WitnessEnv} {s s' : WitnessState}

theorem Module.SameDecls.isUniversal {e : Module} {i : PredId} {p : Predicate} (hd : m.SameDecls e)
    (h : (m.findPred? i).all (·.isUniversal)) (hp : e.pred i = .ok p) : p.isUniversal := by
  obtain ⟨q, hq, hsame⟩ := hd.of_findPred? (pred_eq_ok.1 hp)
  rw [hsame.decl]
  exact (Option.all_eq_true _ _).1 h q hq

theorem Module.SameDecls.takesNone {e : Module} {i : PredId} {p : Predicate} (hd : m.SameDecls e)
    (h : (m.findPred? i).all (·.witnessCount = 0)) (hp : e.pred i = .ok p) :
    p.witnessCount = 0 := by
  obtain ⟨q, hq, hsame⟩ := hd.of_findPred? (pred_eq_ok.1 hp)
  rw [hsame.witnessCount_eq]
  exact of_decide_eq_true ((Option.all_eq_true _ _).1 h q hq)

theorem Goal.Ordinary.part {c : Goal} (h : g.Ordinary m vars) (hc : c ∈ g.parts) :
    c.Ordinary m vars :=
  ⟨fun v hv => h.known v (mem_gather_of_mem_parts hc hv),
    fun k hk => h.plain k (mem_gather_of_mem_parts hc hk)⟩

theorem Goal.Ordinary.free (h : g.Ordinary m vars) : ∀ v ∈ g.freeVars, v.index < vars.size :=
  fun v hv => h.known v (mem_vars_of_mem_freeVars g hv)

theorem WitnessState.Above.grows (h : s.Above vars) (hg : s.Grows s') : s'.Above vars where
  table := h.table.trans hg.vars
  heads v hv := (hg.heads v hv).elim (h.heads v) (Nat.le_trans h.table.size_le)

theorem Assoc.entries_eq_nil {κ ν : Type} [DecidableEq κ] {m : Assoc κ ν}
    (h : ∀ k v, m.find? k = some v → False) : m.entries = [] := by
  cases he : m.entries with
  | nil => rfl
  | cons e es => exact (h e.1 e.2 (by simp [find?, firstValue, he])).elim

theorem WitnessMap.all_false_iff {w : WitnessMap} :
    (w.All fun _ _ => False) ↔ w.typeInfos.entries = [] ∧ w.dictionaries.entries = [] := by
  refine ⟨fun h => ⟨Assoc.entries_eq_nil h.1, Assoc.entries_eq_nil h.2⟩, fun h => ⟨?_, ?_⟩⟩
  · intro t source ht
    simp [Assoc.find?, Assoc.firstValue, h.1] at ht
  · intro c v hc
    simp [Assoc.find?, Assoc.firstValue, h.2] at hc

theorem WitnessState.Blank.mem_heads (h : s.Blank) (hv : s.isOuterWitness v) :
    v ∈ s.headWitnesses := by
  obtain ⟨hi, hd⟩ := all_false_iff.1 h
  simpa [isOuterWitness, Assoc.values, Assoc.toList, hi, hd] using hv

namespace Synth

theorem absorbed_eq (h : s.Above vars) (hblank : s.Blank)
    (hold : ∀ v ∈ g.info.nonlocals, v.index < vars.size) :
    V ∪ g.info.nonlocals.filter s.isOuterWitness = V := by
  ext v
  simp only [VarSet.mem_union, VarSet.mem_filter, or_iff_left_iff_imp]
  rintro ⟨hv, houter⟩
  exact absurd (hold v hv) (Nat.not_lt.2 (h.heads v (hblank.mem_heads houter)))

/-- What is shown of goals, one by one. -/
def Widening (env : WitnessEnv) (m : Module) (vars : VarTable) (g : Goal) : Prop :=
  ∀ {s g' s'}, Returns (goal env g) s g' s' → s.Above vars → s'.Blank → g.Ordinary m vars →
    g.Widens vars.size s.vars.size s'.vars.size g'

theorem goals_widen {gs : List Goal} {r : List Goal × VarSet}
    (hgs : ∀ g ∈ gs, Widening env m vars g ∧ g.Ordinary m vars)
    (h : Returns (goals env V gs) s r s') (habove : s.Above vars) (hblank : s'.Blank) :
    Goal.WidensAll vars.size s.vars.size s'.vars.size gs r.1 ∧
      ((∀ g ∈ gs, ∃ O, g.Quantified O) → r.2 = V) := by
  induction gs generalizing s V r with
  | nil =>
    rw [goals, returns_pure] at h
    obtain ⟨rfl, rfl⟩ := h
    exact ⟨.nil, fun _ => rfl⟩
  | cons g gs ih =>
    simp only [goals, returns_bind, returns_absorb, returns_pure] at h
    obtain ⟨g', _, hg, V₁, s₁, ⟨rfl, rfl⟩, r', _, hr, rfl, rfl⟩ := h
    obtain ⟨⟨hwiden, hord⟩, hrest⟩ := forall_mem_cons.1 hgs
    have hblank₁ := hr.worked.grows.blank hblank
    have habove₁ := habove.grows (goal_grows g hg)
    have hhead := hwiden hg habove hblank₁ hord
    obtain ⟨hall, hkept⟩ := ih hrest hr habove₁
    refine ⟨.cons hhead hall, fun hq => ?_⟩
    obtain ⟨⟨O, hO⟩, hqs⟩ := forall_mem_cons.1 hq
    rw [hkept hqs]
    exact absorbed_eq habove₁ hblank₁ (hhead.nonlocals habove.table.size_le hO)

theorem mem_all_iff_mem_inputs (parts : WitnessParts pred) (huniv : pred.isUniversal) :
    v ∈ parts.all ↔ v ∈ parts.inputs := by
  simp only [Predicate.isUniversal, Bool.and_eq_true, List.isEmpty_iff] at huniv
  have hed : parts.existDicts = [] :=
    length_eq_zero_iff.1 (by rw [parts.length_existDicts, huniv.2]; rfl)
  have hei : parts.existInfos = [] := length_eq_zero_iff.1 (by
    rw [parts.length_existInfos]; simp [Predicate.bareTypeVars, huniv.1])
  simp [WitnessParts.all, WitnessParts.inputs, hed, hei]

theorem widens_of_serves {context : Context} {inputs outputs : List ProgVar} {setup : List Goal}
    (h : Serves context s inputs outputs setup s') (habove : s.Above vars) (hblank : s'.Blank)
    (hold : ∀ v ∈ g.freeVars, v.index < vars.size) (hatom : g'.isAtom)
    (hfree : ∀ v, v ∈ g'.freeVars ↔ v ∈ inputs ∨ v ∈ g.freeVars)
    (hinfo : ∀ v, v ∈ g'.info.nonlocals ↔ v ∈ inputs ∨ v ∈ g.info.nonlocals) :
    g.Widens vars.size s.vars.size s'.vars.size (.withSetup setup g') := by
  obtain ⟨bound, hb, -, hset⟩ := h.block
  obtain ⟨hset, hin⟩ := hset _ hblank
  exact .ofSetup hset h.feeds (fun v hv => (hin v hv).resolve_right id) hb.new
    h.advances.vars.size_le habove.table.size_le hold hatom hfree hinfo

theorem unifyGoal_functor_plain {info : GoalInfo} {lhs : ProgVar} {f : Symbol}
    {args : List ProgVar} {kind : Unification} (hd : m.SameDecls env.env)
    (hplain : (Goal.unify info lhs (.functor f args) kind).isPlain m vars)
    (htype : ∀ t, s.vars.type lhs = .ok t → vars.type lhs = .ok t)
    (h : Returns (unifyGoal env info lhs (.functor f args) kind) s g' s') :
    g' = .unify info lhs (.functor f args) kind ∧ s' = s := by
  cases f with
  | closure callee =>
    obtain ⟨pred, hpred, ⟨-, rfl, rfl⟩ | ⟨hnz, -⟩⟩ := unifyGoal_closure_cases h
    · exact ⟨rfl, rfl⟩
    · exact absurd (hd.takesNone hplain hpred) hnz
  | cons name arity =>
    replace h : Returns (consGoal env info lhs name arity args kind) s g' s' := h
    simp only [consGoal, returns_bind, returns_get, returns_lift] at h
    obtain ⟨_, _, ⟨rfl, rfl⟩, t, s, ⟨ht, rfl⟩, h⟩ := h
    split at h
    · next defn ctor hctor =>
      rw [hd.rest] at hctor
      have hnone := (Option.all_eq_true _ _).1 hplain (defn, ctor) (by rw [htype t ht]; exact hctor)
      rw [if_pos hnone] at h
      exact returns_pure.1 h
    · exact returns_pure.1 h
  | _ => exact returns_pure.1 h

/-- A body gets variables and keeps its quantification if nothing is on record in the
    end. -/
theorem goal_widens (hd : m.SameDecls env.env) (g : Goal) : Widening env m vars g := by
  induction g using parts_induction with
  | step g ih =>
  intro s g' s' h habove hblank hord
  have hold := hord.free
  have hna := habove.table.size_le
  have hle := (goal_grows g h).vars.size_le
  have hparts : ∀ c ∈ g.parts, Widening env m vars c ∧ c.Ordinary m vars :=
    fun c hc => ⟨ih c hc, hord.part hc⟩
  cases g with
  | conj info kind gs =>
    obtain ⟨gs', _, hr, ⟨⟩⟩ := returns_compound rfl h
    obtain ⟨hall, hkept⟩ := goals_widen hparts hr habove hblank
    refine .around hall.free.1 hold ?_ fun O hO => ⟨hkept hO.2.each, fun O' hsees hn => ⟨hn, ?_⟩⟩
    · have := hall.free.2
      simp only [Goal.freeVars]
      split
      · rwa [freeVarsList_flatMap_conjuncts]
      · exact this
    · have := hall.conj hna hO.2 hsees
      split
      · exact this.flatten
      · exact this
  | disj info gs =>
    obtain ⟨gs', _, hr, ⟨⟩⟩ := returns_compound rfl h
    obtain ⟨hall, hkept⟩ := goals_widen hparts hr habove hblank
    exact .around hall.free.1 hold hall.free.2 fun O hO =>
      ⟨hkept hO.2.each, fun O' hsees hn => ⟨hn, hall.list hO.2 hsees⟩⟩
  | switch info v canFail cases =>
    obtain ⟨gs', _, hr, hfill⟩ := returns_compound rfl h
    cases hfill
    obtain ⟨hall, hkept⟩ := goals_widen hparts hr habove hblank
    have hv : v.index < vars.size := hold v (by simp [Goal.freeVars])
    refine .around hall.free.1 hold ?_ fun O hO => ?_
    · rw [Goal.freeVars, Goal.freeVars, freeVarsArms_eq, freeVarsArms_eq]
      exact hall.free.2.insert hv
    · have hO := quantifiedArms_eq.1 hO.2
      exact ⟨hkept hO.each, fun O' hsees hn =>
        ⟨hn, quantifiedArms_eq.2 (hall.list hO (hsees.insert hna hv))⟩⟩
  | negation =>
    obtain ⟨gs', _, hr, ⟨⟩⟩ := returns_compound rfl h
    obtain ⟨hall, hkept⟩ := goals_widen hparts hr habove hblank
    have hwiden := hall.single
    exact .around hwiden.le hold hwiden.free fun O hO =>
      ⟨hkept (forall_mem_singleton.2 ⟨_, hO.2⟩), fun O' hsees hn =>
        ⟨hn, hwiden.quantified O O' hO.2 hsees⟩⟩
  | scope =>
    obtain ⟨gs', _, hr, ⟨⟩⟩ := returns_compound rfl h
    obtain ⟨hall, hkept⟩ := goals_widen hparts hr habove hblank
    have hwiden := hall.single
    exact .around hwiden.le hold (hwiden.free.eraseMany _) fun O hO =>
      ⟨hkept (forall_mem_singleton.2 ⟨_, hO.2⟩), fun O' hsees hn =>
        ⟨hn, hwiden.quantified _ _ hO.2 (hsees.eraseMany _)⟩⟩
  | ite info locals c y n =>
    obtain ⟨gs', _, hr, ⟨⟩⟩ := returns_compound rfl h
    obtain ⟨hall, hkept⟩ := goals_widen hparts hr habove hblank
    obtain ⟨_, hwc, hrest⟩ := hall.uncons
    obtain ⟨_, hwy, hlast⟩ := hrest.uncons
    have hwn := hlast.single
    have hcy := Nat.le_trans hwc.le hwy.le
    have hyn := Nat.le_trans hwy.le hwn.le
    refine .around hle hold
      (((hwc.free.union hwy.free hwc.le hwy.le).eraseMany locals).union hwn.free hcy hwn.le)
      fun O hO => ⟨hkept ?_, fun O' hsees hn => ⟨hn, ?_, ?_, ?_⟩⟩
    · simp only [Goal.parts, Goal.children, forall_mem_cons]
      exact ⟨⟨_, hO.2.1⟩, ⟨_, hO.2.2.1⟩, ⟨_, hO.2.2.2⟩, by simp⟩
    · exact hwc.quantified _ _ hO.2.1
        (((hsees.mono (Nat.le_refl _) hyn).eraseMany _).union hwy.free hna (.inr (Nat.le_refl _)))
    · exact hwy.quantified _ _ hO.2.2.1 (((hsees.mono hwc.le hwn.le).eraseMany _).union hwc.free
        (Nat.le_trans hna hwc.le) (.inl (Nat.le_refl _)))
    · exact hwn.quantified _ _ hO.2.2.2 (hsees.mono hcy (Nat.le_refl _))
  | lambda info lhs head body kind =>
    have hplain : Goal.isPlain m vars (.lambda info lhs head body kind) :=
      hord.plain _ (by simp [Goal.gather])
    cases hplain
  | call info callee name args =>
    rw [goal] at h
    obtain ⟨pred, hpred, ⟨-, rfl, rfl⟩ | ⟨-, w, parts, hw, rfl⟩⟩ := callGoal_cases h
    · exact .refl hle hold rfl
    · have hplain : Goal.isPlain m vars (.call info callee name args) :=
        hord.plain _ (by simp [Goal.gather])
      have hall := fun v => mem_all_iff_mem_inputs (v := v) parts (hd.isUniversal hplain hpred)
      exact widens_of_serves hw.serves habove hblank hold rfl (by simp [Goal.freeVars, hall])
        (by simp [addWitnesses, Goal.info, hall])
  | genericCall info callee args modes =>
    rw [goal] at h
    rcases genericGoal_cases h with ⟨rfl, rfl⟩ | ⟨infos, setup, hprov, rfl⟩
    · exact .refl hle hold rfl
    · refine widens_of_serves hprov habove hblank hold rfl (fun v => ?_)
        (by simp [addWitnesses, Goal.info])
      simp only [Goal.freeVars, VarSet.mem_ofList, mem_append]
      tauto
  | foreign info code =>
    rw [goal] at h
    obtain ⟨pred, hpred, ⟨-, rfl, rfl⟩ | ⟨-, w, parts, hw, rfl⟩⟩ := foreignGoal_cases h
    · exact .refl hle hold rfl
    · have hplain : Goal.isPlain m vars (.foreign info code) :=
        hord.plain _ (by simp [Goal.gather])
      have hall := fun v => mem_all_iff_mem_inputs (v := v) parts (hd.isUniversal hplain hpred)
      exact widens_of_serves hw.serves habove hblank hold rfl
        (by simp [Goal.freeVars, map_var_foreignWitnesses, hall])
        (by simp [addWitnesses, Goal.info, hall])
  | unify info lhs rhs kind =>
    have hplain : Goal.isPlain m vars (.unify info lhs rhs kind) :=
      hord.plain _ (by simp [Goal.gather])
    rw [goal] at h
    suffices hsame : g' = .unify info lhs rhs kind by
      rw [hsame]
      exact .refl hle hold rfl
    cases rhs with
    | var v =>
      rcases unifyGoal_var_cases h with ⟨rfl, rfl⟩ | ⟨canFail, old, infos, rfl, hs, rfl⟩
      · rfl
      · -- The type-infos would be on record.
        obtain ⟨bound, -, -, hset⟩ := hs.block
        obtain ⟨⟨⟩, hin⟩ := hset _ hblank
        obtain rfl : infos = [] := eq_nil_iff_forall_not_mem.2 fun v hv => by simpa using hin v hv
        obtain rfl : old = [] := List.isEmpty_iff.1 hplain
        rfl
    | functor f args =>
      refine (unifyGoal_functor_plain hd hplain (fun t ht => ?_) h).1
      obtain ⟨u, hu⟩ := exists_type_of_lt (hold lhs (by simp [Goal.freeVars]))
      rwa [habove.table.type_eq hu, ← hu] at ht

theorem procedure_quantified {proc : Procedure} {out : WitnessHead} {body : Goal}
    (hd : m.SameDecls env.env)
    (h : Returns (procedure env pred proc) (.ofProc pred proc) (out, body) s')
    (himp : pred.status ≠ .imported) (hord : proc.body.Ordinary m proc.vars)
    (hhead : ∀ v ∈ proc.head, v.index < proc.vars.size)
    (hq : proc.body.Quantified (.ofList proc.head)) :
    body.Quantified (.ofList out.head) ∧ (s'.Blank → pred.isUniversal →
      ∃ s₁ s₂, Returns (goal env proc.body) s₁ body s₂) := by
  simp only [procedure, returns_bind, if_neg himp, returns_get] at h
  obtain ⟨out', s₁, h₁, g, s₂, h₂, existentials, _, h₃, _, _, ⟨rfl, rfl⟩, h⟩ := h
  split at h
  · next hskip =>
    simp only [returns_pure, Prod.mk.injEq] at h
    obtain ⟨⟨rfl, rfl⟩, rfl⟩ := h
    simp only [Bool.and_eq_true, List.isEmpty_iff] at hskip
    obtain ⟨⟨⟨hvars, hexist⟩, hinfos⟩, hdicts⟩ := hskip
    obtain ⟨parts, hparts⟩ := setupHead_cases h₁
    rw [produceExistentials, hparts.existVars, hexist,
      if_pos (by simp [Predicate.bareTypeVars, hvars]), returns_pure] at h₃
    obtain ⟨rfl, rfl⟩ := h₃
    refine ⟨?_, fun _ _ => ⟨s₁, _, h₂⟩⟩
    have hstart : (WitnessState.ofProc pred proc).Above proc.vars :=
      ⟨.refl _, by simp [WitnessState.ofProc]⟩
    have hnew : parts.In fun _ v => proc.vars.size ≤ v.index ∧ v.index < s₁.vars.size :=
      ⟨fun v hv => (hparts.new.1 v hv).imp_right lt_size_of_type,
        fun v hv => (hparts.new.2 v hv).imp_right lt_size_of_type⟩
    have habove := hstart.grows hparts.grows
    have hblank := all_false_iff.2 ⟨hinfos, hdicts⟩
    refine (goal_widens hd proc.body h₂ habove hblank hord).quantified _ _ hq
      ⟨fun v hv => ?_, fun v hv => .inl ?_⟩
    all_goals simp only [hparts.head, VarSet.mem_ofList, mem_append] at *
    · exact or_iff_right fun hmem => absurd hv (Nat.not_lt.2 (hnew.of_mem hmem).1)
    · exact hv.elim (fun hmem => (hnew.of_mem hmem).2)
        fun hmem => Nat.lt_of_lt_of_le (hhead v hmem) habove.table.size_le
  · next hskip =>
    simp only [returns_pure, Prod.mk.injEq] at h
    obtain ⟨⟨rfl, rfl⟩, rfl⟩ := h
    refine ⟨quantified_requantify _ _, fun hs huniv => ?_⟩
    obtain ⟨hinfos, hdicts⟩ := all_false_iff.1 hs
    rw [Predicate.isUniversal, Bool.and_eq_true] at huniv
    simp [huniv.1, huniv.2, hinfos, hdicts] at hskip

end Synth

/-- A procedure whose goals have nothing to do with existential types and closures keeps
    its body quantified while witnesses are made explicit, even if it is left as it
    comes out of its goals: the non-local variables that these have are those that
    quantifying the body would find. -/
theorem Module.bodies_stay_quantified {m' : Module} {r : ProcRef} {proc : Procedure}
    (h : m.addWitnesses = .ok m') (hr : m.findProc? r = some (pred, proc))
    (hexempt : pred.isExempt = false) (himp : pred.status ≠ .imported)
    (hord : proc.body.Ordinary m proc.vars) (hhead : ∀ v ∈ proc.head, v.index < proc.vars.size)
    (hq : proc.body.requantify (.ofList proc.head) = proc.body) :
    ∃ pred' proc', m'.findProc? r = some (pred', proc') ∧
      proc'.body.requantify (.ofList proc'.head) = proc'.body ∧
      (pred.isUniversal → (proc'.witnesses.All fun _ _ => False) →
        ∃ env s s', Synth.Returns (Synth.goal env proc.body) s proc'.body s') := by
  obtain ⟨pred', proc', hr', -, hchanged⟩ := addWitnesses_proc h hr
  obtain ⟨-, env, p, out, body, s, hc, hsame, rfl⟩ := hchanged hexempt
  obtain ⟨hbody, hkept⟩ := Synth.procedure_quantified hc.decls hc.returns (hsame.status_eq ▸ himp)
    hord hhead ((Goal.requantify_eq_self_iff _ _).1 hq)
  refine ⟨pred', _, hr', (Goal.requantify_eq_self_iff _ _).2 hbody, fun huniv hblank => ?_⟩
  obtain ⟨s₁, s₂, hgoal⟩ := hkept hblank (by rw [hsame.decl]; exact huniv)
  exact ⟨_, s₁, s₂, hgoal⟩

end

/-! ### Examples -/

namespace HiddenType

/-- `not take(X)`, or `Y = 42, take(Y)`. -/
def feedBody : Goal :=
  (Goal.disjoin
    [.negation { context } (.callProc ⟨⟨3⟩, ⟨0⟩⟩ take.symName [⟨0⟩] [] {} context),
     .conjoin [.intConst ⟨1⟩ 42 context,
       .callProc ⟨⟨3⟩, ⟨0⟩⟩ take.symName [⟨1⟩] [] {} context] context] context).requantify
    (.ofList [⟨0⟩])

def feed : Predicate :=
  declared { name := "feed", args := [.input "X" .int], locals := [.named "Y" .int] } feedBody

/-- A module in which values of known types are passed on. -/
def feeding : Module :=
  { name := "hidden"
    preds := #[Primitive.typeInfoFromDictionary.toPredicate,
      Primitive.superclassFromDictionary.toPredicate, make, take, feed] }

/-- `feed` gets two type-infos, neither of which goes on record. -/
theorem feed_records_none : ∃ m' pred' proc', feeding.addWitnesses = .ok m' ∧
    m'.findProc? ⟨⟨4⟩, ⟨0⟩⟩ = some (pred', proc') ∧ (proc'.vars.size == 4 &&
      proc'.witnesses.typeInfos.entries.isEmpty &&
      proc'.witnesses.dictionaries.entries.isEmpty) = true :=
  Module.of_ok_any (by decide +kernel)

/-- `feed` is left as it comes out of its goals, and is quantified. -/
theorem feed_stays_quantified : ∃ m' pred' proc', feeding.addWitnesses = .ok m' ∧
    m'.findProc? ⟨⟨4⟩, ⟨0⟩⟩ = some (pred', proc') ∧ proc'.vars.size = 4 ∧
      proc'.body.requantify (.ofList proc'.head) = proc'.body ∧
      ∃ env s s', Synth.Returns (Synth.goal env feedBody) s proc'.body s' := by
  obtain ⟨m', _, _, hm', hr', hnone⟩ := feed_records_none
  simp only [Bool.and_eq_true, List.isEmpty_iff, beq_iff_eq] at hnone
  have hbody : feedBody.requantify (.ofList [⟨0⟩]) = feedBody := Goal.requantify_requantify ..
  obtain ⟨_, _, hr, hq, hkept⟩ := Module.bodies_stay_quantified (r := ⟨⟨4⟩, ⟨0⟩⟩) hm' rfl rfl
    (by decide) ⟨by decide +kernel, by decide +kernel⟩ (by decide) hbody
  rw [hr', Option.some.injEq, Prod.mk.injEq] at hr
  obtain ⟨rfl, rfl⟩ := hr
  exact ⟨m', _, _, hm', hr', hnone.1.1, hq,
    hkept rfl (WitnessMap.all_false_iff.2 ⟨hnone.1.2, hnone.2⟩)⟩

/-- `same` is quantified, and is not any more when its type-info is replaced by
    those of `int`, of which there are none: it keeps the non-local variable. -/
theorem same_keeps_nonlocal : (∃ pred proc, comparing.findProc? ⟨⟨2⟩, ⟨0⟩⟩ = some (pred, proc) ∧
      proc.body.requantify (.ofList proc.head) = proc.body) ∧
    ∃ m' pred' proc', comparing.addWitnesses = .ok m' ∧
      m'.findProc? ⟨⟨2⟩, ⟨0⟩⟩ = some (pred', proc') ∧
      proc'.body.requantify (.ofList proc'.head) ≠ proc'.body := by
  refine ⟨⟨same, _, rfl, rfl⟩, ?_⟩
  obtain ⟨m', pred', proc', hm', hr, hsize⟩ : ∃ m' pred' proc', comparing.addWitnesses = .ok m' ∧
      m'.findProc? ⟨⟨2⟩, ⟨0⟩⟩ = some (pred', proc') ∧
      ((proc'.body.requantify (.ofList proc'.head)).info.nonlocals !=
        proc'.body.info.nonlocals) = true := Module.of_ok_any (by decide +kernel)
  exact ⟨m', pred', proc', hm', hr, fun heq => by rw [heq, bne_self_eq_false] at hsize; cases hsize⟩

end HiddenType

end Clausal
