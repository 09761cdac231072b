import Clausal.Goal.Build
import Clausal.Proofs.Subgoals

/-!
# What goals read and bind

A variable is to be read only where it is bound, by the head or by what comes
before on every path. What a goal does to a variable is said by an effect
(`Goal.effect`): whether it may be read without having been bound in the goal,
and whether it is bound on every path through it. Effects of goals one after
the other and of alternatives are put together from those of the parts, and
nothing else of a goal counts, such as how it is quantified.

A goal reads only given variables (`ReadsOnly`) if each of its parts reads only
these and what is bound before the part. What becomes of that when a goal is
rebuilt is put together from its parts in the same way (`Follows`).
-/

namespace Clausal

open List

variable {v : ProgVar} {modes : ProcRef → List Mode} {g c : Goal} {lhs : ProgVar} {rhs : UnifyRhs}

/-! ### Variables of goals -/

namespace Goal

mutual

/-- The variables that a goal mentions, leaving aside what lambda expressions
    are said to capture. -/
def mentions : Goal → List ProgVar
  | .conj _ _ gs | .disj _ gs => mentionsList gs
  | .switch _ v _ arms => v :: mentionsArms arms
  | .negation _ g => mentions g
  | .ite _ locals c y n => locals ++ mentions c ++ mentions y ++ mentions n
  | .scope _ reason g => reason.hidden ++ mentions g
  | .lambda _ lhs head body _ => lhs :: head.args ++ mentions body
  | .call i callee name args => atomVars (.call i callee name args)
  | .genericCall i callee args modes => atomVars (.genericCall i callee args modes)
  | .foreign i code => atomVars (.foreign i code)
  | .unify i lhs rhs kind => atomVars (.unify i lhs rhs kind)

def mentionsList : List Goal → List ProgVar
  | [] => []
  | g :: gs => mentions g ++ mentionsList gs

def mentionsArms : List (Symbol × Goal) → List ProgVar
  | [] => []
  | (_, g) :: arms => mentions g ++ mentionsArms arms

end

end Goal

/-! ### Effects -/

/-- What a goal does to a variable. -/
structure Effect where
  /-- Whether the variable may be read where the goal has not bound it. -/
  reads : Bool
  /-- Whether the variable is bound on every path through the goal. -/
  binds : Bool
deriving DecidableEq, Repr

namespace Effect

/-- Of goals that leave the variable alone. -/
def idle : Effect := ⟨false, false⟩

/-- Of goals that no path leads through. -/
def blocked : Effect := ⟨false, true⟩

/-- One goal after the other. -/
def followedBy (a b : Effect) : Effect :=
  ⟨a.reads || !a.binds && b.reads, a.binds || b.binds⟩

/-- One goal or the other. -/
def or (a b : Effect) : Effect := ⟨a.reads || b.reads, a.binds && b.binds⟩

/-- A goal whose bindings do not last. -/
def undone (a : Effect) : Effect := ⟨a.reads, false⟩

/-- Of atomic goals that read and bind the given variables. -/
def ofVars (v : ProgVar) (reads binds : List ProgVar) (unreachable : Bool) : Effect :=
  ⟨reads.contains v, unreachable || binds.contains v⟩

@[simp] theorem followedBy_idle (a : Effect) : a.followedBy idle = a := by
  simp [followedBy, idle]

theorem ofVars_reads {reads binds : List ProgVar} {unreachable : Bool} :
    (ofVars v reads binds unreachable).reads = true ↔ v ∈ reads := by
  simp [ofVars]

theorem ofVars_binds {reads binds : List ProgVar} {unreachable : Bool} :
    (ofVars v reads binds unreachable).binds = true ↔ unreachable = true ∨ v ∈ binds := by
  simp [ofVars]

/-- Effects in sequence can be grouped in any way. -/
theorem followedBy_assoc (a b c : Effect) :
    (a.followedBy b).followedBy c = a.followedBy (b.followedBy c) := by
  obtain ⟨_ | _, _ | _⟩ := a <;> simp [followedBy]

end Effect

/-- The arguments of a mode. -/
def Mode.vars (mode : Mode) (args : List ProgVar) (modes : List Mode) : List ProgVar :=
  ((args.zip modes).filter (·.2 == mode)).map Prod.fst

theorem Mode.mem_of_mem_vars {mode : Mode} {args : List ProgVar} {modes : List Mode}
    (h : v ∈ mode.vars args modes) : v ∈ args := by
  obtain ⟨p, hp, rfl⟩ := mem_map.1 h
  exact (of_mem_zip (mem_filter.1 hp).1).1

theorem varsOf_of_map {args : List ForeignArg} {vars : List ProgVar} {modes : List Mode}
    (hvars : args.map (·.var) = vars) (hmodes : args.map (·.mode) = modes) (mode : Mode) :
    (args.filter (·.mode == mode)).map (·.var) = mode.vars vars modes := by
  subst hvars hmodes
  rw [Mode.vars, zip_map', filter_map, map_map]
  rfl

namespace Mode

variable {mode mode' : Mode} {args args' : List ProgVar} {modes modes' : List Mode}

theorem vars_append (h : args.length = modes.length) (args' : List ProgVar) (modes' : List Mode) :
    mode.vars (args ++ args') (modes ++ modes') =
      mode.vars args modes ++ mode.vars args' modes' := by
  rw [vars, zip_append h, filter_append, map_append]
  rfl

theorem vars_const (args : List ProgVar) (mode' : Mode) :
    mode.vars args (args.map fun _ => mode') = if mode' = mode then args else [] := by
  induction args with
  | nil => simp [vars]
  | cons a args ih =>
    rw [vars] at ih ⊢
    rw [map_cons, zip_cons_cons, filter_cons]
    by_cases h : mode' = mode
    · rw [if_pos h] at ih ⊢
      rw [if_pos (beq_iff_eq.2 h), map_cons, ih]
    · rw [if_neg h] at ih ⊢
      rw [if_neg (mt beq_iff_eq.1 h), ih]

end Mode

/-- The variables of foreign code of a mode. -/
def ForeignCode.varsOf (code : ForeignCode) (mode : Mode) : List ProgVar :=
  ((code.args ++ code.extraArgs).filter (·.mode == mode)).map (·.var)

def Symbol.isClosure : Symbol → Bool
  | .closure _ => true
  | _ => false

/-- What a unification of some kind reads; both sides if it compares them. -/
def Unification.reads (sides : List ProgVar) : Unification → List ProgVar
  | .construct _ _ args => args
  | .deconstruct v _ _ _ => [v]
  | .assign _ source => [source]
  | .test left right => [left, right]
  | .complicated _ typeInfos => sides ++ typeInfos

/-- What a unification of some kind binds, with a symbol that has these
    arguments. -/
def Unification.binds (args : List ProgVar) : Unification → List ProgVar
  | .construct v _ _ => [v]
  | .deconstruct _ _ parts _ => parts
  | .assign target _ => [target]
  | .test _ _ => []
  | .complicated _ _ => args

/-- What a unification reads. A closure can only be built, whatever the kind of
    the unification. -/
def UnifyRhs.reads (lhs : ProgVar) (kind : Unification) : UnifyRhs → List ProgVar
  | .var v => kind.reads [lhs, v]
  | .functor f args => if f.isClosure then args else kind.reads [lhs]

/-- What a unification binds. -/
def UnifyRhs.binds (lhs : ProgVar) (kind : Unification) : UnifyRhs → List ProgVar
  | .var _ => kind.binds []
  | .functor f args => if f.isClosure then [lhs] else kind.binds args

namespace Goal

mutual

/-- What a goal does to a variable, given the modes of procedures. The
    arguments of mode `in` of a lambda expression are bound in its body, and
    what the body binds is not bound outside. -/
def effect (modes : ProcRef → List Mode) (v : ProgVar) : Goal → Effect
  | .conj _ _ gs => sequence modes v gs
  | .disj _ gs => choice modes v gs
  | .switch _ w _ arms => (Effect.ofVars v [w] [] false).followedBy (armChoice modes v arms)
  | .negation _ g => (effect modes v g).undone
  | .ite _ _ c y n => ((effect modes v c).followedBy (effect modes v y)).or (effect modes v n)
  | .scope _ _ g => effect modes v g
  | .call i callee _ args =>
    .ofVars v (Mode.input.vars args (modes callee)) (Mode.output.vars args (modes callee))
      i.unreachable
  | .genericCall i callee args ms =>
    .ofVars v (callee.vars ++ Mode.input.vars args ms) (Mode.output.vars args ms) i.unreachable
  | .foreign i code => .ofVars v (code.varsOf .input) (code.varsOf .output) i.unreachable
  | .unify i lhs rhs kind => .ofVars v (rhs.reads lhs kind) (rhs.binds lhs kind) i.unreachable
  | .lambda i lhs head body _ =>
    ⟨(effect modes v body).reads && !(Mode.input.vars head.args head.modes).contains v,
      i.unreachable || [lhs].contains v⟩

/-- Of goals one after the other. -/
def sequence (modes : ProcRef → List Mode) (v : ProgVar) : List Goal → Effect
  | [] => .idle
  | g :: gs => (effect modes v g).followedBy (sequence modes v gs)

/-- Of alternatives. -/
def choice (modes : ProcRef → List Mode) (v : ProgVar) : List Goal → Effect
  | [] => .blocked
  | g :: gs => (effect modes v g).or (choice modes v gs)

/-- Of the arms of a switch. -/
def armChoice (modes : ProcRef → List Mode) (v : ProgVar) : List (Symbol × Goal) → Effect
  | [] => .blocked
  | (_, g) :: arms => (effect modes v g).or (armChoice modes v arms)

end

section

-- The equations are proved here, before several proofs ask for them at once.
attribute [local simp] effect sequence choice armChoice

theorem armChoice_eq (arms : List (Symbol × Goal)) :
    armChoice modes v arms = choice modes v (arms.map Prod.snd) := by
  induction arms with
  | nil => rfl
  | cons arm arms ih => simp [ih]

end

theorem effect_setInfo {i : GoalInfo} (h : i.unreachable = g.info.unreachable) :
    (g.setInfo i).effect modes v = g.effect modes v := by
  cases g with
  | call | genericCall | foreign | unify | lambda =>
    rw [setInfo, effect, effect, h]
    rfl
  | _ => rw [setInfo, effect, effect]

@[simp] theorem effect_setNonlocals (vars : VarSet) (g : Goal) :
    (g.setNonlocals vars).effect modes v = g.effect modes v := effect_setInfo rfl

theorem effect_callProc (callee : ProcRef) (name : SymName) (args outputs : List ProgVar)
    (shape : CallShape) (context : Context) :
    (callProc callee name args outputs shape context).effect modes v =
      .ofVars v (Mode.input.vars args (modes callee)) (Mode.output.vars args (modes callee))
        (shape.determinism.maxSolutions == .zero) := by
  rw [callProc, exposeFree, effect_setNonlocals, effect]

theorem sequence_append (gs gs' : List Goal) : sequence modes v (gs ++ gs') =
    (sequence modes v gs).followedBy (sequence modes v gs') := by
  induction gs with
  | nil => rfl
  | cons g gs ih => rw [cons_append, sequence, sequence, ih, Effect.followedBy_assoc]

theorem sequence_conjuncts (g : Goal) :
    sequence modes v g.conjuncts = g.effect modes v := by
  unfold conjuncts
  split
  · rw [effect]
  · rw [sequence, sequence, Effect.followedBy_idle]

theorem sequence_flatMap (gs : List Goal) :
    sequence modes v (gs.flatMap conjuncts) = sequence modes v gs := by
  induction gs with
  | nil => rfl
  | cons g gs ih => rw [flatMap_cons, sequence_append, sequence_conjuncts, ih, sequence]

theorem effect_conjoin (gs : List Goal) (context : Context) :
    (conjoin gs context).effect modes v = sequence modes v gs := by
  rw [← sequence_flatMap gs]
  unfold conjoin
  split
  · next g hg => rw [hg, sequence, sequence, Effect.followedBy_idle]
  · rw [exposeFree, effect_setNonlocals, effect]

theorem effect_withSetup (setup : List Goal) (g : Goal) : (withSetup setup g).effect modes v =
    (sequence modes v setup).followedBy (g.effect modes v) := by
  cases setup with
  | nil => rfl
  | cons k ks =>
    rw [withSetup, if_neg (by simp), effect_setNonlocals, effect_conjoin, sequence_append,
      sequence.eq_2 modes v g, sequence.eq_1, Effect.followedBy_idle]

/-- Quantifying a goal anew does not change what it does. -/
theorem effect_requantify : ∀ (g : Goal) (outside : VarSet),
    (g.requantify outside).effect modes v = g.effect modes v := by
  have hlists : ∀ {gs gs'}, Forall₂ (fun g g' => effect modes v g' = effect modes v g) gs gs' →
      sequence modes v gs' = sequence modes v gs ∧ choice modes v gs' = choice modes v gs := by
    intro gs gs' h
    induction h with
    | nil => exact ⟨rfl, rfl⟩
    | cons hg _ ih => simp only [sequence, choice, hg, ih, and_self]
  exact Congruent.requantify (P := fun g g' => effect modes v g' = effect modes v g)
    { refl := fun _ => rfl
      nonlocals := fun vars h => by rw [effect_setNonlocals, h]
      conj := fun h => by rw [effect, effect, (hlists h).1]
      disj := fun h => by rw [effect, effect, (hlists h).2]
      switch := fun h => by
        rw [effect, effect, armChoice_eq, armChoice_eq, (hlists (forall₂_map_snd h)).2]
      negation := fun h => by rw [effect, effect, h]
      ite := fun hc hy hn => by rw [effect, effect, hc, hy, hn]
      scope := fun h => by rw [effect, effect, h]
      lambda := fun h => by rw [effect, effect, h] }

theorem mem_vars_of_reads {kind : Unification} (h : v ∈ rhs.reads lhs kind) :
    v ∈ lhs :: rhs.vars ++ kind.vars := by
  have hkind : ∀ sides, v ∈ kind.reads sides → v ∈ sides ∨ v ∈ kind.vars := by
    intro sides hv
    cases kind with
    | construct w f args => exact .inr (mem_cons_of_mem _ hv)
    | deconstruct w f args canFail => exact .inr (mem_cons.2 (.inl (mem_singleton.1 hv)))
    | assign target source => exact .inr (mem_cons_of_mem _ hv)
    | test left right => exact .inr hv
    | complicated canFail typeInfos => exact mem_append.1 hv
  rw [mem_append]
  cases rhs with
  | var w => exact hkind _ h
  | functor f args =>
    rw [UnifyRhs.reads] at h
    split at h
    · exact .inl (mem_cons_of_mem _ h)
    · exact (hkind _ h).imp_left fun hv => mem_cons.2 (.inl (mem_singleton.1 hv))

theorem mem_vars_of_binds {kind : Unification} (h : v ∈ rhs.binds lhs kind) :
    v ∈ lhs :: rhs.vars ++ kind.vars := by
  have hkind : ∀ args, v ∈ kind.binds args → v ∈ args ∨ v ∈ kind.vars := by
    intro args hv
    cases kind with
    | construct w f parts => exact .inr (mem_cons.2 (.inl (mem_singleton.1 hv)))
    | deconstruct w f parts canFail => exact .inr (mem_cons_of_mem _ hv)
    | assign target source => exact .inr (mem_cons.2 (.inl (mem_singleton.1 hv)))
    | test left right => cases hv
    | complicated canFail typeInfos => exact .inl hv
  rw [mem_append]
  cases rhs with
  | var w => exact (hkind _ h).imp_left fun hv => absurd hv not_mem_nil
  | functor f args =>
    rw [UnifyRhs.binds] at h
    split at h
    · exact .inl (mem_cons.2 (.inl (mem_singleton.1 h)))
    · exact (hkind _ h).imp_left (mem_cons_of_mem _)

theorem mem_mentionsList {gs : List Goal} : v ∈ mentionsList gs ↔ ∃ g ∈ gs, v ∈ g.mentions := by
  induction gs with
  | nil => simp [mentionsList]
  | cons g gs ih => simp [mentionsList, ih]

theorem mentionsArms_eq (arms : List (Symbol × Goal)) :
    mentionsArms arms = mentionsList (arms.map Prod.snd) := by
  induction arms with
  | nil => rfl
  | cons arm arms ih => rw [mentionsArms, ih]; rfl

theorem mem_mentions_of_mem_parts (hc : c ∈ g.parts) (hv : v ∈ c.mentions) :
    v ∈ g.mentions := by
  cases g with
  | conj | disj => exact mem_mentionsList.2 ⟨c, hc, hv⟩
  | switch =>
    rw [mentions, mentionsArms_eq]
    exact mem_cons_of_mem _ (mem_mentionsList.2 ⟨c, hc, hv⟩)
  | negation =>
    obtain rfl := mem_singleton.1 hc
    exact hv
  | scope | lambda =>
    obtain rfl := mem_singleton.1 hc
    exact mem_append_right _ hv
  | ite =>
    simp only [parts, children, mem_cons, not_mem_nil, or_false] at hc
    simp only [mentions, mem_append]
    rcases hc with rfl | rfl | rfl <;> simp [hv]
  | call | genericCall | foreign | unify => cases hc

/-- What a goal reads is mentioned in it. -/
theorem mem_mentions_of_reads (g : Goal) (h : (g.effect modes v).reads = true) :
    v ∈ g.mentions := by
  have hlists : ∀ {gs : List Goal}, (sequence modes v gs).reads = true ∨
      (choice modes v gs).reads = true → ∃ g ∈ gs, (g.effect modes v).reads = true := by
    intro gs h
    induction gs with
    | nil => rcases h with h | h <;> cases h
    | cons g gs ih =>
      simp only [sequence, choice, Effect.followedBy, Effect.or, Bool.or_eq_true,
        Bool.and_eq_true] at h
      rw [exists_mem_cons_iff]
      tauto
  induction g using parts_induction with
  | step g ih =>
  have hpart : (∃ c ∈ g.parts, (c.effect modes v).reads = true) → v ∈ g.mentions := by
    rintro ⟨c, hc, hreads⟩
    exact mem_mentions_of_mem_parts hc (ih c hc hreads)
  cases g with
  | conj => exact hpart (hlists (.inl h))
  | disj => exact hpart (hlists (.inr h))
  | switch _ w =>
    rw [effect, Effect.followedBy, Bool.or_eq_true, Effect.ofVars_reads, Bool.and_eq_true,
      armChoice_eq] at h
    rcases h with h | h
    · exact mem_singleton.1 h ▸ mem_cons_self
    · exact hpart (hlists (.inr h.2))
  | negation | scope => exact hpart ⟨_, mem_cons_self, h⟩
  | ite =>
    rw [effect, Effect.or, Effect.followedBy, Bool.or_eq_true, Bool.or_eq_true,
      Bool.and_eq_true] at h
    refine hpart ?_
    simp only [parts, children, exists_mem_cons_iff]
    tauto
  | lambda =>
    rw [effect, Bool.and_eq_true] at h
    exact hpart ⟨_, mem_cons_self, h.1⟩
  | call =>
    rw [effect, Effect.ofVars_reads] at h
    exact Mode.mem_of_mem_vars h
  | genericCall =>
    rw [effect, Effect.ofVars_reads] at h
    exact mem_append.2 ((mem_append.1 h).imp_right Mode.mem_of_mem_vars)
  | foreign =>
    rw [effect, Effect.ofVars_reads] at h
    obtain ⟨a, ha, rfl⟩ := mem_map.1 h
    exact mem_map_of_mem (mem_filter.1 ha).1
  | unify =>
    rw [effect, Effect.ofVars_reads] at h
    exact mem_vars_of_reads h

end Goal

/-! ### Bound variables -/

/-- Only the given variables may be read without having been bound before. -/
def ReadsOnly (e : ProgVar → Effect) (B : ProgVar → Prop) : Prop :=
  ∀ v, (e v).reads = true → B v

/-- What a goal reads can be checked, as it is among what it mentions. -/
instance (modes : ProcRef → List Mode) (g : Goal) (B : ProgVar → Prop) [DecidablePred B] :
    Decidable (ReadsOnly (fun v => g.effect modes v) B) :=
  decidable_of_iff (∀ v ∈ g.mentions, (g.effect modes v).reads = true → B v)
    ⟨fun h v hv => h v (g.mem_mentions_of_reads hv) hv, fun h v _ hv => h v hv⟩

section

variable {e e' f f' : ProgVar → Effect} {B : ProgVar → Prop}

/-- What is read later may have been bound before. -/
theorem readsOnly_followedBy : ReadsOnly (fun v => (e v).followedBy (f v)) B ↔
    ReadsOnly e B ∧ ReadsOnly f fun v => B v ∨ (e v).binds = true := by
  simp only [ReadsOnly, Effect.followedBy, Bool.or_eq_true, Bool.and_eq_true,
    Bool.not_eq_true']
  constructor
  · intro h
    refine ⟨fun v hv => h v (.inl hv), fun v hv => ?_⟩
    cases hb : (e v).binds with
    | true => exact .inr rfl
    | false => exact .inl (h v (.inr ⟨hb, hv⟩))
  · rintro ⟨he, hf⟩ v (hv | ⟨hb, hv⟩)
    · exact he v hv
    · refine (hf v hv).resolve_right ?_
      rw [hb]
      exact Bool.false_ne_true

theorem readsOnly_or : ReadsOnly (fun v => (e v).or (f v)) B ↔ ReadsOnly e B ∧ ReadsOnly f B := by
  simp only [ReadsOnly, Effect.or, Bool.or_eq_true]
  constructor
  · intro h
    exact ⟨fun v hv => h v (.inl hv), fun v hv => h v (.inr hv)⟩
  · rintro ⟨he, hf⟩ v (hv | hv)
    · exact he v hv
    · exact hf v hv

/-- What becomes of an effect: what was bound still is, and if it was read
    where it was bound, then this is still so just in case a condition on what
    is bound holds. -/
structure Follows (e e' : ProgVar → Effect) (condition : (ProgVar → Prop) → Prop) : Prop where
  binds : ∀ v, (e v).binds = true → (e' v).binds = true
  reads : ∀ B₀ B : ProgVar → Prop, (∀ v, B₀ v → B v) → ReadsOnly e B₀ →
    (ReadsOnly e' B ↔ condition B)

variable {P Q : (ProgVar → Prop) → Prop}

theorem Follows.congr (h : Follows e e' P) (hPQ : ∀ B, P B ↔ Q B) : Follows e e' Q :=
  ⟨h.binds, fun B₀ B hB he => (h.reads B₀ B hB he).trans (hPQ B)⟩

/-- Variables are read, and nothing becomes of that. -/
theorem Follows.same (h : ∀ v, e' v = e v) (hP : ∀ B, P B) : Follows e e' P := by
  refine ⟨fun v hv => h v ▸ hv, fun B₀ B hB he => ⟨fun _ => hP B, fun _ v hv => ?_⟩⟩
  exact hB v (he v (h v ▸ hv))

theorem Follows.followedBy (h : Follows e e' P) (h' : Follows f f' Q) :
    Follows (fun v => (e v).followedBy (f v)) (fun v => (e' v).followedBy (f' v))
      fun B => P B ∧ Q fun v => B v ∨ (e' v).binds = true := by
  refine ⟨fun v hv => ?_, fun B₀ B hB he => ?_⟩
  · rw [Effect.followedBy, Bool.or_eq_true] at hv ⊢
    exact hv.imp (h.binds v) (h'.binds v)
  · obtain ⟨he, hf⟩ := readsOnly_followedBy.1 he
    rw [readsOnly_followedBy, h.reads B₀ B hB he, h'.reads _ _ (fun v hv => ?_) hf]
    exact hv.imp (hB v) (h.binds v)

theorem Follows.or (h : Follows e e' P) (h' : Follows f f' Q) :
    Follows (fun v => (e v).or (f v)) (fun v => (e' v).or (f' v)) fun B => P B ∧ Q B := by
  refine ⟨fun v hv => ?_, fun B₀ B hB he => ?_⟩
  · rw [Effect.or, Bool.and_eq_true] at hv ⊢
    exact hv.imp (h.binds v) (h'.binds v)
  · obtain ⟨he, hf⟩ := readsOnly_or.1 he
    rw [readsOnly_or, h.reads B₀ B hB he, h'.reads B₀ B hB hf]

theorem Follows.undone (h : Follows e e' P) :
    Follows (fun v => (e v).undone) (fun v => (e' v).undone) P :=
  ⟨fun _ hv => hv, h.reads⟩

theorem Follows.within (h : Follows e e' P) (inputs bound : List ProgVar) (unreachable : Bool) :
    Follows (fun v => ⟨(e v).reads && !inputs.contains v, unreachable || bound.contains v⟩)
      (fun v => ⟨(e' v).reads && !inputs.contains v, unreachable || bound.contains v⟩)
      fun B => P fun v => B v ∨ v ∈ inputs := by
  have hiff : ∀ (e : ProgVar → Effect) (b : ProgVar → Bool) (B : ProgVar → Prop),
      ReadsOnly (fun v => ⟨(e v).reads && !inputs.contains v, b v⟩) B ↔
        ReadsOnly e fun v => B v ∨ v ∈ inputs := by
    intro e b B
    simp only [ReadsOnly, Bool.and_eq_true, Bool.not_eq_true', contains_eq_mem,
      decide_eq_false_iff_not, and_imp]
    exact forall_congr' fun v => forall_congr' fun _ => or_iff_not_imp_right.symm
  refine ⟨fun _ hv => hv, fun B₀ B hB he => ?_⟩
  rw [hiff] at he ⊢
  exact h.reads _ _ (fun v hv => hv.imp_left (hB v)) he

end

end Clausal
