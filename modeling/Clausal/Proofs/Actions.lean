import Clausal.Proofs.TableMemory

/-!
# Actions at run time

An I/O action inside the window is done once. When the debugger goes back to
before it, its outputs are taken from the table of actions, under the number of
the action. Outside the window an action is just done.
-/

namespace Clausal

open List Goal Store Tables WitnessState Option Function VarTable

variable {σ : Store} {outs xs : List Value} {h : IoHead} {ts us : List Ty} {slots : IoSlots}
  {infoOf : Ty → Option Value} {i : Nat} {T : Type} {proc : Procedure} {w : World T} {kept : Bool}
  {n : Value} {body : Goal} {state : ProgVar} {tabled : Tabled} {k : Int} {ys : List Value}

/-! ### Heads of actions -/

/-- Whether a variable is an I/O state. -/
def VarTable.isState (vars : VarTable) (v : ProgVar) : Bool :=
  (vars.type v).toOption = some .ioState

/-- The head of an action, with the I/O states apart. -/
def Procedure.ioHead (p : Procedure) : TableEnv.IoHead where
  inputs := p.tabledHead.inputs.filter (!p.vars.isState ·)
  outputs := p.tabledHead.outputs.filter (!p.vars.isState ·)
  statesIn := p.tabledHead.inputs.filter p.vars.isState
  statesOut := p.tabledHead.outputs.filter p.vars.isState

/-- The values of the outputs that are no I/O states. -/
def Procedure.plainValues (p : Procedure) (ys : List Value) : List Value :=
  ((p.tabledHead.outputs.zip ys).filter (!p.vars.isState ·.1)).map Prod.snd

theorem Store.Binds.filter {vs : List ProgVar} (h : σ.Binds vs xs) (q : ProgVar → Bool) :
    σ.Binds (vs.filter q) (((vs.zip xs).filter (q ·.1)).map Prod.snd) := by
  induction h with
  | nil => exact .nil
  | @cons v x vs xs hx _ ih =>
    rw [zip_cons_cons, filter_cons, filter_cons]
    by_cases hq : q v = true
    · rw [if_pos hq, if_pos hq]
      exact .cons hx ih
    · rw [if_neg hq, if_neg hq]
      exact ih

theorem mem_of_filterAuxM {α ε : Type} {f : α → Except ε Bool} {as acc found : List α}
    (h : as.filterAuxM f acc = .ok found) {a : α} (ha : a ∈ found) :
    a ∈ acc ∨ a ∈ as ∧ f a = .ok true := by
  induction as generalizing acc with
  | nil =>
    cases h
    exact .inl ha
  | cons b as ih =>
    obtain ⟨t, ht, h⟩ := Module.except_bind_eq_ok.1 h
    rcases ih h with hmem | ⟨hmem, htrue⟩
    · cases t with
      | false => exact .inl hmem
      | true =>
        rcases mem_cons.1 hmem with rfl | hmem
        · exact .inr ⟨mem_cons_self, ht⟩
        · exact .inl hmem
    · exact .inr ⟨mem_cons_of_mem _ hmem, htrue⟩

theorem Procedure.mem_headOf {v : ProgVar} {mode : Mode} :
    v ∈ proc.headOf mode ↔ (v, mode) ∈ proc.head.zip proc.modes := by
  simp [Procedure.headOf]

theorem Procedure.statesIn_ne_nil (h : proc.hasIoStates = .ok true) :
    proc.ioHead.statesIn ≠ [] := by
  simp only [Procedure.hasIoStates, List.filterM, Module.except_bind_eq_ok] at h
  obtain ⟨states, ⟨found, hfound, heq⟩, h⟩ := h
  cases heq
  have hany := (Bool.and_eq_true_iff.1 (Except.ok.inj h)).1
  obtain ⟨⟨v, mode⟩, hmem, hmode⟩ := any_eq_true.1 hany
  obtain rfl : mode = .input := by simpa using hmode
  rcases mem_of_filterAuxM hfound (mem_reverse.1 hmem) with hnil | ⟨hzip, htype⟩
  · cases hnil
  · obtain ⟨t, ht, heq⟩ := Module.except_bind_eq_ok.1 htype
    have hstate : proc.vars.isState v = true := by
      simpa [VarTable.isState, ht, Except.toOption] using Except.ok.inj heq
    exact ne_nil_of_mem (mem_filter.2 ⟨Procedure.mem_headOf.2 hzip, hstate⟩)

theorem Procedure.outputs_subset_ioHead :
    proc.tabledHead.outputs ⊆ proc.ioHead.outputs ++ proc.ioHead.statesOut := by
  intro v hv
  simp only [Procedure.ioHead, mem_append, mem_filter, hv, true_and]
  cases proc.vars.isState v <;> simp

namespace TableEnv

open Synth

variable {R : Runtime T} {e : TableEnv} {s s' : WitnessState} {pred : Predicate} {goals : List Goal}
  {ρ : Store} {block : ProgVar} {b : Value}

theorem returns_splitStates {vs : List ProgVar} {r : List ProgVar × List ProgVar}
    (h : Returns (splitStates vs) s r s') :
    s' = s ∧ r = (vs.filter s.vars.isState, vs.filter (!s.vars.isState ·)) := by
  induction vs generalizing r with
  | nil =>
    obtain ⟨rfl, rfl⟩ := returns_pure.1 h
    exact ⟨rfl, rfl⟩
  | cons v vs ih =>
    simp only [splitStates, returns_bind, returns_varType, returns_pure] at h
    obtain ⟨type, _, ⟨ht, rfl⟩, rest, _, hrest, rfl, rfl⟩ := h
    obtain ⟨rfl, rfl⟩ := ih hrest
    refine ⟨rfl, ?_⟩
    have hstate : s'.vars.isState v = decide (type = .ioState) := by
      simp [VarTable.isState, ht, Except.toOption]
    by_cases htype : type = .ioState
    · simp [hstate, htype]
    · simp [hstate, htype]

/-- The head of a tabled action is split by the types of its variables. -/
theorem returns_ioHead (hr : Returns (ioHead proc.tabledHead) (.ofProc pred proc) h s') :
    s' = .ofProc pred proc ∧ h = proc.ioHead := by
  simp only [ioHead, returns_bind, returns_pure] at hr
  obtain ⟨ins, _, hin, outs, _, hout, rfl, rfl⟩ := hr
  obtain ⟨rfl, rfl⟩ := returns_splitStates hin
  obtain ⟨rfl, rfl⟩ := returns_splitStates hout
  exact ⟨rfl, rfl⟩

/-! ### The slots of an action -/

section

variable {purpose : IoPurpose}

theorem IoHead.slots_state : (h.slots purpose kept).firstOutput + h.outputs.length =
    (h.slots purpose kept).state := rfl

theorem IoHead.slots_size : (h.slots purpose kept).state ≤ (h.slots purpose kept).size := by
  change _ ≤ if _ then _ + 1 else _
  split
  · exact Nat.le_succ _
  · exact Nat.le_refl _

theorem IoHead.slots_kept (hkept : kept = true) (hout : h.statesOut ≠ []) :
    (h.slots purpose kept).state < (h.slots purpose kept).size := by
  change _ < if _ then _ + 1 else _
  rw [if_pos (by simpa [hkept] using hout)]
  exact Nat.lt_succ_self _

theorem IoHead.slots_decl : (h.slots .decl kept).firstInput + h.inputs.length =
    (h.slots .decl kept).firstOutput := rfl

end

theorem Described.filter {info : Ty → Option Value} {vars : List ProgVar}
    (h : Described R s σ info vars ts) (q : ProgVar → Bool) :
    ∃ ts', Described R s σ info (vars.filter q) ts' := by
  obtain ⟨htypes, hinfos⟩ := h
  suffices hsub : ∃ ts', Forall₂ (fun v t => s.vars.type v = .ok t) (vars.filter q) ts' ∧
      ∀ t ∈ ts', t ∈ ts by
    obtain ⟨ts', htypes', hmem⟩ := hsub
    exact ⟨ts', htypes', fun t ht => hinfos t (hmem t ht)⟩
  clear hinfos
  induction htypes with
  | nil => exact ⟨[], .nil, fun t ht => ht⟩
  | @cons v t vars ts ht _ ih =>
    obtain ⟨ts', htypes', hmem⟩ := ih
    rw [filter_cons]
    split
    · refine ⟨t :: ts', .cons ht htypes', fun t' ht' => ?_⟩
      rcases mem_cons.1 ht' with rfl | ht'
      · exact mem_cons_self
      · exact mem_cons_of_mem _ (hmem t' ht')
    · exact ⟨ts', htypes', fun t' ht' => mem_cons_of_mem _ (hmem t' ht')⟩

/-! ### Keeping the effect of an action -/

/-- The slots of an action. -/
abbrev ioSlots (e : TableEnv) (h : IoHead) (purpose : IoPurpose) : IoSlots :=
  h.slots purpose e.env.options.traceTableIoStates

/-- What is saved for the debugger. -/
def ioSaveFor (e : TableEnv) (purpose : IoPurpose) (h : IoHead) (slots : IoSlots)
    (block : ProgVar) : Synth (List Goal) :=
  if purpose = .decl then e.ioSaveEntry h slots block else pure []

/-- What is saved of the I/O states. -/
def ioSaveStates (e : TableEnv) (h : IoHead) (slots : IoSlots) (block : ProgVar) :
    Synth (List Goal) :=
  if e.env.options.traceTableIoStates then
    goalsOf (e.moveAtomic .saveIoState block slots.state) h.statesOut
  else pure []

theorem ioRecord_eq (body : Goal) (purpose : IoPurpose) (unit : IoUnit) (h : IoHead)
    (slots : IoSlots) (tip : ProgVar) : e.ioRecord body purpose unit h slots tip = do
      let action ← e.ioBracket unit body
      let (block, create) ← e.newBlock .memoCreateBlock tip slots.size
      let entry ← e.ioSaveFor purpose h slots block
      let outputs ← e.saveFrom block slots.firstOutput h.outputs
      let states ← e.ioSaveStates h slots block
      return action ++ create ++ entry ++ outputs ++ states := by
  unfold ioRecord ioSaveFor ioSaveStates
  cases purpose <;> cases e.env.options.traceTableIoStates <;> rfl

theorem adds_ioSaveEntry : Adds (e.ioSaveEntry h slots block) :=
  adds_bind (adds_newVar ..) fun _ => adds_bind adds_moveAtomic fun _ =>
    adds_bind adds_saveFrom fun _ => adds_pure _

theorem ioSaveEntry_runs (hK : R.KeepsSlots) (hr : Returns (e.ioSaveEntry h slots block) s goals s')
    (hσ : σ.Below s.vars.size) (hd : Described R s σ infoOf h.inputs ts) (hb : σ block = some b)
    (hxs : σ.Binds h.inputs xs) (hpos : 0 < (R.view w.tables).size b)
    (hsize : slots.firstInput + h.inputs.length ≤ (R.view w.tables).size b) :
    R.Runs 0 s'.vars.size goals σ w fun _ v => ∃ f, v = (R.view w.tables).setSlots b f := by
  simp only [ioSaveEntry, returns_bind, returns_newHandle, returns_pure] at hr
  obtain ⟨_, _, ⟨rfl, rfl⟩, saveEntry, s₁, hentry, saves, s₂, hsaves, rfl, rfl⟩ := hr
  have hentryVar := Grows.next hσ (Nat.zero_le _) (.cell (.ioEntry e.proc) [])
  have hs₁ : s.Extends s₁ := (WitnessState.Extends.addVar ..).trans (adds_moveAtomic.mono hentry)
  refine .construct .nil hentryVar ((moveAtomic_saves hK ?_ (hentryVar.keeps _ _ hb)
    (Nat.zero_le _) (by decide) (i := 0) hentry (set_self ..) hpos).append
      fun σ₁ w₁ hσ₁ _ hv₁ => ?_)
  · rw [size_addVar]
    exact hentryVar.below
  · have hk := hentryVar.keeps.trans hσ₁.keeps
    refine Runtime.Runs.imp (saveFrom_runs hK hσ₁.below (hk _ _ hb) (Nat.zero_le _) hsaves
      (hd.mono hs₁ hk) (hxs.keeps hk) ?_) ?_
    · rw [hv₁]
      exact hsize
    · rintro σ₂ v - ⟨f, hv, -, -⟩
      refine ⟨f, hv.trans ?_⟩
      rw [hv₁, Tables.setSlot, setSlots_setSlots]

theorem saveStates_runs (hK : R.KeepsSlots) {states : List ProgVar}
    (hr : Returns (goalsOf (e.moveAtomic .saveIoState block i) states) s goals s')
    (hσ : σ.Below s.vars.size) (hb : σ block = some b) (hstates : ∀ v ∈ states, (σ v).isSome)
    (hi : states ≠ [] → i < (R.view w.tables).size b) :
    R.Runs 0 s'.vars.size goals σ w fun _ v => ∃ f, v = (R.view w.tables).setSlots b f ∧
      (∀ j ≠ i, f j = (R.view w.tables).slot b j) ∧
      (states ≠ [] ∨ (∃ x, (R.view w.tables).slot b i = some (.saveIoState, x)) →
        ∃ x, f i = some (.saveIoState, x)) := by
  induction states generalizing s goals σ w with
  | nil =>
    obtain ⟨rfl, rfl⟩ := returns_pure.1 hr
    exact .nil hσ ⟨_, (setSlots_eq_self _ b).symm, fun _ _ => rfl,
      fun h => h.resolve_left fun hne => hne rfl⟩
  | cons v states ih =>
    rw [returns_goalsOf_cons] at hr
    obtain ⟨goals₁, s₁, goals₂, h₁, h₂, rfl⟩ := hr
    obtain ⟨x, hx⟩ := isSome_iff_exists.1 (hstates v mem_cons_self)
    have hlt := hi (cons_ne_nil _ _)
    refine (moveAtomic_saves hK hσ hb (Nat.zero_le _) (by decide) h₁ hx hlt).append
      fun σ₁ w₁ hσ₁ _ hv₁ => ?_
    refine Runtime.Runs.imp (ih h₂ hσ₁.below (hσ₁.keeps _ _ hb) (fun u hu => ?_) fun _ => ?_) ?_
    · obtain ⟨y, hy⟩ := isSome_iff_exists.1 (hstates u (mem_cons_of_mem _ hu))
      rw [hσ₁.keeps _ _ hy]
      rfl
    · rw [hv₁]
      exact hlt
    · rintro σ₂ u - ⟨f, hu, hf, hlast⟩
      rw [hv₁] at hu hf
      rw [hv₁, Tables.setSlot, slot_setSlots_self] at hlast
      refine ⟨f, hu.trans (setSlots_setSlots ..), fun j hj => ?_,
        fun _ => hlast (.inr ⟨x, update_self ..⟩)⟩
      rw [hf j hj, Tables.setSlot, slot_setSlots_self, update_of_ne hj]

end TableEnv

/-! ### What is done and what is kept -/

/-- An action is done: its body runs once, and the outputs are those that the
    body exits with. -/
structure Acts {T : Type} (proc : Procedure) (xs ys : List Value) (w : World T) (σ' : Store)
    (w' : World T) : Prop where
  outputs : σ'.Binds proc.tabledHead.outputs ys
  ran : bodyCalls w'.trace = bodyCalls w.trace ++ [xs]
  exited : w'.trace.getLast?.map (fun event => (event.port, event.values)) = some (.exit, ys)

theorem Acts.of_trace {w₀ w₁ w₂ : World T} {σ₁ σ₂ : Store} (h : Acts proc xs ys w σ₁ w₁)
    (ht : w.trace = w₀.trace) (hσ : σ₁.Keeps σ₂) (ht₂ : w₂.trace = w₁.trace) :
    Acts proc xs ys w₀ σ₂ w₂ where
  outputs := h.outputs.keeps hσ
  ran := by rw [ht₂, ← ht, h.ran]
  exited := by rw [ht₂, h.exited]

theorem Procedure.Answers.acts {M : Machine T} {same : T → T → Prop} {p : Procedure}
    (h : p.Answers M same xs σ w [ys]) (hmodel : p.determinism.codeModel ≠ .non) :
    (p.body.run M σ w).Once fun σ' w' => p.Answered σ ys σ' ∧ Acts p xs ys w σ' w' ∧
      same w.tables w'.tables := by
  refine Outcome.Once.imp (h.once hmodel) fun σ' w' ⟨hans, hvisit⟩ =>
    ⟨hans, ⟨hans.binds, ?_, ?_⟩, ?_⟩
  · exact hvisit.bodyCalls (by decide)
  · obtain ⟨-, ts, -, htrace⟩ := hvisit
    rw [htrace, List.getLast?_append]
    rfl
  · exact hvisit.1

namespace Tables

/-- The effect of an action is kept at a node: its outputs and, if they are kept
    at all, one of the I/O states that it makes. -/
def Performed (v : Tables) (m : Module) (h : TableEnv.IoHead) (slots : TableEnv.IoSlots)
    (us : List Ty) (kept : Bool) (n : Value) (outs : List Value) : Prop :=
  ∃ b, v.block n = some b ∧ m.Holds (v.slot b) slots.firstOutput us outs ∧
    (kept = true → ∃ x, v.slot b slots.state = some (.saveIoState, x)) ∧
    Forall₂ m.Fits us outs ∧ ∃ ρ : Store, ρ.Binds h.outputs outs

/-- What is on record about an action is there as long as its node is left alone. -/
theorem Performed.sameOn {v v' : Tables} {m : Module} {h : TableEnv.IoHead}
    {slots : TableEnv.IoSlots} {N : Value → Prop} (hp : v.Performed m h slots us kept n outs)
    (hv : v.SameOn N v') (hn : N n) : v'.Performed m h slots us kept n outs := by
  obtain ⟨b, hb, hheld, hstate, hrest⟩ := hp
  have hslot := (hv.slots n b hn (.inl hb)).2
  exact ⟨b, (hv.block n hn).trans hb, hslot.symm ▸ hheld, hslot.symm ▸ hstate, hrest⟩

end Tables

/-- The values can be the outputs of an action with inputs `xs` that are no I/O
    states. -/
structure Procedure.CanGive (p : Procedure) (m : Module) (rt : Accessors) (us : List Ty)
    (xs outs : List Value) : Prop where
  fits : Forall₂ m.Fits us outs
  inTurn : p.witnesses.InTurn rt p.tabledHead.inputs xs p.ioHead.outputs us outs

namespace TableEnv

open Synth

variable {R : Runtime T} {e : TableEnv} {s s' : WitnessState} {pred : Predicate} {goals : List Goal}
  {ρ : Store} {block tip : ProgVar} {b : Value} {N : Value → Prop} {purpose : IoPurpose}
  {unit : IoUnit}

theorem adds_ioBracket : Adds (e.ioBracket unit body) := by
  unfold ioBracket
  cases unit with
  | alone => exact adds_pure _
  | unitize =>
    exact adds_bind (adds_newVar ..) fun _ => adds_bind (adds_call ..) fun _ =>
      adds_bind (adds_call ..) fun _ => adds_pure _

/-- The action is performed, once and with one answer. -/
theorem ioBracket_run (hR : R.NumbersActions) {P : List Value → Prop}
    (h : Returns (e.ioBracket unit proc.body) s goals s')
    (hat : proc.AtNode pred s xs tip n σ) (hmodel : proc.determinism.codeModel ≠ .non)
    (hbody : ∀ σ w, proc.Entered xs σ → ∃ ys, P ys ∧
      proc.Answers R.machine (R.SameTable N) xs σ w [ys]) :
    (Goal.runAll R.machine goals σ w).Once fun σ' w' => ∃ ys, P ys ∧ Acts proc xs ys w σ' w' ∧
      σ.Keeps σ' ∧ σ'.Below s'.vars.size ∧ R.SameTable N w.tables w'.tables := by
  cases unit with
  | alone =>
    obtain ⟨rfl, rfl⟩ := returns_pure.1 h
    obtain ⟨ys, hys, hans⟩ := hbody σ w hat.entered
    rw [runAll_single]
    exact Outcome.Once.imp (hans.acts hmodel) fun σ' w' ⟨hans, hacts, hsame⟩ =>
      ⟨ys, hys, hacts, hans.keeps hat.entered, hans.below hat.below hat.grown.size_le, hsame⟩
  | unitize =>
    simp only [ioBracket, returns_bind, returns_newVar, returns_pure] at h
    obtain ⟨_, _, ⟨rfl, rfl⟩, left, s₁, hl, right, s₂, hr, rfl, rfl⟩ := h
    obtain ⟨rfl, hleft⟩ := returns_call [] [s.nextVar] hl rfl rfl
    obtain ⟨rfl, hright⟩ := returns_call [s.nextVar] [] hr rfl rfl
    obtain ⟨x, hopen⟩ := hR.leftBracket w.tables
    rw [runAll_cons]
    refine Outcome.Once.bind (hopen.run hleft .nil) ?_
    rintro σ₁ w₁ ⟨hσ₁, ht₁, hv₁⟩
    rw [setMany_single] at hσ₁
    have hgrows : σ.Grows proc.vars.size (s.vars.size + 1) σ₁ :=
      hσ₁ ▸ .next hat.below hat.grown.size_le x
    have htraced : σ₁ s.nextVar = some x := by rw [hσ₁, set_self]
    have hentered₁ := hat.entered.grows hgrows
    obtain ⟨ys, hys, hans⟩ := hbody σ₁ w₁ hentered₁
    rw [runAll_cons]
    refine Outcome.Once.bind (hans.acts hmodel) ?_
    rintro σ₂ w₂ ⟨hans, hacts, hsame⟩
    have hk := hans.keeps hentered₁
    rw [runAll_single]
    refine Outcome.Once.imp ((hR.rightBracket x w₂.tables).run hright
      (.cons (hk _ _ htraced) .nil)) ?_
    rintro σ₃ w₃ ⟨hσ₃, ht₃, hv₃⟩
    rw [setMany_nil] at hσ₃
    subst hσ₃
    refine ⟨ys, hys, hacts.of_trace ht₁ (.refl _) ht₃, hgrows.keeps.trans hk, ?_, ?_⟩
    · rw [size_addVar]
      exact hans.below hgrows.below (Nat.le_succ_of_le hat.grown.size_le)
    · rw [Runtime.SameTable, hv₃, ← hv₁]
      exact hsame

theorem adds_ioSaveFor : Adds (e.ioSaveFor purpose h slots block) := by
  unfold ioSaveFor
  split
  · exact adds_ioSaveEntry
  · exact adds_pure _

theorem ioEntry_runs (hK : R.KeepsSlots) {entry : List Goal}
    (hr : Returns (e.ioSaveFor purpose h (e.ioSlots h purpose) block) s entry s')
    (hσ : σ.Below s.vars.size)
    (hd : Described R s σ infoOf h.inputs ts) (hb : σ block = some b) (hxs : σ.Binds h.inputs xs)
    (hsize : (R.view w.tables).size b = (e.ioSlots h purpose).size) :
    R.Runs 0 s'.vars.size entry σ w fun _ v => ∃ f, v = (R.view w.tables).setSlots b f := by
  cases purpose with
  | proc =>
    obtain ⟨rfl, rfl⟩ := returns_pure.1 hr
    exact .nil hσ ⟨_, (setSlots_eq_self _ b).symm⟩
  | decl =>
    have hle : (e.ioSlots h .decl).state ≤ (e.ioSlots h .decl).size := IoHead.slots_size
    have hstate : (e.ioSlots h .decl).firstOutput + h.outputs.length =
        (e.ioSlots h .decl).state := IoHead.slots_state
    have hfirst : (e.ioSlots h .decl).firstInput + h.inputs.length =
        (e.ioSlots h .decl).firstOutput := IoHead.slots_decl
    have hone : (e.ioSlots h .decl).firstInput = 1 := rfl
    refine ioSaveEntry_runs hK hr hσ hd hb hxs ?_ ?_ <;> omega

/-- A block for the action is made and filled. -/
theorem ioKeep_runs (hR : R.NumbersActions) (hK : R.KeepsSlots) {infoIn infoOut : Ty → Option Value}
    {create entry saves states : List Goal} {s₁ s₂ s₃ : WitnessState}
    (hnew : Returns (e.newBlock .memoCreateBlock tip (e.ioSlots h purpose).size) s
      (block, create) s₁)
    (hentry : Returns (e.ioSaveFor purpose h (e.ioSlots h purpose) block) s₁ entry s₂)
    (hsaves : Returns (e.saveFrom block (e.ioSlots h purpose).firstOutput h.outputs) s₂ saves s₃)
    (hstates : Returns (e.ioSaveStates h (e.ioSlots h purpose) block) s₃ states s')
    (hσ : σ.Below s.vars.size) (htip : σ tip = some n)
    (hblock : (R.view w.tables).block n = none) (hin : Described R s σ infoIn h.inputs ts)
    (hxs : σ.Binds h.inputs xs) (hus : Described R s σ infoOut h.outputs us)
    (houts : σ.Binds h.outputs outs) (hmade : ∀ v ∈ h.statesOut, (σ v).isSome)
    (hne : h.statesOut ≠ []) :
    R.Runs 0 s'.vars.size (create ++ (entry ++ (saves ++ states))) σ w fun _ v => ∃ b f,
      (R.view w.tables).IsFresh b ∧
      v = (((R.view w.tables).setBlock n b (e.ioSlots h purpose).size).setState n
        .succeeded).setSlots b f ∧
      e.env.Holds f (e.ioSlots h purpose).firstOutput us outs ∧
      (e.env.options.traceTableIoStates = true →
        ∃ x, f (e.ioSlots h purpose).state = some (.saveIoState, x)) := by
  have hs₁ : s.Extends s₁ := adds_newBlock.mono hnew
  have hs₂ : s.Extends s₂ := hs₁.trans (adds_ioSaveFor.mono hentry)
  refine (newBlock_runs hnew rfl rfl (Nat.zero_le _) hσ htip
    (hR.create n _ w.tables hblock)).append ?_
  rintro σ₁ w₁ hσ₁ - ⟨b, hfresh, hb, hv₁⟩
  have hsize : (R.view w₁.tables).size b = (e.ioSlots h purpose).size := by
    rw [hv₁]
    exact update_self ..
  refine (ioEntry_runs hK hentry hσ₁.below (hin.mono hs₁ hσ₁.keeps) hb (hxs.keeps hσ₁.keeps)
    hsize).append ?_
  rintro σ₂ w₂ hσ₂ - ⟨f₂, hv₂⟩
  have hk₂ := hσ₁.keeps.trans hσ₂.keeps
  have hfits : (e.ioSlots h purpose).firstOutput + h.outputs.length ≤
      (R.view w₂.tables).size b := by
    rw [hv₂, size_setSlots, hsize, IoHead.slots_state]
    exact IoHead.slots_size
  refine (saveFrom_runs hK hσ₂.below (hσ₂.keeps _ _ hb) (Nat.zero_le _) hsaves (hus.mono hs₂ hk₂)
    (houts.keeps hk₂) hfits).append ?_
  rintro σ₃ w₃ hσ₃ - ⟨f₃, hv₃, -, hheld⟩
  rw [hv₂, hv₁, setSlots_setSlots] at hv₃
  unfold ioSaveStates at hstates
  split at hstates
  · next hkept =>
    have hk₃ := hk₂.trans hσ₃.keeps
    refine Runtime.Runs.imp (saveStates_runs hK hstates hσ₃.below (hσ₃.keeps _ _ (hσ₂.keeps _ _ hb))
      (fun v hv => ?_) (fun _ => ?_)) ?_
    · obtain ⟨x, hx⟩ := isSome_iff_exists.1 (hmade v hv)
      rw [hk₃ _ _ hx]
      rfl
    · rw [hv₃, size_setSlots, ← hv₁, hsize]
      exact IoHead.slots_kept hkept hne
    · rintro σ₄ v - ⟨f, hv, hf, hlast⟩
      rw [hv₃, slot_setSlots_self] at hf
      refine ⟨b, f, hfresh, ?_, hheld.congr fun j _ hj => hf j ?_, fun _ => hlast (.inl hne)⟩
      · rw [hv, hv₃, setSlots_setSlots]
      · -- The state comes behind the outputs.
        have hlen := hus.types.length_eq
        have hstate : (e.ioSlots h purpose).firstOutput + h.outputs.length =
            (e.ioSlots h purpose).state := IoHead.slots_state
        omega
  · next hkept =>
    obtain ⟨rfl, rfl⟩ := returns_pure.1 hstates
    exact .nil hσ₃.below ⟨b, f₃, hfresh, hv₃, hheld, fun hkept' => absurd hkept' hkept⟩

theorem returns_ioRecord (hr : Returns (e.ioRecord body purpose unit h slots tip) s goals s') :
    ∃ action s₁ block create s₂ entry s₃ saves s₄ states,
      Returns (e.ioBracket unit body) s action s₁ ∧
      Returns (e.newBlock .memoCreateBlock tip slots.size) s₁ (block, create) s₂ ∧
      Returns (e.ioSaveFor purpose h slots block) s₂ entry s₃ ∧
      Returns (e.saveFrom block slots.firstOutput h.outputs) s₃ saves s₄ ∧
      Returns (e.ioSaveStates h slots block) s₄ states s' ∧
      goals = action ++ (create ++ (entry ++ (saves ++ states))) := by
  simp only [ioRecord_eq, returns_bind, returns_pure] at hr
  obtain ⟨action, s₁, haction, ⟨block, create⟩, s₂, hnew, entry, s₃, hentry, saves, s₄, hsaves,
    states, s₅, hstates, rfl, rfl⟩ := hr
  exact ⟨action, s₁, block, create, s₂, entry, s₃, saves, s₄, states, haction, hnew, hentry, hsaves,
    hstates, by simp⟩

/-- An action is done, and its effect kept at its node. -/
theorem ioRecord_run (hR : R.NumbersActions) (hK : R.KeepsSlots)
    (h : Returns (e.ioRecord proc.body purpose unit proc.ioHead (e.ioSlots proc.ioHead purpose) tip)
      s goals s') (hus : proc.vars.types proc.ioHead.outputs = .ok us)
    (hts : Described R s σ infoOf proc.tabledHead.inputs ts)
    (hat : proc.AtNode pred s xs tip n σ) (hn : N n) (hmodel : proc.determinism.codeModel ≠ .non)
    (hne : proc.ioHead.statesOut ≠ [])
    (hbody : ∀ σ w, proc.Entered xs σ → ∃ ys,
      proc.CanGive e.env R.accessors us xs (proc.plainValues ys) ∧
      proc.Answers R.machine (R.SameTable N) xs σ w [ys])
    (hblock : (R.view w.tables).block n = none) :
    (Goal.runAll R.machine goals σ w).Once fun σ' w' => ∃ ys, Acts proc xs ys w σ' w' ∧
      (R.view w'.tables).Performed e.env proc.ioHead (e.ioSlots proc.ioHead purpose) us
        e.env.options.traceTableIoStates n (proc.plainValues ys) ∧
      (R.view w.tables).SameOn (fun k => N k ∧ k ≠ n) (R.view w'.tables) := by
  obtain ⟨action, s₁, block, create, s₂, entry, s₃, saves, s₄, states, haction, hnew, hentry,
    hsaves, hstates, rfl⟩ := returns_ioRecord h
  have hs₁ : s.Extends s₁ := adds_ioBracket.mono haction
  rw [runAll_append]
  refine Outcome.Once.bind (ioBracket_run hR haction hat hmodel hbody) ?_
  rintro σ₁ w₁ ⟨ys, hcan, hacts, hk, hσ₁, hsame⟩
  have hxs := hat.entered.binds.keeps hk
  have houts : σ₁.Binds proc.ioHead.outputs (proc.plainValues ys) := hacts.outputs.filter _
  have hmade : ∀ v ∈ proc.ioHead.statesOut, (σ₁ v).isSome :=
    fun v hv => hacts.outputs.isSome v (mem_of_mem_filter hv)
  have hdesc := Procedure.described_of_inTurn (R := R) hcan.inTurn hus (hat.grown.trans hs₁) hxs
    houts
  obtain ⟨ts', hin⟩ := (hts.mono hs₁ hk).filter (!proc.vars.isState ·)
  have hkeep := ioKeep_runs hR hK hnew hentry hsaves hstates hσ₁ (hk _ _ hat.tip)
    ((hsame.block n hn).trans hblock) hin (hxs.filter _) hdesc houts hmade hne
  refine Outcome.Once.imp hkeep fun σ₂ w₂ ⟨hσ₂, ht₂, b, f, hfresh, hv₂, hheld, hstate⟩ =>
    ⟨ys, hacts.of_trace rfl hσ₂.keeps ht₂, ⟨b, ?_, ?_, ?_, hcan.fits, σ₁, houts⟩, ?_⟩
  · rw [hv₂]
    exact update_self ..
  · rw [hv₂, slot_setSlots_self]
    exact hheld
  · rw [hv₂, slot_setSlots_self]
    exact hstate
  · rw [hv₂]
    exact (hsame.mono fun _ hk => hk.1).trans
      ((sameOn_newBlock hfresh _ _ f).mono fun _ hk => hk.2)

/-! ### Taking the effect of an action from the table -/

theorem IoHead.map_fst_statePairs (hin : h.statesIn ≠ []) :
    h.statePairs.map Prod.fst = h.statesOut := by
  have hpair : ∀ p : ProgVar × Nat,
      ((h.statesIn[p.2 % h.statesIn.length]?).map (p.1, ·)).map Prod.fst = some p.1 := by
    intro p
    rw [List.getElem?_eq_getElem (Nat.mod_lt _ (length_pos_iff.2 hin))]
    rfl
  rw [statePairs, map_filterMap]
  simp only [hpair, filterMap_eq_map']
  exact zipIdx_map_fst ..

theorem IoHead.mem_statePairs {p : ProgVar × ProgVar} (hp : p ∈ h.statePairs) :
    p.1 ∈ h.statesOut ∧ p.2 ∈ h.statesIn := by
  simp only [statePairs, mem_filterMap, map_eq_some_iff] at hp
  obtain ⟨⟨state, i⟩, hmem, before, hbefore, rfl⟩ := hp
  exact ⟨(mem_zipIdx' hmem).2 ▸ getElem_mem _, mem_of_getElem? hbefore⟩

theorem IoHead.exists_statePair (hin : h.statesIn ≠ []) (hstate : state ∈ h.statesOut) :
    ∃ before, (state, before) ∈ h.statePairs := by
  obtain ⟨i, hi, rfl⟩ := mem_iff_getElem.1 hstate
  have hlt : i % h.statesIn.length < h.statesIn.length :=
    Nat.mod_lt _ (length_pos_iff.2 hin)
  refine ⟨h.statesIn[i % h.statesIn.length], mem_filterMap.2 ⟨(h.statesOut[i], i), ?_, ?_⟩⟩
  · exact mem_zipIdx_iff_getElem?.2 (List.getElem?_eq_getElem hi)
  · simp [List.getElem?_eq_getElem hlt]

theorem restoreState_sets (hK : R.KeepsSlots) {before : ProgVar}
    (hr : Returns (if kept then e.moveAtomic .restoreIoState block i state
      else pure [.assign state before e.context]) s goals s') (hσ : σ.Below s.vars.size)
    (hstate : state.index < s.vars.size) (hb : σ block = some b)
    (hslot : kept = true → ∃ x, (R.view w.tables).slot b i = some (.saveIoState, x))
    (hbefore : (σ before).isSome) : ∃ x, R.Sets s.vars.size s'.vars.size goals σ w state x := by
  split at hr
  · next hkept =>
    obtain ⟨x, hx⟩ := hslot hkept
    exact ⟨x, moveAtomic_restores hK hσ hb (by decide) hr hstate hx⟩
  · obtain ⟨rfl, rfl⟩ := returns_pure.1 hr
    obtain ⟨x, hx⟩ := isSome_iff_exists.1 hbefore
    refine ⟨x, ?_⟩
    unfold Runtime.Sets
    rw [runAll_single, run_assign]
    simp only [Machine.runUnify, hx]
    exact .intro ⟨set_self .., fun u hu _ => set_of_ne hu ..,
      hσ.set (Nat.le_refl _) hstate, rfl, rfl⟩

theorem adds_restoreState {before : ProgVar} :
    Adds (if kept then e.moveAtomic .restoreIoState block i state
      else pure [.assign state before e.context]) := by
  split
  · exact adds_moveAtomic
  · exact adds_pure _

/-- The states are restored from the block, or are those from before the action. -/
theorem restoreStates_run (hK : R.KeepsSlots) {pairs : List (ProgVar × ProgVar)}
    (hr : Returns (goalsOf (fun (state, before) =>
      if kept then e.moveAtomic .restoreIoState block i state
      else pure [.assign state before e.context]) pairs) s goals s') (hσ : σ.Below s.vars.size)
    (hb : σ block = some b)
    (hslot : kept = true → ∃ x, (R.view w.tables).slot b i = some (.saveIoState, x))
    (hpairs : ∀ p ∈ pairs, p.1.index < s.vars.size ∧ p.1 ≠ block ∧ (σ p.2).isSome) :
    (Goal.runAll R.machine goals σ w).Once fun σ' w' => (∀ p ∈ pairs, (σ' p.1).isSome) ∧
      (∀ u, u ∉ pairs.map Prod.fst → u.index < s.vars.size → σ' u = σ u) ∧
      w'.trace = w.trace ∧ R.view w'.tables = R.view w.tables := by
  induction pairs generalizing s goals σ w with
  | nil =>
    obtain ⟨rfl, rfl⟩ := returns_pure.1 hr
    exact .intro ⟨fun p hp => absurd hp not_mem_nil, fun _ _ _ => rfl, rfl, rfl⟩
  | cons pair pairs ih =>
    obtain ⟨state, before⟩ := pair
    rw [returns_goalsOf_cons] at hr
    obtain ⟨goals₁, s₁, goals₂, h₁, h₂, rfl⟩ := hr
    obtain ⟨hlt, hne, hbefore⟩ := hpairs (state, before) mem_cons_self
    obtain ⟨x, hsets⟩ := restoreState_sets hK h₁ hσ hlt hb hslot hbefore
    have hs₁ : s.Extends s₁ := adds_restoreState.mono h₁
    rw [runAll_append]
    refine Outcome.Once.bind hsets ?_
    rintro σ₁ w₁ ⟨hx, hother, hσ₁, ht₁, hv₁⟩
    have hpairs₁ : ∀ p ∈ pairs, p.1.index < s₁.vars.size ∧ p.1 ≠ block ∧ (σ₁ p.2).isSome := by
      intro p hp
      obtain ⟨hlt, hne, hsome⟩ := hpairs p (mem_cons_of_mem _ hp)
      refine ⟨Nat.lt_of_lt_of_le hlt hs₁.size_le, hne, ?_⟩
      by_cases heq : p.2 = state
      · rw [heq, hx]
        rfl
      · obtain ⟨y, hy⟩ := isSome_iff_exists.1 hsome
        rw [hother _ heq (hσ _ _ hy)]
        exact hsome
    refine Outcome.Once.imp (ih h₂ hσ₁ ((hother block hne.symm (hσ _ _ hb)).trans hb)
      (by rwa [hv₁]) hpairs₁) fun σ₂ w₂ ⟨hmade, hrest, ht₂, hv₂⟩ =>
        ⟨fun p hp => ?_, fun u hu hlt => ?_, ht₂.trans ht₁, hv₂.trans hv₁⟩
    · rcases mem_cons.1 hp with rfl | hp
      · -- A state that comes once more is bound then.
        by_cases hmem : state ∈ pairs.map Prod.fst
        · obtain ⟨p, hp, heq⟩ := mem_map.1 hmem
          exact heq ▸ hmade p hp
        · rw [hrest state hmem (Nat.lt_of_lt_of_le hlt hs₁.size_le), hx]
          rfl
      · exact hmade p hp
    · rw [map_cons, mem_cons, not_or] at hu
      rw [hrest u hu.2 (Nat.lt_of_lt_of_le hlt hs₁.size_le), hother u hu.1 hlt]

/-- The effect of an action is taken from its node. The body is not run. -/
theorem ioRestore_run (hR : R.NumbersActions) (hK : R.KeepsSlots)
    (h : Returns (e.ioRestore proc.ioHead (e.ioSlots proc.ioHead purpose) tip) s goals s')
    (hus : proc.vars.types proc.ioHead.outputs = .ok us)
    (hts : proc.vars.types proc.tabledHead.outputs = .ok ts)
    (hat : proc.AtNode pred s xs tip n σ)
    (hapart : ∀ v ∈ proc.tabledHead.outputs, v ∉ proc.tabledHead.inputs)
    (hin : proc.ioHead.statesIn ≠ [])
    (hturn : proc.witnesses.InTurn R.accessors proc.tabledHead.inputs xs proc.ioHead.outputs us
      outs) (hw : (R.view w.tables).Performed e.env proc.ioHead (e.ioSlots proc.ioHead purpose) us
      e.env.options.traceTableIoStates n outs) :
    (Goal.runAll R.machine goals σ w).Once fun σ' w' => σ'.Binds proc.ioHead.outputs outs ∧
      (∀ v ∈ proc.ioHead.statesOut, (σ' v).isSome) ∧ w'.trace = w.trace ∧
      R.view w'.tables = R.view w.tables := by
  simp only [ioRestore, returns_bind, returns_newHandle, returns_pure] at h
  obtain ⟨_, _, ⟨rfl, rfl⟩, get, s₁, hget, outputs, s₂, houtputs, states, s₃, hstates, rfl,
    rfl⟩ := h
  obtain ⟨rfl, hcalls⟩ := returns_call [tip] [s.nextVar] hget rfl rfl
  obtain ⟨b, hb, hheld, hslot, hfits, ρ, hρ⟩ := hw
  have hlt : ∀ v ∈ proc.tabledHead.outputs, v.index < proc.vars.size :=
    lt_size_of_types (types_eq_ok.1 hts)
  have hs₁ : s.Extends (s.addVar "AnswerBlock" Handle.block.type) := .addVar ..
  have hs₂ := hs₁.trans (adds_restoreFrom.mono houtputs)
  rw [cons_append, runAll_cons]
  refine Outcome.Once.bind ((hR.get n b w.tables hb).run hcalls (.cons hat.tip .nil)) ?_
  rintro σ₁ w₁ ⟨hσ₁, ht₁, hv₁⟩
  rw [setMany_single] at hσ₁
  have hgrows : σ.Grows proc.vars.size (s.vars.size + 1) σ₁ :=
    hσ₁ ▸ .next hat.below hat.grown.size_le b
  have hblock : σ₁ s.nextVar = some b := by rw [hσ₁, set_self]
  have hentered := hat.entered.grows hgrows
  rw [runAll_append]
  have hrestores := restoreFrom_runs (w := w₁) hK
    (by rw [size_addVar]; exact hgrows.below) hblock houtputs
    ((types_eq_ok.1 hus).imp fun _ _ h => (hat.grown.trans hs₁).vars.type_eq h)
    (fun t source h => (hat.grown.trans hs₁).infos t source h) hturn hentered.binds
    (hfits.imp fun _ _ h => h.single) (hv₁ ▸ hheld) hρ fun v hv x hx => by
      have hout := mem_of_mem_filter hv
      exact absurd (hlt v hout) (Nat.not_lt.2 ((hentered.only v x hx).resolve_left (hapart v hout)))
  refine Outcome.Once.bind hrestores ?_
  rintro σ₂ w₂ ⟨hσ₂, ht₂, houts, hv₂⟩
  have hview : R.view w₂.tables = R.view w.tables := hv₂.trans hv₁
  have hpairs : ∀ p ∈ proc.ioHead.statePairs,
      p.1.index < s₂.vars.size ∧ p.1 ≠ s.nextVar ∧ (σ₂ p.2).isSome := by
    intro p hp
    obtain ⟨hout, hin⟩ := IoHead.mem_statePairs hp
    have hsize := hlt p.1 (mem_of_mem_filter hout)
    refine ⟨Nat.lt_of_lt_of_le hsize (hat.grown.trans hs₂).size_le, ?_, ?_⟩
    · intro heq
      rw [heq] at hsize
      exact Nat.not_lt.2 hat.grown.size_le hsize
    · exact (hentered.binds.keeps hσ₂.keeps).isSome p.2 (mem_of_mem_filter hin)
  refine Outcome.Once.imp (restoreStates_run hK hstates hσ₂.below (hσ₂.keeps _ _ hblock)
    (hview ▸ hslot) hpairs) ?_
  rintro σ₃ w₃ ⟨hmade, hrest, ht₃, hv₃⟩
  refine ⟨?_, fun v hv => ?_, (ht₃.trans ht₂).trans ht₁, hv₃.trans hview⟩
  · -- The outputs are none of the I/O states.
    refine ((forall₂_and_left _ _).2 ⟨fun v hv => hv, houts⟩).imp ?_
    rintro v x ⟨hv, hx⟩
    rw [hrest v ?_ (hσ₂.below v x hx), hx]
    intro hmem
    obtain ⟨p, hp, rfl⟩ := mem_map.1 hmem
    have hstate := (mem_filter.1 (IoHead.mem_statePairs hp).1).2
    have hplain := (mem_filter.1 hv).2
    rw [hstate] at hplain
    cases hplain
  · obtain ⟨before, hpair⟩ := IoHead.exists_statePair hin hv
    exact hmade _ hpair

/-! ### Actions -/

theorem adds_ioRestore : Adds (e.ioRestore h slots tip) :=
  adds_bind (adds_newVar ..) fun _ => adds_bind (adds_call ..) fun _ =>
    adds_bind adds_restoreFrom fun _ =>
      adds_bind (adds_goalsOf (fun (_, _) => adds_restoreState) _) fun _ => adds_pure _

section

variable
  (hr : Returns (e.tableIo proc.body purpose unit proc.tabledHead) (.ofProc pred proc) tabled s')

include hr

/-- What the code for an action is made of. -/
theorem returns_tableIo : ∃ inRange lookup hasAnswer restore record s₁ s₂ s₃,
      inRange.Calls .ioInRange []
        [⟨proc.vars.size⟩, ⟨proc.vars.size + 1⟩, ⟨proc.vars.size + 2⟩] ∧
      lookup.Calls .lookupStartInt
        [⟨proc.vars.size⟩, ⟨proc.vars.size + 1⟩, ⟨proc.vars.size + 2⟩] [⟨proc.vars.size + 3⟩] ∧
      hasAnswer.Calls .ioHasAnswer [⟨proc.vars.size + 3⟩] [] ∧
      (WitnessState.ofProc pred proc).Extends s₁ ∧ s₁.vars.size = proc.vars.size + 4 ∧
      s₁.Extends s₂ ∧
      Returns (e.ioRestore proc.ioHead (e.ioSlots proc.ioHead purpose)
        ⟨proc.vars.size + 3⟩) s₁ restore s₂ ∧
      Returns (e.ioRecord proc.body purpose unit proc.ioHead (e.ioSlots proc.ioHead purpose)
        ⟨proc.vars.size + 3⟩) s₂ record s₃ ∧
      tabled.body = .ifThenElse inRange (.conjoin [lookup, .ifThenElse hasAnswer
        (.conjoin restore e.context) (.conjoin record e.context) e.context] e.context)
        proc.body e.context ∧
      ∃ ins outs s₄, tabled.layout = .ioTable purpose unit ins outs ∧
        Returns (tabledArgs (e.ioSlots proc.ioHead purpose).firstInput proc.ioHead.inputs)
          s₃ ins s₄ ∧
        Returns (tabledArgs (e.ioSlots proc.ioHead purpose).firstOutput proc.ioHead.outputs)
          s₄ outs s' := by
  simp only [tableIo, returns_bind, returns_newHandle, returns_newVar, returns_pure] at hr
  obtain ⟨head, s₀, hhead, _, _, ⟨rfl, rfl⟩, _, _, ⟨hcounter, rfl⟩, _, _, ⟨hstart, rfl⟩, inRange,
    s₁, hin, _, _, ⟨htip, rfl⟩, lookup, s₂, hlook, hasAnswer, s₃, hhas, restore, s₄, hrestore,
    record, s₅, hrecord, ins, s₆, hins, outs, s₇, houts, rfl, rfl⟩ := hr
  obtain ⟨rfl, rfl⟩ := returns_ioHead hhead
  have hsize : (WitnessState.ofProc pred proc).vars.size = proc.vars.size := rfl
  have hroot : (WitnessState.ofProc pred proc).nextVar = ⟨proc.vars.size⟩ := rfl
  rw [nextVar_addVar, hsize] at hcounter
  rw [nextVar_addVar, size_addVar, hsize] at hstart
  rw [hroot] at hin hlook
  subst hcounter hstart
  obtain ⟨rfl, hinRange⟩ := returns_call [] [_, _, _] hin rfl rfl
  rw [nextVar_addVar, size_addVar, size_addVar,
    hsize] at htip
  subst htip
  obtain ⟨rfl, hlookup⟩ := returns_call [_, _, _] [_] hlook rfl rfl
  obtain ⟨rfl, hhasAnswer⟩ := returns_call [_] [] hhas rfl rfl
  refine ⟨inRange, lookup, hasAnswer, restore, record, _, s₄, s₅, hinRange, hlookup, hhasAnswer,
    ?_, ?_, adds_ioRestore.mono hrestore, hrestore, hrecord, rfl, ins, outs, s₆, rfl, hins, houts⟩
  · exact (((WitnessState.Extends.addVar ..).trans (.addVar ..)).trans (.addVar ..)).trans
      (.addVar ..)
  · simp only [size_addVar, hsize]

variable (hR : R.NumbersActions)

include hR

/-- Outside the window, the body is run as it is. -/
theorem tableIo_outside (haction : R.action w.tables = none) (σ : Store) :
    ∃ w₁, w₁.trace = w.trace ∧ R.view w₁.tables = R.view w.tables ∧
      tabled.body.run R.machine σ w = proc.body.run R.machine σ w₁ := by
  obtain ⟨inRange, lookup, hasAnswer, restore, record, s₁, s₂, s₃, hinRange, -, -, -, -, -, -, -,
    hbody, -⟩ := returns_tableIo hr
  obtain ⟨w₁, hrun, ht, hv⟩ := (hR.outOfRange w.tables haction).run hinRange
    (.nil : σ.Binds [] [])
  refine ⟨w₁, ht, hv, ?_⟩
  rw [hbody, run_ifThenElse, hrun]
  rfl

variable (hσ : proc.IsCall R.accessors ts xs σ) (haction : R.action w.tables = some k)

include hσ haction

/-- In the window, the code goes to the node of the action, and restores or records there. -/
theorem tableIo_inside :
    ∃ tip restore record s₁ s₂ s₃, ∃ (σ₁ : Store) (w₁ : World T), s₁.Extends s₂ ∧
      Returns (e.ioRestore proc.ioHead (e.ioSlots proc.ioHead purpose) tip) s₁ restore s₂ ∧
      Returns (e.ioRecord proc.body purpose unit proc.ioHead (e.ioSlots proc.ioHead purpose) tip)
        s₂ record s₃ ∧
      proc.AtNode pred s₁ xs tip (R.actionNode k) σ₁ ∧ σ.Keeps σ₁ ∧ w₁.trace = w.trace ∧
      R.view w₁.tables = R.view w.tables ∧
      tabled.body.run R.machine σ w =
        if ((R.view w.tables).block (R.actionNode k)).isSome then
          Goal.runAll R.machine restore σ₁ w₁
        else Goal.runAll R.machine record σ₁ w₁ := by
  obtain ⟨inRange, lookup, hasAnswer, restore, record, s₁, s₂, s₃, hinRange, hlookup, hhasAnswer,
    hs₁, hsize, hs₂, hrestore, hrecord, hbody, -⟩ := returns_tableIo hr
  -- The number of the action and where the window starts.
  obtain ⟨σ₁, w₁, hrun₁, rfl, ht₁, hv₁⟩ :=
    (hR.inRange k w.tables haction).run hinRange (.nil : σ.Binds [] [])
  have hroot : σ.Grows proc.vars.size (proc.vars.size + 1) (σ.set ⟨proc.vars.size⟩ R.actionTable) :=
    .set hσ.below (Nat.le_refl _) (Nat.le_refl _) (Nat.lt_succ_self _) _
  have hcounter := Store.Grows.set (m := proc.vars.size) hroot.below
    (v := ⟨proc.vars.size + 1⟩) (Nat.le_succ _) (Nat.le_refl _) (Nat.lt_succ_self _) (.ofInt k)
  have hstart := Store.Grows.set (m := proc.vars.size) hcounter.below
    (v := ⟨proc.vars.size + 2⟩) (Nat.le_add_right _ _) (Nat.le_refl _) (Nat.lt_succ_self _)
    R.windowStart
  have hbinds : Store.Binds
      (σ.setMany [⟨proc.vars.size⟩, ⟨proc.vars.size + 1⟩, ⟨proc.vars.size + 2⟩]
        [R.actionTable, .ofInt k, R.windowStart])
      [⟨proc.vars.size⟩, ⟨proc.vars.size + 1⟩, ⟨proc.vars.size + 2⟩]
      [R.actionTable, .ofInt k, R.windowStart] :=
    .cons (hstart.keeps _ _ (hcounter.keeps _ _ (set_self ..)))
      (.cons (hstart.keeps _ _ (set_self ..)) (.cons (set_self ..) .nil))
  -- The node of the action.
  obtain ⟨σ₂, w₂, hrun₂, rfl, ht₂, hv₂⟩ := (hR.lookup k w₁.tables).run hlookup hbinds
  have htip := Store.Grows.set (m := proc.vars.size) hstart.below
    (v := ⟨proc.vars.size + 3⟩) (Nat.le_add_right _ _) (Nat.le_refl _) (Nat.lt_succ_self _)
    (R.actionNode k)
  have hgrows := hroot.trans (hcounter.trans (hstart.trans htip))
  have hat : proc.AtNode pred s₁ xs ⟨proc.vars.size + 3⟩ (R.actionNode k) _ :=
    ⟨hs₁, by rw [hsize]; exact hgrows.below, hσ.toEntered.grows hgrows, set_self ..⟩
  have hview : R.view w₂.tables = R.view w.tables := hv₂.trans hv₁
  rw [hbody, run_ifThenElse, hrun₁, Outcome.once_ifThenElse, run_conjoin,
    runAll_cons, hrun₂, Outcome.once_bind, runAll_single, run_ifThenElse,
    run_conjoin, run_conjoin]
  cases hblock : (R.view w.tables).block (R.actionNode k) with
  | none =>
    obtain ⟨w₃, hrun₃, ht₃, hv₃⟩ := (hR.unanswered (R.actionNode k) w₂.tables
      (by rw [hview, hblock])).run hhasAnswer (.cons (set_self ..) .nil)
    refine ⟨_, restore, record, s₁, s₂, s₃, _, w₃, hs₂, hrestore, hrecord, hat, hgrows.keeps,
      (ht₃.trans ht₂).trans ht₁, hv₃.trans hview, ?_⟩
    rw [setMany_single, hrun₃]
    rfl
  | some b =>
    obtain ⟨σ₃, w₃, hrun₃, rfl, ht₃, hv₃⟩ := (hR.answered (R.actionNode k) w₂.tables
      (by rw [hview, hblock]; rfl)).run hhasAnswer (.cons (set_self ..) .nil)
    refine ⟨_, restore, record, s₁, s₂, s₃, _, w₃, hs₂, hrestore, hrecord, hat, hgrows.keeps,
      (ht₃.trans ht₂).trans ht₁, hv₃.trans hview, ?_⟩
    rw [setMany_single, hrun₃, Outcome.once_ifThenElse]
    rfl

variable (hK : R.KeepsSlots) (hus : proc.vars.types proc.ioHead.outputs = .ok us)

include hK hus

theorem tableIo_first (hn : N (R.actionNode k))
    (hmodel : proc.determinism.codeModel ≠ .non) (hne : proc.ioHead.statesOut ≠ [])
    (hbody : ∀ σ w, proc.Entered xs σ → ∃ ys,
      proc.CanGive e.env R.accessors us xs (proc.plainValues ys) ∧
      proc.Answers R.machine (R.SameTable N) xs σ w [ys])
    (hblock : (R.view w.tables).block (R.actionNode k) = none) :
    (tabled.body.run R.machine σ w).Once fun σ' w' => ∃ ys, Acts proc xs ys w σ' w' ∧
      (R.view w'.tables).Performed e.env proc.ioHead (e.ioSlots proc.ioHead purpose) us
        e.env.options.traceTableIoStates (R.actionNode k) (proc.plainValues ys) ∧
      (R.view w.tables).SameOn (fun n => N n ∧ n ≠ R.actionNode k) (R.view w'.tables) := by
  obtain ⟨tip, restore, record, s₁, s₂, s₃, σ₁, w₁, hs₂, -, hrecord, hat, hk, ht, hv, hrun⟩ :=
    tableIo_inside hr hR hσ haction
  have hat₂ := hat.move hs₂ (.refl hat.below) hs₂.size_le hat.tip
  rw [hrun, hblock, isSome_none, if_neg Bool.false_ne_true]
  exact Outcome.Once.imp (ioRecord_run hR hK hrecord hus (hσ.described.mono hat₂.grown hk) hat₂ hn
    hmodel hne hbody (by rw [hv, hblock])) fun σ₂ w₂ ⟨ys, hacts, hperformed, hsame⟩ =>
      ⟨ys, hacts.of_trace ht (.refl _) rfl, hperformed, hv ▸ hsame⟩

theorem tableIo_again {us' : List Ty} (hus' : proc.vars.types proc.tabledHead.outputs = .ok us')
    (hapart : ∀ v ∈ proc.tabledHead.outputs, v ∉ proc.tabledHead.inputs)
    (hin : proc.ioHead.statesIn ≠ [])
    (hturn : proc.witnesses.InTurn R.accessors proc.tabledHead.inputs xs proc.ioHead.outputs us
      outs) (hw : (R.view w.tables).Performed e.env proc.ioHead (e.ioSlots proc.ioHead purpose) us
      e.env.options.traceTableIoStates (R.actionNode k) outs) :
    (tabled.body.run R.machine σ w).Once fun σ' w' => σ'.Binds proc.ioHead.outputs outs ∧
      (∀ v ∈ proc.ioHead.statesOut, (σ' v).isSome) ∧ w'.trace = w.trace ∧
      R.view w'.tables = R.view w.tables := by
  obtain ⟨tip, restore, record, s₁, s₂, s₃, σ₁, w₁, -, hrestore, -, hat, -, ht, hv, hrun⟩ :=
    tableIo_inside hr hR hσ haction
  obtain ⟨b, hb, -⟩ := id hw
  rw [hrun, hb, isSome_some, if_pos rfl]
  refine Outcome.Once.imp (ioRestore_run hR hK hrestore hus hus' hat hapart hin hturn (hv ▸ hw)) ?_
  rintro σ₂ w₂ ⟨houts, hstates, ht₂, hv₂⟩
  exact ⟨houts, hstates, ht₂.trans ht, hv₂.trans hv⟩

end

end TableEnv

/-! ### Actions in a row -/

namespace Runtime

variable (R : Runtime T)

/-- The nodes of some actions, by their numbers. -/
def ActionsOf (mine : Int → Prop) (n : Value) : Prop := ∃ k, mine k ∧ n = R.actionNode k

/-- What happens to the actions of a procedure that have the numbers `mine`, one
    thing after the other, from where none of them has been done. With each
    action that has been done inside the window stand the outputs that it gave
    then. Whatever happens elsewhere leaves these actions alone: other actions are
    done, or the debugger goes back to an earlier one. -/
inductive ActionsInRow (m : Module) (proc : Procedure) (ts us : List Ty) (mine : Int → Prop)
    (body : Goal) : List (Int × List Value) → World T → Prop
  | start {w : World T} (hw : ∀ k, mine k → (R.view w.tables).block (R.actionNode k) = none) :
      ActionsInRow m proc ts us mine body [] w
  | elsewhere {log : List (Int × List Value)} {w w' : World T}
      (h : ActionsInRow m proc ts us mine body log w)
      (hw : R.SameTable (R.ActionsOf mine) w.tables w'.tables) :
      ActionsInRow m proc ts us mine body log w'
  | outside {log : List (Int × List Value)} {w w' : World T} {σ σ' : Store} {xs : List Value}
      {redo : World T → Outcome (World T) Store} (h : ActionsInRow m proc ts us mine body log w)
      (hσ : proc.IsCall R.accessors ts xs σ) (hxs : Forall₂ m.Fits ts xs)
      (hk : R.action w.tables = none) (hrun : body.run R.machine σ w = .exit σ' w' redo) :
      ActionsInRow m proc ts us mine body log w'
  | first {log : List (Int × List Value)} {w w' : World T} {σ σ' : Store} {xs outs : List Value}
      {k : Int} {redo : World T → Outcome (World T) Store}
      (h : ActionsInRow m proc ts us mine body log w) (hσ : proc.IsCall R.accessors ts xs σ)
      (hxs : Forall₂ m.Fits ts xs) (hk : R.action w.tables = some k) (hmine : mine k)
      (hnew : ∀ outs, (k, outs) ∉ log) (hrun : body.run R.machine σ w = .exit σ' w' redo)
      (houts : σ'.Binds proc.ioHead.outputs outs) :
      ActionsInRow m proc ts us mine body ((k, outs) :: log) w'
  | again {log : List (Int × List Value)} {w w' : World T} {σ σ' : Store} {xs outs : List Value}
      {k : Int} {redo : World T → Outcome (World T) Store}
      (h : ActionsInRow m proc ts us mine body log w) (hσ : proc.IsCall R.accessors ts xs σ)
      (hk : R.action w.tables = some k) (hdone : (k, outs) ∈ log)
      (hturn : proc.witnesses.InTurn R.accessors proc.tabledHead.inputs xs proc.ioHead.outputs us
        outs) (hrun : body.run R.machine σ w = .exit σ' w' redo) :
      ActionsInRow m proc ts us mine body log w'

/-- What the table of actions holds of the actions of a procedure. -/
structure ActionTable (m : Module) (h : TableEnv.IoHead) (slots : TableEnv.IoSlots) (us : List Ty)
    (kept : Bool) (mine : Int → Prop) (log : List (Int × List Value)) (v : Tables) : Prop where
  owned : ∀ k outs, (k, outs) ∈ log → mine k
  done : ∀ k outs, (k, outs) ∈ log → v.Performed m h slots us kept (R.actionNode k) outs
  undone : ∀ k, mine k → (∀ outs, (k, outs) ∉ log) → v.block (R.actionNode k) = none

variable {R} {m : Module} {mine : Int → Prop} {h : TableEnv.IoHead} {slots : TableEnv.IoSlots}
  {log : List (Int × List Value)} {v v' : Tables}

theorem ActionTable.sameOn (ht : R.ActionTable m h slots us kept mine log v)
    (hv : v.SameOn (R.ActionsOf mine) v') : R.ActionTable m h slots us kept mine log v' where
  owned := ht.owned
  done k outs hmem := (ht.done k outs hmem).sameOn hv ⟨k, ht.owned k outs hmem, rfl⟩
  undone k hk hnew := (hv.block _ ⟨k, hk, rfl⟩).trans (ht.undone k hk hnew)

/-- An action that is performed is added to the log. -/
theorem ActionTable.add (hR : R.NumbersActions) (ht : R.ActionTable m h slots us kept mine log v)
    (hk : mine k) (hnew : ∀ outs, (k, outs) ∉ log)
    (hdone : v'.Performed m h slots us kept (R.actionNode k) outs)
    (hv : v.SameOn (fun n => R.ActionsOf mine n ∧ n ≠ R.actionNode k) v') :
    R.ActionTable m h slots us kept mine ((k, outs) :: log) v' := by
  have hother : ∀ {j}, mine j → j ≠ k → R.ActionsOf mine (R.actionNode j) ∧
      R.actionNode j ≠ R.actionNode k :=
    fun hj hne => ⟨⟨_, hj, rfl⟩, fun heq => hne (hR.apart _ _ heq)⟩
  refine ⟨fun j outs' hmem => ?_, fun j outs' hmem => ?_, fun j hj hnone => ?_⟩
  · rcases mem_cons.1 hmem with heq | hmem
    · cases heq
      exact hk
    · exact ht.owned j outs' hmem
  · rcases mem_cons.1 hmem with heq | hold
    · cases heq
      exact hdone
    · have hne : j ≠ k := by
        rintro rfl
        exact hnew _ hold
      exact (ht.done j outs' hold).sameOn hv (hother (ht.owned j outs' hold) hne)
  · have hne : j ≠ k := by
      rintro rfl
      exact hnone _ mem_cons_self
    rw [hv.block _ (hother hj hne)]
    exact ht.undone j hj fun outs' hmem => hnone outs' (mem_cons_of_mem _ hmem)

theorem ActionsInRow.actionTable (hR : R.NumbersActions)
    (hout : ∀ {w xs σ}, proc.IsCall R.accessors ts xs σ → Forall₂ m.Fits ts xs →
      R.action w.tables = none → (body.run R.machine σ w).Once fun _ w' =>
        R.SameTable (R.ActionsOf mine) w.tables w'.tables)
    (hfirst : ∀ {w xs σ k}, proc.IsCall R.accessors ts xs σ → Forall₂ m.Fits ts xs →
      R.action w.tables = some k → mine k → (R.view w.tables).block (R.actionNode k) = none →
        (body.run R.machine σ w).Once fun σ' w' => ∃ outs, σ'.Binds proc.ioHead.outputs outs ∧
          (R.view w'.tables).Performed m proc.ioHead slots us kept (R.actionNode k) outs ∧
          (R.view w.tables).SameOn (fun n => R.ActionsOf mine n ∧ n ≠ R.actionNode k)
            (R.view w'.tables))
    (hagain : ∀ {w xs σ k outs}, proc.IsCall R.accessors ts xs σ → R.action w.tables = some k →
      (R.view w.tables).Performed m proc.ioHead slots us kept (R.actionNode k) outs →
      proc.witnesses.InTurn R.accessors proc.tabledHead.inputs xs proc.ioHead.outputs us outs →
        (body.run R.machine σ w).Once fun _ w' => R.view w'.tables = R.view w.tables)
    (hrow : R.ActionsInRow m proc ts us mine body log w) :
    R.ActionTable m proc.ioHead slots us kept mine log (R.view w.tables) := by
  induction hrow with
  | start hw =>
    exact ⟨fun k outs hmem => absurd hmem not_mem_nil,
      fun k outs hmem => absurd hmem not_mem_nil, fun k hk _ => hw k hk⟩
  | elsewhere _ hw ih => exact ih.sameOn hw
  | outside _ hσ hxs hk hrun ih =>
    obtain ⟨_, _, honce, hsame⟩ := hout hσ hxs hk
    rw [hrun] at honce
    cases honce
    exact ih.sameOn hsame
  | first _ hσ hxs hk hmine hnew hrun houts ih =>
    obtain ⟨_, _, honce, outs, hbinds, hdone, hsame⟩ :=
      hfirst hσ hxs hk hmine (ih.undone _ hmine hnew)
    rw [hrun] at honce
    cases honce
    rw [houts.unique hbinds]
    exact ih.add hR hmine hnew hdone hsame
  | again _ hσ hk hdone hturn hrun ih =>
    obtain ⟨_, _, honce, hv⟩ := hagain hσ hk (ih.done _ _ hdone) hturn
    rw [hrun] at honce
    cases honce
    rw [hv]
    exact ih

end Runtime

/-- An I/O action inside the window is done the first time that its number comes:
    its body runs once, and gives its outputs. Each time that the number comes
    again, the outputs that are no I/O states are what they were, every I/O state
    is bound, and the body is not run. Outside the window the body runs once, and
    nothing else happens. -/
theorem action_performed_once {T : Type} {R : Runtime T} (hR : R.NumbersActions)
    (hK : R.KeepsSlots) {m m' : Module} {r : ProcRef} {pred : Predicate} {proc : Procedure}
    {purpose : IoPurpose} {unit : IoUnit} {ts us us' : List Ty} {mine : Int → Prop}
    (hproc : m.proc r = .ok (pred, proc)) (hmethod : proc.method = .tableIo purpose unit)
    (hmodel : proc.determinism.codeModel = .det) (htable : m.tableProc r = .ok m')
    (hus : proc.vars.types proc.ioHead.outputs = .ok us)
    (hus' : proc.vars.types proc.tabledHead.outputs = .ok us')
    (hapart : ∀ v ∈ proc.tabledHead.outputs, v ∉ proc.tabledHead.inputs)
    (hin : proc.ioHead.statesIn ≠ []) (hne : proc.ioHead.statesOut ≠ [])
    (hbody : ∀ xs, List.Forall₂ m.Fits ts xs → ∀ σ w, proc.Entered xs σ → ∃ ys,
      proc.CanGive m R.accessors us xs (proc.plainValues ys) ∧
      proc.Answers R.machine (R.SameTable (R.ActionsOf mine)) xs σ w [ys]) :
    ∃ proc', m'.procAt? r = some proc' ∧
      ∀ log w, R.ActionsInRow m proc ts us mine proc'.body log w →
      ∀ xs σ, proc.IsCall R.accessors ts xs σ → List.Forall₂ m.Fits ts xs →
        (R.action w.tables = none →
          ((proc'.body.run R.machine σ w).Once fun σ' w' => ∃ ys, Acts proc xs ys w σ' w') ∧
          ∃ w₁, w₁.trace = w.trace ∧ R.view w₁.tables = R.view w.tables ∧
            proc'.body.run R.machine σ w = proc.body.run R.machine σ w₁) ∧
        (∀ k, R.action w.tables = some k → mine k → (∀ outs, (k, outs) ∉ log) →
          (proc'.body.run R.machine σ w).Once fun σ' w' => ∃ ys, Acts proc xs ys w σ' w') ∧
        ∀ k outs, R.action w.tables = some k → (k, outs) ∈ log →
          proc.witnesses.InTurn R.accessors proc.tabledHead.inputs xs proc.ioHead.outputs us outs →
            (proc'.body.run R.machine σ w).Once fun σ' w' =>
              σ'.Binds proc.ioHead.outputs outs ∧
              (∀ v ∈ proc.ioHead.statesOut, (σ' v).isSome) ∧ w'.trace = w.trace ∧
              R.view w'.tables = R.view w.tables := by
  obtain ⟨tabled, s, hio, ⟨proc', hproc', hrun⟩, -⟩ :=
    Module.tableProc_eq_ok hproc htable (by rw [TableEnv.tabled, hmethod])
  have hdet : proc.determinism.codeModel ≠ .non := by rw [hmodel]; decide
  have hout : ∀ {w xs σ}, proc.IsCall R.accessors ts xs σ → List.Forall₂ m.Fits ts xs →
      R.action w.tables = none → (proc'.body.run R.machine σ w).Once fun σ' w' =>
        ∃ ys, Acts proc xs ys w σ' w' ∧ R.SameTable (R.ActionsOf mine) w.tables w'.tables := by
    intro w xs σ hσ hxs hk
    obtain ⟨w₁, ht, hv, heq⟩ := TableEnv.tableIo_outside hio hR hk σ
    obtain ⟨ys, -, hans⟩ := hbody xs hxs σ w₁ hσ.toEntered
    rw [hrun, heq]
    refine Outcome.Once.imp (hans.acts hdet) ?_
    rintro σ' w' ⟨-, hacts, hsame⟩
    refine ⟨ys, hacts.of_trace ht (.refl _) rfl, ?_⟩
    rw [Runtime.SameTable, ← hv]
    exact hsame
  have hfirst {w : World T} {xs σ k} (hσ : proc.IsCall R.accessors ts xs σ)
      (hxs : List.Forall₂ m.Fits ts xs)
      (hk : R.action w.tables = some k) (hmine : mine k)
      (hblock : (R.view w.tables).block (R.actionNode k) = none) :=
    TableEnv.tableIo_first hio hR hσ hk hK hus ⟨k, hmine, rfl⟩ hdet hne (hbody xs hxs) hblock
  have hagain {w : World T} {xs σ k outs} (hσ : proc.IsCall R.accessors ts xs σ)
      (hk : R.action w.tables = some k) (hdone : (R.view w.tables).Performed m proc.ioHead
        (proc.ioHead.slots purpose m.options.traceTableIoStates) us m.options.traceTableIoStates
        (R.actionNode k) outs)
      (hturn : proc.witnesses.InTurn R.accessors proc.tabledHead.inputs xs proc.ioHead.outputs us
        outs) :=
    TableEnv.tableIo_again hio hR hσ hk hK hus hus' hapart hin hturn hdone
  refine ⟨proc', hproc', fun log w hrow xs σ hσ hxs => ?_⟩
  have hactions : R.ActionTable m proc.ioHead
      (proc.ioHead.slots purpose m.options.traceTableIoStates) us m.options.traceTableIoStates mine
      log (R.view w.tables) := by
    refine hrow.actionTable hR (fun hσ hxs hk => ?_) (fun hσ hxs hk hmine hblock => ?_)
      fun hσ hk hdone hturn => ?_
    · refine Outcome.Once.imp (hout hσ hxs hk) ?_
      rintro _ _ ⟨-, -, hsame⟩
      exact hsame
    · rw [hrun]
      refine Outcome.Once.imp (hfirst hσ hxs hk hmine hblock) ?_
      rintro _ _ ⟨ys, hacts, hdone, hsame⟩
      exact ⟨proc.plainValues ys, hacts.outputs.filter _, hdone, hsame⟩
    · rw [hrun]
      refine Outcome.Once.imp (hagain hσ hk hdone hturn) ?_
      rintro _ _ ⟨-, -, -, hv⟩
      exact hv
  refine ⟨fun hk => ⟨?_, ?_⟩, fun k hk hmine hnew => ?_, fun k outs hk hdone hturn => ?_⟩
  · refine Outcome.Once.imp (hout hσ hxs hk) ?_
    rintro _ _ ⟨ys, hacts, -⟩
    exact ⟨ys, hacts⟩
  · rw [hrun]
    exact TableEnv.tableIo_outside hio hR hk _
  · rw [hrun]
    refine Outcome.Once.imp (hfirst hσ hxs hk hmine (hactions.undone k hmine hnew)) ?_
    rintro _ _ ⟨ys, hacts, -⟩
    exact ⟨ys, hacts⟩
  · rw [hrun]
    exact hagain hσ hk (hactions.done k outs hdone) hturn

/-! ### An example -/

namespace TabledExample

/-- An action that is kept for the declarative debugger and done as a single
    one. -/
def nextDecl : PredDecl :=
  { name := "next"
    args := [.input "N" .int, .input "S0" .ioState, .output "M" .int, .output "S" .ioState]
    determinism := .det
    method := .tableIo .decl .unitize }

/-- A module where the I/O states are kept too. -/
def nextBase : Module := base { traceTableIoStates := true }

def nextModule : Module := nextBase.declare nextDecl (nextBase.foreignGoal nextDecl)

def nextProc : Procedure := nextBase.foreignProc nextDecl

/-- The I/O state as a value. -/
def ioState : Value := .cell (.cons (.qualified "io" "state") 0) []

/-- Each time that the action is done it gives another number: that of the
    reports so far. -/
def numbering : Runtime Memory :=
  Memory.runtime fun _ => nextProc.computes fun _ w => [[.ofInt w.trace.length, ioState]]

theorem plainValues_next (x y : Value) : nextProc.plainValues [x, y] = [x] := by
  have houtputs : nextProc.tabledHead.outputs = [⟨2⟩, ⟨3⟩] := by decide
  have hplain : nextProc.vars.isState ⟨2⟩ = false := rfl
  have hstate : nextProc.vars.isState ⟨3⟩ = true := rfl
  simp [Procedure.plainValues, houtputs, hplain, hstate]

theorem next_acts (same : Memory → Memory → Prop) (hsame : ∀ t, same t t) (xs : List Value)
    (σ : Store) (w : World Memory) (hσ : nextProc.Entered xs σ) : ∃ ys,
      nextProc.CanGive nextModule numbering.accessors [.int] xs (nextProc.plainValues ys) ∧
      nextProc.Answers numbering.machine same xs σ w [ys] := by
  refine ⟨[.ofInt w.trace.length, ioState], ⟨?_, WitnessMap.inTurn_of_isGround (by decide)⟩, ?_⟩
  · rw [plainValues_next]
    exact .cons (fits_int rfl _) .nil
  · exact Procedure.answers_of_computes (f := fun _ w => [[.ofInt w.trace.length, ioState]])
      (Module.run_foreignProc (by decide) fun _ => rfl) (by decide) hsame hσ rfl
      fun ys hys => by rw [mem_singleton.1 hys]; rfl

/-- The debugger goes to an action. The window has one action. -/
def goTo (k : Int) (w : World Memory) : World Memory :=
  { w with tables := { w.tables with counter := k, windowEnd := 1 } }

theorem goTo_row {log : List (Int × List Value)} {w : World Memory} (k : Int)
    (h : numbering.ActionsInRow nextModule nextProc [.int, .ioState] [.int] (· = 0) body log w) :
    numbering.ActionsInRow nextModule nextProc [.int, .ioState] [.int] (· = 0) body log
      (goTo k w) :=
  h.elsewhere (Tables.SameOn.refl _ (numbering.view w.tables))

/-- The action with number 0 is done. When the debugger goes back to before it, it
    is replayed, and behind the window the body runs again. -/
theorem next_replayed_once :
    ∃ m' proc' outs w₁ w₂, nextModule.tableProc tabledProc = .ok m' ∧
      m'.procAt? tabledProc = some proc' ∧
      numbering.ActionsInRow nextModule nextProc [.int, .ioState] [.int] (· = 0) proc'.body
        [(0, outs)] w₁ ∧
      numbering.action w₁.tables = some 0 ∧ bodyCalls w₁.trace = [[.ofInt 7, ioState]] ∧
      ((proc'.body.run numbering.machine (nextProc.callStore [.ofInt 7, ioState]) w₁).Once
        fun σ' w' => σ'.Binds nextProc.ioHead.outputs outs ∧ w'.trace = w₁.trace) ∧
      numbering.action w₂.tables = none ∧ w₂.trace = w₁.trace ∧
      ((proc'.body.run numbering.machine (nextProc.callStore [.ofInt 7, ioState]) w₂).Once
        fun _ w' => bodyCalls w'.trace = [[.ofInt 7, ioState], [.ofInt 7, ioState]]) := by
  obtain ⟨m', hm'⟩ := Module.of_isOk_tableProc (m := nextModule) (r := tabledProc)
    (by decide +kernel)
  have hcall : nextProc.IsCall numbering.accessors [.int, .ioState] [.ofInt 7, ioState]
      (nextProc.callStore [.ofInt 7, ioState]) :=
    Procedure.isCall_callStore (by decide) rfl (by decide) rfl
  have hfits : List.Forall₂ nextModule.Fits [.int, .ioState] [.ofInt 7, ioState] :=
    .cons (fits_int (by decide +kernel) _)
      (.cons ⟨.dummy, by decide +kernel, by decide, fun _ => ⟨_, by decide +kernel, rfl⟩⟩ .nil)
  have hus : nextProc.vars.types nextProc.ioHead.outputs = .ok [.int] := by decide +kernel
  have hus' : nextProc.vars.types nextProc.tabledHead.outputs = .ok [.int, .ioState] := rfl
  have hbody : ∀ xs, List.Forall₂ nextModule.Fits [.int, .ioState] xs → ∀ σ w,
      nextProc.Entered xs σ → ∃ ys,
        nextProc.CanGive nextModule numbering.accessors [.int] xs (nextProc.plainValues ys) ∧
        nextProc.Answers numbering.machine (numbering.SameTable (numbering.ActionsOf (· = 0))) xs σ
          w [ys] :=
    fun xs _ => next_acts _ (fun _ => .refl _ _) xs
  obtain ⟨proc', hproc', h⟩ := action_performed_once (Memory.numbersActions _)
    (Memory.keepsSlots _) Module.proc_foreign rfl rfl hm' hus hus' (by decide) (by decide +kernel)
    (by decide +kernel) hbody
  have hstart : numbering.ActionsInRow nextModule nextProc [.int, .ioState] [.int] (· = 0)
      proc'.body [] ⟨{ windowEnd := 1 }, []⟩ := .start fun _ _ => rfl
  obtain ⟨σ₁, w₁, hrun₁, ys, hacts⟩ :=
    (h _ _ hstart _ _ hcall hfits).2.1 0 rfl rfl fun _ => List.not_mem_nil
  have houts := hacts.outputs.filter (!nextProc.vars.isState ·)
  have hfirst := hstart.first hcall hfits rfl rfl (fun _ => List.not_mem_nil) hrun₁ houts
  have hran : bodyCalls w₁.trace = [[.ofInt 7, ioState]] := hacts.ran
  refine ⟨m', proc', _, goTo 0 w₁, goTo 1 w₁, hm', hproc', goTo_row 0 hfirst, rfl, hran, ?_,
    rfl, rfl, ?_⟩
  · obtain ⟨-, -, hagain⟩ := h _ _ (goTo_row 0 hfirst) _ _ hcall hfits
    refine Outcome.Once.imp (hagain 0 _ rfl List.mem_cons_self
      (WitnessMap.inTurn_of_isGround (by decide))) ?_
    rintro _ _ ⟨hbinds, -, ht, -⟩
    exact ⟨hbinds, ht⟩
  · obtain ⟨houtside, -⟩ := h _ _ (goTo_row 1 hfirst) _ _ hcall hfits
    refine Outcome.Once.imp (houtside rfl).1 ?_
    rintro _ _ ⟨_, hacts⟩
    rw [hacts.ran, show bodyCalls (goTo 1 w₁).trace = _ from hran]
    rfl

end TabledExample

end Clausal
