import Clausal.Proofs.Pass
import Clausal.Proofs.TableCode

/-!
# Procedures and their tabled forms

What the body of a procedure does when it is run, port by port
(`Procedure.Solves`), and what is put around it. The body is known by the
solutions that it has for the inputs of a call; whatever it does besides leaves
some of the tables alone, and it reports the ports that it passes.
-/

namespace Clausal

open List Goal Store WitnessState

variable {ts : List Ty} {pred : Predicate} {s s₁ : WitnessState} {proc : Procedure}
  {type : StatusType} {st : Status} {tabled : Tabled} {e : TableEnv} {ts' : List Ty} {k : Nat}
  {made : Value → Prop} {after : Value → Tables} {arm : Status → Synth Goal} {g switch body : Goal}
  {way : CallLookup} {strictness : Strictness} {s₂ : WitnessState}

/-! ### Bodies -/

/-- A stay in the body of a procedure, from one port to another, with the
    values that are reported there. All the while `same` relates the tables to
    what they were. -/
def Visit {T : Type} (same : T → T → Prop) (p q : Port) (xs ys : List Value) (w w' : World T) :
    Prop :=
  same w.tables w'.tables ∧ ∃ ts : List T, (∀ t ∈ ts, same w.tables t) ∧
    w'.trace = w.trace ++ ⟨p, xs, w.tables⟩ :: ts.map (⟨.inside, xs, ·⟩) ++ [⟨q, ys, w'.tables⟩]

/-- What a port adds to the calls of the body. -/
def Port.entries (p : Port) (xs : List Value) : List (List Value) := if p = .call then [xs] else []

/-- The inputs that the body was entered with, one after the other. -/
def bodyCalls {T : Type} (trace : List (Event T)) : List (List Value) :=
  (trace.filter (·.port = .call)).map (·.values)

theorem Visit.bodyCalls {T : Type} {same : T → T → Prop} {p q : Port} {xs ys : List Value}
    {w w' : World T} (h : Visit same p q xs ys w w') (hq : q ≠ .call) :
    bodyCalls w'.trace = bodyCalls w.trace ++ p.entries xs := by
  obtain ⟨-, ts, -, htrace⟩ := h
  have hinside : (ts.map (Event.mk .inside xs)).filter (·.port = .call) = [] := by
    simp [filter_eq_nil_iff]
  by_cases hp : p = .call
  · simp [Clausal.bodyCalls, Port.entries, htrace, hinside, hp, hq]
  · simp [Clausal.bodyCalls, Port.entries, htrace, hinside, hp, hq]

/-- Some nodes and records are left alone. -/
def Runtime.SameTable {T : Type} (R : Runtime T) (N : Value → Prop) (t t' : T) : Prop :=
  (R.view t).SameOn N (R.view t')

namespace Procedure

variable {T : Type} (p : Procedure)

/-- The body is entered with the inputs bound. The variables that are bound
    besides are none of its own. -/
structure Entered (xs : List Value) (σ : Store) : Prop where
  binds : σ.Binds p.tabledHead.inputs xs
  only : ∀ v x, σ v = some x → v ∈ p.tabledHead.inputs ∨ p.vars.size ≤ v.index

/-- A call has come to the node `n`: the variables are those of the procedure and
    new ones, the inputs have their values, and the node is in a variable. -/
structure AtNode (pred : Predicate) (s : WitnessState) (xs : List Value) (tip : ProgVar)
    (n : Value) (σ : Store) : Prop where
  grown : (WitnessState.ofProc pred p).Extends s
  below : σ.Below s.vars.size
  entered : p.Entered xs σ
  tip : σ tip = some n

/-- The description of a type, as it is found when the procedure is called. -/
def infoIn (rt : Accessors) (σ : Store) (t : Ty) : Option Value :=
  t.infoWith (p.witnesses.infoOf rt σ)

/-- A call binds the inputs and nothing else, so that the types of the inputs
    can be described. -/
structure IsCall (rt : Accessors) (ts : List Ty) (xs : List Value) (σ : Store) : Prop
    extends p.Entered xs σ where
  below : σ.Below p.vars.size
  types : p.vars.types p.tabledHead.inputs = .ok ts
  infos : ∀ t ∈ ts, (p.infoIn rt σ t).isSome

/-- The body is left with the outputs bound. The inputs are as before, and so
    are the variables that are none of its own. -/
structure Answered (σ : Store) (ys : List Value) (σ' : Store) : Prop where
  binds : σ'.Binds p.tabledHead.outputs ys
  inputs : ∀ v ∈ p.tabledHead.inputs, σ' v = σ v
  others : ∀ v : ProgVar, p.vars.size ≤ v.index → σ' v = σ v

/-- The body, entered in a state of the world, has the given solutions. -/
def Answers (M : Machine T) (same : T → T → Prop) (xs : List Value) (σ : Store) (w : World T)
    (sols : List (List Value)) : Prop :=
  (p.body.run M σ w).Gives p.determinism.codeModel (fun _ _ => True)
    (fun q w ys σ' w' => p.Answered σ ys σ' ∧ Visit same q .exit xs ys w w')
    (fun q w w' => Visit same q .fail xs xs w w') .call w sols

/-- The body has the given solutions for the inputs, in any state of the
    world. -/
def Solves (M : Machine T) (same : T → T → Prop) (xs : List Value) (sols : List (List Value)) :
    Prop :=
  ∀ σ w, p.Entered xs σ → p.Answers M same xs σ w sols

/-- The values can be the outputs of a call with inputs `xs`: they fit their
    types, and their types can be described as they are restored. -/
structure CanReturn (m : Module) (rt : Accessors) (types : List Ty) (xs ys : List Value) :
    Prop where
  fits : Forall₂ m.Fits types ys
  inTurn : p.witnesses.InTurn rt p.tabledHead.inputs xs p.tabledHead.outputs types ys

variable {p} {xs ys : List Value} {σ σ' : Store} {n : Nat}

theorem Entered.grows (h : p.Entered xs σ) (hσ : σ.Grows p.vars.size n σ') : p.Entered xs σ' where
  binds := h.binds.keeps hσ.keeps
  only v x hv := by
    by_cases hlt : v.index < p.vars.size
    · rw [hσ.frame v hlt] at hv
      exact h.only v x hv
    · exact .inr (Nat.not_lt.1 hlt)

theorem AtNode.move {s' : WitnessState} {tip tip' : ProgVar} {x x' : Value}
    (h : p.AtNode pred s xs tip x σ) (hs : s.Extends s') (hσ : σ.Grows p.vars.size n σ')
    (hn : n ≤ s'.vars.size) (htip : σ' tip' = some x') : p.AtNode pred s' xs tip' x' σ' :=
  ⟨h.grown.trans hs, fun v y hv => Nat.lt_of_lt_of_le (hσ.below v y hv) hn, h.entered.grows hσ,
    htip⟩

/-- A call is known by its inputs. -/
theorem IsCall.unique {rt : Accessors} (h : p.IsCall rt ts xs σ) (h' : p.IsCall rt ts' xs σ') :
    σ = σ' := by
  have hnone : ∀ {ts σ}, p.IsCall rt ts xs σ → ∀ v ∉ p.tabledHead.inputs, σ v = none := by
    intro ts σ h v hv
    refine Option.eq_none_iff_forall_ne_some.2 fun x hx => ?_
    exact Nat.not_lt.2 ((h.only v x hx).resolve_left hv) (h.below v x hx)
  funext v
  by_cases hv : v ∈ p.tabledHead.inputs
  · exact h.binds.eq_of_mem h'.binds hv
  · rw [hnone h v hv, hnone h' v hv]

theorem Answered.keeps (h : p.Answered σ ys σ') (hσ : p.Entered xs σ) : σ.Keeps σ' := by
  intro v x hv
  rcases hσ.only v x hv with hmem | hle
  · rw [h.inputs v hmem, hv]
  · rw [h.others v hle, hv]

theorem Answered.below (h : p.Answered σ ys σ') (hσ : σ.Below n) (hn : p.vars.size ≤ n) :
    σ'.Below n := by
  intro v x hv
  by_contra hlt
  rw [h.others v (by omega)] at hv
  exact hlt (hσ v x hv)

theorem described_of_inTurn {R : Runtime T} {vars : List ProgVar}
    (h : p.witnesses.InTurn R.accessors p.tabledHead.inputs xs vars types ys)
    (htypes : p.vars.types vars = .ok types) (hs : (WitnessState.ofProc pred p).Extends s)
    (hxs : σ.Binds p.tabledHead.inputs xs) (hys : σ.Binds vars ys) :
    TableEnv.Described R s σ (p.infoIn R.accessors σ) vars types := by
  have hts := VarTable.types_eq_ok.1 htypes
  refine ⟨hts.imp fun _ _ h => hs.vars.type_eq h, fun t ht => ?_⟩
  obtain ⟨i, hi⟩ := Option.isSome_iff_exists.1 (h.isSome hxs hys hts.length_eq t ht)
  refine ⟨i, hi, ?_⟩
  exact Ty.infoWith_mono (fun _ _ hv => WitnessMap.infoOf_mono hs.infos (.refl σ) hv) hi

theorem IsCall.described {R : Runtime T} (h : p.IsCall R.accessors ts xs σ) :
    TableEnv.Described R (.ofProc pred p) σ
      (p.infoIn R.accessors σ) p.tabledHead.inputs ts := by
  refine ⟨VarTable.types_eq_ok.1 h.types, fun t ht => ?_⟩
  obtain ⟨i, hi⟩ := Option.isSome_iff_exists.1 (h.infos t ht)
  exact ⟨i, hi, hi⟩

/-- A body with one answer has it. -/
theorem Answers.once {M : Machine T} {same : T → T → Prop} {w : World T}
    (h : p.Answers M same xs σ w [ys]) (hmodel : p.determinism.codeModel ≠ .non) :
    (p.body.run M σ w).Once fun σ' w' =>
      p.Answered σ ys σ' ∧ Visit same .call .exit xs ys w w' := by
  obtain ⟨σ', w', redo, hrun, hans, hrest⟩ := h
  refine ⟨σ', w', ?_, hans⟩
  cases hcm : p.determinism.codeModel with
  | non => exact absurd hcm hmodel
  | det | semi =>
    rw [hcm] at hrest
    rw [hrun, hrest.2]
    rfl

theorem Solves.answered {M : Machine T} {same : T → T → Prop} {sols : List (List Value)}
    (h : p.Solves M same xs sols) (hσ : p.Entered xs σ) (w : World T) :
    ∀ ys ∈ sols, ∃ ρ, p.Answered σ ys ρ := by
  have hgives := h σ w hσ
  unfold Answers at hgives
  generalize p.body.run M σ w = o at hgives
  generalize Port.call = q at hgives
  generalize p.determinism.codeModel = model at hgives
  clear h
  induction sols generalizing q w o with
  | nil => exact fun ys hys => absurd hys not_mem_nil
  | cons first sols ih =>
    obtain ⟨ρ, w', redo, -, ⟨hρ, -⟩, hrest⟩ := hgives
    intro ys hys
    rcases mem_cons.1 hys with rfl | hys
    · exact ⟨ρ, hρ⟩
    · cases model with
      | det | semi =>
        rw [hrest.1] at hys
        exact absurd hys not_mem_nil
      | non => exact ih w' (redo w') .redo (hrest w' trivial) ys hys

end Procedure

namespace TableEnv

open Synth

variable {T : Type} {R : Runtime T} {s' : WitnessState} {m : Nat} {σ : Store} {w : World T}
  {goals : List Goal} {owner block tip status : ProgVar} {p : Primitive} {o n : Value}
  {outputs : List ProgVar} {types : List Ty} {xs ys : List Value}

/-! ### Answer blocks -/

theorem adds_newBlock : Adds (e.newBlock p owner k) :=
  adds_bind (adds_intVar ..) fun _ => adds_bind (adds_newVar ..) fun _ =>
    adds_bind (adds_call ..) fun _ => adds_pure _

theorem adds_saveAnswer : Adds (e.saveAnswer p owner outputs) :=
  adds_bind adds_newBlock fun _ => adds_bind adds_saveFrom fun _ => adds_pure _

theorem adds_restoreAnswer : Adds (e.restoreAnswer p owner outputs) :=
  adds_bind (adds_newVar ..) fun _ => adds_bind (adds_call ..) fun _ =>
    adds_bind adds_restoreFrom fun _ => adds_pure _

theorem newBlock_runs (h : Returns (e.newBlock p owner k) s (block, goals) s')
    (hin : 2 = p.signature.inputs.length) (hout : 1 = p.signature.outputs.length)
    (hm : m ≤ s.vars.size) (hσ : σ.Below s.vars.size) (ho : σ owner = some o)
    (hcreate : ∃ b, made b ∧ R.Does p [o, .ofInt k] w.tables [b] (after b)) :
    R.Runs m s'.vars.size goals σ w fun σ' v => ∃ b, made b ∧ σ' block = some b ∧ v = after b := by
  simp only [newBlock, returns_bind, returns_intVar, returns_newHandle, returns_pure] at h
  obtain ⟨_, _, ⟨rfl, rfl⟩, v, _, ⟨hvar, rfl⟩, g, _, hcall, heq, rfl⟩ := h
  cases heq
  rw [nextVar_addVar] at hvar
  subst hvar
  obtain ⟨rfl, hg⟩ := returns_call [owner, s.nextVar] [⟨s.vars.size + 1⟩] hcall hin hout
  rw [size_addVar, size_addVar]
  obtain ⟨b, hmade, hdoes⟩ := hcreate
  have hsizeVar := Grows.next hσ hm (.ofInt k)
  have hblock : (σ.set s.nextVar (.ofInt k)).Grows m (s.vars.size + 2)
      ((σ.set s.nextVar (.ofInt k)).set ⟨s.vars.size + 1⟩ b) :=
    .set hsizeVar.below (Nat.le_succ_of_le hm) (Nat.le_refl _) (Nat.lt_succ_self _) _
  refine .construct .nil hsizeVar (.call hg ?_ hdoes hblock fun w₁ _ hv₁ => ?_)
  · exact .cons (hsizeVar.keeps _ _ ho) (.cons (set_self ..) .nil)
  · exact .nil hblock.below ⟨b, hmade, set_self .., hv₁⟩

theorem saveAnswer_runs (hR : R.KeepsSlots) {infoOf : Ty → Option Value}
    (h : Returns (e.saveAnswer p owner outputs) s (block, goals) s')
    (hin : 2 = p.signature.inputs.length) (hout : 1 = p.signature.outputs.length)
    (hm : m ≤ s.vars.size) (hσ : σ.Below s.vars.size) (ho : σ owner = some o)
    (hd : Described R s σ infoOf outputs types) (hys : σ.Binds outputs ys)
    (hcreate : ∃ b, made b ∧ R.Does p [o, .ofInt outputs.length] w.tables [b] (after b))
    (hsize : ∀ b, (after b).size b = outputs.length) :
    R.Runs m s'.vars.size goals σ w fun σ' v => ∃ b f, made b ∧ σ' block = some b ∧
      v = (after b).setSlots b f ∧ e.env.Holds f 0 types ys := by
  simp only [saveAnswer, returns_bind, returns_pure] at h
  obtain ⟨⟨block, create⟩, s₁, hnew, saves, s₂, hsaves, heq, rfl⟩ := h
  cases heq
  have hs₁ : s.Extends s₁ := adds_newBlock.mono hnew
  refine (newBlock_runs hnew hin hout hm hσ ho hcreate).append ?_
  rintro σ₁ w₁ hσ₁ - ⟨b, hmade, hb, hv₁⟩
  refine Runtime.Runs.imp (saveFrom_runs hR hσ₁.below hb (Nat.le_trans hm hs₁.size_le) hsaves
    (hd.mono hs₁ hσ₁.keeps) (hys.keeps hσ₁.keeps) ?_) ?_
  · rw [hv₁, hsize, Nat.zero_add]
  · rintro σ' v hσ' ⟨f, hv, -, hheld⟩
    exact ⟨b, f, hmade, hσ'.keeps _ _ hb, hv₁ ▸ hv, hheld⟩

theorem restoreAnswer_runs (hR : R.KeepsSlots)
    (h : Returns (e.restoreAnswer p owner proc.tabledHead.outputs) s goals s')
    (hin : 1 = p.signature.inputs.length) (hout : 1 = p.signature.outputs.length)
    (hs : (WitnessState.ofProc pred proc).Extends s)
    (htypes : proc.vars.types proc.tabledHead.outputs = .ok types) :
    ∃ g restores, goals = g :: restores ∧ g.Calls p [owner] [s.nextVar] ∧
      ∀ {σ : Store} {w : World T} {b : Value} {xs ys : List Value} {ρ : Store},
        σ.Below s.vars.size → proc.Entered xs σ → proc.Answered σ ys ρ →
        proc.CanReturn e.env R.accessors types xs ys →
        e.env.Holds ((R.view w.tables).slot b) 0 types ys →
          R.Runs 0 s'.vars.size restores (σ.set s.nextVar b) w fun σ' v =>
            σ'.Binds proc.tabledHead.outputs ys ∧ v = R.view w.tables := by
  simp only [restoreAnswer, returns_bind, returns_newHandle, returns_pure] at h
  obtain ⟨_, _, ⟨rfl, rfl⟩, g, s₁, hcall, restores, _, hrestores, rfl, rfl⟩ := h
  obtain ⟨rfl, hg⟩ := returns_call [owner] [s.nextVar] hcall hin hout
  have hs₁ : s.Extends (s.addVar "AnswerBlock" Handle.block.type) := .addVar ..
  have hts : Forall₂ (fun v t => s.vars.type v = .ok t) proc.tabledHead.outputs types :=
    (VarTable.types_eq_ok.1 htypes).imp fun _ _ h => hs.vars.type_eq h
  refine ⟨g, restores, rfl, hg, fun {σ w b xs ys ρ} hσ hentered hρ hreturn hheld => ?_⟩
  have hgrows := Grows.next hσ hs.size_le b
  have hentered₁ := hentered.grows hgrows
  refine restoreFrom_runs hR ?_ (set_self ..) hrestores (hts.imp fun _ _ h => hs₁.vars.type_eq h)
    (fun t source h => hs₁.infos t source (hs.infos t source h)) hreturn.inTurn hentered₁.binds
    (hreturn.fits.imp fun _ _ h => h.single) hheld hρ.binds fun v hv x hx => ?_
  · rw [size_addVar]
    exact hgrows.below
  · -- An output that has a value already is an input too.
    have hlt : v.index < proc.vars.size := lt_size_of_types (VarTable.types_eq_ok.1 htypes) v hv
    have hinput := (hentered₁.only v x hx).resolve_right (Nat.not_le.2 hlt)
    rw [hρ.inputs v hinput, ← hgrows.frame v hlt, hx]

/-! ### The way to an arm -/

theorem status?_mem {c : CallState} (h : c.status? type = some st) : st ∈ type.statuses := by
  cases type <;> cases c <;> cases h <;> decide

section

variable {name : String} {handle : Handle} {setup : Goal}

/-- A call is looked up, and the arm for its state is run. -/
theorem arm_run (hR : R.SetsUp p type) (hin : 1 = p.signature.inputs.length)
    (hout : 1 = p.signature.outputs.length)
    (hcall : Returns (e.call p [tip, s.nextVar]) (s.addVar "Status" type.type) setup s₁)
    (hswitch : Returns (e.statusSwitch type s.nextVar arm) s₁ switch s')
    (harm : ∀ st, Adds (arm st)) (hat : proc.AtNode pred s xs tip n σ)
    (hst : ((R.view w.tables).state n).status? type = some st) :
    ∃ s₂ s₃ g σ₁ w₁, Returns (arm st) s₂ g s₃ ∧ proc.AtNode pred s₂ xs tip n σ₁ ∧
      Goal.runAll R.machine [setup, switch] σ w = g.run R.machine σ₁ w₁ ∧ σ.Keeps σ₁ ∧
      w₁.trace = w.trace ∧ R.view w₁.tables = (R.view w.tables).enter n := by
  obtain ⟨rfl, hsetup⟩ := returns_call [tip] [s.nextVar] hcall hin hout
  obtain ⟨s₂, s₃, g, hs₂, hg, hrun⟩ := returns_statusSwitch hswitch harm (status?_mem hst)
  obtain ⟨_, w₁, hrun₁, rfl, ht, hv⟩ := (hR n w.tables st hst).run hsetup (.cons hat.tip .nil)
  have hgrows := Grows.next hat.below hat.grown.size_le st.value
  refine ⟨s₂, s₃, g, _, w₁, hg, hat.move ((WitnessState.Extends.addVar ..).trans hs₂) hgrows ?_
    (hgrows.keeps _ _ hat.tip), ?_, hgrows.keeps, ht, hv⟩
  · exact size_addVar .. ▸ hs₂.size_le
  · rw [runAll_cons, hrun₁, Outcome.once_bind, runAll_single, setMany_single,
      hrun R.machine w₁ (set_self ..)]

/-- A call with a record is looked up, and the arm for its state is run. -/
theorem record_arm_run (hR : R.SetsUpRecord p type) (hin : 1 = p.signature.inputs.length)
    (hout : 2 = p.signature.outputs.length)
    (hcall : Returns (e.call p [tip, s.nextVar, ⟨s.vars.size + 1⟩])
      ((s.addVar name handle.type).addVar "Status" type.type) setup s₁)
    (hswitch : Returns (e.statusSwitch type ⟨s.vars.size + 1⟩ arm) s₁ switch s')
    (harm : ∀ st, Adds (arm st)) (hat : proc.AtNode pred s xs tip n σ)
    (hst : ((R.view w.tables).state (R.record p n)).status? type = some st) :
    ∃ s₂ s₃ g σ₁ w₁, Returns (arm st) s₂ g s₃ ∧
      proc.AtNode pred s₂ xs s.nextVar (R.record p n) σ₁ ∧
      Goal.runAll R.machine [setup, switch] σ w = g.run R.machine σ₁ w₁ ∧ σ.Keeps σ₁ ∧
      w₁.trace = w.trace ∧ R.view w₁.tables = (R.view w.tables).enter (R.record p n) := by
  obtain ⟨rfl, hsetup⟩ := returns_call [tip] [s.nextVar, _] hcall hin hout
  obtain ⟨s₂, s₃, g, hs₂, hg, hrun⟩ := returns_statusSwitch hswitch harm (status?_mem hst)
  obtain ⟨_, w₁, hrun₁, rfl, ht, hv⟩ := (hR n w.tables st hst).run hsetup (.cons hat.tip .nil)
  have hrecord := Grows.next hat.below hat.grown.size_le (R.record p n)
  have hstatus : (σ.set s.nextVar (R.record p n)).Grows proc.vars.size (s.vars.size + 2)
      ((σ.set s.nextVar (R.record p n)).set ⟨s.vars.size + 1⟩ st.value) :=
    .set hrecord.below (Nat.le_succ_of_le hat.grown.size_le) (Nat.le_refl _) (Nat.lt_succ_self _) _
  have hgrows := hrecord.trans hstatus
  have hs : s.Extends ((s.addVar name handle.type).addVar "Status" type.type) :=
    (WitnessState.Extends.addVar ..).trans (.addVar ..)
  refine ⟨s₂, s₃, g, _, w₁, hg, hat.move (hs.trans hs₂) hgrows ?_
    (hstatus.keeps _ _ (set_self ..)), ?_, hgrows.keeps, ht, hv⟩
  · have hle := hs₂.size_le
    rwa [size_addVar, size_addVar] at hle
  · rw [runAll_cons, hrun₁, Outcome.once_bind, runAll_single]
    exact hrun R.machine w₁ (set_self ..)

end

theorem returns_tabledBy (h : Returns (e.tabledBy way outputs goals) s tabled s') :
    tabled.body = .conjoin (way.goals ++ goals) e.context ∧ tabled.generator = none ∧
      ∃ args, tabled.layout = .callTable way.steps way.inputs args ∧
        tabled.tip = some way.tip := by
  simp only [tabledBy, returns_bind, returns_pure] at h
  obtain ⟨args, _, -, rfl, -⟩ := h
  exact ⟨rfl, rfl, args, rfl, rfl⟩

theorem returns_memo {determinism : Determinism} {head : TabledHead}
    (h : Returns (e.memo body determinism head strictness) s tabled s') :
    ∃ way s₁ goals s₂, Returns (e.lookup head.inputs strictness) s way s₁ ∧
      Returns (match determinism.codeModel with
        | .det => e.memoDet body way.tip head.outputs
        | .semi => e.memoSemi body way.tip head.outputs
        | .non => e.memoNon body determinism way.tip head.outputs) s₁ goals s₂ ∧
      Returns (e.tabledBy way head.outputs goals) s₂ tabled s' := by
  simp only [memo] at h
  cases hcm : determinism.codeModel with
  | det | semi | non =>
    rw [hcm] at h
    simp only [returns_bind] at h
    obtain ⟨way, s₁, hway, goals, s₂, hgoals, htabled⟩ := h
    exact ⟨way, s₁, goals, s₂, hway, hgoals, htabled⟩

theorem tabledBy_run (hR : R.LooksUp) (hσ : proc.IsCall R.accessors ts xs σ)
    (hway : Returns (e.lookup proc.tabledHead.inputs strictness) (.ofProc pred proc) way s₁)
    (h : Returns (e.tabledBy way outputs goals) s₂ tabled s') :
    ∃ σ₁ w₁, tabled.body.run R.machine σ w = Goal.runAll R.machine goals σ₁ w₁ ∧
      proc.AtNode pred s₁ xs way.tip
        (R.place e.env e.proc (proc.infoIn R.accessors σ) strictness ts xs) σ₁ ∧
      σ.Keeps σ₁ ∧ w₁.trace = w.trace ∧ R.view w₁.tables = R.view w.tables := by
  obtain ⟨σ₁, w₁, hrun, hgrows, ht, htip, hv⟩ :=
    lookup_computes (w := w) hR (Nat.le_refl _) hσ.below hway hσ.described hσ.binds
  refine ⟨σ₁, w₁, ?_, ⟨adds_lookup.mono hway, hgrows.below, hσ.toEntered.grows hgrows, htip⟩,
    hgrows.keeps, ht, hv⟩
  rw [(returns_tabledBy h).1, run_conjoin, runAll_append, hrun, Outcome.once_bind]

end TableEnv

/-! ### Tabled forms in a module -/

namespace Module

open Synth

variable {m m' : Module} {r : ProcRef}

theorem run_tabledBody {T : Type} (M : Machine T) (e : TableEnv) (purity : Purity)
    (head : List ProgVar) (body : Goal) :
    (tabledBody e purity head body).run M = body.run M := by
  rw [tabledBody, run_promised, run_requantify]

theorem tabled_ne_none (hmethod : proc.method ≠ .normal) :
    ¬ Returns (e.tabled proc) s none s' := by
  unfold TableEnv.tabled
  intro h
  split at h
  · contradiction
  all_goals
    simp only [returns_bind, returns_pure, reduceCtorEq, false_and, and_false, exists_false] at h

theorem findPred?_addPred (m : Module) (p : Predicate) (i : PredId) :
    (m.addPred p).findPred? i = if i.index = m.preds.size then some p else m.findPred? i := by
  rw [addPred, findPred?, Array.getElem?_push, findPred?]

end Module

end Clausal
