import Clausal.Proofs.TableMemory

/-!
# Loop checking at run time

A procedure that is checked for loops has the solutions of its body, in order,
and its call is active exactly while the body runs: from where the body is
entered, or entered again, to where it is left. Outside of the body the call is
inactive, so that it can be made again; made inside of it, it is found out.
-/

namespace Clausal

open Tables

open Goal

variable {body g : Goal}

namespace Runtime

variable {T : Type} (R : Runtime T)

/-- A call is in a state. -/
def InState (n : Value) (c : CallState) (w : World T) : Prop := (R.view w.tables).state n = c

/-- A node is left alone. -/
def SameNode (n : Value) (t t' : T) : Prop := (R.view t).SameOn (· = n) (R.view t')

/-- The body is entered at a port and left at another, and whenever it reports
    the call is active. -/
def WhileActive (n : Value) (p q : Port) (xs ys : List Value) (w w' : World T) : Prop :=
  ∃ t t', Visit (fun t t' => (R.view t).state n = .active ∧ (R.view t').state n = .active) p q xs
    ys ⟨t, w.trace⟩ ⟨t', w'.trace⟩

/-- How a procedure that is checked for loops exits. -/
structure LoopExits (proc : Procedure) (n : Value) (xs : List Value) (σ : Store) (p : Port)
    (w : World T) (ys : List Value) (σ' : Store) (w' : World T) : Prop where
  outputs : σ'.Binds proc.tabledHead.outputs ys
  keeps : σ.Keeps σ'
  inactive : R.InState n .inactive w'
  running : R.WhileActive n p .exit xs ys w w'

/-- How a procedure that is checked for loops fails. -/
structure LoopFails (n : Value) (xs : List Value) (p : Port) (w w' : World T) : Prop where
  inactive : R.InState n .inactive w'
  running : R.WhileActive n p .fail xs xs w w'

variable {R} {n : Value} {p q : Port} {xs ys : List Value} {w w' w₁ : World T}

theorem whileActive_of_visit (h : Visit (R.SameNode n) p q xs ys w w')
    (hw : R.InState n .active w) : R.WhileActive n p q xs ys w w' ∧ R.InState n .active w' := by
  obtain ⟨hsame, ts, hts, htrace⟩ := h
  have hkeep : ∀ t, R.SameNode n w.tables t → (R.view t).state n = .active :=
    fun t ht => (ht.state n rfl).trans hw
  exact ⟨⟨w.tables, w'.tables, ⟨hw, hkeep _ hsame⟩, ts, fun t ht => ⟨hw, hkeep t (hts t ht)⟩,
    htrace⟩, hkeep _ hsame⟩

theorem WhileActive.congr (h : R.WhileActive n p q xs ys w w') (hw : w₁.trace = w.trace)
    {w₂ : World T} (hw' : w₂.trace = w'.trace) : R.WhileActive n p q xs ys w₁ w₂ := by
  obtain ⟨t, t', hvisit⟩ := h
  exact ⟨t, t', by rw [hw, hw']; exact hvisit⟩

end Runtime

namespace TableEnv

open Synth

variable {T : Type} {R : Runtime T} {e : TableEnv} {s s' : WitnessState} {proc : Procedure}
  {tip : ProgVar} {n : Value} {xs : List Value} {σ : Store} {w : World T}
  {sols : List (List Value)}

theorem adds_loopInactive {model : CodeModel} :
    Adds (e.loopInactive model body tip) := by
  refine adds_bind (adds_call ..) fun _ => adds_bind (adds_call ..) fun _ => ?_
  cases model with
  | det | semi => exact adds_pure _
  | non => exact adds_bind (adds_call ..) fun _ => adds_pure _

theorem adds_loopArm {model : CodeModel} (st : Status) : Adds (e.loopArm model body tip st) := by
  cases st with
  | loopInactive => exact adds_loopInactive
  | _ => exact adds_tableError _

section

variable {inactive inactiveAndFail activeAndFail : Goal} {ys : List Value} {σ₁ : Store}
  {w₁ : World T} {q : Port} (hR : R.ChecksLoops) (htip : σ tip = some n)

include hR htip

/-- The body has been left with an answer, and the call is marked inactive. -/
theorem inactive_exits (hg : inactive.Calls .loopMarkInactive [tip] []) (hσ : proc.Entered xs σ)
    (hw : R.InState n .active w) (hans : proc.Answered σ ys σ₁)
    (hvisit : Clausal.Visit (R.SameNode n) q .exit xs ys w w₁) :
    ∃ w₂, inactive.run R.machine σ₁ w₁ = .once σ₁ w₂ ∧ R.LoopExits proc n xs σ q w ys σ₁ w₂ := by
  have hk := hans.keeps hσ
  obtain ⟨hrunning, -⟩ := R.whileActive_of_visit hvisit hw
  obtain ⟨_, w₂, hrun, rfl, ht, hv⟩ :=
    (hR.inactive n w₁.tables).run hg (.cons (hk _ _ htip) .nil)
  refine ⟨w₂, hrun, hans.binds, hk, ?_, hrunning.congr rfl ht⟩
  rw [Runtime.InState, hv, state_setState_self]

/-- The body has failed, and the call is marked inactive. -/
theorem inactive_fails (hg : inactiveAndFail.Calls .loopMarkInactiveAndFail [tip] [])
    (hw : R.InState n .active w) (hvisit : Clausal.Visit (R.SameNode n) q .fail xs xs w w₁) :
    ∃ w₂, inactiveAndFail.run R.machine σ w₁ = .fail w₂ ∧ R.LoopFails n xs q w w₂ := by
  obtain ⟨hrunning, -⟩ := R.whileActive_of_visit hvisit hw
  obtain ⟨w₂, hrun, ht, hv⟩ := (hR.inactiveAndFail n w₁.tables).run hg (.cons htip .nil)
  refine ⟨w₂, hrun, ?_, hrunning.congr rfl ht⟩
  rw [Runtime.InState, hv, state_setState_self]

theorem activeAndFail_run (hg : activeAndFail.Calls .loopMarkActiveAndFail [tip] []) :
    ∃ w', activeAndFail.run R.machine σ w = .fail w' ∧ w'.trace = w.trace ∧
      R.InState n .active w' := by
  obtain ⟨w', hrun, ht, hv⟩ := (hR.activeAndFail n w.tables).run hg (.cons htip .nil)
  exact ⟨w', hrun, ht, by rw [Runtime.InState, hv, state_setState_self]⟩

theorem loop_non_gives (hin : inactive.Calls .loopMarkInactive [tip] [])
    (hif : inactiveAndFail.Calls .loopMarkInactiveAndFail [tip] [])
    (haf : activeAndFail.Calls .loopMarkActiveAndFail [tip] []) (hσ : proc.Entered xs σ)
    {o : Outcome (World T) Store}
    (h : o.Gives .non (fun _ _ => True)
      (fun q w ys σ' w' => proc.Answered σ ys σ' ∧ Clausal.Visit (R.SameNode n) q .exit xs ys w w')
      (fun q w w' => Clausal.Visit (R.SameNode n) q .fail xs xs w w') q w sols)
    (hw : R.InState n .active w) :
    ((o.bind fun σ' w' => (inactive.run R.machine σ' w').orElse
        (activeAndFail.run R.machine σ')).orElse (inactiveAndFail.run R.machine σ)).Gives .non
      (fun _ _ => True) (R.LoopExits proc n xs σ) (R.LoopFails n xs) q w sols := by
  induction sols generalizing q w o with
  | nil =>
    obtain ⟨-, w₁, rfl, hvisit⟩ := h
    obtain ⟨w₂, hrun, hfails⟩ := inactive_fails hR htip hif hw hvisit
    exact ⟨by decide, w₂, hrun, hfails⟩
  | cons ys sols ih =>
    obtain ⟨σ₁, w₁, redo, rfl, ⟨hans, hvisit⟩, hrest⟩ := h
    obtain ⟨w₂, hrun, hexits⟩ := inactive_exits hR htip hin hσ hw hans hvisit
    refine ⟨σ₁, w₂, fun w => ((activeAndFail.run R.machine σ₁ w).orElse fun w =>
      (redo w).bind fun σ' w' => (inactive.run R.machine σ' w').orElse
        (activeAndFail.run R.machine σ')).orElse (inactiveAndFail.run R.machine σ), ?_, hexits,
      fun w₃ _ => ?_⟩
    · rw [Outcome.bind, hrun]
      rfl
    · -- The call is marked active before the body is entered again.
      obtain ⟨w₄, hrun₄, ht₄, hstate₄⟩ := activeAndFail_run (w := w₃) hR (hexits.keeps _ _ htip) haf
      simp only [hrun₄, Outcome.orElse]
      refine (ih (hrest w₄ trivial) hstate₄).of_start ?_ ?_
      · rintro b a w' ⟨h₁, h₂, h₃, h₄⟩
        exact ⟨h₁, h₂, h₃, h₄.congr ht₄.symm rfl⟩
      · rintro w' ⟨h₁, h₂⟩
        exact ⟨h₁, h₂.congr ht₄.symm rfl⟩

/-- The body of an active call, with what is put around it, marks the call
    inactive on every way out and active on every way back in. -/
theorem loopInactive_gives
    (h : Returns (e.loopInactive proc.determinism.codeModel proc.body tip) s g s')
    (hσ : proc.Entered xs σ) (hbody : proc.Answers R.machine (R.SameNode n) xs σ w sols)
    (hw : R.InState n .active w) :
    (g.run R.machine σ w).Gives proc.determinism.codeModel
      (fun _ _ => True) (R.LoopExits proc n xs σ) (R.LoopFails n xs) .call w sols := by
  simp only [loopInactive, returns_bind] at h
  obtain ⟨inactive, s, hcall, inactiveAndFail, s, hcall', h⟩ := h
  obtain ⟨rfl, hin⟩ := returns_call [tip] [] hcall rfl rfl
  obtain ⟨rfl, hif⟩ := returns_call [tip] [] hcall' rfl rfl
  unfold Procedure.Answers at hbody
  cases hmodel : proc.determinism.codeModel with
  | det =>
    rw [hmodel] at h hbody
    obtain ⟨rfl, rfl⟩ := returns_pure.1 h
    cases sols with
    | nil => exact absurd rfl hbody.1
    | cons ys sols =>
      obtain ⟨σ₁, w₁, _, hrun, ⟨hans, hvisit⟩, rfl, rfl⟩ := hbody
      obtain ⟨w₂, hrun₂, hexits⟩ := inactive_exits hR htip hin hσ hw hans hvisit
      refine ⟨σ₁, w₂, .fail, ?_, hexits, rfl, rfl⟩
      rw [run_conjoin, runAll_cons, hrun, runAll_single]
      exact (Outcome.once_bind ..).trans hrun₂
  | semi =>
    rw [hmodel] at h hbody
    obtain ⟨rfl, rfl⟩ := returns_pure.1 h
    rw [run_ifThenElse]
    cases sols with
    | nil =>
      obtain ⟨-, w₁, hrun, hvisit⟩ := hbody
      obtain ⟨w₂, hrun₂, hfails⟩ := inactive_fails hR htip hif hw hvisit
      refine ⟨by decide, w₂, ?_, hfails⟩
      rw [hrun]
      exact hrun₂
    | cons ys sols =>
      obtain ⟨σ₁, w₁, _, hrun, ⟨hans, hvisit⟩, rfl, rfl⟩ := hbody
      obtain ⟨w₂, hrun₂, hexits⟩ := inactive_exits hR htip hin hσ hw hans hvisit
      refine ⟨σ₁, w₂, .fail, ?_, hexits, rfl, rfl⟩
      rw [hrun]
      exact (Outcome.once_ifThenElse ..).trans hrun₂
  | non =>
    rw [hmodel] at h hbody
    simp only [returns_bind, returns_pure] at h
    obtain ⟨activeAndFail, s, hcall, rfl, rfl⟩ := h
    obtain ⟨rfl, haf⟩ := returns_call [tip] [] hcall rfl rfl
    have hexit : Goal.runAny R.machine [inactive, activeAndFail] = fun σ' w' =>
        (inactive.run R.machine σ' w').orElse (activeAndFail.run R.machine σ') := by
      funext σ' w'
      rw [runAny_cons, runAny_single]
    rw [run_disjoin, runAny_cons, runAny_single, run_conjoin,
      runAll_cons, runAll_single, run_disjoin, hexit]
    exact loop_non_gives hR htip hin hif haf hσ hbody hw

end

section

variable {pred : Predicate} {ts : List Ty} {strictness : Strictness} {tabled : Tabled}
  (hR : R.LooksUp) (hL : R.ChecksLoops)
  (h : Returns (e.loopCheck proc.body proc.determinism proc.tabledHead strictness)
    (.ofProc pred proc) tabled s') (hσ : proc.IsCall R.accessors ts xs σ)
  (hn : n = R.place e.env e.proc (proc.infoIn R.accessors σ) strictness ts xs)

include hR hL h hσ hn

theorem loopCheck_run {c : CallState} (hw : R.InState n c w) {st : Status}
    (hst : c.status? .loop = some st) :
    ∃ tip s₁ s₂ g σ₁ w₁,
      Returns (e.loopArm proc.determinism.codeModel proc.body tip st) s₁ g s₂ ∧
      tabled.body.run R.machine σ w = g.run R.machine σ₁ w₁ ∧
      proc.AtNode pred s₁ xs tip n σ₁ ∧ σ.Keeps σ₁ ∧ w₁.trace = w.trace ∧
      R.view w₁.tables = (R.view w.tables).enter n := by
  simp only [loopCheck, newStatus, returns_bind, returns_newVar] at h
  obtain ⟨way, s₁, hway, _, _, ⟨rfl, rfl⟩, setup, s₂, hsetup, switch, s₃, hswitch, htabled⟩ := h
  obtain ⟨σ₁, w₁, hrun, hat₁, hσ₁, ht₁, hv₁⟩ := tabledBy_run (w := w) hR hσ hway htabled
  have hst₁ : ((R.view w₁.tables).state n).status? .loop = some st := by rw [hv₁, hw, hst]
  obtain ⟨s₄, s₅, g, σ₂, w₂, hg, hat, hrun₂, hk, ht₂, hv₂⟩ :=
    arm_run hL.setup rfl rfl hsetup hswitch adds_loopArm (hn ▸ hat₁) hst₁
  exact ⟨way.tip, s₄, s₅, g, σ₂, w₂, hg, hrun.trans hrun₂, hat, hσ₁.trans hk, ht₂.trans ht₁,
    hv₁ ▸ hv₂⟩

theorem loopCheck_gives (hbody : proc.Solves R.machine (R.SameNode n) xs sols)
    (hw : R.InState n .inactive w) :
    (tabled.body.run R.machine σ w).Gives proc.determinism.codeModel
      (fun _ _ => True) (R.LoopExits proc n xs σ) (R.LoopFails n xs) .call w sols := by
  obtain ⟨tip, s₁, s₂, g, σ₁, w₁, hg, hrun, hat, hσ₁, ht, hv⟩ :=
    loopCheck_run hR hL h hσ hn hw rfl
  have hactive : R.InState n .active w₁ := by
    rw [Runtime.InState, hv, enter_of_inactive hw, state_setState_self]
  have hgives := loopInactive_gives hL hat.tip hg hat.entered (hbody σ₁ w₁ hat.entered) hactive
  rw [hrun]
  refine (hgives.imp (fun _ _ h => h) ?_ fun _ _ _ h => h).of_start ?_ ?_
  · rintro q w ys σ' w' ⟨h₁, h₂, h₃, h₄⟩
    exact ⟨h₁, hσ₁.trans h₂, h₃, h₄⟩
  · rintro ys σ' w' ⟨h₁, h₂, h₃, h₄⟩
    exact ⟨h₁, h₂, h₃, h₄.congr ht.symm rfl⟩
  · rintro w' ⟨h₁, h₂⟩
    exact ⟨h₁, h₂.congr ht.symm rfl⟩

end

end TableEnv

/-- A procedure that is checked for loops has the solutions of its body, in
    order, as many as its caller asks for. Its call is active whenever the body
    runs, and inactive whenever it does not. Made again while it is active, the
    call gives the program up. -/
theorem loop_checked_while_running {T : Type} {R : Runtime T} (hR : R.LooksUp)
    (hL : R.ChecksLoops) {m m' : Module} {r : ProcRef} {pred : Predicate} {proc : Procedure}
    {strictness : Strictness} {ts : List Ty} {xs : List Value} {σ : Store} {n : Value}
    (hproc : m.proc r = .ok (pred, proc)) (hmethod : proc.method = .loopCheck strictness)
    (htable : m.tableProc r = .ok m') (hσ : proc.IsCall R.accessors ts xs σ)
    (hn : n = R.place m r (proc.infoIn R.accessors σ) strictness ts xs) :
    ∃ proc', m'.procAt? r = some proc' ∧
      (∀ sols w, proc.Solves R.machine (R.SameNode n) xs sols → R.InState n .inactive w →
        (proc'.body.run R.machine σ w).Gives proc.determinism.codeModel
          (fun _ _ => True) (R.LoopExits proc n xs σ) (R.LoopFails n xs) .call w sols) ∧
      ∀ w, R.InState n .active w → ∃ w', proc'.body.run R.machine σ w =
        .abort (some (.ofString ("detected infinite recursion in " ++ pred.describe))) w' := by
  obtain ⟨tabled, s, hloop, ⟨proc', hproc', hrun⟩, -⟩ :=
    Module.tableProc_eq_ok hproc htable (by rw [TableEnv.tabled, hmethod])
  refine ⟨proc', hproc', fun sols w hbody hw => ?_, fun w hw => ?_⟩
  · rw [hrun]
    exact TableEnv.loopCheck_gives hR hL hloop hσ hn hbody hw
  · obtain ⟨tip, s₁, s₂, g, σ₁, w₁, hg, hrun₁, -⟩ :=
      TableEnv.loopCheck_run hR hL hloop hσ hn hw rfl
    obtain ⟨w', hrun'⟩ := TableEnv.returns_tableError hg hL.error σ₁ w₁
    exact ⟨w', by rw [hrun, hrun₁, hrun']; rfl⟩

/-! ### An example -/

namespace TabledExample

/-- A procedure with many answers, which is checked for loops. -/
def explore : PredDecl :=
  { name := "explore"
    args := [.input "N" .int, .input "U" unitType, .output "M" .int]
    determinism := .nondet
    method := .loopCheck .allStrict }

def exploreProc : Procedure := base.foreignProc explore

/-- The procedure has the answers 1 and 2. -/
def exploring : Runtime Memory :=
  Memory.runtime fun _ => exploreProc.computes fun _ _ => [[.ofInt 1], [.ofInt 2]]

/-- The place of the call that is made. -/
def exploreNode : Value :=
  exploring.place (base.declare explore (base.foreignGoal explore)) tabledProc
    (exploreProc.infoIn exploring.accessors (exploreProc.callStore [.ofInt 5, unit])) .allStrict
    [.int, unitType] [.ofInt 5, unit]

theorem solves_explore : exploreProc.Solves exploring.machine (exploring.SameNode exploreNode)
    [.ofInt 5, unit] [[.ofInt 1], [.ofInt 2]] := by
  intro σ w hσ
  refine Procedure.answers_of_computes (f := fun _ _ => [[.ofInt 1], [.ofInt 2]])
    (Module.run_foreignProc (by decide) fun _ => rfl) (by decide) (fun _ => .refl _ _) hσ trivial ?_
  simp only [List.mem_cons, List.not_mem_nil, or_false]
  rintro ys (rfl | rfl) <;> rfl

/-- Called for 5, the procedure has both answers and is active in between.
    Called once more while it is active, it gives the program up. -/
theorem explore_active_while_running :
    ∃ m' proc', (base.declare explore (base.foreignGoal explore)).tableProc tabledProc = .ok m' ∧
      m'.procAt? tabledProc = some proc' ∧
      (proc'.body.run exploring.machine (exploreProc.callStore [.ofInt 5, unit]) ⟨{}, []⟩).Gives
        .non (fun _ _ => True)
        (exploring.LoopExits exploreProc exploreNode [.ofInt 5, unit]
          (exploreProc.callStore [.ofInt 5, unit]))
        (exploring.LoopFails exploreNode [.ofInt 5, unit]) .call ⟨{}, []⟩
        [[.ofInt 1], [.ofInt 2]] ∧
      ∃ w', proc'.body.run exploring.machine (exploreProc.callStore [.ofInt 5, unit])
          ⟨Memory.setState {} exploreNode .active, []⟩ =
        .abort
          (some (.ofString "detected infinite recursion in predicate `tabled.explore/3`")) w' := by
  obtain ⟨m', hm'⟩ := Module.of_isOk_tableProc
    (m := base.declare explore (base.foreignGoal explore)) (r := tabledProc) (by decide +kernel)
  have hcall : exploreProc.IsCall exploring.accessors [.int, unitType] [.ofInt 5, unit]
      (exploreProc.callStore [.ofInt 5, unit]) :=
    Procedure.isCall_callStore (by decide) rfl (by decide) rfl
  obtain ⟨proc', hproc', hgives, habort⟩ := loop_checked_while_running (n := exploreNode)
    (Memory.looksUp _) (Memory.checksLoops _) Module.proc_foreign rfl hm' hcall rfl
  have hmessage : "detected infinite recursion in " ++
      (base.declared explore (base.foreignGoal explore)).describe =
        "detected infinite recursion in predicate `tabled.explore/3`" := by decide +kernel
  rw [hmessage] at habort
  exact ⟨m', proc', hm', hproc', hgives _ ⟨{}, []⟩ solves_explore rfl,
    habort _ (Tables.state_setState_self (Memory.view {}) exploreNode .active)⟩

end TabledExample

end Clausal
