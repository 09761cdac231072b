import Clausal.Proofs.TableMemory

/-!
# Memoing at run time

A procedure with at most one answer that is memoed succeeds and fails just as
its body does, with the same outputs, and its body runs once for each call that
differs from those before: the first time, its answer is kept, and from then on
it is found.
-/

namespace Clausal

open List Goal Tables Function

variable {answer : Option (List Value)} {proc : Procedure} {outputs : List ProgVar} {body : Goal}
  {xs : List Value} {N : Value → Prop} {m : Module} {us : List Ty} {n : Value} {T : Type}
  {w : World T} {failed : Goal}

/-! ### What is remembered of a call -/

namespace Tables

variable {v v' : Tables} {N' : Value → Prop} {b : Value}

/-- Nothing is known of a call. -/
def Untouched (v : Tables) (n : Value) : Prop := v.state n = .inactive ∧ v.block n = none

/-- The answer to a call is known: its outputs, or that there is none. -/
def Remembers (v : Tables) (m : Module) (us : List Ty) (n : Value) : Option (List Value) → Prop
  | some ys => v.state n = .succeeded ∧
    (us ≠ [] → ∃ b, v.block n = some b ∧ m.Holds (v.slot b) 0 us ys)
  | none => v.state n = .failed

theorem Untouched.sameOn (h : v.Untouched n) (hv : v.SameOn N v') (hn : N n) : v'.Untouched n :=
  ⟨(hv.state n hn).trans h.1, (hv.block n hn).trans h.2⟩

theorem Remembers.sameOn (h : v.Remembers m us n answer) (hv : v.SameOn N v') (hn : N n) :
    v'.Remembers m us n answer := by
  cases answer with
  | none => exact (hv.state n hn).trans h
  | some ys =>
    refine ⟨(hv.state n hn).trans h.1, fun hus => ?_⟩
    obtain ⟨b, hb, hheld⟩ := h.2 hus
    refine ⟨b, (hv.block n hn).trans hb, ?_⟩
    rw [(hv.slots n b hn (.inl hb)).2]
    exact hheld

theorem Untouched.enter (h : v.Untouched n) :
    v.SameOn (· ≠ n) (v.enter n) ∧ (v.enter n).block n = none := by
  rw [enter_of_inactive h.1]
  exact ⟨sameOn_setState v _, h.2⟩

theorem Remembers.enter (h : v.Remembers m us n answer) : v.enter n = v := by
  refine enter_of_ne ?_
  cases answer with
  | none => exact h ▸ by decide
  | some ys => exact h.1 ▸ by decide

end Tables

namespace Runtime

variable (R : Runtime T)

/-- The answer to a call is known in the end, and of the other calls of the
    table what was known before. Meanwhile the body was run with the given
    inputs. -/
structure Remembered (m : Module) (us : List Ty) (N : Value → Prop) (n : Value)
    (runs : List (List Value)) (answer : Option (List Value)) (w w' : World T) : Prop where
  known : (R.view w'.tables).Remembers m us n answer
  others : (R.view w.tables).SameOn (fun k => N k ∧ k ≠ n) (R.view w'.tables)
  ran : bodyCalls w'.trace = bodyCalls w.trace ++ runs

/-- The outcome of a call with at most one answer, which is remembered. -/
def MemoGives (proc : Procedure) (m : Module) (us : List Ty) (N : Value → Prop) (n : Value)
    (runs : List (List Value)) (σ : Store) (w : World T) (answer : Option (List Value))
    (o : Outcome (World T) Store) : Prop :=
  o.Gives proc.determinism.codeModel (fun _ _ => True)
    (fun _ w ys σ' w' => σ'.Binds proc.tabledHead.outputs ys ∧ σ.Keeps σ' ∧
      R.Remembered m us N n runs (some ys) w w')
    (fun _ w w' => R.Remembered m us N n runs none w w') .call w answer.toList

variable {R} {runs : List (List Value)} {w₀ w' : World T}

theorem Remembered.of_start (h : R.Remembered m us N n runs answer w w')
    (hv : (R.view w₀.tables).SameOn (· ≠ n) (R.view w.tables)) (ht : w.trace = w₀.trace) :
    R.Remembered m us N n runs answer w₀ w' :=
  ⟨h.known, (hv.mono fun _ hk => hk.2).trans h.others, by rw [h.ran, ht]⟩

theorem MemoGives.of_start {σ σ₀ : Store} {o : Outcome (World T) Store}
    (h : R.MemoGives proc m us N n runs σ w answer o) (hσ : σ₀.Keeps σ)
    (hv : (R.view w₀.tables).SameOn (· ≠ n) (R.view w.tables)) (ht : w.trace = w₀.trace) :
    R.MemoGives proc m us N n runs σ₀ w₀ answer o := by
  refine (Outcome.Gives.imp h (fun _ _ h => h) ?_ fun _ _ _ h => h).of_start ?_ ?_
  · rintro _ _ _ _ _ ⟨hbinds, hk, hr⟩
    exact ⟨hbinds, hσ.trans hk, hr⟩
  · rintro _ _ _ ⟨hbinds, hk, hr⟩
    exact ⟨hbinds, hk, hr.of_start hv ht⟩
  · exact fun _ hr => hr.of_start hv ht

end Runtime

namespace TableEnv

open Synth

variable {R : Runtime T} {e : TableEnv} {s s' : WitnessState} {pred : Predicate} {tip : ProgVar}
  {ys : List Value} {σ ρ : Store} {g : Goal}

theorem adds_memoSave : Adds (e.memoSave tip outputs) := by
  unfold memoSave
  split
  · exact adds_call ..
  · exact adds_bind adds_saveAnswer fun _ => adds_pure _

theorem adds_memoRestore : Adds (e.memoRestore tip outputs) := by
  unfold memoRestore
  split
  · exact adds_pure _
  · exact adds_bind adds_restoreAnswer fun _ => adds_pure _

theorem memoSave_run (hK : R.KeepsSlots) (hM : R.Memos) {infoOf : Ty → Option Value}
    (h : Returns (e.memoSave tip outputs) s g s') (hσ : σ.Below s.vars.size) (htip : σ tip = some n)
    (hd : Described R s σ infoOf outputs us) (hys : σ.Binds outputs ys)
    (hblock : (R.view w.tables).block n = none) :
    (g.run R.machine σ w).Once fun σ' w' => σ.Keeps σ' ∧ w'.trace = w.trace ∧
      (R.view w'.tables).Remembers e.env us n (some ys) ∧
      (R.view w.tables).SameOn (· ≠ n) (R.view w'.tables) := by
  unfold memoSave at h
  split at h
  · next hempty =>
    have hus : us = [] := by
      rw [← length_eq_zero_iff, ← hd.types.length_eq, length_eq_zero_iff]
      exact List.isEmpty_iff.1 hempty
    obtain ⟨rfl, hg⟩ := returns_call [tip] [] h rfl rfl
    refine Outcome.Once.imp ((hM.succeeded n w.tables).run hg (.cons htip .nil)) ?_
    rintro σ' w' ⟨hσ', ht, hv⟩
    rw [hσ', Store.setMany_nil, hv]
    exact ⟨.refl σ, ht, ⟨state_setState_self .., fun hne => absurd hus hne⟩,
      sameOn_setState _ _⟩
  · simp only [returns_bind, returns_pure] at h
    obtain ⟨⟨block, goals⟩, s₁, hsave, rfl, rfl⟩ := h
    rw [run_conjoin]
    have hruns := saveAnswer_runs (m := 0) hK hsave rfl rfl (Nat.zero_le _) hσ htip hd hys
      (hM.create n outputs.length w.tables hblock) fun b => update_self ..
    refine Outcome.Once.imp hruns ?_
    rintro σ' w' ⟨hσ', ht, b, f, hfresh, -, hv, hheld⟩
    refine ⟨hσ'.keeps, ht, ⟨?_, fun _ => ⟨b, ?_, ?_⟩⟩, ?_⟩
    · rw [hv]
      exact update_self ..
    · rw [hv]
      exact update_self ..
    · rw [hv, slot_setSlots_self]
      exact hheld
    · rw [hv]
      exact sameOn_newBlock hfresh _ _ f

section

variable {runs : List (List Value)} {goals : List Goal}

theorem memoGives_once (hmodel : proc.determinism.codeModel ≠ .non) {o : Outcome (World T) Store}
    (h : o.Once fun σ' w' => σ'.Binds proc.tabledHead.outputs ys ∧ σ.Keeps σ' ∧
      R.Remembered e.env us N n runs (some ys) w w') :
    R.MemoGives proc e.env us N n runs σ w (some ys) o := by
  obtain ⟨σ', w', ho, h⟩ := h
  refine ⟨σ', w', .fail, ho, h, ?_⟩
  cases hcm : proc.determinism.codeModel with
  | det | semi => exact ⟨rfl, rfl⟩
  | non => exact absurd hcm hmodel

/-- What is known of a call before it is made, and which runs of its body it
    takes. -/
def Known (R : Runtime T) (m : Module) (us : List Ty) (n : Value) (xs : List Value)
    (answer : Option (List Value)) (w : World T) (runs : List (List Value)) : Prop :=
  (R.view w.tables).Untouched n ∧ runs = [xs] ∨
    (R.view w.tables).Remembers m us n answer ∧ runs = []

theorem adds_memoDetArm (st : Status) : Adds (e.memoDetArm body tip outputs st) := by
  cases st with
  | memoDetInactive => exact adds_bind adds_memoSave fun _ => adds_pure _
  | memoDetSucceeded => exact adds_memoRestore
  | _ => exact adds_tableError _

theorem adds_memoSemiArm (st : Status) : Adds (e.memoSemiArm body tip outputs st) := by
  cases st with
  | memoSemiInactive =>
    exact adds_bind adds_memoSave fun _ => adds_bind (adds_call ..) fun _ => adds_pure _
  | memoSemiSucceeded => exact adds_memoRestore
  | memoSemiFailed => exact adds_pure _
  | _ => exact adds_tableError _

theorem memoFailed_gives (hM : R.Memos) (hg : failed.Calls .memoMarkFailed [tip] [])
    (hat : proc.AtNode pred s xs tip n σ) (hmodel : proc.determinism.codeModel = .semi)
    (hbody : proc.Answers R.machine (R.SameTable N) xs σ w []) {yes : Meaning T} :
    R.MemoGives proc e.env us N n [xs] σ w none
      ((proc.body.run R.machine σ w).ifThenElse yes
        ((Goal.conjoin [failed, .failure e.context] e.context).run R.machine σ)) := by
  obtain ⟨-, w₁, hrun, hvisit⟩ := hbody
  obtain ⟨σ₂, w₂, hrun₂, rfl, ht₂, hv₂⟩ := (hM.failed n w₁.tables).run hg (.cons hat.tip .nil)
  refine ⟨by rw [hmodel]; decide, w₂, ?_, ?_, ?_, ?_⟩
  · rw [hrun, Outcome.ifThenElse, run_conjoin, runAll_cons, hrun₂, Outcome.once_bind,
      runAll_single, run_failure]
  · rw [hv₂]
    exact state_setState_self ..
  · rw [hv₂]
    exact (hvisit.1.mono fun _ hk => hk.1).trans
      ((sameOn_setState _ _).mono fun _ hk => hk.2)
  · rw [ht₂]
    exact hvisit.bodyCalls (by decide)

variable (hK : R.KeepsSlots) (hM : R.Memos)
  (hus : proc.vars.types proc.tabledHead.outputs = .ok us)

include hK hM hus

theorem memoRestore_run (h : Returns (e.memoRestore tip proc.tabledHead.outputs) s g s')
    (hat : proc.AtNode pred s xs tip n σ) (hρ : proc.Answered σ ys ρ)
    (hreturn : proc.CanReturn e.env R.accessors us xs ys)
    (hknown : (R.view w.tables).Remembers e.env us n (some ys)) :
    (g.run R.machine σ w).Once fun σ' w' => σ'.Binds proc.tabledHead.outputs ys ∧
      σ.Keeps σ' ∧ w'.trace = w.trace ∧ R.view w'.tables = R.view w.tables := by
  unfold memoRestore at h
  split at h
  · next hempty =>
    obtain ⟨rfl, rfl⟩ := returns_pure.1 h
    have hbinds := hρ.binds
    rw [List.isEmpty_iff.1 hempty] at hbinds ⊢
    cases hbinds
    rw [run_success]
    exact .intro ⟨.nil, .refl σ, rfl, rfl⟩
  · next hempty =>
    simp only [returns_bind, returns_pure] at h
    obtain ⟨goals, s₁, hrestore, rfl, rfl⟩ := h
    obtain ⟨get, restores, rfl, hget, hrestores⟩ :=
      restoreAnswer_runs (R := R) hK hrestore rfl rfl hat.grown hus
    have hne : us ≠ [] := by
      rintro rfl
      have hlen := (VarTable.types_eq_ok.1 hus).length_eq
      exact hempty (List.isEmpty_iff.2 (length_eq_zero_iff.1 hlen))
    obtain ⟨b, hb, hheld⟩ := hknown.2 hne
    rw [run_conjoin]
    refine Outcome.Once.bind ((hM.get n b w.tables hb).run hget (.cons hat.tip .nil)) ?_
    rintro σ₁ w₁ ⟨hσ₁, ht₁, hv₁⟩
    rw [hσ₁, Store.setMany_single]
    refine Outcome.Once.imp (hrestores hat.below hat.entered hρ hreturn (hv₁ ▸ hheld)) ?_
    rintro σ₂ w₂ ⟨hσ₂, ht₂, hbinds, hv₂⟩
    refine ⟨hbinds, ?_, ht₂.trans ht₁, hv₂.trans hv₁⟩
    exact (hat.below.keeps_set (Nat.le_refl _)).trans hσ₂.keeps

theorem body_memoSave_gives (h : Returns (e.memoSave tip proc.tabledHead.outputs) s g s')
    (hat : proc.AtNode pred s xs tip n σ) (hn : N n) (hblock : (R.view w.tables).block n = none)
    (hmodel : proc.determinism.codeModel ≠ .non)
    (hbody : proc.Answers R.machine (R.SameTable N) xs σ w [ys])
    (hreturn : proc.CanReturn e.env R.accessors us xs ys) :
    ∃ σ₁ w₁, proc.body.run R.machine σ w = .once σ₁ w₁ ∧
      R.MemoGives proc e.env us N n [xs] σ w (some ys) (g.run R.machine σ₁ w₁) := by
  obtain ⟨σ₁, w₁, hrun, hans, hvisit⟩ := hbody.once hmodel
  have hk := hans.keeps hat.entered
  have hdesc := Procedure.described_of_inTurn (R := R) hreturn.inTurn hus hat.grown
    (hat.entered.binds.keeps hk) hans.binds
  refine ⟨σ₁, w₁, hrun, memoGives_once hmodel (Outcome.Once.imp (memoSave_run hK hM h
    (hans.below hat.below hat.grown.size_le) (hk _ _ hat.tip) hdesc hans.binds
    ((hvisit.1.block n hn).trans hblock)) fun σ₂ w₂ ⟨hk₂, ht₂, hknown, hothers⟩ => ?_)⟩
  refine ⟨hans.binds.keeps hk₂, hk.trans hk₂, hknown, ?_, ?_⟩
  · exact (hvisit.1.mono fun _ hk => hk.1).trans (hothers.mono fun _ hk => hk.2)
  · rw [ht₂]
    exact hvisit.bodyCalls (by decide)

/-- The answer that was kept is given, and nothing is run. -/
theorem memoRestore_gives {w₁ : World T} {σ₁ : Store}
    (h : Returns (e.memoRestore tip proc.tabledHead.outputs) s g s')
    (hat : proc.AtNode pred s xs tip n σ₁) (hmodel : proc.determinism.codeModel ≠ .non)
    {same : T → T → Prop} (hbody : proc.Solves R.machine same xs [ys])
    (hreturn : proc.CanReturn e.env R.accessors us xs ys)
    (hknown : (R.view w.tables).Remembers e.env us n (some ys)) (hk : σ.Keeps σ₁)
    (ht : w₁.trace = w.trace) (hv : R.view w₁.tables = (R.view w.tables).enter n) :
    R.MemoGives proc e.env us N n [] σ w (some ys) (g.run R.machine σ₁ w₁) := by
  rw [hknown.enter] at hv
  obtain ⟨ρ, hρ⟩ := hbody.answered hat.entered w ys mem_cons_self
  refine memoGives_once hmodel (Outcome.Once.imp (memoRestore_run hK hM hus h hat hρ hreturn
    (hv ▸ hknown)) fun σ' w' ⟨hbinds, hk₂, ht₂, hv₂⟩ => ⟨hbinds, hk.trans hk₂, ?_, ?_, ?_⟩)
  · rw [hv₂, hv]
    exact hknown
  · rw [hv₂, hv]
    exact .refl _ _
  · rw [ht₂, ht, append_nil]

section

variable (hat : proc.AtNode pred s xs tip n σ) (hn : N n)
  (hbody : proc.Solves R.machine (R.SameTable N) xs answer.toList)
  (hreturn : ∀ ys ∈ answer, proc.CanReturn e.env R.accessors us xs ys)
  (hw : Known R e.env us n xs answer w runs)

include hat hn hbody hreturn hw

/-- A call that always has one answer. -/
theorem memoDet_gives (h : Returns (e.memoDet proc.body tip proc.tabledHead.outputs) s goals s')
    (hmodel : proc.determinism.codeModel = .det) :
    R.MemoGives proc e.env us N n runs σ w answer (Goal.runAll R.machine goals σ w) := by
  simp only [memoDet, newStatus, returns_bind, returns_newVar, returns_pure] at h
  obtain ⟨_, _, ⟨rfl, rfl⟩, setup, s₁, hsetup, switch, s₂, hswitch, rfl, rfl⟩ := h
  have hnon : proc.determinism.codeModel ≠ .non := by rw [hmodel]; decide
  have harm {st : Status} (hst : ((R.view w.tables).state n).status? .memoDet = some st) :=
    arm_run hM.setupDet rfl rfl hsetup hswitch adds_memoDetArm hat hst
  cases answer with
  | none => exact absurd hmodel (hbody σ w hat.entered).1
  | some ys =>
    rcases hw with ⟨hnew, rfl⟩ | ⟨hknown, rfl⟩
    · obtain ⟨s₂, s₃, g, σ₁, w₁, hg, hat₁, hrun, hk, ht, hv⟩ :=
        harm (congrArg (CallState.status? .memoDet) hnew.1)
      simp only [memoDetArm, returns_bind, returns_pure] at hg
      obtain ⟨save, _, hsave, rfl, rfl⟩ := hg
      obtain ⟨hothers, hblock⟩ := hv ▸ hnew.enter
      obtain ⟨σ₂, w₂, hrun₂, hgives⟩ := body_memoSave_gives hK hM hus hsave hat₁ hn hblock hnon
        (hbody σ₁ w₁ hat₁.entered) (hreturn ys rfl)
      rw [hrun, run_conjoin, runAll_cons, hrun₂, Outcome.once_bind, runAll_single]
      exact hgives.of_start hk hothers ht
    · obtain ⟨s₂, s₃, g, σ₁, w₁, hg, hat₁, hrun, hk, ht, hv⟩ :=
        harm (congrArg (CallState.status? .memoDet) hknown.1)
      rw [hrun]
      exact memoRestore_gives hK hM hus hg hat₁ hnon hbody (hreturn ys rfl) hknown hk ht hv

/-- A call that has one answer or none. -/
theorem memoSemi_gives (h : Returns (e.memoSemi proc.body tip proc.tabledHead.outputs) s goals s')
    (hmodel : proc.determinism.codeModel = .semi) :
    R.MemoGives proc e.env us N n runs σ w answer (Goal.runAll R.machine goals σ w) := by
  simp only [memoSemi, newStatus, returns_bind, returns_newVar, returns_pure] at h
  obtain ⟨_, _, ⟨rfl, rfl⟩, setup, s₁, hsetup, switch, s₂, hswitch, rfl, rfl⟩ := h
  have hnon : proc.determinism.codeModel ≠ .non := by rw [hmodel]; decide
  have harm {st : Status} (hst : ((R.view w.tables).state n).status? .memoSemi = some st) :=
    arm_run hM.setupSemi rfl rfl hsetup hswitch adds_memoSemiArm hat hst
  rcases hw with ⟨hnew, rfl⟩ | ⟨hknown, rfl⟩
  · obtain ⟨s₂, s₃, g, σ₁, w₁, hg, hat₁, hrun, hk, ht, hv⟩ :=
      harm (congrArg (CallState.status? .memoSemi) hnew.1)
    simp only [memoSemiArm, returns_bind, returns_pure] at hg
    obtain ⟨save, s₄, hsave, failed, s₅, hfailed, rfl, rfl⟩ := hg
    obtain ⟨rfl, hcalls⟩ := returns_call [tip] [] hfailed rfl rfl
    obtain ⟨hothers, hblock⟩ := hv ▸ hnew.enter
    rw [hrun, run_ifThenElse]
    refine Runtime.MemoGives.of_start ?_ hk hothers ht
    cases answer with
    | none => exact memoFailed_gives hM hcalls hat₁ hmodel (hbody σ₁ w₁ hat₁.entered)
    | some ys =>
      obtain ⟨σ₂, w₂, hrun₂, hgives⟩ := body_memoSave_gives hK hM hus hsave hat₁ hn hblock hnon
        (hbody σ₁ w₁ hat₁.entered) (hreturn ys rfl)
      rw [hrun₂, Outcome.once_ifThenElse]
      exact hgives
  · cases answer with
    | none =>
      obtain ⟨s₂, s₃, g, σ₁, w₁, hg, -, hrun, hk, ht, hv⟩ :=
        harm (congrArg (CallState.status? .memoSemi) hknown)
      rw [hknown.enter] at hv
      obtain ⟨rfl, rfl⟩ := returns_pure.1 hg
      rw [hrun, run_failure]
      refine ⟨by rw [hmodel]; decide, w₁, rfl, hv ▸ hknown, ?_, ?_⟩
      · rw [hv]
        exact .refl _ _
      · rw [ht, append_nil]
    | some ys =>
      obtain ⟨s₂, s₃, g, σ₁, w₁, hg, hat₁, hrun, hk, ht, hv⟩ :=
        harm (congrArg (CallState.status? .memoSemi) hknown.1)
      rw [hrun]
      exact memoRestore_gives hK hM hus hg hat₁ hnon hbody (hreturn ys rfl) hknown hk ht hv

end

theorem memo_gives (hR : R.LooksUp) {strictness : Strictness} {tabled : Tabled}
    (h : Returns (e.memo proc.body proc.determinism proc.tabledHead strictness)
      (.ofProc pred proc) tabled s') (hmodel : proc.determinism.codeModel ≠ .non)
    (hσ : proc.IsCall R.accessors ts xs σ)
    (hn : n = R.place e.env e.proc (proc.infoIn R.accessors σ) strictness ts xs) (hN : N n)
    (hbody : proc.Solves R.machine (R.SameTable N) xs answer.toList)
    (hreturn : ∀ ys ∈ answer, proc.CanReturn e.env R.accessors us xs ys)
    (hw : Known R e.env us n xs answer w runs) :
    R.MemoGives proc e.env us N n runs σ w answer (tabled.body.run R.machine σ w) := by
  obtain ⟨way, s₁, goals, s₂, hway, hgoals, htabled⟩ := returns_memo h
  obtain ⟨σ₁, w₁, hrun, hat, hk, ht₁, hv₁⟩ := tabledBy_run (w := w) hR hσ hway htabled
  have hw₁ : Known R e.env us n xs answer w₁ runs := by
    rw [Known, hv₁]
    exact hw
  rw [← hn] at hat
  rw [hrun]
  refine Runtime.MemoGives.of_start ?_ hk (by rw [hv₁]; exact .refl _ _) ht₁
  cases hcm : proc.determinism.codeModel with
  | det =>
    rw [hcm] at hgoals
    exact memoDet_gives hK hM hus hat hN hbody hreturn hw₁ hgoals hcm
  | semi =>
    rw [hcm] at hgoals
    exact memoSemi_gives hK hM hus hat hN hbody hreturn hw₁ hgoals hcm
  | non => exact absurd hcm hmodel

end

end TableEnv

/-! ### Calls in a row -/

namespace Runtime

variable (R : Runtime T)

/-- The place of a call whose types have no variables. -/
def groundPlace (m : Module) (r : ProcRef) (ts : List Ty) (xs : List Value) : Value :=
  R.place m r Ty.info? .allStrict ts xs

variable {R} {r : ProcRef} {ts : List Ty} {xs' : List Value}

theorem place_of_isGround (hts : ∀ t ∈ ts, t.isGround = true) (proc : Procedure) (rt : Accessors)
    (σ : Store) : R.place m r (proc.infoIn rt σ) .allStrict ts xs = R.groundPlace m r ts xs := by
  have hsteps : m.answerSteps (proc.infoIn rt σ) ts = m.answerSteps Ty.info? ts := by
    refine map_congr_left fun t ht => ?_
    rw [Module.step?, Module.step?, Procedure.infoIn, Ty.infoWith_of_isGround (hts t ht)]
  rw [groundPlace, place, place, Module.callSteps_allStrict, Module.callSteps_allStrict, hsteps]

theorem groundPlace_inj (hR : R.Separates) (hxs : Forall₂ m.Fits ts xs)
    (hxs' : Forall₂ m.Fits ts xs') (h : R.groundPlace m r ts xs = R.groundPlace m r ts xs') :
    xs = xs' := by
  rw [groundPlace, groundPlace, place, place, Module.callSteps_allStrict] at h
  exact follow_inj hR hxs hxs' (.refl _ _ _ _) h

variable (R) in
/-- The table of a procedure after some calls: it knows the answers to these
    calls, and nothing of others. The body has run once for each key, in the
    order of the first calls. -/
structure MemoTable (m : Module) (r : ProcRef) (ts us : List Ty)
    (f : List Value → Option (List Value)) (calls : List (List Value)) (w : World T) : Prop where
  fits : ∀ xs ∈ calls, Forall₂ m.Fits ts xs
  known : ∀ xs ∈ calls, (R.view w.tables).Remembers m us (R.groundPlace m r ts xs) (f xs)
  untouched : ∀ n, R.Below (root r) n → (∀ xs ∈ calls, n ≠ R.groundPlace m r ts xs) →
    (R.view w.tables).Untouched n
  ran : (bodyCalls w.trace).map (m.keyOf ts) = (calls.map (m.keyOf ts)).eraseDups

variable {f : List Value → Option (List Value)} {calls : List (List Value)} {w' : World T}

theorem MemoTable.known_of (hR : R.Separates) (h : R.MemoTable m r ts us f calls w)
    (hxs : Forall₂ m.Fits ts xs) :
    TableEnv.Known R m us (R.groundPlace m r ts xs) xs (f xs) w
      (if xs ∈ calls then [] else [xs]) := by
  split
  · next hmem => exact .inr ⟨h.known xs hmem, rfl⟩
  · next hnew =>
    refine .inl ⟨h.untouched _ (below_follow _ _ .root) fun xs' hmem heq => ?_, rfl⟩
    exact hnew (groundPlace_inj hR hxs (h.fits xs' hmem) heq ▸ hmem)

/-- What the table knows after some calls, it knows after one more. -/
theorem MemoTable.step (hR : R.Separates) (h : R.MemoTable m r ts us f calls w)
    (hxs : Forall₂ m.Fits ts xs)
    (hw : R.Remembered m us (R.Below (root r)) (R.groundPlace m r ts xs)
      (if xs ∈ calls then [] else [xs]) (f xs) w w') :
    R.MemoTable m r ts us f (calls ++ [xs]) w' := by
  have hcases : ∀ xs', xs' ∈ calls ++ [xs] → xs' = xs ∨ xs' ∈ calls ∧ xs' ≠ xs := by
    intro xs' hmem
    rcases mem_append.1 hmem with hmem | hmem
    · by_cases heq : xs' = xs
      · exact .inl heq
      · exact .inr ⟨hmem, heq⟩
    · exact .inl (mem_singleton.1 hmem)
  refine ⟨fun xs' hmem => ?_, fun xs' hmem => ?_, fun n hn hother => ?_, ?_⟩
  · rcases hcases xs' hmem with rfl | ⟨hmem, -⟩
    · exact hxs
    · exact h.fits xs' hmem
  · rcases hcases xs' hmem with rfl | ⟨hmem, hne⟩
    · exact hw.known
    · refine (h.known xs' hmem).sameOn hw.others ⟨below_follow _ _ .root, fun heq => ?_⟩
      exact hne (groundPlace_inj hR (h.fits xs' hmem) hxs heq)
  · refine (h.untouched n hn fun xs' hmem => ?_).sameOn hw.others ⟨hn, ?_⟩
    · exact hother xs' (mem_append_left _ hmem)
    · exact hother xs (mem_append_right _ mem_cons_self)
  · -- The body has run just now if the key is new.
    have hkey := Module.mem_map_keyOf hxs h.fits
    rw [hw.ran, map_append, h.ran, map_append, map_singleton, eraseDups_concat]
    by_cases hmem : xs ∈ calls
    · rw [if_pos hmem, if_pos (hkey.2 hmem), map_nil, append_nil]
    · rw [if_neg hmem, if_neg (mt hkey.1 hmem), map_singleton]

variable (R) in
/-- Calls of a procedure in a row, from where its table is empty on. What is
    done between them leaves the table alone and does not run the body. -/
inductive CallsInRow (m : Module) (r : ProcRef) (proc : Procedure) (ts : List Ty) (body : Goal) :
    List (List Value) → World T → Prop
  | start {w : World T} (hw : ∀ n, R.Below (root r) n → (R.view w.tables).Untouched n)
      (ht : w.trace = []) : CallsInRow m r proc ts body [] w
  | between {calls : List (List Value)} {w w' : World T}
      (h : CallsInRow m r proc ts body calls w)
      (hw : R.SameTable (R.Below (root r)) w.tables w'.tables) (ht : w'.trace = w.trace) :
      CallsInRow m r proc ts body calls w'
  | exit {calls : List (List Value)} {w w' : World T} {σ σ' : Store} {xs : List Value}
      {redo : World T → Outcome (World T) Store} (h : CallsInRow m r proc ts body calls w)
      (hσ : proc.IsCall R.accessors ts xs σ) (hxs : Forall₂ m.Fits ts xs)
      (hrun : body.run R.machine σ w = .exit σ' w' redo) :
      CallsInRow m r proc ts body (calls ++ [xs]) w'
  | fail {calls : List (List Value)} {w w' : World T} {σ : Store} {xs : List Value}
      (h : CallsInRow m r proc ts body calls w) (hσ : proc.IsCall R.accessors ts xs σ)
      (hxs : Forall₂ m.Fits ts xs) (hrun : body.run R.machine σ w = .fail w') :
      CallsInRow m r proc ts body (calls ++ [xs]) w'

theorem CallsInRow.memoTable (hR : R.Separates)
    (hcall : ∀ {calls w xs σ}, R.MemoTable m r ts us f calls w → proc.IsCall R.accessors ts xs σ →
      Forall₂ m.Fits ts xs → R.MemoGives proc m us (R.Below (root r))
        (R.groundPlace m r ts xs) (if xs ∈ calls then [] else [xs]) σ w (f xs)
        (body.run R.machine σ w)) (h : R.CallsInRow m r proc ts body calls w) :
    R.MemoTable m r ts us f calls w := by
  induction h with
  | start hw ht =>
    exact ⟨fun xs hmem => absurd hmem not_mem_nil,
      fun xs hmem => absurd hmem not_mem_nil, fun n hn _ => hw n hn, by rw [ht]; rfl⟩
  | between _ hw ht ih =>
    exact ⟨ih.fits, fun xs hmem => (ih.known xs hmem).sameOn hw (below_follow _ _ .root),
      fun n hn hother => (ih.untouched n hn hother).sameOn hw hn, by rw [ht]; exact ih.ran⟩
  | @exit calls w w' σ σ' xs redo _ hσ hxs hrun ih =>
    have hgives := hcall ih hσ hxs
    cases hanswer : f xs with
    | none =>
      rw [hrun, hanswer] at hgives
      obtain ⟨-, _, hfail, -⟩ := hgives
      cases hfail
    | some ys =>
      rw [hrun, hanswer] at hgives
      obtain ⟨_, _, _, hexit, ⟨-, -, hr⟩, -⟩ := hgives
      cases hexit
      exact ih.step hR hxs (hanswer ▸ hr)
  | @fail calls w w' σ xs _ hσ hxs hrun ih =>
    have hgives := hcall ih hσ hxs
    cases hanswer : f xs with
    | none =>
      rw [hrun, hanswer] at hgives
      obtain ⟨-, _, hfail, hr⟩ := hgives
      cases hfail
      exact ih.step hR hxs (hanswer ▸ hr)
    | some ys =>
      rw [hrun, hanswer] at hgives
      obtain ⟨_, _, _, hexit, -⟩ := hgives
      cases hexit

end Runtime

/-- A procedure with at most one answer that is memoed answers every call as its
    body does, whatever calls were made before. The body runs once for each key
    of a call, when it is first made. -/
theorem memo_transparent {T : Type} {R : Runtime T} (hR : R.LooksUp) (hS : R.Separates)
    (hK : R.KeepsSlots) (hM : R.Memos) {m m' : Module} {r : ProcRef} {pred : Predicate}
    {proc : Procedure} {ts us : List Ty} {f : List Value → Option (List Value)}
    (hproc : m.proc r = .ok (pred, proc)) (hmethod : proc.method = .memo .allStrict)
    (hmodel : proc.determinism.codeModel ≠ .non) (htable : m.tableProc r = .ok m')
    (hus : proc.vars.types proc.tabledHead.outputs = .ok us)
    (hground : ∀ t ∈ ts ++ us, t.isGround = true)
    (hbody : ∀ xs, List.Forall₂ m.Fits ts xs →
      proc.Solves R.machine (R.SameTable (R.Below (Runtime.root r))) xs (f xs).toList)
    (hfits : ∀ xs, List.Forall₂ m.Fits ts xs → ∀ ys ∈ f xs, List.Forall₂ m.Fits us ys) :
    ∃ proc', m'.procAt? r = some proc' ∧
      ∀ calls w, R.CallsInRow m r proc ts proc'.body calls w →
        (bodyCalls w.trace).map (m.keyOf ts) = (calls.map (m.keyOf ts)).eraseDups ∧
        ∀ xs σ, proc.IsCall R.accessors ts xs σ → List.Forall₂ m.Fits ts xs →
          (proc'.body.run R.machine σ w).Gives proc.determinism.codeModel (fun _ _ => True)
            (fun _ _ ys σ' _ => σ'.Binds proc.tabledHead.outputs ys ∧ σ.Keeps σ')
            (fun _ _ _ => True) .call w (f xs).toList := by
  obtain ⟨tabled, s, hmemo, ⟨proc', hproc', hrun⟩, -⟩ :=
    Module.tableProc_eq_ok hproc htable (by rw [TableEnv.tabled, hmethod])
  -- One call, made when the table is as it should be.
  have hcall : ∀ {calls w xs σ}, R.MemoTable m r ts us f calls w →
      proc.IsCall R.accessors ts xs σ → List.Forall₂ m.Fits ts xs →
        R.MemoGives proc m us (R.Below (Runtime.root r)) (R.groundPlace m r ts xs)
          (if xs ∈ calls then [] else [xs]) σ w (f xs) (proc'.body.run R.machine σ w) := by
    intro calls w xs σ hw hσ hxs
    rw [hrun]
    refine TableEnv.memo_gives hK hM hus hR hmemo hmodel hσ ?_ (Runtime.below_follow _ _ .root)
      (hbody xs hxs) (fun ys hys => ⟨hfits xs hxs ys hys, WitnessMap.inTurn_of_isGround ?_⟩)
      (hw.known_of hS hxs)
    · exact (Runtime.place_of_isGround (fun t ht => hground t (List.mem_append_left _ ht)) ..).symm
    · exact fun t ht => hground t (List.mem_append_right _ ht)
  refine ⟨proc', hproc', fun calls w hcalls => ?_⟩
  have hw := hcalls.memoTable hS hcall
  refine ⟨hw.ran, fun xs σ hσ hxs => ?_⟩
  exact Outcome.Gives.imp (hcall hw hσ hxs) (fun _ _ h => h)
    (fun _ _ _ _ _ h => ⟨h.1, h.2.1⟩) fun _ _ _ _ => trivial

/-! ### An example -/

namespace TabledExample

/-- A procedure with one answer or none, which is memoed. -/
def findDecl : PredDecl :=
  { name := "find"
    args := [.input "N" .int, .input "U" unitType, .output "M" .int, .output "V" unitType]
    determinism := .semidet
    method := .memo .allStrict }

def findModule : Module := base.declare findDecl (base.foreignGoal findDecl)

def findProc : Procedure := base.foreignProc findDecl

/-- There is no answer for 0, and the answer for any other number is that
    number. -/
def findAnswer : List Value → Option (List Value)
  | [.cell (.int i) [], _] => if i = 0 then none else some [.ofInt i, unit]
  | _ => none

def finding : Runtime Memory :=
  Memory.runtime fun _ => findProc.computes fun xs _ => (findAnswer xs).toList

theorem findAnswer_eq_some (h : findAnswer xs = some ys) :
    ∃ i, ys = [.ofInt i, unit] := by
  unfold findAnswer at h
  split at h
  · split at h
    · cases h
    · cases h
      exact ⟨_, rfl⟩
  · cases h

theorem solves_find (same : Memory → Memory → Prop) (hsame : ∀ t, same t t) (xs : List Value) :
    findProc.Solves finding.machine same xs (findAnswer xs).toList := by
  intro σ w hσ
  refine Procedure.answers_of_computes (f := fun xs _ => (findAnswer xs).toList)
    (Module.run_foreignProc (by decide) fun _ => rfl) (by decide) hsame hσ ?_ fun ys hys => ?_
  · change (findAnswer xs).toList.length ≤ 1
    cases findAnswer xs <;> simp
  · obtain ⟨i, rfl⟩ := findAnswer_eq_some (Option.mem_toList.1 hys)
    rfl

theorem fits_find (x : Value) : Forall₂ findModule.Fits [.int, unitType] [x, unit] :=
  .cons (fits_int rfl x) (.cons (fits_unit rfl rfl) .nil)

/-- Called for 5, for 0 and for 5 again, the procedure runs its body twice. -/
theorem find_runs_twice :
    ∃ m' proc' w, findModule.tableProc tabledProc = .ok m' ∧
      m'.procAt? tabledProc = some proc' ∧
      finding.CallsInRow findModule tabledProc findProc [.int, unitType] proc'.body
        [[.ofInt 5, unit], [.ofInt 0, unit], [.ofInt 5, unit]] w ∧
      (bodyCalls w.trace).map (findModule.keyOf [.int, unitType]) =
        [[.ofInt 5], [.ofInt 0]] := by
  obtain ⟨m', hm'⟩ := Module.of_isOk_tableProc (m := findModule) (r := tabledProc)
    (by decide +kernel)
  have hcall : ∀ x, findProc.IsCall finding.accessors [.int, unitType] [x, unit]
      (findProc.callStore [x, unit]) :=
    fun x => Procedure.isCall_callStore (by decide) rfl (by decide) rfl
  have hout : findProc.vars.types findProc.tabledHead.outputs = .ok [.int, unitType] := rfl
  have hground : ∀ t ∈ [Ty.int, unitType] ++ [.int, unitType], t.isGround = true := by decide
  obtain ⟨proc', hproc', h⟩ := memo_transparent (R := finding) (f := findAnswer)
    (Memory.looksUp _) (Memory.separates _) (Memory.keepsSlots _) (Memory.memos _)
    Module.proc_foreign rfl (by decide) hm' hout hground
    (fun xs _ => solves_find _ (fun _ => .refl _ _) xs) fun xs hxs ys hys => by
      obtain ⟨i, rfl⟩ := findAnswer_eq_some hys
      exact fits_find _
  have hempty : finding.CallsInRow findModule tabledProc findProc [.int, unitType] proc'.body []
      ⟨{}, []⟩ := .start (fun _ _ => ⟨rfl, rfl⟩) rfl
  obtain ⟨_, w₁, _, hrun₁, -⟩ := (h _ _ hempty).2 _ _ (hcall (.ofInt 5)) (fits_find _)
  have hone := hempty.exit (hcall _) (fits_find _) hrun₁
  obtain ⟨-, w₂, hrun₂, -⟩ := (h _ _ hone).2 _ _ (hcall (.ofInt 0)) (fits_find _)
  have htwo := hone.fail (hcall _) (fits_find _) hrun₂
  obtain ⟨_, w₃, _, hrun₃, -⟩ := (h _ _ htwo).2 _ _ (hcall (.ofInt 5)) (fits_find _)
  have hthree := htwo.exit (hcall _) (fits_find _) hrun₃
  refine ⟨m', proc', w₃, hm', hproc', hthree, (h _ _ hthree).1.trans ?_⟩
  decide +kernel

end TabledExample

end Clausal
