import Clausal.Proofs.TableMemory

/-!
# Answer tables at run time

A call with many answers has a record. The answers of its body are looked up in
the answer table of the record as they are found: those that are there already
are dropped, and each of the others is put into a new block. So the blocks of
the record hold the answers that differ, in the order in which they are first
found.
-/

namespace Clausal

open List Goal Store Tables WitnessState Procedure

variable {done sols : List (List Value)} {xs ys : List Value} {outputs : List ProgVar}
  {block tip : ProgVar} {body : Goal} {m : Module} {proc : Procedure} {us : List Ty} {σ : Store}
  {r : Value} {q : Port}

/-! ### Answers that differ -/

/-- The answers that differ from those found before and from one another, in
    the order in which they first come. -/
def newAnswers (done sols : List (List Value)) : List (List Value) :=
  (sols.filter (· ∉ done)).eraseDups

theorem newAnswers_cons_of_mem (h : ys ∈ done) :
    newAnswers done (ys :: sols) = newAnswers done sols := by
  simp [newAnswers, h]

theorem newAnswers_cons_of_notMem (h : ys ∉ done) :
    newAnswers done (ys :: sols) = ys :: newAnswers (done ++ [ys]) sols := by
  simp only [newAnswers, h, filter_cons, not_false_eq_true, decide_true, if_true,
    eraseDups_cons, filter_filter, mem_append, mem_singleton]
  congr 3
  funext zs
  by_cases hz : zs = ys <;> simp [hz]

@[simp] theorem newAnswers_nil (done : List (List Value)) : newAnswers done [] = [] := rfl

theorem newAnswers_of_none (sols : List (List Value)) : newAnswers [] sols = sols.eraseDups := by
  simp [newAnswers]

/-! ### Records -/

namespace Runtime

variable {T : Type} (R : Runtime T)

/-- The node of an answer in the answer table of a record. -/
def answerNode (m : Module) (proc : Procedure) (us : List Ty) (σ : Store) (r : Value)
    (ys : List Value) : Value :=
  R.follow (m.answerSteps (proc.infoIn R.accessors σ) us) ys (R.answerTable r)

/-- The record holds the answers that were found to a call with inputs `xs`: one
    block for each, in order. Just these answers have been met. -/
structure Recorded (m : Module) (proc : Procedure) (us : List Ty) (xs : List Value) (r : Value)
    (done : List (List Value)) (v : Tables) : Prop where
  blocks : Forall₂ (fun b ys => m.Holds (v.slot b) 0 us ys) (v.answers r) done
  seen : ∀ σ ys, σ.Binds proc.tabledHead.inputs xs → σ.Binds proc.tabledHead.outputs ys →
    proc.CanReturn m R.accessors us xs ys →
      (v.seen (R.answerNode m proc us σ r ys) = true ↔ ys ∈ done)

/-- No answers are known to a call. -/
structure NewRecord (r : Value) (v : Tables) : Prop where
  empty : v.answers r = []
  unseen : ∀ n, R.Below (R.answerTable r) n → v.seen n = false

variable {R} {ys' : List Value} {σ' : Store} {b : Value} {v v' : Tables}

theorem answerNode_eq_iff (hR : R.Separates) (hσ : σ.Binds proc.tabledHead.inputs xs)
    (hσ' : σ'.Binds proc.tabledHead.inputs xs) (hys : σ.Binds proc.tabledHead.outputs ys)
    (hys' : σ'.Binds proc.tabledHead.outputs ys')
    (hcan : proc.CanReturn m R.accessors us xs ys)
    (hcan' : proc.CanReturn m R.accessors us xs ys') :
    R.answerNode m proc us σ r ys = R.answerNode m proc us σ' r ys' ↔ ys = ys' := by
  have hagree := hcan.inTurn.agree hσ hσ' hys hys'
  refine ⟨fun h => follow_inj hR hcan.fits hcan'.fits hagree h, ?_⟩
  rintro rfl
  have hsteps : m.answerSteps (proc.infoIn R.accessors σ) us =
      m.answerSteps (proc.infoIn R.accessors σ') us := by
    refine map_congr_left fun t ht => ?_
    have hinfo : proc.infoIn R.accessors σ t = proc.infoIn R.accessors σ' t :=
      hagree.eq hcan.fits.length_eq t ht
    rw [Module.step?, Module.step?, hinfo]
  rw [answerNode, answerNode, hsteps]

theorem below_answerNode : R.Below (R.answerTable r) (R.answerNode m proc us σ r ys) :=
  below_follow _ _ .root

theorem NewRecord.recorded (h : R.NewRecord r v) : R.Recorded m proc us xs r [] v where
  blocks := by
    rw [h.empty]
    exact .nil
  seen σ ys _ _ _ := by
    rw [h.unseen _ below_answerNode]
    simp

theorem Recorded.sameOn (h : R.Recorded m proc us xs r done v) (hv : v.SameOn (R.OfRecord r) v') :
    R.Recorded m proc us xs r done v' where
  blocks := by
    rw [hv.answers r (.inl rfl)]
    refine ((forall₂_and_left _ _).2 ⟨fun b hb => hb, h.blocks⟩).imp ?_
    rintro b ys ⟨hb, hheld⟩
    rw [(hv.slots r b (.inl rfl) (.inr hb)).2]
    exact hheld
  seen σ ys hσ hys hcan := by
    rw [hv.seen _ (.inr below_answerNode)]
    exact h.seen σ ys hσ hys hcan

theorem Recorded.setState (h : R.Recorded m proc us xs r done v) (k : Value) (c : CallState) :
    R.Recorded m proc us xs r done (v.setState k c) :=
  ⟨h.blocks, h.seen⟩

theorem Recorded.add (hR : R.Separates) (h : R.Recorded m proc us xs r done v)
    (hσ : σ.Binds proc.tabledHead.inputs xs) (hys : σ.Binds proc.tabledHead.outputs ys)
    (hcan : proc.CanReturn m R.accessors us xs ys) (hb : v.IsFresh b) {k : Nat}
    {f : Nat → Option (Primitive × Value)} (hheld : m.Holds f 0 us ys) :
    R.Recorded m proc us xs r (done ++ [ys])
      (((v.see (R.answerNode m proc us σ r ys)).addAnswer r b k).setSlots b f) where
  blocks := by
    have hanswers : (((v.see (R.answerNode m proc us σ r ys)).addAnswer r b k).setSlots b
        f).answers r = v.answers r ++ [b] := Function.update_self ..
    rw [hanswers]
    refine rel_append ?_ (.cons (by rw [slot_setSlots_self]; exact hheld) .nil)
    refine ((forall₂_and_left _ _).2 ⟨fun b hb => hb, h.blocks⟩).imp ?_
    rintro b' ys ⟨hb', hheld'⟩
    -- The new block is none of those that the record had.
    have hne : b' ≠ b := by
      rintro rfl
      exact (hb r).2 hb'
    rw [slot_setSlots_of_ne hne]
    exact hheld'
  seen σ' ys' hσ' hys' hcan' := by
    rw [mem_append, mem_singleton, ← h.seen σ' ys' hσ' hys' hcan',
      ← answerNode_eq_iff (r := r) hR hσ' hσ hys' hys hcan' hcan]
    change Function.update v.seen _ true _ = true ↔ _
    by_cases heq : R.answerNode m proc us σ' r ys' = R.answerNode m proc us σ r ys
    · simp [heq]
    · simp [heq]

end Runtime

/-! ### One answer -/

namespace TableEnv

open Synth

variable {T : Type} {R : Runtime T} {e : TableEnv} {s s' : WitnessState} {pred : Predicate}
  {owner : ProgVar} {goals : List Goal} {ps : AnswerPrimitives}

/-- The primitives take what they are given. -/
structure AnswerPrimitives.WellTyped (ps : AnswerPrimitives) : Prop where
  table : 1 = ps.table.signature.inputs.length ∧ 1 = ps.table.signature.outputs.length
  isNew : 1 = ps.isNew.signature.inputs.length ∧ 0 = ps.isNew.signature.outputs.length
  create : 2 = ps.create.signature.inputs.length ∧ 1 = ps.create.signature.outputs.length

theorem adds_newAnswer : Adds (e.newAnswer ps body owner outputs) :=
  adds_bind (adds_newVar ..) fun _ => adds_bind (adds_call ..) fun _ =>
    adds_bind adds_answerLookupFrom fun _ => adds_bind (adds_call ..) fun _ =>
      adds_bind adds_saveAnswer fun _ => adds_pure _

/-- An answer of the body is dropped if it has been met before, and otherwise put
    into a new block. -/
theorem newAnswer_runs (hR : R.LooksUp) (hK : R.KeepsSlots) (hA : R.CollectsAnswers ps)
    (hps : ps.WellTyped)
    (h : Returns (e.newAnswer ps body owner proc.tabledHead.outputs) s (block, goals) s')
    (hs : (WitnessState.ofProc pred proc).Extends s)
    (hus : proc.vars.types proc.tabledHead.outputs = .ok us) :
    ∃ tail, goals = body :: tail ∧ ∀ {σ : Store} {w : World T} {r : Value} {xs ys : List Value},
      σ.Below s.vars.size → σ owner = some r → σ.Binds proc.tabledHead.inputs xs →
      σ.Binds proc.tabledHead.outputs ys → proc.CanReturn e.env R.accessors us xs ys →
        ((R.view w.tables).seen (R.answerNode e.env proc us σ r ys) = true →
          ∃ w', Goal.runAll R.machine tail σ w = .fail w' ∧ w'.trace = w.trace ∧
            R.view w'.tables = R.view w.tables) ∧
        ((R.view w.tables).seen (R.answerNode e.env proc us σ r ys) = false →
          R.Runs 0 s'.vars.size tail σ w fun σ' v => ∃ b f, (R.view w.tables).IsFresh b ∧
            σ' block = some b ∧ e.env.Holds f 0 us ys ∧
            v = ((((R.view w.tables).see (R.answerNode e.env proc us σ r ys)).addAnswer r b
              proc.tabledHead.outputs.length).setSlots b f)) := by
  simp only [newAnswer, returns_bind, returns_newHandle, returns_pure] at h
  obtain ⟨_, _, ⟨rfl, rfl⟩, getTable, s₁, htable, ⟨node, lookups⟩, s₂, hlookups, isNew, s₃, hisNew,
    ⟨block', saves⟩, s₄, hsaves, heq, rfl⟩ := h
  cases heq
  obtain ⟨rfl, hgetTable⟩ := returns_call [owner] [s.nextVar] htable hps.table.1 hps.table.2
  obtain ⟨rfl, hnew⟩ := returns_call [node] [] hisNew hps.isNew.1 hps.isNew.2
  refine ⟨getTable :: (lookups ++ isNew :: saves), by simp,
    fun {σ w r xs ys} hσ ho hxs hys hcan => ?_⟩
  have hs₁ : s.Extends (s.addVar "AT0" Handle.trie.type) := .addVar ..
  have hs₂ := adds_answerLookupFrom.mono hlookups
  have hgrows := Grows.next hσ (Nat.zero_le _) (R.answerTable r)
  have hdesc := described_of_inTurn (R := R) hcan.inTurn hus hs hxs hys
  -- Both ways begin with the look-up of the answer.
  have hway : R.Computes 0 s₃.vars.size (getTable :: lookups) σ w node
      (R.answerNode e.env proc us σ r ys) := by
    refine .call hgetTable (.cons ho .nil) (hA.table r w.tables) hgrows fun w₁ _ hv₁ => ?_
    have hbelow : (σ.set s.nextVar (R.answerTable r)).Below
        (s.addVar "AT0" Handle.trie.type).vars.size := by
      rw [size_addVar]
      exact hgrows.below
    refine Runtime.Runs.imp (answerLookupFrom_computes hR (Nat.zero_le _) hbelow hlookups
      (hdesc.mono hs₁ hgrows.keeps) (set_self ..) (hys.keeps hgrows.keeps)) ?_
    rintro σ₂ v - ⟨hnode, hv⟩
    exact ⟨hnode, hv.trans hv₁⟩
  refine ⟨fun hseen => ?_, fun hseen => ?_⟩
  · obtain ⟨σ₁, w₁, hrun, -, ht₁, hnode, hv₁⟩ := hway
    obtain ⟨w₂, hrun₂, ht₂, hv₂⟩ := (hA.isOld _ w₁.tables (hv₁ ▸ hseen)).run hnew (.cons hnode .nil)
    refine ⟨w₂, ?_, ht₂.trans ht₁, hv₂.trans hv₁⟩
    rw [← cons_append, runAll_append, hrun, Outcome.once_bind, runAll_cons, hrun₂]
    rfl
  · rw [← cons_append]
    refine Runtime.Runs.append hway ?_
    rintro σ₁ w₁ hσ₁ - ⟨hnode, hv₁⟩
    refine .call hnew (.cons hnode .nil) (hA.isNew _ w₁.tables (hv₁ ▸ hseen))
      (.refl hσ₁.below) fun w₂ _ hv₂ => ?_
    have hcreate := hA.create r proc.tabledHead.outputs.length w₂.tables
    rw [hv₂, hv₁] at hcreate
    refine (saveAnswer_runs hK hsaves hps.create.1 hps.create.2 (Nat.zero_le _) hσ₁.below
      (hσ₁.keeps _ _ ho) (hdesc.mono (hs₁.trans hs₂) hσ₁.keeps)
      (hys.keeps hσ₁.keeps) hcreate fun b => Function.update_self ..).imp ?_
    rintro σ₃ v - ⟨b, f, hfresh, hb, hv, hheld⟩
    exact ⟨b, f, hfresh, hb, hheld, hv⟩

end TableEnv

/-! ### All answers -/

namespace Runtime

variable {T : Type} (R : Runtime T)

/-- A stay in the body of a call, entered at a port, leaves the record of the
    call alone. -/
structure Stays (r : Value) (p : Port) (xs : List Value) (w w' : World T) : Prop where
  same : R.SameTable (R.OfRecord r) w.tables w'.tables
  ran : bodyCalls w'.trace = bodyCalls w.trace ++ p.entries xs

/-- How a call exits with an answer to record. -/
structure AnswerExits (proc : Procedure) (xs : List Value) (σ : Store) (P : World T → Prop)
    (p : Port) (w : World T) (ys : List Value) (σ' : Store) (w' : World T) : Prop where
  outputs : σ'.Binds proc.tabledHead.outputs ys
  keeps : σ.Keeps σ'
  ran : bodyCalls w'.trace = bodyCalls w.trace ++ p.entries xs
  recorded : P w'

/-- How a call fails when there are no more answers. -/
structure AnswersEnd (xs : List Value) (P : World T → Prop) (p : Port) (w w' : World T) :
    Prop where
  ran : bodyCalls w'.trace = bodyCalls w.trace ++ p.entries xs
  recorded : P w'

/-- The answers to a call are recorded one after the other. What holds of the
    world at each exit is `P`, and what holds when there are no more answers is
    `Q`. -/
def Enumerates (proc : Procedure) (xs : List Value) (r : Value) (P Q : World T → Prop) (σ : Store)
    (w : World T) (answers : List (List Value)) (o : Outcome (World T) Store) : Prop :=
  o.Gives .non (fun w w' => R.SameTable (R.OfRecord r) w.tables w'.tables)
    (AnswerExits proc xs σ P) (AnswersEnd xs Q) .call w answers

/-- What follows the body records an answer that is new, and fails for one that
    is not. -/
structure Collects (m : Module) (proc : Procedure) (us : List Ty) (xs : List Value) (r : Value)
    (σ : Store) (P : World T → Prop) (tail : Meaning T) : Prop where
  old : ∀ {σ₁ w ys done}, proc.Answered σ ys σ₁ → proc.CanReturn m R.accessors us xs ys →
    R.Recorded m proc us xs r done (R.view w.tables) → ys ∈ done →
      ∃ w', tail σ₁ w = .fail w' ∧ w'.trace = w.trace ∧
        R.Recorded m proc us xs r done (R.view w'.tables)
  new : ∀ {σ₁ w ys done}, proc.Answered σ ys σ₁ → proc.CanReturn m R.accessors us xs ys →
    R.Recorded m proc us xs r done (R.view w.tables) → ys ∉ done →
      (tail σ₁ w).Once fun σ₂ w' => σ₁.Keeps σ₂ ∧ w'.trace = w.trace ∧
        R.Recorded m proc us xs r (done ++ [ys]) (R.view w'.tables) ∧ P w'

variable {R} {w : World T} {P : World T → Prop}

theorem gives_of_answers (h : proc.Answers R.machine (R.SameTable (R.OfRecord r)) xs σ w sols) :
    (proc.body.run R.machine σ w).Gives .non (fun _ _ => True)
      (fun q w ys σ' w' => proc.Answered σ ys σ' ∧ R.Stays r q xs w w') (R.Stays r · xs) .call w
      sols := by
  refine (Outcome.Gives.imp h (fun _ _ h => h) ?_ ?_).non fun w => ?_
  · rintro q w ys σ' w' ⟨hans, hvisit⟩
    exact ⟨hans, hvisit.1, hvisit.bodyCalls (by decide)⟩
  · exact fun q w w' hvisit => ⟨hvisit.1, hvisit.bodyCalls (by decide)⟩
  · exact ⟨.refl _ _, (append_nil _).symm⟩

/-- The answers of a body are recorded as they come, and those that have come
    before are left out. -/
theorem collect_gives {tail : Meaning T} {k : World T → Outcome (World T) Store}
    {Q : List (List Value) → World T → Prop} (hσ : proc.Entered xs σ)
    (hcan : ∀ ys ∈ sols, proc.CanReturn m R.accessors us xs ys)
    (htail : R.Collects m proc us xs r σ P tail)
    (hlast : ∀ {w done}, R.Recorded m proc us xs r done (R.view w.tables) →
      ∃ w', k w = .fail w' ∧ w'.trace = w.trace ∧ Q done w') {o : Outcome (World T) Store}
    (h : o.Gives .non (fun _ _ => True)
      (fun q w ys σ' w' => proc.Answered σ ys σ' ∧ R.Stays r q xs w w') (R.Stays r · xs) q w sols)
    (hw : R.Recorded m proc us xs r done (R.view w.tables)) :
    ((o.bind tail).orElse k).Gives .non
      (fun w w' => R.SameTable (R.OfRecord r) w.tables w'.tables) (AnswerExits proc xs σ P)
      (AnswersEnd xs (Q (done ++ newAnswers done sols))) q w (newAnswers done sols) := by
  induction sols generalizing done q w o with
  | nil =>
    obtain ⟨-, w₁, rfl, hstays⟩ := h
    obtain ⟨w₂, hrun, ht, hq⟩ := hlast (hw.sameOn hstays.same)
    refine ⟨by decide, w₂, hrun, ?_, ?_⟩
    · rw [ht, hstays.ran]
    · rw [newAnswers_nil, append_nil]
      exact hq
  | cons ys sols ih =>
    obtain ⟨σ₁, w₁, redo, rfl, ⟨hans, hstays⟩, hrest⟩ := h
    have hw₁ := hw.sameOn hstays.same
    have hcan₁ := hcan ys mem_cons_self
    have hcan' := fun ys hys => hcan ys (mem_cons_of_mem _ hys)
    rw [Outcome.bind]
    by_cases hmem : ys ∈ done
    · -- The body is entered again before there is anything to exit with.
      obtain ⟨w₂, hrun, ht, hw₂⟩ := htail.old hans hcan₁ hw₁ hmem
      rw [newAnswers_cons_of_mem hmem, hrun]
      have hran : bodyCalls w₂.trace ++ Port.redo.entries xs =
          bodyCalls w.trace ++ q.entries xs := by
        rw [ht, hstays.ran]
        exact append_nil _
      refine (ih hcan' (hrest w₂ trivial) hw₂).of_start ?_ ?_
      · exact fun _ _ _ h => ⟨h.outputs, h.keeps, h.ran.trans hran, h.recorded⟩
      · exact fun _ h => ⟨h.ran.trans hran, h.recorded⟩
    · obtain ⟨σ₂, w₂, hrun, hk, ht, hw₂, hp⟩ := htail.new hans hcan₁ hw₁ hmem
      rw [newAnswers_cons_of_notMem hmem, hrun]
      refine ⟨σ₂, w₂, _, rfl, ⟨hans.binds.keeps hk, (hans.keeps hσ).trans hk, ?_, hp⟩,
        fun w₃ hw₃ => ?_⟩
      · rw [ht, hstays.ran]
      · have hgives := ih hcan' (hrest w₃ trivial) (hw₂.sameOn hw₃)
        rw [append_assoc, singleton_append] at hgives
        exact hgives

theorem Enumerates.of_start {o : Outcome (World T) Store} {Q : World T → Prop} {σ₀ : Store}
    {w₀ : World T} {answers : List (List Value)} (h : R.Enumerates proc xs r P Q σ w answers o)
    (hσ : σ₀.Keeps σ) (ht : w.trace = w₀.trace) : R.Enumerates proc xs r P Q σ₀ w₀ answers o := by
  refine (Outcome.Gives.imp h (fun _ _ h => h) ?_ fun _ _ _ h => h).of_start ?_ ?_
  · exact fun _ _ _ _ _ h => ⟨h.outputs, hσ.trans h.keeps, h.ran, h.recorded⟩
  · exact fun _ _ _ h => ⟨h.outputs, h.keeps, ht ▸ h.ran, h.recorded⟩
  · exact fun _ h => ⟨ht ▸ h.ran, h.recorded⟩

end Runtime

namespace TableEnv

open Synth

variable {T : Type} {R : Runtime T} {e : TableEnv} {s s' : WitnessState} {pred : Predicate}
  {goals : List Goal} {w : World T} {n : Value} {answers : List (List Value)}

section

variable {owner : ProgVar} {ps : AnswerPrimitives} {P : World T → Prop}
  {Q : List (List Value) → World T → Prop}

/-- The answers of the body are looked up, recorded if they are new, and then
    something is done with them. Behind the last answer a goal fails. -/
theorem newAnswer_gives (hR : R.LooksUp) (hS : R.Separates) (hK : R.KeepsSlots)
    (hA : R.CollectsAnswers ps) (hps : ps.WellTyped)
    (h : Returns (e.newAnswer ps proc.body owner proc.tabledHead.outputs) s (block, goals) s')
    (hus : proc.vars.types proc.tabledHead.outputs = .ok us) (hat : proc.AtNode pred s xs owner r σ)
    {after : List Goal} {last : Goal} {context context' : Context}
    (hafter : ∀ {σ₁ w b done}, σ₁ owner = some r → σ₁ block = some b →
      R.Recorded e.env proc us xs r done (R.view w.tables) →
        (Goal.runAll R.machine after σ₁ w).Once fun σ₂ w' => σ₁.Keeps σ₂ ∧ w'.trace = w.trace ∧
          R.Recorded e.env proc us xs r done (R.view w'.tables) ∧ P w')
    (hlast : ∀ {w done}, R.Recorded e.env proc us xs r done (R.view w.tables) →
      ∃ w', last.run R.machine σ w = .fail w' ∧ w'.trace = w.trace ∧ Q done w')
    (hbody : proc.Answers R.machine (R.SameTable (R.OfRecord r)) xs σ w sols)
    (hcan : ∀ ys ∈ sols, proc.CanReturn e.env R.accessors us xs ys)
    (hw : R.Recorded e.env proc us xs r [] (R.view w.tables)) :
    R.Enumerates proc xs r P (Q sols.eraseDups) σ w sols.eraseDups
      ((Goal.disjoin [.conjoin (goals ++ after) context, last] context').run R.machine σ w) := by
  obtain ⟨tail, rfl, htail⟩ := newAnswer_runs hR hK hA hps h hat.grown hus
  have hcollects : R.Collects e.env proc us xs r σ P (Goal.runAll R.machine (tail ++ after)) := by
    refine ⟨fun {σ₁ w ys done} hans hcan hw hmem => ?_, fun {σ₁ w ys done} hans hcan hw hmem => ?_⟩
    all_goals
      have hk := hans.keeps hat.entered
      have hxs := hat.entered.binds.keeps hk
      have hone := htail (w := w) (hans.below hat.below hat.grown.size_le) (hk _ _ hat.tip) hxs
        hans.binds hcan
      have hseen := hw.seen σ₁ ys hxs hans.binds hcan
    · obtain ⟨w', hrun, ht, hv⟩ := hone.1 (hseen.2 hmem)
      refine ⟨w', ?_, ht, hv ▸ hw⟩
      rw [runAll_append, hrun]
      rfl
    · have hunseen := Bool.eq_false_iff.2 (mt hseen.1 hmem)
      rw [runAll_append]
      refine Outcome.Once.bind (hone.2 hunseen) ?_
      rintro σ₂ w₂ ⟨hσ₂, ht₂, b, f, hfresh, hb, hheld, hv₂⟩
      have hw₂ := hw.add hS hxs hans.binds hcan hfresh
        (k := proc.tabledHead.outputs.length) hheld
      rw [← hv₂] at hw₂
      refine Outcome.Once.imp (hafter (hσ₂.keeps _ _ (hk _ _ hat.tip)) hb hw₂) ?_
      rintro σ₃ w₃ ⟨hk₃, ht₃, hw₃, hp⟩
      exact ⟨hσ₂.keeps.trans hk₃, ht₃.trans ht₂, hw₃, hp⟩
  have hgives := Runtime.collect_gives (k := last.run R.machine σ) hat.entered hcan hcollects hlast
    (Runtime.gives_of_answers hbody) hw
  rw [run_disjoin, runAny_cons, runAny_single, run_conjoin, cons_append,
    runAll_cons, ← newAnswers_of_none sols]
  exact hgives

end

theorem adds_memoNonArm {determinism : Determinism} {record : ProgVar} (st : Status) :
    Adds (e.memoNonArm body determinism record outputs st) := by
  cases st with
  | memoNonInactive =>
    exact adds_bind adds_newAnswer fun _ => adds_bind (adds_call ..) fun _ =>
      adds_bind (adds_call ..) fun _ => adds_pure _
  | memoNonComplete => exact adds_bind adds_restoreAnswer fun _ => adds_pure _
  | _ => exact adds_tableError _

/-- The record of a call is complete, and holds the answers. -/
structure Complete (R : Runtime T) (m : Module) (proc : Procedure) (us : List Ty) (xs : List Value)
    (r : Value) (answers : List (List Value)) (w : World T) : Prop where
  state : (R.view w.tables).state r = .complete
  recorded : R.Recorded m proc us xs r answers (R.view w.tables)

theorem Complete.sameOn {w' : World T} (h : Complete R m proc us xs r answers w)
    (hw : R.SameTable (R.OfRecord r) w.tables w'.tables) : Complete R m proc us xs r answers w' :=
  ⟨(hw.state r (.inl rfl)).trans h.state, h.recorded.sameOn hw⟩

/-- How a call is answered from its record: its body is not run. -/
structure Replays (R : Runtime T) (proc : Procedure) (σ : Store) (p : Port) (w : World T)
    (ys : List Value) (σ' : Store) (w' : World T) : Prop where
  outputs : σ'.Binds proc.tabledHead.outputs ys
  keeps : σ.Keeps σ'
  trace : w'.trace = w.trace
  tables : R.view w'.tables = R.view w.tables

/-- The answers to a call are taken from its record one after the other. -/
def Recalls (R : Runtime T) (proc : Procedure) (r : Value) (σ : Store) (w : World T)
    (answers : List (List Value)) (o : Outcome (World T) Store) : Prop :=
  o.Gives .non (fun w w' => R.SameTable (R.OfRecord r) w.tables w'.tables) (Replays R proc σ)
    (fun _ w w' => w'.trace = w.trace ∧ R.view w'.tables = R.view w.tables) .call w answers

theorem Recalls.of_start {o : Outcome (World T) Store} {σ₀ : Store} {w₀ : World T}
    (h : Recalls R proc r σ w answers o) (hσ : σ₀.Keeps σ) (ht : w.trace = w₀.trace)
    (hv : R.view w.tables = R.view w₀.tables) : Recalls R proc r σ₀ w₀ answers o := by
  refine (Outcome.Gives.imp h (fun _ _ h => h) ?_ fun _ _ _ h => h).of_start ?_ ?_
  · exact fun _ _ _ _ _ h => ⟨h.outputs, hσ.trans h.keeps, h.trace, h.tables⟩
  · exact fun _ _ _ h => ⟨h.outputs, h.keeps, h.trace.trans ht, h.tables.trans hv⟩
  · exact fun _ h => ⟨h.1.trans ht, h.2.trans hv⟩

/-- The blocks of a record are found one after the other, and their answers are
    restored. All the while the record is as it was in `v`. -/
theorem replay_gives {restore : Meaning T} {v : Tables}
    (hrestore : ∀ {w b ys}, ys ∈ answers → m.Holds ((R.view w.tables).slot b) 0 us ys →
      (restore (σ.set block b) w).Once (Replays R proc σ .call w ys)) {bs : List Value}
    {o : Outcome T (List Value)} (ho : R.Lists bs w.tables o)
    (hheld : Forall₂ (fun b ys => b ∈ v.answers r ∧ m.Holds (v.slot b) 0 us ys) bs answers)
    (hsame : v.SameOn (R.OfRecord r) (R.view w.tables)) :
    (((o.inWorld w.trace).map (σ.setMany [block])).bind restore).Gives .non
      (fun w w' => R.SameTable (R.OfRecord r) w.tables w'.tables) (Replays R proc σ)
      (fun _ w w' => w'.trace = w.trace ∧ R.view w'.tables = R.view w.tables) q w answers := by
  induction hheld generalizing o w q with
  | nil =>
    obtain ⟨t, rfl, hv⟩ := ho
    exact ⟨by decide, ⟨t, w.trace⟩, rfl, rfl, hv⟩
  | @cons b ys bs answers hb _ ih =>
    obtain ⟨t, redo, rfl, hv, hrest⟩ := ho
    have hslot : m.Holds ((R.view t).slot b) 0 us ys := by
      rw [hv, (hsame.slots r b (.inl rfl) (.inr hb.1)).2]
      exact hb.2
    obtain ⟨σ₁, w₁, hrun, hr⟩ := hrestore (w := ⟨t, w.trace⟩) mem_cons_self hslot
    have hv₁ : R.view w₁.tables = R.view w.tables := hr.tables.trans hv
    refine ⟨σ₁, w₁, fun w' => (((redo w'.tables).inWorld w'.trace).map
      (σ.setMany [block])).bind restore, ?_, ⟨hr.outputs, hr.keeps, hr.trace, hv₁⟩,
      fun w₂ hw₂ => ih (fun hys => hrestore (mem_cons_of_mem _ hys)) (hrest w₂.tables) ?_⟩
    · rw [Outcome.inWorld, Outcome.map, Outcome.bind, setMany_single, hrun]
      rfl
    · have hleft : (R.view w₁.tables).SameOn (R.OfRecord r) (R.view w₂.tables) := hw₂
      rw [hv₁] at hleft
      exact hsame.trans hleft

section

variable (hM : R.MemosAll)
  (h : Returns (e.memoNon proc.body proc.determinism tip proc.tabledHead.outputs) s goals s')
  (hat : proc.AtNode pred s xs tip n σ) (hr : r = R.record .memoNonSetup n)

include hM h hat hr

theorem memoNon_arm_run {st : Status}
    (hst : ((R.view w.tables).state r).status? .memoNon = some st) : ∃ record s₂ s₃ g σ₁ w₁,
      Returns (e.memoNonArm proc.body proc.determinism record proc.tabledHead.outputs st) s₂ g s₃ ∧
      proc.AtNode pred s₂ xs record r σ₁ ∧
      Goal.runAll R.machine goals σ w = g.run R.machine σ₁ w₁ ∧ σ.Keeps σ₁ ∧
      w₁.trace = w.trace ∧ R.view w₁.tables = (R.view w.tables).enter r := by
  subst hr
  simp only [memoNon, newStatus, returns_bind, returns_newHandle, returns_newVar,
    returns_pure] at h
  obtain ⟨_, _, ⟨rfl, rfl⟩, _, _, ⟨hvar, rfl⟩, setup, s₁, hsetup, switch, s₂, hswitch, rfl,
    rfl⟩ := h
  rw [nextVar_addVar] at hvar
  subst hvar
  exact ⟨_, record_arm_run hM.setup rfl rfl hsetup hswitch adds_memoNonArm hat hst⟩

variable (hK : R.KeepsSlots) (hus : proc.vars.types proc.tabledHead.outputs = .ok us)

include hK hus

theorem memoNon_first_gives (hR : R.LooksUp) (hS : R.Separates)
    (hbody : proc.Solves R.machine (R.SameTable (R.OfRecord r)) xs sols)
    (hcan : ∀ ys ∈ sols, proc.CanReturn e.env R.accessors us xs ys)
    (hstate : (R.view w.tables).state r = .inactive) (hw : R.NewRecord r (R.view w.tables)) :
    R.Enumerates proc xs r (fun w => (R.view w.tables).state r = .incomplete)
      (Complete R e.env proc us xs r sols.eraseDups) σ w sols.eraseDups
      (Goal.runAll R.machine goals σ w) := by
  obtain ⟨record, s₂, s₃, g, σ₁, w₁, hg, hat₁, hrun, hk, ht, hv⟩ :=
    memoNon_arm_run hM h hat hr (congrArg (CallState.status? .memoNon) hstate)
  simp only [memoNonArm, returns_bind, returns_pure] at hg
  obtain ⟨⟨block, answer⟩, s₄, hanswer, incomplete, s₅, hinc, complete, s₆, hcomp, rfl, rfl⟩ := hg
  obtain ⟨rfl, hincomplete⟩ := returns_call [record] [] hinc rfl rfl
  obtain ⟨rfl, hcomplete⟩ := returns_call [record] [] hcomp rfl rfl
  rw [enter_of_inactive hstate] at hv
  rw [hrun]
  refine Runtime.Enumerates.of_start (newAnswer_gives hR hS hK hM.answers
    ⟨⟨rfl, rfl⟩, ⟨rfl, rfl⟩, ⟨rfl, rfl⟩⟩ hanswer hus hat₁ (fun {σ₂ w₂ b done} ho _ hw₂ => ?_)
    (fun {w₂ done} hw₂ => ?_) (hbody σ₁ w₁ hat₁.entered) hcan (hv ▸ hw.recorded.setState _ _)) hk ht
  · rw [runAll_single]
    refine Outcome.Once.imp ((hM.incomplete _ w₂.tables).run hincomplete (.cons ho .nil)) ?_
    rintro σ₃ w₃ ⟨hσ₃, ht₃, hv₃⟩
    refine ⟨?_, ht₃, ?_, ?_⟩
    · rw [hσ₃, setMany_nil]
      exact .refl _
    · rw [hv₃]
      exact hw₂.setState _ _
    · rw [hv₃, state_setState_self]
  · obtain ⟨w₃, hrun₃, ht₃, hv₃⟩ :=
      (hM.complete _ w₂.tables).run hcomplete (.cons hat₁.tip .nil)
    refine ⟨w₃, hrun₃, ht₃, ?_, ?_⟩
    · rw [hv₃, state_setState_self]
    · rw [hv₃]
      exact hw₂.setState _ _

theorem memoNon_again_gives
    (hcan : ∀ ys ∈ answers, proc.CanReturn e.env R.accessors us xs ys)
    (hans : ∀ {σ}, proc.Entered xs σ → ∀ ys ∈ answers, ∃ ρ, proc.Answered σ ys ρ)
    (hw : Complete R e.env proc us xs r answers w) :
    Recalls R proc r σ w answers (Goal.runAll R.machine goals σ w) := by
  obtain ⟨record, s₂, s₃, g, σ₁, w₁, hg, hat₁, hrun, hk, ht, hv⟩ :=
    memoNon_arm_run hM h hat hr (congrArg (CallState.status? .memoNon) hw.state)
  rw [enter_of_ne (by rw [hw.state]; decide)] at hv
  simp only [memoNonArm, returns_bind, returns_pure] at hg
  obtain ⟨restore, s₄, hrestore, rfl, rfl⟩ := hg
  have hp : returnAll proc.determinism ∈ [Primitive.memoReturnAllNondet, .memoReturnAllMulti] := by
    unfold returnAll
    split <;> simp
  have harity : ∀ p ∈ [Primitive.memoReturnAllNondet, .memoReturnAllMulti],
      1 = p.signature.inputs.length ∧ 1 = p.signature.outputs.length := by decide
  obtain ⟨get, restores, rfl, hget, hrestores⟩ := restoreAnswer_runs (R := R) hK hrestore
    (harity _ hp).1 (harity _ hp).2 hat₁.grown hus
  have hreplay : ∀ {w b ys}, ys ∈ answers → e.env.Holds ((R.view w.tables).slot b) 0 us ys →
      (Goal.runAll R.machine restores (σ₁.set s₂.nextVar b) w).Once
        (Replays R proc σ₁ .call w ys) := by
    intro w b ys hys hheld
    obtain ⟨ρ, hρ⟩ := hans hat₁.entered ys hys
    refine Outcome.Once.imp (hrestores hat₁.below hat₁.entered hρ (hcan ys hys) hheld) ?_
    rintro σ₂ w₂ ⟨hσ₂, ht₂, hbinds, hv₂⟩
    refine ⟨hbinds, ?_, ht₂, hv₂⟩
    exact (hat₁.below.keeps_set (Nat.le_refl _)).trans hσ₂.keeps
  have hlists := hM.returnAll _ hp r w₁.tables (by rw [hv, hw.state])
  have hgives := replay_gives (q := .call) hreplay hlists
    ((forall₂_and_left _ _).2 ⟨fun b hb => hb, hv ▸ hw.recorded.blocks⟩) (.refl _ _)
  rw [hrun, run_conjoin, runAll_cons, hget.run_eq R.machine w₁ (.cons hat₁.tip .nil)]
  exact Recalls.of_start hgives hk ht hv

end

/-! ### Whole procedures -/

section

variable {ts : List Ty} {strictness : Strictness} {tabled : Tabled}

/-- The record was left to a primitive that completes it, and held the answers
    then. -/
def CompletedBy (R : Runtime T) (m : Module) (proc : Procedure) (us : List Ty) (xs : List Value)
    (r : Value) (p : Primitive) (ends : T → Outcome T (List Value)) (answers : List (List Value))
    (w' : World T) : Prop :=
  ∃ t, R.Recorded m proc us xs r answers (R.view t) ∧ R.machine.primitive p [r] t = ends w'.tables

section

variable (hR : R.LooksUp) (hK : R.KeepsSlots) (hM : R.MemosAll)
  (h : Returns (e.memo proc.body proc.determinism proc.tabledHead strictness) (.ofProc pred proc)
    tabled s') (hmodel : proc.determinism.codeModel = .non)
  (hus : proc.vars.types proc.tabledHead.outputs = .ok us) (hσ : proc.IsCall R.accessors ts xs σ)
  (hr : r = R.record .memoNonSetup
    (R.place e.env e.proc (proc.infoIn R.accessors σ) strictness ts xs))

include hR h hmodel hσ in
theorem memo_run_memoNon : ∃ s₁ s₂ tip goals σ₁ w₁,
    Returns (e.memoNon proc.body proc.determinism tip proc.tabledHead.outputs) s₁ goals s₂ ∧
    tabled.body.run R.machine σ w = Goal.runAll R.machine goals σ₁ w₁ ∧
    proc.AtNode pred s₁ xs tip
      (R.place e.env e.proc (proc.infoIn R.accessors σ) strictness ts xs) σ₁ ∧
    σ.Keeps σ₁ ∧ w₁.trace = w.trace ∧ R.view w₁.tables = R.view w.tables := by
  obtain ⟨way, s₁, goals, s₂, hway, hgoals, htabled⟩ := returns_memo h
  rw [hmodel] at hgoals
  obtain ⟨σ₁, w₁, hrun⟩ := tabledBy_run (w := w) hR hσ hway htabled
  exact ⟨s₁, s₂, way.tip, goals, σ₁, w₁, hgoals, hrun⟩

include hR hK hM h hmodel hus hσ hr

theorem memo_first_gives (hS : R.Separates)
    (hbody : proc.Solves R.machine (R.SameTable (R.OfRecord r)) xs sols)
    (hcan : ∀ ys ∈ sols, proc.CanReturn e.env R.accessors us xs ys)
    (hstate : (R.view w.tables).state r = .inactive) (hw : R.NewRecord r (R.view w.tables)) :
    R.Enumerates proc xs r (fun w => (R.view w.tables).state r = .incomplete)
      (Complete R e.env proc us xs r sols.eraseDups) σ w sols.eraseDups
      (tabled.body.run R.machine σ w) := by
  obtain ⟨s₁, s₂, tip, goals, σ₁, w₁, hgoals, hrun, hat, hk, ht₁, hv₁⟩ :=
    memo_run_memoNon (w := w) hR h hmodel hσ
  rw [← hv₁] at hstate hw
  rw [hrun]
  exact (memoNon_first_gives hM hgoals hat hr hK hus hR hS hbody hcan hstate hw).of_start hk ht₁

theorem memo_again_gives (hcan : ∀ ys ∈ answers, proc.CanReturn e.env R.accessors us xs ys)
    (hans : ∀ {σ}, proc.Entered xs σ → ∀ ys ∈ answers, ∃ ρ, proc.Answered σ ys ρ)
    (hw : Complete R e.env proc us xs r answers w) :
    Recalls R proc r σ w answers (tabled.body.run R.machine σ w) := by
  obtain ⟨s₁, s₂, tip, goals, σ₁, w₁, hgoals, hrun, hat, hk, ht₁, hv₁⟩ :=
    memo_run_memoNon (w := w) hR h hmodel hσ
  have hw₁ : Complete R e.env proc us xs r answers w₁ :=
    hw.sameOn (by rw [Runtime.SameTable, hv₁]; exact .refl _ _)
  rw [hrun]
  exact (memoNon_again_gives hM hgoals hat hr hK hus hcan hans hw₁).of_start hk ht₁ hv₁

end

theorem adds_modelArm {subgoal : ProgVar} (st : Status) :
    Adds (e.modelArm body subgoal outputs st) := by
  cases st with
  | modelInactive =>
    exact adds_bind adds_newAnswer fun _ => adds_bind (adds_call ..) fun _ => adds_pure _
  | _ => exact adds_bind adds_restoreAnswer fun _ => adds_pure _

theorem returns_ownStacks
    (h : Returns (e.ownStacks proc.body proc.tabledHead strictness) s tabled s') :
    ∃ gen s₁ s₂, s.Extends s₁ ∧ Returns (e.generator proc.body proc.tabledHead) s₁ gen s₂ ∧
      tabled.generator = some gen := by
  simp only [ownStacks, returns_bind, returns_pure] at h
  obtain ⟨way, s₁, hway, inputs, s₂, hinputs, saveInputs, s₃, hsave, name, s₄, hname, closure, s₅,
    hclosure, consumer, s₆, hconsumer, setup, s₇, hsetup, answer, s₈, hanswer, gen, s₉, hgen,
    tabled', s₁₀, -, rfl, rfl⟩ := h
  obtain ⟨rfl, -⟩ := returns_foreignArgs_of_mode hinputs
  refine ⟨gen, s₈, s₉, ?_, hgen, rfl⟩
  exact (adds_lookup.mono hway).trans (((adds_callWith ..).mono hsave).trans
    (((adds_newVar ..).mono hname).trans (((adds_newVar ..).mono hclosure).trans
      (((adds_newVar ..).mono hconsumer).trans (((adds_call ..).mono hsetup).trans
        (adds_restoreAnswer.mono hanswer))))))

variable (hR : R.LooksUp) (hS : R.Separates) (hK : R.KeepsSlots)
  (hus : proc.vars.types proc.tabledHead.outputs = .ok us) (hσ : proc.IsCall R.accessors ts xs σ)
  (hbody : proc.Solves R.machine (R.SameTable (R.OfRecord r)) xs sols)
  (hcan : ∀ ys ∈ sols, proc.CanReturn e.env R.accessors us xs ys)
  (hw : R.NewRecord r (R.view w.tables))

include hR hS hK hus hσ hbody hcan hw

theorem stackCopy_gives (hC : R.CopiesStacks)
    (h : Returns (e.stackCopy proc.body proc.tabledHead strictness) (.ofProc pred proc) tabled s')
    (hr : r = R.record .modelSetup
      (R.place e.env e.proc (proc.infoIn R.accessors σ) strictness ts xs))
    (hstate : (R.view w.tables).state r = .inactive) :
    R.Enumerates proc xs r (fun _ => True)
      (CompletedBy R e.env proc us xs r .modelCompletion (.once []) sols.eraseDups) σ w
      sols.eraseDups (tabled.body.run R.machine σ w) := by
  subst hr
  simp only [stackCopy, newStatus, returns_bind, returns_newHandle, returns_newVar] at h
  obtain ⟨way, s, hway, _, _, ⟨rfl, rfl⟩, _, _, ⟨hvar, rfl⟩, setup, s₁, hsetup, switch, s₂, hswitch,
    htabled⟩ := h
  rw [nextVar_addVar] at hvar
  subst hvar
  obtain ⟨σ₀, w₀, hrun₀, hat₀, hk₀, ht₀, hv₀⟩ := tabledBy_run (w := w) hR hσ hway htabled
  rw [← hv₀] at hstate hw
  obtain ⟨s₂, s₃, g, σ₁, w₁, hg, hat, hrun, hk, ht, hv⟩ := record_arm_run hC.setup rfl rfl hsetup
    hswitch adds_modelArm hat₀ (congrArg (CallState.status? .model) hstate)
  rw [enter_of_inactive hstate] at hv
  simp only [modelArm, returns_bind, returns_pure] at hg
  obtain ⟨⟨block, answer⟩, s₄, hanswer, completion, s₅, hcomp, rfl, rfl⟩ := hg
  obtain ⟨rfl, hcompletion⟩ := returns_call [s.nextVar] [] hcomp rfl rfl
  rw [hrun₀, hrun, ← append_nil answer]
  refine Runtime.Enumerates.of_start (newAnswer_gives hR hS hK hC.answers
    ⟨⟨rfl, rfl⟩, ⟨rfl, rfl⟩, ⟨rfl, rfl⟩⟩ hanswer hus hat (fun {σ₂ w₂ b done} _ _ hw₂ => ?_)
    (fun {w₂ done} hw₂ => ?_) (hbody σ₁ w₁ hat.entered) hcan (hv ▸ hw.recorded.setState _ _))
    (hk₀.trans hk) (ht.trans ht₀)
  · exact ⟨σ₂, w₂, rfl, .refl _, rfl, hw₂, trivial⟩
  · obtain ⟨t, hdone⟩ := hC.completion (R.record .modelSetup
      (R.place e.env e.proc (proc.infoIn R.accessors σ) strictness ts xs)) w₂.tables
    refine ⟨⟨t, w₂.trace⟩, ?_, rfl, w₂.tables, hw₂, hdone⟩
    rw [run_conjoin, runAll_cons, hcompletion.run_eq R.machine w₂ (.cons hat.tip .nil),
      hdone]
    change (Outcome.once (σ₁.setMany [] []) (⟨t, w₂.trace⟩ : World T)).bind _ = _
    rw [Outcome.once_bind, runAll_single, run_failure]

theorem generator_gives (hG : R.Generates) {gen : Generator}
    (h : Returns (e.generator proc.body proc.tabledHead) s gen s')
    (hs : (WitnessState.ofProc pred proc).Extends s)
    (hgen : R.generator w.tables = some (r, xs)) :
    R.Enumerates proc xs r (fun _ => True)
      (CompletedBy R e.env proc us xs r .generatorCompletion .fail sols.eraseDups) (fun _ => none) w
      sols.eraseDups (gen.body.run R.machine (fun _ => none) w) := by
  simp only [generator, returns_bind, returns_newHandle, returns_pure] at h
  obtain ⟨_, _, ⟨rfl, rfl⟩, inputs, s₁, hinputs, pickup, s₂, hpick, ⟨block, answer⟩, s₃, hanswer,
    answered, s₄, hret, completion, s₅, hcomp, rfl, rfl⟩ := h
  obtain ⟨rfl, hvars, hmodes⟩ := returns_foreignArgs_of_mode hinputs
  obtain ⟨rfl, hpickrun⟩ := returns_callWith hpick
  obtain ⟨rfl, hanswered⟩ := returns_call [s.nextVar, block] [] hret rfl rfl
  obtain ⟨rfl, hcompletion⟩ := returns_call [s.nextVar] [] hcomp rfl rfl
  have hpickup : pickup.Calls .generatorPickupInputs [] (s.nextVar :: proc.tabledHead.inputs) := by
    refine ⟨fun M σ xs w hb => ?_⟩
    cases hb
    have hall : Primitive.generatorPickupInputs.modes ++
        proc.tabledHead.inputs.map (fun _ => Mode.output) =
          (s.nextVar :: proc.tabledHead.inputs).map fun _ => .output := rfl
    rw [hpickrun rfl, hvars, hmodes, hall]
    simp only [Machine.runPrimitive, singleton_append, Mode.vars_const, reduceCtorEq, if_false,
      if_true, mapM_nil]
    rfl
  -- The inputs are picked up, and nothing else is bound but the generator.
  obtain ⟨σ₁, w₁, hrun₁, rfl, ht₁, hv₁⟩ := (hG.pickup w.tables r xs hgen).run hpickup .nil
  have hbound : ∀ v x, Store.setMany (fun _ => none) (s.nextVar :: proc.tabledHead.inputs)
      (r :: xs) v = some x → v ∈ proc.tabledHead.inputs ∨ v = s.nextVar := by
    intro v x hv
    by_cases hmem : v ∈ proc.tabledHead.inputs
    · exact .inl hmem
    · rw [Store.setMany, setMany_of_notMem hmem] at hv
      refine .inr (by_contra fun hne => ?_)
      rw [set_of_ne hne] at hv
      cases hv
  have hlt := lt_size_of_types (VarTable.types_eq_ok.1 hσ.types)
  have howner : s.nextVar ∉ proc.tabledHead.inputs :=
    fun hmem => Nat.not_lt.2 hs.size_le (hlt _ hmem)
  have hentered : proc.Entered xs (Store.setMany (fun _ => none)
      (s.nextVar :: proc.tabledHead.inputs) (r :: xs)) := by
    refine ⟨hσ.binds.setMany, fun v x hv => (hbound v x hv).imp_right ?_⟩
    rintro rfl
    exact hs.size_le
  have hbelow : Store.Below (Store.setMany (fun _ => none)
      (s.nextVar :: proc.tabledHead.inputs) (r :: xs)) (s.vars.size + 1) := by
    intro v x hv
    rcases hbound v x hv with hmem | rfl
    · exact Nat.lt_succ_of_lt (Nat.lt_of_lt_of_le (hlt v hmem) hs.size_le)
    · exact Nat.lt_succ_self _
  have hrecord : Store.setMany (fun _ => none) (s.nextVar :: proc.tabledHead.inputs) (r :: xs)
      s.nextVar = some r := by
    rw [Store.setMany, setMany_of_notMem howner, set_self]
  rw [run_conjoin, runAll_cons, hrun₁, Outcome.once_bind, runAll_single]
  refine Runtime.Enumerates.of_start (newAnswer_gives hR hS hK hG.answers
    ⟨⟨rfl, rfl⟩, ⟨rfl, rfl⟩, ⟨rfl, rfl⟩⟩ hanswer hus
    ⟨hs.trans (.addVar ..), ?_, hentered, hrecord⟩ (fun {σ₂ w₂ b done} ho hb hw₂ => ?_)
    (fun {w₂ done} hw₂ => ?_) (hbody _ w₁ hentered) hcan (hv₁ ▸ hw.recorded))
    (fun v x hv => by cases hv) ht₁
  · rw [size_addVar]
    exact hbelow
  · obtain ⟨t, hdone, hsame⟩ := hG.returnAnswer r b w₂.tables
    rw [runAll_single, hanswered.run_eq R.machine w₂ (.cons ho (.cons hb .nil)), hdone]
    exact ⟨σ₂, ⟨t, w₂.trace⟩, rfl, .refl _, rfl, hw₂.sameOn hsame, trivial⟩
  · obtain ⟨t, hdone⟩ := hG.completion r w₂.tables
    refine ⟨⟨t, w₂.trace⟩, ?_, rfl, w₂.tables, hw₂, hdone⟩
    rw [hcompletion.run_eq R.machine w₂ (.cons hrecord .nil), hdone]
    rfl

end

end TableEnv

/-- The answers to a call are stored once each, in the order in which they are
    first found, by each of the three ways of tabling calls with many answers:

* the first call of a memoed procedure gives the answers that differ, and leaves
  a complete record behind. Every later call gives the same answers in the same
  order and does not run the body;
* the first call that is suspended by copying stacks, and
* the generator of a call, give these answers too, and leave the record to be
  completed.

Answers differ if they differ in an output whose type has several values. -/
theorem answers_stored_once {T : Type} {R : Runtime T} (hR : R.LooksUp) (hS : R.Separates)
    (hK : R.KeepsSlots) {m m' : Module} {p : ProcRef} {pred : Predicate} {proc : Procedure}
    {ts us : List Ty} {strictness : Strictness} {xs : List Value} {sols : List (List Value)}
    {σ : Store} {r : Value} (hproc : m.proc p = .ok (pred, proc))
    (htable : m.tableProc p = .ok m') (hus : proc.vars.types proc.tabledHead.outputs = .ok us)
    (hσ : proc.IsCall R.accessors ts xs σ)
    (hbody : proc.Solves R.machine (R.SameTable (R.OfRecord r)) xs sols)
    (hcan : ∀ ys ∈ sols, proc.CanReturn m R.accessors us xs ys) :
    sols.eraseDups.map (m.keyOf us) = (sols.map (m.keyOf us)).eraseDups ∧
    (proc.method = .memo strictness → proc.determinism.codeModel = .non → R.MemosAll →
      r = R.record .memoNonSetup (R.place m p (proc.infoIn R.accessors σ) strictness ts xs) →
      ∃ proc', m'.procAt? p = some proc' ∧ ∀ w, (R.view w.tables).state r = .inactive →
        R.NewRecord r (R.view w.tables) →
          R.Enumerates proc xs r (fun w => (R.view w.tables).state r = .incomplete)
            (TableEnv.Complete R m proc us xs r sols.eraseDups) σ w sols.eraseDups
            (proc'.body.run R.machine σ w) ∧
          ∀ w₁ w₂ σ', (proc'.body.run R.machine σ w).Exhausted
              (fun w w' => R.SameTable (R.OfRecord r) w.tables w'.tables) w₁ →
            R.SameTable (R.OfRecord r) w₁.tables w₂.tables → proc.IsCall R.accessors ts xs σ' →
              TableEnv.Recalls R proc r σ' w₂ sols.eraseDups (proc'.body.run R.machine σ' w₂)) ∧
    (proc.method = .minimalModel .stackCopy strictness → R.CopiesStacks →
      r = R.record .modelSetup (R.place m p (proc.infoIn R.accessors σ) strictness ts xs) →
      ∃ proc', m'.procAt? p = some proc' ∧ ∀ w, (R.view w.tables).state r = .inactive →
        R.NewRecord r (R.view w.tables) →
          R.Enumerates proc xs r (fun _ => True)
            (TableEnv.CompletedBy R m proc us xs r .modelCompletion (.once []) sols.eraseDups) σ w
            sols.eraseDups (proc'.body.run R.machine σ w)) ∧
    (proc.method = .minimalModel .ownStacks strictness → R.Generates →
      ∃ gen, m'.procAt? ⟨m.nextPred, ⟨0⟩⟩ = some gen ∧ ∀ w, R.generator w.tables = some (r, xs) →
        R.NewRecord r (R.view w.tables) →
          R.Enumerates proc xs r (fun _ => True)
            (TableEnv.CompletedBy R m proc us xs r .generatorCompletion .fail sols.eraseDups)
            (fun _ => none) w sols.eraseDups (gen.body.run R.machine (fun _ => none) w)) := by
  refine ⟨Module.map_keyOf_eraseDups fun ys hys => (hcan ys hys).fits, ?_, ?_, ?_⟩
  · intro hmethod hmodel hM hr
    obtain ⟨tabled, s, hmemo, ⟨proc', hproc', hrun⟩, -⟩ :=
      Module.tableProc_eq_ok hproc htable (by rw [TableEnv.tabled, hmethod])
    refine ⟨proc', hproc', fun w hstate hw => ?_⟩
    rw [hrun]
    have hfirst := TableEnv.memo_first_gives hR hK hM hmemo hmodel hus hσ hr hS hbody hcan hstate hw
    refine ⟨hfirst, fun w₁ w₂ σ' hend hsame hσ' => ?_⟩
    obtain rfl := hσ.unique hσ'
    obtain ⟨_, _, hcomplete⟩ := hfirst.exhausted hend
    exact TableEnv.memo_again_gives hR hK hM hmemo hmodel hus hσ hr
      (fun ys hys => hcan ys (List.mem_eraseDups.1 hys))
      (fun hσ ys hys => hbody.answered hσ w ys (List.mem_eraseDups.1 hys))
      (hcomplete.recorded.sameOn hsame)
  · intro hmethod hC hr
    obtain ⟨tabled, s, hstack, ⟨proc', hproc', hrun⟩, -⟩ :=
      Module.tableProc_eq_ok hproc htable (by rw [TableEnv.tabled, hmethod])
    refine ⟨proc', hproc', fun w hstate hw => ?_⟩
    rw [hrun]
    exact TableEnv.stackCopy_gives hR hS hK hus hσ hbody hcan hw hC hstack hr hstate
  · intro hmethod hG
    obtain ⟨tabled, s, hown, -, hgenerator⟩ :=
      Module.tableProc_eq_ok hproc htable (by rw [TableEnv.tabled, hmethod])
    obtain ⟨gen, s₁, s₂, hs₁, hgen, hsome⟩ := TableEnv.returns_ownStacks hown
    obtain ⟨proc', hproc', hrun⟩ := hgenerator gen hsome
    refine ⟨proc', hproc', fun w hpicked hw => ?_⟩
    rw [hrun]
    exact TableEnv.generator_gives hR hS hK hus hσ hbody hcan hw hG hgen hs₁ hpicked

/-! ### An example -/

namespace TabledExample

/-- A procedure with several answers, which is tabled by some method. -/
def reachDecl (method : EvalMethod) : PredDecl :=
  { name := "reach"
    args := [.input "N" .int, .output "M" .int, .output "V" unitType]
    determinism := .nondet
    method := method }

def reachModule (method : EvalMethod) : Module :=
  base.declare (reachDecl method) (base.foreignGoal (reachDecl method))

def reachProc (method : EvalMethod) : Procedure := base.foreignProc (reachDecl method)

/-- The answers 1 and 2 are found, and 1 is found again. -/
def reachAnswers : List (List Value) := [[.ofInt 1, unit], [.ofInt 2, unit], [.ofInt 1, unit]]

def reaching (method : EvalMethod) : Runtime Memory :=
  Memory.runtime fun _ => (reachProc method).computes fun _ _ => reachAnswers

theorem solves_reach (method : EvalMethod) (same : Memory → Memory → Prop) (hsame : ∀ t, same t t)
    (xs : List Value) :
    (reachProc method).Solves (reaching method).machine same xs reachAnswers := by
  intro σ w hσ
  have hlen : ∀ ys ∈ reachAnswers, ys.length = 2 := by decide
  exact answers_of_computes (f := fun _ _ => reachAnswers)
    (Module.run_foreignProc (by decide) fun _ => rfl) (of_decide_eq_true rfl) hsame hσ trivial hlen

theorem canReturn_reach {method : EvalMethod} (hint : (reachModule method).category .int = .ok .int)
    (hdummy : (reachModule method).category unitType = .ok .dummy)
    (hunit : (reachModule method).dummyConstant unitType =
      .ok (some (.cons (.qualified "tabled" "unit") 0))) (xs : List Value) :
    ∀ ys ∈ reachAnswers, (reachProc method).CanReturn (reachModule method)
      (reaching method).accessors [.int, unitType] xs ys := by
  intro ys hys
  have hys' : ∃ x, ys = [x, unit] := by
    simp only [reachAnswers, mem_cons, not_mem_nil, or_false] at hys
    rcases hys with rfl | rfl | rfl <;> exact ⟨_, rfl⟩
  obtain ⟨x, rfl⟩ := hys'
  exact ⟨.cons (fits_int hint x) (.cons (fits_unit hdummy hunit) .nil),
    WitnessMap.inTurn_of_isGround (by decide)⟩

theorem isCall_reach (method : EvalMethod) (x : Value) :
    (reachProc method).IsCall (reaching method).accessors [.int] [x]
      ((reachProc method).callStore [x]) :=
  isCall_callStore (of_decide_eq_true rfl) rfl (by decide) rfl

theorem reachAnswers_eraseDups :
    reachAnswers.eraseDups = [[.ofInt 1, unit], [.ofInt 2, unit]] := by
  decide

/-- The store of the call for 0. -/
def reachStore (method : EvalMethod) : Store := (reachProc method).callStore [.ofInt 0]

/-- The answers 1 and 2 are stored, whichever way the procedure is tabled. Once
    the record of a memoed call is complete, they are found in it. -/
theorem reach_stores_two :
    (∃ r m' proc' w, (reachModule (.memo .allStrict)).tableProc tabledProc = .ok m' ∧
      m'.procAt? tabledProc = some proc' ∧
      (proc'.body.run (reaching (.memo .allStrict)).machine (reachStore (.memo .allStrict))
        ⟨{}, []⟩).Exhausted (fun w w' => (reaching (.memo .allStrict)).SameTable
          ((reaching (.memo .allStrict)).OfRecord r) w.tables w'.tables) w ∧
      TableEnv.Recalls (reaching (.memo .allStrict)) (reachProc (.memo .allStrict)) r
        (reachStore (.memo .allStrict)) w [[.ofInt 1, unit], [.ofInt 2, unit]]
        (proc'.body.run (reaching (.memo .allStrict)).machine (reachStore (.memo .allStrict)) w)) ∧
    (∃ r Q m' proc', (reachModule (.minimalModel .stackCopy .allStrict)).tableProc tabledProc =
        .ok m' ∧ m'.procAt? tabledProc = some proc' ∧
      (reaching (.minimalModel .stackCopy .allStrict)).Enumerates
        (reachProc (.minimalModel .stackCopy .allStrict)) [.ofInt 0] r (fun _ => True) Q
        (reachStore (.minimalModel .stackCopy .allStrict)) ⟨{}, []⟩
        [[.ofInt 1, unit], [.ofInt 2, unit]]
        (proc'.body.run (reaching (.minimalModel .stackCopy .allStrict)).machine
          (reachStore (.minimalModel .stackCopy .allStrict)) ⟨{}, []⟩)) ∧
    (∃ Q m' gen, (reachModule (.minimalModel .ownStacks .allStrict)).tableProc tabledProc =
        .ok m' ∧
      m'.procAt? ⟨(reachModule (.minimalModel .ownStacks .allStrict)).nextPred, ⟨0⟩⟩ = some gen ∧
      (reaching (.minimalModel .ownStacks .allStrict)).Enumerates
        (reachProc (.minimalModel .ownStacks .allStrict)) [.ofInt 0] (.ofString "generator")
        (fun _ => True) Q (fun _ => none)
        ⟨{ generator := some (.ofString "generator", [.ofInt 0]) }, []⟩
        [[.ofInt 1, unit], [.ofInt 2, unit]]
        (gen.body.run (reaching (.minimalModel .ownStacks .allStrict)).machine (fun _ => none)
          ⟨{ generator := some (.ofString "generator", [.ofInt 0]) }, []⟩)) := by
  rw [← reachAnswers_eraseDups]
  refine ⟨?_, ?_, ?_⟩
  · obtain ⟨m', hm'⟩ := Module.of_isOk_tableProc (m := reachModule (.memo .allStrict))
      (r := tabledProc) (by decide +kernel)
    obtain ⟨-, hmemo, -⟩ := answers_stored_once (Memory.looksUp _) (Memory.separates _)
      (Memory.keepsSlots _) Module.proc_foreign hm' rfl (isCall_reach _ (.ofInt 0))
      (solves_reach _ _ (fun _ => .refl _ _) _)
      (canReturn_reach (by decide +kernel) (by decide +kernel) (by decide +kernel) _)
    obtain ⟨proc', hproc', hcalls⟩ := hmemo rfl rfl (Memory.memosAll _) rfl
    obtain ⟨hfirst, hlater⟩ := hcalls ⟨{}, []⟩ rfl ⟨rfl, fun _ _ => rfl⟩
    obtain ⟨w, hend⟩ := hfirst.exists_exhausted fun _ => .refl _ _
    exact ⟨_, m', proc', w, hm', hproc', hend,
      hlater w w _ hend (.refl _ _) (isCall_reach _ (.ofInt 0))⟩
  · obtain ⟨m', hm'⟩ := Module.of_isOk_tableProc
      (m := reachModule (.minimalModel .stackCopy .allStrict)) (r := tabledProc) (by decide +kernel)
    obtain ⟨-, -, hstack, -⟩ := answers_stored_once (Memory.looksUp _) (Memory.separates _)
      (Memory.keepsSlots _) Module.proc_foreign hm' rfl (isCall_reach _ (.ofInt 0))
      (solves_reach _ _ (fun _ => .refl _ _) _)
      (canReturn_reach (by decide +kernel) (by decide +kernel) (by decide +kernel) _)
    obtain ⟨proc', hproc', hcalls⟩ := hstack rfl (Memory.copiesStacks _) rfl
    exact ⟨_, _, m', proc', hm', hproc', hcalls ⟨{}, []⟩ rfl ⟨rfl, fun _ _ => rfl⟩⟩
  · obtain ⟨m', hm'⟩ := Module.of_isOk_tableProc
      (m := reachModule (.minimalModel .ownStacks .allStrict)) (r := tabledProc) (by decide +kernel)
    obtain ⟨-, -, -, hown⟩ := answers_stored_once (Memory.looksUp _) (Memory.separates _)
      (Memory.keepsSlots _) Module.proc_foreign hm' rfl (isCall_reach _ (.ofInt 0))
      (solves_reach _ _ (fun _ => .refl _ _) _)
      (canReturn_reach (by decide +kernel) (by decide +kernel) (by decide +kernel) _)
    obtain ⟨gen, hgen, hcalls⟩ := hown rfl (Memory.generates _)
    exact ⟨_, m', gen, hm', hgen, hcalls _ rfl ⟨rfl, fun _ _ => rfl⟩⟩

end TabledExample

end Clausal
