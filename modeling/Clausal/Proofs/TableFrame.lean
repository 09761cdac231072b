import Clausal.Proofs.EachProcedure
import Clausal.Proofs.FreshNames

/-!
# What tabling leaves alone

Where tables are not supported, the pass makes the methods of all procedures
normal and warns of each that had another one (`Module.table_refused`). Where
they are, procedures of normal method are left as they are, and so are
declarations. The errors that are reported are about foreign procedures that do
not say whether their actions are tabled (`Module.leavesUnsaid`): each of them is
looked at once, and is then as it was at the start
(`Module.errorCount_foldlM_chooseIoProc`).
-/

namespace Clausal

open List

variable {seen rs : List ProcRef}

/-- The procedure with the normal method. -/
def Procedure.normalized (proc : Procedure) : Procedure := { proc with method := .normal }

/-- Whether a foreign procedure does I/O without saying whether its actions are
    tabled. Code that calls back need not say it. -/
def Procedure.leavesUnsaid (proc : Procedure) : Bool :=
  !proc.method.isTabled && decide (proc.hasIoStates.toOption = some true) &&
    match proc.body with
    | .foreign _ code => (code.ioTabling.all (· = .notTabled)) && !code.mayCall
    | _ => false

namespace Module

variable {m m₁ m' : Module} {r : ProcRef} {pred : Predicate} {proc : Procedure}
  {refusal : TablingRefusal}

/-! ### Where tables are not supported -/

/-- What is reported of a procedure that cannot be tabled. -/
def refusalNotice (m : Module) (refusal : TablingRefusal) (r : ProcRef) : Diagnostic :=
  match m.findProc? r with
  | none => default
  | some (pred, proc) =>
    { severity := .warning
      context := pred.context
      pred := some pred.describe
      message := "`pragma " ++ proc.method.render ++ "` ignored: " ++ refusal.message }

/-- The module when the methods of some procedures have been made normal. -/
def refusedState (m : Module) (seen : List ProcRef) (ds : List Diagnostic) : Module :=
  { m with diagnostics := ds }.mapProcs fun r proc => if r ∈ seen then proc.normalized else proc

theorem refuseTable_refusedState (hr : (m.procAt? r).isSome) (hnew : r ∉ seen)
    (refusal : TablingRefusal) (ds : List Diagnostic) :
    (m.refusedState seen ds).refuseTable refusal r =
      .ok (m.refusedState (r :: seen) (ds ++ [m.refusalNotice refusal r])) := by
  obtain ⟨proc, hproc⟩ := Option.isSome_iff_exists.1 hr
  obtain ⟨pred, hfound⟩ := exists_findProc? hproc
  have hfound' : { m with diagnostics := ds }.findProc? r = some (pred, proc) := hfound
  have hstate : (m.refusedState seen ds).findProc? r = some (pred.mapProcs fun j proc =>
      if ⟨r.pred, j⟩ ∈ seen then proc.normalized else proc, proc) := by
    rw [refusedState, findProc?_mapProcs, hfound', Option.map_some, if_neg hnew]
  have hreport : ∀ d, (m.refusedState seen ds).report d = m.refusedState seen (ds ++ [d]) :=
    fun _ => rfl
  simp only [refuseTable, proc_eq_ok.2 hstate, hreport, refusalNotice, hfound, bind, Except.bind,
    pure, Except.pure]
  rw [refusedState, modifyProc_mapProcs]
  refine congrArg Except.ok (mapProcs_congr fun r' proc' _ => ?_)
  by_cases heq : r' = r
  · simp [heq, hnew, Procedure.normalized]
  · simp [heq]

theorem foldlM_refuseTable (hrs : ∀ r ∈ rs, (m.procAt? r).isSome) (refusal : TablingRefusal)
    (seen : List ProcRef) (hnodup : (rs.reverse ++ seen).Nodup) (ds : List Diagnostic) :
    rs.foldlM (refuseTable · refusal ·) (m.refusedState seen ds) =
      .ok (m.refusedState (rs.reverse ++ seen) (ds ++ rs.map (m.refusalNotice refusal))) := by
  induction rs generalizing seen ds with
  | nil => simp [pure, Except.pure]
  | cons r rs ih =>
    obtain ⟨hr, hrs⟩ := forall_mem_cons.1 hrs
    rw [reverse_cons, append_assoc] at hnodup
    have hnew : r ∉ seen := (nodup_cons.1 (nodup_append.1 hnodup).2.1).1
    rw [foldlM_cons, refuseTable_refusedState hr hnew]
    refine (ih hrs _ hnodup _).trans ?_
    simp

/-- Every procedure has the normal method then, and there is a warning about
    each that was to be tabled. -/
theorem table_refused (h : m.options.tablingRefused? = some refusal) :
    m.table = .ok { m.mapProcs fun _ => .normalized with
      diagnostics := m.diagnostics ++ m.tabledProcs.map (m.refusalNotice refusal) } := by
  have hstart : m.refusedState [] m.diagnostics = m := by
    simpa [refusedState] using m.mapProcs_id
  have hend : ∀ ds, m.refusedState (m.tabledProcs.reverse ++ []) ds =
      { m.mapProcs fun _ => .normalized with diagnostics := ds } := by
    intro ds
    show _ = { m with diagnostics := ds }.mapProcs fun _ => .normalized
    refine mapProcs_congr fun r proc hproc => ?_
    have hproc : m.procAt? r = some proc := hproc
    by_cases hmethod : proc.method = .normal
    · rw [Procedure.normalized, ← hmethod, ite_self]
    · rw [if_pos (by simpa using mem_tabledProcs.2 ⟨proc, hproc, hmethod⟩)]
  have hexist : ∀ r ∈ m.tabledProcs, (m.procAt? r).isSome := by
    intro r hr
    obtain ⟨proc, hproc, -⟩ := mem_tabledProcs.1 hr
    rw [hproc]
    rfl
  have hfold := foldlM_refuseTable hexist refusal [] (by simpa using nodup_tabledProcs m)
    m.diagnostics
  rw [hstart, hend] at hfold
  rw [← hfold, table]
  simp only [h]

theorem tabledProcs_normalized (m : Module) (ds : List Diagnostic) :
    { m.mapProcs fun _ => .normalized with diagnostics := ds }.tabledProcs = [] := by
  refine eq_nil_iff_forall_not_mem.2 fun r hr => ?_
  obtain ⟨proc, hproc, hmethod⟩ := mem_tabledProcs.1 hr
  have hproc : (m.mapProcs fun _ => .normalized).procAt? r = some proc := hproc
  rw [procAt?_mapProcs] at hproc
  obtain ⟨proc, -, rfl⟩ := Option.map_eq_some_iff.1 hproc
  exact hmethod rfl

theorem severity_refusalNotice (hr : r ∈ m.tabledProcs) :
    (m.refusalNotice refusal r).severity = .warning := by
  obtain ⟨proc, hproc, -⟩ := mem_tabledProcs.1 hr
  obtain ⟨pred, hfound⟩ := exists_findProc? hproc
  simp only [refusalNotice, hfound]

/-! ### Errors -/

/-- Whether a procedure of the module does I/O without saying whether its actions
    are tabled. -/
def leavesUnsaid (m : Module) (r : ProcRef) : Bool :=
  (m.findPred? r.pred).any (fun p => p.status ≠ .imported && p.origin = .user) &&
    (m.procAt? r).any (·.leavesUnsaid)

theorem leavesUnsaid_eq (h : m.findProc? r = some (pred, proc)) :
    m.leavesUnsaid r = ((pred.status ≠ .imported && pred.origin = .user) && proc.leavesUnsaid) := by
  rw [leavesUnsaid, procAt?_of_findProc? h, (findProc?_eq_some.1 h).1]
  rfl

theorem Grows.leavesUnsaid_eq (h : m.Grows m') (hr : m'.procAt? r = m.procAt? r)
    (hlt : r.pred.index < m.preds.size) : m'.leavesUnsaid r = m.leavesUnsaid r := by
  have hp : m.findPred? r.pred = some m.preds[r.pred.index] := Array.getElem?_eq_getElem hlt
  obtain ⟨q, hq, -, hdecl⟩ := h.preds _ _ hp
  rw [leavesUnsaid, leavesUnsaid, hr, hp, hq, hdecl]
  rfl

@[simp] theorem diagnostics_modifyProc (m : Module) (r : ProcRef) (f : Procedure → Procedure) :
    (m.modifyProc r f).diagnostics = m.diagnostics := by
  rw [modifyProc]
  split <;> rfl

theorem diagnostics_tableActions {code : ForeignCode} {unit : IoUnit}
    (h : m.tableActions r pred proc code unit = .ok m') : m'.diagnostics = m.diagnostics := by
  simp only [tableActions] at h
  split at h
  · simp only [outline, except_bind_eq_ok] at h
    obtain ⟨_, ⟨outlined, -, heq⟩, heq'⟩ := h
    cases heq
    cases heq'
    rw [diagnostics_modifyProc, diagnostics_modifyProc]
    rfl
  · cases h
    rw [diagnostics_modifyProc]

theorem errorCount_report_error {d : Diagnostic} (h : d.severity = .error) :
    (m.report d).errorCount = m.errorCount + 1 := by
  simp [errorCount, Clausal.errorCount, report, h]

theorem errorCount_chooseIoProc (h : m.chooseIoProc r = .ok m') : m'.errorCount =
    m.errorCount + if m.options.traceTableIoRequire && m.leavesUnsaid r then 1 else 0 := by
  simp only [chooseIoProc, except_bind_eq_ok] at h
  obtain ⟨⟨pred, proc⟩, hproc, h⟩ := h
  rw [leavesUnsaid_eq (proc_eq_ok.1 hproc)]
  have hkeep : m'.diagnostics = m.diagnostics → m'.errorCount = m.errorCount :=
    fun hd => by rw [errorCount, errorCount, hd]
  simp only at h
  split at h
  · next hskip =>
    cases h
    simp only [Bool.or_eq_true, decide_eq_true_eq] at hskip
    rcases hskip with (hskip | hskip) | hskip <;> simp [hskip, Procedure.leavesUnsaid]
  · next hskip =>
    simp only [Bool.or_eq_true, decide_eq_true_eq, not_or, not_not, Bool.not_eq_true] at hskip
    obtain ⟨⟨hstatus, horigin⟩, hmethod⟩ := hskip
    obtain ⟨states, hstates, h⟩ := except_bind_eq_ok.1 h
    have hown : (decide (pred.status ≠ .imported) && decide (pred.origin = .user)) = true := by
      simp [hstatus, horigin]
    rw [hown, Bool.true_and, Procedure.leavesUnsaid, hmethod, hstates]
    cases states with
    | false =>
      cases h
      simp [Except.toOption]
    | true =>
      cases hbody : proc.body with
      | foreign info code =>
        simp only [hbody, Bool.not_true, Bool.false_eq_true, if_false] at h
        split at h
        · next hasked =>
          rw [hkeep (diagnostics_tableActions h)]
          simp [hasked]
        · next hasked =>
          rw [hkeep (diagnostics_tableActions h)]
          simp [hasked]
        · next hasked =>
          cases h
          simp [hasked]
        all_goals
          next hasked =>
          cases h
          cases m.options.traceTableIoRequire <;> cases hcall : code.mayCall <;>
            simp [hasked, hcall, Except.toOption, reportUnsaid, errorCount_report_error]
      | _ =>
        simp only [hbody] at h
        cases h
        simp

/-- A procedure that has not had its turn is as it was, and each has its turn
    once. -/
theorem errorCount_foldlM_chooseIoProc (h : rs.foldlM chooseIoProc m = .ok m') (hnodup : rs.Nodup)
    (hold : ∀ r ∈ rs, r.pred.index < m.preds.size) : m'.errorCount = m.errorCount +
      if m.options.traceTableIoRequire then rs.countP m.leavesUnsaid else 0 := by
  induction rs generalizing m with
  | nil =>
    cases h
    simp
  | cons r rs ih =>
    rw [foldlM_cons, except_bind_eq_ok] at h
    obtain ⟨m₁, h₁, h₂⟩ := h
    obtain ⟨hnot, hnodup⟩ := nodup_cons.1 hnodup
    obtain ⟨-, hold⟩ := forall_mem_cons.1 hold
    obtain ⟨_, _, _, -, hrw, -⟩ := chooseIoProc_cases h₁
    have hunsaid : ∀ r' ∈ rs, m₁.leavesUnsaid r' = m.leavesUnsaid r' := fun r' hr' =>
      hrw.grows.leavesUnsaid_eq (hrw.others r' (fun heq => hnot (heq ▸ hr')) (hold r' hr'))
        (hold r' hr')
    have hoptions : m₁.options = m.options := by rw [hrw.grows.rest]
    rw [ih h₂ hnodup fun r' hr' => Nat.lt_of_lt_of_le (hold r' hr') hrw.grows.size_le,
      errorCount_chooseIoProc h₁, hoptions, countP_congr fun r' hr' => by rw [hunsaid r' hr'],
      countP_cons]
    cases m.options.traceTableIoRequire
    · rfl
    · simp only [Bool.true_and, if_true]
      omega

/-- Tabling a procedure reports nothing. -/
theorem diagnostics_tableProc (h : m.tableProc r = .ok m') : m'.diagnostics = m.diagnostics := by
  simp only [tableProc, except_bind_eq_ok] at h
  obtain ⟨⟨pred, proc⟩, -, ⟨found, s⟩, -, h⟩ := h
  cases found with
  | none =>
    cases h
    rfl
  | some tabled =>
    cases hgen : tabled.generator with
    | none =>
      simp only [hgen] at h
      cases h
      rfl
    | some g =>
      simp only [hgen, except_bind_eq_ok] at h
      obtain ⟨gen, -, heq⟩ := h
      cases heq
      rfl

theorem diagnostics_foldlM_tableProc (h : rs.foldlM tableProc m = .ok m') :
    m'.diagnostics = m.diagnostics := by
  induction rs generalizing m with
  | nil =>
    cases h
    rfl
  | cons r rs ih =>
    rw [foldlM_cons, except_bind_eq_ok] at h
    obtain ⟨m₁, h₁, h₂⟩ := h
    rw [ih h₂, diagnostics_tableProc h₁]

/-! ### The pass -/

theorem procAt?_of_readied {m₀ : Module} (h₀ : m.readied = .ok m₀)
    (hproc : m₀.procAt? r = some proc) (hmethod : proc.method = .normal)
    (hlt : r.pred.index < m.preds.size) : m.procAt? r = some proc := by
  rcases readied_cases h₀ with ⟨-, hre⟩ | ⟨-, rfl⟩
  · by_cases hr : r ∈ m.allProcs
    · obtain ⟨_, old, proc', _, -, hold, -, hchooses, hplace, -⟩ := hre.changed r hr
      obtain rfl : proc = proc' := Option.some.inj (hproc.symm.trans hplace)
      rcases hchooses with ⟨-, rfl, -⟩ | ⟨_, _, _, _, -, ⟨-, -, rfl⟩ | ⟨-, _, -, -, rfl⟩⟩
      · exact hold
      · cases hmethod
      · cases hmethod
    · rw [← hre.others r hr hlt, hproc]
  · exact hproc

/-- What is not to be tabled is left alone. Without tables nothing but methods
    changes, with a warning for each. With them, procedures whose method is still
    normal when actions have been chosen are as they were declared, declarations
    keep their places, and there is an error for each procedure that leaves unsaid
    whether its actions are tabled, if it has to say so. -/
theorem table_leaves_rest (m : Module) :
    (∀ refusal, m.options.tablingRefused? = some refusal →
      ∃ m' ds, m.table = .ok m' ∧
        m' = { m.mapProcs fun _ proc => { proc with method := .normal } with
          diagnostics := m.diagnostics ++ ds } ∧
        ds = m.tabledProcs.map (m.refusalNotice refusal) ∧
        (∀ d ∈ ds, d.severity = .warning) ∧ m'.errorCount = m.errorCount ∧ m'.table = .ok m') ∧
    (m.options.tablingRefused? = none → ∀ m', m.table = .ok m' →
      ∃ m₀, m.readied = .ok m₀ ∧
        (∀ r proc, m₀.procAt? r = some proc → proc.method = .normal →
          m'.procAt? r = some proc ∧
            (r.pred.index < m.preds.size → m.procAt? r = some proc)) ∧
        m.preds.size ≤ m'.preds.size ∧
        (∀ i p, m.findPred? i = some p → ∃ q, m'.findPred? i = some q ∧
          q.procs.size = p.procs.size ∧ q = { p with scope := q.scope, procs := q.procs }) ∧
        m'.errorCount = m.errorCount +
          if m.options.traceTableIo && m.options.traceTableIoRequire then
            m.allProcs.countP m.leavesUnsaid else 0) := by
  constructor
  · intro refusal h
    have hwarnings : ∀ d ∈ m.tabledProcs.map (m.refusalNotice refusal), d.severity = .warning := by
      intro d hd
      obtain ⟨r, hr, rfl⟩ := List.mem_map.1 hd
      exact severity_refusalNotice hr
    refine ⟨_, _, table_refused h, rfl, rfl, hwarnings, ?_, ?_⟩
    · have hnone : (m.tabledProcs.map (m.refusalNotice refusal)).filter
          (·.severity == .error) = [] :=
        List.filter_eq_nil_iff.2 fun d hd => by simp [hwarnings d hd]
      simp only [errorCount, Clausal.errorCount, List.filter_append, hnone, List.append_nil]
    · have h' : (m.mapProcs fun _ => .normalized).options.tablingRefused? = some refusal := h
      simp only [table, h', tabledProcs_normalized, List.foldlM_nil]
      rfl
  · intro h m' hm'
    obtain ⟨m₀, h₀, hfold⟩ := foldlM_of_table hm' h
    have hre := reworks_of_readied hm' h h₀
    have hgrows := (Grows.of_readied h₀).trans hre.grows
    refine ⟨m₀, h₀, fun r proc hproc hmethod => ⟨?_, procAt?_of_readied h₀ hproc hmethod⟩,
      hgrows.size_le, hgrows.preds, ?_⟩
    · rw [hre.others r (fun hr => ?_) (procAt?_lt hproc), hproc]
      obtain ⟨proc', hproc', hmethod'⟩ := mem_tabledProcs.1 hr
      rw [hproc, Option.some.injEq] at hproc'
      exact hmethod' (hproc' ▸ hmethod)
    · rw [errorCount, diagnostics_foldlM_tableProc hfold]
      show m₀.errorCount = _
      unfold readied at h₀
      split at h₀
      · next htrace =>
        rw [errorCount_foldlM_chooseIoProc h₀ (nodup_allProcs m) fun r hr => ?_, htrace,
          Bool.true_and]
        obtain ⟨proc, hproc⟩ := Option.isSome_iff_exists.1 (mem_allProcs.1 hr)
        exact procAt?_lt hproc
      · next htrace =>
        cases h₀
        simp [htrace]

end Module

/-! ### An example -/

namespace TabledExample

/-- Where tables are supported, one error is reported: the action that does not
    say whether it is tabled. Where they are not, one warning is given, and the
    pass changes nothing when it is run again. -/
theorem crowded_leaves_rest :
    (∃ m', crowdedModule.table = .ok m' ∧ m'.errorCount = 1 ∧
      crowdedModule.allProcs.countP crowdedModule.leavesUnsaid = 1) ∧
    ∃ m' ds, { crowdedModule with options := { target := .java } }.table = .ok m' ∧
      m'.diagnostics = ds ∧ ds.length = 1 ∧ m'.table = .ok m' := by
  constructor
  · obtain ⟨m', hm', -, herrors⟩ := crowded_tabled
    obtain ⟨m₀, -, -, -, -, hcount⟩ := (Module.table_leaves_rest crowdedModule).2 rfl m' hm'
    have hstart : crowdedModule.errorCount = 0 := rfl
    have hoptions : (crowdedModule.options.traceTableIo &&
        crowdedModule.options.traceTableIoRequire) = true := rfl
    rw [herrors, hstart, hoptions, if_pos rfl, Nat.zero_add] at hcount
    exact ⟨m', hm', herrors, hcount.symm⟩
  · obtain ⟨m', ds, hm', heq, hds, -, -, hagain⟩ := (Module.table_leaves_rest
      { crowdedModule with options := { target := .java } }).1 (.target .java) rfl
    refine ⟨m', ds, hm', by rw [heq]; rfl, ?_, hagain⟩
    rw [hds, List.length_map]
    decide

end TabledExample

end Clausal
