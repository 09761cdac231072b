import Clausal.Parallel
import Clausal.Proofs.EachProcedure

/-!
# Parallel conjunctions in any order

Candidates are worked on one after the other, each in the module that the one
before has left. A conjunction that has been made parallel keeps its subgoals
in their places, so where a path leads does not change
(`Goal.child?_parallelized`), and what a list of candidates comes to is told by
which candidates there are: `Goal.parallelized` makes the conjunctions parallel
at a set of paths, all at once.
-/

namespace Clausal

open List

/-! ### Goals -/

namespace Goal

mutual

/-- The goal with the plain conjunctions of several goals made parallel to
    which selected paths lead. -/
def parallelized (sel : List Nat → Bool) : Goal → Goal
  | .conj i k gs =>
    .conj i (if k = .plain ∧ 2 ≤ gs.length ∧ sel [] then .parallel else k)
      (parallelizedFrom sel 0 gs)
  | .disj i gs => .disj i (parallelizedFrom sel 0 gs)
  | .switch i v f arms => .switch i v f (parallelizedArms sel 0 arms)
  | .negation i g => .negation i (parallelized (fun p => sel (0 :: p)) g)
  | .ite i l c y n =>
    .ite i l (parallelized (fun p => sel (0 :: p)) c) (parallelized (fun p => sel (1 :: p)) y)
      (parallelized (fun p => sel (2 :: p)) n)
  | .scope i r g => .scope i r (parallelized (fun p => sel (0 :: p)) g)
  | g => g

/-- The same for goals that are numbered from `n` on. -/
def parallelizedFrom (sel : List Nat → Bool) (n : Nat) : List Goal → List Goal
  | [] => []
  | g :: gs => parallelized (fun p => sel (n :: p)) g :: parallelizedFrom sel (n + 1) gs

/-- The same for arms that are numbered from `n` on. -/
def parallelizedArms (sel : List Nat → Bool) (n : Nat) :
    List (Symbol × Goal) → List (Symbol × Goal)
  | [] => []
  | (s, g) :: arms =>
    (s, parallelized (fun p => sel (n :: p)) g) :: parallelizedArms sel (n + 1) arms

end

variable {g c : Goal} {i : Nat}

variable (sel : List Nat → Bool)

theorem getElem?_parallelizedFrom (n : Nat) (gs : List Goal) (i : Nat) :
    (parallelizedFrom sel n gs)[i]? = gs[i]?.map (parallelized fun p => sel ((n + i) :: p)) := by
  induction gs generalizing n i with
  | nil => rfl
  | cons g gs ih =>
    cases i with
    | zero => rfl
    | succ i => simp only [parallelizedFrom, List.getElem?_cons_succ, ih, Nat.succ_add_eq_add_succ]

theorem getElem?_parallelizedArms (n : Nat) (arms : List (Symbol × Goal)) (i : Nat) :
    (parallelizedArms sel n arms)[i]? =
      arms[i]?.map fun arm => (arm.1, parallelized (fun p => sel ((n + i) :: p)) arm.2) := by
  induction arms generalizing n i with
  | nil => rfl
  | cons arm arms ih =>
    cases i with
    | zero => rfl
    | succ i => simp only [parallelizedArms, List.getElem?_cons_succ, ih, Nat.succ_add_eq_add_succ]

theorem length_parallelizedFrom (n : Nat) (gs : List Goal) :
    (parallelizedFrom sel n gs).length = gs.length := by
  induction gs generalizing n with
  | nil => rfl
  | cons g gs ih => simp only [parallelizedFrom, length_cons, ih]

/-- Making conjunctions parallel leaves the subgoals in their places. -/
theorem child?_parallelized (g : Goal) (i : Nat) :
    (g.parallelized sel).child? i = (g.child? i).map (parallelized fun p => sel (i :: p)) := by
  cases g with
  | conj | disj => simp [parallelized, child?, children, getElem?_parallelizedFrom]
  | switch => simp [parallelized, child?, children, getElem?_parallelizedArms, Function.comp_def]
  | negation | scope => cases i <;> rfl
  | ite => rcases i with _ | _ | _ | i <;> rfl
  | _ => simp [parallelized, child?, children]

theorem descendant?_parallelized (g : Goal) (path : List Nat) :
    (g.parallelized sel).descendant? path =
      (g.descendant? path).map (parallelized fun p => sel (path ++ p)) := by
  induction path generalizing g sel with
  | nil => rfl
  | cons i path ih =>
    simp only [descendant?, child?_parallelized]
    cases g.child? i with
    | none => rfl
    | some c => exact ih (fun p => sel (i :: p)) c

theorem parallelizedFrom_set {sel sel' : List Nat → Bool} {gs : List Goal} (hc : gs[i]? = some c)
    (hsel : ∀ j p, j ≠ i → sel' (j :: p) = sel (j :: p)) :
    (parallelizedFrom sel 0 gs).set i (c.parallelized fun p => sel' (i :: p)) =
      parallelizedFrom sel' 0 gs := by
  refine ext_getElem? fun j => ?_
  rw [List.getElem?_set, getElem?_parallelizedFrom, getElem?_parallelizedFrom,
    length_parallelizedFrom, Nat.zero_add]
  by_cases hij : i = j
  · subst hij
    rw [if_pos rfl, if_pos (List.getElem?_eq_some_iff.1 hc).1, hc, Option.map_some]
  · rw [if_neg hij]
    simp only [hsel j _ (Ne.symm hij)]

theorem setChild_parallelized (sel sel' : List Nat → Bool) (hc : g.child? i = some c)
    (hnil : sel' [] = sel []) (hsel : ∀ j p, j ≠ i → sel' (j :: p) = sel (j :: p)) :
    (g.parallelized sel).setChild i (c.parallelized fun p => sel' (i :: p)) =
      g.parallelized sel' := by
  cases g with
  | conj _ _ gs =>
    have hgs : gs[i]? = some c := hc
    simp only [parallelized, setChild, parallelizedFrom_set hgs hsel, hnil]
  | disj _ gs =>
    have hgs : gs[i]? = some c := hc
    simp only [parallelized, setChild, parallelizedFrom_set hgs hsel]
  | switch info v f arms =>
    obtain ⟨arm, harm, rfl⟩ : ∃ arm, arms[i]? = some arm ∧ arm.2 = c := by
      simpa [child?, children] using hc
    simp only [parallelized, setChild, Goal.switch.injEq, true_and]
    refine ext_getElem? fun j => ?_
    simp only [List.getElem?_map, List.getElem?_zipIdx, getElem?_parallelizedArms, Option.map_map,
      Nat.zero_add]
    by_cases hij : j = i
    · subst hij
      simp [harm]
    · simp [Function.comp_def, hij, hsel j _ hij]
  | negation | scope =>
    cases i with
    | zero => cases hc; rfl
    | succ i => cases hc
  | ite =>
    rcases i with _ | _ | _ | i
    · cases hc; simp [parallelized, setChild, hsel]
    · cases hc; simp [parallelized, setChild, hsel]
    · cases hc; simp [parallelized, setChild, hsel]
    · cases hc
  | _ => cases hc

/-- Whether a goal is a plain conjunction of several goals. -/
def isParallelizable (g : Goal) : Bool := g.parallelize?.isSome

theorem isParallelizable_iff :
    g.isParallelizable ↔ ∃ info gs, g = .conj info .plain gs ∧ 2 ≤ gs.length := by
  constructor
  · intro h
    unfold isParallelizable parallelize? at h
    split at h
    · exact ⟨_, _, rfl, by simp⟩
    · cases h
  · rintro ⟨info, _ | ⟨g₁, _ | ⟨g₂, gs⟩⟩, rfl, hlen⟩
    · cases hlen
    · simp at hlen
    · rfl

theorem parallelize?_parallelized (g : Goal) :
    (g.parallelized sel).parallelize? =
      if g.isParallelizable && !sel [] then some (g.parallelized fun p => p == [] || sel p)
      else none := by
  have hrest : ∀ gs, parallelizedFrom (fun p => p == [] || sel p) 0 gs =
      parallelizedFrom sel 0 gs := fun gs => ext_getElem? fun j => by
    simp only [getElem?_parallelizedFrom]
    rfl
  cases g with
  | conj info kind gs =>
    rcases gs with _ | ⟨g₁, _ | ⟨g₂, gs⟩⟩
    · simp [parallelized, parallelizedFrom, parallelize?, isParallelizable]
    · simp [parallelized, parallelizedFrom, parallelize?, isParallelizable]
    · cases kind with
      | parallel => simp [parallelized, parallelize?, isParallelizable]
      | plain =>
        rw [parallelized, parallelized, hrest]
        cases hsel : sel [] <;> simp [parallelizedFrom, parallelize?, isParallelizable]
  | _ => simp [parallelized, parallelize?, isParallelizable]

/-- Following a path in a goal where some conjunctions have been made parallel:
    one more becomes parallel, unless it is one of them. -/
theorem modifyAt?_parallelized (g : Goal) (path : List Nat) :
    (g.parallelized sel).modifyAt? parallelize? path =
      if (g.descendant? path).any isParallelizable && !sel path then
        some (g.parallelized fun p => p == path || sel p)
      else none := by
  induction path generalizing g sel with
  | nil => exact parallelize?_parallelized sel g
  | cons i path ih =>
    simp only [modifyAt?, descendant?, child?_parallelized]
    rcases Option.eq_none_or_eq_some (g.child? i) with hc | ⟨c, hc⟩
    · simp only [hc]
      rfl
    · simp only [hc, Option.map_some, Option.bind_eq_bind, Option.bind_some, ih]
      split
      · simp only [Option.bind_some, Option.pure_def, Option.some.injEq]
        rw [← setChild_parallelized sel (fun p => p == i :: path || sel p) hc (by simp)
          (by simp +contextual)]
        simp
      · rfl

mutual

theorem parallelized_none : ∀ g : Goal, g.parallelized (fun _ => false) = g
  | .conj _ _ gs => by simp [parallelized, parallelizedFrom_none gs]
  | .disj _ gs => by rw [parallelized, parallelizedFrom_none gs]
  | .switch _ _ _ arms => by rw [parallelized, parallelizedArms_none arms]
  | .negation _ g => by rw [parallelized, parallelized_none g]
  | .ite _ _ c y n => by
    rw [parallelized, parallelized_none c, parallelized_none y, parallelized_none n]
  | .scope _ _ g => by rw [parallelized, parallelized_none g]
  | .call .. | .genericCall .. | .foreign .. | .unify .. | .lambda .. => rfl

theorem parallelizedFrom_none : ∀ (gs : List Goal) {n : Nat},
    parallelizedFrom (fun _ => false) n gs = gs
  | [], _ => rfl
  | g :: gs, _ => by rw [parallelizedFrom, parallelized_none g, parallelizedFrom_none gs]

theorem parallelizedArms_none : ∀ (arms : List (Symbol × Goal)) {n : Nat},
    parallelizedArms (fun _ => false) n arms = arms
  | [], _ => rfl
  | (_, g) :: arms, _ => by
    rw [parallelizedArms, parallelized_none g, parallelizedArms_none arms]

end

end Goal

/-! ### One candidate after the other -/

/-- The procedure with conjunctions of its body made parallel. -/
def Procedure.parallelized (sel : List Nat → Bool) (proc : Procedure) : Procedure :=
  { proc with body := proc.body.parallelized sel }

namespace Module

variable {m : Module} {c : ParallelCandidate} {cs cs' all seen : List ParallelCandidate}
  {pred : Predicate} {proc : Procedure}

/-- The goal that a path leads to in a procedure. -/
def goalAt? (m : Module) (c : ParallelCandidate) : Option Goal :=
  (m.procAt? c.proc).bind (·.body.descendant? c.path)

/-- Whether a candidate leads to a plain conjunction of several goals, in a
    predicate without parallel conjunctions of its own. -/
def parallelizable (m : Module) (c : ParallelCandidate) : Bool :=
  (m.findPred? c.proc.pred).any (!·.hasMarker .parallelConjunctions) &&
    (m.goalAt? c).any Goal.isParallelizable

theorem parallelizable_eq (h : m.findProc? c.proc = some (pred, proc)) :
    m.parallelizable c = (!pred.hasMarker .parallelConjunctions &&
      (proc.body.descendant? c.path).any Goal.isParallelizable) := by
  obtain ⟨hpred, -⟩ := findProc?_eq_some.1 h
  rw [parallelizable, goalAt?, procAt?, h, hpred]
  rfl

/-- The module with the conjunctions made parallel to which candidates lead. -/
def withParallel (m : Module) (cs : List ParallelCandidate) : Module :=
  m.mapProcs fun r => .parallelized fun path => cs.contains ⟨r, path⟩

theorem withParallel_congr (h : ∀ c, c ∈ cs ↔ c ∈ cs') :
    m.withParallel cs = m.withParallel cs' := by
  have hcontains : ∀ c, cs.contains c = cs'.contains c := fun c => by
    rw [Bool.eq_iff_iff, contains_iff_mem, contains_iff_mem, h]
  simp only [withParallel, hcontains]

theorem withParallel_nil (m : Module) : m.withParallel [] = m := by
  refine (mapProcs_congr fun r proc _ => ?_).trans m.mapProcs_id
  simp only [Procedure.parallelized, contains_nil, Goal.parallelized_none]

theorem modifyProc_withParallel (m : Module) (c : ParallelCandidate) (cs : List ParallelCandidate)
    (proc : Procedure) (hproc : m.procAt? c.proc = some proc) :
    (m.withParallel cs).modifyProc c.proc ({ · with
      body := proc.body.parallelized fun p => p == c.path || cs.contains ⟨c.proc, p⟩ }) =
      m.withParallel (c :: cs) := by
  rw [withParallel, modifyProc_mapProcs]
  refine mapProcs_congr fun r proc' hr => ?_
  obtain ⟨r₀, path⟩ := c
  by_cases hne : r = r₀
  · subst hne
    obtain rfl : proc = proc' := Option.some.inj (hproc.symm.trans hr)
    have hsel : (fun p => p == path || cs.contains ⟨r, p⟩) =
        fun p => ((⟨r, path⟩ : ParallelCandidate) :: cs).contains ⟨r, p⟩ := by
      funext p
      rw [contains_cons, Bool.eq_iff_iff, Bool.or_eq_true, Bool.or_eq_true]
      simp
    rw [if_pos rfl, hsel]
    rfl
  · simp [hne]

/-- The module when the candidates in `seen` have been worked on. -/
def parallelState (m : Module) (all seen : List ParallelCandidate) (ds : List Diagnostic) :
    Module :=
  { m with diagnostics := ds, candidates := all }.withParallel (seen.filter m.parallelizable)

theorem parallelState_skip (h : (m.parallelizable c && !seen.contains c) = false)
    (ds : List Diagnostic) : m.parallelState all (c :: seen) ds = m.parallelState all seen ds :=
  withParallel_congr fun c' => by by_cases hc : c' = c <;> simp_all

theorem findProc?_parallelState (h : m.findProc? c.proc = some (pred, proc))
    (all seen : List ParallelCandidate) (ds : List Diagnostic) :
    ∃ procs, (m.parallelState all seen ds).findProc? c.proc = some ({ pred with procs },
      proc.parallelized fun path => (seen.filter m.parallelizable).contains ⟨c.proc, path⟩) := by
  have hfound : { m with diagnostics := ds, candidates := all }.findProc? c.proc =
      some (pred, proc) := h
  rw [parallelState, withParallel, findProc?_mapProcs, hfound]
  exact ⟨_, rfl⟩

/-- What is reported of a candidate that is left alone. -/
def skipNotice (m : Module) (c : ParallelCandidate) : Diagnostic :=
  match m.findProc? c.proc with
  | none => default
  | some (pred, proc) =>
    let notice (severity : Severity) (message : String) : Diagnostic :=
      { severity, context := proc.context, pred := some pred.describe, message }
    if pred.hasMarker .parallelConjunctions then
      notice .informational
        "procedure already contains explicit parallel goals, skipping auto-parallelization"
    else
      notice .warning ("goal path " ++ c.renderPath ++
        " of the parallelisation feedback does not lead to a conjunction, skipping it")

theorem parallelizeAt_parallelState (h : (m.findProc? c.proc).isSome)
    (all seen : List ParallelCandidate) (ds : List Diagnostic) :
    parallelizeAt (m.parallelState all seen ds) c = .ok (m.parallelState all (c :: seen)
      (ds ++ if m.parallelizable c && !seen.contains c then [] else [m.skipNotice c])) := by
  obtain ⟨⟨pred, proc⟩, h⟩ := Option.isSome_iff_exists.1 h
  obtain ⟨procs, hfound⟩ := findProc?_parallelState h all seen ds
  have hmarkers : ∀ marker, { pred with procs }.hasMarker marker = pred.hasMarker marker :=
    fun _ => rfl
  simp only [parallelizeAt, proc_eq_ok.2 hfound, skipNotice, h, bind, Except.bind, pure,
    Except.pure, hmarkers]
  cases hmarker : pred.hasMarker .parallelConjunctions with
  | true =>
    have hleft : (m.parallelizable c && !seen.contains c) = false := by
      simp [parallelizable_eq h, hmarker]
    rw [parallelState_skip hleft, hleft]
    rfl
  | false =>
    have hhere : (proc.body.descendant? c.path).any Goal.isParallelizable = m.parallelizable c := by
      simp [parallelizable_eq h, hmarker]
    have hseen : (m.parallelizable c && !(seen.filter m.parallelizable).contains c) =
        (m.parallelizable c && !seen.contains c) := by
      cases hc : m.parallelizable c <;> simp [hc]
    simp only [Bool.false_eq_true, if_false, Procedure.parallelized, Goal.modifyAt?_parallelized,
      hhere, hseen]
    cases hflips : m.parallelizable c && !seen.contains c with
    | false =>
      rw [parallelState_skip hflips]
      rfl
    | true =>
      have hpar : m.parallelizable c = true := (Bool.and_eq_true_iff.1 hflips).1
      simp only [if_true, append_nil, parallelState, filter_cons_of_pos hpar]
      rw [← modifyProc_withParallel _ c _ proc (by rw [procAt?]; exact congrArg _ h)]

/-- The candidates that are left alone, if those in `seen` have been worked
    on: those that lead to no conjunction that could be made parallel, and those
    that have been seen. -/
def skipped (m : Module) : (seen cs : List ParallelCandidate) → List ParallelCandidate
  | _, [] => []
  | seen, c :: cs =>
    if m.parallelizable c && !seen.contains c then m.skipped (c :: seen) cs
    else c :: m.skipped (c :: seen) cs

theorem foldlM_parallelizeAt (h : ∀ c ∈ cs, (m.findProc? c.proc).isSome)
    (all seen : List ParallelCandidate) (ds : List Diagnostic) :
    cs.foldlM parallelizeAt (m.parallelState all seen ds) =
      .ok (m.parallelState all (cs.reverse ++ seen)
        (ds ++ (m.skipped seen cs).map m.skipNotice)) := by
  induction cs generalizing seen ds with
  | nil => simp [skipped, pure, Except.pure]
  | cons c cs ih =>
    obtain ⟨hc, hcs⟩ := forall_mem_cons.1 h
    rw [foldlM_cons, parallelizeAt_parallelState hc]
    refine (ih hcs _ _).trans ?_
    rw [skipped]
    split <;> simp

theorem parallelize_eq (h : ∀ c ∈ cs, (m.findProc? c.proc).isSome) :
    { m with candidates := cs }.parallelize = .ok (m.parallelState cs cs
      (m.diagnostics ++ (m.skipped [] cs).map m.skipNotice)) := by
  have hstart : m.parallelState cs [] m.diagnostics = { m with candidates := cs } :=
    withParallel_nil _
  have hend : ∀ ds, m.parallelState cs (cs.reverse ++ []) ds = m.parallelState cs cs ds :=
    fun ds => withParallel_congr fun c => by simp
  rw [← hend, ← foldlM_parallelizeAt h, hstart]
  rfl

theorem count_skipped (m : Module) (seen cs : List ParallelCandidate) (c : ParallelCandidate) :
    (m.skipped seen cs).count c =
      cs.count c - if m.parallelizable c && !seen.contains c then 1 else 0 := by
  induction cs generalizing seen with
  | nil => simp [skipped]
  | cons c' cs ih =>
    rw [skipped]
    by_cases hc : c' = c
    · subst hc
      split <;> simp_all
    · split <;> simp [ih, hc, Ne.symm hc]

theorem skipped_perm (h : cs.Perm cs') : (m.skipped [] cs).Perm (m.skipped [] cs') :=
  perm_iff_count.2 fun c => by rw [count_skipped, count_skipped, h.count_eq]

/-- Each candidate is skipped, or is the first of its kind and made parallel. -/
theorem length_skipped (m : Module) (seen cs : List ParallelCandidate) :
    (m.skipped seen cs).length + {c ∈ cs.toFinset | m.parallelizable c ∧ c ∉ seen}.card =
      cs.length := by
  induction cs generalizing seen with
  | nil => simp [skipped]
  | cons c cs ih =>
    rw [skipped, length_cons, ← ih (c :: seen)]
    split
    · next hc =>
      have hset : {c' ∈ (c :: cs).toFinset | m.parallelizable c' ∧ c' ∉ seen} =
          insert c {c' ∈ cs.toFinset | m.parallelizable c' ∧ c' ∉ c :: seen} := by
        ext c'
        by_cases h : c' = c <;> simp_all
      rw [hset, Finset.card_insert_of_notMem (by simp), Nat.add_assoc]
    · next hc =>
      have hset : {c' ∈ (c :: cs).toFinset | m.parallelizable c' ∧ c' ∉ seen} =
          {c' ∈ cs.toFinset | m.parallelizable c' ∧ c' ∉ c :: seen} := by
        ext c'
        by_cases h : c' = c <;> simp_all
      rw [hset, length_cons]
      omega

/-! ### What has changed -/

/-- The conjunction at a place is plain in one module and parallel in the
    other. -/
def MadeParallel (m m' : Module) (place : ParallelCandidate) : Prop :=
  ∃ info gs info' gs', m.goalAt? place = some (.conj info .plain gs) ∧
    m'.goalAt? place = some (.conj info' .parallel gs')

theorem goalAt?_withParallel (m : Module) (cs : List ParallelCandidate)
    (place : ParallelCandidate) : (m.withParallel cs).goalAt? place = (m.goalAt? place).map
      (Goal.parallelized fun p => cs.contains ⟨place.proc, place.path ++ p⟩) := by
  rw [goalAt?, goalAt?, withParallel, procAt?_mapProcs]
  cases m.procAt? place.proc with
  | none => rfl
  | some proc => exact Goal.descendant?_parallelized _ proc.body place.path

theorem parallelizable_iff : m.parallelizable c ↔
    (∃ info gs, m.goalAt? c = some (.conj info .plain gs) ∧ 2 ≤ gs.length) ∧
      ∃ pred, m.findPred? c.proc.pred = some pred ∧ ¬ pred.hasMarker .parallelConjunctions := by
  simp only [parallelizable, Bool.and_eq_true, Option.any_eq_true, Bool.not_eq_true',
    Goal.isParallelizable_iff, Bool.not_eq_true]
  constructor
  · rintro ⟨hpred, g, hg, info, gs, rfl, hlen⟩
    exact ⟨⟨info, gs, hg, hlen⟩, hpred⟩
  · rintro ⟨⟨info, gs, hg, hlen⟩, hpred⟩
    exact ⟨hpred, _, hg, info, gs, rfl, hlen⟩

theorem madeParallel_iff (m : Module) (cs : List ParallelCandidate) (place : ParallelCandidate) :
    MadeParallel m (m.withParallel (cs.filter m.parallelizable)) place ↔
      place ∈ cs ∧ m.parallelizable place := by
  rw [MadeParallel, goalAt?_withParallel, ← mem_filter]
  constructor
  · rintro ⟨info, gs, info', gs', h, h'⟩
    by_contra hnot
    rw [h, Option.map_some, Option.some.injEq, Goal.parallelized, append_nil,
      if_neg (by simpa using fun _ => hnot), Goal.conj.injEq] at h'
    cases h'.2.1
  · intro hmem
    obtain ⟨⟨info, gs, h, hlen⟩, -⟩ := parallelizable_iff.1 (mem_filter.1 hmem).2
    have hsel : (cs.filter m.parallelizable).contains ⟨place.proc, place.path ++ []⟩ := by
      simpa using hmem
    rw [h, Option.map_some, Goal.parallelized, if_pos ⟨rfl, hlen, hsel⟩]
    exact ⟨info, gs, info, _, rfl, rfl⟩

theorem severity_skipNotice (h : (m.findProc? c.proc).isSome) :
    (m.skipNotice c).severity ≠ .error := by
  obtain ⟨⟨pred, proc⟩, h⟩ := Option.isSome_iff_exists.1 h
  simp only [skipNotice, h]
  split <;> simp

/-- Candidates can be worked on in any order. The procedures are the same, and
    differ from what they were in the conjunctions that have become parallel:
    the plain ones of several goals to which candidates lead, in predicates
    without parallel conjunctions of their own. There is a message about each
    candidate but one for each of them, and none is an error. -/
theorem parallelize_any_order (h : ∀ c ∈ m.candidates, (m.findProc? c.proc).isSome)
    (hperm : cs.Perm m.candidates) :
    ∃ m' ds ds', m' = m.withParallel (m.candidates.filter m.parallelizable) ∧
      m.parallelize = .ok { m' with diagnostics := m.diagnostics ++ ds } ∧
      { m with candidates := cs }.parallelize =
        .ok { m' with diagnostics := m.diagnostics ++ ds', candidates := cs } ∧
      ds'.Perm ds ∧
      (∀ place, MadeParallel m m' place ↔ place ∈ m.candidates ∧
        (∃ info gs, m.goalAt? place = some (.conj info .plain gs) ∧ 2 ≤ gs.length) ∧
        ∃ pred, m.findPred? place.proc.pred = some pred ∧
          ¬ pred.hasMarker .parallelConjunctions) ∧
      ds.length + {place | MadeParallel m m' place}.ncard = m.candidates.length ∧
      Clausal.errorCount (m.diagnostics ++ ds) = m.errorCount := by
  have hcs : ∀ c ∈ cs, (m.findProc? c.proc).isSome := fun c hc => h c (hperm.mem_iff.1 hc)
  refine ⟨_, (m.skipped [] m.candidates).map m.skipNotice, (m.skipped [] cs).map m.skipNotice, rfl,
    parallelize_eq h, ?_, (skipped_perm hperm).map _,
    fun place => (madeParallel_iff m _ place).trans (and_congr_right' parallelizable_iff), ?_, ?_⟩
  · rw [parallelize_eq hcs, parallelState, withParallel_congr fun c => (hperm.filter _).mem_iff]
    rfl
  · have hset : {place | MadeParallel m (m.withParallel (m.candidates.filter m.parallelizable))
        place} = {c ∈ m.candidates.toFinset | m.parallelizable c ∧
          c ∉ ([] : List ParallelCandidate)} := by
      ext place
      simp [madeParallel_iff]
    rw [hset, Set.ncard_coe_finset, List.length_map, length_skipped]
  · have hnone : ((m.skipped [] m.candidates).map m.skipNotice).filter
        (·.severity == .error) = [] := by
      rw [List.filter_eq_nil_iff]
      intro d hd
      obtain ⟨c, hc, rfl⟩ := List.mem_map.1 hd
      have hc' : c ∈ m.candidates := by
        rw [← List.count_pos_iff, count_skipped] at hc
        exact List.count_pos_iff.1 (by omega)
      simpa using severity_skipNotice (h c hc')
    rw [errorCount, Clausal.errorCount, Clausal.errorCount, List.filter_append, hnone,
      List.append_nil]

end Module

/-! ### An example -/

namespace ParallelExample

/-- A procedure that is a conjunction with another one inside. -/
def nestedProc : Procedure :=
  let nothing := Goal.conj {} .plain []
  { context := {}
    vars := {}
    head := []
    modes := []
    body := .conj {} .plain [.disj {} [.conj {} .plain [nothing, nothing], nothing], nothing]
    determinism := .multi }

def nested : ProcRef := ⟨⟨0⟩, ⟨0⟩⟩

/-- Both conjunctions are candidates, the outer one twice, and so is a place
    where there is no goal. -/
def nestedModule : Module :=
  { name := "m"
    preds := #[{
      home := "m", name := "p", arity := 0, context := {}, scope := {}, argTypes := []
      procs := #[nestedProc] }]
    candidates := [⟨nested, []⟩, ⟨nested, [0, 0]⟩, ⟨nested, []⟩, ⟨nested, [5]⟩] }

/-- The inner conjunction is made parallel whether its turn comes before or
    after that of the outer one. -/
theorem nested_any_order :
    (∀ c ∈ nestedModule.candidates, (nestedModule.findProc? c.proc).isSome) ∧
    ∃ m' ds ds', nestedModule.parallelize = .ok { m' with diagnostics := ds } ∧
      { nestedModule with candidates := nestedModule.candidates.reverse }.parallelize =
        .ok { m' with diagnostics := ds', candidates := nestedModule.candidates.reverse } ∧
      Module.MadeParallel nestedModule m' ⟨nested, [0, 0]⟩ := by
  have hexist : ∀ c ∈ nestedModule.candidates, (nestedModule.findProc? c.proc).isSome := by decide
  obtain ⟨m', ds, ds', -, h, h', -, hmade, -⟩ :=
    Module.parallelize_any_order hexist (List.reverse_perm _)
  refine ⟨hexist, m', ds, ds', h, h', (hmade _).2 ⟨by decide, ⟨_, _, rfl, by decide⟩, _, rfl, ?_⟩⟩
  decide

end ParallelExample

end Clausal
