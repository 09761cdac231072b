import Clausal.Proofs.CallSites
import Clausal.Proofs.EachProcedure
import Clausal.Proofs.WiderScopes

/-!
# The order of procedures

Working on a procedure changes the module that later ones are worked on in: the
scope of its predicate is wider, and its head and modes are longer. What comes of a
procedure does not depend on that (`Becomes.step`), so that it comes of it in one order
as in another (`becomes_of_foldlM`, `foldlM_of_becomes`). The types of the
witnesses are put into the declarations afterwards and without regard to scopes
(`addWitnessTypes_unscoped`).
-/

namespace Clausal

open List Assoc Array

variable {pred p : Predicate} {proc : Procedure} {rs : List ProcRef}

namespace Module

variable {m m' m₁ e e' e₁ : Module} {r : ProcRef}

/-! ### The pass in any order -/

/-- Makes the witnesses of a module explicit, working on the procedures in the
    given order. -/
def addWitnessesIn (m : Module) (rs : List ProcRef) : Except Fault Module := do
  let m ← rs.foldlM addProcWitnesses m
  (List.range m.preds.size).foldlM (fun m i => m.addWitnessTypes ⟨i⟩) m

theorem addWitnesses_eq (m : Module) : m.addWitnesses = m.addWitnessesIn m.witnessProcs := rfl

/-- The module without the type variables of its predicates. -/
def unscoped (m : Module) : Module :=
  { m with preds := m.preds.map fun p => { p with scope := .empty } }

/-! ### One procedure -/

theorem Widens.refl (m : Module) : m.Widens m where
  decls := .refl m
  scopes i p q hp hq := by
    cases hp.symm.trans hq
    exact .refl _
  determinism r k k' hk hk' := by
    cases hk.symm.trans hk'
    rfl

theorem Widens.setProc (h : m.Widens e) {p q : Predicate} {proc proc' : Procedure} {k : TypeScope}
    (hp : m.findPred? r.pred = some p) (hq : e.findPred? r.pred = some q)
    (hproc : q.procs[r.proc.index]? = some proc) (hmodes : proc.modes <:+ proc'.modes)
    (hdet : proc'.determinism = proc.determinism) (hk : p.scope.Extends k) :
    m.Widens (e.setPred r.pred ({ q with scope := k }.setProc r.proc proc')) where
  decls := h.decls.trans (.setPred hq (.setProc hproc hmodes))
  scopes i p₁ q₁ hp₁ hq₁ := by
    rw [findPred?_setPred] at hq₁
    split at hq₁
    · next hi =>
      subst hi
      rw [hq] at hq₁
      cases hq₁
      cases hp.symm.trans hp₁
      exact hk
    · exact h.scopes i p₁ q₁ hp₁ hq₁
  determinism r' j j' hj hj' := by
    rw [procAt?_setProc hq hproc] at hj'
    split at hj'
    · next hr =>
      subst hr
      cases hj'
      rw [hdet]
      exact h.determinism r' j proc hj (by rw [procAt?_eq, hq]; exact hproc)
    · exact h.determinism r' j j' hj hj'

theorem addProcWitnesses_eq_ok {out : WitnessHead} {body : Goal} {s : WitnessState}
    (hpred : e.findPred? r.pred = some pred) (hproc : pred.procs[r.proc.index]? = some proc)
    (h : Synth.Returns (Synth.procedure ⟨e, pred.describe⟩ pred proc) (.ofProc pred proc)
      (out, body) s) :
    e.addProcWitnesses r = .ok (e.setPred r.pred ({ pred with scope := s.scope }.setProc r.proc
      (changed proc out body s))) := by
  have hfound : e.proc r = .ok (pred, proc) :=
    proc_eq_ok.2 (findProc?_eq_some.2 ⟨hpred, hproc⟩)
  have hrun : (Synth.procedure ⟨e, pred.describe⟩ pred proc).run (.ofProc pred proc) =
      .ok ((out, body), s) := h
  rw [addProcWitnesses, hfound]
  show (StateT.run (Synth.procedure ⟨e, pred.describe⟩ pred proc) _ >>= _) = _
  rw [hrun]
  rfl

theorem fits_ofProc (hp : p.WellScoped) (hproc : proc ∈ p.procs) {k : TypeScope}
    (hk : p.scope.Extends k) {procs : Array Procedure} :
    (WitnessState.ofProc (p.widened k procs) proc).Fits p.scope where
  scope := hk
  types v t hv := by
    obtain ⟨x, hx, rfl⟩ := VarTable.type_eq_ok.1 hv
    exact hp.vars proc hproc x (mem_of_getElem? hx)
  proofs c sub hc := hp.proofs _ (mem_of_firstValue hc)

/-- Work on the procedure `r` has the result `proc`, in a module in which the
    witnesses of some other procedures have been made. -/
def Becomes (m : Module) (r : ProcRef) (proc : Option Procedure) : Prop :=
  ∃ e e₁, m.Widens e ∧ e.procAt? r = m.procAt? r ∧ e.addProcWitnesses r = .ok e₁ ∧
    e₁.procAt? r = proc

/-- What becomes of a procedure becomes of it wherever its turn comes. -/
theorem Becomes.step (hm : m.RangeRestricted) {q : Option Procedure} (h : m.Becomes r q)
    (he' : m.Widens e') (hproc' : e'.procAt? r = m.procAt? r) :
    ∃ e₁, e'.addProcWitnesses r = .ok e₁ ∧ m.Widens e₁ ∧ e₁.procAt? r = q := by
  obtain ⟨e, e₂, he, hproc, hadd, hq⟩ := h
  obtain ⟨pred, proc, out, body, s, hfound, hc, rfl⟩ := addProcWitnesses_cases hadd
  obtain ⟨p, hp, hpred, hk⟩ := he.of_pred (pred_eq_ok.2 hc.pred_found)
  obtain ⟨k', procs', hpred', hk'⟩ := he'.pred hp
  have hget : ∀ {x : Module} {p' : Predicate}, x.findPred? r.pred = some p' →
      x.procAt? r = m.procAt? r → p'.procs[r.proc.index]? = some proc := by
    intro x p' hp' hx
    have hx : x.procAt? r = some proc := by rw [hx, ← hproc, hfound]
    rwa [procAt?_eq, hp'] at hx
  have hprocm := hget hp rfl
  have hprocp := hget (pred_eq_ok.1 hpred') hproc'
  obtain ⟨k, procs, rfl⟩ : ∃ k procs, pred = p.widened k procs := ⟨_, _, hpred⟩
  have hb : Beside m ⟨e, (p.widened k procs).describe⟩ ⟨e', (p.widened k' procs').describe⟩ :=
    ⟨hm, he, he'⟩
  obtain ⟨_, ⟨-, k₁, hk₁, rfl⟩, hreturns⟩ := Synth.procedure_steady hb hp proc
    ⟨fits_ofProc (hm.preds hp) (mem_of_getElem? hprocm) hk, k', hk', rfl⟩ hc.returns
  obtain ⟨_, parts, hparts, -⟩ := Synth.procedure_head hreturns
  refine ⟨_, addProcWitnesses_eq_ok (pred_eq_ok.1 hpred') hprocp hreturns,
    he'.setProc hp (pred_eq_ok.1 hpred') hprocp ⟨_, hparts.modes.symm⟩ rfl hk₁, ?_⟩
  rw [← hq, procAt?_setProc (pred_eq_ok.1 hpred') hprocp, procAt?_setProc hc.pred_found
    (hget hc.pred_found hproc), if_pos rfl, if_pos rfl]
  rfl

/-! ### All procedures -/

/-- What becomes of procedures in one order. -/
theorem becomes_of_foldlM (hm : m.RangeRestricted) (hn : rs.Nodup) (he : m.Widens e)
    (hproc : ∀ r ∈ rs, e.procAt? r = m.procAt? r) (h : rs.foldlM addProcWitnesses e = .ok e₁) :
    m.Widens e₁ ∧ ∀ r ∈ rs, m.Becomes r (e₁.procAt? r) := by
  induction rs generalizing e with
  | nil =>
    cases h
    exact ⟨he, by simp⟩
  | cons r rs ih =>
    obtain ⟨hr, hn⟩ := nodup_cons.1 hn
    rw [foldlM_cons, except_bind_eq_ok] at h
    obtain ⟨e₂, h₂, h⟩ := h
    have hbecomes : m.Becomes r (e₂.procAt? r) :=
      ⟨e, e₂, he, hproc r mem_cons_self, h₂, rfl⟩
    obtain ⟨e₃, h₃, he₃, -⟩ := hbecomes.step hm he (hproc r mem_cons_self)
    obtain rfl : e₂ = e₃ := Except.ok.inj (h₂.symm.trans h₃)
    obtain ⟨-, hother, -⟩ := addProcWitnesses_spec h₂
    have hne : ∀ r' ∈ rs, r' ≠ r := fun r' hr' heq => hr (heq ▸ hr')
    obtain ⟨he₁, hrest⟩ := ih hn he₃ (fun r' hr' => by
      rw [hother r' (hne r' hr'), hproc r' (mem_cons_of_mem _ hr')]) h
    refine ⟨he₁, fun r' hr' => ?_⟩
    rcases mem_cons.1 hr' with rfl | hr'
    · rw [(foldlM_addProcWitnesses h).2 r' hr]
      exact hbecomes
    · exact hrest r' hr'

/-- The same becomes of them in another order. -/
theorem foldlM_of_becomes (hm : m.RangeRestricted) (hn : rs.Nodup) (he : m.Widens e)
    (hproc : ∀ r ∈ rs, e.procAt? r = m.procAt? r) {become : ProcRef → Option Procedure}
    (h : ∀ r ∈ rs, m.Becomes r (become r)) :
    ∃ e₁, rs.foldlM addProcWitnesses e = .ok e₁ ∧ m.Widens e₁ ∧
      ∀ r ∈ rs, e₁.procAt? r = become r := by
  induction rs generalizing e with
  | nil => exact ⟨e, rfl, he, by simp⟩
  | cons r rs ih =>
    obtain ⟨hr, hn⟩ := nodup_cons.1 hn
    obtain ⟨e₂, h₂, he₂, hr₂⟩ := (h r mem_cons_self).step hm he (hproc r mem_cons_self)
    obtain ⟨-, hother, -⟩ := addProcWitnesses_spec h₂
    have hne : ∀ r' ∈ rs, r' ≠ r := fun r' hr' heq => hr (heq ▸ hr')
    obtain ⟨e₁, h₁, he₁, hrest⟩ := ih hn he₂ (fun r' hr' => by
      rw [hother r' (hne r' hr'), hproc r' (mem_cons_of_mem _ hr')])
      fun r' hr' => h r' (mem_cons_of_mem _ hr')
    refine ⟨e₁, by rw [foldlM_cons, h₂]; exact h₁, he₁, fun r' hr' => ?_⟩
    rcases mem_cons.1 hr' with rfl | hr'
    · rw [(foldlM_addProcWitnesses h₁).2 r' hr, hr₂]
    · exact hrest r' hr'

/-! ### Modules without type variables -/

theorem findPred?_unscoped (m : Module) (i : PredId) :
    m.unscoped.findPred? i = (m.findPred? i).map fun p => { p with scope := .empty } :=
  Array.getElem?_map

theorem unscoped_eq (h : m.SameDecls e) (h' : m.SameDecls e')
    (hproc : ∀ r, e'.procAt? r = e.procAt? r) : e'.unscoped = e.unscoped := by
  refine ext_findPred? (by rw [h.rest, h'.rest]; rfl) fun i => ?_
  rw [findPred?_unscoped, findPred?_unscoped]
  cases hq : e.findPred? i with
  | none =>
    cases hq' : e'.findPred? i with
    | none => rfl
    | some q' =>
      obtain ⟨p, hp, -⟩ := h'.of_findPred? hq'
      obtain ⟨q, hq₁, -⟩ := h.findPred? hp
      rw [hq] at hq₁
      cases hq₁
  | some q =>
    obtain ⟨p, hp, hdecl⟩ := h.of_findPred? hq
    obtain ⟨q', hq', hdecl'⟩ := h'.findPred? hp
    have hprocs : q'.procs = q.procs := ext_getElem? fun j => by
      have := hproc ⟨i, ⟨j⟩⟩
      rwa [procAt?_eq, procAt?_eq, hq, hq'] at this
    rw [hq', hdecl.decl, hdecl'.decl, hprocs]
    rfl

theorem addWitnessTypes_unscoped (m : Module) (i : PredId) :
    m.unscoped.addWitnessTypes i = (m.addWitnessTypes i).map unscoped := by
  rw [addWitnessTypes, addWitnessTypes, pred, pred, findPred?_unscoped]
  cases hp : m.findPred? i with
  | none => rfl
  | some p =>
    have hset : ∀ q : Predicate, m.unscoped.setPred i { q with scope := .empty } =
        (m.setPred i q).unscoped := by
      intro q
      refine ext_findPred? rfl fun j => ?_
      rw [findPred?_setPred, findPred?_unscoped, findPred?_unscoped, findPred?_setPred]
      split <;> cases m.findPred? j <;> rfl
    have hcount : ({ p with scope := .empty } : Predicate).witnessCount = p.witnessCount := rfl
    simp only [Option.map_some, bind, Except.bind, hcount]
    cases p.witnessCount with
    | zero => rfl
    | succ n =>
      cases p.procs[0]? with
      | none => rfl
      | some proc =>
        show (if proc.head.length < n + 1 then _ else _) =
          Except.map unscoped (if proc.head.length < n + 1 then _ else _)
        split
        · rfl
        · cases proc.vars.types (proc.head.take (n + 1)) with
          | error err => rfl
          | ok types => exact congrArg Except.ok (hset { p with argTypes := types ++ p.argTypes })

theorem foldlM_addWitnessTypes_unscoped (m : Module) (is : List Nat) :
    is.foldlM (fun (m : Module) i => m.addWitnessTypes ⟨i⟩) m.unscoped =
      (is.foldlM (fun (m : Module) i => m.addWitnessTypes ⟨i⟩) m).map unscoped := by
  induction is generalizing m with
  | nil => rfl
  | cons i is ih =>
    rw [foldlM_cons, foldlM_cons, addWitnessTypes_unscoped]
    cases m.addWitnessTypes ⟨i⟩ with
    | error err => rfl
    | ok m₁ => exact ih m₁

/-! ### Order independence -/

/-- Whatever the order in which procedures are worked on, the same comes of each,
    and predicates get the same argument types. Only type variables may be
    numbered differently, beyond those that are declared. -/
theorem addWitnesses_any_order (hm : m.RangeRestricted) (h : m.addWitnesses = .ok m')
    {rs : List ProcRef} (hrs : rs.Perm m.witnessProcs) :
    ∃ m'', m.addWitnessesIn rs = .ok m'' ∧ m''.unscoped = m'.unscoped ∧
      ∀ i p, m.findPred? i = some p → ∃ p' p'', m'.findPred? i = some p' ∧
        m''.findPred? i = some p'' ∧ p.scope.Extends p'.scope ∧ p.scope.Extends p''.scope := by
  rw [addWitnesses_eq, addWitnessesIn, except_bind_eq_ok] at h
  obtain ⟨m₁, h₁, htypes⟩ := h
  have hn := nodup_witnessProcs m
  obtain ⟨hw₁, hbecomes⟩ := becomes_of_foldlM hm hn (.refl m) (fun _ _ => rfl) h₁
  obtain ⟨m₂, h₂, hw₂, hproc⟩ := foldlM_of_becomes hm (hrs.nodup_iff.2 hn) (.refl m)
    (fun _ _ => rfl) fun r hr => hbecomes r (hrs.mem_iff.1 hr)
  have hsame : m₂.unscoped = m₁.unscoped := by
    refine unscoped_eq hw₁.decls hw₂.decls fun r => ?_
    by_cases hr : r ∈ rs
    · exact hproc r hr
    · rw [(foldlM_addProcWitnesses h₂).2 r hr,
        (foldlM_addProcWitnesses h₁).2 r fun hmem => hr (hrs.mem_iff.2 hmem)]
  -- The argument types are put in without regard to type variables.
  have hfold := foldlM_addWitnessTypes_unscoped m₂ (List.range m₁.preds.size)
  rw [hsame, foldlM_addWitnessTypes_unscoped, htypes] at hfold
  cases htypes₂ : (List.range m₁.preds.size).foldlM
      (fun (m : Module) i => m.addWitnessTypes ⟨i⟩) m₂ with
  | error err =>
    rw [htypes₂] at hfold
    cases hfold
  | ok m'' =>
    rw [htypes₂] at hfold
    refine ⟨m'', ?_, (Except.ok.inj hfold).symm, fun i p hp => ?_⟩
    · rw [addWitnessesIn, h₂]
      show (List.range m₂.preds.size).foldlM _ m₂ = _
      rw [hw₂.decls.size, ← hw₁.decls.size, htypes₂]
    · obtain ⟨p₁, hp₁, -⟩ := hw₁.decls.findPred? hp
      obtain ⟨p₂, hp₂, -⟩ := hw₂.decls.findPred? hp
      obtain ⟨ts, hp', -⟩ := (foldlM_addWitnessTypes htypes List.nodup_range).preds i p₁ hp₁
      obtain ⟨ts₂, hp'', -⟩ := (foldlM_addWitnessTypes htypes₂ List.nodup_range).preds i p₂ hp₂
      exact ⟨_, _, hp', hp'', hw₁.scopes i p p₁ hp hp₁, hw₂.scopes i p p₂ hp hp₂⟩

end Module

/-! ### An example -/

namespace HiddenType

/-- The class of what can be shown. -/
def shown (t : Ty) : Constraint := ⟨.unqualified "shown", [t]⟩

/-- The class of what can be held, which everything can. -/
def held (t : Ty) : Constraint := ⟨.unqualified "held", [t]⟩

/-- Passes a value of any type on to `take`. -/
def pass : Predicate :=
  declared { name := "pass", scope := .ofNames ["T"], args := [.input "X" (.var ⟨0⟩)] }
    (.callProc ⟨⟨0⟩, ⟨0⟩⟩ take.symName [⟨0⟩] [] {} context)

/-- Takes a value that can be shown. -/
def present : Predicate :=
  declared
    { name := "present"
      scope := .ofNames ["T"]
      args := [.input "X" (.var ⟨0⟩)]
      constraints := { universal := [shown (.var ⟨0⟩)] } }
    (.success context)

/-- `pass(X), present(X)`, for an integer. -/
def both : Predicate :=
  declared
    { name := "both"
      args := [.input "X" .int]
      proofs := .ofList [(shown .int, .byInstance 0)] }
    (.conjoin
      [.callProc ⟨⟨1⟩, ⟨0⟩⟩ pass.symName [⟨0⟩] [] {} context,
       .callProc ⟨⟨2⟩, ⟨0⟩⟩ present.symName [⟨0⟩] [] {} context] context)

/-- A module in which integers can be shown if values of the type `t` can be
    held. -/
def showing (t : Ty) : Module where
  name := "hidden"
  preds := #[take, pass, present, both]
  classes := .ofList [
    ((shown t).classId, ⟨[⟨0⟩], [], .ofNames ["T"]⟩),
    ((held t).classId, ⟨[⟨0⟩], [], .ofNames ["T"]⟩)]
  instances := .ofList [
    ((shown t).classId, [⟨.unqualified "hidden", [held t], [.int], .ofNames ["U"],
      .ofList [(held t, .byInstance 0)]⟩]),
    ((held t).classId, [⟨.unqualified "hidden", [], [.var ⟨0⟩], .ofNames ["T"], ∅⟩])]

/-- Work on `both` comes first. -/
def bothFirst : List ProcRef := [⟨⟨3⟩, ⟨0⟩⟩, ⟨⟨0⟩, ⟨0⟩⟩, ⟨⟨1⟩, ⟨0⟩⟩, ⟨⟨2⟩, ⟨0⟩⟩]

theorem bothFirst_perm (t : Ty) : bothFirst.Perm (showing t).witnessProcs := by
  have : (showing t).witnessProcs = [⟨⟨0⟩, ⟨0⟩⟩, ⟨⟨1⟩, ⟨0⟩⟩, ⟨⟨2⟩, ⟨0⟩⟩, ⟨⟨3⟩, ⟨0⟩⟩] := by rfl
  rw [this]
  decide

theorem wellScoped_preds (t : Ty) : ∀ p ∈ (showing t).preds, p.WellScoped := by
  have h : ∀ p ∈ [take, pass, present, both], p.WellScoped := by decide +kernel
  exact fun p hp => h p (mem_toList_iff.2 hp)

theorem rangeRestricted_showing : (showing .int).RangeRestricted where
  wellScoped := .of_entries (by decide +kernel) (by decide +kernel)
  declared := wellScoped_preds .int
  constructors x hx := absurd hx not_mem_nil

/-- Integers can be shown, and `both` takes its turn first or last. -/
theorem both_any_order : ∃ m' m'', (showing .int).addWitnesses = .ok m' ∧
    (showing .int).addWitnessesIn bothFirst = .ok m'' ∧ m''.unscoped = m'.unscoped := by
  obtain ⟨m', h⟩ : ∃ m', (showing .int).addWitnesses = .ok m' := exists_of_isOk (by decide +kernel)
  obtain ⟨m'', h'', hsame, -⟩ :=
    Module.addWitnesses_any_order rangeRestricted_showing h (bothFirst_perm .int)
  exact ⟨m', m'', h, h'', hsame⟩

/-- An instance with a constraint on a variable that its types do not have lets the
    order be seen: the type-info of the variable is on record under the number that
    the variable gets. -/
theorem order_in_witness_map :
    (∀ p ∈ (showing (.var ⟨0⟩)).preds, p.WellScoped) ∧
      bothFirst.Perm (showing (.var ⟨0⟩)).witnessProcs ∧
      ∃ m' m'', (showing (.var ⟨0⟩)).addWitnesses = .ok m' ∧
        (showing (.var ⟨0⟩)).addWitnessesIn bothFirst = .ok m'' ∧
        (m'.procAt? ⟨⟨3⟩, ⟨0⟩⟩).map (·.witnesses) ≠ (m''.procAt? ⟨⟨3⟩, ⟨0⟩⟩).map (·.witnesses) := by
  refine ⟨wellScoped_preds _, bothFirst_perm _, ?_⟩
  obtain ⟨m', h⟩ : ∃ m', (showing (.var ⟨0⟩)).addWitnesses = .ok m' :=
    exists_of_isOk (by decide +kernel)
  obtain ⟨m'', h''⟩ : ∃ m'', (showing (.var ⟨0⟩)).addWitnessesIn bothFirst = .ok m'' :=
    exists_of_isOk (by decide +kernel)
  have hne : ((showing (.var ⟨0⟩)).addWitnesses.map fun m =>
        (m.procAt? ⟨⟨3⟩, ⟨0⟩⟩).map (·.witnesses)).toOption ≠
      (((showing (.var ⟨0⟩)).addWitnessesIn bothFirst).map fun m =>
        (m.procAt? ⟨⟨3⟩, ⟨0⟩⟩).map (·.witnesses)).toOption := by
    decide +kernel
  rw [h, h''] at hne
  exact ⟨m', m'', h, h'', fun heq => hne (congrArg some heq)⟩

end HiddenType

end Clausal
