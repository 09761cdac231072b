import Clausal.Proofs.Pass

/-!
# Changing every procedure of a module

A pass that works on one procedure after the other, and on each of them without
regard to the rest, comes to the same as changing all procedures at once
(`Module.mapProcs`): changing one more is changing all of them in another way
(`Module.modifyProc_mapProcs`).
-/

namespace Clausal

open Predicate Option

/-- The predicate with each procedure changed. -/
def Predicate.mapProcs (p : Predicate) (f : ProcId → Procedure → Procedure) : Predicate :=
  { p with procs := p.procs.mapIdx fun j => f ⟨j⟩ }

theorem Predicate.ext_procs {p q : Predicate} (hrest : p = { q with procs := p.procs })
    (h : ∀ j : Nat, p.procs[j]? = q.procs[j]?) : p = q := by
  rw [hrest, Array.ext_getElem? h]

@[simp] theorem Predicate.procs_mapProcs (p : Predicate) (f : ProcId → Procedure → Procedure)
    (j : Nat) : (p.mapProcs f).procs[j]? = p.procs[j]?.map (f ⟨j⟩) :=
  Array.getElem?_mapIdx

namespace Module

variable {m : Module} {r : ProcRef} {f f' : ProcRef → Procedure → Procedure}

section

variable (m : Module) (f : ProcRef → Procedure → Procedure)

/-- The module with each procedure changed. -/
def mapProcs : Module :=
  { m with preds := m.preds.mapIdx fun i p => p.mapProcs fun j => f ⟨⟨i⟩, j⟩ }

theorem findPred?_mapProcs (i : PredId) :
    (m.mapProcs f).findPred? i = (m.findPred? i).map fun p => p.mapProcs fun j => f ⟨i, j⟩ :=
  Array.getElem?_mapIdx

theorem findProc?_mapProcs (r : ProcRef) :
    (m.mapProcs f).findProc? r = (m.findProc? r).map fun found =>
      (found.1.mapProcs fun j => f ⟨r.pred, j⟩, f r found.2) := by
  simp only [findProc?, findPred?_mapProcs]
  cases m.findPred? r.pred with
  | none => rfl
  | some p =>
    simp only [map_some, bind_eq_bind, bind_some, Predicate.mapProcs,
      Array.getElem?_mapIdx]
    cases p.procs[r.proc.index]? <;> rfl

theorem procAt?_mapProcs (r : ProcRef) : (m.mapProcs f).procAt? r = (m.procAt? r).map (f r) := by
  rw [procAt?, procAt?, findProc?_mapProcs]
  cases m.findProc? r <;> rfl

end

theorem ext_findPred? {m' : Module} (hrest : m' = { m with preds := m'.preds })
    (h : ∀ i, m'.findPred? i = m.findPred? i) : m' = m := by
  have hpreds : m'.preds = m.preds := Array.ext_getElem? fun i => h ⟨i⟩
  rw [hrest, hpreds]

theorem mapProcs_congr (h : ∀ r proc, m.procAt? r = some proc → f r proc = f' r proc) :
    m.mapProcs f = m.mapProcs f' := by
  refine ext_findPred? rfl fun i => ?_
  rw [findPred?_mapProcs, findPred?_mapProcs]
  cases hp : m.findPred? i with
  | none => rfl
  | some p =>
    rw [map_some, map_some]
    refine congrArg some (ext_procs rfl fun j => ?_)
    rw [procs_mapProcs, procs_mapProcs]
    cases hj : p.procs[j]? with
    | none => rfl
    | some proc =>
      rw [map_some, map_some, h ⟨i, ⟨j⟩⟩ proc (by rw [procAt?_eq, hp]; exact hj)]

theorem mapProcs_id (m : Module) : (m.mapProcs fun _ proc => proc) = m := by
  have hid : ∀ p : Predicate, (p.mapProcs fun _ proc => proc) = p := fun p =>
    ext_procs rfl fun j => by simp
  refine ext_findPred? rfl fun i => ?_
  simp [findPred?_mapProcs, hid]

/-- Changing one procedure after all of them. -/
theorem modifyProc_mapProcs (m : Module) (f : ProcRef → Procedure → Procedure) (r : ProcRef)
    (g : Procedure → Procedure) : (m.mapProcs f).modifyProc r g =
      m.mapProcs fun r' proc => if r' = r then g (f r' proc) else f r' proc := by
  rw [modifyProc, findProc?_mapProcs]
  cases hfound : m.findProc? r with
  | none =>
    refine mapProcs_congr fun r' proc hproc => ?_
    rw [if_neg]
    rintro rfl
    rw [procAt?, hfound] at hproc
    cases hproc
  | some found =>
    obtain ⟨pred, proc⟩ := found
    obtain ⟨hpred, hproc⟩ := findProc?_eq_some.1 hfound
    refine ext_findPred? rfl fun i => ?_
    rw [map_some, findPred?_setPred, findPred?_mapProcs, findPred?_mapProcs]
    by_cases hi : r.pred = i
    · subst hi
      rw [if_pos rfl, hpred, map_some, map_some, map_some]
      refine congrArg some (ext_procs rfl fun j => ?_)
      rw [procs_setProc, procs_mapProcs, procs_mapProcs]
      by_cases hj : r.proc.index = j
      · subst hj
        rw [if_pos rfl, hproc]
        simp
      · have hne : (⟨r.pred, ⟨j⟩⟩ : ProcRef) ≠ r := fun h => hj (congrArg (·.proc.index) h).symm
        simp [hj, hne]
    · have hne : ∀ j, (⟨i, j⟩ : ProcRef) ≠ r := fun j h => hi (congrArg (·.pred) h).symm
      simp [hi, hne]

end Module

end Clausal
