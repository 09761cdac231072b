import Clausal.Module.Declaring
import Clausal.Proofs.ForeignNames
import Clausal.Proofs.TablePass

/-!
# Names of derived predicates

A derived predicate gets the name that is asked for, or that name with a
number. The numbers are tried in turn, and there is one more name to try than
there are predicates, so that one of them is free (`Module.freshPredName_spec`).
A name is free with regard to the predicates that there are when it is chosen,
and among them are those that have been added before: of two predicates that
the pass adds, the later one has been named with regard to the earlier one
(`Module.NamesApart`).
-/

namespace Clausal

open List

namespace Module

variable {m m₁ m' : Module} {r : ProcRef} {p pred : Predicate} {proc proc' : Procedure}
  {added : Option Predicate} {name base : String}

/-! ### Free names -/

/-- A name with a number. -/
def numberedName (base : String) (n : Nat) : String := base ++ "_" ++ toString n

theorem isPredName_iff : m.isPredName name ↔
    ∃ i p, m.findPred? i = some p ∧ p.home = m.name ∧ p.name = name := by
  simp only [isPredName, Array.any_eq_true, Bool.and_eq_true, beq_iff_eq]
  constructor
  · rintro ⟨i, hi, h⟩
    exact ⟨⟨i⟩, _, Array.getElem?_eq_getElem hi, h⟩
  · rintro ⟨i, p, hp, h⟩
    obtain ⟨hi, rfl⟩ := Array.getElem?_eq_some_iff.1 hp
    exact ⟨i.index, hi, h⟩

theorem numberedName_ne_self (base : String) (n : Nat) : numberedName base n ≠ base := by
  intro h
  have hlength := congrArg String.length h
  rw [numberedName, String.length_append, String.length_append] at hlength
  have hline : "_".length = 1 := by decide
  omega

/-- What stands behind the last mark of a numbered name is the number, whatever
    marks there are before. -/
theorem numberedName_inj {base base' : String} {n n' : Nat}
    (h : numberedName base n = numberedName base' n') : n = n' := by
  have hdigits : ∀ n : Nat, Unmarked ['_'] (toString n).toList.reverse :=
    fun n => .of_not_mem fun hmem => not_mem_toString n (mem_reverse.1 hmem)
  have hlist : ∀ base n, (numberedName base n).toList.reverse =
      (toString n).toList.reverse ++ (['_'] ++ base.toList.reverse) := by simp [numberedName]
  have hrev := hlist base n
  rw [h, hlist] at hrev
  have heq := (Unmarked.append_inj (by decide) (hdigits n') (hdigits n) hrev).1
  exact (Nat.repr_inj.1 (String.toList_inj.1 (reverse_injective heq))).symm

/-- One of the first numbered names is free, as there are only so many predicates. -/
theorem exists_numberedName_free (h : m.isPredName base) :
    ∃ n < m.preds.size, ¬ m.isPredName (numberedName base (n + 2)) := by
  by_contra htaken
  push Not at htaken
  let tried := base :: (List.range m.preds.size).map fun n => numberedName base (n + 2)
  have hnodup : tried.Nodup := by
    refine nodup_cons.2 ⟨fun hmem => ?_, nodup_range.map fun n n' heq => ?_⟩
    · obtain ⟨n, -, heq⟩ := mem_map.1 hmem
      exact numberedName_ne_self base _ heq
    · exact Nat.add_right_cancel (numberedName_inj heq)
  have htried : tried ⊆ m.preds.toList.map (·.name) := by
    intro name hname
    have hpred : m.isPredName name := by
      rcases mem_cons.1 hname with rfl | hmem
      · exact h
      · obtain ⟨n, hn, rfl⟩ := mem_map.1 hmem
        exact htaken n (mem_range.1 hn)
    obtain ⟨i, p, hp, -, rfl⟩ := isPredName_iff.1 hpred
    exact mem_map_of_mem (Array.mem_toList_iff.2 (Array.mem_of_getElem? hp))
  have hle := (hnodup.subperm htried).length_le
  simp [tried] at hle

/-- The name of a derived predicate is free. It has the least number that makes
    it so, if it has to have one. -/
theorem freshPredName_spec (m : Module) (base : String) :
    ¬ m.isPredName (m.freshPredName base) ∧
      (m.freshPredName base = base ∨ ∃ n, 2 ≤ n ∧ m.freshPredName base = numberedName base n ∧
        m.isPredName base ∧ ∀ k, 2 ≤ k → k < n → m.isPredName (numberedName base k)) := by
  rw [freshPredName]
  split
  · next h =>
    obtain ⟨n, hn, hfree⟩ := exists_numberedName_free h
    have hnumbered : (fun n => base ++ "_" ++ toString (n + 2)) =
        fun n => numberedName base (n + 2) := rfl
    simp only [hnumbered, List.find?_map]
    cases hfind : (List.range m.preds.size).find?
        ((!m.isPredName ·) ∘ fun n => numberedName base (n + 2)) with
    | none =>
      have htaken := List.find?_eq_none.1 hfind n (mem_range.2 hn)
      exact absurd (by simpa using htaken) hfree
    | some i =>
      obtain ⟨hfree, -, hbefore⟩ := List.find?_range_eq_some.1 hfind
      refine ⟨by simpa using hfree, .inr ⟨i + 2, Nat.le_add_left 2 i, rfl, h, fun k hk hlt => ?_⟩⟩
      obtain ⟨k, rfl⟩ := Nat.exists_eq_add_of_le' hk
      simpa using hbefore k (Nat.lt_of_add_lt_add_right hlt)
  · next h => exact ⟨h, .inl rfl⟩

/-! ### Added predicates -/

theorem Grows.findPred?_old {i : PredId} {q : Predicate} (h : m.Grows m')
    (hi : i.index < m.preds.size) (hq : m'.findPred? i = some q) :
    ∃ p, m.findPred? i = some p ∧ q = { p with scope := q.scope, procs := q.procs } := by
  have hp : m.findPred? i = some m.preds[i.index] := Array.getElem?_eq_getElem hi
  obtain ⟨q', hq', -, hdecl⟩ := h.preds i _ hp
  obtain rfl : q = q' := Option.some.inj (hq.symm.trans hq')
  exact ⟨_, hp, hdecl⟩

theorem Grows.name_eq (h : m.Grows m') : m'.name = m.name := by rw [h.rest]

/-- Predicates of the module itself have been added, each with a name that none
    of those before it has. -/
structure NamesApart (m m' : Module) : Prop where
  grows : m.Grows m'
  home : ∀ i p, m.preds.size ≤ i.index → m'.findPred? i = some p → p.home = m.name
  apart : ∀ i p j q, m.preds.size ≤ i.index → m'.findPred? i = some p → j.index < i.index →
    m'.findPred? j = some q → q.home = m.name → q.name ≠ p.name

namespace NamesApart

theorem refl (m : Module) : NamesApart m m := by
  have hnone : ∀ {i : PredId} {p : Predicate}, m.preds.size ≤ i.index →
      m.findPred? i ≠ some p := fun hi => by simp [findPred?_eq_none_of_le hi]
  exact ⟨.refl m, fun i p hi hp => absurd hp (hnone hi), fun i p j q hi hp =>
    absurd hp (hnone hi)⟩

theorem trans (h : NamesApart m m₁) (h' : NamesApart m₁ m') : NamesApart m m' := by
  have hname := h.grows.name_eq
  refine ⟨h.grows.trans h'.grows, fun i p hi hp => ?_, fun i p j q hi hp hlt hq hhome => ?_⟩
  · rcases Nat.lt_or_ge i.index m₁.preds.size with hi₁ | hi₁
    · obtain ⟨p₁, hp₁, hdecl⟩ := h'.grows.findPred?_old hi₁ hp
      rw [hdecl, ← h.home i p₁ hi hp₁]
    · rw [h'.home i p hi₁ hp, hname]
  · rcases Nat.lt_or_ge i.index m₁.preds.size with hi₁ | hi₁
    · -- Both predicates are there in between, under the same names.
      obtain ⟨p₁, hp₁, hp'⟩ := h'.grows.findPred?_old hi₁ hp
      obtain ⟨q₁, hq₁, hq'⟩ := h'.grows.findPred?_old (Nat.lt_trans hlt hi₁) hq
      have hne := h.apart i p₁ j q₁ hi hp₁ hlt hq₁ (by rw [← hhome, hq'])
      rw [hp', hq']
      exact hne
    · exact h'.apart i p j q hi₁ hp hlt hq (hhome.trans hname.symm)

theorem of_rewrites (h : Rewrites m r proc' added m')
    (hadded : ∀ p, added = some p → p.home = m.name ∧ ¬ m.isPredName p.name) :
    NamesApart m m' := by
  have hnew : ∀ i p, m.preds.size ≤ i.index → m'.findPred? i = some p →
      i = m.nextPred ∧ added = some p := by
    intro i p hi hp
    rw [h.newPreds i hi] at hp
    split at hp
    · next hnext => exact ⟨hnext, hp⟩
    · cases hp
  refine ⟨h.grows, fun i p hi hp => (hadded p (hnew i p hi hp).2).1,
    fun i p j q hi hp hlt hq hhome heq => ?_⟩
  obtain ⟨rfl, hadd⟩ := hnew i p hi hp
  obtain ⟨q₀, hq₀, hdecl⟩ := h.grows.findPred?_old hlt hq
  refine (hadded p hadd).2 (isPredName_iff.2 ⟨j, q₀, hq₀, ?_, ?_⟩)
  · rw [← hhome, hdecl]
  · rw [← heq, hdecl]

theorem foldlM {step : Module → ProcRef → Except Fault Module}
    (hstep : ∀ {m r m'}, step m r = .ok m' → NamesApart m m') {rs : List ProcRef}
    (h : rs.foldlM step m = .ok m') : NamesApart m m' := by
  induction rs generalizing m with
  | nil =>
    cases h
    exact .refl _
  | cons r rs ih =>
    rw [foldlM_cons, except_bind_eq_ok] at h
    obtain ⟨m₁, h₁, h₂⟩ := h
    exact (hstep h₁).trans (ih h₂)

end NamesApart

/-! ### The pass -/

theorem derivedPred_name (h : m.derivedPred pred base proc = .ok p) :
    p.home = m.name ∧ ¬ m.isPredName p.name := by
  obtain ⟨_, -, heq⟩ := except_bind_eq_ok.1 h
  cases heq
  exact ⟨rfl, (freshPredName_spec m base).1⟩

theorem Chooses.name_free (h : Chooses m r proc proc' (some p)) :
    p.home = m.name ∧ ¬ m.isPredName p.name := by
  rcases h with ⟨-, -, heq⟩ | ⟨_, _, _, _, -, ⟨-, heq, -⟩ | ⟨-, outlined, hok, heq, -⟩⟩
  · cases heq
  · cases heq
  · cases heq
    exact derivedPred_name hok

theorem Tables.name_free (h : Tables m r proc proc' (some p)) :
    p.home = m.name ∧ ¬ m.isPredName p.name := by
  rcases h with ⟨-, -, heq⟩ | ⟨_, tabled, _, htabled, -⟩
  · cases heq
  · have hgen := htabled.generator
    cases hg : tabled.generator with
    | none =>
      rw [hg] at hgen
      cases hgen
    | some g =>
      rw [hg, Option.mapM_some] at hgen
      obtain ⟨gen, hok, heq⟩ := except_bind_eq_ok.1 hgen
      cases heq
      obtain ⟨derived, hderived, heq⟩ := except_bind_eq_ok.1 hok
      cases heq
      exact derivedPred_name (p := derived) hderived

theorem namesApart_table (h : m.table = .ok m') : NamesApart m m' := by
  cases hrefused : m.options.tablingRefused? with
  | some refusal =>
    rw [table] at h
    simp only [hrefused] at h
    refine .foldlM (fun hstep => ?_) h
    obtain ⟨_, _, _, -, hrw, -, rfl⟩ := refuseTable_cases hstep
    exact .of_rewrites hrw nofun
  | none =>
    obtain ⟨m₀, h₀, h⟩ := foldlM_of_table h hrefused
    have hreadied : NamesApart m m₀ := by
      unfold readied at h₀
      split at h₀
      · refine .foldlM (fun hstep => ?_) h₀
        obtain ⟨_, _, _, -, hrw, hchooses⟩ := chooseIoProc_cases hstep
        exact .of_rewrites hrw fun p hp => Chooses.name_free (hp ▸ hchooses)
      · cases h₀
        exact .refl m
    refine hreadied.trans (.foldlM (fun hstep => ?_) h)
    obtain ⟨_, _, _, -, hrw, htables⟩ := tableProc_cases hstep
    exact .of_rewrites hrw fun p hp => Tables.name_free (hp ▸ htables)

/-- Names are found whatever there is, and the first one in turn that is free.
    The predicates that tabling adds are the module's own. Their names differ
    from one another and from those that predicates of the module had before. -/
theorem table_adds_fresh_names (m : Module) :
    (∀ base, ¬ m.isPredName (m.freshPredName base) ∧
      (m.freshPredName base = base ∨ ∃ n, 2 ≤ n ∧ m.freshPredName base = numberedName base n ∧
        m.isPredName base ∧ ∀ k, 2 ≤ k → k < n → m.isPredName (numberedName base k))) ∧
    ∀ m', m.table = .ok m' → ∀ i p, m.preds.size ≤ i.index → m'.findPred? i = some p →
      p.home = m.name ∧ ¬ m.isPredName p.name ∧
        ∀ j q, m.preds.size ≤ j.index → m'.findPred? j = some q → j ≠ i → q.name ≠ p.name := by
  refine ⟨freshPredName_spec m, fun m' h i p hi hp => ?_⟩
  have hnames := namesApart_table h
  refine ⟨hnames.home i p hi hp, fun htaken => ?_, fun j q hj hq hne => ?_⟩
  · obtain ⟨j, q, hq, hhome, hname⟩ := isPredName_iff.1 htaken
    obtain ⟨q', hq', -, hdecl⟩ := hnames.grows.preds j q hq
    refine hnames.apart i p j q' hi hp ?_ hq' (by rw [hdecl, hhome]) (by rw [hdecl, hname])
    exact Nat.lt_of_lt_of_le (Array.getElem?_eq_some_iff.1 hq).1 hi
  · rcases Nat.lt_trichotomy j.index i.index with hlt | heq | hgt
    · exact hnames.apart i p j q hi hp hlt hq (hnames.home j q hj hq)
    · exact absurd (congrArg PredId.mk heq) hne
    · exact (hnames.apart j q i p hj hq hgt hp (hnames.home i p hi hp)).symm

end Module

/-! ### An example -/

namespace TabledExample

/-- A procedure that needs a generator, a predicate that has the generator's
    name, an action that is moved to a predicate of its own, and one that does
    not say whether it is tabled. -/
def crowdedModule : Module :=
  let args : List ArgDecl := [.input "X" .int, .output "Y" .int]
  let actionArgs : List ArgDecl := [.input "S0" .ioState, .output "S" .ioState]
  let copy (m : Module) : Goal := .assign ⟨1⟩ ⟨0⟩ (m.context 1)
  let addAction (m : Module) (d : PredDecl) (said : Option IoTabling) : Module :=
    m.declare d (m.foreignBody d said false "" .pure (m.context 1))
  let m := Module.start "m" { traceTableIo := true, traceTableIoRequire := true }
  let m := m.declare
    { name := "p", args, determinism := .nondet, method := .minimalModel .ownStacks .allStrict }
    (copy m)
  let m := m.declare { name := "GeneratorFor_p", args } (copy m)
  let m := addAction m { name := "act", args := actionArgs, markers := [.noInline] } (some .tabled)
  addAction m { name := "silent", args := actionArgs } none

/-- The number of the generator. -/
def crowdedGenerator : PredId := ⟨Primitive.all.length + 5⟩

theorem crowded_tabled : ∃ m', crowdedModule.table = .ok m' ∧
    (m'.findPred? crowdedGenerator).map (·.name) = some "GeneratorFor_p_2" ∧
    m'.errorCount = 1 := by
  obtain ⟨m', hm', hq⟩ := Module.exists_of_toOption (x := crowdedModule.table)
    (q := fun m' => (m'.findPred? crowdedGenerator).map (·.name) = some "GeneratorFor_p_2" ∧
      m'.errorCount = 1) (by decide +kernel)
  exact ⟨m', hm', of_decide_eq_true hq⟩

/-- The generator gets a number. -/
theorem crowded_names_fresh : ∃ m' p, crowdedModule.table = .ok m' ∧
    m'.findPred? crowdedGenerator = some p ∧ p.name = "GeneratorFor_p_2" ∧ p.home = "m" ∧
    ¬ crowdedModule.isPredName p.name := by
  obtain ⟨m', hm', hname, -⟩ := crowded_tabled
  obtain ⟨p, hp, hname⟩ := Option.map_eq_some_iff.1 hname
  obtain ⟨hhome, hfree, -⟩ := (Module.table_adds_fresh_names crowdedModule).2 m' hm'
    crowdedGenerator p (by decide) hp
  exact ⟨m', p, hm', hp, hname, hhome, hfree⟩

end TabledExample

end Clausal
