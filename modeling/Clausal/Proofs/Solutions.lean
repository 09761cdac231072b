import Clausal.Proofs.Annotations

/-!
# What is promised of solutions

A goal has solutions, or it aborts (`Solver`). Where what is known of the parts
of a goal is right, what the builders of goals make of it is right too: how many
solutions there are, what they bind, and whether there are any.
-/

namespace Clausal

open List Determinism

variable {S : Type} {n k : Nat} {a b : MaxSolutions} {d e : Determinism} {g : Goal} {gs : List Goal}

/-! ### Numbers of solutions -/

def MaxSolutions.Allows : MaxSolutions → Nat → Prop
  | .zero, n => n = 0
  | .one, n => n ≤ 1
  | .many, _ => True

/-- As many solutions are as promised. -/
def Determinism.Allows (d : Determinism) (n : Nat) : Prop :=
  (d.canFail = false → 0 < n) ∧ d.maxSolutions.Allows n

theorem MaxSolutions.Allows.left (h : a.Allows n) : (a.max b).Allows n := by
  cases a <;> cases b <;> simp_all [max, Allows]

theorem MaxSolutions.Allows.right (h : b.Allows n) : (a.max b).Allows n := by
  cases a <;> cases b <;> simp_all [max, Allows]

theorem MaxSolutions.Allows.plus (h : a.Allows n) (h' : b.Allows k) :
    (a.plus b).Allows (n + k) := by
  cases a <;> cases b <;> simp_all [MaxSolutions.plus, Allows]

/-- As many runs as one bound allows, each within another, stay within the product. -/
theorem MaxSolutions.Allows.times {ns : List Nat} (h : a.Allows ns.length)
    (h' : ∀ n ∈ ns, b.Allows n) : (a.times b).Allows ns.sum := by
  rcases ns with _ | ⟨n, _ | ⟨n', ns⟩⟩ <;> cases a <;> cases b <;>
    simp_all [MaxSolutions.times, max, Allows, sum_eq_zero]

theorem allows_ofParts {c : Bool} :
    (ofParts c a).Allows n ↔ (c = false → 0 < n) ∧ a.Allows n := by
  rw [Determinism.Allows, canFail_ofParts, maxSolutions_ofParts]

/-- A conjunction has solutions as its two determinisms allow. -/
theorem Determinism.Allows.conjoin {ns : List Nat} (h : d.Allows ns.length)
    (h' : ∀ n ∈ ns, e.Allows n) : (d.conjoin e).Allows ns.sum := by
  refine allows_ofParts.2 ⟨fun hc => ?_, h.2.times fun n hn => (h' n hn).2⟩
  obtain ⟨hd, he⟩ := Bool.or_eq_false_iff.1 hc
  obtain ⟨n, hn⟩ := exists_mem_of_length_pos (h.1 hd)
  exact Nat.lt_of_lt_of_le ((h' n hn).1 he) (le_sum_of_mem hn)

theorem Determinism.Allows.disjoin (h : d.Allows n) (h' : e.Allows k) :
    (d.disjoin e).Allows (n + k) := by
  refine allows_ofParts.2 ⟨fun hc => ?_, h.2.plus h'.2⟩
  rcases Bool.and_eq_false_iff.1 hc with hc | hc
  · have := h.1 hc
    omega
  · have := h'.1 hc
    omega

theorem Determinism.Allows.join_left (h : d.Allows n) : (d.join e).Allows n :=
  allows_ofParts.2 ⟨fun hc => h.1 (Bool.or_eq_false_iff.1 hc).1, h.2.left⟩

theorem Determinism.Allows.join_right (h : e.Allows n) : (d.join e).Allows n :=
  allows_ofParts.2 ⟨fun hc => h.1 (Bool.or_eq_false_iff.1 hc).2, h.2.right⟩

theorem Goal.sequenced_cons (g : Goal) (gs : List Goal) :
    sequenced (g :: gs) = g.info.determinism.conjoin (sequenced gs) := by
  rw [← singleton_append, sequenced_append]
  show (Determinism.det.conjoin _).conjoin _ = _
  cases g.info.determinism <;> cases sequenced gs <;> rfl

/-! ### Solutions -/

/-- What a goal does in a state: it has solutions, in order, or it aborts. -/
abbrev Solver (S : Type) := S → Option (List S)

namespace Solver

/-- The solutions from all of some states. -/
def fromAll (m : Solver S) (σs : List S) : Option (List S) := (σs.mapM m).map flatten

/-- One goal after the other. -/
def sequence : List (Solver S) → Solver S
  | [], σ => some [σ]
  | m :: ms, σ => (m σ).bind (fromAll (sequence ms))

/-- The solutions of all alternatives. -/
def either (ms : List (Solver S)) : Solver S := fun σ =>
  (ms.mapM fun m : Solver S => m σ).map flatten

def negate (m : Solver S) : Solver S := fun σ =>
  (m σ).map fun sols => if sols.isEmpty then [σ] else []

/-- A conditional commits to whether its condition has a solution. -/
def cond (c yes no : Solver S) : Solver S := fun σ =>
  (c σ).bind fun sols => if sols.isEmpty then no σ else fromAll yes sols

/-- A switch takes the arm whose number is picked. If there is none it fails, which
    one that cannot fail must not come to. -/
def switch (ms : List (Solver S)) (pick : S → Nat) (canFail : Bool) : Solver S := fun σ =>
  (ms[pick σ]?).elim (if canFail then some [] else none) (· σ)

theorem sequence_single (m : Solver S) : sequence [m] = m := by
  funext σ
  have hpure (σs : List S) : fromAll (sequence []) σs = some σs := by
    have hrows : σs.mapM (sequence []) = some (σs.map ([·])) :=
      mapM_eq_some_iff.2 (forall₂_map_right_iff.2 (forall₂_same.2 fun _ _ => rfl))
    rw [fromAll, hrows, Option.map_some, ← flatMap_def, flatMap_singleton']
  rw [sequence, funext hpure, Option.bind_fun_some]

end Solver

variable {bound : S → ProgVar → Prop} {i : GoalInfo} {m : Solver S} {ms : List (Solver S)}
  {σ τ : S} {sols : List S} {context : Context}

/-- Solutions in a state are as is known of a goal. Nothing gets unbound. -/
structure GoalInfo.Fits (bound : S → ProgVar → Prop) (i : GoalInfo) (σ : S) (sols : List S) :
    Prop where
  count : i.determinism.Allows sols.length
  binds : ∀ τ ∈ sols, ∀ v, v ∈ i.bound ∨ bound σ v → bound τ v
  unreachable : i.unreachable = true → sols = []

/-- What is known of a goal is right. -/
def GoalInfo.Sound (bound : S → ProgVar → Prop) (i : GoalInfo) (m : Solver S) : Prop :=
  ∀ σ sols, m σ = some sols → i.Fits bound σ sols

/-- What holds when a sound goal goes on from each solution. -/
theorem GoalInfo.Fits.fromAll {j : GoalInfo} {σs : List S} (h : i.Fits bound σ σs)
    (hm : j.Sound bound m) (hsols : m.fromAll σs = some sols) :
    (∀ d : Determinism, d.Allows σs.length → (d.conjoin j.determinism).Allows sols.length) ∧
      (∀ τ ∈ sols, ∀ v, v ∈ i.bound ∨ v ∈ j.bound ∨ bound σ v → bound τ v) ∧
      (i.unreachable = true ∨ j.unreachable = true → sols = []) := by
  obtain ⟨rows, hrows, rfl⟩ := Option.map_eq_some_iff.1 hsols
  replace hrows := mapM_eq_some_iff.1 hrows
  have hfits : ∀ row ∈ rows, ∃ τ ∈ σs, j.Fits bound τ row := by
    intro row hrow
    obtain ⟨τ, hτ, hrun⟩ := exists_of_forall₂ hrows hrow
    exact ⟨τ, hτ, hm τ row hrun⟩
  refine ⟨fun d hd => ?_, fun τ hτ v hv => ?_, fun hnone => ?_⟩
  · rw [length_flatten]
    refine Determinism.Allows.conjoin ?_ (forall_mem_map.2 fun row hrow => ?_)
    · rwa [length_map, ← hrows.length_eq]
    · obtain ⟨_, -, hrow⟩ := hfits row hrow
      exact hrow.count
  · obtain ⟨row, hrow, hτ⟩ := mem_flatten.1 hτ
    obtain ⟨τ', hτ', hfit⟩ := hfits row hrow
    have := h.binds τ' hτ' v
    exact hfit.binds τ hτ v (by tauto)
  · refine flatten_eq_nil_iff.2 fun row hrow => ?_
    obtain ⟨τ, hτ, hfit⟩ := hfits row hrow
    rcases hnone with hnone | hnone
    · rw [h.unreachable hnone] at hτ
      cases hτ
    · exact hfit.unreachable hnone

/-- The annotation of a sequence is sound if those of its goals are. -/
theorem sound_sequence (h : Forall₂ (fun g m => g.info.Sound bound m) gs ms) (context : Context)
    (nonlocals : VarSet) :
    ({ Goal.sequentialInfo gs context with nonlocals } : GoalInfo).Sound bound (.sequence ms) := by
  induction h with
  | nil =>
    intro σ sols hsols
    obtain rfl := Option.some.inj hsols
    refine ⟨⟨fun _ => Nat.zero_lt_one, le_rfl⟩, by simp [Goal.sequentialInfo], fun h => by cases h⟩
  | @cons g m gs ms hg _ ih =>
    intro σ sols hsols
    obtain ⟨first, hfirst, hrest⟩ := Option.bind_eq_some_iff.1 hsols
    have hfit := hg σ first hfirst
    obtain ⟨hcount, hbinds, hnone⟩ := hfit.fromAll ih hrest
    refine ⟨?_, fun τ hτ v hv => hbinds τ hτ v ?_, fun hun => hnone ?_⟩
    · show (Goal.sequenced (g :: gs)).Allows _
      rw [Goal.sequenced_cons]
      exact hcount _ hfit.count
    · simpa [Goal.sequentialInfo, or_assoc] using hv
    · simpa [Goal.sequentialInfo] using hun

/-! ### Branches -/

theorem GoalInfo.Fits.branch (h : i.Fits bound σ sols) (hτ : τ ∈ sols) :
    Goal.branchBound i = some i.bound := by
  refine if_neg fun hun => ?_
  rw [h.unreachable hun] at hτ
  cases hτ

theorem fits_setBranches {branches : List (Option VarSet)}
    (hcount : i.determinism.Allows sols.length)
    (h : ∀ τ ∈ sols, ∃ s, some s ∈ branches ∧ ∀ v, v ∈ s ∨ bound σ v → bound τ v)
    (nonlocals : VarSet) :
    ({ Goal.setBranches i branches with nonlocals } : GoalInfo).Fits bound σ sols := by
  obtain ⟨hnone, hsome⟩ := Goal.foldl_commonBound branches none
  unfold Goal.setBranches
  split
  · next s hs =>
    refine ⟨hcount, fun τ hτ v hv => ?_, fun h => by cases h⟩
    obtain ⟨t, ht, hbinds⟩ := h τ hτ
    exact hbinds v (hv.imp_left fun hv => (hsome s hs v).1 hv t (mem_cons_of_mem _ ht))
  · next hs =>
    have hempty : sols = [] := eq_nil_iff_forall_not_mem.2 fun τ hτ => by
      obtain ⟨t, ht, -⟩ := h τ hτ
      cases hnone.1 hs _ (mem_cons_of_mem _ ht)
    subst hempty
    exact ⟨hcount, by simp, fun _ => rfl⟩

theorem allows_foldl_disjoin {rows : List (List S)}
    (h : Forall₂ (fun g row => g.info.Fits bound σ row) gs rows) (hd : d.Allows n) :
    (gs.foldl (fun d g => d.disjoin g.info.determinism) d).Allows (n + rows.flatten.length) := by
  induction h generalizing d n with
  | nil => exact hd
  | cons hfit _ ih =>
    rw [flatten_cons, length_append, ← Nat.add_assoc]
    exact ih (hd.disjoin hfit.count)

theorem sound_disjoin (h : Forall₂ (fun g m => g.info.Sound bound m) gs ms) (context : Context) :
    (Goal.disjoin gs context).info.Sound bound (.either ms) := by
  intro σ sols hsols
  obtain ⟨rows, hrows, rfl⟩ := Option.map_eq_some_iff.1 hsols
  have hfits : Forall₂ (fun g row => g.info.Fits bound σ row) gs rows := by
    replace hrows := mapM_eq_some_iff.1 hrows
    clear hsols
    induction h generalizing rows with
    | nil =>
      cases hrows
      exact .nil
    | cons hg _ ih =>
      cases hrows with
      | cons hrow hrows => exact .cons (hg σ _ hrow) (ih _ hrows)
  unfold Goal.disjoin
  split
  · next hnil =>
    obtain rfl : gs = [] := by simpa using hnil
    cases hfits
    exact ⟨⟨Bool.noConfusion, rfl⟩, by simp, fun _ => rfl⟩
  · refine fits_setBranches ?_ (fun τ hτ => ?_) _
    · have hcount := allows_foldl_disjoin hfits (d := .failure) (n := 0) ⟨Bool.noConfusion, rfl⟩
      rwa [Nat.zero_add] at hcount
    · obtain ⟨row, hrow, hτ⟩ := mem_flatten.1 hτ
      obtain ⟨g, hg, hfit⟩ := exists_of_forall₂ hfits hrow
      exact ⟨_, mem_map.2 ⟨g, hg, hfit.branch hτ⟩, hfit.binds τ hτ⟩

theorem sound_negate (g : Goal) (context : Context) :
    (Goal.negate g context).info.Sound bound m.negate := by
  intro σ sols hsols
  obtain ⟨first, -, rfl⟩ := Option.map_eq_some_iff.1 hsols
  split
  · refine ⟨⟨Bool.noConfusion, le_rfl⟩, fun τ hτ v hv => ?_, fun h => by cases h⟩
    rw [mem_singleton.1 hτ]
    exact hv.resolve_left VarSet.not_mem_empty
  · exact ⟨⟨Bool.noConfusion, Nat.zero_le _⟩, by simp, fun _ => rfl⟩

theorem sound_ifThenElse {c y e : Goal} {mc my me : Solver S} (hc : c.info.Sound bound mc)
    (hy : y.info.Sound bound my) (he : e.info.Sound bound me) (context : Context) :
    (Goal.ifThenElse c y e context).info.Sound bound (.cond mc my me) := by
  intro σ sols hsols
  obtain ⟨first, hfirst, hrest⟩ := Option.bind_eq_some_iff.1 hsols
  split at hrest
  · have hno := he σ sols hrest
    refine fits_setBranches ?_ (fun τ hτ => ⟨e.info.bound, ?_, hno.binds τ hτ⟩) _
    · exact allows_ofParts.2 ⟨fun hf => hno.count.1 (Bool.or_eq_false_iff.1 hf).2,
        hno.count.2.right⟩
    · simp [hno.branch hτ]
  · next hne =>
    have hfit := hc σ first hfirst
    obtain ⟨hcount, hbinds, hnone⟩ := hfit.fromAll hy hrest
    refine fits_setBranches ?_ (fun τ hτ => ?_) _
    · -- The condition has a solution, so that the whole fails only if the rest does.
      have hyes := allows_ofParts.1 (hcount (.ofParts false c.info.determinism.maxSolutions)
        (allows_ofParts.2 ⟨fun _ => length_pos_iff.2 (by simpa using hne), hfit.count.2⟩))
      simp only [canFail_ofParts, maxSolutions_ofParts, Bool.false_or] at hyes
      refine allows_ofParts.2 ⟨fun hf => hyes.1 (Bool.or_eq_false_iff.1 hf).1, .left ?_⟩
      rw [Determinism.conjoin, maxSolutions_ofParts]
      exact hyes.2
    · have hyes : Goal.branchBound y.info = some y.info.bound := if_neg fun hun => by
        rw [hnone (.inr hun)] at hτ
        cases hτ
      refine ⟨y.info.bound ∪ c.info.bound, by simp [hyes], fun v hv => hbinds τ hτ v ?_⟩
      simp only [VarSet.mem_union] at hv
      tauto

theorem allows_joinDeterminism (hg : g ∈ gs)
    (h : g.info.determinism.Allows n) : (Goal.joinDeterminism gs).Allows n := by
  have hfold {d : Determinism} {gs : List Goal}
      (h : d.Allows n ∨ ∃ g ∈ gs, g.info.determinism.Allows n) :
      (gs.foldl (fun d g => d.join g.info.determinism) d).Allows n := by
    induction gs generalizing d with
    | nil => exact h.resolve_right (by simp)
    | cons g gs ih =>
      refine ih ?_
      rcases h with h | ⟨k, hk, h⟩
      · exact .inl h.join_left
      · rcases mem_cons.1 hk with rfl | hk
        · exact .inl h.join_right
        · exact .inr ⟨k, hk, h⟩
  cases hg with
  | head => exact hfold (.inl h)
  | tail _ hg => exact hfold (.inr ⟨g, hg, h⟩)

theorem sound_switchOn {arms : List (Symbol × Goal)} (pick : S → Nat) (canFail : Bool)
    (h : Forall₂ (fun g m => g.info.Sound bound m) (arms.map Prod.snd) ms) (v : ProgVar)
    (context : Context) :
    (Goal.switchOn v arms canFail context).info.Sound bound (.switch ms pick canFail) := by
  intro σ sols hsols
  have hsols : (∃ g ∈ arms.map Prod.snd, g.info.Fits bound σ sols) ∨
      canFail = true ∧ sols = [] := by
    unfold Solver.switch at hsols
    cases hm : ms[pick σ]? with
    | some m =>
      rw [hm] at hsols
      obtain ⟨g, hg, hsound⟩ := exists_of_forall₂ h (mem_of_getElem? hm)
      exact .inl ⟨g, hg, hsound σ sols hsols⟩
    | none =>
      rw [hm] at hsols
      cases canFail with
      | true => exact .inr ⟨rfl, (Option.some.inj hsols).symm⟩
      | false => cases hsols
  rcases hsols with ⟨g, hg, hfit⟩ | ⟨rfl, rfl⟩
  · refine fits_setBranches ?_ (fun τ hτ => ⟨_, ?_, hfit.binds τ hτ⟩) _
    · have hjoined := allows_joinDeterminism hg hfit.count
      cases canFail with
      | true => exact allows_ofParts.2 ⟨Bool.noConfusion, hjoined.2⟩
      | false => exact hjoined
    · exact mem_map.2 ⟨g, hg, hfit.branch hτ⟩
  · refine fits_setBranches (i := { context, determinism := .ofParts true _, purity := _ })
      (allows_ofParts.2 ⟨Bool.noConfusion, ?_⟩) (by simp) _
    cases (Goal.joinDeterminism (arms.map Prod.snd)).maxSolutions <;> simp [MaxSolutions.Allows]

/-! ### Goals that are built -/

/-- Goals that the builders put together, with what is done for their conjuncts.
    Goals that are not put together do as is known of them. -/
inductive Built (bound : S → ProgVar → Prop) : Goal → List (Solver S) → Prop
  | atom {g : Goal} {m : Solver S} (single : g.conjuncts = [g]) (sound : g.info.Sound bound m) :
      Built bound g [m]
  | conjoin (ps : List (Goal × List (Solver S))) (h : ∀ p ∈ ps, Built bound p.1 p.2)
      (context : Context) :
      Built bound (.conjoin (ps.map Prod.fst) context) (ps.flatMap Prod.snd)
  | parallel (ps : List (Goal × List (Solver S))) (h : ∀ p ∈ ps, Built bound p.1 p.2)
      (context : Context) :
      Built bound (.parallel (ps.map Prod.fst) context) [.sequence (ps.map (.sequence ·.2))]
  | disjoin (ps : List (Goal × List (Solver S))) (h : ∀ p ∈ ps, Built bound p.1 p.2)
      (context : Context) :
      Built bound (.disjoin (ps.map Prod.fst) context) [.either (ps.map (.sequence ·.2))]
  | negate {g : Goal} {ms : List (Solver S)} (h : Built bound g ms) (context : Context) :
      Built bound (.negate g context) [.negate (.sequence ms)]
  | ifThenElse {c y e : Goal} {mc my me : List (Solver S)} (hc : Built bound c mc)
      (hy : Built bound y my) (he : Built bound e me) (context : Context) :
      Built bound (.ifThenElse c y e context)
        [.cond (.sequence mc) (.sequence my) (.sequence me)]
  | switchOn (v : ProgVar) (arms : List (Symbol × Goal × List (Solver S))) (pick : S → Nat)
      (canFail : Bool) (h : ∀ arm ∈ arms, Built bound arm.2.1 arm.2.2) (context : Context) :
      Built bound (.switchOn v (arms.map fun arm => (arm.1, arm.2.1)) canFail context)
        [.switch (arms.map (.sequence ·.2.2)) pick canFail]
  | within {g : Goal} {ms : List (Solver S)} (reason : ScopeReason) (h : Built bound g ms)
      (context : Context) : Built bound (.within reason g context) [.sequence ms]

/-- By induction on how a goal is built, its annotation is sound. -/
theorem Built.sound {g : Goal} (h : Built bound g ms) :
    Forall₂ (fun k m => k.conjuncts = [k] ∧ k.info.Sound bound m) g.conjuncts ms ∧
      g.info.Sound bound (.sequence ms) := by
  have hsingle {g : Goal} {m : Solver S} (hg : g.conjuncts = [g]) (hm : g.info.Sound bound m) :
      Forall₂ (fun k m => k.conjuncts = [k] ∧ k.info.Sound bound m) g.conjuncts [m] ∧
        g.info.Sound bound (.sequence [m]) := by
    rw [hg, Solver.sequence_single]
    exact ⟨.cons ⟨hg, hm⟩ .nil, hm⟩
  have hparts {ps : List (Goal × List (Solver S))}
      (ih : ∀ p ∈ ps, p.1.info.Sound bound (.sequence p.2)) :
      Forall₂ (fun g m => g.info.Sound bound m) (ps.map Prod.fst) (ps.map (.sequence ·.2)) :=
    forall₂_map_left_iff.2 (forall₂_map_right_iff.2 (forall₂_same.2 ih))
  induction h with
  | atom single sound => exact hsingle single sound
  | conjoin ps h context ih =>
    have hconjuncts : Forall₂ (fun k m => k.conjuncts = [k] ∧ k.info.Sound bound m)
        ((ps.map Prod.fst).flatMap Goal.conjuncts) (ps.flatMap Prod.snd) := by
      induction ps with
      | nil => exact .nil
      | cons p ps ihps =>
        obtain ⟨hp, hps⟩ := forall_mem_cons.1 ih
        exact rel_append hp.1 (ihps (fun p hp => h p (mem_cons_of_mem _ hp)) hps)
    unfold Goal.conjoin
    split
    · next k hk =>
      generalize ps.flatMap Prod.snd = ms at hconjuncts ⊢
      rw [hk] at hconjuncts
      cases hconjuncts with
      | cons hsound hnil =>
        cases hnil
        exact hsingle hsound.1 hsound.2
    · exact ⟨hconjuncts, sound_sequence (hconjuncts.imp fun _ _ h => h.2) context _⟩
  | parallel ps _ context ih =>
    exact hsingle rfl (sound_sequence (hparts fun p hp => (ih p hp).2) context _)
  | disjoin ps _ context ih =>
    refine hsingle ?_ (sound_disjoin (hparts fun p hp => (ih p hp).2) context)
    unfold Goal.disjoin
    split <;> rfl
  | negate _ context => exact hsingle rfl (sound_negate _ context)
  | ifThenElse _ _ _ context hc hy he =>
    exact hsingle rfl (sound_ifThenElse hc.2 hy.2 he.2 context)
  | switchOn v arms pick canFail _ context ih =>
    refine hsingle rfl (sound_switchOn pick canFail ?_ v context)
    rw [map_map, forall₂_map_left_iff, forall₂_map_right_iff]
    exact forall₂_same.2 fun arm harm => (ih arm harm).2
  | within reason _ context ih =>
    refine hsingle rfl fun σ sols hsols => ?_
    have hfit := ih.2 σ sols hsols
    exact ⟨hfit.count, hfit.binds, hfit.unreachable⟩

/-- A goal that does not abort has a solution if it cannot fail, and at most as many
    as is known of it. All of them bind what it is known to bind, and there is none
    if it is known not to succeed. -/
theorem annotations_hold (h : Built bound g ms) (hsols : Solver.sequence ms σ = some sols) :
    (g.info.determinism.canFail = false → sols ≠ []) ∧
      (g.info.determinism.maxSolutions = .zero → sols = []) ∧
      (g.info.determinism.maxSolutions = .one → sols.length ≤ 1) ∧
      (∀ τ ∈ sols, ∀ v ∈ g.info.bound, bound τ v) ∧
      (g.info.unreachable = true → sols = []) := by
  obtain ⟨⟨hsome, hmax⟩, hbinds, hnone⟩ := h.sound.2 σ sols hsols
  refine ⟨fun hf => length_pos_iff.1 (hsome hf), fun hz => ?_, fun ho => ?_,
    fun τ hτ v hv => hbinds τ hτ v (.inl hv), hnone⟩
  · rw [hz] at hmax
    exact length_eq_zero_iff.1 hmax
  · rwa [ho] at hmax

/-! ### An example -/

namespace SolutionsExample

/-- `X = 1 ; X = 2`. -/
def numbers : Goal := .disjoin [.intConst ⟨0⟩ 1 default, .intConst ⟨0⟩ 2 default] default

/-- States are lists of bound variables here. -/
def bindX : Solver (List ProgVar) := fun σ => some [⟨0⟩ :: σ]

theorem built_intConst (n : Int) :
    Built (fun σ v => v ∈ σ) (.intConst ⟨0⟩ n default) [bindX] := by
  refine .atom rfl fun σ sols hsols => ?_
  cases hsols
  refine ⟨⟨fun _ => Nat.zero_lt_one, le_rfl⟩, fun τ hτ v hv => ?_, fun h => by cases h⟩
  rw [mem_singleton.1 hτ, mem_cons]
  exact hv.imp_left VarSet.mem_singleton.1

theorem annotations_hold_numbers : ∃ sols : List (List ProgVar),
    Solver.either [bindX, bindX] [] = some sols ∧ numbers.info.determinism = .multi ∧ sols ≠ [] ∧
      ∀ τ ∈ sols, ∀ v ∈ numbers.info.bound, v ∈ τ := by
  have hbuilt : Built (fun σ v => v ∈ σ) numbers [.either [.sequence [bindX], .sequence [bindX]]] :=
    .disjoin [(_, [bindX]), (_, [bindX])]
      (forall_mem_cons.2 ⟨built_intConst 1, forall_mem_singleton.2 (built_intConst 2)⟩) default
  obtain ⟨hsome, -, -, hbinds, -⟩ := annotations_hold (σ := []) hbuilt rfl
  exact ⟨_, rfl, rfl, hsome rfl, hbinds⟩

end SolutionsExample

end Clausal
