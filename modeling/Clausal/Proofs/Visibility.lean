import Clausal.Proofs.Blocks
import Clausal.Proofs.Quantification

/-!
# Visible variables

Which variables are visible outside a goal that stands somewhere in another one is
told by the goals on the way to it. Each of these may make variables visible to
one of its parts (`Goal.Shows`), and may hide some (`Goal.Hides`). So a variable is
visible (`Goal.Visible`) if it is so outside the whole or is shown by a goal on the
way, and no goal below that place hides it. The body of a lambda expression is a
part as well: all that it shows is what occurs in the body or is an argument.

Quantifying leaves all goals where they are and changes nothing else of them
than their non-local variables and what lambda expressions capture
(`Goal.label`). It comes to the visible variables in every place.
-/

namespace Clausal

open List VarSet

namespace Goal

/-! ### The goals inside a goal -/

/-- The goal that a path leads to, be it in the body of a lambda expression. -/
def part? (g : Goal) : List Nat → Option Goal
  | [] => some g
  | i :: path => g.parts[i]?.bind (part? · path)

/-- A goal without its non-local variables, without what it captures and with
    nothing in the places of its parts. -/
def label : Goal → Goal
  | .conj i k gs => .conj { i with nonlocals := ∅ } k (gs.map fun _ => default)
  | .disj i gs => .disj { i with nonlocals := ∅ } (gs.map fun _ => default)
  | .switch i v f arms =>
    .switch { i with nonlocals := ∅ } v f (arms.map fun arm => (arm.1, default))
  | .negation i _ => .negation { i with nonlocals := ∅ } default
  | .ite i locals _ _ _ => .ite { i with nonlocals := ∅ } locals default default default
  | .scope i r _ => .scope { i with nonlocals := ∅ } r default
  | .lambda i lhs head _ k =>
    .lambda { i with nonlocals := ∅ } lhs { head with captured := [] } default k
  | g => g.setNonlocals ∅

/-- The goal makes the variable visible outside its part number `i`. -/
def Shows (g : Goal) (i : Nat) (v : ProgVar) : Prop :=
  match g with
  | .conj _ _ gs => ∃ j other, j ≠ i ∧ gs[j]? = some other ∧ v ∈ other.freeVars
  | .switch _ w _ _ => v = w
  | .ite _ _ c y _ => i = 0 ∧ v ∈ y.freeVars ∨ i = 1 ∧ v ∈ c.freeVars
  | .lambda _ _ head body _ => v ∈ body.freeVars ∨ v ∈ head.args
  | _ => False

/-- The goal hides a variable that is visible outside it from its part number
    `i`. -/
def Hides (g : Goal) (i : Nat) (v : ProgVar) : Prop :=
  match g with
  | .ite _ locals _ _ _ => (i = 0 ∨ i = 1) ∧ v ∈ locals
  | .scope _ r _ => v ∈ r.hidden
  | .lambda .. => True
  | _ => False

/-- No goal on the way hides the variable. -/
def Passes (v : ProgVar) (g : Goal) : List Nat → Prop
  | [] => True
  | i :: path => ¬ g.Hides i v ∧ ∀ c, g.parts[i]? = some c → Passes v c path

/-- The variable is visible outside the goal that the path leads to: it is visible
    outside the whole, or a goal above shows it to the part that the path goes on
    in, and no goal hides it on the way from there. -/
def Visible (outside : VarSet) (g : Goal) (path : List Nat) (v : ProgVar) : Prop :=
  v ∈ outside ∧ g.Passes v path ∨
    ∃ above i below around c, path = above ++ i :: below ∧ g.part? above = some around ∧
      around.parts[i]? = some c ∧ around.Shows i v ∧ c.Passes v below

variable {outside o : VarSet} {g c : Goal} {i : Nat} {path : List Nat} {v : ProgVar}

theorem visible_nil : g.Visible outside [] v ↔ v ∈ outside := by
  simp [Visible, Passes]

theorem visible_cons (hc : g.parts[i]? = some c)
    (ho : v ∈ o ↔ v ∈ outside ∧ ¬ g.Hides i v ∨ g.Shows i v) :
    g.Visible outside (i :: path) v ↔ c.Visible o path v := by
  constructor
  · rintro (⟨hv, hhides, hpasses⟩ |
      ⟨above, j, below, around, d, hpath, haround, hd, hshows, hpasses⟩)
    · exact .inl ⟨ho.2 (.inl ⟨hv, hhides⟩), hpasses c hc⟩
    · cases above with
      | nil =>
        -- The first goal of all shows the variable.
        obtain ⟨rfl, rfl⟩ := List.cons.inj hpath
        cases haround
        rw [hc, Option.some.injEq] at hd
        exact .inl ⟨ho.2 (.inr hshows), hd ▸ hpasses⟩
      | cons k above =>
        obtain ⟨rfl, rfl⟩ := List.cons.inj hpath
        rw [part?, hc, Option.bind_some] at haround
        exact .inr ⟨above, j, below, around, d, rfl, haround, hd, hshows, hpasses⟩
  · have hpass : ∀ {d}, g.parts[i]? = some d → d = c := fun hd => by
      rw [hc, Option.some.injEq] at hd
      exact hd.symm
    rintro (⟨hv, hpasses⟩ | ⟨above, j, below, around, d, rfl, haround, hd, hshows, hpasses⟩)
    · rcases ho.1 hv with ⟨hv, hhides⟩ | hshows
      · exact .inl ⟨hv, hhides, fun d hd => hpass hd ▸ hpasses⟩
      · exact .inr ⟨[], i, path, g, c, rfl, rfl, hc, hshows, hpasses⟩
    · refine .inr ⟨i :: above, j, below, around, d, rfl, ?_, hd, hshows, hpasses⟩
      rw [part?, hc, Option.bind_some, haround]

/-! ### Quantifying part by part -/

theorem length_requantifyEach (outsides : List VarSet) (gs : List Goal) :
    (requantifyEach outsides gs).length = gs.length := by
  induction gs generalizing outsides with
  | nil => rw [requantifyEach]
  | cons g gs ih => cases outsides <;> rw [requantifyEach, length_cons, length_cons, ih]

theorem getElem?_requantifyEach (outside : VarSet) (gs : List Goal) (i : Nat) :
    ∃ o, (requantifyEach (conjunctOutsides outside gs) gs)[i]? = gs[i]?.map (requantify o) ∧
      ∀ v, v ∈ o ↔ v ∈ outside ∨ ∃ j other, j ≠ i ∧ gs[j]? = some other ∧ v ∈ other.freeVars := by
  induction gs generalizing outside i with
  | nil => exact ⟨outside, by rw [requantifyEach]; rfl, by simp⟩
  | cons g gs ih =>
    rw [requantifyEach_conjunctOutsides]
    cases i with
    | zero =>
      refine ⟨outside ∪ freeVarsList gs, rfl, fun v => ?_⟩
      rw [mem_union, mem_freeVarsList]
      refine or_congr_right ⟨?_, ?_⟩
      · rintro ⟨other, hother, hv⟩
        obtain ⟨j, hj⟩ := mem_iff_getElem?.1 hother
        exact ⟨j + 1, other, by simp, hj, hv⟩
      · rintro ⟨_ | j, other, hj, hother, hv⟩
        · exact absurd rfl hj
        · exact ⟨other, mem_of_getElem? hother, hv⟩
    | succ i =>
      obtain ⟨o, hi, ho⟩ := ih (outside ∪ g.freeVars) i
      refine ⟨o, hi, fun v => ?_⟩
      rw [ho, mem_union, or_assoc]
      refine or_congr_right ⟨?_, ?_⟩
      · rintro (hv | ⟨j, other, hj, hother, hv⟩)
        · exact ⟨0, g, by simp, rfl, hv⟩
        · exact ⟨j + 1, other, by simpa using hj, hother, hv⟩
      · rintro ⟨_ | j, other, hj, hother, hv⟩
        · cases hother
          exact .inl hv
        · exact .inr ⟨j, other, by simpa using hj, hother, hv⟩

/-- Each part is quantified with what it sees from outside. -/
theorem parts_requantify (outside : VarSet) (g : Goal) (i : Nat) :
    ∃ o, (g.requantify outside).parts[i]? = g.parts[i]?.map (requantify o) ∧
      ∀ v, v ∈ o ↔ v ∈ outside ∧ ¬ g.Hides i v ∨ g.Shows i v := by
  cases g with
  | conj info k gs =>
    obtain ⟨o, hi, ho⟩ := getElem?_requantifyEach outside gs i
    exact ⟨o, by rw [requantify]; exact hi, by simpa [Hides, Shows] using ho⟩
  | disj info gs =>
    refine ⟨outside, ?_, by simp [Hides, Shows]⟩
    rw [requantify, requantifyList_eq_map]
    exact List.getElem?_map
  | switch info w f arms =>
    refine ⟨outside.insert w, ?_, by simp [Hides, Shows, or_comm]⟩
    rw [requantify, requantifyArms_eq_map]
    show (List.map _ _)[i]? = (List.map _ _)[i]?.map _
    simp [Function.comp_def]
  | negation info g =>
    refine ⟨outside, ?_, by simp [Hides, Shows]⟩
    rw [requantify]
    cases i <;> rfl
  | ite info locals c y n =>
    rw [requantify]
    rcases i with _ | _ | _ | i
    · exact ⟨_, rfl, by simp [Hides, Shows]⟩
    · exact ⟨_, rfl, by simp [Hides, Shows]⟩
    · exact ⟨outside, rfl, by simp [Hides, Shows]⟩
    · exact ⟨outside, rfl, by simp [Hides, Shows]⟩
  | scope info r g =>
    refine ⟨outside.eraseMany r.hidden, ?_, by simp [Hides, Shows]⟩
    rw [requantify]
    cases i <;> rfl
  | lambda info lhs head body k =>
    refine ⟨(capturedVars head body).insertMany head.args, ?_, fun v => ?_⟩
    · rw [requantify]
      cases i <;> rfl
    · simp only [mem_insertMany, capturedVars, mem_eraseMany, Hides, Shows]
      tauto
  | call | genericCall | foreign | unify =>
    exact ⟨outside, by rw [requantify]; rfl, by simp [Hides, Shows]⟩

/-- Quantifying a goal quantifies what a path leads to, against what is visible
    outside that. -/
theorem part?_requantify (outside : VarSet) (g : Goal) (path : List Nat) :
    ∃ o, (g.requantify outside).part? path = (g.part? path).map (requantify o) ∧
      ∀ s, g.part? path = some s → ∀ v, v ∈ o ↔ g.Visible outside path v := by
  induction path generalizing outside g with
  | nil => exact ⟨outside, rfl, fun _ _ _ => visible_nil.symm⟩
  | cons i path ih =>
    obtain ⟨o₁, hparts, ho₁⟩ := parts_requantify outside g i
    rw [part?, part?, hparts]
    cases hc : g.parts[i]? with
    | none => exact ⟨outside, rfl, fun s hs => by cases hs⟩
    | some c =>
      obtain ⟨o, hpart, ho⟩ := ih o₁ c
      refine ⟨o, hpart, fun s hs v => ?_⟩
      rw [ho s hs, visible_cons hc (ho₁ v)]

/-! ### What quantifying comes to -/

theorem label_setNonlocals (vars : VarSet) (g : Goal) : (g.setNonlocals vars).label = g.label := by
  cases g <;> rfl

theorem label_requantify (outside : VarSet) (g : Goal) :
    (g.requantify outside).label = g.label := by
  cases g with
  | conj info k gs =>
    rw [requantify, quantified, label_setNonlocals, label, label, map_const', map_const',
      length_requantifyEach]
  | disj info gs =>
    rw [requantify, quantified, label_setNonlocals, label, label, requantifyList_eq_map,
      map_map]
    rfl
  | switch info w f arms =>
    rw [requantify, quantified, label_setNonlocals, label, label, requantifyArms_eq_map,
      map_map]
    rfl
  | negation | ite | scope | lambda => rw [requantify, quantified, label_setNonlocals]; rfl
  | call | genericCall | foreign | unify => rw [requantify, quantified, label_setNonlocals]

theorem requantify_requantify (outside : VarSet) (g : Goal) :
    (g.requantify outside).requantify outside = g.requantify outside :=
  (requantify_eq_self_iff outside _).2 (quantified_requantify outside g)

/-- Quantifying changes nothing of the goals inside a goal but their non-local
    variables and what they capture, and not which variables occur free in them;
    doing it twice changes no more. Afterwards the non-local variables of the goal
    in each place are those that occur free in it and are visible outside it. -/
theorem nonlocals_requantify (outside : VarSet) (g : Goal) :
    (∀ path, ((g.requantify outside).part? path).map label = (g.part? path).map label) ∧
    (∀ path, ((g.requantify outside).part? path).map freeVars = (g.part? path).map freeVars) ∧
    (g.requantify outside).requantify outside = g.requantify outside ∧
    ∀ path s, (g.requantify outside).part? path = some s → ∀ v,
      v ∈ s.info.nonlocals ↔ v ∈ s.freeVars ∧ (g.requantify outside).Visible outside path v := by
  refine ⟨fun path => ?_, fun path => ?_, requantify_requantify outside g, fun path s hs v => ?_⟩
  · obtain ⟨o, hpart, -⟩ := part?_requantify outside g path
    rw [hpart, Option.map_map]
    exact congrArg (Option.map · _) (funext (label_requantify o))
  · obtain ⟨o, hpart, -⟩ := part?_requantify outside g path
    rw [hpart, Option.map_map]
    exact congrArg (Option.map · _) (funext (freeVars_requantify o))
  · -- The goal is quantified anew, so what the path leads to is as well.
    obtain ⟨o, hpart, ho⟩ := part?_requantify outside (g.requantify outside) path
    rw [requantify_requantify, hs, Option.map_some, Option.some.injEq] at hpart
    have hnarrow := (quantified_requantify o s).narrow
    rw [← hpart, Narrow] at hnarrow
    rw [hnarrow, VarSet.mem_inter, ho s hs]

/-- `B = A, some [C] (C = B, D = C)`. -/
def hiddenCopy : Goal :=
  .conj {} .plain [.assign ⟨1⟩ ⟨0⟩ {}, .scope {} (.exist [⟨2⟩])
    (.conj {} .plain [.assign ⟨2⟩ ⟨1⟩ {}, .assign ⟨3⟩ ⟨2⟩ {}])]

/-- Each of the inner copies sees the other one's `C`, and around the two it is
    hidden. -/
theorem nonlocals_requantify_hiddenCopy :
    (hiddenCopy.requantify (.ofList [⟨0⟩, ⟨3⟩])).Visible (.ofList [⟨0⟩, ⟨3⟩]) [1, 0, 0] ⟨2⟩ ∧
      ¬ (hiddenCopy.requantify (.ofList [⟨0⟩, ⟨3⟩])).Visible (.ofList [⟨0⟩, ⟨3⟩]) [1, 0] ⟨2⟩ := by
  obtain ⟨-, -, -, h⟩ := nonlocals_requantify (.ofList [⟨0⟩, ⟨3⟩]) hiddenCopy
  constructor
  · exact ((h [1, 0, 0] _ rfl ⟨2⟩).1 (by decide +kernel)).2
  · intro hvisible
    exact absurd ((h [1, 0] _ rfl ⟨2⟩).2 ⟨by decide +kernel, hvisible⟩) (by decide +kernel)

end Goal

end Clausal
