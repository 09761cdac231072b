import Clausal.Name

/-!
# Sets of variables

A finite set of program variables, listed in ascending order. The order is
part of the type, so a set has one listing and two sets with the same members
are equal (`VarSet.ext`): comparing the annotations of two goals is comparing
their members.

Every operation is characterised by its members (`mem_insert`, `mem_union`,
`mem_unions`, `mem_inter`, `mem_diff`, `mem_eraseMany`, `mem_ofList`).
-/

namespace Clausal

instance : LT ProgVar := ⟨fun v w => v.index < w.index⟩

instance (v w : ProgVar) : Decidable (v < w) := inferInstanceAs (Decidable (v.index < w.index))

theorem ProgVar.lt_iff {v w : ProgVar} : v < w ↔ v.index < w.index := Iff.rfl

theorem ProgVar.eq_of_not_lt {v w : ProgVar} (h₁ : ¬ v < w) (h₂ : ¬ w < v) : v = w := by
  cases v; cases w
  simp only [ProgVar.lt_iff] at h₁ h₂
  congr
  omega

/-- A finite set of program variables. -/
structure VarSet where
  /-- The members, in ascending order. -/
  toList : List ProgVar := []
  ascending : toList.Pairwise (· < ·) := by simp
deriving DecidableEq

namespace VarSet

instance : Inhabited VarSet := ⟨{}⟩

instance : EmptyCollection VarSet := ⟨{}⟩

instance : Membership ProgVar VarSet := ⟨fun s v => v ∈ s.toList⟩

instance (v : ProgVar) (s : VarSet) : Decidable (v ∈ s) :=
  inferInstanceAs (Decidable (v ∈ s.toList))

theorem mem_iff {v : ProgVar} {s : VarSet} : v ∈ s ↔ v ∈ s.toList := Iff.rfl

/-- The ascending list of `l` with `v` in it. -/
def insertInto (v : ProgVar) : List ProgVar → List ProgVar
  | [] => [v]
  | w :: l => if v < w then v :: w :: l else if w < v then w :: insertInto v l else w :: l

/-- Merging the ascending list `w :: l` with another: `rest` merges `l`. -/
def mergeHead (w : ProgVar) (rest : List ProgVar → List ProgVar) : List ProgVar → List ProgVar
  | [] => w :: rest []
  | v :: l =>
    if w < v then w :: rest (v :: l)
    else if v < w then v :: mergeHead w rest l
    else v :: rest l

/-- The members of two ascending lists, in ascending order. -/
def merge : List ProgVar → List ProgVar → List ProgVar
  | [] => fun l => l
  | w :: l => mergeHead w (merge l)

theorem mem_insertInto {v w : ProgVar} {l : List ProgVar} :
    v ∈ insertInto w l ↔ v = w ∨ v ∈ l := by
  induction l with
  | nil => simp [insertInto]
  | cons u l ih =>
    unfold insertInto
    split
    · simp
    · split
      · simp [ih, or_left_comm]
      · next h₁ h₂ => simp [ProgVar.eq_of_not_lt h₁ h₂]

theorem mem_mergeHead {v w : ProgVar} {rest : List ProgVar → List ProgVar} {p : Prop}
    (hr : ∀ l, v ∈ rest l ↔ p ∨ v ∈ l) (l : List ProgVar) :
    v ∈ mergeHead w rest l ↔ (v = w ∨ p) ∨ v ∈ l := by
  induction l with
  | nil => simp [mergeHead, hr]
  | cons u l ih =>
    unfold mergeHead
    split
    · simp [hr, or_assoc]
    · split
      · simp [ih, or_left_comm]
      · next h₁ h₂ =>
        have := ProgVar.eq_of_not_lt h₁ h₂
        subst this
        simp only [List.mem_cons, hr]
        grind

theorem mem_merge {v : ProgVar} {l l' : List ProgVar} :
    v ∈ merge l l' ↔ v ∈ l ∨ v ∈ l' := by
  induction l generalizing l' with
  | nil => simp [merge]
  | cons w l ih => simp only [merge, List.mem_cons, mem_mergeHead (fun _ => ih)]

theorem pairwise_insertInto {v : ProgVar} {l : List ProgVar} (h : l.Pairwise (· < ·)) :
    (insertInto v l).Pairwise (· < ·) := by
  induction l with
  | nil => simp [insertInto]
  | cons w l ih =>
    obtain ⟨hw, hl⟩ := List.pairwise_cons.1 h
    unfold insertInto
    split
    · next hv =>
      refine List.pairwise_cons.2 ⟨fun u hu => ?_, h⟩
      rcases List.mem_cons.1 hu with rfl | hu
      · exact hv
      · exact Nat.lt_trans hv (hw u hu)
    · split
      · next hv =>
        refine List.pairwise_cons.2 ⟨fun u hu => ?_, ih hl⟩
        rcases mem_insertInto.1 hu with rfl | hu
        · exact hv
        · exact hw u hu
      · exact h

theorem pairwise_merge {l l' : List ProgVar} (h : l.Pairwise (· < ·)) (h' : l'.Pairwise (· < ·)) :
    (merge l l').Pairwise (· < ·) := by
  induction l generalizing l' with
  | nil => exact h'
  | cons w l ih =>
    obtain ⟨hw, hl⟩ := List.pairwise_cons.1 h
    simp only [merge]
    induction l' with
    | nil =>
      refine List.pairwise_cons.2 ⟨fun u hu => ?_, ih hl .nil⟩
      simpa using hw u (by simpa using mem_merge.1 hu)
    | cons v l' ih' =>
      obtain ⟨hv, hl'⟩ := List.pairwise_cons.1 h'
      unfold mergeHead
      split
      · next hlt =>
        refine List.pairwise_cons.2 ⟨fun u hu => ?_, ih hl h'⟩
        rcases mem_merge.1 hu with hu | hu
        · exact hw u hu
        · rcases List.mem_cons.1 hu with rfl | hu
          · exact hlt
          · exact Nat.lt_trans hlt (hv u hu)
      · split
        · next hlt =>
          refine List.pairwise_cons.2 ⟨fun u hu => ?_, ih' hl'⟩
          rcases (mem_mergeHead (fun _ => mem_merge) l').1 hu with (rfl | hu) | hu
          · exact hlt
          · exact Nat.lt_trans hlt (hw u hu)
          · exact hv u hu
        · next h₁ h₂ =>
          have := ProgVar.eq_of_not_lt h₁ h₂
          subst this
          refine List.pairwise_cons.2 ⟨fun u hu => ?_, ih hl hl'⟩
          rcases mem_merge.1 hu with hu | hu
          · exact hw u hu
          · exact hv u hu

/-- The members of the ascending list `l` that are in another ascending list,
    or those that are not. -/
def sift (wanted : Bool) : (l others : List ProgVar) → List ProgVar
  | [], _ => []
  | v :: l, others =>
    let others := others.dropWhile (· < v)
    if (others.head? == some v) == wanted then v :: sift wanted l others else sift wanted l others

theorem sift_sublist (wanted : Bool) (l others : List ProgVar) :
    (sift wanted l others).Sublist l := by
  induction l generalizing others with
  | nil => exact .slnil
  | cons v l ih =>
    simp only [sift]
    split
    · exact (ih _).cons_cons v
    · exact (ih _).cons v

/-- Only smaller variables are dropped from the front of an ascending list. -/
theorem mem_dropWhile_lt {v w : ProgVar} {l : List ProgVar} (h : l.Pairwise (· < ·))
    (hv : ¬ v < w) : v ∈ l.dropWhile (· < w) ↔ v ∈ l := by
  induction l with
  | nil => simp
  | cons u l ih =>
    obtain ⟨-, hl⟩ := List.pairwise_cons.1 h
    by_cases hu : u < w
    · have : v ≠ u := fun e => hv (e ▸ hu)
      simp [hu, ih hl, this]
    · simp [hu]

/-- A variable in an ascending list without smaller ones comes first. -/
theorem head?_dropWhile_lt {v : ProgVar} {l : List ProgVar} (h : l.Pairwise (· < ·)) :
    (l.dropWhile (· < v)).head? = some v ↔ v ∈ l := by
  induction l with
  | nil => simp
  | cons u l ih =>
    obtain ⟨hu, hl⟩ := List.pairwise_cons.1 h
    by_cases huv : u < v
    · have : v ≠ u := fun e => Nat.lt_irrefl _ (ProgVar.lt_iff.1 (e ▸ huv))
      simp [huv, ih hl, this]
    · have hvl : v ∉ l := fun hm => huv (hu v hm)
      simp [huv, hvl, eq_comm]

theorem mem_sift {wanted : Bool} {v : ProgVar} {l others : List ProgVar}
    (hl : l.Pairwise (· < ·)) (ho : others.Pairwise (· < ·)) :
    v ∈ sift wanted l others ↔ v ∈ l ∧ (decide (v ∈ others) = wanted) := by
  induction l generalizing others with
  | nil => simp [sift]
  | cons u l ih =>
    obtain ⟨hu, hl⟩ := List.pairwise_cons.1 hl
    have hd : (others.dropWhile (· < u)).Pairwise (· < ·) :=
      ho.sublist (List.dropWhile_sublist _)
    have hhead : ((others.dropWhile (· < u)).head? == some u) = decide (u ∈ others) := by
      rw [Bool.eq_iff_iff, beq_iff_eq, decide_eq_true_iff, head?_dropWhile_lt ho]
    have hrest : ∀ w ∈ l, (w ∈ others.dropWhile (· < u) ↔ w ∈ others) := fun w hw =>
      mem_dropWhile_lt ho fun h => Nat.lt_asymm (ProgVar.lt_iff.1 h) (ProgVar.lt_iff.1 (hu w hw))
    have htail : v ∈ sift wanted l (others.dropWhile (· < u)) ↔
        v ∈ l ∧ (decide (v ∈ others) = wanted) := by
      rw [ih hl hd]
      refine and_congr_right fun hv => ?_
      rw [decide_eq_decide.2 (hrest v hv)]
    simp only [sift, hhead, beq_iff_eq, List.mem_cons]
    split
    · next h =>
      rw [List.mem_cons, htail]
      constructor
      · rintro (rfl | ⟨hv, hw⟩)
        · exact ⟨.inl rfl, h⟩
        · exact ⟨.inr hv, hw⟩
      · rintro ⟨rfl | hv, hw⟩
        · exact .inl rfl
        · exact .inr ⟨hv, hw⟩
    · next h =>
      rw [htail]
      constructor
      · rintro ⟨hv, hw⟩
        exact ⟨.inr hv, hw⟩
      · rintro ⟨rfl | hv, hw⟩
        · exact absurd hw h
        · exact ⟨hv, hw⟩

/-- The set with `v` added. -/
def insert (s : VarSet) (v : ProgVar) : VarSet :=
  ⟨insertInto v s.toList, pairwise_insertInto s.ascending⟩

/-- The set whose only member is `v`. -/
def singleton (v : ProgVar) : VarSet := ⟨[v], by simp⟩

/-- The members of either set. -/
def union (s t : VarSet) : VarSet :=
  ⟨merge s.toList t.toList, pairwise_merge s.ascending t.ascending⟩

instance : Union VarSet := ⟨union⟩

/-- The members of some set of a list. -/
def unions (ss : List VarSet) : VarSet := ss.foldr (· ∪ ·) ∅

/-- The members that satisfy `p`. -/
def filter (s : VarSet) (p : ProgVar → Bool) : VarSet :=
  ⟨s.toList.filter p, s.ascending.filter p⟩

/-- The members of both sets. -/
def inter (s t : VarSet) : VarSet :=
  ⟨sift true s.toList t.toList, s.ascending.sublist (sift_sublist ..)⟩

instance : Inter VarSet := ⟨inter⟩

/-- The members of `s` that are not in `t`. -/
def diff (s t : VarSet) : VarSet :=
  ⟨sift false s.toList t.toList, s.ascending.sublist (sift_sublist ..)⟩

instance : SDiff VarSet := ⟨diff⟩

/-- The set with the variables of a list added. -/
def insertMany (s : VarSet) (vs : List ProgVar) : VarSet := vs.foldl insert s

/-- The variables of a list. -/
def ofList (vs : List ProgVar) : VarSet := (∅ : VarSet).insertMany vs

/-- The set without the variables of a list. -/
def eraseMany (s : VarSet) (vs : List ProgVar) : VarSet := s.filter fun v => !decide (v ∈ vs)

/-! ### Members of each operation -/

variable {u v : ProgVar} {s t : VarSet}

@[simp] theorem not_mem_empty : v ∉ (∅ : VarSet) := List.not_mem_nil

@[simp] theorem mem_insert : v ∈ s.insert u ↔ v = u ∨ v ∈ s := mem_insertInto

@[simp] theorem mem_singleton : v ∈ singleton u ↔ v = u := by simp [mem_iff, singleton]

@[simp] theorem mem_union : v ∈ s ∪ t ↔ v ∈ s ∨ v ∈ t := mem_merge

@[simp] theorem mem_unions {ss : List VarSet} : v ∈ unions ss ↔ ∃ s ∈ ss, v ∈ s := by
  induction ss with
  | nil => simp [unions]
  | cons s ss ih =>
    show v ∈ s ∪ unions ss ↔ _
    simp [ih]

@[simp] theorem mem_filter {p : ProgVar → Bool} : v ∈ s.filter p ↔ v ∈ s ∧ p v = true :=
  List.mem_filter

@[simp] theorem mem_inter : v ∈ s ∩ t ↔ v ∈ s ∧ v ∈ t := by
  show v ∈ sift true s.toList t.toList ↔ _
  rw [mem_sift s.ascending t.ascending, decide_eq_true_iff]
  rfl

@[simp] theorem mem_diff : v ∈ s \ t ↔ v ∈ s ∧ v ∉ t := by
  show v ∈ sift false s.toList t.toList ↔ _
  rw [mem_sift s.ascending t.ascending, decide_eq_false_iff_not]
  rfl

@[simp] theorem mem_insertMany {vs : List ProgVar} : v ∈ s.insertMany vs ↔ v ∈ vs ∨ v ∈ s := by
  induction vs generalizing s with
  | nil => simp [insertMany]
  | cons w vs ih =>
    show v ∈ (s.insert w).insertMany vs ↔ _
    simp [ih, or_left_comm, or_assoc]

@[simp] theorem mem_ofList {vs : List ProgVar} : v ∈ ofList vs ↔ v ∈ vs := by
  simp [ofList]

@[simp] theorem mem_eraseMany {vs : List ProgVar} : v ∈ s.eraseMany vs ↔ v ∈ s ∧ v ∉ vs := by
  simp [eraseMany]

/-- Two ascending lists with the same members are equal. -/
theorem eq_of_ascending {l l' : List ProgVar} (h : l.Pairwise (· < ·)) (h' : l'.Pairwise (· < ·))
    (hm : ∀ v, v ∈ l ↔ v ∈ l') : l = l' := by
  induction l generalizing l' with
  | nil =>
    cases l' with
    | nil => rfl
    | cons w l' => exact absurd ((hm w).2 List.mem_cons_self) List.not_mem_nil
  | cons v l ih =>
    cases l' with
    | nil => exact absurd ((hm v).1 List.mem_cons_self) List.not_mem_nil
    | cons w l' =>
      obtain ⟨hv, hl⟩ := List.pairwise_cons.1 h
      obtain ⟨hw, hl'⟩ := List.pairwise_cons.1 h'
      -- The least members agree: each is in the other list.
      have hvw : v = w := by
        apply ProgVar.eq_of_not_lt
        · intro hlt
          rcases List.mem_cons.1 ((hm v).1 List.mem_cons_self) with rfl | hmem
          · exact Nat.lt_irrefl _ hlt
          · exact Nat.lt_asymm hlt (hw v hmem)
        · intro hlt
          rcases List.mem_cons.1 ((hm w).2 List.mem_cons_self) with rfl | hmem
          · exact Nat.lt_irrefl _ hlt
          · exact Nat.lt_asymm hlt (hv w hmem)
      subst hvw
      congr 1
      refine ih hl hl' fun u => ⟨fun hu => ?_, fun hu => ?_⟩
      · rcases List.mem_cons.1 ((hm u).1 (List.mem_cons_of_mem _ hu)) with rfl | hmem
        · exact absurd (hv u hu) (Nat.lt_irrefl _)
        · exact hmem
      · rcases List.mem_cons.1 ((hm u).2 (List.mem_cons_of_mem _ hu)) with rfl | hmem
        · exact absurd (hw u hu) (Nat.lt_irrefl _)
        · exact hmem

/-- A set is its members. -/
@[ext] theorem ext (h : ∀ v, v ∈ s ↔ v ∈ t) : s = t := by
  cases s; cases t
  congr
  exact eq_of_ascending (by assumption) (by assumption) h

end VarSet

end Clausal
