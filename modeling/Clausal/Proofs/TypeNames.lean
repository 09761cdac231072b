import Clausal.Module.Category
import Clausal.Proofs.Substitution

/-!
# Types that are names for types

A name for a type is looked through by putting its arguments in for its
parameters. The variables of the arguments are numbered like the parameters, and
what is put in is looked at again, so that a variable of an argument may be taken
for a parameter. That happens unless every variable of the arguments stands for
itself (`Subst.instantiate?_eq_image_iff`).

Where no name is used in what it stands for (`Module.ProperNames`), names are
looked through in the end. Either nothing is taken for a parameter, and the trail
from the head is shorter by one name (`Module.headTrail_name`); or a variable is,
and is gone (`Module.expandName_cases`).
-/

namespace Clausal

open List Option Ty

variable {t : Ty} {params : List TypeVar} {v w : TypeVar} {k : Nat} {fuel i d : Nat} {c' : TypeCtor}
  {a : Ty}

/-! ### Putting in types -/

namespace Ty

mutual

theorem mapVars?_isSome {f : TypeVar → Option Ty} :
    ∀ {t u : Ty}, t.mapVars? f = some u → ∀ v ∈ t.occurrences, (f v).isSome
  | .var w, u, h, v, hv => by
    obtain rfl : v = w := by simpa [occurrences] using hv
    exact isSome_iff_exists.2 ⟨u, h⟩
  | .defined _ ts, u, h, v, hv => by
    obtain ⟨us, hus, -⟩ := bind_eq_some_iff.1 h
    exact mapVarsList?_isSome hus v hv
  | .tuple ts, u, h, v, hv => by
    obtain ⟨us, hus, -⟩ := bind_eq_some_iff.1 h
    exact mapVarsList?_isSome hus v hv
  | .higherOrder _ ts, u, h, v, hv => by
    obtain ⟨us, hus, -⟩ := bind_eq_some_iff.1 h
    exact mapVarsList?_isSome hus v hv

theorem mapVarsList?_isSome {f : TypeVar → Option Ty} :
    ∀ {ts us : List Ty}, mapVarsList? f ts = some us → ∀ v ∈ occurrencesList ts, (f v).isSome
  | [], _, _, v, hv => by cases hv
  | t :: ts, us, h, v, hv => by
    obtain ⟨u, hu, h⟩ := bind_eq_some_iff.1 h
    obtain ⟨us', hus, -⟩ := bind_eq_some_iff.1 h
    rcases mem_append.1 hv with hv | hv
    · exact mapVars?_isSome hu v hv
    · exact mapVarsList?_isSome hus v hv

end

theorem eq_mapVars_of_mapVars? {f : TypeVar → Option Ty} (h : t.mapVars? f = some u) :
    (∀ v ∈ t.occurrences, f v = some ((f v).getD (.var v))) ∧
      u = t.mapVars fun v => (f v).getD (.var v) := by
  have hsome : ∀ v ∈ t.occurrences, f v = some ((f v).getD (.var v)) := by
    intro v hv
    obtain ⟨a, ha⟩ := isSome_iff_exists.1 (mapVars?_isSome h v hv)
    rw [ha, getD_some]
  exact ⟨hsome, Option.some.inj (h.symm.trans (mapVars?_eq_some t hsome))⟩

mutual

theorem eq_of_mapVars_eq {f g : TypeVar → Ty} :
    ∀ t : Ty, t.mapVars f = t.mapVars g → ∀ v ∈ t.occurrences, f v = g v
  | .var w, h, v, hv => by
    obtain rfl : v = w := by simpa [occurrences] using hv
    exact h
  | .defined _ ts, h, v, hv => eq_of_mapVarsList_eq ts (Ty.defined.inj h).2 v hv
  | .tuple ts, h, v, hv => eq_of_mapVarsList_eq ts (Ty.tuple.inj h) v hv
  | .higherOrder _ ts, h, v, hv => eq_of_mapVarsList_eq ts (Ty.higherOrder.inj h).2 v hv

theorem eq_of_mapVarsList_eq {f g : TypeVar → Ty} :
    ∀ ts : List Ty, mapVarsList f ts = mapVarsList g ts → ∀ v ∈ occurrencesList ts, f v = g v
  | [], _, v, hv => by cases hv
  | t :: ts, h, v, hv => by
    obtain ⟨ht, hts⟩ := List.cons.inj h
    rcases mem_append.1 hv with hv | hv
    · exact eq_of_mapVars_eq t ht v hv
    · exact eq_of_mapVarsList_eq ts hts v hv

end

end Ty

namespace Subst

variable {s : Subst} {u : Ty}

theorem fixes_of_resolve? (h : s.resolve? fuel v = some u) (hw : w ∈ u.occurrences) :
    s.Fixes w ∧ (w = v ∨ ∃ x a, s.find? x = some a ∧ w ∈ a.occurrences) := by
  induction fuel generalizing v u with
  | zero => cases h
  | succ fuel ih =>
    rw [resolve?] at h
    cases hv : s.find? v with
    | none =>
      rw [hv] at h
      cases h
      obtain rfl : w = v := by simpa [Ty.occurrences] using hw
      exact ⟨.inl hv, .inl rfl⟩
    | some t =>
      simp only [hv] at h
      split at h
      · next ht =>
        cases h
        subst ht
        obtain rfl : w = v := by simpa [Ty.occurrences] using hw
        exact ⟨.inr hv, .inl rfl⟩
      · obtain ⟨hsome, rfl⟩ := eq_mapVars_of_mapVars? h
        obtain ⟨x, hx, hw⟩ := (mem_occurrences_mapVars t).1 hw
        obtain ⟨hfix, heq | hfrom⟩ := ih (hsome x hx) hw
        · exact ⟨hfix, .inr ⟨v, t, hv, heq ▸ hx⟩⟩
        · exact ⟨hfix, .inr hfrom⟩

/-- Bindings are put in once exactly if the variables of what is put in stand for
    themselves. -/
theorem instantiate?_eq_image_iff (s : Subst) (t : Ty) :
    s.instantiate? t = some (t.mapVars s.image) ↔
      ∀ v ∈ t.occurrences, ∀ a, s.find? v = some a → ∀ w ∈ a.occurrences, s.Fixes w := by
  constructor
  · intro h v hv a ha w hw
    obtain ⟨hsome, heq⟩ := eq_mapVars_of_mapVars? h
    have himage := eq_of_mapVars_eq t heq v hv
    rw [image, ha, getD_some] at himage
    exact (fixes_of_resolve? (hsome v hv) (himage ▸ hw)).1
  · intro h
    exact Ty.mapVars?_eq_some t fun v hv => resolve?_eq_image_of_fixes (h v hv)

end Subst

/-! ### Parameters -/

theorem paramNumber?_append (params : List TypeVar) (p v : TypeVar) :
    paramNumber? (params ++ [p]) v =
      if p = v then some params.length else paramNumber? params v := by
  simp only [paramNumber?, zipIdx_append, filter_append]
  by_cases h : p = v <;> simp [h]

theorem paramNumber?_isSome (h : v ∈ params) : (paramNumber? params v).isSome := by
  induction params using List.reverseRecOn with
  | nil => cases h
  | append_singleton params p ih =>
    rw [paramNumber?_append]
    split
    · rfl
    · next hne => exact ih (by simpa [Ne.symm hne] using h)

theorem paramNumber?_lt (h : paramNumber? params v = some i) : i < params.length := by
  induction params using List.reverseRecOn with
  | nil => cases h
  | append_singleton params p ih =>
    rw [paramNumber?_append] at h
    rw [length_append]
    split at h
    · cases h
      exact Nat.lt_succ_self _
    · exact Nat.lt_succ_of_lt (ih h)

theorem find?_params {args : List Ty} (h : params.length = args.length) (v : TypeVar) :
    (Assoc.ofList (params.zip args)).find? v =
      (paramNumber? params v).bind (args[·]?) := by
  rw [Assoc.find?_ofList]
  induction params using List.reverseRecOn generalizing args with
  | nil => rfl
  | append_singleton params p ih =>
    obtain ⟨args, a, rfl⟩ : ∃ args' a, args = args' ++ [a] := by
      rcases eq_nil_or_concat args with rfl | ⟨args', a, rfl⟩
      · simp at h
      · exact ⟨args', a, concat_eq_append⟩
    have hlen : params.length = args.length := by simpa using h
    rw [zip_append hlen, paramNumber?_append, zip_cons_cons, zip_nil_right,
      reverse_append, reverse_singleton, singleton_append, Assoc.firstValue, ih hlen]
    split
    · rw [bind_some, hlen]
      simp
    · cases hi : paramNumber? params v with
      | none => rfl
      | some i =>
        rw [bind_some, bind_some,
          List.getElem?_append_left (hlen ▸ paramNumber?_lt hi)]

/-! ### Trails -/

namespace NameTrail

@[simp] theorem behind_zero (t : NameTrail) : t.behind 0 = t := by cases t <;> simp [behind]

theorem behind_andThen (t : NameTrail) (k : Nat) (args : Nat → NameTrail) :
    (t.behind k).andThen args = (t.andThen args).behind k := by
  cases t with
  | param i n => cases h : args i <;> simp [behind, andThen, h, Nat.add_assoc]
  | _ => rfl

theorem andThen_andThen (t : NameTrail) (args args' : Nat → NameTrail) :
    (t.andThen args).andThen args' = t.andThen fun i => (args i).andThen args' := by
  cases t with
  | param i n => exact behind_andThen (args i) n args'
  | _ => rfl

theorem names?_behind (t : NameTrail) (k : Nat) : (t.behind k).names? = t.names?.map (k + ·) := by
  cases t <;> rfl

theorem names?_isSome {t : NameTrail} : t.names?.isSome ↔ t ≠ .circle := by
  cases t <;> simp [names?]

theorem andThen_ne_circle {t : NameTrail} {args : Nat → NameTrail} (ht : t ≠ .circle)
    (hargs : ∀ i, args i ≠ .circle) : t.andThen args ≠ .circle := by
  cases t with
  | type k => simp [andThen]
  | circle => exact absurd rfl ht
  | param i k =>
    have hi := hargs i
    rw [andThen]
    cases h : args i with
    | circle => exact absurd h hi
    | _ => simp [behind]

end NameTrail

namespace Ty

variable {follow follow' : TypeCtor → Option NameTrail} {params' : List TypeVar}

mutual

/-- The constructors of defined types in a type. -/
def ctors : Ty → List TypeCtor
  | .var _ => []
  | .defined n ts => ⟨n, ts.length⟩ :: ctorsList ts
  | .tuple ts | .higherOrder _ ts => ctorsList ts

/-- The constructors of defined types in a list of types. -/
def ctorsList : List Ty → List TypeCtor
  | [] => []
  | t :: ts => ctors t ++ ctorsList ts

end

mutual

theorem trail_mapVars {f : TypeVar → Ty} {args : Nat → NameTrail} :
    ∀ t : Ty, (∀ v ∈ t.occurrences, (f v).trail follow params' =
        (trail follow params (.var v)).andThen args) →
      (t.mapVars f).trail follow params' = (t.trail follow params).andThen args
  | .var v, h => h v (by simp [occurrences])
  | .defined n ts, h => by
    have hargs : trailOfNth follow params' (mapVarsList f ts) =
        fun i => (trailOfNth follow params ts i).andThen args :=
      funext fun i => trailOfNth_mapVarsList ts i h
    have hlen : (mapVarsList f ts).length = ts.length := by
      rw [mapVarsList_eq_map, length_map]
    rw [mapVars, trail, trail, hlen, hargs]
    cases follow ⟨n, ts.length⟩ with
    | none => rfl
    | some t => exact (t.andThen_andThen _ args).symm
  | .tuple ts, _ => rfl
  | .higherOrder _ ts, _ => rfl

theorem trailOfNth_mapVarsList {f : TypeVar → Ty} {args : Nat → NameTrail} :
    ∀ (ts : List Ty) (i : Nat), (∀ v ∈ occurrencesList ts, (f v).trail follow params' =
        (trail follow params (.var v)).andThen args) →
      trailOfNth follow params' (mapVarsList f ts) i =
        (trailOfNth follow params ts i).andThen args
  | [], _, _ => rfl
  | t :: ts, 0, h => trail_mapVars t fun v hv => h v (by simp [occurrencesList, hv])
  | t :: ts, i + 1, h =>
    trailOfNth_mapVarsList ts i fun v hv => h v (by simp [occurrencesList, hv])

end

mutual

theorem trail_congr : ∀ t : Ty, (∀ c ∈ t.ctors, follow c = follow' c ∧ follow c ≠ some .circle) →
    t.trail follow params = t.trail follow' params ∧ t.trail follow params ≠ .circle
  | .var v, _ => by
    rw [trail, trail]
    cases paramNumber? params v <;> simp
  | .defined n ts, h => by
    obtain ⟨heq, hne⟩ := h ⟨n, ts.length⟩ (by simp [ctors])
    have hts := fun i => trailOfNth_congr ts i fun c hc => h c (by simp [ctors, hc])
    have hargs : trailOfNth follow params ts = trailOfNth follow' params ts :=
      funext fun i => (hts i).1
    rw [trail, trail, ← heq, ← hargs]
    cases hc : follow ⟨n, ts.length⟩ with
    | none => simp
    | some t =>
      refine ⟨rfl, NameTrail.andThen_ne_circle (fun ht => hne ?_) fun i => (hts i).2⟩
      rw [hc, ht]
  | .tuple ts, _ => ⟨rfl, by simp [trail]⟩
  | .higherOrder _ ts, _ => ⟨rfl, by simp [trail]⟩

theorem trailOfNth_congr : ∀ (ts : List Ty) (i : Nat),
    (∀ c ∈ ctorsList ts, follow c = follow' c ∧ follow c ≠ some .circle) →
    trailOfNth follow params ts i = trailOfNth follow' params ts i ∧
      trailOfNth follow params ts i ≠ .circle
  | [], _, _ => ⟨rfl, by simp [trailOfNth]⟩
  | t :: ts, 0, h => trail_congr t fun c hc => h c (by simp [ctorsList, hc])
  | t :: ts, i + 1, h => trailOfNth_congr ts i fun c hc => h c (by simp [ctorsList, hc])

end

/-- How many variables a type has. -/
def varCount (t : Ty) : Nat := t.occurrences.toFinset.card

theorem trailOfNth_eq (ts : List Ty) (i : Nat) :
    trailOfNth follow params ts i = (ts[i]?.map (trail follow params)).getD (.type 0) := by
  induction ts generalizing i with
  | nil => rfl
  | cons t ts ih =>
    cases i with
    | zero => rfl
    | succ i => exact ih i

end Ty

namespace Module

variable {m : Module} {c : TypeCtor} {n : SymName} {args : List Ty} {defn : TypeDefn}
  {type t' r : Ty}

/-! ### Names that do not lead back to themselves -/

/-- A name stands for a type in which the other name occurs. -/
def NameUses (m : Module) (c c' : TypeCtor) : Prop :=
  ∃ defn type, m.findName? c = some (defn, type) ∧ c' ∈ type.ctors ∧ (m.findName? c').isSome

/-- No name leads back to itself, and the types that names stand for are types over
    their parameters. -/
structure ProperNames (m : Module) : Prop where
  acyclic : ∀ c, ¬ Relation.TransGen m.NameUses c c
  arity : ∀ c defn type, m.findName? c = some (defn, type) → defn.params.length = c.arity
  vars : ∀ c defn type, m.findName? c = some (defn, type) →
    ∀ v ∈ type.occurrences, v ∈ defn.params

/-- The names that a name leads to. -/
def usedNames (m : Module) (c : TypeCtor) : Set TypeCtor := {c' | Relation.TransGen m.NameUses c c'}

theorem mem_of_findName? (h : (m.findName? c).isSome) :
    c ∈ (m.types.entries.map Prod.fst).toFinset := by
  have hfind : (m.types.find? c).isSome := by
    unfold findName? at h
    split at h
    · cases h
    · split at h
      · next heq => exact isSome_iff_exists.2 ⟨_, heq⟩
      · cases h
  exact mem_toFinset.2 (Assoc.firstValue_isSome.1 hfind)

theorem usedNames_subset (m : Module) (c : TypeCtor) :
    m.usedNames c ⊆ (m.types.entries.map Prod.fst).toFinset := by
  intro c' hc'
  have huse : ∃ c₁, m.NameUses c₁ c' := by
    cases hc' with
    | single h => exact ⟨_, h⟩
    | tail _ h => exact ⟨_, h⟩
  obtain ⟨_, _, _, -, -, hname⟩ := huse
  exact mem_of_findName? hname

theorem finite_usedNames (m : Module) (c : TypeCtor) : (m.usedNames c).Finite :=
  (Finset.finite_toSet _).subset (m.usedNames_subset c)

namespace ProperNames

variable (h : m.ProperNames)

include h

theorem ncard_usedNames_lt (huse : m.NameUses c c') :
    (m.usedNames c').ncard < (m.usedNames c).ncard := by
  refine Set.ncard_lt_ncard ⟨fun _ hc' => .head huse hc', fun hsub => ?_⟩ (m.finite_usedNames c)
  have hself : c' ∈ m.usedNames c' := hsub (.single huse)
  exact h.acyclic c' hself

theorem ncard_usedNames (hname : (m.findName? c).isSome) :
    (m.usedNames c).ncard < m.types.entries.length := by
  have hnot : c ∉ m.usedNames c := h.acyclic c
  have hsub : insert c (m.usedNames c) ⊆ ↑(m.types.entries.map Prod.fst).toFinset :=
    Set.insert_subset (mem_of_findName? hname) (m.usedNames_subset c)
  calc (m.usedNames c).ncard < (insert c (m.usedNames c)).ncard := by
        rw [Set.ncard_insert_of_notMem hnot (m.finite_usedNames c)]
        exact Nat.lt_succ_self _
    _ ≤ (m.types.entries.map Prod.fst).toFinset.card := by
        rw [← Set.ncard_coe_finset]
        exact Set.ncard_le_ncard hsub (Finset.finite_toSet _)
    _ ≤ m.types.entries.length := by
        simpa using toFinset_card_le (m.types.entries.map Prod.fst)

/-- A name followed for more steps than there are names comes to an end. -/
theorem followName_stable (hk : (m.usedNames c).ncard < k) (hd : k ≤ d) :
    m.followName k c = m.followName d c ∧ m.followName k c ≠ some .circle := by
  induction k generalizing c d with
  | zero => cases hk
  | succ k ih =>
    obtain ⟨d, rfl⟩ := Nat.exists_eq_add_of_le' (Nat.le_trans (Nat.le_add_left 1 k) hd)
    rw [followName, followName]
    cases hname : m.findName? c with
    | none => simp
    | some found =>
      obtain ⟨defn, type⟩ := found
      have hctors : ∀ c' ∈ type.ctors, m.followName k c' = m.followName d c' ∧
          m.followName k c' ≠ some .circle := by
        intro c' hc'
        cases hname' : m.findName? c' with
        | none =>
          have hnone : ∀ k, m.followName k c' = none := fun k => by
            cases k <;> rw [followName, hname'] <;> rfl
          simp [hnone]
        | some found =>
          have huse : m.NameUses c c' :=
            ⟨defn, type, hname, hc', by rw [hname']; rfl⟩
          have hlt := h.ncard_usedNames_lt huse
          exact ih (by omega) (by omega)
      obtain ⟨heq, hne⟩ : type.trail (m.followName k) defn.params =
          type.trail (m.followName d) defn.params ∧ _ := trail_congr type hctors
      simp only [map_some, heq, ne_eq, true_and, Option.some.injEq]
      rw [heq] at hne
      cases ht : type.trail (m.followName d) defn.params with
      | circle => exact absurd ht hne
      | _ => simp [NameTrail.behind]

theorem followName_ne_circle (c : TypeCtor) :
    m.followName m.types.entries.length c ≠ some .circle := by
  cases hname : m.findName? c with
  | none => cases hd : m.types.entries.length <;> simp [followName, hname]
  | some found =>
    exact (h.followName_stable (h.ncard_usedNames (by rw [hname]; rfl)) (Nat.le_refl _)).2

theorem followName_eq (hname : m.findName? c = some (defn, type)) :
    m.followName m.types.entries.length c =
      some ((type.trail (m.followName m.types.entries.length) defn.params).behind 1) := by
  have hlt := h.ncard_usedNames (c := c) (by rw [hname]; rfl)
  -- The names in the type that `c` stands for need to be followed less far.
  rw [(h.followName_stable hlt (Nat.le_succ _)).1, followName, hname]
  rfl

end ProperNames

/-! ### Looking through a name -/

theorem headTrail_ne_circle (h : m.ProperNames) (t : Ty) : m.headTrail t ≠ .circle :=
  (trail_congr t fun c _ => ⟨rfl, h.followName_ne_circle c⟩).2

/-- If nothing is taken for a parameter, one name less is left to be looked
    through. -/
theorem headTrail_name (h : m.ProperNames)
    (hname : m.findName? ⟨n, args.length⟩ = some (defn, type)) :
    m.headTrail (.defined n args) = (m.headTrail
      (type.mapVars (Subst.image (Assoc.ofList (defn.params.zip args))))).behind 1 := by
  rw [headTrail, Ty.trail, h.followName_eq hname, headTrail]
  simp only [NameTrail.behind_andThen]
  rw [trail_mapVars type fun v hv => ?_]
  have hlen : defn.params.length = args.length := h.arity _ _ _ hname
  obtain ⟨i, hi⟩ := isSome_iff_exists.1
    (paramNumber?_isSome (h.vars _ _ _ hname v hv))
  have hlt : i < args.length := hlen ▸ paramNumber?_lt hi
  rw [Subst.image, find?_params hlen, hi, Ty.trail, hi]
  simp [NameTrail.andThen, trailOfNth_eq, hlt]

/-- The bindings of the parameters of a name. -/
abbrev paramSubst (defn : TypeDefn) (args : List Ty) : Subst := Assoc.ofList (defn.params.zip args)

theorem expandName_eq_ok : expandName defn type args = .ok r ↔
    (paramSubst defn args).instantiate? type = some r := by
  rw [expandName]
  cases (paramSubst defn args).instantiate? type <;> simp

theorem mem_of_paramSubst (h : (paramSubst defn args).find? v = some a) :
    v ∈ defn.params ∧ a ∈ args := by
  rw [Assoc.find?_ofList] at h
  exact of_mem_zip (mem_reverse.1 (Assoc.mem_of_firstValue h))

theorem mem_expandName (h : m.ProperNames)
    (hname : m.findName? ⟨n, args.length⟩ = some (defn, type))
    (hok : expandName defn type args = .ok r) (hw : w ∈ r.occurrences) :
    (paramSubst defn args).Fixes w ∧ w ∈ (Ty.defined n args).occurrences := by
  obtain ⟨hsome, rfl⟩ := eq_mapVars_of_mapVars? (expandName_eq_ok.1 hok)
  obtain ⟨v, hv, hw⟩ := (mem_occurrences_mapVars type).1 hw
  obtain ⟨hfix, hfrom⟩ := Subst.fixes_of_resolve? (hsome v hv) hw
  obtain ⟨x, a, hx, hwa⟩ : ∃ x a, (paramSubst defn args).find? x = some a ∧
      w ∈ a.occurrences := by
    rcases hfrom with rfl | hfrom
    · -- A parameter that is left is bound to itself.
      have hlen : defn.params.length = args.length := h.arity _ _ _ hname
      obtain ⟨i, hi⟩ := isSome_iff_exists.1
        (paramNumber?_isSome (h.vars _ _ _ hname w hv))
      have hbound : (paramSubst defn args).find? w ≠ none := by
        rw [find?_params hlen, hi, bind_some]
        simpa [hlen] using paramNumber?_lt hi
      exact ⟨w, .var w, hfix.resolve_left hbound, by simp [Ty.occurrences]⟩
    · exact hfrom
  exact ⟨hfix, mem_occurrencesList.2 ⟨a, (mem_of_paramSubst hx).2, hwa⟩⟩

theorem varCount_le (h : ∀ w ∈ t'.occurrences, w ∈ t.occurrences) : t'.varCount ≤ t.varCount :=
  Finset.card_le_card fun w hw => mem_toFinset.2 (h w (mem_toFinset.1 hw))

theorem varCount_lt (h : ∀ w ∈ t'.occurrences, w ∈ t.occurrences) (hw : w ∈ t.occurrences)
    (hnot : w ∉ t'.occurrences) : t'.varCount < t.varCount := by
  refine Finset.card_lt_card ⟨fun w hw => ?_, fun hsub => ?_⟩
  · exact mem_toFinset.2 (h w (mem_toFinset.1 hw))
  · exact hnot (mem_toFinset.1 (hsub (mem_toFinset.2 hw)))

/-- When a name is looked through, nothing is taken for a parameter, or a variable
    is gone. -/
theorem expandName_cases (h : m.ProperNames)
    (hname : m.findName? ⟨n, args.length⟩ = some (defn, type))
    (hok : expandName defn type args = .ok r) :
    r = type.mapVars (paramSubst defn args).image ∨
      r.varCount < (Ty.defined n args).varCount := by
  by_cases hfix : ∀ v ∈ type.occurrences, ∀ a, (paramSubst defn args).find? v = some a →
      ∀ w ∈ a.occurrences, (paramSubst defn args).Fixes w
  · have honce := (Subst.instantiate?_eq_image_iff _ _).2 hfix
    exact .inl (Option.some.inj ((expandName_eq_ok.1 hok).symm.trans honce))
  · push Not at hfix
    obtain ⟨v, -, a, ha, w, hw, hnot⟩ := hfix
    refine .inr (varCount_lt (fun w hw => (mem_expandName h hname hok hw).2)
      (mem_occurrencesList.2 ⟨a, (mem_of_paramSubst ha).2, hw⟩) fun hw => ?_)
    exact hnot (mem_expandName h hname hok hw).1

/-! ### Looking through names -/

theorem isName_iff : m.isName t ↔ ∃ n args defn type, t = .defined n args ∧
    m.findName? ⟨n, args.length⟩ = some (defn, type) := by
  cases t with
  | defined n args => simp [isName, isSome_iff_exists]
  | _ => simp [isName]

theorem lookThrough_of_not_name (h : ¬ m.isName t) (k : Nat) : m.lookThrough k t = .ok t := by
  cases k with
  | zero => rfl
  | succ k =>
    cases t with
    | defined n args =>
      rw [lookThrough]
      cases hname : m.findName? ⟨n, args.length⟩ with
      | none => rfl
      | some found => exact absurd (by rw [isName, hname]; rfl) h
    | _ => rfl

theorem lookThrough_name (hname : m.findName? ⟨n, args.length⟩ = some (defn, type)) (k : Nat) :
    m.lookThrough (k + 1) (.defined n args) = expandName defn type args >>= m.lookThrough k := by
  rw [lookThrough, hname]

theorem lookThrough_add (m : Module) (j k : Nat) (t : Ty) :
    m.lookThrough (j + k) t = m.lookThrough j t >>= m.lookThrough k := by
  induction j generalizing t with
  | zero => rw [Nat.zero_add]; rfl
  | succ j ih =>
    by_cases hisname : m.isName t
    · obtain ⟨n, args, defn, type, rfl, hname⟩ := isName_iff.1 hisname
      rw [Nat.add_right_comm, lookThrough_name hname, lookThrough_name hname]
      cases expandName defn type args with
      | error e => rfl
      | ok r => exact ih r
    · rw [lookThrough_of_not_name hisname, lookThrough_of_not_name hisname]
      exact (lookThrough_of_not_name hisname k).symm

theorem lookThrough_succ_cases (h : m.lookThrough (k + 1) t = .ok t') :
    ¬ m.isName t ∧ t' = t ∨ ∃ n args defn type r, t = .defined n args ∧
      m.findName? ⟨n, args.length⟩ = some (defn, type) ∧ expandName defn type args = .ok r ∧
      m.lookThrough k r = .ok t' := by
  by_cases hisname : m.isName t
  · obtain ⟨n, args, defn, type, rfl, hname⟩ := isName_iff.1 hisname
    rw [lookThrough_name hname] at h
    cases hr : expandName defn type args with
    | error e =>
      rw [hr] at h
      cases h
    | ok r =>
      rw [hr] at h
      exact .inr ⟨n, args, defn, type, r, rfl, hname, hr, h⟩
  · rw [lookThrough_of_not_name hisname] at h
    exact .inl ⟨hisname, (Except.ok.inj h).symm⟩

section

variable (h : m.ProperNames)

include h

theorem mem_lookThrough (hok : m.lookThrough k t = .ok t') (hw : w ∈ t'.occurrences) :
    w ∈ t.occurrences := by
  induction k generalizing t with
  | zero =>
    cases hok
    exact hw
  | succ k ih =>
    rcases lookThrough_succ_cases hok with ⟨-, rfl⟩ | ⟨n, args, defn, type, r, rfl, hname, hr, hok⟩
    · exact hw
    · exact (mem_expandName h hname hr (ih hok)).2

theorem lookThrough_names (hk : (m.headTrail t).names? = some k) (hok : m.lookThrough k t = .ok t')
    (hname' : m.isName t') : t'.varCount < t.varCount := by
  induction k generalizing t with
  | zero =>
    cases hok
    obtain ⟨n, args, defn, type, rfl, hname⟩ := isName_iff.1 hname'
    rw [headTrail_name h hname, NameTrail.names?_behind, map_eq_some_iff] at hk
    obtain ⟨k, -, hk⟩ := hk
    omega
  | succ k ih =>
    rcases lookThrough_succ_cases hok with
      ⟨hnot, rfl⟩ | ⟨n, args, defn, type, r, rfl, hname, hr, hok⟩
    · exact absurd hname' hnot
    rcases expandName_cases h hname hr with heq | hlt
    · rw [headTrail_name h hname, ← heq, NameTrail.names?_behind, map_eq_some_iff] at hk
      obtain ⟨k', hk', hadd⟩ := hk
      obtain rfl : k' = k := by omega
      exact Nat.lt_of_lt_of_le (ih hk' hok)
        (varCount_le fun w hw => (mem_expandName h hname hr hw).2)
    · exact Nat.lt_of_le_of_lt (varCount_le fun w hw => mem_lookThrough h hok hw) hlt

theorem denotedWithin_cases (turns : Nat) (t : Ty) : ∃ names,
    (∀ k, m.lookThrough (names + k) t = m.denotedWithin turns t) ∨
      ∃ t', m.lookThrough names t = .ok t' ∧ t'.varCount < t.varCount ∧
        ∀ turns', turns = turns' + 1 → m.denotedWithin turns t = m.denotedWithin turns' t' := by
  obtain ⟨names, hnames⟩ :=
    isSome_iff_exists.1 (NameTrail.names?_isSome.2 (headTrail_ne_circle h t))
  refine ⟨names, ?_⟩
  cases hlook : m.lookThrough names t with
  | error e =>
    refine .inl fun k => ?_
    rw [lookThrough_add, hlook, denotedWithin, hnames]
    simp only [hlook]
    rfl
  | ok t' =>
    by_cases hname : m.isName t'
    · refine .inr ⟨t', rfl, lookThrough_names h hnames hlook hname, ?_⟩
      rintro turns' rfl
      rw [denotedWithin, hnames]
      simp only [hlook]
      exact if_pos hname
    · refine .inl fun k => ?_
      rw [lookThrough_add, hlook, denotedWithin, hnames]
      simp only [hlook]
      exact (lookThrough_of_not_name hname k).trans (if_neg hname).symm

theorem lookThrough_eq_denotedWithin (turns : Nat) (t : Ty) (hturns : t.varCount ≤ turns) :
    ∃ names, ∀ k, m.lookThrough (names + k) t = m.denotedWithin turns t := by
  induction turns generalizing t with
  | zero =>
    obtain ⟨names, hall | ⟨t', -, hlt, -⟩⟩ := denotedWithin_cases h 0 t
    · exact ⟨names, hall⟩
    · omega
  | succ turns ih =>
    obtain ⟨names, hall | ⟨t', hlook, hlt, hnext⟩⟩ := denotedWithin_cases h (turns + 1) t
    · exact ⟨names, hall⟩
    · obtain ⟨names', hnames'⟩ := ih t' (by omega)
      refine ⟨names + names', fun k => ?_⟩
      rw [Nat.add_assoc, lookThrough_add, hlook, hnext turns rfl]
      exact hnames' k

/-- The type that is denoted is what there is when enough names have been looked
    through. -/
theorem lookThrough_eq_denoted (t : Ty) : ∃ names, ∀ k, m.lookThrough (names + k) t = m.denoted t :=
  lookThrough_eq_denotedWithin h _ t
    (Nat.le_trans (toFinset_card_le _) (Nat.le_add_left _ _))

theorem denoted_name (hname : m.findName? ⟨n, args.length⟩ = some (defn, type)) :
    m.denoted (.defined n args) = expandName defn type args >>= m.denoted := by
  obtain ⟨names, hnames⟩ := lookThrough_eq_denoted h (.defined n args)
  cases hr : expandName defn type args with
  | error e =>
    rw [← hnames 1, lookThrough_name hname, hr]
    rfl
  | ok r =>
    obtain ⟨names', hnames'⟩ := lookThrough_eq_denoted h r
    have hmore : names + (names' + 1) = names' + names + 1 := by omega
    rw [← hnames (names' + 1), hmore, lookThrough_name hname, hr]
    exact hnames' names

theorem lookThrough_ok (hfree : ∀ v ∈ t.occurrences, ∀ c defn type,
    m.findName? c = some (defn, type) → v ∉ defn.params) (k : Nat) :
    ∃ t', m.lookThrough k t = .ok t' := by
  induction k generalizing t with
  | zero => exact ⟨t, rfl⟩
  | succ k ih =>
    by_cases hisname : m.isName t
    · obtain ⟨n, args, defn, type, rfl, hname⟩ := isName_iff.1 hisname
      have honce : expandName defn type args = .ok (type.mapVars (paramSubst defn args).image) := by
        refine expandName_eq_ok.2 ((Subst.instantiate?_eq_image_iff _ _).2 ?_)
        intro v _ a ha w hw
        have hocc := mem_occurrencesList.2 ⟨a, (mem_of_paramSubst ha).2, hw⟩
        cases hbound : (paramSubst defn args).find? w with
        | none => exact .inl hbound
        | some b => exact absurd (mem_of_paramSubst hbound).1 (hfree w hocc _ _ _ hname)
      rw [lookThrough_name hname, honce]
      exact ih fun v hv => hfree v (mem_expandName h hname honce hv).2
    · exact ⟨t, lookThrough_of_not_name hisname _⟩

end

/-! ### Categories -/

theorem dummyConstant_of_ownCategory (h : m.ownCategory t = .dummy) : ∃ n args defn ctor,
    t = .defined n args ∧ m.types.find? ⟨n, args.length⟩ = some defn ∧
      defn.body = .union [ctor] ∧ ctor.args = [] ∧
      m.ownDummyConstant t = some (.cons ctor.name 0) := by
  cases t with
  | defined n args =>
    have hbuiltin : TypeCategory.ofBuiltin? (.defined n args) ≠ some .dummy := by
      unfold TypeCategory.ofBuiltin?
      repeat' split
      all_goals simp
    rw [ownCategory] at h
    split at h
    · next hc =>
      exact absurd (h ▸ hc) hbuiltin
    · next scope params ctors hfind =>
      unfold TypeCategory.ofCtors at h
      split at h
      · next hall =>
        split at h
        · next hone =>
          obtain ⟨ctor, rfl⟩ := length_eq_one_iff.1 hone
          have hargs : ctor.args.isEmpty := by simpa using hall
          refine ⟨n, args, _, ctor, rfl, hfind, rfl, List.isEmpty_iff.1 hargs, ?_⟩
          rw [ownDummyConstant, hfind]
          exact if_pos hargs
        · cases h
      · cases h
    · cases h
  | _ => cases h

theorem dummyConstant_of_category (h : m.category t = .ok .dummy) : ∃ n args defn ctor,
    m.denoted t = .ok (.defined n args) ∧ m.types.find? ⟨n, args.length⟩ = some defn ∧
      defn.body = .union [ctor] ∧ ctor.args = [] ∧
      m.dummyConstant t = .ok (some (.cons ctor.name 0)) := by
  rw [category] at h
  cases hd : m.denoted t with
  | error e =>
    rw [hd] at h
    cases h
  | ok t' =>
    rw [hd] at h
    obtain ⟨n, args, defn, ctor, rfl, hfind, hbody, hargs, hconst⟩ :=
      dummyConstant_of_ownCategory (Except.ok.inj h)
    refine ⟨n, args, defn, ctor, rfl, hfind, hbody, hargs, ?_⟩
    rw [dummyConstant, hd, ← hconst]
    rfl

/-- A name has the category of the type that it stands for, and its only value, if
    it has one, is that of this type. The arguments are put in for the parameters
    once, exactly if the variables of those that are put in stand for themselves.
    A type whose variables are no parameters of names has a category. -/
theorem category_of_name (h : m.ProperNames) :
    (∀ n args defn type, m.findName? ⟨n, args.length⟩ = some (defn, type) →
      m.category (.defined n args) = expandName defn type args >>= m.category ∧
      m.dummyConstant (.defined n args) = expandName defn type args >>= m.dummyConstant ∧
      (expandName defn type args = .ok (type.mapVars (paramSubst defn args).image) ↔
        ∀ v ∈ type.occurrences, ∀ a, (paramSubst defn args).find? v = some a →
          ∀ w ∈ a.occurrences, (paramSubst defn args).Fixes w)) ∧
    (∀ t, (∀ v ∈ t.occurrences, ∀ c defn type,
      m.findName? c = some (defn, type) → v ∉ defn.params) → ∃ c, m.category t = .ok c) ∧
    ∀ t, m.category t = .ok .dummy → ∃ n args defn ctor, m.denoted t = .ok (.defined n args) ∧
      m.types.find? ⟨n, args.length⟩ = some defn ∧ defn.body = .union [ctor] ∧ ctor.args = [] ∧
      m.dummyConstant t = .ok (some (.cons ctor.name 0)) := by
  refine ⟨fun n args defn type hname => ⟨?_, ?_, ?_⟩, fun t hfree => ?_, fun t hdummy => ?_⟩
  · rw [category, denoted_name h hname]
    cases expandName defn type args <;> rfl
  · rw [dummyConstant, denoted_name h hname]
    cases expandName defn type args <;> rfl
  · rw [expandName_eq_ok, Subst.instantiate?_eq_image_iff]
  · obtain ⟨names, hnames⟩ := lookThrough_eq_denoted h t
    obtain ⟨t', ht'⟩ := lookThrough_ok h hfree names
    exact ⟨m.ownCategory t', by rw [category, ← hnames 0, Nat.add_zero, ht']; rfl⟩
  · exact dummyConstant_of_category hdummy

theorem acyclic_of_rank (rank : TypeCtor → Nat)
    (h : ∀ c c', m.NameUses c c' → rank c' < rank c) (c : TypeCtor) :
    ¬ Relation.TransGen m.NameUses c c := by
  have hrank : ∀ {c c'}, Relation.TransGen m.NameUses c c' → rank c' < rank c := by
    intro c c' huses
    induction huses with
    | single huse => exact h _ _ huse
    | tail _ huse ih => exact Nat.lt_trans (h _ _ huse) ih
  exact fun huses => Nat.lt_irrefl _ (hrank huses)

end Module

/-! ### An example -/

namespace NamedTypes

def ctor (name : String) (arity : Nat) : TypeCtor := .ofName "m" name arity

/-- A name for its first argument, and one for a type that is written with it. -/
def aliases : Module :=
  { name := "m"
    types := Assoc.ofList [
      (ctor "unit" 0, .enumeration "m" ["unit"]),
      (ctor "first" 2, { params := [⟨0⟩, ⟨1⟩], body := .equivalence (.var ⟨0⟩) }),
      (ctor "twice" 1, { params := [⟨0⟩]
                         body := .equivalence (.named "m" "first" [.var ⟨0⟩, .var ⟨0⟩]) })] }

theorem aliases_names (h : aliases.findName? c = some (defn, type)) :
    c = ctor "first" 2 ∧ defn.params = [⟨0⟩, ⟨1⟩] ∧ type = .var ⟨0⟩ ∨
      c = ctor "twice" 1 ∧ defn.params = [⟨0⟩] ∧
        type = .named "m" "first" [.var ⟨0⟩, .var ⟨0⟩] := by
  simp only [Module.findName?, aliases, Assoc.find?_ofList, reverse_cons, reverse_nil,
    nil_append, cons_append, Assoc.firstValue] at h
  split at h
  · cases h
  by_cases htwice : ctor "twice" 1 = c
  · rw [if_pos htwice] at h
    cases h
    exact .inr ⟨htwice.symm, rfl, rfl⟩
  by_cases hfirst : ctor "first" 2 = c
  · rw [if_neg htwice, if_pos hfirst] at h
    cases h
    exact .inl ⟨hfirst.symm, rfl, rfl⟩
  rw [if_neg htwice, if_neg hfirst] at h
  by_cases hunit : ctor "unit" 0 = c
  · rw [if_pos hunit] at h
    cases h
  · rw [if_neg hunit] at h
    cases h

theorem aliases_proper : aliases.ProperNames := by
  refine ⟨Module.acyclic_of_rank (fun c => if c = ctor "twice" 1 then 1 else 0) ?_,
    fun c defn type h => ?_, fun c defn type h => ?_⟩
  · rintro c c' ⟨defn, type, h, hc', -⟩
    rcases aliases_names h with ⟨rfl, -, rfl⟩ | ⟨rfl, -, rfl⟩
    · cases hc'
    · obtain rfl : c' = ctor "first" 2 := mem_singleton.1 hc'
      decide
  · rcases aliases_names h with ⟨rfl, hparams, -⟩ | ⟨rfl, hparams, -⟩ <;> rw [hparams] <;> rfl
  · rcases aliases_names h with ⟨-, hparams, rfl⟩ | ⟨-, hparams, rfl⟩ <;> rw [hparams] <;> decide

/-- A name is looked through, and so is the name behind it. -/
theorem twice_unit_category :
    aliases.category (.named "m" "twice" [.named "m" "unit" []]) = .ok .dummy ∧
      (∃ ctor : CtorDefn, ctor.args = [] ∧
        aliases.dummyConstant (.named "m" "twice" [.named "m" "unit" []]) =
          .ok (some (.cons ctor.name 0))) ∧
      ∃ c, aliases.category (.named "m" "twice" [.var ⟨2⟩]) = .ok c := by
  obtain ⟨hname, hfree, hdummy⟩ := Module.category_of_name aliases_proper
  obtain ⟨hcategory, -⟩ := hname (.qualified "m" "twice") [.named "m" "unit" []] _ _ rfl
  have hok : aliases.category (.named "m" "twice" [.named "m" "unit" []]) = .ok .dummy :=
    hcategory.trans rfl
  obtain ⟨_, _, _, ctor, -, -, -, hargs, hconst⟩ := hdummy _ hok
  refine ⟨hok, ⟨ctor, hargs, hconst⟩, hfree _ fun v hv c defn type h => ?_⟩
  obtain rfl : v = ⟨2⟩ := List.mem_singleton.1 hv
  rcases aliases_names h with ⟨-, hparams, -⟩ | ⟨-, hparams, -⟩ <;> rw [hparams] <;> decide

/-- The variable with the number of the second parameter is taken for it: a name for
    a variable has the category of integers. With the variables the other way
    round there is no end to putting in types. -/
theorem first_takes_variable_for_parameter :
    aliases.category (.named "m" "first" [.var ⟨1⟩, .int]) = .ok .int ∧
      aliases.category ((Ty.var ⟨0⟩).mapVars
        (Subst.image (Assoc.ofList [(⟨0⟩, .var ⟨1⟩), (⟨1⟩, .int)]))) = .ok .variable ∧
      aliases.category (.named "m" "first" [.var ⟨1⟩, .var ⟨0⟩]) = .error .endless := by
  refine ⟨rfl, rfl, rfl⟩

end NamedTypes

end Clausal
