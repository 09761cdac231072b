import Clausal.Class
import Mathlib

/-!
# Substitutions and matching

Matching finds, for the variables of the general types, what stands in their
places in the specific ones. Where the general types were renumbered first, no
variable that is bound occurs in what another is bound to, so that putting in
bound types until none is left is putting them in once:

* `instantiate?_eq_mapVars`: a substitution whose types have no bound variable
  is applied by one replacement;
* `matchArgs_spec`: matching binds the variables of the general types, to types
  over the variables of the specific ones, and turns the former into the
  latter;
* `ofMatch_shift`: the types of a declaration, renumbered and matched, give one
  substitution for everything that is declared along with them.
-/

namespace Clausal

open List Shift

variable {v : TypeVar} {c : Constraint} {s : Subst} {r : Shift}
  {ts general specific types : List Ty} {t : Ty} {f g : TypeVar → Ty} {w : TypeVar}

namespace Ty

/-! ### Variables of types -/

mutual

theorem mapVars_congr {f g : TypeVar → Ty} :
    ∀ t : Ty, (∀ v ∈ t.occurrences, f v = g v) → t.mapVars f = t.mapVars g
  | .var v, h => h v (by simp [occurrences])
  | .defined _ ts, h => by rw [mapVars, mapVars, mapVarsList_congr ts h]
  | .tuple ts, h => by rw [mapVars, mapVars, mapVarsList_congr ts h]
  | .higherOrder _ ts, h => by rw [mapVars, mapVars, mapVarsList_congr ts h]

theorem mapVarsList_congr {f g : TypeVar → Ty} :
    ∀ ts : List Ty, (∀ v ∈ occurrencesList ts, f v = g v) → mapVarsList f ts = mapVarsList g ts
  | [], _ => rfl
  | t :: ts, h => by
    rw [mapVarsList, mapVarsList,
      mapVars_congr t fun v hv => h v (by simp [occurrencesList, hv]),
      mapVarsList_congr ts fun v hv => h v (by simp [occurrencesList, hv])]

end

mutual

theorem mem_occurrences_mapVars {f : TypeVar → Ty} {w : TypeVar} :
    ∀ t : Ty, w ∈ (t.mapVars f).occurrences ↔ ∃ v ∈ t.occurrences, w ∈ (f v).occurrences
  | .var v => by simp [mapVars, occurrences]
  | .defined _ ts => by
    simpa only [mapVars, occurrences] using mem_occurrencesList_mapVarsList ts
  | .tuple ts => by
    simpa only [mapVars, occurrences] using mem_occurrencesList_mapVarsList ts
  | .higherOrder _ ts => by
    simpa only [mapVars, occurrences] using mem_occurrencesList_mapVarsList ts

theorem mem_occurrencesList_mapVarsList {f : TypeVar → Ty} {w : TypeVar} :
    ∀ ts : List Ty, w ∈ occurrencesList (mapVarsList f ts) ↔
      ∃ v ∈ occurrencesList ts, w ∈ (f v).occurrences
  | [] => by simp [mapVarsList, occurrencesList]
  | t :: ts => by
    simp only [mapVarsList, occurrencesList, mem_append, mem_occurrences_mapVars t,
      mem_occurrencesList_mapVarsList ts, or_and_right, exists_or]

end

theorem mem_occurrencesList :
    v ∈ occurrencesList ts ↔ ∃ t ∈ ts, v ∈ t.occurrences := by
  induction ts with
  | nil => simp [occurrencesList]
  | cons t ts ih => simp [occurrencesList, ih]

@[simp] theorem mem_typeVars : v ∈ t.typeVars ↔ v ∈ t.occurrences := by
  simp [typeVars]

@[simp] theorem mem_typeVarsList : v ∈ typeVarsList ts ↔ v ∈ occurrencesList ts := by
  simp [typeVarsList]

mutual

theorem mapVars?_eq_some {f : TypeVar → Option Ty} {g : TypeVar → Ty} :
    ∀ t : Ty, (∀ v ∈ t.occurrences, f v = some (g v)) → t.mapVars? f = some (t.mapVars g)
  | .var v, h => h v (by simp [occurrences])
  | .defined _ ts, h => by rw [mapVars?, mapVarsList?_eq_some ts h]; rfl
  | .tuple ts, h => by rw [mapVars?, mapVarsList?_eq_some ts h]; rfl
  | .higherOrder _ ts, h => by rw [mapVars?, mapVarsList?_eq_some ts h]; rfl

theorem mapVarsList?_eq_some {f : TypeVar → Option Ty} {g : TypeVar → Ty} :
    ∀ ts : List Ty, (∀ v ∈ occurrencesList ts, f v = some (g v)) →
      mapVarsList? f ts = some (mapVarsList g ts)
  | [], _ => rfl
  | t :: ts, h => by
    rw [mapVarsList?, mapVars?_eq_some t fun v hv => h v (by simp [occurrencesList, hv]),
      mapVarsList?_eq_some ts fun v hv => h v (by simp [occurrencesList, hv])]
    rfl

end

end Ty

/-! ### Constraints -/

namespace Constraint

/-- The variables of a constraint, from left to right, each as often as it
    occurs. -/
def occurrences (c : Constraint) : List TypeVar := Ty.occurrencesList c.args

/-- The constraint with `f v` in the place of each variable `v`. -/
def mapVars (f : TypeVar → Ty) (c : Constraint) : Constraint :=
  ⟨c.className, Ty.mapVarsList f c.args⟩

theorem mapVars_congr (h : ∀ v ∈ c.occurrences, f v = g v) :
    c.mapVars f = c.mapVars g := by
  rw [mapVars, mapVars, Ty.mapVarsList_congr _ h]

@[simp] theorem mapVars_mapVars (f g : TypeVar → Ty) (c : Constraint) :
    (c.mapVars f).mapVars g = c.mapVars fun v => (f v).mapVars g := by
  simp only [mapVars, Ty.mapVarsList_mapVarsList]

@[simp] theorem classId_mapVars (f : TypeVar → Ty) (c : Constraint) :
    (c.mapVars f).classId = c.classId := by
  simp [mapVars, classId, Ty.mapVarsList_eq_map]

theorem shift_eq_mapVars (r : Shift) (c : Constraint) :
    c.shift r = c.mapVars fun v => .var (r.apply v) := by
  simp only [shift, mapVars, Ty.mapVarsList_eq_map]
  rfl

theorem mem_occurrences_mapVars :
    w ∈ (c.mapVars f).occurrences ↔ ∃ v ∈ c.occurrences, w ∈ (f v).occurrences :=
  Ty.mem_occurrencesList_mapVarsList c.args

@[simp] theorem mem_typeVars : v ∈ c.typeVars ↔ v ∈ c.occurrences :=
  Ty.mem_typeVarsList

end Constraint

/-! ### Applying a substitution -/

namespace Subst

/-- What stands in the place of a variable: the type it is bound to, or the
    variable itself. -/
def image (s : Subst) (v : TypeVar) : Ty := (s.find? v).getD (.var v)

/-- No variable that is bound occurs in what a variable is bound to. -/
def Idempotent (s : Subst) : Prop :=
  ∀ v t, s.find? v = some t → ∀ w ∈ t.occurrences, s.find? w = none

theorem entries_ne_nil (h : s.find? v = some t) : s.entries ≠ [] := by
  intro he
  rw [Assoc.find?, he] at h
  cases h

theorem resolve?_of_unbound (h : s.find? v = none) (fuel : Nat) :
    s.resolve? (fuel + 1) v = some (.var v) := by
  rw [resolve?, h]

/-- A variable that stands for itself. -/
def Fixes (s : Subst) (v : TypeVar) : Prop := s.find? v = none ∨ s.find? v = some (.var v)

theorem resolve?_of_fixes (h : s.Fixes v) (fuel : Nat) :
    s.resolve? (fuel + 1) v = some (.var v) := by
  rcases h with h | h
  · exact resolve?_of_unbound h fuel
  · rw [resolve?, h]
    exact if_pos rfl

/-- Two look-ups are enough where the variables of what is put in stand for
    themselves. -/
theorem resolve?_two_eq_image (h : ∀ t, s.find? v = some t → ∀ w ∈ t.occurrences, s.Fixes w)
    (n : Nat) : s.resolve? (n + 2) v = some (s.image v) := by
  cases hv : s.find? v with
  | none => rw [resolve?_of_unbound hv, image, hv, Option.getD_none]
  | some t =>
    have ht : t.mapVars? (s.resolve? (n + 1)) = some t := by
      rw [Ty.mapVars?_eq_some (g := .var) t fun w hw => resolve?_of_fixes (h t hv w hw) n,
        Ty.mapVars_var]
    rw [resolve?, hv, image, hv, Option.getD_some]
    simp only [ht, ite_self]

theorem resolve?_eq_image_of_fixes (h : ∀ t, s.find? v = some t → ∀ w ∈ t.occurrences, s.Fixes w) :
    s.resolve? (s.entries.length + 1) v = some (s.image v) := by
  cases hv : s.find? v with
  | none => rw [resolve?_of_unbound hv, image, hv, Option.getD_none]
  | some t =>
    -- One binding is there, so the budget is enough for the second look-up.
    obtain ⟨n, hn⟩ : ∃ n, s.entries.length = n + 1 :=
      Nat.exists_eq_succ_of_ne_zero (by simpa using entries_ne_nil hv)
    rw [hn, resolve?_two_eq_image h]

theorem Idempotent.fixes (hs : s.Idempotent) (v : TypeVar) :
    ∀ t, s.find? v = some t → ∀ w ∈ t.occurrences, s.Fixes w :=
  fun t ht w hw => .inl (hs v t ht w hw)

theorem resolve?_eq_image (hs : s.Idempotent) (v : TypeVar) :
    s.resolve? (s.entries.length + 1) v = some (s.image v) :=
  resolve?_eq_image_of_fixes (hs.fixes v)

theorem instantiateList?_eq_mapVarsList (hs : s.Idempotent) (ts : List Ty) :
    s.instantiateList? ts = some (Ty.mapVarsList s.image ts) :=
  Ty.mapVarsList?_eq_some ts fun v _ => resolve?_eq_image hs v

end Subst

theorem Constraint.subst?_eq_mapVars (hs : s.Idempotent) (c : Constraint) :
    c.subst? s = some (c.mapVars s.image) := by
  rw [subst?, Subst.instantiateList?_eq_mapVarsList hs]
  rfl

/-! ### Matching -/

/-- What matching types over the variables `vs` against types over the
    variables `ws` adds to the substitution `s`. -/
structure Subst.Matched (s s' : Subst) (vs ws : List TypeVar) : Prop where
  keeps : ∀ v t, s.find? v = some t → s'.find? v = some t
  binds : ∀ v ∈ vs, ∃ t, s'.find? v = some t
  only : ∀ v t, s'.find? v = some t → s.find? v = some t ∨ v ∈ vs ∧ ∀ w ∈ t.occurrences, w ∈ ws

namespace Subst.Matched

variable {s₁ s' : Subst} {vs vs' ws ws' : List TypeVar}

theorem refl (s : Subst) : Matched s s [] [] where
  keeps _ _ h := h
  binds _ h := absurd h not_mem_nil
  only _ _ h := .inl h

theorem trans (h : Matched s s₁ vs ws) (h' : Matched s₁ s' vs' ws') :
    Matched s s' (vs ++ vs') (ws ++ ws') where
  keeps v t hv := h'.keeps v t (h.keeps v t hv)
  binds v hv := by
    rcases mem_append.1 hv with hv | hv
    · obtain ⟨t, ht⟩ := h.binds v hv
      exact ⟨t, h'.keeps v t ht⟩
    · exact h'.binds v hv
  only v t hv := by
    rcases h'.only v t hv with hv | ⟨hv, hw⟩
    · rcases h.only v t hv with hv | ⟨hv, hw⟩
      · exact .inl hv
      · exact .inr ⟨mem_append_left _ hv, fun w h => mem_append_left _ (hw w h)⟩
    · exact .inr ⟨mem_append_right _ hv, fun w h => mem_append_right _ (hw w h)⟩

theorem image_eq (h : Matched s s₁ vs ws) (h' : Matched s₁ s' vs' ws') (hv : v ∈ vs) :
    s'.image v = s₁.image v := by
  obtain ⟨t, ht⟩ := h.binds v hv
  rw [image, image, ht, h'.keeps v t ht]

end Subst.Matched

namespace Ty

mutual

/-- Matching maps the variables of one type so that it becomes the other. -/
theorem matchInto_spec {s s' : Subst} : ∀ {t u : Ty}, matchInto s t u = .ok s' →
    s.Matched s' t.occurrences u.occurrences ∧ t.mapVars s'.image = u
  | .var v, u, h => by
    rw [matchInto] at h
    split at h
    · -- A variable that has an image already has to have this one.
      next t ht =>
      split at h
      · next htu =>
        cases h
        subst htu
        exact ⟨⟨fun _ _ h => h, fun w hw => by simp_all [occurrences], fun _ _ h => .inl h⟩,
          by rw [mapVars, Subst.image, ht]; rfl⟩
      · cases h
    · -- A variable without an image gets one, and the others keep theirs.
      next hv =>
      cases h
      refine ⟨⟨fun w t hw => ?_, fun w hw => ?_, fun w t hw => ?_⟩, ?_⟩
      · have : w ≠ v := fun e => by simp [e, hv] at hw
        rw [Assoc.find?_insert, if_neg this, hw]
      · rw [occurrences, mem_singleton] at hw
        exact ⟨u, by rw [hw, Assoc.find?_insert_self]⟩
      · rw [Assoc.find?_insert] at hw
        split at hw
        · next hwv =>
          cases hw
          exact .inr ⟨by simp [occurrences, hwv], fun _ h => h⟩
        · exact .inl hw
      · rw [mapVars, Subst.image, Assoc.find?_insert_self]; rfl
  | .defined n ts, .defined m us, h => by
    rw [matchInto] at h
    split at h
    · next hl =>
      obtain ⟨hm, he⟩ := matchArgs_spec hl.2 h
      exact ⟨hm, by rw [mapVars, he, hl.1]⟩
    · cases h
  | .tuple ts, .tuple us, h => by
    rw [matchInto] at h
    split at h
    · next hl =>
      obtain ⟨hm, he⟩ := matchArgs_spec hl h
      exact ⟨hm, by rw [mapVars, he]⟩
    · cases h
  | .higherOrder k ts, .higherOrder l us, h => by
    rw [matchInto] at h
    split at h
    · next hl =>
      obtain ⟨hm, he⟩ := matchArgs_spec hl.2 h
      exact ⟨hm, by rw [mapVars, he, hl.1]⟩
    · cases h
  | .defined .., .var _, h | .defined .., .tuple _, h | .defined .., .higherOrder .., h
  | .tuple _, .var _, h | .tuple _, .defined .., h | .tuple _, .higherOrder .., h
  | .higherOrder .., .var _, h | .higherOrder .., .defined .., h
  | .higherOrder .., .tuple _, h => by
    cases h

/-- Matching binds the variables of the general types, to types over those of
    the specific ones, and turns the former into the latter. -/
theorem matchArgs_spec {s s' : Subst} : ∀ {ts us : List Ty}, ts.length = us.length →
    matchArgs s ts us = .ok s' →
      s.Matched s' (occurrencesList ts) (occurrencesList us) ∧ mapVarsList s'.image ts = us
  | [], [], _, h => by cases h; exact ⟨.refl s, rfl⟩
  | t :: ts, u :: us, hl, h => by
    rw [matchArgs] at h
    cases h₁ : matchInto s t u with
    | error e => rw [h₁] at h; cases h
    | ok s₁ =>
      rw [h₁] at h
      obtain ⟨hm₁, he₁⟩ := matchInto_spec h₁
      obtain ⟨hm, he⟩ := matchArgs_spec (Nat.succ.inj hl) h
      refine ⟨hm₁.trans hm, ?_⟩
      rw [mapVarsList, he, mapVars_congr t fun v hv => hm₁.image_eq hm hv, he₁]

end

end Ty

theorem Subst.ofMatch_spec (h : Subst.ofMatch general specific = .ok s) :
    Subst.Matched ∅ s (Ty.occurrencesList general) (Ty.occurrencesList specific) ∧
      Ty.mapVarsList s.image general = specific := by
  rw [ofMatch] at h
  split at h
  · next hl => exact Ty.matchArgs_spec hl h
  · cases h

/-! ### Declarations renumbered apart -/

namespace Shift

/-- Renumbered variables come from `base` on. -/
theorem base_le_apply (h : v.index < r.count) : r.base ≤ (r.apply v).index := by
  simp [apply, h]

theorem apply_injective (hv : v.index < r.count) (hw : w.index < r.count)
    (h : r.apply v = r.apply w) : v = w := by
  cases v; cases w
  simp only [apply, hv, hw, if_true, TypeVar.mk.injEq] at h ⊢
  omega

theorem map_shift (r : Shift) (types : List Ty) :
    types.map (·.shift r) = Ty.mapVarsList (fun v => .var (r.apply v)) types :=
  (Ty.mapVarsList_eq_map ..).symm

end Shift

namespace Subst

/-- What a variable of a declaration stands for, once the declaration is
    renumbered by `r` and the result replaced by `s`. -/
def after (s : Subst) (r : Shift) (v : TypeVar) : Ty := s.image (r.apply v)

/-- The types of a declaration, renumbered and matched, give one substitution
    for everything that is declared along with them. -/
theorem ofMatch_shift (h : Subst.ofMatch (types.map (·.shift r)) args = .ok s)
    (ht : ∀ v ∈ Ty.occurrencesList types, v.index < r.count)
    (ha : ∀ v ∈ Ty.occurrencesList args, v.index < r.base) :
    s.Idempotent ∧ Ty.mapVarsList (s.after r) types = args ∧
      ∀ v ∈ Ty.occurrencesList types, ∀ w ∈ (s.after r v).occurrences,
        w ∈ Ty.occurrencesList args := by
  rw [map_shift] at h
  obtain ⟨hm, he⟩ := ofMatch_spec h
  have hbase : ∀ v t, s.find? v = some t →
      r.base ≤ v.index ∧ ∀ w ∈ t.occurrences, w ∈ Ty.occurrencesList args := by
    intro v t hv
    rcases hm.only v t hv with hv | ⟨hv, hw⟩
    · cases hv
    · obtain ⟨u, hu, huv⟩ := (Ty.mem_occurrencesList_mapVarsList types).1 hv
      rw [Ty.occurrences, mem_singleton] at huv
      exact ⟨huv ▸ base_le_apply (ht u hu), hw⟩
  refine ⟨fun v t hv w hw => ?_, ?_, fun v hv w hw => ?_⟩
  · -- The types put in have variables below `base` only, none of which is bound.
    have hlt := ha w ((hbase v t hv).2 w hw)
    refine Option.eq_none_iff_forall_ne_some.2 fun u hu => ?_
    exact absurd (hbase w u hu).1 (Nat.not_le.2 hlt)
  · rw [Ty.mapVarsList_mapVarsList] at he
    exact he
  · obtain ⟨t, hv'⟩ := hm.binds (r.apply v)
      ((Ty.mem_occurrencesList_mapVarsList types).2 ⟨v, hv, by simp [Ty.occurrences]⟩)
    rw [after, image, hv'] at hw
    exact (hbase _ t hv').2 w hw

end Subst

theorem Constraint.shift_subst? (hs : s.Idempotent) (r : Shift) (c : Constraint) :
    (c.shift r).subst? s = some (c.mapVars (s.after r)) := by
  rw [subst?_eq_mapVars hs, shift_eq_mapVars, mapVars_mapVars]
  rfl

namespace ClassDefn

/-- The arguments in the places of the parameters of a class. -/
def atParams (cls : ClassDefn) (args : List Ty) : TypeVar → Ty :=
  Subst.image (Assoc.ofList (cls.params.zip args))

/-- The superclass constraints of a class, with the arguments in the places of
    its parameters. -/
def supersOf (cls : ClassDefn) (args : List Ty) : List Constraint :=
  cls.supers.map (·.mapVars (cls.atParams args))

/-- The parameters of a class are variables of its declaration, and its
    superclass constraints have no variables beside them. -/
structure WellScoped (cls : ClassDefn) : Prop where
  params : ∀ v ∈ cls.params, v.index < cls.scope.size
  supers : ∀ c ∈ cls.supers, ∀ v ∈ c.occurrences, v ∈ cls.params

variable {cls : ClassDefn} {args : List Ty}

theorem exists_arg (hl : cls.params.length = args.length) (hv : v ∈ cls.params) :
    ∃ t ∈ args, Assoc.firstValue v (cls.params.zip args).reverse = some t := by
  have hs : (Assoc.firstValue v (cls.params.zip args).reverse).isSome := by
    rw [Assoc.firstValue_isSome, map_reverse, mem_reverse,
      map_fst_zip (Nat.le_of_eq hl)]
    exact hv
  obtain ⟨t, ht⟩ := Option.isSome_iff_exists.1 hs
  have hmem := mem_reverse.1 (Assoc.mem_of_firstValue ht)
  exact ⟨t, (of_mem_zip hmem).2, ht⟩

theorem atParams_mem (hl : cls.params.length = args.length) (hv : v ∈ cls.params) :
    cls.atParams args v ∈ args := by
  obtain ⟨t, ht, hf⟩ := exists_arg hl hv
  rw [atParams, Subst.image, Assoc.find?_ofList, hf]
  exact ht

theorem firstValue_map_key {κ ν : Type} [DecidableEq κ] {f : κ → κ} {k : κ} {es : List (κ × ν)}
    (h : ∀ e ∈ es, f e.1 = f k → e.1 = k) :
    Assoc.firstValue (f k) (es.map (Prod.map f id)) = Assoc.firstValue k es := by
  induction es with
  | nil => rfl
  | cons e es ih =>
    have ih := ih fun e he => h e (mem_cons_of_mem _ he)
    by_cases he : e.1 = k
    · simp [Assoc.firstValue, he]
    · have hf : f e.1 ≠ f k := fun hf => he (h e mem_cons_self hf)
      simp [Assoc.firstValue, he, hf, ih]

theorem image_shift_params (hc : cls.WellScoped) (hl : cls.params.length = args.length)
    (hr : r.count = cls.scope.size) (hv : v ∈ cls.params) :
    Subst.image (Assoc.ofList ((cls.params.map r.apply).zip args)) (r.apply v) =
      cls.atParams args v := by
  obtain ⟨t, -, ht⟩ := exists_arg hl hv
  have hkey : Assoc.firstValue (r.apply v) ((cls.params.map r.apply).zip args).reverse =
      Assoc.firstValue v (cls.params.zip args).reverse := by
    rw [zip_map_left, ← map_reverse]
    refine firstValue_map_key fun e he hf => apply_injective ?_ ?_ hf
    · exact hr ▸ hc.params _ (of_mem_zip (mem_reverse.1 he)).1
    · exact hr ▸ hc.params v hv
  rw [atParams, Subst.image, Subst.image, Assoc.find?_ofList, Assoc.find?_ofList, hkey, ht]
  rfl

theorem idempotent_params (hc : cls.WellScoped) (hr : r.count = cls.scope.size)
    (ha : ∀ v ∈ Ty.occurrencesList args, v.index < r.base) :
    Subst.Idempotent (Assoc.ofList ((cls.params.map r.apply).zip args)) := by
  have hbound : ∀ v t, Assoc.find? (Assoc.ofList ((cls.params.map r.apply).zip args)) v = some t →
      r.base ≤ v.index ∧ t ∈ args := by
    intro v t hv
    rw [Assoc.find?_ofList] at hv
    obtain ⟨hmem, ht⟩ := of_mem_zip (mem_reverse.1 (Assoc.mem_of_firstValue hv))
    obtain ⟨p, hp, rfl⟩ := mem_map.1 hmem
    exact ⟨base_le_apply (hr ▸ hc.params p hp), ht⟩
  intro v t hv w hw
  have hlt := ha w (Ty.mem_occurrencesList.2 ⟨t, (hbound v t hv).2, hw⟩)
  refine Option.eq_none_iff_forall_ne_some.2 fun u hu => ?_
  exact absurd (hbound w u hu).1 (Nat.not_le.2 hlt)

/-- The superclasses at instantiated arguments are the superclasses, instantiated. -/
theorem supersOf_mapVars (hc : cls.WellScoped) (hl : cls.params.length = args.length)
    (f : TypeVar → Ty) :
    cls.supersOf (Ty.mapVarsList f args) = (cls.supersOf args).map (·.mapVars f) := by
  rw [supersOf, supersOf, map_map]
  refine map_congr_left fun c hcs => ?_
  show c.mapVars _ = (c.mapVars _).mapVars f
  rw [Constraint.mapVars_mapVars]
  refine Constraint.mapVars_congr fun v hv => ?_
  obtain ⟨t, -, ht⟩ := exists_arg hl (hc.supers c hcs v hv)
  have hmap : Assoc.firstValue v (cls.params.zip (Ty.mapVarsList f args)).reverse =
      (Assoc.firstValue v (cls.params.zip args).reverse).map (Ty.mapVars f) := by
    rw [Ty.mapVarsList_eq_map, zip_map_right, ← map_reverse]
    generalize (cls.params.zip args).reverse = es
    induction es with
    | nil => rfl
    | cons e es ih => by_cases he : e.1 = v <;> simp [Assoc.firstValue, he, ih]
  rw [atParams, atParams, Subst.image, Subst.image, Assoc.find?_ofList, Assoc.find?_ofList, hmap,
    ht]
  rfl

theorem mem_supersOf_occurrences (hc : cls.WellScoped) (hl : cls.params.length = args.length)
    (h : c ∈ cls.supersOf args) (hv : v ∈ c.occurrences) : v ∈ Ty.occurrencesList args := by
  obtain ⟨d, hd, rfl⟩ := mem_map.1 h
  obtain ⟨u, hu, hvu⟩ := Constraint.mem_occurrences_mapVars.1 hv
  exact Ty.mem_occurrencesList.2 ⟨_, atParams_mem hl (hc.supers d hd u hu), hvu⟩

end ClassDefn

end Clausal
