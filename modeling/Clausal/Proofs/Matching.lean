import Clausal.Proofs.TypeNames

/-!
# Matching against a declaration

A declaration is used at types over the variables of a caller. Its own variables
are renumbered behind those first, and then its types are matched. Matching does
not go wrong by trying: as long as all bindings agree with some instantiation of
the declared types (`Subst.Under`), the next one does, so matching succeeds
wherever there is an instantiation, and finds it. Since the bound variables are
none of the caller's, what is put in is never looked at again.
-/

namespace Clausal

open Ty

variable {s : Subst} {v : TypeVar} {f : TypeVar → Ty} {t : Ty}

namespace Subst

/-- Every binding is as the instantiation `f` has it. -/
def Under (s : Subst) (f : TypeVar → Ty) : Prop := ∀ v t, s.find? v = some t → t = f v

theorem under_empty (f : TypeVar → Ty) : Under ∅ f := fun _ _ h => by cases h

theorem Under.insert (h : s.Under f) (v : TypeVar) : Under (s.insert v (f v)) f := by
  intro w t hw
  rw [Assoc.find?_insert] at hw
  split at hw
  · next hwv =>
    cases hw
    rw [hwv]
  · exact h w t hw

end Subst

namespace Ty

mutual

theorem matchInto_under {f : TypeVar → Ty} : ∀ (t : Ty) {s : Subst}, s.Under f →
    ∃ s', matchInto s t (t.mapVars f) = .ok s' ∧ s'.Under f
  | .var v, s, h => by
    rw [mapVars, matchInto]
    cases hv : s.find? v with
    | none => exact ⟨_, rfl, h.insert v⟩
    | some t => exact ⟨s, if_pos (h v t hv), h⟩
  | .defined n ts, s, h => by
    have hl : n = n ∧ ts.length = (mapVarsList f ts).length := by simp [mapVarsList_eq_map]
    rw [mapVars, matchInto, if_pos hl]
    exact matchArgs_under ts h
  | .tuple ts, s, h => by
    have hl : ts.length = (mapVarsList f ts).length := by simp [mapVarsList_eq_map]
    rw [mapVars, matchInto, if_pos hl]
    exact matchArgs_under ts h
  | .higherOrder k ts, s, h => by
    have hl : k = k ∧ ts.length = (mapVarsList f ts).length := by simp [mapVarsList_eq_map]
    rw [mapVars, matchInto, if_pos hl]
    exact matchArgs_under ts h

/-- Types match their instances, and the bindings stay those of the
    instantiation. -/
theorem matchArgs_under {f : TypeVar → Ty} : ∀ (ts : List Ty) {s : Subst}, s.Under f →
    ∃ s', matchArgs s ts (mapVarsList f ts) = .ok s' ∧ s'.Under f
  | [], s, h => ⟨s, rfl, h⟩
  | t :: ts, s, h => by
    obtain ⟨s₁, h₁, hu₁⟩ := matchInto_under t h
    obtain ⟨s', h', hu'⟩ := matchArgs_under ts hu₁
    refine ⟨s', ?_, hu'⟩
    rw [mapVarsList, matchArgs, h₁]
    exact h'

end

end Ty

namespace Subst

/-- Types match exactly if some mapping of variables takes the ones to the others. -/
theorem ofMatch_isOk_iff (general specific : List Ty) :
    (∃ s, Subst.ofMatch general specific = .ok s) ↔
      ∃ f, Ty.mapVarsList f general = specific := by
  constructor
  · rintro ⟨s, hs⟩
    exact ⟨s.image, (ofMatch_spec hs).2⟩
  · rintro ⟨f, rfl⟩
    obtain ⟨s, hs, -⟩ := matchArgs_under general (under_empty f)
    exact ⟨s, by rw [ofMatch, if_pos (by simp [mapVarsList_eq_map]), hs]⟩

theorem exists_find?_of_ofMatch {general specific : List Ty}
    (h : Subst.ofMatch general specific = .ok s) (v : TypeVar) :
    (∃ t, s.find? v = some t) ↔ v ∈ Ty.occurrencesList general := by
  obtain ⟨hm, -⟩ := ofMatch_spec h
  refine ⟨?_, hm.binds v⟩
  rintro ⟨t, ht⟩
  rcases hm.only v t ht with hv | ⟨hv, -⟩
  · cases hv
  · exact hv

end Subst

namespace Shift

variable {r : Shift} {types : List Ty}

theorem mapVarsList_renumbered (h : ∀ v ∈ Ty.occurrencesList types, v.index < r.count) :
    Ty.mapVarsList (fun w => f ⟨w.index - r.base⟩)
      (Ty.mapVarsList (fun v => .var (r.apply v)) types) = Ty.mapVarsList f types := by
  rw [mapVarsList_mapVarsList]
  refine mapVarsList_congr types fun v hv => ?_
  rw [Ty.mapVars, apply, if_pos (h v hv), Nat.add_sub_cancel_left]

end Shift

namespace Subst

section

variable {r : Shift} {declared actual : List Ty}

theorem mem_occurrencesList_shift {w : TypeVar} :
    w ∈ Ty.occurrencesList (declared.map (·.shift r)) ↔
      ∃ v ∈ Ty.occurrencesList declared, w = r.apply v := by
  rw [Shift.map_shift, mem_occurrencesList_mapVarsList]
  simp only [Ty.occurrences, List.mem_singleton]

theorem size_le_of_ofMatch_merge {caller decl : TypeScope}
    (hdeclared : ∀ v ∈ Ty.occurrencesList declared, v.index < decl.size)
    (hs : Subst.ofMatch (declared.map (·.shift (caller.merge decl).1)) actual = .ok s)
    (hv : s.find? v = some t) : caller.size ≤ v.index := by
  obtain ⟨u, hu, rfl⟩ := mem_occurrencesList_shift.1 ((exists_find?_of_ofMatch hs v).1 ⟨t, hv⟩)
  exact TypeScope.shift_fresh caller decl (hdeclared u hu)

theorem find?_of_ofMatch_shift (hs : Subst.ofMatch (declared.map (·.shift r)) actual = .ok s)
    (hf : Ty.mapVarsList f declared = actual) (hv : v ∈ Ty.occurrencesList declared) :
    s.find? (r.apply v) = some (f v) := by
  have himage : Ty.mapVarsList (fun v => s.image (r.apply v)) declared = actual := by
    rw [← (ofMatch_spec hs).2, Shift.map_shift, mapVarsList_mapVarsList]
    rfl
  obtain ⟨t, ht⟩ := (exists_find?_of_ofMatch hs _).2 (mem_occurrencesList_shift.2 ⟨v, hv, rfl⟩)
  rw [eq_of_mapVarsList_eq declared (hf.trans himage.symm) v hv, image, ht, Option.getD_some]

theorem mapVars_image_of_unbound (h : ∀ v ∈ t.occurrences, s.find? v = none) :
    t.mapVars s.image = t := by
  rw [mapVars_congr (g := .var) t fun v hv => by rw [image, h v hv, Option.getD_none],
    mapVars_var]

end

/-- Of a declaration whose variables were put behind those of a caller. Its types
    match types over the caller's variables exactly if these are an instance of
    them. The variables of the renumbered types are bound, each as the
    instantiation has it, and no others. The substitution comes to an end on every
    type, after one binding at most in each place, so that it is the simultaneous
    replacement; it turns the declared types into the given ones and leaves alone
    what has only variables of the caller. -/
theorem ofMatch_renamed_apart (caller decl : TypeScope) (declared actual : List Ty)
    (hdeclared : ∀ v ∈ Ty.occurrencesList declared, v.index < decl.size)
    (hactual : ∀ v ∈ Ty.occurrencesList actual, v.index < caller.size) :
    let r := (caller.merge decl).1
    let renamed := declared.map (·.shift r)
    ((∃ s, Subst.ofMatch renamed actual = .ok s) ↔ ∃ f, Ty.mapVarsList f declared = actual) ∧
    ∀ s, Subst.ofMatch renamed actual = .ok s →
      (∀ v, (∃ t, s.find? v = some t) ↔ v ∈ Ty.typeVarsList renamed) ∧
      (∀ f, Ty.mapVarsList f declared = actual →
        ∀ v ∈ Ty.typeVarsList declared, s.find? (r.apply v) = some (f v)) ∧
      (∀ (t : Ty) (n : Nat), t.mapVars? (s.resolve? (n + 2)) = some (t.mapVars s.image)) ∧
      (∀ t, s.instantiate? t = some (t.mapVars s.image)) ∧
      s.instantiateList? renamed = some actual ∧
      ∀ t : Ty, (∀ v ∈ t.typeVars, v.index < caller.size) → s.instantiate? t = some t := by
  intro r renamed
  constructor
  · rw [ofMatch_isOk_iff, show renamed = _ from Shift.map_shift r declared]
    constructor
    · rintro ⟨f, hf⟩
      exact ⟨fun v => f (r.apply v), by rw [← hf, Ty.mapVarsList_mapVarsList]; rfl⟩
    · rintro ⟨f, hf⟩
      exact ⟨_, (Shift.mapVarsList_renumbered hdeclared).trans hf⟩
  · intro s hs
    obtain ⟨hidem, -, -⟩ := ofMatch_shift hs hdeclared hactual
    have honce : ∀ t, s.instantiate? t = some (t.mapVars s.image) :=
      fun t => Ty.mapVars?_eq_some t fun v _ => resolve?_eq_image hidem v
    refine ⟨fun v => (exists_find?_of_ofMatch hs v).trans Ty.mem_typeVarsList.symm,
      fun f hf v hv => find?_of_ofMatch_shift hs hf (Ty.mem_typeVarsList.1 hv),
      fun t n => Ty.mapVars?_eq_some t fun v _ => resolve?_two_eq_image (hidem.fixes v) n, honce,
      ?_, fun t ht => ?_⟩
    · rw [instantiateList?_eq_mapVarsList hidem, (ofMatch_spec hs).2]
    · -- What is bound is none of the caller's variables.
      rw [honce, mapVars_image_of_unbound fun v hv => ?_]
      rw [Option.eq_none_iff_forall_ne_some]
      intro u hu
      have := ht v (Ty.mem_typeVars.2 hv)
      have := size_le_of_ofMatch_merge hdeclared hs hu
      omega

/-- The types `pair(A, B), A` of a declaration at the types `pair(int, T), int` of
    a caller: the declared variables get the numbers 1 and 2. -/
theorem ofMatch_renamed_apart_pair :
    let pair (t u : Ty) := Ty.named "pair" "pair" [t, u]
    let r := ((TypeScope.ofNames ["T"]).merge (.ofNames ["A", "B"])).1
    let renamed := [pair (.var ⟨0⟩) (.var ⟨1⟩), .var ⟨0⟩].map (·.shift r)
    ∃ s, Subst.ofMatch renamed [pair .int (.var ⟨0⟩), .int] = .ok s ∧
      s.find? ⟨1⟩ = some .int ∧ s.find? ⟨2⟩ = some (.var ⟨0⟩) ∧
      s.instantiateList? renamed = some [pair .int (.var ⟨0⟩), .int] ∧
      s.instantiate? (pair (.var ⟨0⟩) .int) = some (pair (.var ⟨0⟩) .int) := by
  intro pair r renamed
  obtain ⟨hiff, hs⟩ := ofMatch_renamed_apart (.ofNames ["T"]) (.ofNames ["A", "B"])
    [pair (.var ⟨0⟩) (.var ⟨1⟩), .var ⟨0⟩] [pair .int (.var ⟨0⟩), .int] (by decide) (by decide)
  have hf : Ty.mapVarsList (fun v => if v.index = 0 then .int else .var ⟨0⟩)
      [pair (.var ⟨0⟩) (.var ⟨1⟩), .var ⟨0⟩] = [pair .int (.var ⟨0⟩), .int] := rfl
  obtain ⟨s, hok⟩ := hiff.2 ⟨_, hf⟩
  obtain ⟨-, hagrees, -, -, hlist, hid⟩ := hs s hok
  exact ⟨s, hok, hagrees _ hf ⟨0⟩ (by decide), hagrees _ hf ⟨1⟩ (by decide), hlist,
    hid _ (by decide)⟩

end Subst

end Clausal
