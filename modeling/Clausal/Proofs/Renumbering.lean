import Clausal.Proofs.Dictionaries
import Clausal.Proofs.Matching

/-!
# Renumbering makes no difference

The variables of a declaration are renumbered apart from those of the place where
it is used. Which numbers they get depends on how many variables there are at that
place, and what they come to stand for does not: types match whatever they become
when types are put in for their variables, and what is put in can be read off the
result.
-/

namespace Clausal

open List Ty ProofMap

variable {s : Subst} {P : TypeVar → Prop} {r : Shift}

/-! ### Matching renumbered types -/

namespace Subst

theorem over_resolve? (hs : ∀ v t, s.find? v = some t → ∀ w ∈ t.occurrences, P w) {fuel : Nat}
    {v : TypeVar} {t : Ty} (h : s.resolve? fuel v = some t) (hv : P v) :
    ∀ w ∈ t.occurrences, P w := by
  intro w hw
  rcases (fixes_of_resolve? h hw).2 with rfl | ⟨x, u, hx, hwu⟩
  · exact hv
  · exact hs x u hx w hwu

/-- Types that are instantiated with types over `P` are over `P`. -/
theorem over_instantiateList? (hs : ∀ v t, s.find? v = some t → ∀ w ∈ t.occurrences, P w)
    {ts us : List Ty} (h : s.instantiateList? ts = some us)
    (hts : ∀ v ∈ Ty.occurrencesList ts, P v) :
    ∀ w ∈ Ty.occurrencesList us, P w := by
  intro w hw
  have hsome : ∀ v ∈ Ty.occurrencesList ts, s.resolve? (s.entries.length + 1) v =
      some ((s.resolve? (s.entries.length + 1) v).getD (.var v)) := by
    intro v hv
    obtain ⟨t, ht⟩ := Option.isSome_iff_exists.1 (Ty.mapVarsList?_isSome h v hv)
    rw [ht, Option.getD_some]
  obtain rfl := Option.some.inj (h.symm.trans (Ty.mapVarsList?_eq_some ts hsome))
  obtain ⟨v, hv, hwv⟩ := (mem_occurrencesList_mapVarsList ts).1 hw
  exact over_resolve? hs (hsome v hv) (hts v hv) w hwv

/-- Two substitutions put the same types in for the variables of a declaration
    with the given types, once these are renumbered, each in its own way. What is
    put in is over the variables of the types `args`. -/
structure Agree (types args : List Ty) (r : Shift) (s : Subst) (r' : Shift) (s' : Subst) : Prop
    where
  idempotent : s.Idempotent
  idempotent' : s'.Idempotent
  renumbered : ∀ v ∈ Ty.occurrencesList types, v.index < r.count ∧ v.index < r'.count
  after_eq : ∀ v ∈ Ty.occurrencesList types, s'.after r' v = s.after r v
  mem_args : ∀ v ∈ Ty.occurrencesList types, ∀ w ∈ (s.after r v).occurrences,
    w ∈ Ty.occurrencesList args

/-- However the variables of a declaration are renumbered, they come to stand
    for the same types. -/
theorem ofMatch_shift_agree (r' : Shift) {types args : List Ty}
    (h : Subst.ofMatch (types.map (·.shift r)) args = .ok s)
    (ht : ∀ v ∈ Ty.occurrencesList types, v.index < r.count ∧ v.index < r'.count)
    (ha : ∀ v ∈ Ty.occurrencesList args, v.index < r.base ∧ v.index < r'.base) :
    ∃ s', Subst.ofMatch (types.map (·.shift r')) args = .ok s' ∧ Agree types args r s r' s' := by
  obtain ⟨hidem, hargs, himage⟩ :=
    ofMatch_shift h (fun v hv => (ht v hv).1) fun v hv => (ha v hv).1
  -- The renumbered types become the arguments when each variable is numbered
  -- back and replaced by what it stands for.
  have hback : Ty.mapVarsList (fun w => s.after r ⟨w.index - r'.base⟩) (types.map (·.shift r')) =
      args := by
    rw [Shift.map_shift, Shift.mapVarsList_renumbered fun v hv => (ht v hv).2, hargs]
  obtain ⟨s', h'⟩ := (ofMatch_isOk_iff _ _).2 ⟨_, hback⟩
  obtain ⟨hidem', hargs', -⟩ :=
    ofMatch_shift h' (fun v hv => (ht v hv).2) fun v hv => (ha v hv).2
  exact ⟨s', h', hidem, hidem', ht, eq_of_mapVarsList_eq types (hargs'.trans hargs.symm), himage⟩

end Subst

/-! ### Proofs of renumbered constraints -/

namespace Assoc

variable {κ κ' ν ν' : Type} [DecidableEq κ] [DecidableEq κ'] {f : κ → κ'} {g : ν → ν'}

theorem insertEntry_map {k : κ} {v : ν} {es : List (κ × ν)}
    (h : ∀ e ∈ es, f e.1 = f k → e.1 = k) :
    insertEntry (f k) (g v) (es.map (Prod.map f g)) = (insertEntry k v es).map (Prod.map f g) := by
  have hfirst : (firstValue (f k) (es.map (Prod.map f g))).isSome = (firstValue k es).isSome ∧
      replaceEntry (f k) (g v) (es.map (Prod.map f g)) =
        (replaceEntry k v es).map (Prod.map f g) := by
    induction es with
    | nil => exact ⟨rfl, rfl⟩
    | cons e es ih =>
      obtain ⟨hsome, hreplace⟩ := ih fun e he => h e (mem_cons_of_mem _ he)
      by_cases he : e.1 = k
      · simp [firstValue, replaceEntry, he]
      · have hf : f e.1 ≠ f k := fun hf => he (h e mem_cons_self hf)
        simp [firstValue, replaceEntry, he, hf, hsome, hreplace]
  rw [insertEntry, insertEntry, hfirst.1, hfirst.2]
  split <;> rfl

theorem toList_ofList_map {es : List (κ × ν)}
    (h : ∀ e ∈ es, ∀ e' ∈ es, f e.1 = f e'.1 → e.1 = e'.1) :
    (ofList (es.map (Prod.map f g))).toList = (ofList es).toList.map (Prod.map f g) := by
  have hentries : (ofList (es.map (Prod.map f g))).entries =
      (ofList es).entries.map (Prod.map f g) := by
    induction es using List.reverseRecOn with
    | nil => rfl
    | append_singleton es e ih =>
      have ih := ih fun d hd d' hd' =>
        h d (mem_append_left _ hd) d' (mem_append_left _ hd')
      rw [ofList, ofList, insertMany, insertMany, map_append, foldl_append,
        foldl_append]
      show insertEntry (f e.1) (g e.2) (ofList (es.map (Prod.map f g))).entries =
        (insertEntry e.1 e.2 (ofList es).entries).map (Prod.map f g)
      rw [ih]
      exact insertEntry_map fun d hd => h d (mem_append_left _ (mem_entries_ofList hd)) e
        (mem_append_right _ mem_cons_self)
  rw [toList, toList, map_reverse, hentries]

end Assoc

theorem Constraint.shift_injective {c d : Constraint} (hc : c.Over fun v => v.index < r.count)
    (hd : d.Over fun v => v.index < r.count) (h : c.shift r = d.shift r) : c = d := by
  have hback : ∀ c : Constraint, (c.Over fun v => v.index < r.count) →
      (c.shift r).mapVars (fun w => .var ⟨w.index - r.base⟩) = c := by
    intro c hc
    rw [shift_eq_mapVars, mapVars_mapVars,
      mapVars_congr (g := Ty.var) fun v hv => ?_, mapVars, mapVarsList_var]
    simp [Ty.mapVars, Shift.apply, hc v hv]
  rw [← hback c hc, ← hback d hd, h]

namespace ConstraintProof

/-- The proof with `f v` in the place of each variable `v`. -/
def mapVars (f : TypeVar → Ty) : ConstraintProof → ConstraintProof
  | .byInstance n => .byInstance n
  | .bySuperclass sub => .bySuperclass (sub.mapVars f)

theorem mapVars_congr {f g : TypeVar → Ty} {p : ConstraintProof}
    (h : ∀ v ∈ p.occurrences, f v = g v) : p.mapVars f = p.mapVars g := by
  cases p with
  | byInstance n => rfl
  | bySuperclass sub => rw [mapVars, mapVars, Constraint.mapVars_congr h]

theorem shift_subst? {s : Subst} (hs : s.Idempotent) (r : Shift) (p : ConstraintProof) :
    (p.shift r).subst? s = some (p.mapVars (s.after r)) := by
  cases p with
  | byInstance n => rfl
  | bySuperclass sub =>
    rw [shift, subst?, Constraint.shift_subst? hs]
    rfl

end ConstraintProof

theorem ProofMap.shift_subst? {r : Shift} {s : Subst} (hs : s.Idempotent) {m : ProofMap}
    (hm : ∀ e ∈ m.entries, e.1.Over fun v => v.index < r.count) :
    (m.shift r).subst? s = some (Assoc.ofList ((Assoc.ofList m.toList).toList.map
      fun e => (e.1.mapVars (s.after r), e.2.mapVars (s.after r)))) := by
  have hkeys : (m.shift r).toList = (Assoc.ofList m.toList).toList.map
      (Prod.map (Constraint.shift r) (ConstraintProof.shift r)) :=
    Assoc.toList_ofList_map fun e he e' he' =>
      Constraint.shift_injective (hm e (mem_reverse.1 he)) (hm e' (mem_reverse.1 he'))
  rw [subst?, hkeys, mapM_map, mapM_eq_some_map fun e _ => ?_]
  · rfl
  · simp [Prod.map, Constraint.shift_subst? hs, ConstraintProof.shift_subst? hs]

/-! ### What is declared along with types -/

namespace Subst.Agree

variable {types args : List Ty} {r r' : Shift} {s s' : Subst}

theorem constraints (h : Agree types args r s r' s') (cs : List Constraint)
    (hcs : ∀ c ∈ cs, ∀ v ∈ c.occurrences, v ∈ Ty.occurrencesList types) :
    ∃ ds, cs.mapM (fun c => (c.shift r).subst? s) = some ds ∧
      cs.mapM (fun c => (c.shift r').subst? s') = some ds ∧
      ∀ c ∈ ds, ∀ v ∈ c.occurrences, v ∈ Ty.occurrencesList args := by
  refine ⟨_, mapM_eq_some_map fun c _ => Constraint.shift_subst? h.idempotent r c,
    mapM_eq_some_map fun c hc => ?_, fun c hc v hv => ?_⟩
  · rw [Constraint.shift_subst? h.idempotent' r' c,
      Constraint.mapVars_congr fun v hv => h.after_eq v (hcs c hc v hv)]
  · obtain ⟨b, hb, rfl⟩ := mem_map.1 hc
    obtain ⟨u, hu, hvu⟩ := Constraint.mem_occurrences_mapVars.1 hv
    exact h.mem_args u (hcs b hb u hu) v hvu

theorem vars (h : Agree types args r s r' s') (vs : List TypeVar)
    (hvs : ∀ v ∈ vs, v ∈ Ty.occurrencesList types) :
    ∃ ts, vs.mapM (fun v => s.instantiate? (.var (r.apply v))) = some ts ∧
      vs.mapM (fun v => s'.instantiate? (.var (r'.apply v))) = some ts ∧
      ∀ v ∈ Ty.occurrencesList ts, v ∈ Ty.occurrencesList args := by
  refine ⟨_, mapM_eq_some_map fun v _ => resolve?_eq_image h.idempotent (r.apply v),
    mapM_eq_some_map fun v hv => ?_, fun w hw => ?_⟩
  · exact (resolve?_eq_image h.idempotent' (r'.apply v)).trans
      (congrArg some (h.after_eq v (hvs v hv)))
  · obtain ⟨t, ht, hwt⟩ := mem_occurrencesList.1 hw
    obtain ⟨v, hv, rfl⟩ := mem_map.1 ht
    exact h.mem_args v (hvs v hv) w hwt

theorem proofs (h : Agree types args r s r' s') {m : ProofMap}
    (hm : ∀ e ∈ m.entries, ∀ v ∈ e.1.occurrences ++ e.2.occurrences,
      v ∈ Ty.occurrencesList types) :
    ∃ m', (m.shift r).subst? s = some m' ∧ (m.shift r').subst? s' = some m' ∧
      ∀ c sub, (c, ConstraintProof.bySuperclass sub) ∈ m'.entries →
        ∀ v ∈ sub.occurrences, v ∈ Ty.occurrencesList args := by
  have hkey : ∀ e ∈ m.entries, ∀ v ∈ e.1.occurrences, v ∈ Ty.occurrencesList types :=
    fun e he v hv => hm e he v (mem_append_left _ hv)
  have hproofs := shift_subst? h.idempotent
    fun e he v hv => (h.renumbered v (hkey e he v hv)).1
  refine ⟨_, hproofs, ?_, fun c sub hc v hv => ?_⟩
  · rw [shift_subst? h.idempotent'
      fun e he v hv => (h.renumbered v (hkey e he v hv)).2]
    refine congrArg (fun es => some (Assoc.ofList es)) (map_congr_left fun e he => ?_)
    have he : e ∈ m.entries :=
      mem_reverse.1 (Assoc.mem_entries_ofList (mem_reverse.1 he))
    rw [Constraint.mapVars_congr fun v hv => h.after_eq v (hkey e he v hv),
      ConstraintProof.mapVars_congr fun v hv =>
        h.after_eq v (hm e he v (mem_append_right _ hv))]
  · obtain ⟨e, he, -, hocc⟩ := mem_shift_subst? h.idempotent hproofs hc
    obtain ⟨w, hw, hvw⟩ := hocc v hv
    exact h.mem_args w (hm e he w (mem_append_right _ hw)) v hvw

end Subst.Agree

end Clausal
