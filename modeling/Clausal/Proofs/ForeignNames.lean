import Clausal.Proofs.Bodies

/-!
# Names of witnesses in foreign code

Foreign code refers to the witnesses of a call by name. A type-info is named for
its type variable, a dictionary for the class and the type variables of its
constraint (`Constraint.spelling`). The types of a constraint leave no other
trace in the name, so a class at `T` and at a list of `T` give one name to two
dictionaries.
-/

namespace Clausal

open List

/-- The words of a constraint in a name: its class and its type variables. -/
def Constraint.words (s : TypeScope) (c : Constraint) : List String :=
  c.className.name :: c.typeVars.map s.varName

/-- A constraint as a name tells it. -/
def Constraint.spelling (s : TypeScope) (c : Constraint) : String := "_".intercalate (c.words s)

theorem join_marked (w : String) (ws : List String) :
    String.join (w :: ws.map ("_" ++ ·)) = "_".intercalate (w :: ws) := by
  rw [← String.toList_inj, String.toList_join, String.toList_intercalate]
  induction ws generalizing w with
  | nil => simp
  | cons w' ws ih => simpa using ih w'

theorem not_mem_toString (n : Nat) : '_' ∉ (toString n).toList := by
  rw [Nat.toString_eq_repr, Nat.toList_repr]
  exact Nat.underscore_not_in_toDigits

/-- The mark does not stand in the word, nor begin in it if another mark
    follows. -/
def Unmarked (mark w : List Char) : Prop := ¬ mark <:+: w ++ mark.dropLast

instance (mark w : List Char) : Decidable (Unmarked mark w) := inferInstanceAs (Decidable (¬ _))

namespace Unmarked

variable {mark w u c r r' : List Char}

theorem of_not_mem {x : Char} (h : x ∉ w) : Unmarked [x] w := by
  intro hin
  rw [dropLast_singleton, append_nil] at hin
  exact h (hin.subset mem_cons_self)

theorem eq_nil_of_append (hmark : mark ≠ []) (hu : Unmarked mark (w ++ c))
    (h : mark ++ r = c ++ (mark ++ r')) : c = [] := by
  -- The mark is the front of `c ++ mark`, and there is nothing behind it.
  obtain ⟨b, hb⟩ : mark <+: c ++ mark :=
    prefix_of_prefix_length_le ⟨r, rfl⟩ ⟨r', by rw [h, append_assoc]⟩ (by simp)
  rcases eq_nil_or_concat b with rfl | ⟨b, x, rfl⟩
  · simpa using hb
  · have hlast := congrArg dropLast hb
    rw [concat_eq_append, ← append_assoc, dropLast_concat, dropLast_append_of_ne_nil hmark] at hlast
    exact absurd ⟨w, b, by rw [append_assoc, append_assoc, hlast]⟩ hu

theorem append_inj (hmark : mark ≠ []) (hw : Unmarked mark w) (hu : Unmarked mark u)
    (h : w ++ (mark ++ r) = u ++ (mark ++ r')) : w = u ∧ r = r' := by
  rcases append_eq_append_iff.1 h with ⟨c, rfl, hc⟩ | ⟨c, rfl, hc⟩
  · obtain rfl := eq_nil_of_append hmark hu hc
    exact ⟨(append_nil w).symm, append_cancel_left hc⟩
  · obtain rfl := eq_nil_of_append hmark hw hc
    exact ⟨append_nil u, (append_cancel_left hc).symm⟩

theorem ne_append (hw : Unmarked mark w) : w ≠ u ++ (mark ++ r) := by
  rintro rfl
  exact hw ⟨u, r ++ mark.dropLast, by simp⟩

end Unmarked

/-- Words without the mark are told apart when they are joined by it. -/
theorem intercalate_inj {mark : String} (hmark : mark.toList ≠ []) {ws us : List String}
    (hws : ws ≠ []) (hus : us ≠ []) (hw : ∀ w ∈ ws, Unmarked mark.toList w.toList)
    (hu : ∀ u ∈ us, Unmarked mark.toList u.toList)
    (h : mark.intercalate ws = mark.intercalate us) : ws = us := by
  have hcons : ∀ w w' (ws : List String), (mark.intercalate (w :: w' :: ws)).toList =
      w.toList ++ (mark.toList ++ (mark.intercalate (w' :: ws)).toList) := by simp
  induction ws generalizing us with
  | nil => exact absurd rfl hws
  | cons w ws ih =>
    obtain ⟨u, us, rfl⟩ := exists_cons_of_ne_nil hus
    obtain ⟨hw₁, hw⟩ := forall_mem_cons.1 hw
    obtain ⟨hu₁, hu⟩ := forall_mem_cons.1 hu
    rw [← String.toList_inj] at h
    rcases ws with _ | ⟨w', ws⟩ <;> rcases us with _ | ⟨u', us⟩
    · simpa [String.toList_inj] using h
    · rw [hcons, String.intercalate_singleton] at h
      exact absurd h hw₁.ne_append
    · rw [hcons, String.intercalate_singleton] at h
      exact absurd h.symm hu₁.ne_append
    · rw [hcons, hcons] at h
      obtain ⟨hword, hrest⟩ := Unmarked.append_inj hmark hw₁ hu₁ h
      rw [String.toList_inj.1 hword, ih (cons_ne_nil _ _) (cons_ne_nil _ _) hw hu
        (String.toList_inj.1 hrest)]

/-! ### Witnesses -/

theorem nodup_eraseDups (vs : List TypeVar) : vs.eraseDups.Nodup := by
  induction hn : vs.length using Nat.strong_induction_on generalizing vs with
  | _ n ih =>
    cases vs with
    | nil => exact nodup_nil
    | cons v vs =>
      rw [eraseDups_cons, nodup_cons]
      refine ⟨fun hv => ?_, ih _ ?_ _ rfl⟩
      · simpa using (mem_filter.1 (mem_eraseDups.1 hv)).2
      · rw [← hn]
        exact Nat.lt_succ_of_le (length_filter_le ..)

theorem Synth.map_name_foreignWitnesses {callee : Predicate} (parts : WitnessParts callee) :
    (foreignWitnesses parts).map (·.name) = callee.foreignWitnessNames.map some := by
  rw [foreignWitnesses, map_map, ← map_snd_zip (Nat.le_of_eq (length_foreignWitnessNames parts)),
    map_map, map_snd_zip (Nat.le_of_eq (length_foreignWitnessNames parts))]
  rfl

namespace Predicate

variable {p : Predicate}

/-- The constraints that procedures get dictionaries for. -/
def dictionaryConstraints (p : Predicate) : List Constraint :=
  p.constraints.universal ++ p.constraints.existential

/-- The type variables of the arguments have names of their own. -/
def NamesApart (p : Predicate) : Prop :=
  Set.InjOn p.scope.varName {v | v ∈ Ty.typeVarsList p.argTypes}

theorem bareTypeVars_perm (p : Predicate) :
    (p.bareTypeVars.1 ++ p.bareTypeVars.2).Perm ((Ty.typeVarsList p.argTypes).filter fun v =>
      !(Constraint.typeVarsList p.constraints.universal ++
        Constraint.typeVarsList p.constraints.existential).contains v) := by
  simp only [bareTypeVars, partition_eq_filter_filter]
  exact perm_append_comm.trans (filter_append_perm ..)

/-- The name of the dictionary of a constraint. -/
def dictionaryName (p : Predicate) (c : Constraint) : String :=
  "TypeClassInfo_for_" ++ c.spelling p.scope

/-- The names of the type-infos. -/
def typeInfoNames (p : Predicate) : List String :=
  (p.bareTypeVars.1 ++ p.bareTypeVars.2).map fun v => "TypeInfo_for_" ++ p.scope.varName v

/-- Type-infos have names of their own. -/
theorem nodup_typeInfoNames (h : p.NamesApart) : p.typeInfoNames.Nodup := by
  have hmem {v} (hv : v ∈ p.bareTypeVars.1 ++ p.bareTypeVars.2) : v ∈ Ty.typeVarsList p.argTypes :=
    (mem_filter.1 ((bareTypeVars_perm p).mem_iff.1 hv)).1
  refine Nodup.map_on (fun v hv w hw heq => ?_)
    ((bareTypeVars_perm p).nodup_iff.2 ((nodup_eraseDups _).filter _))
  exact h (hmem hv) (hmem hw) ((String.append_right_inj _).1 heq)

/-- No dictionary has the name of a type-info. -/
theorem dictionary_ne_typeInfo (c : Constraint) : p.dictionaryName c ∉ p.typeInfoNames := by
  have hne : ∀ c v : String, "TypeClassInfo_for_" ++ c ≠ "TypeInfo_for_" ++ v := by
    intro c v h
    have := congrArg (fun s => s.toList[4]?) h
    simp [String.toList_append] at this
  intro hmem
  rw [typeInfoNames, mem_map] at hmem
  obtain ⟨v, -, h⟩ := hmem
  exact hne _ _ h.symm

theorem dictionaryName_inj {c d : Constraint} :
    p.dictionaryName c = p.dictionaryName d ↔ c.spelling p.scope = d.spelling p.scope :=
  String.append_right_inj _

theorem foreignWitnessNames_eq (p : Predicate) :
    p.foreignWitnessNames = p.dictionaryConstraints.map p.dictionaryName ++ p.typeInfoNames := by
  refine congrArg (· ++ _) (map_congr_left fun c _ => ?_)
  have hjoin := join_marked ("TypeClassInfo_for_" ++ c.className.name)
    (c.typeVars.map p.scope.varName)
  rw [map_map, String.intercalate_cons_append] at hjoin
  exact hjoin

theorem nodup_foreignWitnessNames (h : p.NamesApart) : p.foreignWitnessNames.Nodup ↔
    (p.dictionaryConstraints.map (·.spelling p.scope)).Nodup := by
  have hspelled : (p.dictionaryConstraints.map p.dictionaryName).Nodup ↔
      (p.dictionaryConstraints.map (·.spelling p.scope)).Nodup := by
    rw [Nodup, pairwise_map, pairwise_map]
    exact Pairwise.iff fun _ _ => not_congr dictionaryName_inj
  rw [foreignWitnessNames_eq, nodup_append, hspelled]
  refine ⟨fun h => h.1, fun hd => ⟨hd, nodup_typeInfoNames h, fun a ha b hb heq => ?_⟩⟩
  obtain ⟨c, -, rfl⟩ := mem_map.1 ha
  exact dictionary_ne_typeInfo c (heq ▸ hb)

theorem nodup_spellings
    (h : ∀ c ∈ p.dictionaryConstraints, ∀ w ∈ c.words p.scope, '_' ∉ w.toList) :
    (p.dictionaryConstraints.map (·.spelling p.scope)).Nodup ↔
      (p.dictionaryConstraints.map (·.words p.scope)).Nodup := by
  rw [Nodup, Nodup, pairwise_map, pairwise_map]
  refine Pairwise.iff_of_mem fun {c d} hc hd => not_congr ⟨fun heq => ?_, congrArg _⟩
  have hmark : "_".toList ≠ [] := by decide
  exact intercalate_inj hmark (cons_ne_nil _ _) (cons_ne_nil _ _)
    (fun w hw => .of_not_mem (h c hc w hw)) (fun w hw => .of_not_mem (h d hd w hw)) heq

/-- Names are as many as witnesses: those of the dictionaries and then those of the
    type-infos. Two dictionaries share a name just if their constraints are spelled
    alike, and a type-info shares its name with nothing. So the names are pairwise
    different just if no two constraints are spelled alike: in names without marks,
    if no two are of classes of one name and have the same type variables. Foreign
    code gets its witnesses in front, under these names. -/
theorem foreign_names_differ_by_spelling (p : Predicate) (h : p.NamesApart) :
    (p.isExempt = false → p.foreignWitnessNames.length = p.witnessCount) ∧
    p.foreignWitnessNames = p.dictionaryConstraints.map p.dictionaryName ++ p.typeInfoNames ∧
    (∀ c d, p.dictionaryName c = p.dictionaryName d ↔ c.spelling p.scope = d.spelling p.scope) ∧
    p.typeInfoNames.Nodup ∧ (∀ c, p.dictionaryName c ∉ p.typeInfoNames) ∧
    (p.foreignWitnessNames.Nodup ↔
      (p.dictionaryConstraints.map (·.spelling p.scope)).Nodup) ∧
    ((∀ c ∈ p.dictionaryConstraints, ∀ w ∈ c.words p.scope, '_' ∉ w.toList) →
      (p.foreignWitnessNames.Nodup ↔ (p.dictionaryConstraints.map (·.words p.scope)).Nodup)) ∧
    ∀ {env : WitnessEnv} {info : GoalInfo} {code : ForeignCode} {s s' : WitnessState} {g : Goal},
      env.env.pred code.callee.pred = .ok p → p.witnessCount ≠ 0 →
      Synth.Returns (Synth.foreignGoal env info code) s g s' →
      ∃ setup info' args, g = .withSetup setup (.foreign info' { code with args }) ∧
        args.map (·.name) = p.foreignWitnessNames.map some ++ code.args.map (·.name) := by
  refine ⟨fun hexempt => ?_, foreignWitnessNames_eq p, fun _ _ => dictionaryName_inj,
    nodup_typeInfoNames h, dictionary_ne_typeInfo, nodup_foreignWitnessNames h,
    fun hplain => ?_, ?_⟩
  · simp [foreignWitnessNames, witnessCount, hexempt, Nat.add_assoc]
  · rw [nodup_foreignWitnessNames h, nodup_spellings hplain]
  · intro env info code s s' g hpred hcount hreturns
    obtain ⟨pred, hpred', ⟨hz, -⟩ | ⟨-, w, parts, -, rfl⟩⟩ := Synth.foreignGoal_cases hreturns
    · cases hpred.symm.trans hpred'
      exact absurd hz hcount
    · cases hpred.symm.trans hpred'
      exact ⟨_, _, _, rfl, by rw [map_append, Synth.map_name_foreignWitnesses]⟩

end Predicate

namespace ForeignExample

def shown (t : Ty) : Constraint := ⟨.qualified "a" "show", [t]⟩

/-- A predicate of two arguments of any types, with constraints. -/
def put (cs : List Constraint) : Predicate :=
  { home := "a", name := "put", arity := 2, context := default, scope := .ofNames ["T", "U"],
    argTypes := [.var ⟨0⟩, .var ⟨1⟩], constraints := { universal := cs }, procs := #[] }

theorem namesApart (cs : List Constraint) : (put cs).NamesApart := by
  have : ∀ v ∈ Ty.typeVarsList (put []).argTypes, ∀ w ∈ Ty.typeVarsList (put []).argTypes,
      (put []).scope.varName v = (put []).scope.varName w → v = w := by decide +kernel
  exact fun v hv w hw => this v hv w hw

/-- Two dictionaries and a type-info, under three names. -/
theorem show_both_named :
    let p := put [shown (.var ⟨0⟩), ⟨.qualified "a" "read", [.var ⟨0⟩]⟩]
    p.foreignWitnessNames.Nodup ∧ p.typeInfoNames = ["TypeInfo_for_U"] ∧
      p.dictionaryName (shown (.var ⟨0⟩)) ∉ p.typeInfoNames := by
  intro p
  obtain ⟨-, -, -, -, hapart, hnodup, -⟩ :=
    Predicate.foreign_names_differ_by_spelling p (namesApart _)
  exact ⟨hnodup.2 (by decide +kernel), by decide +kernel, hapart _⟩

/-- A class at a type variable and at a list of it gives one name to two
    dictionaries. -/
theorem show_list_shares_name : Predicate.foreignWitnessNames
    (put [shown (.var ⟨0⟩), shown (.defined (.qualified "list" "list") [.var ⟨0⟩])]) =
      ["TypeClassInfo_for_show_T", "TypeClassInfo_for_show_T", "TypeInfo_for_U"] := by
  decide +kernel

end ForeignExample

end Clausal
