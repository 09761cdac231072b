import Clausal.Proofs.Dictionaries
import Clausal.Proofs.ForeignNames

/-!
# Keys of instances

The key of an instance joins the names of the outermost constructors of its
types. Where the names have no marks of their own the constructors can be read
off the key (`Ty.instanceKeys_inj`). What they are applied to leaves no trace, so
instances at lists of integers and at lists of strings have one key.
-/

namespace Clausal

open List

namespace Ty

variable {t u : Ty} {ts us : List Ty}

/-- A type up to what its outermost constructor is applied to. -/
def outline : Ty → Ty
  | .var _ => .var ⟨0⟩
  | .defined n ts => .defined n (ts.map fun _ => .var ⟨0⟩)
  | .tuple ts => .tuple (ts.map fun _ => .var ⟨0⟩)
  | .higherOrder k ts => .higherOrder k (ts.map fun _ => .var ⟨0⟩)

/-- A type is a variable or a constructor applied to variables. -/
def Flat (t : Ty) : Prop := ∀ u ∈ t.args, ∃ v, u = .var v

/-- Types have a common instance when they are renamed apart. -/
def Overlap (ts us : List Ty) : Prop := ∃ f g, mapVarsList f ts = mapVarsList g us

/-- The name of a constructor can be read off a key: there are no marks in it,
    and its module has a name that no other word of a key is. -/
structure PlainName (n : SymName) : Prop where
  qualifier : Unmarked "__".toList (n.qualifier.getD "").toList
  name : Unmarked "__".toList n.name.toList
  named : n.qualifier ≠ some ""
  told : n.qualifier.getD "" ∉ ["var", "tuple", "predicate", "function"]

/-- The names in the outlines of types can be read off a key. -/
def PlainNames (ts : List Ty) : Prop := ∀ n us, .defined n us ∈ ts → PlainName n

/-- The words that a key has for a type. -/
def keyWords (t : Ty) : List String :=
  let arity := "arity" ++ toString t.args.length
  match t with
  | .var _ => ["var"]
  | .defined n _ => [n.qualifier.getD "", n.name, arity]
  | .tuple _ => ["tuple", arity]
  | .higherOrder k _ => [k.render, arity]

theorem keyWords_ne_nil (t : Ty) : t.keyWords ≠ [] := by
  cases t <;> exact cons_ne_nil _ _

theorem instanceKeys_eq (ts : List Ty) :
    instanceKeys ts = "__".intercalate (ts.flatMap keyWords) := by
  have hkey : ∀ t : Ty, t.instanceKey = "__".intercalate t.keyWords := by
    intro t
    cases t <;> simp [instanceKey, keyWords, String.append_assoc, args] <;> rfl
  unfold instanceKeys
  induction ts with
  | nil => rfl
  | cons t ts ih =>
    rcases ts with _ | ⟨u, ts⟩
    · simp [hkey]
    · have hne : (u :: ts).flatMap keyWords ≠ [] := by simp [keyWords_ne_nil]
      rw [flatMap_cons, String.intercalate_append_of_ne_nil (keyWords_ne_nil t) hne, ← ih, map_cons,
        map_cons, String.intercalate_cons_cons, hkey]

theorem instanceKeys_congr (h : ts.map outline = us.map outline) :
    instanceKeys ts = instanceKeys us := by
  have hkey : instanceKey ∘ outline = instanceKey := by
    funext t
    cases t <;> simp [outline, instanceKey]
  rw [instanceKeys, instanceKeys, ← hkey, ← map_map, h, map_map]

theorem unmarked_keyWords (h : PlainNames ts) {w : String} (hw : w ∈ ts.flatMap keyWords) :
    Unmarked "__".toList w.toList := by
  have hnone : ∀ {w : String}, '_' ∉ w.toList → Unmarked "__".toList w.toList := by
    intro w hmark hin
    have hcount := hin.sublist.count_le '_'
    rw [count_append, count_eq_zero.2 hmark] at hcount
    exact absurd hcount (by decide)
  have harity : ∀ n : Nat, Unmarked "__".toList ("arity" ++ toString n).toList := by
    intro n
    have hword : '_' ∉ "arity".toList := by decide
    refine hnone ?_
    rw [String.toList_append, mem_append]
    exact not_or.2 ⟨hword, not_mem_toString n⟩
  obtain ⟨t, ht, hw⟩ := mem_flatMap.1 hw
  cases t with
  | var v =>
    obtain rfl := mem_singleton.1 hw
    exact hnone (by decide)
  | defined n us =>
    have hn := h n us ht
    simp only [keyWords, mem_cons, not_mem_nil, or_false] at hw
    rcases hw with rfl | rfl | rfl
    · exact hn.qualifier
    · exact hn.name
    · exact harity _
  | tuple us =>
    simp only [keyWords, mem_cons, not_mem_nil, or_false] at hw
    rcases hw with rfl | rfl
    · exact hnone (by decide)
    · exact harity _
  | higherOrder k us =>
    simp only [keyWords, mem_cons, not_mem_nil, or_false] at hw
    rcases hw with rfl | rfl
    · cases k <;> exact hnone (by decide)
    · exact harity _

theorem PlainName.eq {n n' : SymName} (h : PlainName n) (h' : PlainName n')
    (hq : n.qualifier.getD "" = n'.qualifier.getD "") (hn : n.name = n'.name) : n = n' := by
  obtain ⟨q, name⟩ := n
  obtain ⟨q', name'⟩ := n'
  have hne := h.named
  have hne' := h'.named
  cases q <;> cases q' <;> simp_all

theorem outline_of_keyWords {r r' : List String} (ht : ∀ n ts, t = .defined n ts → PlainName n)
    (hu : ∀ n ts, u = .defined n ts → PlainName n) (h : t.keyWords ++ r = u.keyWords ++ r') :
    t.outline = u.outline ∧ r = r' := by
  have harity : ∀ {a b : List Ty}, "arity" ++ toString a.length = "arity" ++ toString b.length →
      a.map (fun _ => Ty.var ⟨0⟩) = b.map fun _ => Ty.var ⟨0⟩ := by
    intro a b heq
    rw [map_const', map_const', Nat.repr_inj.1 ((String.append_right_inj _).1 heq)]
  cases t <;> cases u <;> simp only [keyWords, args, cons_append, nil_append, cons.injEq] at h
  case var.var => exact ⟨rfl, h.2⟩
  case defined.defined n ts m us =>
    obtain ⟨hq, hn, ha, hr⟩ := h
    rw [outline, outline, harity ha, (ht n ts rfl).eq (hu m us rfl) hq hn]
    exact ⟨rfl, hr⟩
  case tuple.tuple =>
    rw [outline, outline, harity h.2.1]
    exact ⟨rfl, h.2.2⟩
  case higherOrder.higherOrder k _ k' _ =>
    have hrender : ∀ k k' : CallableKind, k.render = k'.render → k = k' := by
      intro k k'
      cases k <;> cases k' <;> decide
    rw [outline, outline, harity h.2.1, hrender k k' h.1]
    exact ⟨rfl, h.2.2⟩
  -- The first word tells types of different kinds apart.
  case defined.var n ts _ | defined.tuple n ts _ => exact absurd (by simp [h.1]) (ht n ts rfl).told
  case var.defined n ts | tuple.defined n ts => exact absurd (by simp [← h.1]) (hu n ts rfl).told
  case defined.higherOrder n ts k _ =>
    exact absurd (by cases k <;> simp [h.1, CallableKind.render]) (ht n ts rfl).told
  case higherOrder.defined k _ n ts =>
    exact absurd (by cases k <;> simp [← h.1, CallableKind.render]) (hu n ts rfl).told
  case var.higherOrder k _ | tuple.higherOrder k _ => cases k <;> exact absurd h.1 (by decide)
  case higherOrder.var k _ _ | higherOrder.tuple k _ _ => cases k <;> exact absurd h.1 (by decide)
  all_goals exact absurd h.1 (by decide)

theorem outline_of_words (ht : PlainNames ts) (hu : PlainNames us)
    (h : ts.flatMap keyWords = us.flatMap keyWords) : ts.map outline = us.map outline := by
  induction ts generalizing us with
  | nil =>
    rcases us with _ | ⟨u, us⟩
    · rfl
    · exact absurd h.symm (by simp [keyWords_ne_nil])
  | cons t ts ih =>
    rcases us with _ | ⟨u, us⟩
    · exact absurd h (by simp [keyWords_ne_nil])
    · obtain ⟨hhead, hrest⟩ := outline_of_keyWords (fun n us heq => ht n us (heq ▸ mem_cons_self))
        (fun n us heq => hu n us (heq ▸ mem_cons_self)) h
      rw [map_cons, map_cons, hhead, ih (fun n us hn => ht n us (mem_cons_of_mem _ hn))
        (fun n us hn => hu n us (mem_cons_of_mem _ hn)) hrest]

theorem mapVars_of_flat (h : t.Flat) : t.mapVars (fun _ => .var ⟨0⟩) = t.outline := by
  have hargs : mapVarsList (fun _ => .var ⟨0⟩) t.args = t.args.map fun _ => .var ⟨0⟩ := by
    rw [mapVarsList_eq_map]
    refine map_congr_left fun u hu => ?_
    obtain ⟨v, rfl⟩ := h u hu
    rfl
  cases t with
  | var => rfl
  | defined n ts => exact congrArg (Ty.defined n) hargs
  | tuple ts => exact congrArg Ty.tuple hargs
  | higherOrder k ts => exact congrArg (Ty.higherOrder k) hargs

theorem instanceKeys_inj (ht : PlainNames ts) (hu : PlainNames us)
    (h : instanceKeys ts = instanceKeys us) : ts.map outline = us.map outline := by
  have hempty : ∀ t ts, instanceKeys (t :: ts) ≠ "" := by
    intro t ts
    have hkey : t.instanceKey ≠ "" := by cases t <;> simp [instanceKey]
    cases ts <;> simp [instanceKeys, hkey]
  rcases ts with _ | ⟨t, ts⟩ <;> rcases us with _ | ⟨u, us⟩
  · rfl
  · exact absurd h.symm (hempty u us)
  · exact absurd h (hempty t ts)
  · rw [instanceKeys_eq, instanceKeys_eq] at h
    have hmark : "__".toList ≠ [] := by decide
    exact outline_of_words ht hu (intercalate_inj hmark (by simp [keyWords_ne_nil])
      (by simp [keyWords_ne_nil]) (fun _ => unmarked_keyWords ht) (fun _ => unmarked_keyWords hu) h)

theorem overlap_of_outline (ht : ∀ t ∈ ts, t.Flat) (hu : ∀ u ∈ us, u.Flat)
    (h : ts.map outline = us.map outline) : Overlap ts us := by
  refine ⟨fun _ => .var ⟨0⟩, fun _ => .var ⟨0⟩, ?_⟩
  rw [mapVarsList_eq_map, mapVarsList_eq_map, map_congr_left fun t h => mapVars_of_flat (ht t h),
    map_congr_left fun u h => mapVars_of_flat (hu u h), h]

end Ty

/-- A dictionary that an instance gives is built on a constant that has the
    instance's key. Instances have the same key if the outlines of their types are
    the same. If the names in them are plain, they do only then, so that instances
    at flat types that do not overlap have different keys. -/
theorem instance_keys_tell_outlines (env : WitnessEnv) (cls : ClassId) (n n' : Nat)
    (a b : InstanceDefn) (ha : ((env.env.instances.find? cls).getD [])[n]? = some a)
    (hb : ((env.env.instances.find? cls).getD [])[n']? = some b) :
    (∀ {context resolve c s v goals s'}, c.classId = cls →
      Synth.Returns (Synth.instanceDictionary env context resolve c n) s (v, goals) s' →
      ∃ setup base args, goals = setup ++
        [.construct base (.baseDictionary a.owner cls n (Ty.instanceKeys a.types)) [] context,
          .construct v .dictionary (base :: args) context]) ∧
    (a.types.map Ty.outline = b.types.map Ty.outline →
      Ty.instanceKeys a.types = Ty.instanceKeys b.types) ∧
    (Ty.PlainNames a.types → Ty.PlainNames b.types →
      (Ty.instanceKeys a.types = Ty.instanceKeys b.types →
        a.types.map Ty.outline = b.types.map Ty.outline) ∧
      ((∀ t ∈ a.types, t.Flat) → (∀ t ∈ b.types, t.Flat) → ¬ Ty.Overlap a.types b.types →
        Ty.instanceKeys a.types ≠ Ty.instanceKeys b.types)) := by
  refine ⟨?_, Ty.instanceKeys_congr, fun hpa hpb => ⟨Ty.instanceKeys_inj hpa hpb,
    fun hfa hfb hno heq => hno ?_⟩⟩
  · rintro context resolve c s v goals s' rfl h
    cases Synth.instanceDictionary_cases h with
    | mk hinst =>
      cases hinst.symm.trans ha
      exact ⟨_, _, _, rfl⟩
  · exact Ty.overlap_of_outline hfa hfb (Ty.instanceKeys_inj hpa hpb heq)

namespace OrderedLists

/-- The two instances of equality have keys of their own. -/
theorem eq_instance_keys_differ : ¬ Ty.Overlap [.int] [list (.var ⟨0⟩)] ∧
    Ty.instanceKeys [.int] ≠ Ty.instanceKeys [list (.var ⟨0⟩)] := by
  have hno : ¬ Ty.Overlap [.int] [list (.var ⟨0⟩)] := by
    rintro ⟨f, g, h⟩
    simp [Ty.mapVarsList, Ty.mapVars, list, Ty.int, Ty.named, SymName.qualified,
      SymName.unqualified] at h
  have hplain : ∀ t ∈ [.int, list (.var ⟨0⟩)], Ty.PlainNames [t] := by
    intro t ht n us hmem
    obtain rfl := mem_singleton.1 hmem
    simp only [mem_cons, not_mem_nil, or_false] at ht
    rcases ht with heq | heq <;> cases heq <;> constructor <;> decide
  refine ⟨hno, ((instance_keys_tell_outlines ⟨orders, ""⟩ (eq .int).classId 0 1 _ _ rfl rfl).2.2
    (hplain _ (by simp)) (hplain _ (by simp))).2 ?_ ?_ hno⟩
  · rintro _ ht u hu
    obtain rfl := mem_singleton.1 ht
    cases hu
  · rintro _ ht u hu
    obtain rfl := mem_singleton.1 ht
    exact ⟨_, mem_singleton.1 hu⟩

/-- Instances at lists of integers and of strings share a key. -/
theorem list_instances_share_key : ¬ Ty.Overlap [list .int] [list .string] ∧
    Ty.instanceKeys [list .int] = "__list__arity1" ∧
    Ty.instanceKeys [list .string] = "__list__arity1" := by
  refine ⟨?_, by decide +kernel, by decide +kernel⟩
  rintro ⟨f, g, h⟩
  simp [Ty.mapVarsList, Ty.mapVars, list, Ty.int, Ty.string, Ty.named, SymName.qualified] at h

end OrderedLists

end Clausal
