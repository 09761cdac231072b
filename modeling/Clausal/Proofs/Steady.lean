import Clausal.Proofs.Steps

/-!
# Steps from states that are alike

What a step returns from a state, it returns from any state that is alike for it
(`Synth.Steady`), whatever relation between states that is. Making type-infos takes
states to be alike if they have the same variables and records, and name the type
variables alike (`WitnessState.Similarity`).
-/

namespace Clausal

open List WitnessState

/-- A relation between states with the same variables and records, in which type
    variables that are `known` have the same names. New variables with types over
    these, and other records, leave states related. -/
class WitnessState.Similarity (R : WitnessState → WitnessState → Prop)
    (known : outParam (TypeVar → Prop)) : Prop where
  vars : ∀ {s t}, R s t → t.vars = s.vars
  witnesses : ∀ {s t}, R s t → t.witnesses = s.witnesses
  varName : ∀ {s t v}, R s t → known v → t.scope.varName v = s.scope.varName v
  setWitnesses : ∀ {s t} (w : WitnessMap), R s t → R (s.setWitnesses w) (t.setWitnesses w)
  addVar : ∀ {s t type} (name : String), R s t → (∀ v ∈ Ty.occurrences type, known v) →
    R (s.addVar name type) (t.addVar name type)

namespace Synth

/-- What the step `x` returns from a state, the step `x'` returns from any state that
    is related to it. The states that are left are related. -/
def Steady {α : Type} (R : WitnessState → WitnessState → Prop) (x x' : Synth α) : Prop :=
  ∀ ⦃s t a s₁⦄, R s t → Returns x s a s₁ → ∃ t₁, R s₁ t₁ ∧ Returns x' t a t₁

variable {α β : Type} {R : WitnessState → WitnessState → Prop} {context : Context}
  {known : TypeVar → Prop} {v : TypeVar} {type : Ty}

namespace Steady

variable {x x' : Synth α} {f f' : α → Synth β}

theorem never (h : ∀ s a s₁, ¬ Returns x s a s₁) : Steady R x x' :=
  fun _ _ _ _ _ hx => absurd hx (h _ _ _)

protected theorem breach {e : WitnessEnv} {cause : Breach} : Steady R (breach e cause) x' :=
  .never fun _ _ _ => not_returns_breach

protected theorem pure (a : α) : Steady R (pure a) (pure a) := by
  intro s t b s₁ hR h
  obtain ⟨rfl, rfl⟩ := returns_pure.1 h
  exact ⟨t, hR, returns_pure.2 ⟨rfl, rfl⟩⟩

/-- One step after the other, where the first steps may return different results. -/
theorem bind_of {γ : Type} {y : Synth γ} {g : γ → Synth β}
    (h : ∀ {s t a s₁}, R s t → Returns x s a s₁ →
      ∃ c t₁, R s₁ t₁ ∧ Returns y t c t₁ ∧ Steady R (f a) (g c)) :
    Steady R (x >>= f) (y >>= g) := by
  intro s t b s₂ hR hb
  obtain ⟨a, s₁, hx, hf⟩ := returns_bind.1 hb
  obtain ⟨c, t₁, hR₁, hy, hg⟩ := h hR hx
  obtain ⟨t₂, hR₂, hg⟩ := hg hR₁ hf
  exact ⟨t₂, hR₂, returns_bind.2 ⟨c, t₁, hy, hg⟩⟩

theorem breach_bind {e : WitnessEnv} {cause : Breach} {y : Synth β} :
    Steady R (Synth.breach e cause >>= f) y :=
  .never fun _ _ _ h => by
    obtain ⟨_, _, h, -⟩ := returns_bind.1 h
    exact not_returns_breach h

theorem bind_of_returns (hx : Steady R x x')
    (hf : ∀ {s a s₁}, Returns x s a s₁ → Steady R (f a) (f' a)) :
    Steady R (x >>= f) (x' >>= f') :=
  .bind_of fun {_ _ a _} hR h => by
    obtain ⟨t₁, hR₁, h'⟩ := hx hR h
    exact ⟨a, t₁, hR₁, h', hf h⟩

/-- One step after the other. -/
protected theorem bind (hx : Steady R x x') (hf : ∀ a, Steady R (f a) (f' a)) :
    Steady R (x >>= f) (x' >>= f') :=
  hx.bind_of_returns fun {_ a _} _ => hf a

theorem ofGet {f f' : WitnessState → Synth β}
    (hf : ∀ s t, R s t → Steady R (f s) (f' t)) : Steady R (get >>= f) (get >>= f') :=
  .bind_of fun {_ t _ _} hR h => by
    obtain ⟨rfl, rfl⟩ := returns_get.1 h
    exact ⟨t, t, hR, returns_get.2 ⟨rfl, rfl⟩, hf _ t hR⟩

theorem lift_bind {r : Except Fault α} (hf : ∀ a, r = .ok a → Steady R (f a) (f' a)) :
    Steady R ((liftM r : Synth α) >>= f) ((liftM r : Synth α) >>= f') :=
  .bind_of fun {_ t a _} hR h => by
    obtain ⟨ha, rfl⟩ := returns_lift.1 h
    exact ⟨a, t, hR, returns_lift.2 ⟨ha, rfl⟩, hf a ha⟩

theorem ofOption_bind {o : Option α} (hf : ∀ a, o = some a → Steady R (f a) (f' a)) :
    Steady R (ofOption o >>= f) (ofOption o >>= f') :=
  .bind_of fun {_ t a _} hR h => by
    obtain ⟨ha, rfl⟩ := returns_ofOption.1 h
    exact ⟨a, t, hR, returns_ofOption.2 ⟨ha, rfl⟩, hf a ha⟩

protected theorem modify {f f' : WitnessState → WitnessState}
    (hf : ∀ s t, R s t → R (f s) (f' t)) : Steady R (modify f) (modify f') := by
  intro s t u s₁ hR h
  obtain rfl := returns_modify.1 h
  exact ⟨_, hf s t hR, returns_modify.2 rfl⟩

protected theorem ite {c : Prop} [Decidable c] {y y' : Synth α} (hx : c → Steady R x x')
    (hy : ¬ c → Steady R y y') : Steady R (if c then x else y) (if c then x' else y') := by
  split
  · next h => exact hx h
  · next h => exact hy h

protected theorem mapM {as : List α} (h : ∀ a ∈ as, Steady R (f a) (f' a)) :
    Steady R (as.mapM f) (as.mapM f') := by
  induction as with
  | nil => exact .pure []
  | cons a as ih =>
    rw [mapM_cons, mapM_cons]
    refine (h a mem_cons_self).bind fun b => ?_
    exact (ih fun a ha => h a (mem_cons_of_mem _ ha)).bind fun bs => .pure _

protected theorem collect {step step' : α → Synth (ProgVar × List Goal)} {as : List α}
    (h : ∀ a ∈ as, Steady R (step a) (step' a)) :
    Steady R (collect step as) (collect step' as) := by
  induction as with
  | nil => exact .pure ([], [])
  | cons a as ih =>
    rw [Synth.collect, Synth.collect]
    refine (h a mem_cons_self).bind fun b => ?_
    exact (ih fun a ha => h a (mem_cons_of_mem _ ha)).bind fun bs => .pure _

protected theorem forIn {as : List α} {u : PUnit} {f f' : α → PUnit → Synth (ForInStep PUnit)}
    (h : ∀ a ∈ as, ∀ u, Steady R (f a u) (f' a u)) :
    Steady R (forIn as u f) (forIn as u f') := by
  induction as generalizing u with
  | nil => exact .pure u
  | cons a as ih =>
    rw [forIn_cons, forIn_cons]
    refine (h a mem_cons_self u).bind fun r => ?_
    cases r with
    | done u => exact .pure u
    | yield u => exact ih fun a ha => h a (mem_cons_of_mem _ ha)

end Steady

/-! ### New variables and records -/

section

variable [alike : Similarity R known]

include alike

theorem newVar_steady (name : String) (ht : ∀ w ∈ type.occurrences, known w) :
    Steady R (newVar name type) (newVar name type) := by
  intro s t v s₁ hR h
  obtain ⟨rfl, rfl⟩ := returns_newVar.1 h
  refine ⟨_, Similarity.addVar name hR ht, returns_newVar.2 ⟨?_, rfl⟩⟩
  rw [nextVar, nextVar, Similarity.vars hR]

theorem newGround_steady (name : String) (ht : type.occurrences = []) :
    Steady R (newVar name type) (newVar name type) :=
  newVar_steady name fun _ h => absurd (ht ▸ h) not_mem_nil

theorem newTypeInfo_steady (name : String) : Steady R (newTypeInfo name) (newTypeInfo name) :=
  newGround_steady _ rfl

theorem newDictionary_steady (name : String) :
    Steady R (newDictionary name) (newDictionary name) :=
  newGround_steady _ rfl

/-- A step that changes the records, given what they are. -/
theorem setWitnesses_steady (f : WitnessMap → WitnessMap) :
    Steady R (modify fun s => s.setWitnesses (f s.witnesses))
      (modify fun s => s.setWitnesses (f s.witnesses)) :=
  .modify fun s t hR => by
    rw [Similarity.witnesses hR]
    exact Similarity.setWitnesses _ hR

theorem putTypeInfo_steady (v : TypeVar) (source : TypeInfoSource) :
    Steady R (putTypeInfo v source) (putTypeInfo v source) :=
  setWitnesses_steady fun w => { w with typeInfos := w.typeInfos.insert v source }

theorem addTypeInfo_steady (v : TypeVar) (source : TypeInfoSource) :
    Steady R (addTypeInfo v source) (addTypeInfo v source) :=
  setWitnesses_steady fun w => { w with typeInfos := w.typeInfos.insertIfNew v source }

theorem putDictionary_steady (c : Constraint) (var : ProgVar) :
    Steady R (putDictionary c var) (putDictionary c var) :=
  setWitnesses_steady fun w => { w with dictionaries := w.dictionaries.insert c var }

theorem takeSlot_steady (p : Primitive) (name : String) (dictionary : ProgVar) (slot : Nat)
    {newResult : Synth ProgVar} (h : Steady R newResult newResult) :
    Steady R (takeSlot p name dictionary slot newResult context)
      (takeSlot p name dictionary slot newResult context) :=
  (newGround_steady _ rfl).bind fun _ => h.bind fun _ => .pure _

/-! ### Type-infos -/

theorem typeVarInfo_steady (hv : known v) :
    Steady R (typeVarInfo context v) (typeVarInfo context v) := by
  refine .ofGet fun s t hR => ?_
  simp only [Similarity.witnesses hR, Similarity.varName hR hv]
  split
  · exact .pure _
  · exact takeSlot_steady _ _ _ _ (newTypeInfo_steady _)
  · exact (newTypeInfo_steady _).bind fun _ => (putTypeInfo_steady _ _).bind fun _ => .pure _

theorem typeCell_steady (ctor : RuntimeCtor) (args : List ProgVar) :
    Steady R (typeCell context ctor args) (typeCell context ctor args) := by
  unfold typeCell
  split
  · exact (newGround_steady _ rfl).bind fun _ => .pure _
  · refine (newGround_steady _ rfl).bind fun _ => ?_
    dsimp only
    split
    · exact (newGround_steady _ rfl).bind fun _ => Steady.bind (.pure _) fun _ =>
        (newTypeInfo_steady _).bind fun _ => .pure _
    · exact Steady.bind (.pure _) fun _ => (newTypeInfo_steady _).bind fun _ => .pure _

end

mutual

theorem typeInfo_steady [Similarity R known] : ∀ {t : Ty}, (∀ w ∈ t.occurrences, known w) →
    Steady R (typeInfo context t) (typeInfo context t)
  | .var v, h => typeVarInfo_steady (h v (by simp [Ty.occurrences]))
  | .defined _ ts, h =>
    (typeInfos_steady h).bind fun _ => (typeCell_steady _ _).bind fun _ => .pure _
  | .tuple ts, h =>
    (typeInfos_steady h).bind fun _ => (typeCell_steady _ _).bind fun _ => .pure _
  | .higherOrder _ ts, h =>
    (typeInfos_steady h).bind fun _ => (typeCell_steady _ _).bind fun _ => .pure _

theorem typeInfos_steady [Similarity R known] : ∀ {ts : List Ty},
    (∀ w ∈ Ty.occurrencesList ts, known w) → Steady R (typeInfos context ts) (typeInfos context ts)
  | [], _ => .pure _
  | _ :: _, h =>
    (typeInfo_steady fun w hw => h w (mem_append_left _ hw)).bind fun _ =>
      (typeInfos_steady fun w hw => h w (mem_append_right _ hw)).bind fun _ => .pure _

end

/-! ### Dictionaries -/

/-- A search for dictionaries is as steady as its steps are, which lead from
    constraints in `P` to such ones. -/
theorem search_steady [Similarity R known] {P : Constraint → Prop} {e e' : WitnessEnv}
    (hproofs : ∀ {s t}, R s t → t.proofs.find? = s.proofs.find?)
    (hsub : ∀ {s t c sub}, R s t → s.proofs.find? c = some (.bySuperclass sub) → P sub)
    (hinst : ∀ {resolve resolve'}, (∀ b, P b → Steady R (resolve b) (resolve' b)) →
      ∀ {c}, P c → ∀ n, Steady R (instanceDictionary e context resolve c n)
        (instanceDictionary e' context resolve' c n))
    (hsuper : ∀ {resolve resolve' c sub}, Steady R (resolve sub) (resolve' sub) → P sub →
      Steady R (superclassDictionary e context resolve c sub)
        (superclassDictionary e' context resolve' c sub))
    (depth : Nat) (pending : List Constraint) {c : Constraint} (hc : P c) :
    Steady R (dictionaryWithin e context depth pending c)
      (dictionaryWithin e' context depth pending c) := by
  induction depth generalizing pending c with
  | zero =>
    unfold dictionaryWithin
    refine .ofGet fun s t hR => ?_
    simp only [Similarity.witnesses hR]
    split
    · exact .pure _
    · refine .never fun s a s₁ h => ?_
      split at h
      · simp at h
      · split at h <;> simp at h
  | succ depth ih =>
    unfold dictionaryWithin
    refine .ofGet fun s t hR => ?_
    simp only [Similarity.witnesses hR, hproofs hR]
    split
    · exact .pure _
    · split
      · exact .breach_bind
      · cases hproof : s.proofs.find? c with
        | none => exact .breach
        | some proof =>
          cases proof with
          | byInstance n =>
            exact (hinst (fun b hb => ih _ hb) hc n).bind fun _ =>
              (putDictionary_steady _ _).bind fun _ => .pure _
          | bySuperclass sub =>
            exact (hsuper (ih _ (hsub hR hproof)) (hsub hR hproof)).bind fun _ =>
              (putDictionary_steady _ _).bind fun _ => .pure _

end Synth

end Clausal
