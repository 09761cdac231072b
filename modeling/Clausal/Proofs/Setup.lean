import Clausal.Proofs.Steps

/-!
# Set-ups

What making witnesses does, apart from what the witnesses are worth. New
variables are added at the end of the table (`WitnessState.Grows`), and nothing
that is on record is forgotten (`WitnessState.Keeps`). The goals that come with the witnesses build
constants and cells or call accessors, each of them binds one new variable, and
what they read is on record or bound by an earlier one (`Setup`). The
witnesses themselves are on record, or bound by these goals (`Makes`).

What is on record is only ever looked at through a property of all of it
(`WitnessMap.InfosIn`, `WitnessMap.DictsIn`), so that the statements serve for
any property that new variables have.
-/

namespace Clausal

open List WitnessState Synth VarTable

variable {vs : List ProgVar} {X : ProgVar → Prop} {v var : ProgVar} {c : Constraint}
  {cs : List Constraint} {ts : List Ty} {p : Primitive} {ws : List ProgVar}

/-! ### Tables and records -/

/-- The one table starts with the other. -/
def VarTable.Extends (t t' : VarTable) : Prop := ∃ more, t'.entries = t.entries ++ more

namespace VarTable

variable {t t' t'' : VarTable} {type : Ty}

theorem Extends.refl (t : VarTable) : t.Extends t := ⟨#[], by simp⟩

theorem Extends.trans (h : t.Extends t') (h' : t'.Extends t'') : t.Extends t'' := by
  obtain ⟨more, h⟩ := h
  obtain ⟨more', h'⟩ := h'
  exact ⟨more ++ more', by rw [h', h, Array.append_assoc]⟩

theorem Extends.add (t : VarTable) (name : Option String) (type : Ty) :
    t.Extends (t.add name type).2 :=
  ⟨#[⟨name, type⟩], by simp [VarTable.add]⟩

theorem Extends.size_le (h : t.Extends t') : t.size ≤ t'.size := by
  obtain ⟨more, h⟩ := h
  simp [size, h]

theorem type_eq_ok : t.type v = .ok type ↔ ∃ e, t.find? v = some e ∧ e.type = type := by
  unfold VarTable.type get
  cases t.find? v with
  | none => simp [bind, Except.bind]
  | some e => simp [bind, Except.bind, pure, Except.pure]

/-- A variable with a type is in the table. -/
theorem lt_size_of_type (h : t.type v = .ok type) : v.index < t.size := by
  obtain ⟨e, he, -⟩ := type_eq_ok.1 h
  exact (Array.getElem?_eq_some_iff.1 he).1

theorem exists_type_of_lt (h : v.index < t.size) : ∃ type, t.type v = .ok type :=
  ⟨_, type_eq_ok.2 ⟨_, Array.getElem?_eq_getElem h, rfl⟩⟩

/-- A variable keeps its type when variables are added. -/
theorem Extends.type_eq (h : t.Extends t') (hv : t.type v = .ok type) : t'.type v = .ok type := by
  obtain ⟨more, h⟩ := h
  obtain ⟨e, he, hte⟩ := type_eq_ok.1 hv
  refine type_eq_ok.2 ⟨e, ?_, hte⟩
  rw [find?] at he ⊢
  obtain ⟨hlt, -⟩ := Array.getElem?_eq_some_iff.1 he
  rw [h, Array.getElem?_append_left hlt, he]

theorem types_eq_ok :
    t.types vs = .ok ts ↔ Forall₂ (fun v type => t.type v = .ok type) vs ts :=
  mapM_eq_ok_iff

@[simp] theorem type_add_self (t : VarTable) (name : Option String) (type : Ty) :
    (t.add name type).2.type ⟨t.size⟩ = .ok type :=
  type_eq_ok.2 ⟨⟨name, type⟩, by simp [find?, VarTable.add, size], rfl⟩

end VarTable

/-- The scope `k` has the variables of `d`, and may have more behind them. -/
def TypeScope.Extends (d k : TypeScope) : Prop := ∃ more, k.names = d.names ++ more

theorem TypeScope.Extends.refl (d : TypeScope) : d.Extends d := ⟨#[], by simp⟩

theorem TypeScope.Extends.trans {d k k' : TypeScope} (h : d.Extends k) (h' : k.Extends k') :
    d.Extends k' := by
  obtain ⟨more, h⟩ := h
  obtain ⟨more', h'⟩ := h'
  exact ⟨more ++ more', by rw [h', h, Array.append_assoc]⟩

/-- The type of the variable in or through which a type-info is found. -/
def TypeInfoSource.type : TypeInfoSource → Ty
  | .direct _ => .typeInfo
  | .slot _ _ => .dictionary

namespace WitnessMap

/-- The variables in or through which type-infos are found are all of a kind,
    given their types. -/
def InfosIn (w : WitnessMap) (Q : Ty → ProgVar → Prop) : Prop :=
  ∀ t source, w.typeInfos.find? t = some source → Q source.type source.var

/-- The dictionaries on record are all of a kind. -/
def DictsIn (w : WitnessMap) (X : ProgVar → Prop) : Prop :=
  ∀ c v, w.dictionaries.find? c = some v → X v

/-- What is on record is all of a kind. -/
def All (w : WitnessMap) (Q : Ty → ProgVar → Prop) : Prop := w.InfosIn Q ∧ w.DictsIn (Q .dictionary)

variable {w : WitnessMap} {Q R : Ty → ProgVar → Prop} {Y : ProgVar → Prop}

theorem InfosIn.mono (h : w.InfosIn Q) (hQ : ∀ t v, Q t v → R t v) : w.InfosIn R :=
  fun t source ht => hQ _ _ (h t source ht)

theorem DictsIn.mono (h : w.DictsIn X) (hX : ∀ v, X v → Y v) : w.DictsIn Y :=
  fun c v hc => hX v (h c v hc)

theorem All.mono (h : w.All Q) (hQ : ∀ t v, Q t v → R t v) : w.All R :=
  ⟨h.1.mono hQ, h.2.mono (hQ _)⟩

theorem all_empty (Q : Ty → ProgVar → Prop) : WitnessMap.All {} Q := by
  refine ⟨fun t source h => ?_, fun c v h => ?_⟩ <;> cases h

end WitnessMap

/-! ### Growing -/

namespace WitnessState

variable {s s₁ s' : WitnessState} {Q : Ty → ProgVar → Prop}

/-- The variables that are new in `s'` are of a kind, given their types. -/
def NewIn (s s' : WitnessState) (Q : Ty → ProgVar → Prop) : Prop :=
  ∀ type v, s.vars.size ≤ v.index → s'.vars.type v = .ok type → Q type v

/-- Nothing is on record. -/
def Blank (s : WitnessState) : Prop := s.witnesses.All fun _ _ => False

/-- Variables are added to the state, and what is put on record, or into the head,
    are new variables. Something stays on record. -/
structure Grows (s s' : WitnessState) : Prop where
  vars : s.vars.Extends s'.vars
  records : ∀ Q, s.witnesses.All Q → s.NewIn s' Q → s'.witnesses.All Q
  heads : ∀ v ∈ s'.headWitnesses, v ∈ s.headWitnesses ∨ s.vars.size ≤ v.index
  blank : s'.Blank → s.Blank

/-- What is on record stays on record, and type variables stay in the scope. -/
structure Keeps (s s' : WitnessState) : Prop where
  scope : s.scope.Extends s'.scope
  infos : ∀ t source, s.witnesses.typeInfos.find? t = some source →
    s'.witnesses.typeInfos.find? t = some source
  dicts : ∀ c v, s.witnesses.dictionaries.find? c = some v →
    s'.witnesses.dictionaries.find? c = some v

/-- What is new on a part of the way is new on the whole way. -/
theorem NewIn.mono (h : s.NewIn s' Q) (hs : s.vars.size ≤ s₁.vars.size)
    (hs' : s₁.vars.Extends s'.vars) : s.NewIn s₁ Q ∧ s₁.NewIn s' Q :=
  ⟨fun type v hv ht => h type v hv (hs'.type_eq ht),
    fun type v hv ht => h type v (Nat.le_trans hs hv) ht⟩

theorem Grows.refl (s : WitnessState) : s.Grows s :=
  ⟨.refl _, fun _ h _ => h, fun _ => .inl, fun h => h⟩

theorem Grows.trans (h : s.Grows s₁) (h' : s₁.Grows s') : s.Grows s' where
  vars := h.vars.trans h'.vars
  records Q hQ hnew :=
    let ⟨hnew₁, hnew₂⟩ := hnew.mono h.vars.size_le h'.vars
    h'.records Q (h.records Q hQ hnew₁) hnew₂
  heads v hv := (h'.heads v hv).elim (h.heads v) fun hle => .inr (h.vars.size_le.trans hle)
  blank hb := h.blank (h'.blank hb)

theorem Grows.addVar (s : WitnessState) (name : String) (type : Ty) :
    s.Grows (s.addVar name type) :=
  ⟨.add .., fun _ h _ => h, fun _ => .inl, fun h => h⟩

theorem Grows.of_eq (hv : s'.vars = s.vars) (hw : s'.witnesses = s.witnesses)
    (hh : s'.headWitnesses = s.headWitnesses) : s.Grows s' :=
  ⟨hv ▸ .refl _, fun _ h _ => hw ▸ h, fun _ h => .inl (hh ▸ h), fun h => by rwa [Blank, ← hw]⟩

/-- What is on record are variables of the table. -/
def Closed (s : WitnessState) : Prop := s.witnesses.All fun _ v => v.index < s.vars.size

/-- As a state grows, what is on record stays within the table of variables. -/
theorem Grows.closed (h : s.Grows s') (hs : s.Closed) : s'.Closed := by
  refine h.records _ (hs.mono fun _ v hv => ?_) fun _ v _ hv => lt_size_of_type hv
  exact Nat.lt_of_lt_of_le hv h.vars.size_le

theorem Keeps.of_eq (hw : s'.witnesses = s.witnesses) (hs : s.scope.Extends s'.scope) :
    s.Keeps s' :=
  ⟨hs, fun _ _ h => hw ▸ h, fun _ _ h => hw ▸ h⟩

theorem Keeps.refl (s : WitnessState) : s.Keeps s := .of_eq rfl (.refl _)

theorem Keeps.mergeScope (s : WitnessState) (other : TypeScope) : s.Keeps (s.mergeScope other) :=
  .of_eq rfl ⟨other.names, rfl⟩

theorem Keeps.trans (h : s.Keeps s₁) (h' : s₁.Keeps s') : s.Keeps s' :=
  ⟨h.scope.trans h'.scope, fun t source ht => h'.infos t source (h.infos t source ht),
    fun c v hc => h'.dicts c v (h.dicts c v hc)⟩

/-- What holds of all records in the end holds of those at the start. -/
theorem Keeps.infosIn (h : s.Keeps s') (hQ : s'.witnesses.InfosIn Q) : s.witnesses.InfosIn Q :=
  fun t source ht => hQ t source (h.infos t source ht)

theorem Keeps.dictsIn (h : s.Keeps s') (hX : s'.witnesses.DictsIn X) : s.witnesses.DictsIn X :=
  fun c v hc => hX c v (h.dicts c v hc)

theorem Keeps.blank (h : s.Keeps s') (hb : s'.Blank) : s.Blank :=
  ⟨h.infosIn hb.1, h.dictsIn hb.2⟩

theorem type_addVar (hv : v.index = s.vars.size) (name : String) (type : Ty) :
    (s.addVar name type).vars.type v = .ok type := by
  obtain rfl : v = ⟨s.vars.size⟩ := by cases v; exact congrArg _ hv
  exact type_add_self ..

end WitnessState

/-! ### Goals that make witnesses -/

/-- The constants and cells that witnesses are made of. -/
def Symbol.isRuntime : Symbol → Bool
  | .int _ | .typeCtorInfo _ | .typeInfo _ | .baseDictionary .. | .dictionary => true
  | .cons .. | .tuple _ | .string _ | .closure _ | .tableRoot _ | .ioEntry _ => false

/-- Goals that read variables of the kind `X` and bind the given variables,
    one after the other. -/
inductive Setup (context : Context) : (ProgVar → Prop) → List Goal → List ProgVar → Prop
  | nil {X : ProgVar → Prop} : Setup context X [] []
  | construct {X : ProgVar → Prop} {v : ProgVar} {f : Symbol} {args : List ProgVar}
      {goals : List Goal} {bound : List ProgVar} (symbol : f.isRuntime) (reads : ∀ a ∈ args, X a)
      (rest : Setup context (fun w => w = v ∨ X w) goals bound) :
      Setup context X (.construct v f args context :: goals) (v :: bound)
  | accessor {X : ProgVar → Prop} {p : Primitive} {d slot r : ProgVar} {goals : List Goal}
      {bound : List ProgVar} (primitive : p ∈ dictionaryAccessors) (reads : ∀ a ∈ [d, slot], X a)
      (rest : Setup context (fun w => w = r ∨ X w) goals bound) :
      Setup context X (Synth.accessor p d slot r context :: goals) (r :: bound)

section

variable {d slot r : ProgVar} {f : Symbol} {args : List ProgVar} {context : Context}

@[simp] theorem Goal.bound_construct :
    (Goal.construct v f args context).info.bound = .singleton v := rfl

@[simp] theorem Goal.freeVars_construct :
    (Goal.construct v f args context).freeVars = .ofList (v :: args) := by
  simp [construct, exposeFree, setNonlocals, freeVars, UnifyRhs.vars, Unification.witnesses]

@[simp] theorem Synth.bound_accessor :
    (accessor p d slot r context).info.bound = .ofList [r] := rfl

@[simp] theorem Synth.freeVars_accessor :
    (accessor p d slot r context).freeVars = .ofList [d, slot, r] := by
  simp [accessor, Goal.callProc, Goal.exposeFree, Goal.setNonlocals, Goal.freeVars]

end

/-- What each goal binds is among the variables, or a later goal reads it. -/
def Feeds (vs : List ProgVar) : List Goal → Prop
  | [] => True
  | g :: goals => (∀ v ∈ g.info.bound, v ∈ vs ∨ v ∈ Goal.freeVarsList goals) ∧ Feeds vs goals

section

variable {context : Context} {Y : ProgVar → Prop} {goals more : List Goal}
  {bound bound' : List ProgVar}

/-- What the first goals bind for the outside may be read by the others. -/
theorem Feeds.append (h : Feeds vs goals) (h' : Feeds ws more)
    (hvs : ∀ v ∈ vs, v ∈ ws ∨ v ∈ Goal.freeVarsList more) : Feeds ws (goals ++ more) := by
  induction goals with
  | nil => exact h'
  | cons g goals ih =>
    refine ⟨fun v hv => ?_, ih h.2⟩
    have hbound := h.1 v hv
    simp only [Goal.mem_freeVarsList] at hvs hbound ⊢
    rcases hbound with hv | ⟨k, hk, hv⟩
    · refine (hvs v hv).imp_right ?_
      rintro ⟨k, hk, hv⟩
      exact ⟨k, mem_append_right _ hk, hv⟩
    · exact .inr ⟨k, mem_append_left _ hk, hv⟩

theorem Feeds.mono (h : Feeds vs goals) (hvs : vs ⊆ ws) : Feeds ws goals := by
  have hnil : Feeds ws [] := trivial
  exact append_nil goals ▸ h.append hnil fun _ hv => .inl (hvs hv)

/-- More variables may be taken from outside. -/
theorem Setup.mono (h : Setup context X goals bound) (hX : ∀ v, X v → Y v) :
    Setup context Y goals bound := by
  induction h generalizing Y with
  | nil => exact .nil
  | construct hf hargs _ ih =>
    exact .construct hf (fun a ha => hX a (hargs a ha)) (ih fun v hv => hv.imp_right (hX v))
  | accessor hp hargs _ ih =>
    exact .accessor hp (fun a ha => hX a (hargs a ha)) (ih fun v hv => hv.imp_right (hX v))

/-- The goals that follow may use what those before them have bound. -/
theorem Setup.append (h : Setup context X goals bound)
    (h' : Setup context (fun v => v ∈ bound ∨ X v) more bound') :
    Setup context X (goals ++ more) (bound ++ bound') := by
  induction h with
  | nil => exact h'.mono fun v hv => by simpa using hv
  | construct hf hargs _ ih =>
    refine .construct hf hargs (ih (h'.mono fun v hv => ?_))
    simpa [or_left_comm, or_assoc] using hv
  | accessor hp hargs _ ih =>
    refine .accessor hp hargs (ih (h'.mono fun v hv => ?_))
    simpa [or_left_comm, or_assoc] using hv

/-- The variables are new and all different, and those that go on record, as far
    as `on` looks at the records, are other new ones. -/
structure WitnessState.Leaves (on : WitnessMap → (ProgVar → Prop) → Prop) (s : WitnessState)
    (bound : List ProgVar) (s' : WitnessState) : Prop where
  new : ∀ b ∈ bound, s.vars.size ≤ b.index ∧ b.index < s'.vars.size
  nodup : bound.Nodup
  records : ∀ X : ProgVar → Prop, on s.witnesses X →
    (∀ v, s.vars.size ≤ v.index → v.index < s'.vars.size → v ∉ bound → X v) → on s'.witnesses X

/-- No type variable comes to be on record with one of the variables. -/
abbrev WitnessState.LeavesInfos (s : WitnessState) (bound : List ProgVar) (s' : WitnessState) :
    Prop :=
  s.Leaves (fun w X => w.InfosIn fun _ => X) bound s'

/-- None of the variables comes to be on record. -/
abbrev WitnessState.LeavesAll (s : WitnessState) (bound : List ProgVar) (s' : WitnessState) :
    Prop :=
  s.Leaves (fun w X => w.All fun _ => X) bound s'

/-- What a step does that makes dictionaries and type-infos. What the goals
    read of what is on record are the type-infos that are on record in the end
    and the dictionaries that are on record at the start. -/
structure Makes (context : Context) (s : WitnessState) (dicts infos : List ProgVar)
    (goals : List Goal) (s' : WitnessState) : Prop where
  grows : s.Grows s'
  keeps : s.Keeps s'
  results : ∀ Q, s.witnesses.All Q → s.NewIn s' Q →
    (∀ v ∈ dicts, Q .dictionary v) ∧ ∀ v ∈ infos, Q .typeInfo v
  feeds : Feeds (dicts ++ infos) goals
  setup : ∃ bound, s.LeavesInfos bound s' ∧
    ∀ X, s'.witnesses.InfosIn (fun _ => X) → s.witnesses.DictsIn X →
      Setup context X goals bound ∧ (∀ v ∈ dicts ++ infos, v ∈ bound ∨ X v) ∧
      s'.witnesses.DictsIn fun v => v ∈ bound ∨ X v

variable {s s₁ s' : WitnessState} {dicts dicts' infos infos' : List ProgVar}

namespace WitnessState.Leaves

variable {on : WitnessMap → (ProgVar → Prop) → Prop}

/-- No variables are bound where the records do not change. -/
theorem nil (h : ∀ X, on s.witnesses X → on s'.witnesses X) : s.Leaves on [] s' where
  new := by simp
  nodup := .nil
  records X hX _ := h X hX

/-- So many variables are added and bound. -/
theorem added (n : Nat) (hs : s'.vars.size = s.vars.size + n)
    (h : ∀ X, on s.witnesses X → on s'.witnesses X) :
    s.Leaves on ((List.range n).map fun i => ⟨s.vars.size + i⟩) s' where
  new := by
    intro b hb
    obtain ⟨i, hi, rfl⟩ := mem_map.1 hb
    have hi : i < n := mem_range.1 hi
    refine ⟨Nat.le_add_right .., ?_⟩
    rw [hs]
    exact Nat.add_lt_add_left hi _
  nodup := by
    refine List.Nodup.map (fun i j hij => ?_) nodup_range
    exact Nat.add_left_cancel (ProgVar.mk.inj hij)
  records X hX _ := h X hX

theorem ofGrows (h : s.Grows s') : s.LeavesAll [] s' where
  new := by simp
  nodup := .nil
  records X hX hnew := h.records (fun _ => X) hX fun _ v hv ht =>
    hnew v hv (lt_size_of_type ht) (by simp)

/-- Steps that follow each other bind different variables. -/
theorem append (hs : s.vars.size ≤ s₁.vars.size) (hs' : s₁.vars.size ≤ s'.vars.size)
    (h : s.Leaves on bound s₁) (h' : s₁.Leaves on bound' s') :
    s.Leaves on (bound ++ bound') s' := by
  have hbefore : ∀ b ∈ bound, b ∉ bound' := by
    intro b hb hb'
    have := (h.new b hb).2
    have := (h'.new b hb').1
    omega
  refine ⟨fun b hb => ?_, ?_, fun X hX hnew => ?_⟩
  · rcases mem_append.1 hb with hb | hb
    · exact ⟨(h.new b hb).1, Nat.lt_of_lt_of_le (h.new b hb).2 hs'⟩
    · exact ⟨Nat.le_trans hs (h'.new b hb).1, (h'.new b hb).2⟩
  · exact h.nodup.append h'.nodup hbefore
  · -- A variable that is new in one of the two steps is not bound in the other.
    refine h'.records X (h.records X hX fun v hv hlt hnot => ?_) fun v hv hlt hnot => ?_
    · refine hnew v hv (Nat.lt_of_lt_of_le hlt hs') fun hmem => ?_
      rcases mem_append.1 hmem with hmem | hmem
      · exact hnot hmem
      · have := (h'.new v hmem).1
        omega
    · refine hnew v (Nat.le_trans hs hv) hlt fun hmem => ?_
      rcases mem_append.1 hmem with hmem | hmem
      · have := (h.new v hmem).2
        omega
      · exact hnot hmem

end WitnessState.Leaves

theorem Makes.nil (context : Context) (s : WitnessState) : Makes context s [] [] [] s where
  grows := .refl s
  keeps := .refl s
  results _ _ _ := by simp
  feeds := trivial
  setup := ⟨[], .nil fun _ h => h, fun _ _ hd => ⟨.nil, by simp, hd.mono fun _ h => .inr h⟩⟩

/-- One step after the other. -/
theorem Makes.append (h : Makes context s dicts infos goals s₁)
    (h' : Makes context s₁ dicts' infos' more s') :
    Makes context s (dicts ++ dicts') (infos ++ infos') (goals ++ more) s' where
  grows := h.grows.trans h'.grows
  keeps := h.keeps.trans h'.keeps
  results Q hQ hnew := by
    obtain ⟨hnew₁, hnew₂⟩ := hnew.mono h.grows.vars.size_le h'.grows.vars
    obtain ⟨hd, hi⟩ := h.results Q hQ hnew₁
    obtain ⟨hd', hi'⟩ := h'.results Q (h.grows.records Q hQ hnew₁) hnew₂
    exact ⟨fun v hv => (mem_append.1 hv).elim (hd v) (hd' v),
      fun v hv => (mem_append.1 hv).elim (hi v) (hi' v)⟩
  feeds := by
    refine h.feeds.append (h'.feeds.mono fun v hv => ?_) fun v hv => .inl ?_ <;>
      simp only [mem_append] at hv ⊢ <;> tauto
  setup := by
    obtain ⟨bound, hb, hs⟩ := h.setup
    obtain ⟨bound', hb', hs'⟩ := h'.setup
    refine ⟨bound ++ bound', hb.append h.grows.vars.size_le h'.grows.vars.size_le hb',
      fun X hi hd => ?_⟩
    · -- The second part may read what the first one bound, so it is taken with the
      -- set that has these variables as well.
      obtain ⟨hg, hv, hd₁⟩ := hs X (h'.keeps.infosIn hi) hd
      obtain ⟨hg', hv', hd'⟩ := hs' (fun v => v ∈ bound ∨ X v) (hi.mono fun _ _ h => .inr h) hd₁
      refine ⟨hg.append hg', fun v hmem => ?_, hd'.mono fun v h => ?_⟩
      · have hmem : v ∈ dicts ++ infos ∨ v ∈ dicts' ++ infos' := by
          simp only [mem_append] at hmem ⊢
          tauto
        rcases hmem with hmem | hmem
        · exact (hv v hmem).imp_left (mem_append_left _)
        · exact (hv' v hmem).elim (fun h => .inl (mem_append_right _ h))
            (Or.imp_left (mem_append_left _))
      · exact h.elim (fun h => .inl (mem_append_right _ h))
          (Or.imp_left (mem_append_left _))

/-- Goals that read the witnesses made so far, and make another one from
    them. -/
theorem Makes.cell (h : Makes context s dicts infos goals s₁) (bound : List ProgVar)
    (hs : s₁.Grows s') (hw : s'.witnesses = s₁.witnesses) (hscope : s'.scope = s₁.scope)
    (hmore : ∀ X, (∀ v ∈ dicts ++ infos, X v) → Setup context X more bound)
    (hreads : ∀ v ∈ dicts ++ infos, v ∈ Goal.freeVarsList more)
    (hfeeds : Feeds (dicts' ++ infos') more) (hb : s₁.LeavesInfos bound s')
    (hd : ∀ d ∈ dicts', d ∈ bound ∧ s'.vars.type d = .ok .dictionary)
    (hi : ∀ i ∈ infos', i ∈ bound ∧ s'.vars.type i = .ok .typeInfo) :
    Makes context s dicts' infos' (goals ++ more) s' where
  grows := h.grows.trans hs
  keeps := h.keeps.trans (.of_eq hw (hscope ▸ .refl _))
  results Q _ hnew :=
    ⟨fun d hmem =>
        hnew _ d (Nat.le_trans h.grows.vars.size_le (hb.new d (hd d hmem).1).1) (hd d hmem).2,
      fun i hmem =>
        hnew _ i (Nat.le_trans h.grows.vars.size_le (hb.new i (hi i hmem).1).1) (hi i hmem).2⟩
  feeds := h.feeds.append hfeeds fun v hv => .inr (hreads v hv)
  setup := by
    obtain ⟨bound₁, hb₁, hs₁⟩ := h.setup
    refine ⟨bound₁ ++ bound, hb₁.append h.grows.vars.size_le hs.vars.size_le hb,
      fun X hX hdX => ?_⟩
    · rw [hw] at hX ⊢
      obtain ⟨hg, hv, hd₁⟩ := hs₁ X hX hdX
      refine ⟨hg.append (hmore _ hv), fun v hmem => .inl (mem_append_right _ ?_),
        hd₁.mono fun v h => h.imp_left (mem_append_left _)⟩
      exact (mem_append.1 hmem).elim (fun h => (hd v h).1) fun h => (hi v h).1

/-! ### Type-infos -/

namespace Synth

/-- The type-info of a type variable is on record, in a slot of a dictionary, or new on record. -/
theorem typeVarInfo_makes {v : TypeVar} (h : Returns (typeVarInfo context v) s (var, goals) s') :
    Makes context s [] [var] goals s' := by
  rcases typeVarInfo_cases h with ⟨hw, rfl, rfl⟩ | ⟨d, i, hw, rfl, rfl, rfl⟩ | ⟨hw, rfl, rfl, rfl⟩
  · refine ⟨.refl _, .refl _, fun Q hQ _ => ⟨by simp, fun w hmem => ?_⟩, trivial,
      [], .nil fun _ h => h,
      fun X hX hd => ⟨.nil, fun w hmem => .inr ?_, hd.mono fun _ h => .inr h⟩⟩
    · rw [mem_singleton.1 hmem]
      exact hQ.1 v _ hw
    · rw [mem_singleton.1 hmem]
      exact hX v _ hw
  · have hgrows := (WitnessState.Grows.addVar s ("Slot_for_" ++ s.scope.varName v) .int).trans
      (.addVar _ ("TypeInfo_for_" ++ s.scope.varName v) .typeInfo)
    refine ⟨hgrows, .of_eq rfl (.refl _), fun Q _ hnew => ⟨by simp, fun w hmem => ?_⟩,
      by simp [Feeds, Goal.intConst, Goal.freeVarsList], [s.nextVar, ⟨s.vars.size + 1⟩],
      .added 2 (by simp) fun _ h => h, fun X hX hd => ⟨?_, by simp, hd.mono fun _ h => .inr h⟩⟩
    · rw [mem_singleton.1 hmem]
      exact hnew .typeInfo _ (Nat.le_succ _) (type_addVar (by simp) ..)
    · have hd : X d := hX v _ hw
      refine .construct rfl (by simp) (.accessor (by simp [dictionaryAccessors]) ?_ .nil)
      simp [hd]
  · -- A new variable goes on record without being bound.
    have hfind : ∀ t, (s.witnesses.typeInfos.insert v (.direct s.nextVar)).find? t =
        if t = v then some (.direct s.nextVar) else s.witnesses.typeInfos.find? t :=
      fun t => Assoc.find?_insert ..
    have hkeeps : s.Keeps (s.setWitnesses { s.witnesses with
        typeInfos := s.witnesses.typeInfos.insert v (.direct s.nextVar) }) := by
      refine ⟨.refl _, fun t source ht => ?_, fun _ _ hc => hc⟩
      show (s.witnesses.typeInfos.insert v (.direct s.nextVar)).find? t = some source
      rw [hfind, if_neg, ht]
      rintro rfl
      rw [hw] at ht
      cases ht
    refine ⟨⟨.add .., fun Q hQ hnew => ⟨fun t source ht => ?_, hQ.2⟩, fun _ => .inl,
      hkeeps.blank⟩, ⟨hkeeps.scope, hkeeps.infos, hkeeps.dicts⟩,
      fun Q _ hnew => ⟨by simp, fun w hmem => ?_⟩, trivial, [],
      ⟨by simp, .nil, fun X hX hnew t source ht => ?_⟩,
      fun X hX hd => ⟨.nil, fun w hmem => .inr ?_, hd.mono fun _ h => .inr h⟩⟩
    · have ht : (s.witnesses.typeInfos.insert v (.direct s.nextVar)).find? t = some source := ht
      rw [hfind] at ht
      split at ht
      · cases ht
        exact hnew .typeInfo _ (Nat.le_refl _) (type_addVar rfl ..)
      · exact hQ.1 t source ht
    · rw [mem_singleton.1 hmem]
      exact hnew .typeInfo _ (Nat.le_refl _) (type_addVar rfl ..)
    · have ht : (s.witnesses.typeInfos.insert v (.direct s.nextVar)).find? t = some source := ht
      rw [hfind] at ht
      split at ht
      · cases ht
        exact hnew s.nextVar (Nat.le_refl _)
          (lt_size_of_type (type_addVar rfl _ .typeInfo)) (by simp)
      · exact hX t source ht
    · rw [mem_singleton.1 hmem]
      exact hX v (.direct s.nextVar) (by simp [WitnessState.setWitnesses])

/-- The type-info of a type is made from those of its arguments. -/
theorem typeCell_makes {ctor : RuntimeCtor} (hargs : Makes context s [] args goals s₁)
    (h : Returns (typeCell context ctor args) s₁ (var, more) s') :
    Makes context s [] [var] (goals ++ more) s' := by
  rcases typeCell_cases h with ⟨rfl, -, rfl, rfl, rfl⟩ | ⟨-, -, rfl, rfl, rfl⟩ |
    ⟨-, rfl, rfl, rfl⟩
  · refine hargs.cell [s₁.nextVar] (.addVar ..) rfl rfl
      (fun X _ => .construct rfl (by simp) .nil) (by simp) (by simp [Feeds])
      (.added 1 (by simp) fun _ h => h) (by simp) ?_
    simp [type_addVar, WitnessState.nextVar]
  · refine hargs.cell [s₁.nextVar, ⟨s₁.vars.size + 1⟩] ((WitnessState.Grows.addVar ..).trans
      (.addVar ..)) rfl rfl (fun X hX => .construct rfl (by simp) (.construct rfl ?_ .nil))
      (by simp +contextual [Goal.freeVarsList]) (by simp [Feeds, Goal.freeVarsList])
      (.added 2 (by simp) fun _ h => h) (by simp) ?_
    · -- The cell reads its constructor, which is bound right before, and the
      -- arguments.
      intro a ha
      exact (mem_cons.1 ha).imp_right (hX a)
    · simp [type_addVar]
  · refine hargs.cell [s₁.nextVar, ⟨s₁.vars.size + 1⟩, ⟨s₁.vars.size + 2⟩]
      (((WitnessState.Grows.addVar ..).trans (.addVar ..)).trans (.addVar ..)) rfl rfl
      (fun X hX => .construct rfl (by simp) (.construct rfl (by simp) (.construct rfl ?_ .nil)))
      (by simp +contextual [Goal.freeVarsList]) (by simp [Feeds, Goal.intConst, Goal.freeVarsList])
      (.added 3 (by simp) fun _ h => h) (by simp) ?_
    · intro a ha
      simp only [mem_cons] at ha
      rcases ha with rfl | rfl | ha
      · exact .inr (.inl rfl)
      · exact .inl rfl
      · exact .inr (.inr (hX a ha))
    · simp [type_addVar]

/-- Describing types makes their type-infos. -/
theorem Describing.makes (h : Describing context s vs goals s') :
    Makes context s [] vs goals s' := by
  induction h with
  | nil s => exact .nil ..
  | cons _ _ ih₁ ih₂ => exact ih₁.append ih₂
  | typeVar info => exact typeVarInfo_makes info
  | cell _ info ih => exact typeCell_makes ih info

theorem typeInfo_makes (t : Ty) (h : Returns (typeInfo context t) s (var, goals) s') :
    Makes context s [] [var] goals s' :=
  (typeInfo_describing t h).makes

theorem typeInfos_makes (ts : List Ty) (h : Returns (typeInfos context ts) s (vs, goals) s') :
    Makes context s [] vs goals s' :=
  (typeInfos_describing ts h).makes

end Synth

/-! ### Dictionaries -/

/-- Only variables and type variables are added. -/
theorem Makes.idle (hs : s.Grows s') (hw : s'.witnesses = s.witnesses)
    (hscope : s.scope.Extends s'.scope) : Makes context s [] [] [] s' where
  grows := hs
  keeps := .of_eq hw hscope
  results _ _ _ := by simp
  feeds := trivial
  setup := ⟨[], .nil fun _ h => hw ▸ h, fun _ _ hd =>
    ⟨.nil, by simp, hw ▸ hd.mono fun _ h => .inr h⟩⟩

theorem Makes.onRecord (hv : s.witnesses.dictionaries.find? c = some v) :
    Makes context s [v] [] [] s where
  grows := .refl s
  keeps := .refl s
  results Q hQ _ := ⟨by simpa using hQ.2 c v hv, by simp⟩
  feeds := trivial
  setup := ⟨[], .nil fun _ h => h, fun X _ hd =>
    ⟨.nil, by simpa using hd c v hv, hd.mono fun _ h => .inr h⟩⟩

/-- What a step does that finds the dictionary of a constraint. -/
def Finds (context : Context) (resolve : Constraint → Synth (ProgVar × List Goal)) : Prop :=
  ∀ c s s' v goals, Synth.Returns (resolve c) s (v, goals) s' → Makes context s [v] [] goals s'

variable {env : WitnessEnv} {resolve : Constraint → Synth (ProgVar × List Goal)}

/-- Dictionaries are found one after the other. -/
theorem Finds.collect (hr : Finds context resolve)
    (h : Synth.Returns (Synth.collect resolve cs) s (vs, goals) s') :
    Makes context s vs [] goals s' := by
  induction cs generalizing s vs goals with
  | nil =>
    obtain ⟨heq, rfl⟩ := returns_collect_nil.1 h
    cases heq
    exact .nil ..
  | cons c cs ih =>
    obtain ⟨v, goals₁, s₁, vs, goals₂, h₁, h₂, heq⟩ := returns_collect_cons.1 h
    cases heq
    exact (hr _ _ _ _ _ h₁).append (ih h₂)

/-- A dictionary is made by an instance from those it needs. -/
theorem Finds.ofInstance (hr : Finds context resolve) {n : Nat}
    (h : Synth.MadeByInstance env context resolve c n s var goals s') :
    Makes context s [var] [] goals s' := by
  obtain @⟨inst, cls, subst, proofs, constraints, supers, ds, ss, ts, goals₁, goals₂, goals₃,
    s₁, s₂, s₃, -, -, -, -, -, h₁, -, h₂, h₃⟩ := h
  have hparts : Makes context s (ds ++ ss) ts (goals₁ ++ goals₂ ++ goals₃) s₃ := by
    have hskip : Makes context s [] [] [] ((s.mergeScope inst.scope).addProofs proofs) :=
      .idle (.of_eq rfl rfl rfl) rfl ⟨inst.scope.names, rfl⟩
    have := ((hskip.append (hr.collect h₁)).append (hr.collect h₂)).append
      (typeInfos_makes c.args h₃)
    simpa using this
  refine hparts.cell [s₃.nextVar, ⟨s₃.vars.size + 1⟩] ((WitnessState.Grows.addVar ..).trans
    (.addVar ..)) rfl rfl (fun X hX => .construct rfl (by simp) (.construct rfl ?_ .nil))
    (by simp +contextual [Goal.freeVarsList]) (by simp [Feeds, Goal.freeVarsList])
    (.added 2 (by simp) fun _ h => h) ?_ (by simp)
  · intro a ha
    rw [cons_append, cons_append] at ha
    exact (mem_cons.1 ha).imp_right (hX a)
  · simp [type_addVar]

/-- A dictionary is taken out of that of a subclass. -/
theorem Finds.ofSuperclass (hr : Finds context resolve) {sub : Constraint}
    (h : Synth.MadeBySuperclass env context resolve c sub s var goals s') :
    Makes context s [var] [] goals s' := by
  obtain @⟨cls, supers, position, whole, goals₁, s₁, h₁, -, -, -⟩ := h
  refine (hr _ _ _ _ _ h₁).cell [s₁.nextVar, ⟨s₁.vars.size + 1⟩]
    ((WitnessState.Grows.addVar ..).trans (.addVar ..)) rfl rfl
    (fun X hX => .construct rfl (by simp) (.accessor (by simp [dictionaryAccessors]) ?_ .nil))
    (by simp [Goal.freeVarsList]) (by simp [Feeds, Goal.intConst, Goal.freeVarsList])
    (.added 2 (by simp) fun _ h => h) ?_ (by simp)
  · simp only [mem_cons, not_mem_nil, or_false]
    rintro a (rfl | rfl)
    · exact .inr (hX a (by simp))
    · exact .inl rfl
  · simp [type_addVar]

/-- A dictionary that has been made goes on record. -/
theorem Makes.putDictionary (h : Makes context s [v] [] goals s₁)
    (hc : s.witnesses.dictionaries.find? c = none) :
    Makes context s [v] [] goals (s₁.setWitnesses
      { s₁.witnesses with dictionaries := s₁.witnesses.dictionaries.insert c v }) := by
  have hfind : ∀ d, (s₁.witnesses.dictionaries.insert c v).find? d =
      if d = c then some v else s₁.witnesses.dictionaries.find? d := fun d => Assoc.find?_insert ..
  have hdicts : ∀ X : ProgVar → Prop, s₁.witnesses.DictsIn X → X v → WitnessMap.DictsIn
      { s₁.witnesses with dictionaries := s₁.witnesses.dictionaries.insert c v } X := by
    intro X hX hv d w hd
    have hd : (s₁.witnesses.dictionaries.insert c v).find? d = some w := hd
    rw [hfind] at hd
    split at hd
    · cases hd
      exact hv
    · exact hX d w hd
  have hkeeps : s.Keeps (s₁.setWitnesses
      { s₁.witnesses with dictionaries := s₁.witnesses.dictionaries.insert c v }) := by
    refine ⟨h.keeps.scope, h.keeps.infos, fun d w hd => ?_⟩
    show (s₁.witnesses.dictionaries.insert c v).find? d = some w
    rw [hfind, if_neg, h.keeps.dicts d w hd]
    -- The constraint had no dictionary on record at the start, so none is lost.
    rintro rfl
    rw [hc] at hd
    cases hd
  refine ⟨⟨h.grows.vars, fun Q hQ hnew => ?_, h.grows.heads, hkeeps.blank⟩, hkeeps, h.results,
    h.feeds, ?_⟩
  · obtain ⟨hinfos, hdicts₁⟩ := h.grows.records Q hQ hnew
    exact ⟨hinfos, hdicts _ hdicts₁ ((h.results Q hQ hnew).1 v (by simp))⟩
  · obtain ⟨bound, hb, hs⟩ := h.setup
    refine ⟨bound, ⟨hb.new, hb.nodup, hb.records⟩, fun X hi hd => ?_⟩
    obtain ⟨hg, hv, hd₁⟩ := hs X hi hd
    exact ⟨hg, hv, hdicts _ hd₁ (hv v (by simp))⟩

/-- A search is such a step, however deep it may go. -/
theorem dictionaryWithin_finds (depth : Nat) (pending : List Constraint) :
    Finds context (Synth.dictionaryWithin env context depth pending) := by
  induction depth generalizing pending with
  | zero =>
    intro c s s' v goals h
    rcases dictionaryWithin_cases h with ⟨hw, rfl, rfl⟩ | ⟨n, _, _, hn, -⟩
    · exact .onRecord hw
    · cases hn
  | succ n ih =>
    intro c s s' v goals h
    rcases dictionaryWithin_cases h with ⟨hw, rfl, rfl⟩ |
      ⟨_, proof, s₁, hn, hc, -, -, rfl, hmade⟩
    · exact .onRecord hw
    · cases hn
      refine Makes.putDictionary ?_ hc
      rcases hmade with ⟨i, -, hmade⟩ | ⟨sub, -, hmade⟩
      · exact (ih (c :: pending)).ofInstance hmade
      · exact (ih (c :: pending)).ofSuperclass hmade

/-- What finding the dictionaries of constraints does. -/
theorem Synth.dictionaries_makes (h : Returns (dictionaries env context cs) s (vs, goals) s') :
    Makes context s vs [] goals s' := by
  obtain ⟨depth, s₁, h₁, rfl⟩ := dictionaries_cases h
  have hm := (dictionaryWithin_finds depth []).collect h₁
  refine ⟨⟨hm.grows.vars, fun Q hQ hnew => ⟨(hm.grows.records Q hQ hnew).1, hQ.2⟩, hm.grows.heads,
    fun hb => ⟨hm.keeps.infosIn hb.1, hb.2⟩⟩, ⟨hm.keeps.scope, hm.keeps.infos, fun _ _ hc => hc⟩,
    hm.results, hm.feeds, ?_⟩
  obtain ⟨bound, hb, hs⟩ := hm.setup
  refine ⟨bound, ⟨hb.new, hb.nodup, hb.records⟩, fun X hi hd => ?_⟩
  obtain ⟨hg, hv, -⟩ := hs X hi hd
  exact ⟨hg, hv, hd.mono fun _ h => .inr h⟩

/-! ### Requests -/

namespace Synth

/-- Describing types leaves alone what a search for dictionaries reads. -/
theorem Describing.keeps (h : Describing context s vs goals s') :
    s'.scope = s.scope ∧ s'.proofs = s.proofs ∧
      s'.witnesses.dictionaries = s.witnesses.dictionaries := by
  induction h with
  | nil s => exact ⟨rfl, rfl, rfl⟩
  | cons _ _ ih₁ ih₂ =>
    exact ⟨ih₂.1.trans ih₁.1, ih₂.2.1.trans ih₁.2.1, ih₂.2.2.trans ih₁.2.2⟩
  | typeVar info =>
    rcases typeVarInfo_cases info with ⟨-, -, rfl⟩ | ⟨_, _, -, -, -, rfl⟩ | ⟨-, -, -, rfl⟩ <;>
      exact ⟨rfl, rfl, rfl⟩
  | cell _ info ih =>
    rcases typeCell_cases info with ⟨-, -, -, -, rfl⟩ | ⟨-, -, -, -, rfl⟩ | ⟨-, -, -, rfl⟩ <;>
      exact ih

/-- Describing types leaves the dictionaries on record alone. -/
theorem Describing.dictionaries_eq (h : Describing context s vs goals s') :
    s'.witnesses.dictionaries = s.witnesses.dictionaries :=
  h.keeps.2.2

theorem typeInfos_dictionaries (ts : List Ty) {r : List ProgVar × List Goal}
    (h : Returns (typeInfos context ts) s r s') :
    s'.witnesses.dictionaries = s.witnesses.dictionaries :=
  (typeInfos_describing ts h).dictionaries_eq

end Synth

/-- What a whole request for witnesses does: what it shares within, it does not
    leave on record, and it comes with goals only if witnesses are asked for. -/
structure Provides (context : Context) (s : WitnessState) (dicts infos : List ProgVar)
    (goals : List Goal) (s' : WitnessState) : Prop extends
    Makes context s dicts infos goals s' where
  dictionaries : s'.witnesses.dictionaries = s.witnesses.dictionaries
  empty : dicts ++ infos = [] → goals = []

theorem Provides.append (h : Provides context s dicts infos goals s₁)
    (h' : Provides context s₁ dicts' infos' more s') :
    Provides context s (dicts ++ dicts') (infos ++ infos') (goals ++ more) s' where
  toMakes := h.toMakes.append h'.toMakes
  dictionaries := h'.dictionaries.trans h.dictionaries
  empty hnone := by
    simp only [append_eq_nil_iff] at hnone ⊢
    obtain ⟨⟨hd, hd'⟩, hi, hi'⟩ := hnone
    exact ⟨h.empty (by simp [hd, hi]), h'.empty (by simp [hd', hi'])⟩

theorem Provides.idle (hs : s.Grows s') (hw : s'.witnesses = s.witnesses)
    (hscope : s.scope.Extends s'.scope) : Provides context s [] [] [] s' :=
  ⟨.idle hs hw hscope, hw ▸ rfl, fun _ => rfl⟩

/-- The goals of a request bind what does not go on record, and read what is on
    record or bound by an earlier one. -/
theorem Provides.block (h : Provides context s dicts infos goals s') :
    ∃ bound, s.LeavesAll bound s' ∧ ∀ X, s'.witnesses.All (fun _ => X) →
      Setup context X goals bound ∧ ∀ v ∈ dicts ++ infos, v ∈ bound ∨ X v := by
  obtain ⟨bound, hb, hs⟩ := h.setup
  refine ⟨bound, ⟨hb.new, hb.nodup, fun X hX hnew => ⟨hb.records X hX.1 hnew, ?_⟩⟩, fun X hX => ?_⟩
  · intro c v hc
    exact hX.2 c v (h.dictionaries ▸ hc)
  · obtain ⟨hg, hv, -⟩ := hs X hX.1 (h.keeps.dictsIn hX.2)
    exact ⟨hg, hv⟩

namespace Synth

theorem typeInfos_provides (h : Returns (typeInfos context ts) s (vs, goals) s') :
    Provides context s [] vs goals s' := by
  refine ⟨typeInfos_makes ts h, typeInfos_dictionaries ts h, fun hnone => ?_⟩
  obtain rfl : vs = [] := hnone
  obtain rfl := length_eq_zero_iff.1 (length_typeInfos h).symm
  exact congrArg Prod.snd (returns_typeInfos_nil.1 h).1

theorem dictionaries_provides (h : Returns (dictionaries env context cs) s (vs, goals) s') :
    Provides context s vs [] goals s' := by
  have hlength := length_dictionaries h
  have hmakes := dictionaries_makes h
  obtain ⟨depth, s₁, hcollect, rfl⟩ := dictionaries_cases h
  refine ⟨hmakes, rfl, fun hnone => ?_⟩
  obtain rfl : vs = [] := append_eq_nil_iff.1 hnone |>.1
  obtain rfl := length_eq_zero_iff.1 hlength.symm
  exact congrArg Prod.snd (returns_collect_nil.1 hcollect).1

end Synth

end

end Clausal
