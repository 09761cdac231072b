import Clausal.Printer
import Clausal.Proofs.FreshNames
import Clausal.Proofs.InlineCode

/-!
# Names in inline code

Inline code speaks of a variable by its label, that is by its name and number.
The number behind the last mark tells variables apart, whatever names they
have (`VarTable.name_inj`). Where labels are listed, the text is read from its end
(`VarTable.applied_names_inj`). With the arguments of the code the bare names are
on record, which variables share.
-/

namespace Clausal

open List Synth

namespace VarTable

variable {t : VarTable} {v w : ProgVar} {name : String}

theorem label_eq (v : ProgVar) (entry : VarEntry) :
    label v entry = Module.numberedName (entry.name.getD "V") v.index := by
  unfold label Module.numberedName
  cases entry.name <;> rfl

theorem name_eq_ok : t.name v = .ok name ↔ ∃ entry, t.get v = .ok entry ∧ name = label v entry := by
  unfold VarTable.name
  rw [Module.except_bind_eq_ok]
  simp only [pure, Except.pure, Except.ok.injEq, eq_comm (a := name)]

theorem exists_name_iff : (∃ name, t.name v = .ok name) ↔ v.index < t.size := by
  simp only [name_eq_ok]
  constructor
  · rintro ⟨_, entry, hentry, -⟩
    exact lt_size_of_type (by rw [VarTable.type, hentry]; rfl)
  · intro hlt
    obtain ⟨entry, hentry⟩ := TableEnv.get_of_lt hlt
    exact ⟨_, entry, hentry, rfl⟩

/-- Labels are told from the end of a text, whatever is in front of them. -/
theorem append_name_inj {u u' name' : String} (hv : t.name v = .ok name) (hw : t.name w = .ok name')
    (h : u ++ name = u' ++ name') : u = u' ∧ v = w := by
  obtain ⟨x, hx, rfl⟩ := name_eq_ok.1 hv
  obtain ⟨y, hy, rfl⟩ := name_eq_ok.1 hw
  have hnumber : ∀ (u : String) (v : ProgVar) (x : VarEntry),
      u ++ label v x = Module.numberedName (u ++ x.name.getD "V") v.index := by
    intro u v x
    simp only [label_eq, Module.numberedName, String.append_assoc]
  have hindex := h
  rw [hnumber, hnumber] at hindex
  obtain rfl : v = w := congrArg ProgVar.mk (Module.numberedName_inj hindex)
  obtain rfl : x = y := Except.ok.inj (hx.symm.trans hy)
  exact ⟨(String.append_left_inj _).1 h, rfl⟩

/-- Variables with the same label are the same. -/
theorem name_inj (hv : t.name v = .ok name) (hw : t.name w = .ok name) : v = w :=
  (append_name_inj (u := "") hv hw rfl).2

/-- A label ends in a digit. -/
theorem append_name_ne {u u' : String} {c : Char} (hc : c.isDigit = false)
    (hv : t.name v = .ok name) : u ++ name ≠ u' ++ String.singleton c := by
  obtain ⟨x, -, rfl⟩ := name_eq_ok.1 hv
  intro h
  have hlast := congrArg (fun s => s.toList.getLast?) h
  have hdigits : (Nat.toDigits 10 v.index).getLast? = some c := by
    obtain ⟨d, hd⟩ := Option.isSome_iff_exists.1 (getLast?_isSome.2 (Nat.toDigits_ne_nil
      (n := v.index) (b := 10)))
    simpa [label_eq, Module.numberedName, Nat.toString_eq_repr, Nat.toList_repr, hd,
      getLast?_cons] using hlast
  have hdigit := Nat.isDigit_of_mem_toDigits (by decide) (by decide) (mem_of_getLast? hdigits)
  exact absurd (hc.symm.trans hdigit) (by decide)

/-- What stands in front of the last of the arguments of `u`. -/
def beforeLast (u : String) (names : List String) : String :=
  if names = [] then u ++ "(" else u ++ "(" ++ commas names ++ ", "

theorem applied_concat (u : String) (names : List String) :
    u ++ "(" ++ commas (names ++ [name]) = beforeLast u names ++ name := by
  unfold beforeLast
  split
  · next h => rw [h, nil_append, commas, String.intercalate_singleton]
  · next h =>
    rw [commas, String.intercalate_append_of_ne_nil h (cons_ne_nil _ _),
      String.intercalate_singleton]
    simp only [commas, String.append_assoc]

theorem beforeLast_inj {u u' : String} {names names' : List String}
    (h : beforeLast u names = beforeLast u' names') :
    u ++ "(" ++ commas names = u' ++ "(" ++ commas names' := by
  unfold beforeLast at h
  split at h <;> split at h
  · simp_all
  · exact absurd (congrArg (fun s => s.toList.getLast?) h) (by simp [getLast?_cons])
  · exact absurd (congrArg (fun s => s.toList.getLast?) h) (by simp [getLast?_cons])
  · exact (String.append_left_inj _).1 h

/-- A list of labels is told by its text, and so is what it is applied to. -/
theorem applied_names_inj {u u' : String} {vs ws : List ProgVar} {names names' : List String}
    (hvs : Forall₂ (fun v name => t.name v = .ok name) vs names)
    (hws : Forall₂ (fun v name => t.name v = .ok name) ws names')
    (h : u ++ "(" ++ commas names = u' ++ "(" ++ commas names') : u = u' ∧ vs = ws := by
  -- Names may have commas in them, so the text is read from its end.
  rw [← forall₂_reverse_iff] at hvs hws
  rw [← reverse_reverse names, ← reverse_reverse names'] at h
  suffices u = u' ∧ vs.reverse = ws.reverse by simpa only [reverse_inj] using this
  generalize vs.reverse = vs, ws.reverse = ws, names.reverse = names, names'.reverse = names' at *
  have hnil (u) : u ++ "(" ++ commas [] = u ++ String.singleton '(' := by simp [commas]
  induction hvs generalizing ws names' with
  | nil =>
    cases hws with
    | nil => exact ⟨by simpa [commas] using h, rfl⟩
    | cons hw hws =>
      rw [reverse_cons, applied_concat, reverse_nil, hnil] at h
      exact absurd h.symm (append_name_ne (by decide) hw)
  | cons hv hvs ih =>
    cases hws with
    | nil =>
      rw [reverse_cons, applied_concat, reverse_nil, hnil] at h
      exact absurd h (append_name_ne (by decide) hv)
    | cons hw hws =>
      rw [reverse_cons, reverse_cons, applied_concat, applied_concat] at h
      obtain ⟨hfront, rfl⟩ := append_name_inj hv hw h
      obtain ⟨rfl, rfl⟩ := ih _ _ hws (beforeLast_inj hfront)
      exact ⟨rfl, rfl⟩

/-- A label is never the bare name. -/
theorem label_ne_name (v : ProgVar) (entry : VarEntry) : entry.name ≠ some (label v entry) := by
  intro h
  rw [label_eq, h] at h
  exact Module.numberedName_ne_self _ _ (Option.some.inj h).symm

end VarTable

namespace TableEnv

variable {e : TableEnv} {p : Primitive} {args : List ProgVar} {extra : List ForeignArg}
  {s : WitnessState}

theorem exists_returns_inline_iff (h : e.env.options.tablingViaExtraArgs = true ∨ extra ≠ []) :
    (∃ g s', Returns (e.callWith p args extra) s g s') ↔
      ∀ v ∈ (args.zip p.modes).map Prod.fst ++ extra.map (·.var), v.index < s.vars.size := by
  simp only [returns_callWith_inline h]
  constructor
  · rintro ⟨_, _, ⟨fs, names, hfs, hnames, -⟩, -⟩ v hv
    have hmem : v ∈ (fs ++ extra).map (·.var) := by
      rw [← ArgOf.pairs hfs, map_map] at hv
      rw [map_append]
      exact hv
    obtain ⟨a, ha, rfl⟩ := mem_map.1 hmem
    obtain ⟨name, -, hname⟩ := exists_of_forall₂ hnames.flip ha
    exact VarTable.exists_name_iff.1 ⟨name, hname⟩
  · intro hlt
    obtain ⟨fs, names, hfs, hnames⟩ := exists_inline hlt
    exact ⟨_, s, ⟨fs, names, hfs, hnames, rfl⟩, rfl⟩

/-- Inline code runs the primitive's macro on the labels of its arguments and
    of the values besides them, in order, and different variables have different
    labels. The names that are put on record with the arguments are the bare ones,
    which are no labels. Code is emitted exactly if the variables are in the
    table. -/
theorem inline_code_uses_labels (e : TableEnv) (p : Primitive) (args : List ProgVar)
    (extra : List ForeignArg) (s : WitnessState)
    (hinline : e.env.options.tablingViaExtraArgs = true ∨ extra ≠ []) :
    ((∃ g s', Returns (e.callWith p args extra) s g s') ↔
      ∀ v ∈ (args.zip p.modes).map Prod.fst ++ extra.map (·.var), v.index < s.vars.size) ∧
    ∀ g s', Returns (e.callWith p args extra) s g s' → s' = s ∧ ∃ code names,
      g = .callForeign code ⟨p.determinism, p.purity⟩ e.context ∧
      code.args.map (fun a => (a.var, a.mode)) = args.zip p.modes ∧ code.extraArgs = extra ∧
      code.code = p.inlineName ++ "(" ++ commas names ++ ");" ∧
      Forall₂ (fun a name => s.vars.name a.var = .ok name) (code.args ++ extra) names ∧
      (∀ v w name, s.vars.name v = .ok name → s.vars.name w = .ok name → v = w) ∧
      ∀ a ∈ code.args, ∃ entry, s.vars.get a.var = .ok entry ∧ a.name = entry.name ∧
        ∃ label, s.vars.name a.var = .ok label ∧ a.name ≠ some label := by
  refine ⟨exists_returns_inline_iff hinline, fun g s' h => ?_⟩
  obtain ⟨⟨fs, names, hfs, hnames, rfl⟩, rfl⟩ := (returns_callWith_inline hinline).1 h
  refine ⟨rfl, _, names, rfl, ArgOf.pairs hfs, rfl, rfl, hnames, fun _ _ _ => VarTable.name_inj,
    fun a ha => ?_⟩
  obtain ⟨b, -, entry, hentry, rfl⟩ := exists_of_forall₂ hfs ha
  exact ⟨entry, hentry, rfl, _, VarTable.name_eq_ok.2 ⟨entry, hentry, rfl⟩,
    VarTable.label_ne_name b.1 entry⟩

/-- The text of inline code tells the variables of its arguments. -/
theorem inlineCode_inj {p' : Primitive} {args args' extra' : List ForeignArg}
    {code code' : ForeignCode} {s₁ s₂ : WitnessState}
    (h : Returns (inlineCode p args extra) s code s₁)
    (h' : Returns (inlineCode p' args' extra') s code' s₂) (hcode : code.code = code'.code) :
    (args ++ extra).map (·.var) = (args' ++ extra').map (·.var) := by
  obtain ⟨⟨names, hnames, rfl⟩, -⟩ := returns_inlineCode.1 h
  obtain ⟨⟨names', hnames', rfl⟩, -⟩ := returns_inlineCode.1 h'
  exact (VarTable.applied_names_inj (forall₂_map_left_iff.2 hnames)
    (forall₂_map_left_iff.2 hnames') ((String.append_left_inj _).1 hcode)).2

end TableEnv

theorem Printer.varList_eq_ok {p : Printer} {vs : List ProgVar} {text : String} :
    p.varList vs = .ok text ↔ ∃ names,
      Forall₂ (fun v name => p.vars.name v = .ok name) vs names ∧ text = commas names := by
  rw [Printer.varList, Module.except_bind_eq_ok]
  simp only [mapM_eq_ok_iff, pure, Except.pure, Except.ok.injEq, eq_comm (a := text)]
  rfl

/-! ### An example -/

namespace CodeExample

/-- Tabling with inline code. -/
def env : TableEnv := ⟨.start "m" { tablingViaExtraArgs := true }, default, default, default⟩

/-- A node of a trie, an input, and another node. -/
def state : WitnessState where
  vars := ⟨#[⟨some "T0", Handle.trie.type⟩, ⟨some "X", .int⟩, ⟨some "T1", Handle.trie.type⟩]⟩
  scope := default

/-- Labels tell the two nodes apart. -/
theorem lookup_code_labelled : env.env.options.tablingViaExtraArgs = true ∧
    ∃ code names, Returns (env.callWith .lookupInt [⟨0⟩, ⟨1⟩, ⟨2⟩] []) state
      (.callForeign code ⟨.det, .impure⟩ default) state ∧
    code.args.map (fun a => (a.var, a.mode)) = [(⟨0⟩, .input), (⟨1⟩, .input), (⟨2⟩, .output)] ∧
    code.code = "MR_tbl_lookup_insert_int" ++ "(" ++ commas names ++ ");" ∧
    Forall₂ (fun a name => state.vars.name a.var = .ok name) code.args names ∧
    state.vars.name ⟨0⟩ ≠ state.vars.name ⟨2⟩ := by
  obtain ⟨hiff, hcode⟩ := TableEnv.inline_code_uses_labels env .lookupInt [⟨0⟩, ⟨1⟩, ⟨2⟩] []
    state (.inl rfl)
  obtain ⟨g, s', h⟩ := hiff.2 (by decide)
  obtain ⟨rfl, code, names, rfl, hargs, -, htext, hnames, hinj, -⟩ := hcode g s' h
  refine ⟨rfl, code, names, h, hargs, htext, append_nil code.args ▸ hnames, fun heq => ?_⟩
  exact absurd (hinj ⟨0⟩ ⟨2⟩ "T0_0" rfl heq.symm) (by decide)

/-- The names on record are not those in the code. -/
theorem lookup_code_misses_names : ∃ code,
    Returns (env.callWith .lookupInt [⟨0⟩, ⟨1⟩, ⟨2⟩] []) state
      (.callForeign code ⟨.det, .impure⟩ default) state ∧
    code.args.map (·.name) = [some "T0", some "X", some "T1"] ∧
    code.code = "MR_tbl_lookup_insert_int(T0_0, X_1, T1_2);" :=
  ⟨_, rfl, rfl, by decide⟩

end CodeExample

end Clausal
