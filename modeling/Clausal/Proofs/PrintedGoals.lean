import Clausal.Proofs.CodeNames
import Clausal.Proofs.Subgoals

/-!
# Variables in printed text

Labels end in the number of the variable, behind the last mark, so text is read
from its end. Two texts *tell* something if they can be the same, whatever stands
in front of them, only if it holds (`Tells`). Labels tell variables, and what
parts of a text tell the whole does, so the text of a goal tells the variables
that are printed in it (`Printer.goal_tells`).
-/

namespace Clausal

open List Synth Goal

variable {ρ ρ' : ProgVar → ProgVar} {p : Printer} {v w : ProgVar} {vs : List ProgVar}

/-! ### Texts that tell -/

/-- The texts are the same, whatever is in front of them, only if `P` holds. -/
def Tells (P : Prop) (x y : String) : Prop := ∀ u u' : String, u ++ x = u' ++ y → u = u' ∧ P

namespace Tells

variable {P Q : Prop} {x x' y y' : String}

theorem same (x : String) : Tells True x x :=
  fun _ _ h => ⟨(String.append_left_inj x).1 h, trivial⟩

theorem imp (h : Tells P x y) (hPQ : P → Q) : Tells Q x y :=
  fun u u' heq => (h u u' heq).imp_right hPQ

theorem append (h : Tells P x y) (h' : Tells Q x' y') : Tells (P ∧ Q) (x ++ x') (y ++ y') := by
  intro u u' heq
  rw [← String.append_assoc, ← String.append_assoc] at heq
  obtain ⟨hfront, hQ⟩ := h' _ _ heq
  obtain ⟨rfl, hP⟩ := h u u' hfront
  exact ⟨rfl, hP, hQ⟩

theorem before (x : String) (h : Tells P y y') : Tells P (x ++ y) (x ++ y') :=
  ((same x).append h).imp And.right

theorem after (h : Tells P y y') (x : String) : Tells P (y ++ x) (y' ++ x) :=
  (h.append (same x)).imp And.left

/-- The end of a goal in brackets. -/
theorem closed {depth : Nat} (h : Tells P x y) :
    Tells P (x ++ "\n" ++ Printer.pad depth ++ ")") (y ++ "\n" ++ Printer.pad depth ++ ")") :=
  ((h.after _).after _).after _

theorem intercalate {α : Type} {as : List α} {xs ys : List String} {R R' : α → String → Prop}
    {P : α → Prop} (sep : String) (hxs : Forall₂ R as xs) (hys : Forall₂ R' as ys)
    (h : ∀ a ∈ as, ∀ x y, R a x → R' a y → Tells (P a) x y) :
    Tells (∀ a ∈ as, P a) (sep.intercalate xs) (sep.intercalate ys) := by
  induction hxs generalizing ys with
  | nil =>
    cases hys
    exact (same _).imp fun _ => forall_mem_nil _
  | @cons a x as xs hx hxs ih =>
    cases hys with
    | @cons _ y _ ys hy hys =>
    obtain ⟨ha, has⟩ := forall_mem_cons.1 h
    have hfirst := ha x y hx hy
    have hrest := ih hys has
    cases hxs with
    | nil =>
      cases hys
      simpa using hfirst
    | cons =>
      cases hys
      rw [String.intercalate_cons_cons, String.intercalate_cons_cons]
      exact ((hfirst.after sep).append hrest).imp forall_mem_cons.2

end Tells

/-- Where both texts are printed, they tell. -/
def BothTell (P : Prop) (x y : Except Fault String) : Prop :=
  ∀ a b, x = .ok a → y = .ok b → Tells P a b

namespace BothTell

variable {P Q : Prop} {x y : Except Fault String} {f f' : String → Except Fault String}

theorem pure {a b : String} (h : Tells P a b) : BothTell P (pure a) (pure b) := by
  rintro _ _ ⟨⟩ ⟨⟩
  exact h

theorem bind (h : BothTell P x y) (hf : ∀ a b, Tells P a b → BothTell Q (f a) (f' b)) :
    BothTell Q (x >>= f) (y >>= f') := by
  intro c d hc hd
  obtain ⟨a, ha, hc⟩ := Module.except_bind_eq_ok.1 hc
  obtain ⟨b, hb, hd⟩ := Module.except_bind_eq_ok.1 hd
  exact hf a b (h a b ha hb) c d hc hd

theorem skip {z : Except Fault String} (hf : ∀ a, BothTell Q (f a) (f' a)) :
    BothTell Q (z >>= f) (z >>= f') := by
  intro c d hc hd
  obtain ⟨a, ha, hc⟩ := Module.except_bind_eq_ok.1 hc
  obtain ⟨b, hb, hd⟩ := Module.except_bind_eq_ok.1 hd
  obtain rfl : a = b := Except.ok.inj (ha.symm.trans hb)
  exact hf a c d hc hd

theorem imp (h : BothTell P x y) (hPQ : P → Q) : BothTell Q x y :=
  fun a b ha hb => (h a b ha hb).imp hPQ

/-- Texts that are joined, with whatever between them. -/
theorem each {α : Type} {as : List α} {f f' : α → Except Fault String} {P : α → Prop}
    {k k' : List String → Except Fault String} (h : ∀ a ∈ as, BothTell (P a) (f a) (f' a))
    (hk : ∀ xs ys, (∀ sep : String, Tells (∀ a ∈ as, P a) (sep.intercalate xs)
      (sep.intercalate ys)) → BothTell Q (k xs) (k' ys)) :
    BothTell Q (as.mapM f >>= k) (as.mapM f' >>= k') := by
  intro c d hc hd
  obtain ⟨xs, hxs, hc⟩ := Module.except_bind_eq_ok.1 hc
  obtain ⟨ys, hys, hd⟩ := Module.except_bind_eq_ok.1 hd
  refine hk xs ys (fun sep => ?_) c d hc hd
  exact .intercalate sep (mapM_eq_ok_iff.1 hxs) (mapM_eq_ok_iff.1 hys) h

end BothTell

/-! ### Goals with other variables -/

section

variable (ρ : ProgVar → ProgVar)

def ScopeReason.rename : ScopeReason → ScopeReason
  | .exist vars => .exist (vars.map ρ)
  | .promise purity => .promise purity

def GenericCallee.rename : GenericCallee → GenericCallee
  | .closure v => .closure (ρ v)
  | .insertion r => .insertion r

def ForeignArg.rename (a : ForeignArg) : ForeignArg :=
  { a with var := ρ a.var }

def UnifyRhs.rename : UnifyRhs → UnifyRhs
  | .var v => .var (ρ v)
  | .functor f args => .functor f (args.map ρ)

def Unification.rename : Unification → Unification
  | .construct v f args => .construct (ρ v) f (args.map ρ)
  | .deconstruct v f args canFail => .deconstruct (ρ v) f (args.map ρ) canFail
  | .assign v w => .assign (ρ v) (ρ w)
  | .test v w => .test (ρ v) (ρ w)
  | .complicated canFail typeInfos => .complicated canFail (typeInfos.map ρ)

end

/-- The variables of a unification that are printed. -/
def Unification.printed (lhs : ProgVar) (rhs : UnifyRhs) : Unification → List ProgVar
  | .construct _ _ args | .deconstruct _ _ args _ => lhs :: args
  | .assign v w | .test v w => [v, w]
  | .complicated _ typeInfos => lhs :: rhs.vars ++ typeInfos

namespace Goal

mutual

/-- The goal with other variables, but for what is known of it. -/
def rename (ρ : ProgVar → ProgVar) : Goal → Goal
  | .conj i k gs => .conj i k (renameList ρ gs)
  | .disj i gs => .disj i (renameList ρ gs)
  | .switch i v canFail arms => .switch i (ρ v) canFail (renameArms ρ arms)
  | .negation i g => .negation i (rename ρ g)
  | .ite i locals c y n => .ite i (locals.map ρ) (rename ρ c) (rename ρ y) (rename ρ n)
  | .scope i reason g => .scope i (reason.rename ρ) (rename ρ g)
  | .call i callee name args => .call i callee name (args.map ρ)
  | .genericCall i callee args modes => .genericCall i (callee.rename ρ) (args.map ρ) modes
  | .foreign i code => .foreign i { code with
      args := code.args.map (·.rename ρ), extraArgs := code.extraArgs.map (·.rename ρ) }
  | .unify i lhs rhs kind => .unify i (ρ lhs) (rhs.rename ρ) (kind.rename ρ)
  | .lambda i lhs head body kind => .lambda i (ρ lhs) { head with
      captured := head.captured.map ρ, args := head.args.map ρ } (rename ρ body) (kind.rename ρ)

def renameList (ρ : ProgVar → ProgVar) : List Goal → List Goal
  | [] => []
  | g :: gs => rename ρ g :: renameList ρ gs

def renameArms (ρ : ProgVar → ProgVar) : List (Symbol × Goal) → List (Symbol × Goal)
  | [] => []
  | (f, g) :: arms => (f, rename ρ g) :: renameArms ρ arms

end

/-- The variables that are printed in the text of a goal apart from those that are
    in its parts. -/
def printedHere : Goal → List ProgVar
  | .switch _ v _ _ => [v]
  | .scope _ reason _ => reason.hidden
  | .lambda _ lhs head _ _ => lhs :: head.args
  | .unify _ lhs rhs kind => kind.printed lhs rhs
  | g => g.atomVars

/-- A variable is printed in the text of a goal. -/
inductive Prints : Goal → ProgVar → Prop
  | here {g v} (h : v ∈ g.printedHere) : Prints g v
  | part {g c v} (hc : c ∈ g.parts) (h : Prints c v) : Prints g v

/-- What is printed of a goal is the same under both renamings. -/
def PrintsSame (ρ ρ' : ProgVar → ProgVar) (g : Goal) : Prop := ∀ v, g.Prints v → ρ v = ρ' v

end Goal

/-! ### Printing -/

namespace Printer

theorem var_tells : BothTell (v = w) (p.var v) (p.var w) :=
  fun _ _ ha hb _ _ heq => VarTable.append_name_inj ha hb heq

theorem varList_tells :
    BothTell (∀ v ∈ vs, ρ v = ρ' v) (p.varList (vs.map ρ)) (p.varList (vs.map ρ')) := by
  unfold varList
  rw [mapM_map, mapM_map]
  exact .each (fun _ _ => var_tells) fun _ _ h => .pure (h _)

theorem functor_tells (f : Symbol) :
    BothTell (∀ v ∈ vs, ρ v = ρ' v) (p.functor f (vs.map ρ)) (p.functor f (vs.map ρ')) := by
  refine .skip fun name => ?_
  cases vs with
  | nil => exact .pure ((Tells.same _).imp fun _ => forall_mem_nil _)
  | cons v vs =>
    refine varList_tells.bind fun a b hargs => ?_
    cases f <;> exact .pure ((hargs.before _).after _)

/-- Type-infos are listed behind a unification if there are any. -/
theorem typeInfos_tell {us : List ProgVar} {a b : String} (h : Tells (∀ v ∈ us, ρ v = ρ' v) a b) :
    BothTell (∀ v ∈ us ++ vs, ρ v = ρ' v)
      (if (vs.map ρ).isEmpty then pure a
        else do return a ++ " \x7b" ++ (← p.varList (vs.map ρ)) ++ "\x7d")
      (if (vs.map ρ').isEmpty then pure b
        else do return b ++ " \x7b" ++ (← p.varList (vs.map ρ')) ++ "\x7d") := by
  cases vs with
  | nil => exact .pure (by rwa [append_nil])
  | cons v vs =>
    refine varList_tells.bind fun _ _ hinfos => .pure ?_
    exact (((h.after _).append hinfos).after _).imp forall_mem_append.2

theorem unification_tells (lhs : ProgVar) (rhs : UnifyRhs) (kind : Unification) :
    BothTell (∀ v ∈ kind.printed lhs rhs, ρ v = ρ' v)
      (p.unification (ρ lhs) (rhs.rename ρ) (kind.rename ρ))
      (p.unification (ρ' lhs) (rhs.rename ρ') (kind.rename ρ')) := by
  refine var_tells.bind fun a b hlhs => ?_
  cases kind with
  | construct _ f args | deconstruct _ f args =>
    exact (functor_tells f).bind fun _ _ hargs =>
      .pure (((hlhs.after _).append hargs).imp fun h => forall_mem_cons.2 h)
  | assign v w | test v w =>
    exact var_tells.bind fun _ _ hv => var_tells.bind fun _ _ hw =>
      .pure (((hv.after _).append hw).imp fun h => by simpa [Unification.printed] using h)
  | complicated canFail typeInfos =>
    cases rhs with
    | var v =>
      exact var_tells.bind fun _ _ hv => typeInfos_tell
        (((hlhs.after _).append hv).imp fun h => by simpa [UnifyRhs.vars] using h)
    | functor f args =>
      exact (functor_tells f).bind fun _ _ hargs => typeInfos_tell
        (((hlhs.after _).append hargs).imp fun h => forall_mem_cons.2 h)

theorem foreignArg_tells (a : ForeignArg) :
    BothTell (ρ a.var = ρ' a.var) (p.foreignArg (a.rename ρ)) (p.foreignArg (a.rename ρ')) := by
  refine var_tells.bind fun _ _ hv => ?_
  obtain ⟨v, name, mode⟩ := a
  cases name with
  | none => exact .pure hv
  | some name => exact .pure ((hv.after _).after _)

theorem goals_rename (depth : Nat) (gs : List Goal) :
    p.goals depth (renameList ρ gs) = gs.mapM fun g => p.goal depth (g.rename ρ) := by
  induction gs with
  | nil => rfl
  | cons g gs ih => rw [renameList, goals, mapM_cons, ih]

/-- The text of an arm of a switch. -/
def arm (p : Printer) (depth : Nat) (var : String) (f : Symbol) (g : Goal) :
    Except Fault String := do
  let title := "% " ++ var ++ " has functor " ++ Text.plain (← p.symbol f)
  return pad depth ++ "    " ++ p.paint .dim title ++ "\n" ++ (← p.goal (depth + 1) g)

theorem arms_rename (depth : Nat) (var : String) (arms : List (Symbol × Goal)) :
    p.arms depth var (renameArms ρ arms) =
      arms.mapM fun arm => p.arm depth var arm.1 (arm.2.rename ρ) := by
  induction arms with
  | nil => rfl
  | cons arm arms ih =>
    rw [renameArms, Printer.arms, mapM_cons, ih]
    simp [Printer.arm]

theorem arm_tells {P Q : Prop} {a b : String} {g g' : Goal} {depth : Nat}
    (hplain : p.colours = false) (hvar : Tells Q a b) (f : Symbol)
    (h : BothTell P (p.goal (depth + 1) g) (p.goal (depth + 1) g')) :
    BothTell P (p.arm depth a f g) (p.arm depth b f g') := by
  refine .skip fun symbol => h.bind fun _ _ hg => .pure ?_
  simp only [Printer.paint, Text.paint, hplain, Bool.false_eq_true, if_false]
  exact (hvar.before _ |>.after _ |>.after _ |>.before _ |>.after _ |>.append hg).imp And.right

/-- The text of a goal, without colours, tells the variables that are printed. -/
theorem goal_tells (hplain : p.colours = false) (g : Goal) (depth : Nat) :
    BothTell (g.PrintsSame ρ ρ') (p.goal depth (g.rename ρ)) (p.goal depth (g.rename ρ')) := by
  induction g using parts_induction generalizing depth with
  | step g ih =>
  suffices BothTell ((∀ v ∈ g.printedHere, ρ v = ρ' v) ∧ ∀ c ∈ g.parts, c.PrintsSame ρ ρ')
      (p.goal depth (g.rename ρ)) (p.goal depth (g.rename ρ')) by
    refine this.imp ?_
    rintro ⟨hhere, hparts⟩ v (hv | ⟨hc, hv⟩)
    · exact hhere v hv
    · exact hparts _ hc v hv
  have hnone := forall_mem_nil fun v => ρ v = ρ' v
  have hleaf := forall_mem_nil (PrintsSame ρ ρ')
  cases g with
  | conj i kind gs =>
    cases kind with
    | plain =>
      cases gs with
      | nil => exact .pure ((Tells.same _).imp fun _ => ⟨hnone, hleaf⟩)
      | cons g gs =>
        rw [rename, rename, renameList, renameList, goal, goal, ← renameList, ← renameList,
          goals_rename, goals_rename]
        exact .each (fun g hg => ih g hg _) fun _ _ h => .pure ((h _).imp fun h => ⟨hnone, h⟩)
    | parallel =>
      rw [rename, rename, goal, goal, goals_rename, goals_rename]
      refine .each (fun g hg => ih g hg _) fun _ _ h => .pure ?_
      exact ((h _).before _ |>.closed).imp fun h => ⟨hnone, h⟩
  | disj i gs =>
    cases gs with
    | nil => exact .pure ((Tells.same _).imp fun _ => ⟨hnone, hleaf⟩)
    | cons g gs =>
      rw [rename, rename, renameList, renameList, goal, goal, ← renameList, ← renameList,
        goals_rename, goals_rename]
      refine .each (fun g hg => ih g hg _) fun _ _ h => .pure ?_
      exact ((h _).before _ |>.closed).imp fun h => ⟨hnone, h⟩
  | switch i v canFail arms =>
    rw [rename, rename, goal, goal]
    refine var_tells.bind fun _ _ hvar => ?_
    rw [arms_rename, arms_rename]
    refine .each (fun arm harm => arm_tells hplain hvar arm.1 (ih _ (mem_map_of_mem harm) _))
      fun _ _ h => .pure ?_
    -- Without colours the title stands as it is.
    simp only [Printer.paint, Text.paint, hplain, Bool.false_eq_true, if_false]
    exact (hvar.before _ |>.after _ |>.after _ |>.before _ |>.after _ |>.append (h _)
      |>.closed).imp fun h => ⟨forall_mem_singleton.2 h.1, forall_mem_map.2 h.2⟩
  | negation i g =>
    refine (ih g mem_cons_self _).bind fun _ _ hg => .pure ?_
    exact (hg.before _ |>.closed).imp fun h => ⟨hnone, forall_mem_singleton.2 h⟩
  | ite i locals c y n =>
    refine (ih c mem_cons_self _).bind fun _ _ hc =>
      (ih y (by simp [parts, children]) _).bind fun _ _ hy =>
        (ih n (by simp [parts, children]) _).bind fun _ _ hn => .pure ?_
    refine (hc.before _ |>.after _ |>.after _ |>.after _ |>.after _ |>.append hy
      |>.after _ |>.after _ |>.after _ |>.after _ |>.append hn
      |>.closed).imp fun h => ⟨hnone, ?_⟩
    exact forall_mem_cons.2 ⟨h.1.1, forall_mem_cons.2 ⟨h.1.2, forall_mem_singleton.2 h.2⟩⟩
  | scope i reason g =>
    cases reason with
    | exist vs =>
      refine varList_tells.bind fun _ _ hvars => (ih g mem_cons_self _).bind fun _ _ hg => .pure ?_
      exact (hvars.before _ |>.after _ |>.before _ |>.after _ |>.append hg |>.closed).imp fun h =>
        ⟨h.1, forall_mem_singleton.2 h.2⟩
    | promise purity =>
      refine (ih g mem_cons_self _).bind fun _ _ hg => .pure ?_
      exact (hg.before _ |>.closed).imp fun h => ⟨hnone, forall_mem_singleton.2 h⟩
  | call i callee name args =>
    exact varList_tells.bind fun _ _ hargs => .pure (((hargs.before _).after _).imp fun h =>
      ⟨h, hleaf⟩)
  | genericCall i callee args modes =>
    cases callee with
    | closure v =>
      refine var_tells.bind fun _ _ hv => varList_tells.bind fun _ _ hargs => .pure ?_
      exact ((((hv.before _).after _).append hargs).after _).imp fun h =>
        ⟨forall_mem_cons.2 h, hleaf⟩
    | insertion r =>
      refine .skip fun _ => varList_tells.bind fun _ _ hargs => .pure ?_
      exact ((hargs.before _).after _).imp fun h => ⟨h, hleaf⟩
  | foreign i code =>
    rw [rename, rename, goal, goal]
    simp only [← map_append, mapM_map]
    refine .each (fun a _ => foreignArg_tells a) fun _ _ h => .pure ?_
    refine ((h _).before _ |>.after _ |>.after _ |>.after _).imp fun h => ⟨?_, hleaf⟩
    exact forall_mem_map.2 h
  | unify i lhs rhs kind =>
    exact (unification_tells lhs rhs kind).bind fun _ _ h => .pure ((h.before _).imp fun h =>
      ⟨h, hleaf⟩)
  | lambda i lhs head body kind =>
    refine var_tells.bind fun _ _ hlhs => varList_tells.bind fun _ _ hargs =>
      (ih body mem_cons_self _).bind fun _ _ hbody => .pure ?_
    refine (hlhs.before _ |>.after _ |>.after _ |>.after _ |>.append hargs
      |>.after _ |>.after _ |>.after _ |>.after _ |>.after _ |>.append hbody
      |>.closed).imp fun h => ?_
    exact ⟨forall_mem_cons.2 h.1, forall_mem_singleton.2 h.2⟩

end Printer

/-! ### Labels -/

/-- The variables of a table, and no others, have labels, and different
    variables have different ones, whatever their names are. Where labels are
    printed as arguments, and in inline code, the text tells the variables, also
    if there are commas and brackets in the names. So does the text of a whole
    goal: with other variables it is the same only if those that are printed are. -/
theorem VarTable.labels_unambiguous (t : VarTable) :
    (∀ v, (∃ name, t.name v = .ok name) ↔ v.index < t.size) ∧
    (∀ v w name, t.name v = .ok name → t.name w = .ok name → v = w) ∧
    (∀ (p : Printer) (u u' text text' : String) (vs ws : List ProgVar), p.vars = t →
      p.varList vs = .ok text → p.varList ws = .ok text' →
      u ++ "(" ++ text = u' ++ "(" ++ text' → u = u' ∧ vs = ws) ∧
    (∀ (p : Printer) (g : Goal) (ρ ρ' : ProgVar → ProgVar) (depth : Nat) (text : String),
      p.vars = t → p.colours = false → p.goal depth (g.rename ρ) = .ok text →
      p.goal depth (g.rename ρ') = .ok text → ∀ v, g.Prints v → ρ v = ρ' v) ∧
    ∀ (p p' : Primitive) (args extra args' extra' : List ForeignArg) (s s₁ s₂ : WitnessState)
      (code code' : ForeignCode), s.vars = t →
      Returns (TableEnv.inlineCode p args extra) s code s₁ →
      Returns (TableEnv.inlineCode p' args' extra') s code' s₂ → code.code = code'.code →
      (args ++ extra).map (·.var) = (args' ++ extra').map (·.var) := by
  refine ⟨fun v => exists_name_iff, fun v w name => name_inj, ?_, ?_, ?_⟩
  · rintro p u u' text text' vs ws rfl hvs hws h
    obtain ⟨names, hnames, rfl⟩ := Printer.varList_eq_ok.1 hvs
    obtain ⟨names', hnames', rfl⟩ := Printer.varList_eq_ok.1 hws
    exact applied_names_inj hnames hnames' h
  · rintro p g ρ ρ' depth text rfl hplain h h'
    exact (Printer.goal_tells hplain g depth text text h h' "" "" rfl).2
  · rintro p p' args extra args' extra' s s₁ s₂ code code' rfl h h' hcode
    exact TableEnv.inlineCode_inj h h' hcode

namespace CodeExample

/-- Names that look like labels, also of several variables. -/
def marked : VarTable := ⟨#[⟨none, .int⟩, ⟨some "V_0, V", .int⟩, ⟨some "V", .int⟩]⟩

/-- What looks like two labels is one, and no other unification is printed so. -/
theorem marked_labels_told : marked.name ⟨0⟩ = .ok "V_0" ∧ marked.name ⟨1⟩ = .ok "V_0, V_1" ∧
    (∀ ws, Printer.varList ⟨false, env.env, marked⟩ ws = .ok "V_0, V_1" → ws = [⟨1⟩]) ∧
    ∀ ρ, Printer.goal ⟨false, env.env, marked⟩ 0
      ((Goal.unify default ⟨0⟩ (.var ⟨1⟩) (.assign ⟨0⟩ ⟨1⟩)).rename ρ) =
      .ok "V_0 := V_0, V_1" → ρ ⟨0⟩ = ⟨0⟩ ∧ ρ ⟨1⟩ = ⟨1⟩ := by
  obtain ⟨-, -, hlists, hgoals, -⟩ := VarTable.labels_unambiguous marked
  refine ⟨rfl, rfl, fun ws h => (hlists _ "" "" _ _ ws [⟨1⟩] rfl h rfl rfl).2, fun ρ h => ?_⟩
  have hρ := hgoals _ _ ρ id 0 _ rfl rfl h (by decide)
  exact ⟨hρ _ (.here (by decide)), hρ _ (.here (by decide))⟩

end CodeExample

end Clausal
