import RefinedC.Frontend.Translates

/-!
The order in which the labels of a switch are registered.

Source: the cases for `AilScase` and `AilSdefault` of `translate_block` in
`frontend/ail_to_coq.ml`.

Owns: the labels of the innermost switch in the order in which a translation meets
them, and the fact that a successful translation meets none of them after the
default.

What follows an `if` or a loop is translated before its branches or its body.
-/

namespace RefinedC.Frontend

open Library

/-! ## Order of labels -/

inductive SwitchLabel where
  | caseL (i : Int)
  | default
deriving DecidableEq, Repr

mutual

/-- Labels that are met before what follows the statement. -/
def earlyLabels : Stmt → List SwitchLabel
  | .block _ ss => earlyLabelsList ss
  | .caseS i s => .caseL i :: earlyLabels s
  | .default s => .default :: earlyLabels s
  | .label _ s => earlyLabels s
  | _ => []

def earlyLabelsList : List Stmt → List SwitchLabel
  | [] => []
  | s :: ss => earlyLabels s ++ earlyLabelsList ss

end

mutual

/-- Labels that are met after what follows the statement. -/
def lateLabels : Stmt → List SwitchLabel
  | .block _ ss => lateLabelsList ss
  | .ifS _ s1 s2 => (earlyLabels s1 ++ lateLabels s1) ++ (earlyLabels s2 ++ lateLabels s2)
  | .whileS _ s | .doS s _ => earlyLabels s ++ lateLabels s
  | .caseS _ s | .default s | .label _ s => lateLabels s
  | _ => []

def lateLabelsList : List Stmt → List SwitchLabel
  | [] => []
  | s :: ss => lateLabelsList ss ++ lateLabels s

end

mutual

private theorem default_mem_labels : ∀ s : Stmt,
    (.default ∈ earlyLabels s ∨ .default ∈ lateLabels s) ↔ hasDefault s = true
  | .block _ ss => by
      rw [earlyLabels, lateLabels, hasDefault]
      exact default_mem_labelsList ss
  | .ifS _ s1 s2 => by
      simp [earlyLabels, lateLabels, hasDefault, ← default_mem_labels s1,
        ← default_mem_labels s2, or_assoc]
  | .whileS _ s => by simp [earlyLabels, lateLabels, hasDefault, ← default_mem_labels s]
  | .doS s _ => by simp [earlyLabels, lateLabels, hasDefault, ← default_mem_labels s]
  | .caseS _ s => by simp [earlyLabels, lateLabels, hasDefault, ← default_mem_labels s]
  | .label _ s => by simp [earlyLabels, lateLabels, hasDefault, ← default_mem_labels s]
  | .default s => by simp [earlyLabels, lateLabels, hasDefault]
  | .skip | .expr _ | .breakS | .continueS | .returnVoid | .returnS _ | .switch _ _
  | .caseRangeGNU _ _ _ | .goto _ | .declaration _ | .par _ | .regStore _ _ | .marker _ => by
      simp [earlyLabels, lateLabels, hasDefault]

private theorem default_mem_labelsList : ∀ ss : List Stmt,
    (.default ∈ earlyLabelsList ss ∨ .default ∈ lateLabelsList ss) ↔
      hasDefaultList ss = true
  | [] => by simp [earlyLabelsList, lateLabelsList, hasDefaultList]
  | s :: ss => by
      simp only [earlyLabelsList, lateLabelsList, hasDefaultList, List.mem_append,
        Bool.or_eq_true, ← default_mem_labels s, ← default_mem_labelsList ss]
      grind

end

/-- The labels of a list of statements in the order in which they are met. -/
def switchLabels (ss : List Stmt) : List SwitchLabel := earlyLabelsList ss ++ lateLabelsList ss

private theorem earlyLabelsList_append (ss ss' : List Stmt) :
    earlyLabelsList (ss ++ ss') = earlyLabelsList ss ++ earlyLabelsList ss' := by
  induction ss with
  | nil => rfl
  | cons s ss inductionHypothesis =>
      rw [List.cons_append, earlyLabelsList, earlyLabelsList, inductionHypothesis,
        List.append_assoc]

private theorem lateLabelsList_append (ss ss' : List Stmt) :
    lateLabelsList (ss ++ ss') = lateLabelsList ss' ++ lateLabelsList ss := by
  induction ss with
  | nil => simp [lateLabelsList]
  | cons s ss inductionHypothesis =>
      rw [List.cons_append, lateLabelsList, lateLabelsList, inductionHypothesis,
        List.append_assoc]

section

variable {ss stmts : List Stmt} {s s1 s2 : Stmt} {e : Expr} {i : Int} {l : Sym}
  {bindings : List (Sym × CType)}

attribute [local simp] switchLabels earlyLabels earlyLabelsList lateLabels lateLabelsList

theorem switchLabels_block :
    switchLabels (.block bindings ss :: stmts) = switchLabels (ss ++ stmts) := by
  simp [earlyLabelsList_append, lateLabelsList_append]

theorem switchLabels_ifS : switchLabels (.ifS e s1 s2 :: stmts) =
    switchLabels stmts ++ (switchLabels [s1] ++ switchLabels [s2]) := by
  simp

theorem switchLabels_whileS :
    switchLabels (.whileS e s :: stmts) = switchLabels stmts ++ switchLabels [s] := by
  simp

theorem switchLabels_doS :
    switchLabels (.doS s e :: stmts) = switchLabels stmts ++ switchLabels [s] := by
  simp

theorem switchLabels_caseS :
    switchLabels (.caseS i s :: stmts) = .caseL i :: switchLabels (s :: stmts) := by
  simp

theorem switchLabels_default :
    switchLabels (.default s :: stmts) = .default :: switchLabels (s :: stmts) := by
  simp

theorem switchLabels_label :
    switchLabels (.label l s :: stmts) = switchLabels (s :: stmts) := by
  simp

/-- Other statements have no labels. -/
theorem switchLabels_plain (early : earlyLabels s = []) (late : lateLabels s = []) :
    switchLabels (s :: stmts) = switchLabels stmts := by
  simp [early, late]

end

theorem default_mem_switchLabels (ss : List Stmt) :
    .default ∈ switchLabels ss ↔ hasDefaultList ss = true := by
  rw [switchLabels, List.mem_append, default_mem_labelsList]

/-! ## Labels after the default -/

/-- Nothing is met after the default. The flag says that it has been met before. -/
def defaultLast : Bool → List SwitchLabel → Bool
  | _, [] => true
  | true, _ :: _ => false
  | false, .caseL _ :: ls => defaultLast false ls
  | false, .default :: ls => defaultLast true ls

theorem defaultLast_append (met : Bool) (ls ls' : List SwitchLabel) :
    defaultLast met (ls ++ ls') =
      (defaultLast met ls && defaultLast (met || decide (.default ∈ ls)) ls') := by
  induction ls generalizing met with
  | nil => simp [defaultLast]
  | cons l ls inductionHypothesis =>
      cases met with
      | true => rfl
      | false =>
          cases l with
          | caseL i => simp [defaultLast, inductionHypothesis]
          | default => simp [defaultLast, inductionHypothesis]

/-- A switch whose default is not last has a label after it. -/
theorem defaultLast_iff (ls : List SwitchLabel) :
    defaultLast false ls = true ↔ .default ∉ ls.dropLast := by
  induction ls with
  | nil => simp [defaultLast]
  | cons l ls inductionHypothesis =>
      cases ls with
      | nil => cases l <;> simp [defaultLast]
      | cons l' ls =>
          cases l with
          | caseL i =>
              rw [defaultLast, inductionHypothesis, List.dropLast_cons_cons]
              simp
          | default => simp [defaultLast, List.dropLast_cons_cons]

mutual

/-- In every switch, no label is met after the default, and the expression is not of a
boolean type. There are no markers. -/
def Stmt.AssertFree (ctx : Ctx) : Stmt → Prop
  | .block _ ss => Stmt.AssertFreeList ctx ss
  | .ifS _ s1 s2 => s1.AssertFree ctx ∧ s2.AssertFree ctx
  | .whileS _ s | .doS s _ | .caseS _ s | .default s | .label _ s => s.AssertFree ctx
  | .switch e s => .default ∉ (switchLabels [s]).dropLast ∧ opTypeOfExpr ctx e ≠ .ok .bool ∧
      s.AssertFree ctx
  | .marker _ => False
  | _ => True

def Stmt.AssertFreeList (ctx : Ctx) : List Stmt → Prop
  | [] => True
  | s :: ss => s.AssertFree ctx ∧ Stmt.AssertFreeList ctx ss

end

theorem assertFreeList_append {ctx : Ctx} {ss ss' : List Stmt} :
    Stmt.AssertFreeList ctx (ss ++ ss') ↔
      Stmt.AssertFreeList ctx ss ∧ Stmt.AssertFreeList ctx ss' := by
  induction ss with
  | nil => simp [Stmt.AssertFreeList]
  | cons s ss inductionHypothesis => simp [Stmt.AssertFreeList, inductionHypothesis, and_assoc]

/-- The innermost switch has met its default, or there is none. -/
def State.defaulted (σ : State) : Bool :=
  match σ.switches with
  | [] => true
  | data :: _ => data.default.isSome

theorem Grows.defaulted {cases : List Int} {default : Bool} {σ σ' : State}
    (grows : Grows cases default σ σ') : σ'.defaulted = (σ.defaulted || default) := by
  have switches := grows.switches
  unfold State.defaulted
  cases before : σ.switches with
  | nil =>
      rw [before] at switches
      obtain ⟨after, -, noDefault⟩ := switches
      rw [after, noDefault]
      rfl
  | cons data rest =>
      rw [before] at switches
      obtain ⟨data', after, ⟨-, defaults⟩⟩ := switches
      rw [after]
      cases default with
      | true =>
          obtain ⟨before, s, after⟩ := defaults
          simp [before, after]
      | false => simp [show data'.default = data.default from defaults]

section

variable {ctx : Ctx} {retTy : Option Coq.OpType} {σ σ' : State} {ks : List KData}
  {stmts : List Stmt} {t : Coq.Stmt}

theorem Translates.defaulted (run : Translates ctx retTy σ ks stmts t σ') :
    σ'.defaulted = (σ.defaulted || decide (.default ∈ switchLabels stmts)) := by
  rw [run.grows.defaulted]
  congr 1
  rw [Bool.eq_iff_iff, decide_eq_true_iff, default_mem_switchLabels]

theorem Keeps.defaulted (keeps : Keeps σ σ') : σ'.defaulted = σ.defaulted := by
  rw [Grows.defaulted keeps, Bool.or_false]

private theorem switchType_ne_bool {e : Expr} {it : Coq.IntType}
    (isInt : switchType ctx e = .ok it) :
    opTypeOfExpr ctx e ≠ .ok .bool := by
  intro isBool
  rw [switchType, isBool] at isInt
  cases isInt

private theorem registerCase_defaulted {i : Int} {ref : Nat} {curLabel nextLabel : String}
    (run : registerCase i σ = .ok ((ref, curLabel, nextLabel), σ')) :
    σ.defaulted = false ∧ σ'.defaulted = false := by
  obtain ⟨data, rest, top, noDefault, -, -, -, rfl⟩ := registerCase_eq_ok run
  simp [State.defaulted, top, noDefault]

private theorem registerDefault_defaulted {curLabel nextLabel : String}
    (run : registerDefault σ = .ok ((curLabel, nextLabel), σ')) :
    σ.defaulted = false ∧ σ'.defaulted = true := by
  obtain ⟨data, rest, top, noDefault, -, -, rfl⟩ := registerDefault_eq_ok run
  simp [State.defaulted, top, noDefault]

/-- No label is met after the default, in a translation that succeeds. -/
theorem Translates.defaultLast (run : Translates ctx retTy σ ks stmts t σ') :
    defaultLast σ.defaulted (switchLabels stmts) = true := by
  induction run with
  | nil => simp [switchLabels, earlyLabelsList, lateLabelsList, Frontend.defaultLast]
  | block inserted _ body =>
      rwa [(insertBindings_keeps inserted).defaulted, ← switchLabels_block] at body
  | goto _ rest | returnVoid _ rest | breakS _ _ rest | continueS _ _ rest | returnS _ _ rest
  | skip _ rest | expr _ _ rest | declaration _ _ rest => rwa [switchLabels_plain rfl rfl]
  | ifLast run1 added1 _ _ _ branch1 branch2 =>
      rw [(fresh_keeps _).defaulted] at branch1 branch2
      rw [(addBlock_keeps added1).defaulted, run1.defaulted, (fresh_keeps _).defaulted] at branch2
      rw [switchLabels_ifS, switchLabels, earlyLabelsList, lateLabelsList, List.nil_append,
        List.nil_append, defaultLast_append, branch1, branch2]
      rfl
  | ifCont _ runCont addedCont run1 added1 _ _ _ cont branch1 branch2 =>
      rw [(fresh_keeps _).defaulted] at cont branch1 branch2
      rw [(addBlock_keeps addedCont).defaulted, runCont.defaulted, (fresh_keeps _).defaulted]
        at branch1
      rw [(addBlock_keeps added1).defaulted, run1.defaulted, (fresh_keeps _).defaulted,
        (addBlock_keeps addedCont).defaulted, runCont.defaulted, (fresh_keeps _).defaulted]
        at branch2
      rw [switchLabels_ifS, defaultLast_append, defaultLast_append, cont, branch1, branch2]
      rfl
  | whileS runCont addedCont _ _ _ _ cont body | doS runCont addedCont _ _ _ _ cont body =>
      rw [(fresh_keeps _).defaulted, (fresh_keeps _).defaulted, (fresh_keeps _).defaulted] at cont
      rw [(addBlock_keeps addedCont).defaulted, runCont.defaulted, (fresh_keeps _).defaulted,
        (fresh_keeps _).defaulted, (fresh_keeps _).defaulted] at body
      first | rw [switchLabels_whileS] | rw [switchLabels_doS]
      rw [defaultLast_append, cont, body]
      rfl
  | switch _ _ _ _ _ _ _ _ _ cont body =>
      rw [(fresh_keeps _).defaulted] at cont
      rwa [switchLabels_plain rfl rfl]
  | caseS registered _ _ _ body =>
      obtain ⟨before, after⟩ := registerCase_defaulted registered
      rw [after] at body
      rw [before, switchLabels_caseS]
      exact body
  | default registered _ _ _ body =>
      obtain ⟨before, after⟩ := registerDefault_defaulted registered
      rw [after] at body
      rw [before, switchLabels_default]
      exact body
  | label _ _ body => rwa [switchLabels_label]

theorem Translates.assertFree (run : Translates ctx retTy σ ks stmts t σ') :
    Stmt.AssertFreeList ctx stmts := by
  induction run with
  | nil => trivial
  | block _ _ body => rwa [Stmt.AssertFreeList, Stmt.AssertFree, ← assertFreeList_append]
  | goto _ rest | returnVoid _ rest | breakS _ _ rest | continueS _ _ rest | returnS _ _ rest
  | skip _ rest | expr _ _ rest | declaration _ _ rest => exact ⟨trivial, rest⟩
  | ifLast _ _ _ _ _ branch1 branch2 => exact ⟨⟨branch1.1, branch2.1⟩, trivial⟩
  | ifCont _ _ _ _ _ _ _ _ cont branch1 branch2 => exact ⟨⟨branch1.1, branch2.1⟩, cont⟩
  | whileS _ _ _ _ _ _ cont body | doS _ _ _ _ _ _ cont body => exact ⟨body.1, cont⟩
  | switch _ _ isInt runBody _ _ _ _ _ cont body =>
      have last := runBody.defaultLast
      exact ⟨⟨(defaultLast_iff _).mp last, switchType_ne_bool isInt, body.1⟩, cont⟩
  | caseS _ _ _ _ body | default _ _ _ _ body | label _ _ body => exact body

end

end RefinedC.Frontend
