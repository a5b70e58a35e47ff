import RefinedC.Frontend.Ail

/-!
Labels, cases and bindings of statements.

Owns: the jump targets and declared variables that occur in a statement, and the
constraints that C puts on them.
-/

namespace RefinedC.Frontend

mutual

/-- Cases of the innermost enclosing switch. -/
def casesOf : Stmt → List Int
  | .block _ ss => casesOfList ss
  | .ifS _ s1 s2 => casesOf s1 ++ casesOf s2
  | .whileS _ s | .doS s _ | .label _ s | .default s => casesOf s
  | .caseS i s => i :: casesOf s
  | _ => []

def casesOfList : List Stmt → List Int
  | [] => []
  | s :: ss => casesOf s ++ casesOfList ss

end

mutual

/-- The innermost enclosing switch has its default here. -/
def hasDefault : Stmt → Bool
  | .block _ ss => hasDefaultList ss
  | .ifS _ s1 s2 => hasDefault s1 || hasDefault s2
  | .whileS _ s | .doS s _ | .label _ s | .caseS _ s => hasDefault s
  | .default _ => true
  | _ => false

def hasDefaultList : List Stmt → Bool
  | [] => false
  | s :: ss => hasDefault s || hasDefaultList ss

end

mutual

/-- The case constants of every switch are distinct. -/
def CasesDistinct : Stmt → Prop
  | .block _ ss => CasesDistinctList ss
  | .ifS _ s1 s2 => CasesDistinct s1 ∧ CasesDistinct s2
  | .whileS _ s | .doS s _ | .label _ s | .default s | .caseS _ s => CasesDistinct s
  | .switch _ s => (casesOf s).Nodup ∧ CasesDistinct s
  | _ => True

def CasesDistinctList : List Stmt → Prop
  | [] => True
  | s :: ss => CasesDistinct s ∧ CasesDistinctList ss

end

mutual

def labelsOf : Stmt → List String
  | .block _ ss => labelsOfList ss
  | .ifS _ s1 s2 => labelsOf s1 ++ labelsOf s2
  | .whileS _ s | .doS s _ | .switch _ s | .caseS _ s | .default s => labelsOf s
  | .label l s => symToStr l :: labelsOf s
  | _ => []

def labelsOfList : List Stmt → List String
  | [] => []
  | s :: ss => labelsOf s ++ labelsOfList ss

end

mutual

/-- Labels that occur in gotos. -/
def gotosOf : Stmt → List String
  | .block _ ss => gotosOfList ss
  | .ifS _ s1 s2 => gotosOf s1 ++ gotosOf s2
  | .whileS _ s | .doS s _ | .switch _ s | .caseS _ s | .default s | .label _ s => gotosOf s
  | .goto l => [symToStr l]
  | _ => []

def gotosOfList : List Stmt → List String
  | [] => []
  | s :: ss => gotosOf s ++ gotosOfList ss

end

mutual

/-- Variables declared in nested blocks. -/
def bindingsOf : Stmt → List (Sym × CType)
  | .block bindings ss => bindings ++ bindingsOfList ss
  | .ifS _ s1 s2 => bindingsOf s1 ++ bindingsOf s2
  | .whileS _ s | .doS s _ | .switch _ s | .caseS _ s | .default s | .label _ s => bindingsOf s
  | _ => []

def bindingsOfList : List Stmt → List (Sym × CType)
  | [] => []
  | s :: ss => bindingsOf s ++ bindingsOfList ss

end

section

variable (ss ss' : List Stmt)

@[simp] theorem casesOfList_append :
    casesOfList (ss ++ ss') = casesOfList ss ++ casesOfList ss' := by
  induction ss with
  | nil => rfl
  | cons s ss inductionHypothesis => simp [casesOfList, inductionHypothesis]

@[simp] theorem hasDefaultList_append :
    hasDefaultList (ss ++ ss') = (hasDefaultList ss || hasDefaultList ss') := by
  induction ss with
  | nil => rfl
  | cons s ss inductionHypothesis => simp [hasDefaultList, inductionHypothesis, Bool.or_assoc]

@[simp] theorem casesDistinctList_append :
    CasesDistinctList (ss ++ ss') ↔ CasesDistinctList ss ∧ CasesDistinctList ss' := by
  induction ss with
  | nil => simp [CasesDistinctList]
  | cons s ss inductionHypothesis => simp [CasesDistinctList, inductionHypothesis, and_assoc]

@[simp] theorem labelsOfList_append :
    labelsOfList (ss ++ ss') = labelsOfList ss ++ labelsOfList ss' := by
  induction ss with
  | nil => rfl
  | cons s ss inductionHypothesis => simp [labelsOfList, inductionHypothesis]

@[simp] theorem gotosOfList_append :
    gotosOfList (ss ++ ss') = gotosOfList ss ++ gotosOfList ss' := by
  induction ss with
  | nil => rfl
  | cons s ss inductionHypothesis => simp [gotosOfList, inductionHypothesis]

@[simp] theorem bindingsOfList_append :
    bindingsOfList (ss ++ ss') = bindingsOfList ss ++ bindingsOfList ss' := by
  induction ss with
  | nil => rfl
  | cons s ss inductionHypothesis => simp [bindingsOfList, inductionHypothesis]

end

end RefinedC.Frontend
