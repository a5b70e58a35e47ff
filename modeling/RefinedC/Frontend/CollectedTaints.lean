import RefinedC.Frontend.Effects
import RefinedC.Library.AssocList

/-!
What the taints of expressions, statements and functions consist of.

Owns: the operands that the analysis visits, the taints and recorded pairs of an
expression in terms of the operators that it visits, those of a statement and of
a function in terms of their expressions, and the table of function taints.

Does not own: the resolution of calls.

The operand of a load and the designator of a call are not visited.
-/

namespace RefinedC.Frontend

open Library

/-! ## Operands that the analysis visits -/

/-- Operands whose taints are part of those of the expression. -/
def visitedOperands : ExprNode → List Expr
  | .unary _ e | .cast _ e | .assert e | .compound _ e | .memberof e _ | .memberofptr e _
  | .sizeofExpr e | .annot _ e | .vaStart e _ | .vaArg e _ | .vaEnd e | .printType e
  | .bmcAssume e | .arrayDecay e | .functionDecay e | .union _ _ (some e) | .atomic e => [e]
  | .binary e1 _ e2 | .assign e1 e2 | .compoundAssign e1 _ e2 | .cond e1 none e2
  | .vaCopy e1 e2 => [e1, e2]
  | .cond e1 (some e2) e3 => [e1, e2, e3]
  | .call _ es => es
  | .generic e _ es => e :: es
  | .array _ es | .struct _ _ es => es.filterMap id
  | _ => []

/-- The analysis of `e` visits `sub`. -/
inductive Visited (sub : Expr) : Expr → Prop where
  | refl : Visited sub sub
  | operand {e c : Expr} (member : c ∈ visitedOperands (stripExpr e)) (inner : Visited sub c) :
      Visited sub e

theorem Visited.trans {e1 e2 e3 : Expr} (inner : Visited e1 e2) (outer : Visited e2 e3) :
    Visited e1 e3 := by
  induction outer with
  | refl => exact inner
  | operand member _ inductionHypothesis => exact .operand member inductionHypothesis

private theorem sizeOf_visitedOperand {node : ExprNode} {c : Expr}
    (member : c ∈ visitedOperands node) :
    sizeOf c < sizeOf node := by
  have ofList : ∀ {es : List Expr}, c ∈ es → sizeOf c < sizeOf es := List.sizeOf_lt_of_mem
  have ofOptions : ∀ {es : List (Option Expr)}, c ∈ es.filterMap id →
      sizeOf c < sizeOf es := by
    intro es inside
    have smaller : sizeOf (some c) < sizeOf es := List.sizeOf_lt_of_mem (by simpa using inside)
    simp only [Option.some.sizeOf_spec] at smaller
    omega
  cases node with
  | unary _ e | cast _ e | assert e | compound _ e | memberof e _ | memberofptr e _
  | sizeofExpr e | annot _ e | vaStart e _ | vaArg e _ | vaEnd e | printType e | bmcAssume e
  | arrayDecay e | functionDecay e | atomic e =>
      cases List.mem_singleton.mp member
      simp
      all_goals omega
  | union _ _ e =>
      cases e with
      | none => simp [visitedOperands] at member
      | some e =>
          cases List.mem_singleton.mp member
          simp
          omega
  | binary e1 op e2 | assign e1 e2 | compoundAssign e1 op e2 | vaCopy e1 e2 =>
      simp only [visitedOperands, List.mem_cons, List.not_mem_nil, or_false] at member
      rcases member with rfl | rfl <;> simp
      all_goals omega
  | cond e1 e2 e3 =>
      cases e2 with
      | none =>
          simp only [visitedOperands, List.mem_cons, List.not_mem_nil, or_false] at member
          rcases member with rfl | rfl <;> simp
          omega
      | some e2 =>
          simp only [visitedOperands, List.mem_cons, List.not_mem_nil, or_false] at member
          rcases member with rfl | rfl | rfl <;> simp
          all_goals omega
  | call e es =>
      have smaller : sizeOf c < sizeOf es := ofList member
      simp
      omega
  | generic e types es =>
      rcases List.mem_cons.mp member with rfl | inside
      · simp
        omega
      · have smaller := ofList inside
        simp
        omega
  | array ty es | struct s members es =>
      have smaller : sizeOf c < sizeOf es := ofOptions member
      simp
      omega
  | offsetof _ _ | builtin _ | str _ | const _ | ident _ | sizeof _ | alignof _ | regLoad _
  | rvalue _ | gccStatement | invalid => simp [visitedOperands] at member

/-- Induction along the operands that the analysis visits. -/
@[elab_as_elim]
theorem visitedOperands_induction {motive : Expr → Prop}
    (step : ∀ e, (∀ c ∈ visitedOperands (stripExpr e), motive c) → motive e) (e : Expr) :
    motive e := by
  apply step
  intro c member
  exact visitedOperands_induction step c
termination_by sizeOf e
decreasing_by
  have smaller := sizeOf_visitedOperand member
  cases e
  simp [stripExpr] at smaller ⊢
  omega

/-! ## Taints of lists of expressions -/

/-- Taints `t` are those of all elements of a list together. -/
structure Merges {α : Type} (taint : α → Result Taints) (l : List α) (t : Taints) : Prop where
  each : ∀ a ∈ l, ∃ t', taint a = .ok t'
  taints : ∀ x, x ∈ t.taints ↔ ∃ a ∈ l, ∃ t', taint a = .ok t' ∧ x ∈ t'.taints
  races : ∀ race, race ∈ t.races ↔ ∃ a ∈ l, ∃ t', taint a = .ok t' ∧ race ∈ t'.races

section

variable {α : Type} {taint : α → Result Taints} {l l' : List α} {t t' : Taints}

theorem Merges.nil : Merges taint [] .empty :=
  ⟨by simp, by simp [Taints.empty], by simp [Taints.empty]⟩

private theorem Merges.singleton {a : α} (run : taint a = .ok t) : Merges taint [a] t :=
  ⟨by simp [run], by simp [run], by simp [run]⟩

theorem Merges.append (first : Merges taint l t) (second : Merges taint l' t') :
    Merges taint (l ++ l') (t.merge t') where
  each := by
    intro a member
    exact (List.mem_append.mp member).elim (first.each a) (second.each a)
  taints := by
    intro x
    simp only [Taints.merge, List.mem_append, first.taints, second.taints, or_and_right, exists_or]
  races := by
    intro race
    simp only [Taints.merge, List.mem_append, first.races, second.races, or_and_right, exists_or]

theorem Merges.cons {a : α} (run : taint a = .ok t) (rest : Merges taint l t') :
    Merges taint (a :: l) (t.merge t') :=
  (Merges.singleton run).append rest

end

variable {pointsTo : Expr → Result (List Pointsto)}

private theorem taintExprs_merges {es : List Expr} {t : Taints}
    (run : taintExprs pointsTo es = .ok t) :
    Merges (taintExpr pointsTo) es t := by
  induction es generalizing t with
  | nil =>
      cases run
      exact .nil
  | cons e es inductionHypothesis =>
      simp only [taintExprs, bind_eq_ok] at run
      obtain ⟨first, headRun, rest, tailRun, result⟩ := run
      cases result
      exact .cons headRun (inductionHypothesis tailRun)

private theorem taintOptExprs_merges {es : List (Option Expr)} {t : Taints}
    (run : taintOptExprs pointsTo es = .ok t) :
    Merges (taintExpr pointsTo) (es.filterMap id) t := by
  induction es generalizing t with
  | nil =>
      cases run
      exact .nil
  | cons e es inductionHypothesis =>
      cases e with
      | none => exact inductionHypothesis run
      | some e =>
          simp only [taintOptExprs, bind_eq_ok] at run
          obtain ⟨first, headRun, rest, tailRun, result⟩ := run
          cases result
          exact .cons headRun (inductionHypothesis tailRun)

private theorem taintDecls_merges {ds : List (Sym × Option Expr)} {t : Taints}
    (run : taintDecls pointsTo ds = .ok t) :
    Merges (taintExpr pointsTo) (ds.filterMap Prod.snd) t := by
  induction ds generalizing t with
  | nil =>
      cases run
      exact .nil
  | cons d ds inductionHypothesis =>
      obtain ⟨s, e⟩ := d
      cases e with
      | none => exact inductionHypothesis run
      | some e =>
          simp only [taintDecls, bind_eq_ok] at run
          obtain ⟨first, headRun, rest, tailRun, result⟩ := run
          cases result
          exact .cons headRun (inductionHypothesis tailRun)

/-! ## Taints of an expression -/

/-- Taints of the outermost operator. -/
def ownTaints (pointsTo : Expr → Result (List Pointsto)) : ExprNode → Result (List Taint)
  | .rvalue e => do
      let pts ← pointsTo e
      return pts.map .load
  | .assign e _ | .compoundAssign e _ _ => do
      let pts ← pointsTo e
      return pts.map .store
  | .call e _ => .ok [callTaint e]
  | _ => .ok []

theorem ownTaints_call {node : ExprNode} {own : List Taint} {f : Sym}
    (isOwn : ownTaints pointsTo node = .ok own) (member : .call f ∈ own) :
    ∃ d es, node = .call d es ∧ callTaint d = .call f := by
  cases node with
  | call d es =>
      cases isOwn
      exact ⟨d, es, rfl, (List.mem_singleton.mp member).symm⟩
  | rvalue e | assign e e2 | compoundAssign e op e2 =>
      simp only [ownTaints, bind_eq_ok] at isOwn
      obtain ⟨pts, -, result⟩ := isOwn
      cases result
      simp at member
  | _ =>
      cases isOwn
      simp at member

/-- The pair that is recorded for the outermost operator. -/
def OwnRace (pointsTo : Expr → Result (List Pointsto)) (node : ExprNode)
    (race : List Taint × List Taint) : Prop :=
  ∃ e1 op e2 t1 t2, node = .binary e1 op e2 ∧ taintExpr pointsTo e1 = .ok t1 ∧
    taintExpr pointsTo e2 = .ok t2 ∧ t1.taints ≠ [] ∧ t2.taints ≠ [] ∧
    race = (t1.taints, t2.taints)

/-- Taints of an operator are its own and those of the visited operands. -/
structure OwnAndOperands (pointsTo : Expr → Result (List Pointsto)) (node : ExprNode)
    (t : Taints) (own : List Taint) (rest : Taints) : Prop where
  isOwn : ownTaints pointsTo node = .ok own
  operands : Merges (taintExpr pointsTo) (visitedOperands node) rest
  taints : t.taints = own ++ rest.taints
  races : ∀ race, race ∈ t.races ↔ OwnRace pointsTo node race ∨ race ∈ rest.races

private theorem ownRace_binary_iff {e1 e2 : Expr} {op : BinaryOperator} {t1 t2 : Taints}
    (run1 : taintExpr pointsTo e1 = .ok t1) (run2 : taintExpr pointsTo e2 = .ok t2)
    {race : List Taint × List Taint} :
    OwnRace pointsTo (.binary e1 op e2) race ↔
      t1.taints ≠ [] ∧ t2.taints ≠ [] ∧ race = (t1.taints, t2.taints) := by
  constructor
  · rintro ⟨e1', op', e2', t1', t2', same, run1', run2', pair⟩
    cases same
    cases run1.symm.trans run1'
    cases run2.symm.trans run2'
    exact pair
  · intro pair
    exact ⟨e1, op, e2, t1, t2, rfl, run1, run2, pair⟩

private theorem mem_ofOperands_races {t1 t2 : Taints} {race : List Taint × List Taint} :
    race ∈ (Taints.ofOperands t1 t2).races ↔
      (t1.taints ≠ [] ∧ t2.taints ≠ [] ∧ race = (t1.taints, t2.taints)) ∨
        race ∈ (t1.merge t2).races := by
  rw [Taints.ofOperands]
  split
  next quiet =>
    have noPair : ¬ (t1.taints ≠ [] ∧ t2.taints ≠ [] ∧ race = (t1.taints, t2.taints)) :=
      fun pair => quiet.elim pair.1 pair.2.1
    simp only [noPair, false_or]
  next loud =>
    obtain ⟨first, second⟩ := not_or.mp loud
    simp only [List.mem_cons, ne_eq, first, second, not_false_eq_true, true_and]

private theorem taintNode_operands {node : ExprNode} {t : Taints}
    (run : taintNode pointsTo node = .ok t) :
    ∃ own rest, OwnAndOperands pointsTo node t own rest := by
  -- Only binary operators record a pair.
  have sequenced :
      ∀ {races : List (List Taint × List Taint)}, (∀ e1 op e2, node ≠ .binary e1 op e2) →
      ∀ race, race ∈ races ↔ OwnRace pointsTo node race ∨ race ∈ races := by
    intro races notBinary race
    constructor
    · exact .inr
    · rintro (⟨e1, op, e2, t1, t2, isBinary, -⟩ | member)
      · exact absurd isBinary (notBinary e1 op e2)
      · exact member
  cases node with
  | unary _ e | cast _ e | assert e | compound _ e | memberof e _ | memberofptr e _
  | sizeofExpr e | annot _ e | vaStart e _ | vaArg e _ | vaEnd e | printType e | bmcAssume e
  | arrayDecay e | functionDecay e | atomic e =>
      exact ⟨[], t, rfl, .singleton run, rfl, sequenced (by simp)⟩
  | union _ _ e =>
      cases e with
      | none =>
          cases run
          exact ⟨[], .empty, rfl, .nil, rfl, sequenced (by simp)⟩
      | some e => exact ⟨[], t, rfl, .singleton run, rfl, sequenced (by simp)⟩
  | rvalue e =>
      rw [taintNode, bind_eq_ok] at run
      obtain ⟨pts, found, result⟩ := run
      cases result
      refine ⟨pts.map .load, .empty, ?_, .nil, by simp [Taints.empty], sequenced (by simp)⟩
      rw [ownTaints, found]
      rfl
  | binary e1 op e2 =>
      simp only [taintNode, bind_eq_ok] at run
      obtain ⟨t1, run1, t2, run2, result⟩ := run
      cases result
      refine ⟨[], t1.merge t2, rfl, .cons run1 (.singleton run2), ?_, ?_⟩
      · unfold Taints.ofOperands
        split <;> rfl
      · intro race
        rw [ownRace_binary_iff run1 run2]
        exact mem_ofOperands_races
  | assign e1 e2 | compoundAssign e1 op e2 =>
      simp only [taintNode, bind_eq_ok] at run
      obtain ⟨pts, found, t1, run1, t2, run2, result⟩ := run
      cases result
      refine ⟨pts.map .store, t1.merge t2, ?_, .cons run1 (.singleton run2), rfl,
        sequenced (by simp)⟩
      rw [ownTaints, found]
      rfl
  | vaCopy e1 e2 =>
      simp only [taintNode, bind_eq_ok] at run
      obtain ⟨t1, run1, t2, run2, result⟩ := run
      cases result
      exact ⟨[], _, rfl, .cons run1 (.singleton run2), rfl, sequenced (by simp)⟩
  | cond e1 e2 e3 =>
      cases e2 with
      | none =>
          simp only [taintNode, bind_eq_ok] at run
          obtain ⟨t1, run1, t3, run3, result⟩ := run
          cases result
          exact ⟨[], _, rfl, .cons run1 (.singleton run3), rfl, sequenced (by simp)⟩
      | some e2 =>
          simp only [taintNode, bind_eq_ok] at run
          obtain ⟨t1, run1, t2, run2, t3, run3, result⟩ := run
          cases result
          exact ⟨[], _, rfl, .cons run1 (.cons run2 (.singleton run3)), rfl,
            sequenced (by simp)⟩
  | call d es =>
      simp only [taintNode, bind_eq_ok] at run
      obtain ⟨ts, runs, result⟩ := run
      cases result
      exact ⟨[callTaint d], ts, rfl, taintExprs_merges runs, rfl, sequenced (by simp)⟩
  | generic e types es =>
      simp only [taintNode, bind_eq_ok] at run
      obtain ⟨t1, run1, ts, runs, result⟩ := run
      cases result
      exact ⟨[], _, rfl, .cons run1 (taintExprs_merges runs), rfl, sequenced (by simp)⟩
  | array _ es | struct _ _ es =>
      exact ⟨[], t, rfl, taintOptExprs_merges run, rfl, sequenced (by simp)⟩
  | offsetof _ _ | builtin _ | str _ | const _ | ident _ | sizeof _ | alignof _ | regLoad _ =>
      cases run
      exact ⟨[], .empty, rfl, .nil, rfl, sequenced (by simp)⟩
  | gccStatement | invalid => cases run

/-- The result of one taint computation is part of another one. -/
def Taints.PartOf (t1 t2 : Taints) : Prop := t1.taints ⊆ t2.taints ∧ t1.races ⊆ t2.races

theorem Taints.PartOf.trans {t1 t2 t3 : Taints} (inner : t1.PartOf t2) (outer : t2.PartOf t3) :
    t1.PartOf t3 :=
  ⟨fun _ h => outer.1 (inner.1 h), fun _ h => outer.2 (inner.2 h)⟩

private theorem Merges.partOf {α : Type} {taint : α → Result Taints} {l : List α} {t : Taints}
    (merges : Merges taint l t) {a : α} (member : a ∈ l) :
    ∃ t', taint a = .ok t' ∧ t'.PartOf t := by
  obtain ⟨t', run⟩ := merges.each a member
  refine ⟨t', run, ?_, ?_⟩
  · intro x inside
    exact (merges.taints x).mpr ⟨a, member, t', run, inside⟩
  · intro race inside
    exact (merges.races race).mpr ⟨a, member, t', run, inside⟩

section

variable {e sub : Expr} {t : Taints}

private theorem taintExpr_operands (run : taintExpr pointsTo e = .ok t) :
    ∃ own rest, OwnAndOperands pointsTo (stripExpr e) t own rest := by
  cases e with
  | annotated tc node => exact taintNode_operands run

theorem taintExpr_visited (inside : Visited sub e) (run : taintExpr pointsTo e = .ok t) :
    ∃ t', taintExpr pointsTo sub = .ok t' ∧ t'.PartOf t := by
  induction inside generalizing t with
  | refl => exact ⟨t, run, fun _ h => h, fun _ h => h⟩
  | operand member _ inductionHypothesis =>
      obtain ⟨own, rest, parts⟩ := taintExpr_operands run
      obtain ⟨t', found, part⟩ := parts.operands.partOf member
      obtain ⟨t'', visited, part'⟩ := inductionHypothesis found
      refine ⟨t'', visited, part'.trans (part.trans ⟨?_, ?_⟩)⟩
      · rw [parts.taints]
        exact List.subset_append_right _ _
      · exact fun race member => (parts.races race).mpr (.inr member)

/-- Taint `x` is one of an operator that the analysis of `e` visits. -/
def SeenTaint (pointsTo : Expr → Result (List Pointsto)) (e : Expr) (x : Taint) : Prop :=
  ∃ sub own, Visited sub e ∧ ownTaints pointsTo (stripExpr sub) = .ok own ∧ x ∈ own

/-- The taints of an expression are those of the operators that are visited. -/
theorem mem_taintExpr_taints (run : taintExpr pointsTo e = .ok t) {x : Taint} :
    x ∈ t.taints ↔ SeenTaint pointsTo e x := by
  constructor
  · induction e using visitedOperands_induction generalizing t with
    | step e inductionHypothesis =>
        intro member
        obtain ⟨own, rest, parts⟩ := taintExpr_operands run
        rw [parts.taints, List.mem_append, parts.operands.taints] at member
        rcases member with isOwn | ⟨c, operand, t', found, inside⟩
        · exact ⟨e, own, .refl, parts.isOwn, isOwn⟩
        · obtain ⟨sub, own', visited, ownOfSub, isOwn⟩ :=
            inductionHypothesis c operand found inside
          exact ⟨sub, own', .operand operand visited, ownOfSub, isOwn⟩
  · rintro ⟨sub, own, visited, ownOfSub, isOwn⟩
    obtain ⟨t', found, part⟩ := taintExpr_visited visited run
    obtain ⟨own', rest, parts⟩ := taintExpr_operands found
    cases ownOfSub.symm.trans parts.isOwn
    apply part.1
    rw [parts.taints]
    exact List.mem_append_left _ isOwn

/-- The recorded pairs are those of the binary operators that are visited. -/
theorem mem_taintExpr_races (run : taintExpr pointsTo e = .ok t)
    {race : List Taint × List Taint} :
    race ∈ t.races ↔ ∃ sub, Visited sub e ∧ OwnRace pointsTo (stripExpr sub) race := by
  constructor
  · induction e using visitedOperands_induction generalizing t with
    | step e inductionHypothesis =>
        intro member
        obtain ⟨own, rest, parts⟩ := taintExpr_operands run
        rw [parts.races, parts.operands.races] at member
        rcases member with isOwn | ⟨c, operand, t', found, inside⟩
        · exact ⟨e, .refl, isOwn⟩
        · obtain ⟨sub, visited, ofSub⟩ := inductionHypothesis c operand found inside
          exact ⟨sub, .operand operand visited, ofSub⟩
  · rintro ⟨sub, visited, ofSub⟩
    obtain ⟨t', found, part⟩ := taintExpr_visited visited run
    obtain ⟨own, rest, parts⟩ := taintExpr_operands found
    exact part.2 ((parts.races race).mpr (.inl ofSub))

end

/-! ## Taints of statements and functions -/

section

variable [AilTypesAux] {sigm : Sigma} {t : Taints}

/-- Taints of an expression in its scopes. -/
def taintIn (sigm : Sigma) (p : Env × Expr) : Result Taints :=
  taintExpr (pointsToIn sigm p.1) p.2

private theorem Merges.inEnv {env : Env} {es : List Expr}
    (merges : Merges (taintExpr (pointsToIn sigm env)) es t) :
    Merges (taintIn sigm) (es.map fun e => (env, e)) t where
  each := by
    intro p member
    obtain ⟨e, inside, rfl⟩ := List.mem_map.mp member
    exact merges.each e inside
  taints := by simp [merges.taints, taintIn]
  races := by simp [merges.races, taintIn]

mutual

/-- The taints of a statement are those of its expressions. -/
theorem taintStmt_merges {env : Env} {s : Stmt} {t : Taints}
    (run : taintStmt sigm env s = .ok t) : Merges (taintIn sigm) (exprsOf env s) t := by
  cases s with
  | expr e | returnS e | regStore _ e => exact .singleton run
  | block bs ss =>
      have inner : taintStmts sigm (env.enterBlock bs) ss = .ok t := run
      exact taintStmts_merges inner
  | par ss =>
      have inner : taintStmts sigm env ss = .ok t := run
      exact taintStmts_merges inner
  | caseS _ s | caseRangeGNU _ _ s | default s | label _ s =>
      have inner : taintStmt sigm env s = .ok t := run
      have merges := taintStmt_merges inner
      exact merges
  | declaration ds => exact (taintDecls_merges run).inEnv
  | whileS e s | doS s e | switch e s =>
      simp only [taintStmt, bind_eq_ok] at run
      obtain ⟨t1, run1, t2, run2, result⟩ := run
      cases result
      exact .cons run1 (taintStmt_merges run2)
  | ifS e s1 s2 =>
      simp only [taintStmt, bind_eq_ok] at run
      obtain ⟨t0, run0, t1, run1, t2, run2, result⟩ := run
      cases result
      exact .cons run0 ((taintStmt_merges run1).append (taintStmt_merges run2))
  | skip | breakS | continueS | returnVoid | goto _ =>
      cases run
      exact .nil
  | marker _ => cases run

private theorem taintStmts_merges {env : Env} {ss : List Stmt} {t : Taints}
    (run : taintStmts sigm env ss = .ok t) : Merges (taintIn sigm) (exprsOfStmts env ss) t := by
  cases ss with
  | nil =>
      cases run
      exact .nil
  | cons s ss =>
      simp only [taintStmts, bind_eq_ok] at run
      obtain ⟨t1, run1, t2, run2, result⟩ := run
      cases result
      exact (taintStmt_merges run1).append (taintStmts_merges run2)

end

/-- Taint `x` is one of an operator that the analysis visits in the body of `f`. -/
def FnTaint (sigm : Sigma) (f : Sym) (x : Taint) : Prop :=
  ∃ env e, InFunction sigm f env e ∧ SeenTaint (pointsToIn sigm env) e x

/-- The taints of a function are those that are seen in its body. One without definition may
store anywhere. -/
theorem mem_taintFunction_taints {f : Sym} (run : taintFunction sigm f = .ok t) {x : Taint} :
    x ∈ t.taints ↔
      FnTaint sigm f x ∨ (sigm.functionDefinitions.lookup f = none ∧ x = .store .wild) := by
  unfold taintFunction at run
  unfold FnTaint InFunction
  cases defined : sigm.functionDefinitions.lookup f with
  | none =>
      rw [defined] at run
      cases run
      simp
  | some fd =>
      rw [defined] at run
      rw [(taintStmt_merges run).taints]
      simp only [Option.some.injEq, exists_eq_left', reduceCtorEq, false_and, or_false]
      constructor
      · rintro ⟨⟨env, e⟩, inside, t', found, member⟩
        exact ⟨env, e, inside, (mem_taintExpr_taints found).mp member⟩
      · rintro ⟨env, e, inside, seen⟩
        obtain ⟨t', found⟩ := (taintStmt_merges run).each _ inside
        exact ⟨(env, e), inside, t', found, (mem_taintExpr_taints found).mpr seen⟩

/-- The pairs of a function are those of the binary operators that are visited in its body. -/
theorem mem_taintFunction_races {f : Sym} (run : taintFunction sigm f = .ok t)
    {race : List Taint × List Taint} :
    race ∈ t.races ↔ ∃ env e sub, InFunction sigm f env e ∧ Visited sub e ∧
      OwnRace (pointsToIn sigm env) (stripExpr sub) race := by
  unfold taintFunction at run
  unfold InFunction
  cases defined : sigm.functionDefinitions.lookup f with
  | none =>
      rw [defined] at run
      cases run
      simp
  | some fd =>
      rw [defined] at run
      rw [(taintStmt_merges run).races]
      simp only [Option.some.injEq, exists_eq_left']
      constructor
      · rintro ⟨⟨env, e⟩, inside, t', found, member⟩
        obtain ⟨sub, visited, own⟩ := (mem_taintExpr_races found).mp member
        exact ⟨env, e, sub, inside, visited, own⟩
      · rintro ⟨env, e, sub, inside, visited, own⟩
        obtain ⟨t', found⟩ := (taintStmt_merges run).each _ inside
        exact ⟨(env, e), inside, t', found,
          (mem_taintExpr_races found).mpr ⟨sub, visited, own⟩⟩

/-- The lists of a pair are made of taints of the same function. -/
theorem taintFunction_race_subset {f : Sym} (run : taintFunction sigm f = .ok t)
    {race : List Taint × List Taint} (member : race ∈ t.races) :
    race.1 ⊆ t.taints ∧ race.2 ⊆ t.taints := by
  obtain ⟨env, e, sub, inside, visited, e1, op, e2, t1, t2, isBinary, run1, run2, -, -, rfl⟩ :=
    (mem_taintFunction_races run).mp member
  have operand : ∀ c t', c = e1 ∨ c = e2 → taintExpr (pointsToIn sigm env) c = .ok t' →
      t'.taints ⊆ t.taints := by
    intro c t' isOperand found x isTaint
    obtain ⟨sub', own, visited', isOwn, inOwn⟩ := (mem_taintExpr_taints found).mp isTaint
    have member : c ∈ visitedOperands (stripExpr sub) := by
      rw [isBinary]
      simpa [visitedOperands] using isOperand
    exact (mem_taintFunction_taints run).mpr (.inl ⟨env, e, inside, sub', own,
      (Visited.operand member visited').trans visited, isOwn, inOwn⟩)
  exact ⟨operand e1 t1 (.inl rfl) run1, operand e2 t2 (.inr rfl) run2⟩

/-! ## The table of functions -/

/-- The taints of a declared function, none where the analysis fails. -/
def taintsOf (sigm : Sigma) (f : Sym) : List Taint :=
  if f ∈ functionNames sigm then
    match taintFunction sigm f with
    | .ok t => t.taints
    | .error _ => []
  else []

theorem taintsOf_eq {f : Sym} (declared : IsFunction sigm f)
    (run : taintFunction sigm f = .ok t) : taintsOf sigm f = t.taints := by
  rw [taintsOf, if_pos (mem_functionNames.mpr declared), run]

/-- The table of the functions declared in a list, and their recorded pairs. -/
structure TableOf (sigm : Sigma) (decls : List (Sym × Decl)) (table : TaintTable)
    (races : List (List Taint × List Taint)) : Prop where
  runs : ∀ f ret params, (f, Decl.function ret params) ∈ decls →
    ∃ t, taintFunction sigm f = .ok t
  entries : ∀ f pts, (f, pts) ∈ table ↔ ∃ ret params t,
    (f, Decl.function ret params) ∈ decls ∧ taintFunction sigm f = .ok t ∧ pts = t.taints
  races : ∀ race, race ∈ races ↔
      ∃ f ret params t, (f, Decl.function ret params) ∈ decls ∧
    taintFunction sigm f = .ok t ∧ race ∈ t.races

theorem taintsOfFunctions_table {decls : List (Sym × Decl)} {table : TaintTable}
    {races : List (List Taint × List Taint)}
    (run : taintsOfFunctions sigm decls = .ok (table, races)) :
    TableOf sigm decls table races := by
  induction decls generalizing table races with
  | nil =>
      cases run
      exact ⟨by simp, by simp, by simp⟩
  | cons decl decls inductionHypothesis =>
      obtain ⟨f, decl⟩ := decl
      cases decl with
      | object ty =>
          obtain ⟨runs, entries, recorded⟩ := inductionHypothesis run
          exact ⟨by simpa using runs, by simpa using entries, by simpa using recorded⟩
      | function ret params =>
          simp only [taintsOfFunctions, bind_eq_ok] at run
          obtain ⟨t, first, ⟨table', races'⟩, rest, result⟩ := run
          cases result
          obtain ⟨runs, entries, recorded⟩ := inductionHypothesis rest
          refine ⟨?_, ?_, ?_⟩
          · intro g ret' params' member
            rcases List.mem_cons.mp member with here | later
            · cases here
              exact ⟨t, first⟩
            · exact runs g ret' params' later
          · intro g pts
            rw [List.mem_append, entries g pts, List.mem_singleton]
            constructor
            · rintro (⟨ret', params', t', later, found, same⟩ | here)
              · exact ⟨ret', params', t', List.mem_cons_of_mem _ later, found, same⟩
              · cases here
                exact ⟨ret, params, t, List.mem_cons_self, first, rfl⟩
            · rintro ⟨ret', params', t', member, found, same⟩
              rcases List.mem_cons.mp member with here | later
              · cases here
                cases first.symm.trans found
                exact .inr (by rw [same])
              · exact .inl ⟨ret', params', t', later, found, same⟩
          · intro race
            rw [List.mem_append, recorded race]
            constructor
            · rintro (here | ⟨g, ret', params', t', later, found, member⟩)
              · exact ⟨f, ret, params, t, List.mem_cons_self, first, here⟩
              · exact ⟨g, ret', params', t', List.mem_cons_of_mem _ later, found, member⟩
            · rintro ⟨g, ret', params', t', member, found, inside⟩
              rcases List.mem_cons.mp member with here | later
              · cases here
                cases first.symm.trans found
                exact .inl inside
              · exact .inr ⟨g, ret', params', t', later, found, inside⟩

section

variable {table : TaintTable} {races : List (List Taint × List Taint)} {f : Sym}
  {race : List Taint × List Taint}

theorem TableOf.exists_run (tableOf : TableOf sigm sigm.declarations table races)
    (declared : IsFunction sigm f) : ∃ t, taintFunction sigm f = .ok t := by
  obtain ⟨ret, params, member⟩ := declared
  exact tableOf.runs f ret params member

/-- The entry of a declared function are its taints. -/
theorem TableOf.lookup_eq_some (tableOf : TableOf sigm sigm.declarations table races)
    (declared : IsFunction sigm f) : table.lookup f = some (taintsOf sigm f) := by
  obtain ⟨ret, params, member⟩ := id declared
  obtain ⟨t, run⟩ := tableOf.exists_run declared
  have inTable : (f, t.taints) ∈ table :=
    (tableOf.entries f t.taints).mpr ⟨ret, params, t, member, run, rfl⟩
  obtain ⟨pts, found⟩ := exists_lookup_of_mem (List.mem_map_of_mem (f := Prod.fst) inTable)
  obtain ⟨_, _, t', -, run', rfl⟩ := (tableOf.entries f pts).mp (mem_of_lookup found)
  cases run.symm.trans run'
  rw [found, taintsOf_eq declared run]

theorem TableOf.isFunction (tableOf : TableOf sigm sigm.declarations table races)
    (isSome : (table.lookup f).isSome) : IsFunction sigm f := by
  obtain ⟨pts, found⟩ := Option.isSome_iff_exists.mp isSome
  obtain ⟨ret, params, -, member, -⟩ := (tableOf.entries f pts).mp (mem_of_lookup found)
  exact ⟨ret, params, member⟩

theorem TableOf.isSome_lookup_iff (tableOf : TableOf sigm sigm.declarations table races) :
    (table.lookup f).isSome ↔ IsFunction sigm f := by
  constructor
  · exact tableOf.isFunction
  · intro declared
    rw [tableOf.lookup_eq_some declared]
    rfl

/-- Both lists of a recorded pair are part of the taints of the function that it stands in. -/
theorem TableOf.race_subset (tableOf : TableOf sigm sigm.declarations table races)
    (recorded : race ∈ races) :
    ∃ f, IsFunction sigm f ∧ race.1 ⊆ taintsOf sigm f ∧ race.2 ⊆ taintsOf sigm f := by
  obtain ⟨f, ret, params, t, member, run, inside⟩ := (tableOf.races race).mp recorded
  refine ⟨f, ⟨ret, params, member⟩, ?_⟩
  rw [taintsOf_eq ⟨ret, params, member⟩ run]
  exact taintFunction_race_subset run inside

end

end

end RefinedC.Frontend
