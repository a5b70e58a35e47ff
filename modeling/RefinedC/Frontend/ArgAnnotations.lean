import RefinedC.Frontend.Lp64
import RefinedC.Frontend.RcAnnot

/-!
Annotations on the arguments of calls.

Source: `function_annot_args` of `frontend/rc_annot.ml`, and `annotate` in
`translate_call` of `frontend/ail_to_coq.ml`.

Owns: which annotations the attributes of a function ask for, and the calls whose
arguments carry all of them.

An argument is wrapped in its first annotation only. Warnings about unused annotations
are left out.
-/

namespace RefinedC.Frontend

open Library

/-! ## Annotations that are asked for -/

def handleAnnotArgs (e : Earley) (acc : List AnnotArg) (attr : RcAttr) :
    AnnotM (List AnnotArg) :=
  if attr.id = "annot_args" then do
    match ← parseAttr e attr with
    | .annotArgs l => .ok (acc ++ l)
    | _ => .error .assertFailure
  else .ok acc

def functionAnnotArgs (e : Earley) (attrs : List RcAttr) : AnnotM (List AnnotArg) :=
  attrs.foldlM (handleAnnotArgs e) []

private theorem parseAttr_annotArgs {e : Earley} {attr : RcAttr}
    (isAnnotArgs : attr.id = "annot_args") :
    parseAttr e attr = manyArgs e attr e.grammars.annotArgs .annotArgs := by
  rw [parseAttr, isAnnotArgs]
  rfl

/-- Arguments of an attribute with what the grammar makes of them. -/
def EntriesOf (e : Earley) (attr : RcAttr) (entries : List AnnotArg) : Prop :=
  attr.args ≠ [] ∧ attr.args.mapM (parseArg e attr e.grammars.annotArgs) = .ok entries

private theorem handleAnnotArgs_eq_ok_iff {e : Earley} {attr : RcAttr} {acc l : List AnnotArg}
    (isAnnotArgs : attr.id = "annot_args") :
    handleAnnotArgs e acc attr = .ok l ↔
      ∃ entries, EntriesOf e attr entries ∧ l = acc ++ entries := by
  rw [handleAnnotArgs, if_pos isAnnotArgs, parseAttr_annotArgs isAnnotArgs, manyArgs]
  cases args : attr.args with
  | nil =>
      refine iff_of_false (fun isOk => nomatch isOk) ?_
      rintro ⟨entries, ⟨nonempty, -⟩, -⟩
      exact nonempty args
  | cons s ss =>
      rw [bind_eq_ok]
      constructor
      · rintro ⟨annot, parsed, isOk⟩
        cases read : (s :: ss).mapM (parseArg e attr e.grammars.annotArgs) with
        | error msg =>
            simp only [read] at parsed
            cases parsed
        | ok entries =>
            simp only [read] at parsed
            cases parsed
            cases isOk
            exact ⟨entries, ⟨by simp [args], args ▸ read⟩, rfl⟩
      · rintro ⟨entries, ⟨-, read⟩, rfl⟩
        rw [args] at read
        simp only [read]
        exact ⟨_, rfl, rfl⟩

/-- The entries of all attributes are kept, in the order of the attributes. -/
theorem functionAnnotArgs_eq_ok_iff {e : Earley} {attrs : List RcAttr} {l : List AnnotArg} :
    functionAnnotArgs e attrs = .ok l ↔
      ∃ entries, List.Forall₂ (EntriesOf e)
        (attrs.filter fun attr => attr.id = "annot_args") entries ∧
        l = entries.flatten := by
  have general : ∀ acc, attrs.foldlM (handleAnnotArgs e) acc = .ok l ↔
      ∃ entries, List.Forall₂ (EntriesOf e)
        (attrs.filter fun attr => attr.id = "annot_args") entries ∧
          l = acc ++ entries.flatten := by
    induction attrs with
    | nil =>
        intro acc
        simp [List.foldlM_nil, pure, Except.pure, eq_comm]
    | cons attr attrs inductionHypothesis =>
        intro acc
        rw [List.foldlM_cons, bind_eq_ok]
        by_cases isAnnotArgs : attr.id = "annot_args"
        · simp only [handleAnnotArgs_eq_ok_iff isAnnotArgs, inductionHypothesis]
          rw [List.filter_cons_of_pos (by simpa using isAnnotArgs)]
          constructor
          · rintro ⟨_, ⟨first, isFirst, rfl⟩, rest, areRest, rfl⟩
            exact ⟨first :: rest, .cons isFirst areRest, by simp⟩
          · rintro ⟨_, entriesOf, rfl⟩
            cases entriesOf with
            | cons isFirst areRest => exact ⟨_, ⟨_, isFirst, rfl⟩, _, areRest, by simp⟩
        · simp only [handleAnnotArgs, if_neg isAnnotArgs, Except.ok.injEq, exists_eq_left',
            inductionHypothesis]
          rw [List.filter_cons_of_neg (by simpa using isAnnotArgs)]
  simpa [functionAnnotArgs] using general []

/-- Annotations of a function, for the translation of calls. Where one is reported as invalid,
all of them are ignored. -/
def declaredAnnotArgs (e : Earley) (print : CoqExpr → String) (attrs : List RcAttr) :
    AnnotM (List (Nat × Nat × String)) :=
  match functionAnnotArgs e attrs with
  | .ok l => .ok (l.map fun a => (a.1, a.2.1, print a.2.2))
  | .error (.invalidAnnot _) => .ok []
  | .error .assertFailure => .error .assertFailure

/-! ## Annotations of an argument -/

/-- The entries of index `i`. -/
def entriesAt (annotArgs : List (Nat × Nat × String)) (i : Nat) : List (Nat × Nat × String) :=
  annotArgs.filter fun a => a.1 == i

def wrap (a : Nat × Nat × String) (e : Coq.Expr) : Coq.Expr := .annotExpr a.2.1 a.2.2 e

/-- The expression in all its annotations, the first one outermost. -/
def attachAll (annotArgs : List (Nat × Nat × String)) (i : Nat) (e : Coq.Expr) : Coq.Expr :=
  (entriesAt annotArgs i).foldr wrap e

private theorem le_sizeOf_foldr_wrap (l : List (Nat × Nat × String)) (e : Coq.Expr) :
    SizeOf.sizeOf e + l.length ≤ SizeOf.sizeOf (l.foldr wrap e) := by
  induction l with
  | nil => exact Nat.le_refl _
  | cons a l inductionHypothesis =>
      simp only [List.foldr_cons, wrap, Coq.Expr.annotExpr.sizeOf_spec, List.length_cons]
      omega

private theorem annotate_eq_attachAll_iff (annotArgs : List (Nat × Nat × String)) (i : Nat)
    (e : Coq.Expr) :
    annotate annotArgs i e = attachAll annotArgs i e ↔ (entriesAt annotArgs i).length ≤ 1 := by
  rw [annotate, attachAll, entriesAt]
  cases annotArgs.filter fun a => a.1 == i with
  | nil => simp
  | cons a rest =>
      cases rest with
      | nil => simp [wrap]
      | cons b rest =>
          refine iff_of_false (fun same => ?_) (by simp)
          simp only [List.foldr_cons, wrap, Coq.Expr.annotExpr.injEq, true_and] at same
          have larger := le_sizeOf_foldr_wrap rest e
          have sizes := congrArg SizeOf.sizeOf same
          simp only [Coq.Expr.annotExpr.sizeOf_spec] at sizes
          omega

private theorem mapIdx_annotate_eq_iff (annotArgs : List (Nat × Nat × String))
    (es : List Coq.Expr) :
    es.mapIdx (annotate annotArgs) = es.mapIdx (attachAll annotArgs) ↔
      ∀ i < es.length, (entriesAt annotArgs i).length ≤ 1 := by
  constructor
  · intro same i inRange
    have at_i := congrArg (fun l => l[i]?) same
    simp only [List.getElem?_mapIdx, List.getElem?_eq_getElem inRange, Option.map_some,
      Option.some.injEq] at at_i
    exact (annotate_eq_attachAll_iff annotArgs i es[i]).mp at_i
  · intro single
    refine List.ext_getElem (by simp) fun i inRange _ => ?_
    rw [List.length_mapIdx] at inRange
    rw [List.getElem_mapIdx, List.getElem_mapIdx]
    exact (annotate_eq_attachAll_iff annotArgs i es[i]).mpr (single i inRange)

/-! ## Annotations of a call -/

/-- The function that an expression names. -/
def calleeName : Expr → Option Sym
  | .annotated _ (.functionDecay e) => calleeName e
  | .annotated _ (.ident f) => some f
  | _ => none

private theorem translateCall_of_calleeName {ctx : Ctx} {place : CallPlace}
    {lval : Bool} {args : List Arg} {f : Sym} : ∀ e, calleeName e = some f →
      translateCall ctx place lval args e = translateDirectCall ctx f args
  | .annotated tc (.functionDecay e), named => by
      rw [translateCall]
      exact translateCall_of_calleeName e named
  | .annotated tc (.ident f'), named => by
      rw [calleeName, Option.some.injEq] at named
      rw [translateCall, named]
  | .annotated tc node, named => by
      cases node with
      | functionDecay e =>
          rw [translateCall]
          exact translateCall_of_calleeName e named
      | ident f' =>
          rw [calleeName, Option.some.injEq] at named
          rw [translateCall, named]
      | _ => cases named

private theorem translateArgs_length {ctx : Ctx} {params : List CType} {args : List Arg} :
    ∀ {i : Nat} {es : List Coq.Expr} {used used' : Used},
      translateArgs ctx params i args used = .ok (es, used') → es.length = args.length := by
  induction args with
  | nil =>
      intro i es used used' run
      obtain ⟨rfl, -⟩ := run_pure_eq_ok.mp run
      rfl
  | cons arg args inductionHypothesis =>
      intro i es used used' run
      simp only [translateArgs, run_bind_eq_ok, run_pure_eq_ok] at run
      obtain ⟨_, _, -, _, _, -, _, _, -, rest, _, isRest, rfl, -⟩ := run
      rw [List.length_cons, List.length_cons, inductionHypothesis isRest]

private theorem delayedArgs_length (ctx : Ctx) (es : List Expr) :
    (delayedArgs ctx es).length = es.length := by
  induction es with
  | nil => rfl
  | cons e es inductionHypothesis =>
      rw [delayedArgs, List.length_cons, List.length_cons, inductionHypothesis]

/-- The arguments of a call of a declared function, without annotations. -/
def plainArgs (ctx : Ctx) (f : Sym) (decl : FunDecl) (args : List Expr) :
    ExprM (List Coq.Expr) := do
  useFunction (symToStr f)
  translateArgs ctx decl.params 0 (delayedArgs ctx args)

/-- The arguments of a call carry all their annotations exactly when none has two. -/
theorem translateCall_attached_iff {ctx : Ctx} {place : CallPlace} {lval : Bool} {e : Expr}
    {args : List Expr} {f : Sym} {decl : FunDecl} {r : CallRes} {used used' : Used}
    (named : calleeName e = some f) (declared : ctx.funDecls.lookup (symToStr f) = some decl)
    (run : translateCall ctx place lval (delayedArgs ctx args) e used = .ok (r, used')) :
    ∃ es, plainArgs ctx f decl args used = .ok (es, used') ∧
      (r = .simple decl.ret (.var (some (symToStr f)) true)
          (es.mapIdx (attachAll decl.annotArgs)) ↔
        ∀ i < args.length, (entriesAt decl.annotArgs i).length ≤ 1) := by
  rw [translateCall_of_calleeName e named] at run
  simp only [translateDirectCall, declared, run_bind_eq_ok, run_pure_eq_ok] at run
  obtain ⟨_, _, isUsed, es, _, isArgs, rfl, rfl⟩ := run
  refine ⟨es, run_bind_eq_ok.mpr ⟨_, _, isUsed, isArgs⟩, ?_⟩
  rw [CallRes.simple.injEq, eq_self, eq_self, true_and, true_and, mapIdx_annotate_eq_iff,
    translateArgs_length isArgs, delayedArgs_length]

/-! ## Calls of a function with annotations -/

/-- `int f(int, int)` with the given annotations. -/
def declOfAnnots (annotArgs : List (Nat × Nat × String)) : FunDecl :=
  ⟨.integer (.signed .int), [.integer (.signed .int), .integer (.signed .int)], annotArgs⟩

def annotCtx (annotArgs : List (Nat × Nat × String)) : Ctx :=
  lp64Ctx [] [("f", declOfAnnots annotArgs)]

def calleeF : Expr := .annotated (.lvalue (.function .void [])) (.ident ⟨0, "f"⟩)

def constArgs : List Expr :=
  [.annotated (.rvalue (.integer (.signed .int))) (.const (.integer (.iConstant 1))),
    .annotated (.rvalue (.integer (.signed .int))) (.const (.integer (.iConstant 2)))]

def constInt (text : String) : Coq.Expr := .val (.int text (.i32 true))

/-- One annotation for each of the two arguments. -/
theorem translateCall_attached_single :
    ∃ r used', translateCall (annotCtx [(1, 7, "a"), (0, 8, "b")]) .inExpr false
        (delayedArgs (annotCtx [(1, 7, "a"), (0, 8, "b")]) constArgs) calleeF ⟨[], []⟩ =
          .ok (r, used') ∧
      r = .simple (.integer (.signed .int)) (.var (some "f") true)
        [.annotExpr 8 "b" (constInt "1"), .annotExpr 7 "a" (constInt "2")] := by
  have run : translateCall (annotCtx [(1, 7, "a"), (0, 8, "b")]) .inExpr false
      (delayedArgs (annotCtx [(1, 7, "a"), (0, 8, "b")]) constArgs) calleeF ⟨[], []⟩ =
        .ok (_, ⟨[], ["f"]⟩) := rfl
  obtain ⟨es, plain, attached⟩ := translateCall_attached_iff rfl rfl run
  have isPlain : plainArgs (annotCtx [(1, 7, "a"), (0, 8, "b")]) ⟨0, "f"⟩
      (declOfAnnots [(1, 7, "a"), (0, 8, "b")]) constArgs ⟨[], []⟩ =
        .ok ([constInt "1", constInt "2"], ⟨[], ["f"]⟩) := rfl
  rw [isPlain] at plain
  cases plain
  refine ⟨_, _, run, attached.mpr ?_⟩
  decide

/-- Of two annotations of the first argument, the second one is lost. -/
theorem translateCall_lost_annotation :
    ∃ r used', translateCall (annotCtx [(0, 7, "a"), (0, 8, "b")]) .inExpr false
        (delayedArgs (annotCtx [(0, 7, "a"), (0, 8, "b")]) constArgs) calleeF ⟨[], []⟩ =
          .ok (r, used') ∧
      r = .simple (.integer (.signed .int)) (.var (some "f") true)
        [.annotExpr 7 "a" (constInt "1"), constInt "2"] ∧
      r ≠ .simple (.integer (.signed .int)) (.var (some "f") true)
        ([constInt "1", constInt "2"].mapIdx (attachAll [(0, 7, "a"), (0, 8, "b")])) := by
  refine ⟨_, _, rfl, rfl, fun same => ?_⟩
  have lists := (CallRes.simple.inj same).2.2
  cases (List.cons.inj lists).1

end RefinedC.Frontend
