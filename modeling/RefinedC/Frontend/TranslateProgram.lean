import RefinedC.Frontend.TranslateBlock

/-!
Translation of the functions of a program.

Source: `translate` of `frontend/ail_to_coq.ml`.

Owns: the functions of a program, each declared one with its definition if it has one.

Annotations of functions and globals are left out, as are the initial values of
globals and static assertions, which the source does not look at.
-/

namespace RefinedC.Frontend

open Library

/-- Definitions of declared functions. -/
structure FunctionDefs (ctx : Ctx) where
  defs : List (Sym × FunctionDefinition)
  distinct : (defs.map fun d => symToStr d.1).Nodup
  declared : ∀ d ∈ defs, symToStr d.1 ∈ ctx.funDecls.map Prod.fst

def translateDeclared (ctx : Ctx) (defs : List (Sym × FunctionDefinition))
    (decl : String × FunDecl) : Result (String × Option Coq.FuncDef) :=
  match defs.find? fun d => symToStr d.1 = decl.1 with
  | none => .ok (decl.1, none)
  | some d => do
      let fn ← translateFunction ctx decl.1 decl.2 d.2
      .ok (decl.1, some fn)

def translateFunctions (ctx : Ctx) (defs : List (Sym × FunctionDefinition)) :
    Result (List (String × Option Coq.FuncDef)) :=
  ctx.funDecls.mapM (translateDeclared ctx defs)

section

variable {ctx : Ctx}

private theorem find?_of_distinct {defs : List (Sym × FunctionDefinition)}
    (distinct : (defs.map fun d => symToStr d.1).Nodup) {d : Sym × FunctionDefinition}
    (member : d ∈ defs) : defs.find? (fun d' => symToStr d'.1 = symToStr d.1) = some d := by
  induction defs with
  | nil => cases member
  | cons d' defs inductionHypothesis =>
      rw [List.map_cons, List.nodup_cons] at distinct
      rcases List.mem_cons.mp member with rfl | later
      · simp
      · have other : symToStr d'.1 ≠ symToStr d.1 :=
          fun same => distinct.1 (same ▸ List.mem_map_of_mem later)
        rw [List.find?_cons_of_neg (by simpa using other)]
        exact inductionHypothesis distinct.2 later

/-- Every definition has been translated. -/
theorem FunctionDefs.translated (program : FunctionDefs ctx)
    {fns : List (String × Option Coq.FuncDef)}
    (run : translateFunctions ctx program.defs = .ok fns)
    {d : Sym × FunctionDefinition} (member : d ∈ program.defs) :
    ∃ decl fn, translateFunction ctx (symToStr d.1) decl d.2 = .ok fn := by
  obtain ⟨⟨name, decl⟩, isDecl, sameName⟩ := List.mem_map.mp (program.declared d member)
  simp only at sameName
  subst sameName
  obtain ⟨result, -, isResult⟩ := exists_of_mem_right (mapM_eq_ok.mp run).flip isDecl
  rw [translateDeclared, find?_of_distinct program.distinct member] at isResult
  obtain ⟨fn, isFn, -⟩ := bind_eq_ok.mp isResult
  exact ⟨decl, fn, isFn⟩

end

end RefinedC.Frontend
