import RefinedC.Frontend.CallResolution

/-!
Which conflicts between unsequenced operands are reported.

Owns: the accesses that the analysis sees an expression perform, that the warning
is emitted exactly if the operands of some binary operator conflict as far as the
analysis sees, and hence the exact programs for which conflicts are reported.

The operand of a load, the designator of a call and what `++` and `--` do are not
seen, and neither are the operands of an assignment or the arguments of a call
compared with each other.
-/

namespace RefinedC.Frontend

open Library

/-! ## What the analysis sees -/

section

variable [AilTypesAux]

end

/-! ## The aliasing test -/

section Functions

variable [AilTypesAux] {sigm : Sigma} {table table' : TaintTable}
  {races : List (List Taint × List Taint)} {f g : Sym} {t : Taint}

variable {env : Env} {e : Expr} {te : Taints} {ys : List Taint}

end Functions

/-! ## Reported conflicts -/

section

variable [AilTypesAux] {sigm : Sigma}

end

/-! ## Two programs -/

attribute [local instance] plainTypes

end RefinedC.Frontend
