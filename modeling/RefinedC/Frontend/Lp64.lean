import RefinedC.Frontend.StructAgreement
import RefinedC.Frontend.TranslateExpr

/-!
An LP64 platform.

Owns: C's integer promotions and usual arithmetic conversions for the sizes of
LP64, the context of a translation for it, and constants of its types.
-/

namespace RefinedC.Frontend

/-- Conversion rank of the integer types that are not promoted. -/
def lp64Rank : IntegerType → Nat
  | .signed .long | .unsigned .long | .size | .ptrdiff | .ptraddr => 2
  | .signed .longLong | .unsigned .longLong => 3
  | .signed i | .unsigned i => if 4 < lp64Size i then 2 else 1
  | _ => 1

def lp64Unsigned : IntegerType → Bool
  | .unsigned _ | .size | .ptraddr => true
  | _ => false

/-- Small types become `int`, which has all their values. -/
def lp64PromoteInteger : IntegerType → IntegerType
  | .char | .bool | .enum _ | .wchar => .signed .int
  | .wint => .unsigned .int
  | .signed i => if lp64Size i < 4 then .signed .int else .signed i
  | .unsigned i => if lp64Size i < 4 then .signed .int else .unsigned i
  | i => i

def lp64Promote : CType → CType
  | .integer i => .integer (lp64PromoteInteger i)
  | ty => ty

/-- The type of the higher rank, and the unsigned one when the ranks are equal or
the other type does not have all its values. -/
def lp64CommonType (i1 i2 : IntegerType) : IntegerType :=
  if i1 = i2 then i1
  else if lp64Unsigned i1 = lp64Unsigned i2 then if lp64Rank i1 < lp64Rank i2 then i2 else i1
  else
    let (u, s) := if lp64Unsigned i1 then (i1, i2) else (i2, i1)
    if lp64Rank s ≤ lp64Rank u then u
    else if (lp64Integer u).getD 0 < (lp64Integer s).getD 0 then s
    else match s with
      | .signed i => .unsigned i
      | _ => .size

def lp64UsualArithmetic : CType → CType → CType
  | .integer i1, .integer i2 =>
      .integer (lp64CommonType (lp64PromoteInteger i1) (lp64PromoteInteger i2))
  | ty, _ => ty

def lp64Ctx (tags : List (Sym × TagDef)) (funDecls : List (String × FunDecl)) : Ctx where
  impl := lp64
  tags := tags
  funDecls := funDecls
  isLocal _ := false
  usualArithmetic := lp64UsualArithmetic
  integerPromote := lp64Promote
  isAtomic
    | .atomic _ => true
    | _ => false
  decodeMemoryOrder i := if i = 5 then some .seqCst else none

/-- The constant `n` of type `i`. -/
def intConst (i : IntegerType) (n : Int) : Expr :=
  .annotated (.rvalue (.integer i)) (.const (.integer (.iConstant n)))

end RefinedC.Frontend
