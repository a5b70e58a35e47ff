/-!
Attributes and annotations.

Source: `frontend/rc_annot.ml`.

Owns: the annotation syntax trees, the parsing of an attribute, and the annotations
of functions, members, structs, loops and globals.

Does not own: the grammars of the arguments and the parser. What a grammar makes of the
text of an argument, and at which position the parser gives up on a text, are parameters.
Locations are left out. A character stands for a byte.
-/

namespace RefinedC.Frontend

/-! ## Annotation syntax -/

inductive QuotElt (α : Type) where
  | plain (s : String)
  | anti (e : α)

mutual

inductive CoqExpr where
  | ident (s : String)
  | all (t : List (QuotElt TypeExpr))

inductive Constr where
  | iris (t : List (QuotElt TypeExpr))
  | exist (x : String) (ty : Option CoqExpr) (c : Constr)
  | own (x : String) (k : PtrKind) (ty : TypeExpr)
  | val (x : String) (ty : TypeExpr)
  | coq (e : CoqExpr)
  | glob (x : String) (ty : TypeExpr)

inductive PtrKind where
  | own
  | shr
  | frac (e : CoqExpr)

inductive TypeExpr where
  | refine (e : CoqExpr) (ty : TypeExpr)
  | dots
  | exist (pattern : List String) (sort : Option CoqExpr) (ty : TypeExpr)
  | constr (ty : TypeExpr) (c : Constr)
  | params (id : String) (args : List TypeExprArg)
  | list (tys : List TypeExpr)
  | coq (e : CoqExpr)

inductive TypeExprArg where
  | expr (ty : TypeExpr)
  | lambda (pattern : List String) (sort : Option CoqExpr) (arg : TypeExprArg)

end

abbrev Binder := String × CoqExpr

abbrev TagSpec := String × List Binder

/-- Load path, module and lemma. -/
abbrev ManualProof := String × String × String

abbrev AnnotArg := Nat × Nat × CoqExpr

def defaultUnfoldOrder : Nat := 100

/-! ## Parsing of attributes -/

inductive Annot where
  | context (l : List Binder)
  | instantiate (l : List Binder)
  | parameters (l : List Binder)
  | refinedBy (l : List Binder)
  | typedef (e : String × TypeExpr)
  | size (e : CoqExpr)
  | exist (l : List Binder)
  | lets (l : List (String × Option CoqExpr × CoqExpr))
  | constraint (l : List Constr)
  | immovable
  | taggedUnion (e : CoqExpr)
  | unionTag (t : TagSpec)
  | field (ty : TypeExpr)
  | global (ty : TypeExpr)
  | args (l : List TypeExpr)
  | requires (l : List Constr)
  | returns (ty : TypeExpr)
  | ensures (l : List Constr)
  | annot (s : String)
  | assert
  | invVars (l : List (String × TypeExpr))
  | annotArgs (l : List AnnotArg)
  | tactics (l : List String)
  | trustMe
  | skip
  | manual (cfg : ManualProof)
  | block
  | fullBlock
  | inlined
  | unfoldOrder (i : Nat)

def annotLemmas (l : List String) : List String :=
  l.map fun s => "all: try by apply: " ++ s ++ "; solve_goal."

structure RcAttr where
  id : String
  args : List String
deriving DecidableEq

/-- What the grammars make of the text of an argument. -/
structure Grammars where
  annotContext : String → Option Binder
  annotInstantiate : String → Option Binder
  annotParameter : String → Option Binder
  annotRefine : String → Option Binder
  annotTypedef : String → Option (String × TypeExpr)
  annotSize : String → Option CoqExpr
  annotExist : String → Option Binder
  annotLet : String → Option (String × Option CoqExpr × CoqExpr)
  annotConstr : String → Option Constr
  taggedUnion : String → Option CoqExpr
  unionTag : String → Option TagSpec
  annotField : String → Option TypeExpr
  annotGlobal : String → Option TypeExpr
  annotArg : String → Option TypeExpr
  annotRequires : String → Option Constr
  annotReturns : String → Option TypeExpr
  annotEnsures : String → Option Constr
  annotInvVar : String → Option (String × TypeExpr)
  annotArgs : String → Option AnnotArg
  annotManual : String → Option ManualProof
  annotUnfoldOrder : String → Option Nat

/-- How the parser fails on a text. An antiquotation inside of the text that does not parse
fails an assertion. -/
inductive ParseFailure where
  | parseError (pos : Nat)
  | assertFailure

/-- The parser: what the grammars accept, and how they fail on the other texts. The grammar of
an argument is determined by the name of the attribute. -/
structure Earley where
  grammars : Grammars
  failure : String → String → ParseFailure

/-- The exceptions: `Invalid_annot` with its message, and a failed assertion. -/
inductive AnnotExn where
  | invalidAnnot (msg : String)
  | assertFailure

/-- A computation that may raise an exception. -/
abbrev AnnotM := Except AnnotExn

def invalidAnnot {α : Type} (attr : RcAttr) (msg : String) : AnnotM α :=
  .error (.invalidAnnot ("Annotation [" ++ attr.id ++ "] " ++ msg ++ "."))

/-- What is raised when an argument does not parse. No piece of the argument holds a position
at its end, so that `loc_of_pos` fails its assertion there. -/
def ParseFailure.exn (arg : String) : ParseFailure → AnnotExn
  | .parseError pos =>
      if pos < arg.length then .invalidAnnot "No parse in annotation." else .assertFailure
  | .assertFailure => .assertFailure

section

variable {α : Type} (e : Earley) (attr : RcAttr)

def parseArg (grammar : String → Option α) (arg : String) : AnnotM α :=
  match grammar arg with
  | some a => .ok a
  | none => .error ((e.failure attr.id arg).exn arg)

def singleArg (grammar : String → Option α) (c : α → Annot) : AnnotM Annot :=
  match attr.args with
  | [s] => c <$> parseArg e attr grammar s
  | _ => invalidAnnot attr "should have exactly one argument"

def manyArgs (grammar : String → Option α) (c : List α → Annot) : AnnotM Annot :=
  match attr.args with
  | [] => invalidAnnot attr "should have at least one argument"
  | args => c <$> args.mapM (parseArg e attr grammar)

def rawSingleArg (c : String → Annot) : AnnotM Annot :=
  match attr.args with
  | [a] => .ok (c a)
  | _ => invalidAnnot attr "should have exactly one argument"

def rawManyArgs (c : List String → Annot) : AnnotM Annot :=
  match attr.args with
  | [] => invalidAnnot attr "should have at least one argument"
  | args => .ok (c args)

def noArgs (c : Annot) : AnnotM Annot :=
  match attr.args with
  | [] => .ok c
  | _ => invalidAnnot attr "should not have arguments"

end

def parseAttr (e : Earley) (attr : RcAttr) : AnnotM Annot :=
  match attr.id with
  | "context" => manyArgs e attr e.grammars.annotContext .context
  | "instantiate" => manyArgs e attr e.grammars.annotInstantiate .instantiate
  | "parameters" => manyArgs e attr e.grammars.annotParameter .parameters
  | "refined_by" => manyArgs e attr e.grammars.annotRefine .refinedBy
  | "typedef" => singleArg e attr e.grammars.annotTypedef .typedef
  | "size" => singleArg e attr e.grammars.annotSize .size
  | "exists" => manyArgs e attr e.grammars.annotExist .exist
  | "let" => manyArgs e attr e.grammars.annotLet .lets
  | "constraints" => manyArgs e attr e.grammars.annotConstr .constraint
  | "immovable" => noArgs attr .immovable
  | "tagged_union" => singleArg e attr e.grammars.taggedUnion .taggedUnion
  | "union_tag" => singleArg e attr e.grammars.unionTag .unionTag
  | "field" => singleArg e attr e.grammars.annotField .field
  | "global" => singleArg e attr e.grammars.annotGlobal .global
  | "args" => manyArgs e attr e.grammars.annotArg .args
  | "requires" => manyArgs e attr e.grammars.annotRequires .requires
  | "returns" => singleArg e attr e.grammars.annotReturns .returns
  | "ensures" => manyArgs e attr e.grammars.annotEnsures .ensures
  | "annot" => rawSingleArg attr .annot
  | "asrt" => noArgs attr .assert
  | "inv_vars" => manyArgs e attr e.grammars.annotInvVar .invVars
  | "annot_args" => manyArgs e attr e.grammars.annotArgs .annotArgs
  | "tactics" => rawManyArgs attr .tactics
  | "lemmas" => rawManyArgs attr fun l => .tactics (annotLemmas l)
  | "trust_me" => noArgs attr .trustMe
  | "skip" => noArgs attr .skip
  | "manual_proof" => singleArg e attr e.grammars.annotManual .manual
  | "block" => noArgs attr .block
  | "full_block" => noArgs attr .fullBlock
  | "inlined" => noArgs attr .inlined
  | "unfold_order" => singleArg e attr e.grammars.annotUnfoldOrder .unfoldOrder
  | _ => invalidAnnot attr "undefined"

/-! ## Kinds of arguments -/

/-- What the arguments of an attribute have to be. -/
inductive ArgShape where
  | single {α : Type} (grammar : String → Option α) (c : α → Annot)
  | many {α : Type} (grammar : String → Option α) (c : List α → Annot)
  | rawSingle (c : String → Annot)
  | rawMany (c : List String → Annot)
  | noArgs (c : Annot)
  | undefined

def argShape (g : Grammars) : String → ArgShape
  | "context" => .many g.annotContext .context
  | "instantiate" => .many g.annotInstantiate .instantiate
  | "parameters" => .many g.annotParameter .parameters
  | "refined_by" => .many g.annotRefine .refinedBy
  | "typedef" => .single g.annotTypedef .typedef
  | "size" => .single g.annotSize .size
  | "exists" => .many g.annotExist .exist
  | "let" => .many g.annotLet .lets
  | "constraints" => .many g.annotConstr .constraint
  | "immovable" => .noArgs .immovable
  | "tagged_union" => .single g.taggedUnion .taggedUnion
  | "union_tag" => .single g.unionTag .unionTag
  | "field" => .single g.annotField .field
  | "global" => .single g.annotGlobal .global
  | "args" => .many g.annotArg .args
  | "requires" => .many g.annotRequires .requires
  | "returns" => .single g.annotReturns .returns
  | "ensures" => .many g.annotEnsures .ensures
  | "annot" => .rawSingle .annot
  | "asrt" => .noArgs .assert
  | "inv_vars" => .many g.annotInvVar .invVars
  | "annot_args" => .many g.annotArgs .annotArgs
  | "tactics" => .rawMany .tactics
  | "lemmas" => .rawMany fun l => .tactics (annotLemmas l)
  | "trust_me" => .noArgs .trustMe
  | "skip" => .noArgs .skip
  | "manual_proof" => .single g.annotManual .manual
  | "block" => .noArgs .block
  | "full_block" => .noArgs .fullBlock
  | "inlined" => .noArgs .inlined
  | "unfold_order" => .single g.annotUnfoldOrder .unfoldOrder
  | _ => .undefined

def ArgShape.parse (e : Earley) (attr : RcAttr) : ArgShape → AnnotM Annot
  | .single grammar c => singleArg e attr grammar c
  | .many grammar c => manyArgs e attr grammar c
  | .rawSingle c => rawSingleArg attr c
  | .rawMany c => rawManyArgs attr c
  | .noArgs c => Frontend.noArgs attr c
  | .undefined => invalidAnnot attr "undefined"

theorem parse_argShape (e : Earley) (attr : RcAttr) :
    parseAttr e attr = (argShape e.grammars attr.id).parse e attr := by
  unfold parseAttr argShape
  split
  all_goals simp [*, ArgShape.parse]

/-! ## Functions -/

inductive ProofKind where
  | normal
  | skipped
  | trusted
  | manual (cfg : ManualProof)
  | inlined
deriving DecidableEq

structure FunctionAnnot where
  parameters : List Binder
  context : List Binder
  instantiations : List Binder
  args : List TypeExpr
  returns : TypeExpr
  exist : List Binder
  requires : List Constr
  ensures : List Constr
  tactics : List String
  proofKind : ProofKind

structure FunctionState where
  context : List Binder
  instantiate : List Binder
  parameters : List Binder
  args : List TypeExpr
  exist : List Binder
  returns : Option TypeExpr
  requires : List Constr
  ensures : List Constr
  tactics : List String
  proof : ProofKind
  inlined : Bool
  nbAttrs : Nat

def handleFunctionAttr (e : Earley) (s : FunctionState) (attr : RcAttr) :
    AnnotM FunctionState := do
  if s.inlined then invalidAnnot attr "should be the only attribute" else
  let s := { s with nbAttrs := s.nbAttrs + 1 }
  let annot ← parseAttr e attr
  if s.proof = .skipped then
    invalidAnnot attr "a skipped function should not have other annotations"
  else
  match annot, s.returns with
  | .skip, _ =>
      if s.proof ≠ .normal then invalidAnnot attr "proof mode already specified"
      else if s.nbAttrs ≠ 1 then invalidAnnot attr "other annotations are given"
      else .ok { s with proof := .skipped }
  | .trustMe, _ =>
      if s.proof ≠ .normal then invalidAnnot attr "proof mode already specified"
      else .ok { s with proof := .trusted }
  | .manual cfg, _ =>
      if s.proof ≠ .normal then invalidAnnot attr "proof mode already specified"
      else .ok { s with proof := .manual cfg }
  | .parameters l, _ => .ok { s with parameters := s.parameters ++ l }
  | .context l, _ => .ok { s with context := s.context ++ l }
  | .instantiate l, _ => .ok { s with instantiate := s.instantiate ++ l }
  | .args l, _ => .ok { s with args := s.args ++ l }
  | .returns ty, none => .ok { s with returns := some ty }
  | .returns _, _ => invalidAnnot attr "already specified"
  | .requires l, _ => .ok { s with requires := s.requires ++ l }
  | .ensures l, _ => .ok { s with ensures := s.ensures ++ l }
  | .exist l, _ => .ok { s with exist := s.exist ++ l }
  | .annotArgs _, _ => .ok s
  | .tactics l, _ => .ok { s with tactics := s.tactics ++ l }
  | .inlined, _ =>
      if s.nbAttrs ≠ 1 then invalidAnnot attr "should be the only attribute"
      else .ok { s with proof := .inlined, inlined := true }
  | _, _ => invalidAnnot attr "is invalid for a function"

def FunctionState.init : FunctionState :=
  ⟨[], [], [], [], [], none, [], [], [], .normal, false, 0⟩

/-- Without annotations, the function is skipped. -/
def FunctionState.annot (s : FunctionState) : FunctionAnnot where
  parameters := s.parameters
  context := s.context
  instantiations := s.instantiate
  args := s.args
  returns := s.returns.getD (.params "void" [])
  exist := s.exist
  requires := s.requires
  ensures := s.ensures
  tactics := s.tactics
  proofKind := if s.nbAttrs = 0 then .skipped else s.proof

def functionAnnot (e : Earley) (attrs : List RcAttr) : AnnotM FunctionAnnot :=
  FunctionState.annot <$> attrs.foldlM (handleFunctionAttr e) .init

/-! ## Members -/

inductive MemberAnnot where
  | none
  | field (ty : TypeExpr)
  | utag (t : TagSpec)

def handleMemberAttr (e : Earley) (s : MemberAnnot) (attr : RcAttr) : AnnotM MemberAnnot := do
  match ← parseAttr e attr, s with
  | .field ty, .none => .ok (.field ty)
  | .field _, _ => invalidAnnot attr "already specified"
  | .unionTag t, .none => .ok (.utag t)
  | .unionTag _, _ => invalidAnnot attr "already specified"
  | _, _ => invalidAnnot attr "is invalid for a field"

def memberAnnot (e : Earley) (attrs : List RcAttr) : AnnotM MemberAnnot :=
  attrs.foldlM (handleMemberAttr e) .none

/-! ## Structs -/

structure BasicStructAnnot where
  parameters : List Binder
  refinedBy : List Binder
  exist : List Binder
  lets : List (String × Option CoqExpr × CoqExpr)
  constrs : List Constr
  size : Option CoqExpr
  typedef : Option (String × TypeExpr)
  immovable : Bool
  unfoldOrder : Nat

inductive StructAnnot where
  | union
  | basic (annot : BasicStructAnnot)
  | taggedU (e : CoqExpr)

structure StructState where
  parameters : List Binder
  refinedBy : List Binder
  exist : List Binder
  lets : List (String × Option CoqExpr × CoqExpr)
  constrs : List Constr
  size : Option CoqExpr
  ptr : Option (String × TypeExpr)
  immovable : Bool
  taggedUnion : Option CoqExpr
  unfoldOrder : Option Nat

def StructState.init : StructState := ⟨[], [], [], [], [], none, none, false, none, none⟩

def handleStructAttr (e : Earley) (s : StructState) (attr : RcAttr) : AnnotM StructState := do
  match ← parseAttr e attr, s.taggedUnion with
  | .taggedUnion e, none => .ok { s with taggedUnion := some e }
  | .taggedUnion _, some _ => invalidAnnot attr "already specified"
  | .parameters l, none => .ok { s with parameters := s.parameters ++ l }
  | .refinedBy l, none => .ok { s with refinedBy := s.refinedBy ++ l }
  | .exist l, none => .ok { s with exist := s.exist ++ l }
  | .lets l, none => .ok { s with lets := s.lets ++ l }
  | .constraint l, none => .ok { s with constrs := s.constrs ++ l }
  | .size e, none =>
      if s.size.isSome then invalidAnnot attr "already specified"
      else .ok { s with size := some e }
  | .typedef e, none =>
      if s.ptr.isSome then invalidAnnot attr "already specified"
      else .ok { s with ptr := some e }
  | .immovable, none =>
      if s.immovable then invalidAnnot attr "already specified"
      else .ok { s with immovable := true }
  | .unfoldOrder i, none =>
      if s.unfoldOrder.isSome then invalidAnnot attr "already specified"
      else .ok { s with unfoldOrder := some i }
  | .parameters _, _ | .refinedBy _, _ | .exist _, _ | .constraint _, _ | .size _, _
  | .typedef _, _ | .immovable, _ => invalidAnnot attr "is invalid for tagged unions"
  | _, _ => invalidAnnot attr "is invalid for a struct or a tagged union"

def StructState.annot (s : StructState) : StructAnnot :=
  match s.taggedUnion with
  | some e => .taggedU e
  | none =>
      .basic
        { parameters := s.parameters
          refinedBy := s.refinedBy
          exist := s.exist
          lets := s.lets
          constrs := s.constrs
          size := s.size
          typedef := s.ptr
          immovable := s.immovable
          unfoldOrder := s.unfoldOrder.getD defaultUnfoldOrder }

def structAnnot (e : Earley) (attrs : List RcAttr) : AnnotM StructAnnot :=
  StructState.annot <$> attrs.foldlM (handleStructAttr e) .init

/-! ## Loops -/

structure StateDescr where
  exist : List Binder
  constrs : List Constr
  invVars : List (String × TypeExpr)

structure LoopState where
  exist : List Binder
  constrs : List Constr
  vars : List (String × TypeExpr)
  fullBlock : Option Bool

def LoopState.setFullBlock (s : LoopState) (attr : RcAttr) (b : Bool) : AnnotM LoopState :=
  match s.fullBlock with
  | some _ => invalidAnnot attr "mode already specified"
  | none => .ok { s with fullBlock := some b }

def handleLoopAttr (e : Earley) (s : LoopState) (attr : RcAttr) : AnnotM LoopState := do
  match ← parseAttr e attr with
  | .exist l => .ok { s with exist := s.exist ++ l }
  | .constraint l => .ok { s with constrs := s.constrs ++ l }
  | .invVars l => .ok { s with vars := s.vars ++ l }
  | .block => s.setFullBlock attr false
  | .fullBlock => s.setFullBlock attr true
  | _ => invalidAnnot attr "is invalid (wrong kind)"

def loopAnnot (e : Earley) (attrs : List RcAttr) : AnnotM (Option Bool × StateDescr) :=
  (fun s => (s.fullBlock, ⟨s.exist, s.constrs, s.vars⟩)) <$>
    attrs.foldlM (handleLoopAttr e) ⟨[], [], [], none⟩

/-! ## Globals -/

structure GlobalAnnot where
  parameters : List Binder
  type : TypeExpr

structure GlobalState where
  typ : Option TypeExpr
  parameters : List Binder

def handleGlobalAttr (e : Earley) (s : GlobalState) (attr : RcAttr) : AnnotM GlobalState := do
  match ← parseAttr e attr, s.typ with
  | .global ty, none => .ok { s with typ := some ty }
  | .parameters l, _ => .ok { s with parameters := s.parameters ++ l }
  | .global _, _ => invalidAnnot attr "already specified"
  | _, _ => invalidAnnot attr "is invalid for a global"

def globalAnnot (e : Earley) (attrs : List RcAttr) : AnnotM (Option GlobalAnnot) :=
  (fun s => s.typ.map fun ty => ⟨s.parameters, ty⟩) <$>
    attrs.foldlM (handleGlobalAttr e) ⟨none, []⟩

end RefinedC.Frontend
