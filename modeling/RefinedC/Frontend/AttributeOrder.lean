import RefinedC.Frontend.AttributeRules

/-!
Order of attributes.

Source: `frontend/rc_annot.ml` and the remarks on the ordering of attributes in
`ANNOTATIONS.md`.

Owns: the rules and the meaning of the attributes of functions, members, structs, loops
and globals, and the laws of reordering, splitting and repeating attributes for them.

Clashes between the attributes of a struct have a direction: a `tagged_union` clashes
with what comes after it and not with what came before. The tactics of a function are
collected from two kinds of attributes.
-/

namespace RefinedC.Frontend

open Library

variable {e : Earley}

/-! ## What annotations carry -/

def contextPart : Part Binder where
  kind := "context"
  of
    | .context l => l
    | _ => []
  ofOther := by rintro ⟨⟩ <;> first | exact .inl rfl | exact .inr rfl
  ofJoin := by rintro _ _ _ ⟨⟩ <;> rfl

def instantiatePart : Part Binder where
  kind := "instantiate"
  of
    | .instantiate l => l
    | _ => []
  ofOther := by rintro ⟨⟩ <;> first | exact .inl rfl | exact .inr rfl
  ofJoin := by rintro _ _ _ ⟨⟩ <;> rfl

def parametersPart : Part Binder where
  kind := "parameters"
  of
    | .parameters l => l
    | _ => []
  ofOther := by rintro ⟨⟩ <;> first | exact .inl rfl | exact .inr rfl
  ofJoin := by rintro _ _ _ ⟨⟩ <;> rfl

def argsPart : Part TypeExpr where
  kind := "args"
  of
    | .args l => l
    | _ => []
  ofOther := by rintro ⟨⟩ <;> first | exact .inl rfl | exact .inr rfl
  ofJoin := by rintro _ _ _ ⟨⟩ <;> rfl

def existPart : Part Binder where
  kind := "exists"
  of
    | .exist l => l
    | _ => []
  ofOther := by rintro ⟨⟩ <;> first | exact .inl rfl | exact .inr rfl
  ofJoin := by rintro _ _ _ ⟨⟩ <;> rfl

def requiresPart : Part Constr where
  kind := "requires"
  of
    | .requires l => l
    | _ => []
  ofOther := by rintro ⟨⟩ <;> first | exact .inl rfl | exact .inr rfl
  ofJoin := by rintro _ _ _ ⟨⟩ <;> rfl

def ensuresPart : Part Constr where
  kind := "ensures"
  of
    | .ensures l => l
    | _ => []
  ofOther := by rintro ⟨⟩ <;> first | exact .inl rfl | exact .inr rfl
  ofJoin := by rintro _ _ _ ⟨⟩ <;> rfl

def tacticsPart : Part String where
  kind := "tactics"
  of
    | .tactics l => l
    | _ => []
  ofOther := by rintro ⟨⟩ <;> first | exact .inl rfl | exact .inr rfl
  ofJoin := by rintro _ _ _ ⟨⟩ <;> rfl

def refinedByPart : Part Binder where
  kind := "refined_by"
  of
    | .refinedBy l => l
    | _ => []
  ofOther := by rintro ⟨⟩ <;> first | exact .inl rfl | exact .inr rfl
  ofJoin := by rintro _ _ _ ⟨⟩ <;> rfl

def letsPart : Part (String × Option CoqExpr × CoqExpr) where
  kind := "let"
  of
    | .lets l => l
    | _ => []
  ofOther := by rintro ⟨⟩ <;> first | exact .inl rfl | exact .inr rfl
  ofJoin := by rintro _ _ _ ⟨⟩ <;> rfl

def constraintPart : Part Constr where
  kind := "constraints"
  of
    | .constraint l => l
    | _ => []
  ofOther := by rintro ⟨⟩ <;> first | exact .inl rfl | exact .inr rfl
  ofJoin := by rintro _ _ _ ⟨⟩ <;> rfl

def invVarsPart : Part (String × TypeExpr) where
  kind := "inv_vars"
  of
    | .invVars l => l
    | _ => []
  ofOther := by rintro ⟨⟩ <;> first | exact .inl rfl | exact .inr rfl
  ofJoin := by rintro _ _ _ ⟨⟩ <;> rfl

def returnsChoice : Choice TypeExpr where
  kinds := ["returns"]
  of
    | .returns ty => some ty
    | _ => none
  ofOther := by rintro ⟨⟩ <;> simp [Annot.tag]
  single := by decide

def proofChoice : Choice ProofKind where
  kinds := ["skip", "trust_me", "manual_proof", "inlined"]
  of
    | .skip => some .skipped
    | .trustMe => some .trusted
    | .manual cfg => some (.manual cfg)
    | .inlined => some .inlined
    | _ => none
  ofOther := by rintro ⟨⟩ <;> simp [Annot.tag]
  single := by decide

def inlinedChoice : Choice Unit where
  kinds := ["inlined"]
  of
    | .inlined => some ()
    | _ => none
  ofOther := by rintro ⟨⟩ <;> simp [Annot.tag]
  single := by decide

def sizeChoice : Choice CoqExpr where
  kinds := ["size"]
  of
    | .size e => some e
    | _ => none
  ofOther := by rintro ⟨⟩ <;> simp [Annot.tag]
  single := by decide

def typedefChoice : Choice (String × TypeExpr) where
  kinds := ["typedef"]
  of
    | .typedef e => some e
    | _ => none
  ofOther := by rintro ⟨⟩ <;> simp [Annot.tag]
  single := by decide

def immovableChoice : Choice Unit where
  kinds := ["immovable"]
  of
    | .immovable => some ()
    | _ => none
  ofOther := by rintro ⟨⟩ <;> simp [Annot.tag]
  single := by decide

def taggedUnionChoice : Choice CoqExpr where
  kinds := ["tagged_union"]
  of
    | .taggedUnion e => some e
    | _ => none
  ofOther := by rintro ⟨⟩ <;> simp [Annot.tag]
  single := by decide

def unfoldOrderChoice : Choice Nat where
  kinds := ["unfold_order"]
  of
    | .unfoldOrder i => some i
    | _ => none
  ofOther := by rintro ⟨⟩ <;> simp [Annot.tag]
  single := by decide

def memberChoice : Choice MemberAnnot where
  kinds := ["field", "union_tag"]
  of
    | .field ty => some (.field ty)
    | .unionTag t => some (.utag t)
    | _ => none
  ofOther := by rintro ⟨⟩ <;> simp [Annot.tag]
  single := by decide

def blockChoice : Choice Bool where
  kinds := ["block", "full_block"]
  of
    | .block => some false
    | .fullBlock => some true
    | _ => none
  ofOther := by rintro ⟨⟩ <;> simp [Annot.tag]
  single := by decide

def globalChoice : Choice TypeExpr where
  kinds := ["global"]
  of
    | .global ty => some ty
    | _ => none
  ofOther := by rintro ⟨⟩ <;> simp [Annot.tag]
  single := by decide

/-! ## Functions -/

/-- Kinds that stand alone. -/
def aloneKinds : List String := ["skip", "inlined"]

def functionRules : Rules where
  allowed :=
    ["skip", "trust_me", "manual_proof", "parameters", "context", "instantiate", "args", "returns",
      "requires", "ensures", "exists", "annot_args", "tactics", "inlined"]
  clash t t' :=
    decide (t ∈ aloneKinds ∨ t' ∈ aloneKinds ∨ (t = "returns" ∧ t' = "returns") ∨
      (t ∈ proofChoice.kinds ∧ t' ∈ proofChoice.kinds))
  closing := inlinedChoice.kinds
  clashRepeatable := by decide
  clashSingle := by decide

/-- What a list of annotations means for a function. -/
def functionSummary (bs : List Annot) : FunctionState where
  context := contextPart.value bs
  instantiate := instantiatePart.value bs
  parameters := parametersPart.value bs
  args := argsPart.value bs
  exist := existPart.value bs
  returns := returnsChoice.value bs
  requires := requiresPart.value bs
  ensures := ensuresPart.value bs
  tactics := tacticsPart.value bs
  proof := (proofChoice.value bs).getD .normal
  inlined := (inlinedChoice.value bs).isSome
  nbAttrs := bs.length

def FunctionState.add (s : FunctionState) (b : Annot) : FunctionState where
  context := s.context ++ contextPart.of b
  instantiate := s.instantiate ++ instantiatePart.of b
  parameters := s.parameters ++ parametersPart.of b
  args := s.args ++ argsPart.of b
  exist := s.exist ++ existPart.of b
  returns := (returnsChoice.of b).or s.returns
  requires := s.requires ++ requiresPart.of b
  ensures := s.ensures ++ ensuresPart.of b
  tactics := s.tactics ++ tacticsPart.of b
  proof := (proofChoice.of b).getD s.proof
  inlined := (inlinedChoice.of b).isSome || s.inlined
  nbAttrs := s.nbAttrs + 1

private theorem functionSummary_append (bs : List Annot) (b : Annot) :
    functionSummary (bs ++ [b]) = (functionSummary bs).add b := by
  simp [functionSummary, FunctionState.add, Part.value_append, Choice.value_append,
    Option.getD_or, Option.isSome_or]

private theorem functionSummary_proof_eq_normal_iff {bs : List Annot} :
    (functionSummary bs).proof = .normal ↔ ∀ b ∈ bs, b.tag ∉ proofChoice.kinds := by
  rw [← proofChoice.value_eq_none_iff, functionSummary]
  constructor
  · intro isNormal
    by_contra notNone
    obtain ⟨kind, isLast⟩ := Option.isSome_iff_exists.mp (Option.isSome_iff_ne_none.mpr notNone)
    obtain ⟨b, -, isPart⟩ := List.mem_filterMap.mp (List.mem_of_getLast? isLast)
    simp only [isLast, Option.getD_some] at isNormal
    subst isNormal
    cases b <;> cases isPart
  · intro none
    rw [none]
    rfl

/-- While nothing that stands alone is there, attributes may follow. -/
theorem functionSummary_open {bs : List Annot} (noneAlone : ∀ b ∈ bs, b.tag ∉ aloneKinds) :
    (functionSummary bs).inlined = false ∧ (functionSummary bs).proof ≠ .skipped := by
  constructor
  · have none : inlinedChoice.value bs = none := by
      rw [inlinedChoice.value_eq_none_iff]
      intro b member isInlined
      refine noneAlone b member ?_
      rw [List.mem_singleton.mp isInlined]
      decide
    rw [functionSummary, none]
    rfl
  · intro isSkipped
    rw [functionSummary] at isSkipped
    cases isLast : proofChoice.value bs with
    | none => simp [isLast] at isSkipped
    | some kind =>
        simp only [isLast, Option.getD_some] at isSkipped
        subst isSkipped
        obtain ⟨b, member, isPart⟩ := List.mem_filterMap.mp (List.mem_of_getLast? isLast)
        have notAlone := noneAlone b member
        cases b <;> first | exact absurd (by decide) notAlone | cases isPart

/-- An annotation that stands alone is the only one. -/
theorem eq_singleton_of_alone {bs : List Annot}
    (accepted : Accepted functionRules.allows functionRules.clashes bs) {b : Annot}
    (member : b ∈ bs) (alone : b.tag ∈ aloneKinds) : bs = [b] := by
  obtain ⟨before, after, rfl⟩ := List.append_of_mem member
  obtain ⟨-, rest, across⟩ := List.pairwise_append.mp accepted.noClash
  have noneBefore : before = [] := by
    refine List.eq_nil_iff_forall_not_mem.mpr fun b' inBefore => ?_
    have noClash := across b' inBefore b (by simp)
    simp [Rules.clashes, functionRules, alone] at noClash
  have noneAfter : after = [] := by
    refine List.eq_nil_iff_forall_not_mem.mpr fun b' inAfter => ?_
    have noClash := (List.pairwise_cons.mp rest).1 b' inAfter
    simp [Rules.clashes, functionRules, alone] at noClash
  rw [noneBefore, noneAfter]
  rfl

private theorem noClashFunction_iff {bs : List Annot} {b : Annot}
    (noneAlone : ∀ b' ∈ bs, b'.tag ∉ aloneKinds) :
    (∀ b' ∈ bs, functionRules.clashes b' b = false) ↔
      (b.tag ∈ aloneKinds → bs = []) ∧
        (b.tag = "returns" → (functionSummary bs).returns = none) ∧
        (b.tag ∈ proofChoice.kinds → (functionSummary bs).proof = .normal) := by
  have returnsNone : (functionSummary bs).returns = none ↔
      ∀ b' ∈ bs, b'.tag ≠ "returns" := by
    rw [functionSummary, returnsChoice.value_eq_none_iff]
    simp [returnsChoice]
  rw [returnsNone, functionSummary_proof_eq_normal_iff, List.eq_nil_iff_forall_not_mem]
  simp only [Rules.clashes, functionRules, decide_eq_false_iff_not, not_or, not_and]
  constructor
  · intro noClash
    exact ⟨fun alone b' member => absurd alone (noClash b' member).2.1,
      fun isReturns b' member same => (noClash b' member).2.2.1 same isReturns,
      fun isProof b' member same => (noClash b' member).2.2.2 same isProof⟩
  · rintro ⟨alone, isReturns, isProof⟩ b' member
    exact ⟨noneAlone b' member, fun isAlone => alone isAlone b' member,
      fun same returns => isReturns returns b' member same,
      fun same proof => isProof proof b' member same⟩

private theorem handleFunctionAttr_of_alone {bs : List Annot} {b : Annot} (attr : RcAttr)
    (accepted : Accepted functionRules.allows functionRules.clashes bs) (member : b ∈ bs)
    (alone : b.tag ∈ aloneKinds) (s' : FunctionState) :
    handleFunctionAttr e (functionSummary bs) attr ≠ .ok s' := by
  rw [eq_singleton_of_alone accepted member alone]
  cases b <;> simp [aloneKinds, Annot.tag] at alone
  · have isSkipped : (functionSummary [.skip]).proof = .skipped := rfl
    have notInlined : (functionSummary [.skip]).inlined = false := rfl
    cases run : parseAttr e attr <;>
      simp [handleFunctionAttr, notInlined, isSkipped, run, bind, Except.bind]
  · have isInlined : (functionSummary [.inlined]).inlined = true := rfl
    simp [handleFunctionAttr, isInlined]

/-- The attributes that a function takes in a state where attributes may follow. -/
theorem handleFunctionAttr_open_iff {s s' : FunctionState} {attr : RcAttr} {b : Annot}
    (run : parseAttr e attr = .ok b) (notInlined : s.inlined = false)
    (notSkipped : s.proof ≠ .skipped) (fresh : s.nbAttrs = 0 → s.proof = .normal) :
    handleFunctionAttr e s attr = .ok s' ↔
      (functionRules.allows b = true ∧ (b.tag ∈ aloneKinds → s.nbAttrs = 0) ∧
        (b.tag = "returns" → s.returns = none) ∧
        (b.tag ∈ proofChoice.kinds → s.proof = .normal)) ∧ s.add b = s' := by
  obtain ⟨context, instantiate, parameters, args, exist, returns, requires, ensures, tactics,
    proof, inlined, nbAttrs⟩ := s
  simp only at notInlined notSkipped fresh
  subst notInlined
  rw [handleFunctionAttr, if_neg (by simp), run, ok_bind, if_neg notSkipped]
  cases b with
  | returns ty =>
      cases returns with
      | none =>
          simp [Rules.allows, functionRules, Annot.tag, aloneKinds, FunctionState.add, contextPart,
            instantiatePart, parametersPart, argsPart, existPart, returnsChoice, requiresPart,
            ensuresPart, tacticsPart, proofChoice, inlinedChoice]
      | some ty' => simp [Annot.tag]
  | skip | inlined =>
      simp [Rules.allows, functionRules, Annot.tag, aloneKinds, FunctionState.add, contextPart,
        instantiatePart, parametersPart, argsPart, existPart, returnsChoice, requiresPart,
        ensuresPart, tacticsPart, proofChoice, inlinedChoice]
      tauto
  | _ =>
      simp [Rules.allows, functionRules, Annot.tag, aloneKinds, FunctionState.add, contextPart,
        instantiatePart, parametersPart, argsPart, existPart, returnsChoice, requiresPart,
        ensuresPart, tacticsPart, proofChoice, inlinedChoice]

/-- A function that is inlined takes no other attributes, and does not parse them. -/
theorem handleFunctionAttr_crashes_iff {s : FunctionState} {attr : RcAttr} :
    handleFunctionAttr e s attr = .error .assertFailure ↔
      s.inlined = false ∧ parseAttr e attr = .error .assertFailure := by
  obtain ⟨context, instantiate, parameters, args, exist, returns, requires, ensures, tactics,
    proof, inlined, nbAttrs⟩ := s
  cases inlined with
  | true => simp [handleFunctionAttr]
  | false =>
      rw [handleFunctionAttr, if_neg (by simp), bind_eq_error]
      apply Iff.trans (or_iff_left _)
      · simp
      · rintro ⟨b, -, crashed⟩
        cases returns <;> cases b <;> simp at crashed

private theorem handleFunctionAttr_steps :
    functionRules.Steps e (handleFunctionAttr e) functionSummary := by
  refine .of_parsed (fun s attr exn s' failed => ?_) (fun bs attr b s' accepted run => ?_)
    fun bs attr _ => ?_
  · cases inlined : s.inlined <;>
      simp [handleFunctionAttr, inlined, failed, bind, Except.bind]
  · by_cases noneAlone : ∀ b ∈ bs, b.tag ∉ aloneKinds
    · obtain ⟨notInlined, notSkipped⟩ := functionSummary_open noneAlone
      have isEmpty : (functionSummary bs).nbAttrs = 0 ↔ bs = [] := List.length_eq_zero_iff
      have fresh : (functionSummary bs).nbAttrs = 0 → (functionSummary bs).proof = .normal := by
        intro none
        rw [isEmpty.mp none]
        rfl
      rw [handleFunctionAttr_open_iff run notInlined notSkipped fresh, isEmpty,
        noClashFunction_iff noneAlone, functionSummary_append]
    · simp only [not_forall, not_not] at noneAlone
      obtain ⟨b', member, alone⟩ := noneAlone
      constructor
      · intro taken
        exact absurd taken (handleFunctionAttr_of_alone attr accepted member alone s')
      · rintro ⟨⟨-, noClash⟩, -⟩
        have none := noClash b' member
        simp [Rules.clashes, functionRules, alone] at none
  · rw [handleFunctionAttr_crashes_iff, functionSummary, Option.isSome_eq_false_iff,
      Option.isNone_iff_eq_none, inlinedChoice.value_eq_none_iff]
    rfl

def functionCollector (e : Earley) : Collector e FunctionAnnot :=
  .ofSteps handleFunctionAttr_steps FunctionState.annot fun before after b b1 b2 joins => by
    simp only [FunctionState.annot, functionSummary, Part.value_join _ before after joins,
      Choice.value_join _ before after joins]
    simp

/-- The tactics that the attributes carry, in order. -/
def tacticsOf (e : Earley) (attrs : List RcAttr) : List String :=
  tacticsPart.value (attrs.filterMap (readAttr e))

/-- Reordering the attributes of a function only matters for its tactics. -/
theorem functionSummary_reordered {xs ys : List RcAttr} (reordered : Reordered xs ys)
    (accepts : functionRules.Accepts e xs) :
    functionSummary (ys.filterMap (readAttr e)) =
      { functionSummary (xs.filterMap (readAttr e)) with tactics := tacticsOf e ys } := by
  have length := (reordered.perm.filterMap (readAttr e)).length_eq
  have part {γ : Type} (part : Part γ) := reordered.part_eq (e := e) part
  have choice {γ : Type} (choice : Choice γ) := reordered.choice_eq accepts choice
  simp only [functionSummary, tacticsOf, length, part contextPart (by decide),
    part instantiatePart (by decide), part parametersPart (by decide), part argsPart (by decide),
    part existPart (by decide), part requiresPart (by decide), part ensuresPart (by decide),
    choice returnsChoice (by decide), choice proofChoice (by decide),
    choice inlinedChoice (by decide)]

private theorem functionAnnot_reordered_iff {xs ys : List RcAttr} (reordered : Reordered xs ys) :
    SameOutcome (functionAnnot e xs) (functionAnnot e ys) ↔
      ¬ functionRules.Crashes e xs ∧ ¬ functionRules.Crashes e ys ∧
        (functionRules.Accepts e xs → tacticsOf e xs = tacticsOf e ys) := by
  have symmetric : ∀ t t', functionRules.clash t t' = functionRules.clash t' t := by
    intro t t'
    simp only [functionRules]
    rw [decide_eq_decide]
    tauto
  refine ((functionCollector e).sameOutcome_perm_iff symmetric reordered.perm).trans ?_
  refine and_congr_right' (and_congr_right' (forall_congr' fun accepts => ?_))
  change FunctionState.annot _ = FunctionState.annot _ ↔ _
  rw [functionSummary_reordered reordered accepts]
  simp [FunctionState.annot, functionSummary, tacticsOf]

/-! ## Structs -/

def structRules : Rules where
  allowed :=
    ["tagged_union", "parameters", "refined_by", "exists", "let", "constraints", "size", "typedef",
      "immovable", "unfold_order"]
  clash t t' := decide (t = "tagged_union" ∨
    (t = t' ∧ t ∈ ["size", "typedef", "immovable", "unfold_order"]))
  closing := []
  clashRepeatable := by decide
  clashSingle := by decide

/-- What a list of annotations means for a struct. -/
def structSummary (bs : List Annot) : StructState where
  parameters := parametersPart.value bs
  refinedBy := refinedByPart.value bs
  exist := existPart.value bs
  lets := letsPart.value bs
  constrs := constraintPart.value bs
  size := sizeChoice.value bs
  ptr := typedefChoice.value bs
  immovable := (immovableChoice.value bs).isSome
  taggedUnion := taggedUnionChoice.value bs
  unfoldOrder := unfoldOrderChoice.value bs

def StructState.add (s : StructState) (b : Annot) : StructState where
  parameters := s.parameters ++ parametersPart.of b
  refinedBy := s.refinedBy ++ refinedByPart.of b
  exist := s.exist ++ existPart.of b
  lets := s.lets ++ letsPart.of b
  constrs := s.constrs ++ constraintPart.of b
  size := (sizeChoice.of b).or s.size
  ptr := (typedefChoice.of b).or s.ptr
  immovable := (immovableChoice.of b).isSome || s.immovable
  taggedUnion := (taggedUnionChoice.of b).or s.taggedUnion
  unfoldOrder := (unfoldOrderChoice.of b).or s.unfoldOrder

private theorem structSummary_append (bs : List Annot) (b : Annot) :
    structSummary (bs ++ [b]) = (structSummary bs).add b := by
  simp [structSummary, StructState.add, Part.value_append, Choice.value_append, Option.isSome_or]

/-- The attributes that a struct takes. -/
theorem handleStructAttr_iff {s s' : StructState} {attr : RcAttr} {b : Annot}
    (run : parseAttr e attr = .ok b) :
    handleStructAttr e s attr = .ok s' ↔
      (structRules.allows b = true ∧ s.taggedUnion = none ∧
        (b.tag = "size" → s.size = none) ∧
        (b.tag = "typedef" → s.ptr = none) ∧ (b.tag = "immovable" → s.immovable = false) ∧
        (b.tag = "unfold_order" → s.unfoldOrder = none)) ∧ s.add b = s' := by
  obtain ⟨parameters, refinedBy, exist, lets, constrs, size, ptr, immovable, taggedUnion,
    unfoldOrder⟩ := s
  rw [handleStructAttr, run, ok_bind]
  cases taggedUnion with
  | some e => cases b <;> simp
  | none =>
      cases b <;>
        simp [Rules.allows, structRules, Annot.tag, StructState.add, parametersPart,
          refinedByPart, existPart, letsPart, constraintPart, sizeChoice, typedefChoice,
          immovableChoice, taggedUnionChoice, unfoldOrderChoice]

private theorem noClashStruct_iff {bs : List Annot} {b : Annot} :
    (∀ b' ∈ bs, structRules.clashes b' b = false) ↔
      (structSummary bs).taggedUnion = none ∧
      (b.tag = "size" → (structSummary bs).size = none) ∧
        (b.tag = "typedef" → (structSummary bs).ptr = none) ∧
        (b.tag = "immovable" → (structSummary bs).immovable = false) ∧
        (b.tag = "unfold_order" → (structSummary bs).unfoldOrder = none) := by
  have single : ∀ {γ : Type} (choice : Choice γ) (t : String), choice.kinds = [t] →
      (choice.value bs = none ↔ ∀ b' ∈ bs, b'.tag ≠ t) := by
    intro γ choice t kinds
    rw [choice.value_eq_none_iff, kinds]
    simp only [List.mem_singleton, ne_eq]
  simp only [structSummary, Option.isSome_eq_false_iff, Option.isNone_iff_eq_none,
    single taggedUnionChoice "tagged_union" rfl, single sizeChoice "size" rfl,
    single typedefChoice "typedef" rfl, single immovableChoice "immovable" rfl,
    single unfoldOrderChoice "unfold_order" rfl, Rules.clashes, structRules,
    decide_eq_false_iff_not, not_or, not_and, List.mem_cons, List.not_mem_nil, or_false]
  constructor
  · intro noClash
    refine ⟨fun b' member => (noClash b' member).1, ?_, ?_, ?_, ?_⟩
    all_goals
      intro isKind b' member same
      have notSame := (noClash b' member).2 (same.trans isKind.symm)
      simp [same] at notSame
  · rintro ⟨notTagged, size, typedef, immovable, unfoldOrder⟩ b' member
    refine ⟨notTagged b' member, fun same => ⟨?_, ?_, ?_, ?_⟩⟩
    · exact fun isKind => size (same ▸ isKind) b' member isKind
    · exact fun isKind => typedef (same ▸ isKind) b' member isKind
    · exact fun isKind => immovable (same ▸ isKind) b' member isKind
    · exact fun isKind => unfoldOrder (same ▸ isKind) b' member isKind

private theorem handleStructAttr_crashes_iff {s : StructState} {attr : RcAttr} :
    handleStructAttr e s attr = .error .assertFailure ↔
      parseAttr e attr = .error .assertFailure := by
  rw [handleStructAttr, bind_eq_error]
  apply or_iff_left
  rintro ⟨b, -, crashed⟩
  cases tagged : s.taggedUnion <;> rw [tagged] at crashed <;> cases b <;> simp at crashed

private theorem handleStructAttr_steps :
    structRules.Steps e (handleStructAttr e) structSummary := by
  refine .of_parsed (fun s attr exn s' failed => ?_) (fun bs attr b s' _ run => ?_)
    fun bs attr _ => ?_
  · simp [handleStructAttr, failed, bind, Except.bind]
  · rw [handleStructAttr_iff run, noClashStruct_iff, structSummary_append]
  · simp [handleStructAttr_crashes_iff, structRules]

def structCollector (e : Earley) : Collector e StructAnnot :=
  .ofSteps handleStructAttr_steps StructState.annot fun before after b b1 b2 joins => by
    simp only [structSummary, Part.value_join _ before after joins,
      Choice.value_join _ before after joins]

/-- What a struct accepts in some order. -/
def structKindRules : Rules where
  allowed := structRules.allowed
  clash t t' := decide
    (t = t' ∧ t ∈ ["tagged_union", "size", "typedef", "immovable", "unfold_order"])
  closing := []
  clashRepeatable := by decide
  clashSingle := by decide

/-- Nothing comes after a `tagged_union`. -/
def TaggedUnionLast (attrs : List RcAttr) : Prop :=
  attrs.Pairwise fun a _ => a.id ≠ "tagged_union"

private theorem structRules_accepts_iff {attrs : List RcAttr} :
    structRules.Accepts e attrs ↔ structKindRules.Accepts e attrs ∧ TaggedUnionLast attrs := by
  have clash (b b' : Annot) : structRules.clashes b b' = false ↔
      structKindRules.clashes b b' = false ∧ b.tag ≠ "tagged_union" := by
    simp only [Rules.clashes, structRules, structKindRules, decide_eq_false_iff_not]
    grind
  have last (readable : ∀ a ∈ attrs, (readAttr e a).isSome) :
      (attrs.filterMap (readAttr e)).Pairwise (fun b _ => b.tag ≠ "tagged_union") ↔
        TaggedUnionLast attrs := by
    rw [List.pairwise_filterMap, TaggedUnionLast]
    have tagged : ∀ a b, readAttr e a = some b →
        (b.tag = "tagged_union" ↔ a.id = "tagged_union") := by
      intro a b isRead
      rw [readAttr_tag isRead, tagOf]
      split
      · rename_i isLemmas
        simp [isLemmas]
      · exact .rfl
    constructor
    · refine fun pairwise => pairwise.imp_of_mem fun {a a'} member member' other isTagged => ?_
      obtain ⟨b, isRead⟩ := Option.isSome_iff_exists.mp (readable a member)
      obtain ⟨b', isRead'⟩ := Option.isSome_iff_exists.mp (readable a' member')
      exact other b isRead b' isRead' ((tagged a b isRead).mpr isTagged)
    · refine fun pairwise => pairwise.imp fun {a a'} other b isRead b' _ isTagged => ?_
      exact other ((tagged a b isRead).mp isTagged)
  constructor
  · rintro ⟨readable, allowed, noClash⟩
    have both := List.pairwise_and_iff.mp (noClash.imp fun {b b'} h => (clash b b').mp h)
    exact ⟨⟨readable, allowed, both.1⟩, (last readable).mp both.2⟩
  · rintro ⟨⟨readable, allowed, noClash⟩, isLast⟩
    have both := List.pairwise_and_iff.mpr ⟨noClash, (last readable).mpr isLast⟩
    exact ⟨readable, allowed, both.imp fun {b b'} h => (clash b b').mpr h⟩

private theorem structSummary_reordered {xs ys : List RcAttr} (reordered : Reordered xs ys)
    (accepts : structRules.Accepts e xs) :
    structSummary (ys.filterMap (readAttr e)) = structSummary (xs.filterMap (readAttr e)) := by
  have part {γ : Type} (part : Part γ) := reordered.part_eq (e := e) part
  have choice {γ : Type} (choice : Choice γ) := reordered.choice_eq accepts choice
  simp only [structSummary, part parametersPart (by decide), part refinedByPart (by decide),
    part existPart (by decide), part letsPart (by decide), part constraintPart (by decide),
    choice sizeChoice (by decide), choice typedefChoice (by decide),
    choice immovableChoice (by decide), choice taggedUnionChoice (by decide),
    choice unfoldOrderChoice (by decide)]

/-- Reordering the attributes of a struct only matters for crashes and for whether
`tagged_union` is last. -/
theorem structAnnot_reordered_iff {xs ys : List RcAttr} (reordered : Reordered xs ys) :
    SameOutcome (structAnnot e xs) (structAnnot e ys) ↔
      ¬ structRules.Crashes e xs ∧ ¬ structRules.Crashes e ys ∧
        (structKindRules.Accepts e xs → (TaggedUnionLast xs ↔ TaggedUnionLast ys)) := by
  have symmetric : ∀ t t', structKindRules.clash t t' = structKindRules.clash t' t := by
    intro t t'
    simp only [structKindRules]
    rw [decide_eq_decide]
    grind
  have sameMeaning : structRules.Accepts e xs →
      StructState.annot (structSummary (xs.filterMap (readAttr e))) =
        StructState.annot (structSummary (ys.filterMap (readAttr e))) :=
    fun accepts => by rw [structSummary_reordered reordered accepts]
  refine ((structCollector e).sameOutcome_iff xs ys).trans ?_
  refine and_congr_right' (and_congr_right' ?_)
  refine ((structCollector e).toOption_eq_iff xs ys).trans ((and_iff_left sameMeaning).trans ?_)
  change (structRules.Accepts e xs ↔ structRules.Accepts e ys) ↔ _
  rw [structRules_accepts_iff, structRules_accepts_iff,
    ← Rules.accepts_perm_iff symmetric reordered.perm]
  tauto

/-! ## Loops, members and globals -/

def loopRules : Rules where
  allowed := ["exists", "constraints", "inv_vars", "block", "full_block"]
  clash t t' := decide (t ∈ blockChoice.kinds ∧ t' ∈ blockChoice.kinds)
  closing := []
  clashRepeatable := by decide
  clashSingle := by decide

def loopSummary (bs : List Annot) : LoopState where
  exist := existPart.value bs
  constrs := constraintPart.value bs
  vars := invVarsPart.value bs
  fullBlock := blockChoice.value bs

def memberRules : Rules where
  allowed := memberChoice.kinds
  clash t t' := decide (t ∈ memberChoice.kinds ∧ t' ∈ memberChoice.kinds)
  closing := []
  clashRepeatable := by decide
  clashSingle := by decide

def memberSummary (bs : List Annot) : MemberAnnot := (memberChoice.value bs).getD .none

def globalRules : Rules where
  allowed := ["global", "parameters"]
  clash t t' := decide (t ∈ globalChoice.kinds ∧ t' ∈ globalChoice.kinds)
  closing := []
  clashRepeatable := by decide
  clashSingle := by decide

def globalSummary (bs : List Annot) : GlobalState where
  typ := globalChoice.value bs
  parameters := parametersPart.value bs

/-- Kinds of one choice only clash with each other. -/
theorem noClash_choice_iff {γ : Type} (choice : Choice γ) (rules : Rules)
    (clash : ∀ t t', rules.clash t t' = decide (t ∈ choice.kinds ∧ t' ∈ choice.kinds))
    {bs : List Annot} {b : Annot} :
    (∀ b' ∈ bs, rules.clashes b' b = false) ↔
      (b.tag ∈ choice.kinds → choice.value bs = none) := by
  rw [choice.value_eq_none_iff]
  simp only [Rules.clashes, clash, decide_eq_false_iff_not, not_and]
  constructor
  · exact fun noClash isKind b' member same => noClash b' member same isKind
  · exact fun none b' member same isKind => none isKind b' member same

private theorem handleLoopAttr_crashes_iff {s : LoopState} {attr : RcAttr} :
    handleLoopAttr e s attr = .error .assertFailure ↔
      parseAttr e attr = .error .assertFailure := by
  rw [handleLoopAttr, bind_eq_error]
  apply or_iff_left
  rintro ⟨b, -, crashed⟩
  cases mode : s.fullBlock <;> cases b <;> simp [LoopState.setFullBlock, mode] at crashed

private theorem handleLoopAttr_steps : loopRules.Steps e (handleLoopAttr e) loopSummary := by
  refine .of_parsed (fun s attr exn s' failed => ?_) (fun bs attr b s' _ run => ?_)
    fun bs attr _ => ?_
  · simp [handleLoopAttr, failed, bind, Except.bind]
  · rw [handleLoopAttr, run, ok_bind]
    simp only [loopSummary, Part.value_append, Choice.value_append,
      noClash_choice_iff blockChoice loopRules fun _ _ => rfl]
    generalize existPart.value bs = exist, constraintPart.value bs = constrs,
      invVarsPart.value bs = vars, blockChoice.value bs = mode
    cases mode <;> cases b <;>
      simp [LoopState.setFullBlock, Rules.allows, loopRules, Annot.tag, existPart,
        constraintPart, invVarsPart, blockChoice]
  · simp [handleLoopAttr_crashes_iff, loopRules]

private theorem handleMemberAttr_crashes_iff {s : MemberAnnot} {attr : RcAttr} :
    handleMemberAttr e s attr = .error .assertFailure ↔
      parseAttr e attr = .error .assertFailure := by
  rw [handleMemberAttr, bind_eq_error]
  apply or_iff_left
  rintro ⟨b, -, crashed⟩
  cases s <;> cases b <;> simp at crashed

private theorem memberSummary_append (bs : List Annot) (b : Annot) :
    memberSummary (bs ++ [b]) = (memberChoice.of b).getD (memberSummary bs) := by
  simp only [memberSummary, Choice.value_append, Option.getD_or]

private theorem memberSummary_eq_none_iff {bs : List Annot} :
    memberSummary bs = .none ↔ memberChoice.value bs = none := by
  rw [memberSummary]
  constructor
  · intro isNone
    by_contra notNone
    obtain ⟨annot, isLast⟩ :=
      Option.isSome_iff_exists.mp (Option.isSome_iff_ne_none.mpr notNone)
    obtain ⟨b, -, isPart⟩ := List.mem_filterMap.mp (List.mem_of_getLast? isLast)
    simp only [isLast, Option.getD_some] at isNone
    subst isNone
    cases b <;> cases isPart
  · intro none
    rw [none]
    rfl

private theorem handleMemberAttr_steps :
    memberRules.Steps e (handleMemberAttr e) memberSummary := by
  refine .of_parsed (fun s attr exn s' failed => ?_) (fun bs attr b s' _ run => ?_)
    fun bs attr _ => ?_
  · simp [handleMemberAttr, failed, bind, Except.bind]
  · rw [handleMemberAttr, run, ok_bind]
    simp only [memberSummary_append, noClash_choice_iff memberChoice memberRules fun _ _ => rfl,
      ← memberSummary_eq_none_iff]
    generalize memberSummary bs = member
    cases member <;> cases b <;> simp [Rules.allows, memberRules, Annot.tag, memberChoice]
  · simp [handleMemberAttr_crashes_iff, memberRules]

private theorem handleGlobalAttr_crashes_iff {s : GlobalState} {attr : RcAttr} :
    handleGlobalAttr e s attr = .error .assertFailure ↔
      parseAttr e attr = .error .assertFailure := by
  rw [handleGlobalAttr, bind_eq_error]
  apply or_iff_left
  rintro ⟨b, -, crashed⟩
  cases typ : s.typ <;> rw [typ] at crashed <;> cases b <;> simp at crashed

private theorem handleGlobalAttr_steps :
    globalRules.Steps e (handleGlobalAttr e) globalSummary := by
  refine .of_parsed (fun s attr exn s' failed => ?_) (fun bs attr b s' _ run => ?_)
    fun bs attr _ => ?_
  · simp [handleGlobalAttr, failed, bind, Except.bind]
  · rw [handleGlobalAttr, run, ok_bind]
    simp only [globalSummary, Part.value_append, Choice.value_append,
      noClash_choice_iff globalChoice globalRules fun _ _ => rfl]
    generalize globalChoice.value bs = typ, parametersPart.value bs = parameters
    cases typ <;> cases b <;>
      simp [Rules.allows, globalRules, Annot.tag, parametersPart, globalChoice]
  · simp [handleGlobalAttr_crashes_iff, globalRules]

def loopCollector (e : Earley) : Collector e (Option Bool × StateDescr) :=
  .ofSteps handleLoopAttr_steps (fun s => (s.fullBlock, ⟨s.exist, s.constrs, s.vars⟩))
    fun before after b b1 b2 joins => by
      simp only [loopSummary, Part.value_join _ before after joins,
        Choice.value_join _ before after joins]

def memberCollector (e : Earley) : Collector e MemberAnnot :=
  .ofSteps handleMemberAttr_steps id fun before after b b1 b2 joins => by
    simp only [memberSummary, Choice.value_join _ before after joins]

def globalCollector (e : Earley) : Collector e (Option GlobalAnnot) :=
  .ofSteps handleGlobalAttr_steps (fun s => s.typ.map fun ty => ⟨s.parameters, ty⟩)
    fun before after b b1 b2 joins => by
      simp only [globalSummary, Part.value_join _ before after joins,
        Choice.value_join _ before after joins]

private theorem memberCollector_run : (memberCollector e).run = memberAnnot e := by
  funext attrs
  exact id_map (memberAnnot e attrs)

section

variable {xs ys : List RcAttr} (reordered : Reordered xs ys)

include reordered

private theorem loopAnnot_reordered_iff :
    SameOutcome (loopAnnot e xs) (loopAnnot e ys) ↔
      ¬ loopRules.Crashes e xs ∧ ¬ loopRules.Crashes e ys := by
  have symmetric : ∀ t t', loopRules.clash t t' = loopRules.clash t' t := by
    intro t t'
    simp only [loopRules, and_comm]
  refine ((loopCollector e).sameOutcome_perm_iff symmetric reordered.perm).trans ?_
  refine and_congr_right' (and_iff_left fun (accepts : loopRules.Accepts e xs) => ?_)
  have same :
      loopSummary (xs.filterMap (readAttr e)) = loopSummary (ys.filterMap (readAttr e)) := by
    simp only [loopSummary, reordered.part_eq (e := e) existPart (by decide),
      reordered.part_eq (e := e) constraintPart (by decide),
      reordered.part_eq (e := e) invVarsPart (by decide),
      reordered.choice_eq accepts blockChoice (by decide)]
  change (_, _) = (_, _)
  rw [same]

private theorem memberAnnot_reordered_iff :
    SameOutcome (memberAnnot e xs) (memberAnnot e ys) ↔
      ¬ memberRules.Crashes e xs ∧ ¬ memberRules.Crashes e ys := by
  have symmetric : ∀ t t', memberRules.clash t t' = memberRules.clash t' t := by
    intro t t'
    simp only [memberRules, and_comm]
  rw [← memberCollector_run]
  refine ((memberCollector e).sameOutcome_perm_iff symmetric reordered.perm).trans ?_
  refine and_congr_right' (and_iff_left fun (accepts : memberRules.Accepts e xs) => ?_)
  change memberSummary _ = memberSummary _
  rw [memberSummary, memberSummary, reordered.choice_eq accepts memberChoice (by decide)]

private theorem globalAnnot_reordered_iff :
    SameOutcome (globalAnnot e xs) (globalAnnot e ys) ↔
      ¬ globalRules.Crashes e xs ∧ ¬ globalRules.Crashes e ys := by
  have symmetric : ∀ t t', globalRules.clash t t' = globalRules.clash t' t := by
    intro t t'
    simp only [globalRules, and_comm]
  refine ((globalCollector e).sameOutcome_perm_iff symmetric reordered.perm).trans ?_
  refine and_congr_right' (and_iff_left fun (accepts : globalRules.Accepts e xs) => ?_)
  change Option.map _ (globalSummary _).typ = Option.map _ (globalSummary _).typ
  simp only [globalSummary, reordered.part_eq (e := e) parametersPart (by decide),
    reordered.choice_eq accepts globalChoice (by decide)]

end

/-! ## Laws of attributes -/

/-- A property of each of the five functions from attributes to annotations, and its rules. -/
def ForEachAnnot (e : Earley)
    (P : ∀ V : Type, Rules → (List RcAttr → AnnotM V) → Prop) : Prop :=
  P _ functionRules (functionAnnot e) ∧ P _ structRules (structAnnot e) ∧
    P _ loopRules (loopAnnot e) ∧ P _ memberRules (memberAnnot e) ∧
    P _ globalRules (globalAnnot e)

private theorem forEachAnnot_of_collector
    {P : ∀ V : Type, Rules → (List RcAttr → AnnotM V) → Prop}
    (each : ∀ (V : Type) (collector : Collector e V), P V collector.rules collector.run) :
    ForEachAnnot e P := by
  have member := each _ (memberCollector e)
  rw [memberCollector_run] at member
  exact ⟨each _ (functionCollector e), each _ (structCollector e), each _ (loopCollector e),
    member, each _ (globalCollector e)⟩

/-- Where no list of attributes ends the program, attributes may be reordered across kinds for
loops, members and globals. For functions they may as long as the tactics stay in order, and for
structs as long as `tagged_union` stays last or stays not last. The arguments of a repeatable
kind may be spread over several attributes, and no other kind may be repeated. -/
theorem attribute_laws (e : Earley) :
    (∀ xs ys, Reordered xs ys →
      (SameOutcome (functionAnnot e xs) (functionAnnot e ys) ↔
        ¬ functionRules.Crashes e xs ∧ ¬ functionRules.Crashes e ys ∧
          (functionRules.Accepts e xs → tacticsOf e xs = tacticsOf e ys)) ∧
      (SameOutcome (structAnnot e xs) (structAnnot e ys) ↔
        ¬ structRules.Crashes e xs ∧ ¬ structRules.Crashes e ys ∧
          (structKindRules.Accepts e xs → (TaggedUnionLast xs ↔ TaggedUnionLast ys))) ∧
      (SameOutcome (loopAnnot e xs) (loopAnnot e ys) ↔
        ¬ loopRules.Crashes e xs ∧ ¬ loopRules.Crashes e ys) ∧
      (SameOutcome (memberAnnot e xs) (memberAnnot e ys) ↔
        ¬ memberRules.Crashes e xs ∧ ¬ memberRules.Crashes e ys) ∧
      (SameOutcome (globalAnnot e xs) (globalAnnot e ys) ↔
        ¬ globalRules.Crashes e xs ∧ ¬ globalRules.Crashes e ys)) ∧
    (∀ before after id parts, id ∈ repeatableKinds → parts ≠ [] →
      (∀ args ∈ parts, args ≠ []) →
      ForEachAnnot e fun _ rules annot =>
        (SameOutcome (annot (before ++ ⟨id, parts.flatten⟩ :: after))
            (annot (before ++ (parts.map (RcAttr.mk id) ++ after))) ↔
          ¬ rules.Crashes e (before ++ ⟨id, parts.flatten⟩ :: after) ∧
            ¬ rules.Crashes e (before ++ (parts.map (RcAttr.mk id) ++ after)))) ∧
    (∀ before between after a a', a.id = a'.id → a.id ∉ repeatableKinds →
      ForEachAnnot e fun _ rules annot =>
        ((∃ msg, annot (before ++ a :: (between ++ a' :: after)) = .error (.invalidAnnot msg)) ↔
          ¬ rules.Crashes e (before ++ a :: (between ++ a' :: after)))) := by
  refine ⟨fun xs ys reordered => ?_, ?_, ?_⟩
  · exact ⟨functionAnnot_reordered_iff reordered, structAnnot_reordered_iff reordered,
      loopAnnot_reordered_iff reordered, memberAnnot_reordered_iff reordered,
      globalAnnot_reordered_iff reordered⟩
  · intro before after id parts repeatable several nonempty
    exact forEachAnnot_of_collector fun _ collector =>
      collector.sameOutcome_splits_iff repeatable several nonempty
  · intro before between after a a' sameKind single
    exact forEachAnnot_of_collector fun _ collector =>
      collector.rejects_repeated_iff sameKind single

/-! ## Lists of two attributes -/

/-- Grammars for which a Coq expression is an identifier, and nothing else parses. -/
def identGrammars : Grammars where
  annotContext _ := none
  annotInstantiate _ := none
  annotParameter _ := none
  annotRefine _ := none
  annotTypedef _ := none
  annotSize s := some (.ident s)
  annotExist _ := none
  annotLet _ := none
  annotConstr _ := none
  taggedUnion s := some (.ident s)
  unionTag _ := none
  annotField _ := none
  annotGlobal _ := none
  annotArg _ := none
  annotRequires _ := none
  annotReturns _ := none
  annotEnsures _ := none
  annotInvVar _ := none
  annotArgs _ := none
  annotManual _ := none
  annotUnfoldOrder _ := none

/-- Every text that does not parse is given up at its end. -/
def identParser : Earley := ⟨identGrammars, fun _ arg => .parseError arg.length⟩

private theorem reordered_pair {a a' : RcAttr} (different : a.id ≠ a'.id) :
    Reordered [a, a'] [a', a] := by
  refine ⟨.swap a' a [], fun id => ?_⟩
  by_cases first : a.id = id
  · have second : a'.id ≠ id := fun same => different (first.trans same.symm)
    simp [first, second]
  · simp [List.filter_cons, first]

/-- Attributes whose arguments are not given to a grammar do not crash. -/
theorem not_crashes_of_raw {rules : Rules} {attrs : List RcAttr}
    (raw : ∀ a ∈ attrs, a.id ∈ ["tactics", "lemmas", "trust_me", "immovable"]) :
    ¬ rules.Crashes e attrs := by
  rintro ⟨before, a, after, rfl, -, -, crashes⟩
  have isRaw := raw a (by simp)
  simp only [List.mem_cons, List.not_mem_nil, or_false] at isRaw
  cases crashes with
  | single shape =>
      rcases isRaw with same | same | same | same <;> rw [same] at shape <;> cases shape
  | many shape =>
      rcases isRaw with same | same | same | same <;> rw [same] at shape <;> cases shape

def trustMe : RcAttr := ⟨"trust_me", []⟩

def autoTactics : RcAttr := ⟨"tactics", ["auto.", "lia."]⟩

theorem attribute_laws_trustMe :
    SameOutcome (functionAnnot identParser [trustMe, autoTactics])
        (functionAnnot identParser [autoTactics, trustMe]) ∧
      SameOutcome (functionAnnot identParser [autoTactics])
        (functionAnnot identParser [⟨"tactics", ["auto."]⟩, ⟨"tactics", ["lia."]⟩]) ∧
      ∃ msg, functionAnnot identParser [trustMe, autoTactics, trustMe] =
        .error (.invalidAnnot msg) := by
  obtain ⟨reorder, split, repeated⟩ := attribute_laws identParser
  refine ⟨?_, ?_, ?_⟩
  · exact (reorder _ _ (reordered_pair (by decide))).1.mpr
      ⟨not_crashes_of_raw (by decide), not_crashes_of_raw (by decide), fun _ => rfl⟩
  · exact (split [] [] "tactics" [["auto."], ["lia."]] (by decide) (by decide) (by decide)).1.mpr
      ⟨not_crashes_of_raw (by decide), not_crashes_of_raw (by decide)⟩
  · exact (repeated [] [autoTactics] [] trustMe trustMe rfl (by decide)).1.mpr
      (not_crashes_of_raw (by decide))

/-- A `tagged_union` may come after `immovable` and not before it, and `tactics` and `lemmas`
give their tactics in the order in which they come. An attribute that does not parse at the end
of its argument crashes, unless an attribute before it is refused. -/
theorem attribute_order_matters :
    (∃ xs ys, Reordered xs ys ∧
      ¬ SameOutcome (structAnnot identParser xs) (structAnnot identParser ys)) ∧
    (∃ xs ys, Reordered xs ys ∧
      ¬ SameOutcome (functionAnnot identParser xs) (functionAnnot identParser ys)) ∧
    ∃ xs ys, Reordered xs ys ∧
      ¬ SameOutcome (loopAnnot identParser xs) (loopAnnot identParser ys) := by
  refine ⟨?_, ?_, ?_⟩
  · refine ⟨[⟨"immovable", []⟩, ⟨"tagged_union", ["kind"]⟩],
      [⟨"tagged_union", ["kind"]⟩, ⟨"immovable", []⟩], reordered_pair (by decide), ?_⟩
    rintro (⟨msg, msg', isError, -⟩ | ⟨annot, -, isOk⟩)
    · cases isError
    · cases isOk
  · refine ⟨[⟨"tactics", ["auto."]⟩, ⟨"lemmas", ["foo"]⟩],
      [⟨"lemmas", ["foo"]⟩, ⟨"tactics", ["auto."]⟩], reordered_pair (by decide), ?_⟩
    rintro (⟨msg, msg', isError, -⟩ | ⟨annot, isOk, isOk'⟩)
    · cases isError
    · have tactics := congrArg (fun r => r.toOption.map FunctionAnnot.tactics)
        (isOk.trans isOk'.symm)
      exact absurd tactics (by decide)
  · refine ⟨[⟨"foo", []⟩, ⟨"exists", [""]⟩], [⟨"exists", [""]⟩, ⟨"foo", []⟩],
      reordered_pair (by decide), ?_⟩
    rintro (⟨msg, msg', -, isError⟩ | ⟨annot, isOk, -⟩)
    · cases isError
    · cases isOk

end RefinedC.Frontend
