import RefinedC.Frontend.RcAnnot
import RefinedC.Library.Collect

/-!
Laws of attribute lists.

Source: `frontend/rc_annot.ml` and the remarks on the ordering of attributes in
`ANNOTATIONS.md`.

Owns: the kinds of annotations and what they carry, which attributes are refused
because of what they are or of what came before, which ones end the program, and the laws
that follow when the annotation of a list only depends on what its attributes carry: two
attributes of a repeatable kind are as good as one, and other kinds are not repeated.
-/

namespace RefinedC.Frontend

open Library

/-! ## Kinds of annotations -/

/-- The kind of the attributes that give the annotation. The kinds `tactics` and
`lemmas` give the same annotation. -/
def Annot.tag : Annot → String
  | .context _ => "context"
  | .instantiate _ => "instantiate"
  | .parameters _ => "parameters"
  | .refinedBy _ => "refined_by"
  | .typedef _ => "typedef"
  | .size _ => "size"
  | .exist _ => "exists"
  | .lets _ => "let"
  | .constraint _ => "constraints"
  | .immovable => "immovable"
  | .taggedUnion _ => "tagged_union"
  | .unionTag _ => "union_tag"
  | .field _ => "field"
  | .global _ => "global"
  | .args _ => "args"
  | .requires _ => "requires"
  | .returns _ => "returns"
  | .ensures _ => "ensures"
  | .annot _ => "annot"
  | .assert => "asrt"
  | .invVars _ => "inv_vars"
  | .annotArgs _ => "annot_args"
  | .tactics _ => "tactics"
  | .trustMe => "trust_me"
  | .skip => "skip"
  | .manual _ => "manual_proof"
  | .block => "block"
  | .fullBlock => "full_block"
  | .inlined => "inlined"
  | .unfoldOrder _ => "unfold_order"

def tagOf (id : String) : String := if id = "lemmas" then "tactics" else id

/-- The kinds of attributes with one or more arguments. -/
def repeatableKinds : List String :=
  ["context", "instantiate", "parameters", "refined_by", "exists", "let", "constraints", "args",
    "requires", "ensures", "inv_vars", "annot_args", "tactics", "lemmas"]

/-- An annotation that carries the arguments of two annotations of a repeatable kind. -/
inductive Joins : Annot → Annot → Annot → Prop where
  | context (l l' : List Binder) : Joins (.context (l ++ l')) (.context l) (.context l')
  | instantiate (l l' : List Binder) :
      Joins (.instantiate (l ++ l')) (.instantiate l) (.instantiate l')
  | parameters (l l' : List Binder) :
      Joins (.parameters (l ++ l')) (.parameters l) (.parameters l')
  | refinedBy (l l' : List Binder) : Joins (.refinedBy (l ++ l')) (.refinedBy l) (.refinedBy l')
  | exist (l l' : List Binder) : Joins (.exist (l ++ l')) (.exist l) (.exist l')
  | lets (l l' : List (String × Option CoqExpr × CoqExpr)) :
      Joins (.lets (l ++ l')) (.lets l) (.lets l')
  | constraint (l l' : List Constr) :
      Joins (.constraint (l ++ l')) (.constraint l) (.constraint l')
  | args (l l' : List TypeExpr) : Joins (.args (l ++ l')) (.args l) (.args l')
  | requires (l l' : List Constr) : Joins (.requires (l ++ l')) (.requires l) (.requires l')
  | ensures (l l' : List Constr) : Joins (.ensures (l ++ l')) (.ensures l) (.ensures l')
  | invVars (l l' : List (String × TypeExpr)) :
      Joins (.invVars (l ++ l')) (.invVars l) (.invVars l')
  | annotArgs (l l' : List AnnotArg) : Joins (.annotArgs (l ++ l')) (.annotArgs l) (.annotArgs l')
  | tactics (l l' : List String) : Joins (.tactics (l ++ l')) (.tactics l) (.tactics l')

/-- What the annotations of one kind carry. -/
structure Part (γ : Type) where
  kind : String
  of : Annot → List γ
  ofOther : ∀ b, of b = [] ∨ b.tag = kind
  ofJoin : ∀ b b1 b2, Joins b b1 b2 → of b = of b1 ++ of b2

def Part.value {γ : Type} (part : Part γ) (bs : List Annot) : List γ := bs.flatMap part.of

/-- What an annotation of one of several kinds carries when only one of them may be given. -/
structure Choice (γ : Type) where
  kinds : List String
  of : Annot → Option γ
  ofOther : ∀ b, of b = none ↔ b.tag ∉ kinds
  single : ∀ t ∈ kinds, t ∉ repeatableKinds

/-- What the last annotation of these kinds carries. -/
def Choice.value {γ : Type} (choice : Choice γ) (bs : List Annot) : Option γ :=
  (bs.filterMap choice.of).getLast?

/-! ## Attributes that crash -/

/-- The failure ends the program instead of being reported: the parser gives up at the end of
the argument, or in an antiquotation. -/
def ParseFailure.Crashes (arg : String) : ParseFailure → Prop
  | .parseError pos => arg.length ≤ pos
  | .assertFailure => True

private theorem ParseFailure.exn_eq_assertFailure_iff {arg : String} {failure : ParseFailure} :
    failure.exn arg = .assertFailure ↔ failure.Crashes arg := by
  cases failure with
  | parseError pos =>
      rw [ParseFailure.exn, ParseFailure.Crashes]
      split
      next inside =>
        refine iff_of_false (fun same => ?_) (Nat.not_le.mpr inside)
        cases same
      next outside => exact iff_of_true rfl (Nat.le_of_not_lt outside)
  | assertFailure => exact iff_of_true rfl trivial

/-- The first argument that does not parse crashes. -/
inductive AttrCrashes (e : Earley) (attr : RcAttr) : Prop where
  | single {α arg} {grammar : String → Option α} {c : α → Annot} :
      argShape e.grammars attr.id = .single grammar c → attr.args = [arg] →
      grammar arg = none → (e.failure attr.id arg).Crashes arg → AttrCrashes e attr
  | many {α before arg after} {grammar : String → Option α} {c : List α → Annot} :
      argShape e.grammars attr.id = .many grammar c → attr.args = before ++ arg :: after →
      (∀ arg' ∈ before, (grammar arg').isSome) → grammar arg = none →
      (e.failure attr.id arg).Crashes arg → AttrCrashes e attr

section

variable {α : Type} {e : Earley} {attr : RcAttr} {grammar : String → Option α} {arg : String}

@[simp] theorem invalidAnnot_eq_assertFailure {msg : String} :
    (invalidAnnot attr msg : AnnotM α) = .error .assertFailure ↔ False := by
  simp [invalidAnnot]

private theorem parseArg_eq_ok_iff {a : α} :
    parseArg e attr grammar arg = .ok a ↔ grammar arg = some a := by
  rw [parseArg]
  cases grammar arg <;> simp

private theorem parseArg_eq_assertFailure_iff :
    parseArg e attr grammar arg = .error .assertFailure ↔
      grammar arg = none ∧ (e.failure attr.id arg).Crashes arg := by
  rw [parseArg, ← ParseFailure.exn_eq_assertFailure_iff]
  cases grammar arg <;> simp

private theorem singleArg_eq_assertFailure_iff {c : α → Annot} :
    singleArg e attr grammar c = .error .assertFailure ↔
      ∃ arg, attr.args = [arg] ∧ grammar arg = none ∧
      (e.failure attr.id arg).Crashes arg := by
  obtain ⟨id, args⟩ := attr
  match args with
  | [] | _ :: _ :: _ => simp [singleArg]
  | [arg] => simp [singleArg, map_eq_error, parseArg_eq_assertFailure_iff]

private theorem manyArgs_eq_assertFailure_iff {c : List α → Annot} :
    manyArgs e attr grammar c = .error .assertFailure ↔
      ∃ before arg after, attr.args = before ++ arg :: after ∧
        (∀ arg' ∈ before, (grammar arg').isSome) ∧ grammar arg = none ∧
        (e.failure attr.id arg).Crashes arg := by
  obtain ⟨id, args⟩ := attr
  cases args with
  | nil => simp [manyArgs]
  | cons first args =>
      change c <$> (first :: args).mapM (parseArg e _ grammar) = _ ↔ _
      simp only [map_eq_error, mapM_eq_error, parseArg_eq_ok_iff, parseArg_eq_assertFailure_iff,
        Option.isSome_iff_exists]

end

/-- Parsing an attribute fails an assertion exactly when the first argument that does not parse
crashes. -/
theorem parseAttr_eq_assertFailure_iff {e : Earley} {attr : RcAttr} :
    parseAttr e attr = .error .assertFailure ↔ AttrCrashes e attr := by
  rw [parse_argShape]
  constructor
  · intro crashed
    cases shape : argShape e.grammars attr.id with
    | single grammar c =>
        rw [shape] at crashed
        obtain ⟨arg, args, rejected, crashes⟩ := singleArg_eq_assertFailure_iff.mp crashed
        exact .single shape args rejected crashes
    | many grammar c =>
        rw [shape] at crashed
        obtain ⟨before, arg, after, args, parsed, rejected, crashes⟩ :=
          manyArgs_eq_assertFailure_iff.mp crashed
        exact .many shape args parsed rejected crashes
    | rawSingle c =>
        rw [shape, ArgShape.parse, rawSingleArg] at crashed
        split at crashed <;> simp at crashed
    | rawMany c =>
        rw [shape, ArgShape.parse, rawManyArgs] at crashed
        split at crashed <;> simp at crashed
    | noArgs c =>
        rw [shape, ArgShape.parse, noArgs] at crashed
        split at crashed <;> simp at crashed
    | undefined =>
        rw [shape, ArgShape.parse] at crashed
        simp at crashed
  · intro crashes
    cases crashes with
    | single shape args rejected crash =>
        rw [shape]
        exact singleArg_eq_assertFailure_iff.mpr ⟨_, args, rejected, crash⟩
    | many shape args parsed rejected crash =>
        rw [shape]
        exact manyArgs_eq_assertFailure_iff.mpr ⟨_, _, _, args, parsed, rejected, crash⟩

/-! ## Attributes that parse -/

/-- The annotation of an attribute that parses. -/
def readAttr (e : Earley) (attr : RcAttr) : Option Annot := (parseAttr e attr).toOption

variable {e : Earley}

@[simp] theorem invalidAnnot_eq_ok {α : Type} {attr : RcAttr} {msg : String} {a : α} :
    invalidAnnot attr msg = .ok a ↔ False := by
  simp [invalidAnnot]

/-- A check lets an attribute pass when its condition is not met. -/
@[simp] theorem ite_invalidAnnot_eq_ok {α : Type} {attr : RcAttr} {msg : String} {c : Prop}
    [Decidable c] {x : AnnotM α} {a : α} :
    (if c then invalidAnnot attr msg else x) = .ok a ↔ ¬ c ∧ x = .ok a := by
  by_cases refused : c <;> simp [refused]

@[simp] theorem ite_ok_invalidAnnot_eq_ok {α : Type} {attr : RcAttr} {msg : String} {c : Prop}
    [Decidable c] {x : AnnotM α} {a : α} :
    (if c then x else invalidAnnot attr msg) = .ok a ↔ c ∧ x = .ok a := by
  by_cases passed : c <;> simp [passed]

@[simp] theorem ite_invalidAnnot_eq_assertFailure {α : Type} {attr : RcAttr} {msg : String}
    {c : Prop} [Decidable c] {x : AnnotM α} :
    (if c then invalidAnnot attr msg else x) = .error .assertFailure ↔
      ¬ c ∧ x = .error .assertFailure := by
  by_cases refused : c <;> simp [refused]

@[simp] theorem ite_ok_invalidAnnot_eq_assertFailure {α : Type} {attr : RcAttr} {msg : String}
    {c : Prop} [Decidable c] {x : AnnotM α} :
    (if c then x else invalidAnnot attr msg) = .error .assertFailure ↔
      c ∧ x = .error .assertFailure := by
  by_cases passed : c <;> simp [passed]

private theorem singleArg_tag {α : Type} {attr : RcAttr}
    {grammar : String → Option α} {c : α → Annot}
    {annot : Annot} {t : String} (tag : ∀ a, (c a).tag = t)
    (run : singleArg e attr grammar c = .ok annot) : annot.tag = t := by
  unfold singleArg at run
  split at run
  · obtain ⟨a, -, rfl⟩ := map_eq_ok.mp run
    exact tag a
  · cases run

private theorem manyArgs_tag {α : Type} {attr : RcAttr} {grammar : String → Option α}
    {c : List α → Annot} {annot : Annot} {t : String} (tag : ∀ l, (c l).tag = t)
    (run : manyArgs e attr grammar c = .ok annot) : annot.tag = t := by
  unfold manyArgs at run
  split at run
  · cases run
  · obtain ⟨l, -, rfl⟩ := map_eq_ok.mp run
    exact tag l

private theorem rawSingleArg_tag {attr : RcAttr} {c : String → Annot} {annot : Annot} {t : String}
    (tag : ∀ s, (c s).tag = t) (run : rawSingleArg attr c = .ok annot) : annot.tag = t := by
  unfold rawSingleArg at run
  split at run
  · cases run
    exact tag _
  · cases run

private theorem rawManyArgs_tag {attr : RcAttr} {c : List String → Annot}
    {annot : Annot} {t : String}
    (tag : ∀ l, (c l).tag = t) (run : rawManyArgs attr c = .ok annot) : annot.tag = t := by
  unfold rawManyArgs at run
  split at run
  · cases run
  · cases run
    exact tag _

private theorem noArgs_tag {attr : RcAttr} {c annot : Annot}
    (run : noArgs attr c = .ok annot) : annot.tag = c.tag := by
  unfold noArgs at run
  split at run
  · cases run
    rfl
  · cases run

/-- The kind of an attribute decides what its annotation is. -/
theorem parseAttr_tag {attr : RcAttr} {annot : Annot} (run : parseAttr e attr = .ok annot) :
    annot.tag = tagOf attr.id := by
  unfold parseAttr at run
  split at run
  all_goals first
    | cases run
    | rename_i isKind
      rw [isKind]
      first
        | exact manyArgs_tag (fun _ => rfl) run
        | exact singleArg_tag (fun _ => rfl) run
        | exact rawSingleArg_tag (fun _ => rfl) run
        | exact rawManyArgs_tag (fun _ => rfl) run
        | exact noArgs_tag run

theorem readAttr_tag {attr : RcAttr} {annot : Annot} (isRead : readAttr e attr = some annot) :
    annot.tag = tagOf attr.id := by
  unfold readAttr at isRead
  cases run : parseAttr e attr with
  | error exn =>
      rw [run] at isRead
      cases isRead
  | ok annot' =>
      rw [run] at isRead
      cases isRead
      exact parseAttr_tag run

/-! ## Reordering -/

/-- A permutation that keeps the order of attributes of the same kind. -/
structure Reordered (xs ys : List RcAttr) : Prop where
  perm : xs.Perm ys
  sameKind : ∀ id, xs.filter (fun a => a.id == id) = ys.filter (fun a => a.id == id)

/-- Both raise `Invalid_annot`, or both give the same annotation. -/
def SameOutcome {α : Type} (r r' : AnnotM α) : Prop :=
  (∃ msg msg', r = .error (.invalidAnnot msg) ∧ r' = .error (.invalidAnnot msg')) ∨
    ∃ a, r = .ok a ∧ r' = .ok a

theorem sameOutcome_iff {α : Type} {r r' : AnnotM α} :
    SameOutcome r r' ↔ r ≠ .error .assertFailure ∧ r' ≠ .error .assertFailure ∧
      r.toOption = r'.toOption := by
  rcases r with (⟨msg⟩ | _) | a
  · rcases r' with (⟨msg'⟩ | _) | a' <;> simp [SameOutcome, Except.toOption]
  · simp [SameOutcome]
  · rcases r' with (⟨msg'⟩ | _) | a' <;> simp [SameOutcome, Except.toOption, eq_comm]

/-- Outcomes that are each a condition and a value. -/
theorem toOption_eq_iff_of_iff {α : Type} {r r' : AnnotM α} {accepts accepts' : Prop} {v v' : α}
    (isOk : ∀ a, r = .ok a ↔ accepts ∧ v = a)
    (isOk' : ∀ a, r' = .ok a ↔ accepts' ∧ v' = a) :
    r.toOption = r'.toOption ↔ (accepts ↔ accepts') ∧ (accepts → v = v') := by
  have toOption {s : AnnotM α} {a : α} : s.toOption = some a ↔ s = .ok a := by
    cases s <;> simp [Except.toOption]
  rw [Option.ext_iff]
  simp only [toOption, isOk, isOk']
  constructor
  · intro same
    refine ⟨⟨fun holds => ((same v).mp ⟨holds, rfl⟩).1,
      fun holds => ((same v').mpr ⟨holds, rfl⟩).1⟩,
        fun holds => ((same v).mp ⟨holds, rfl⟩).2.symm⟩
  · rintro ⟨sameAccepts, sameValue⟩ a
    constructor
    · rintro ⟨holds, rfl⟩
      exact ⟨sameAccepts.mp holds, (sameValue holds).symm⟩
    · rintro ⟨holds, rfl⟩
      exact ⟨sameAccepts.mpr holds, sameValue (sameAccepts.mpr holds)⟩

/-- What the attributes of one kind carry is kept by a reordering. -/
theorem Reordered.part_eq {γ : Type} {xs ys : List RcAttr} (reordered : Reordered xs ys)
    (part : Part γ) (notTactics : part.kind ≠ "tactics") :
    part.value (xs.filterMap (readAttr e)) = part.value (ys.filterMap (readAttr e)) := by
  have ofKind : ∀ a annot, (a.id == part.kind) = false → readAttr e a = some annot →
      part.of annot = [] := by
    intro a annot other isRead
    refine (part.ofOther annot).resolve_right fun same => ?_
    rw [readAttr_tag isRead, tagOf] at same
    split at same
    · exact notTactics same.symm
    · rw [same] at other
      simp at other
  rw [Part.value, Part.value, flatMap_filterMap_filter ofKind xs,
    flatMap_filterMap_filter ofKind ys, reordered.sameKind]

/-! ## Splitting -/

/-- Parsing `r` is parsing `r1` and `r2` and joining what they give. -/
structure SplitsInto (r r1 r2 : AnnotM Annot) : Prop where
  split : ∀ b, r = .ok b → ∃ b1 b2, r1 = .ok b1 ∧ r2 = .ok b2 ∧ Joins b b1 b2
  join : ∀ b1 b2, r1 = .ok b1 → r2 = .ok b2 → ∃ b, r = .ok b

private theorem manyArgs_eq_ok_iff {α : Type} {attr : RcAttr} {grammar : String → Option α}
    {c : List α → Annot} {b : Annot} (nonempty : attr.args ≠ []) :
    manyArgs e attr grammar c = .ok b ↔
      ∃ l, attr.args.mapM (parseArg e attr grammar) = .ok l ∧ c l = b := by
  unfold manyArgs
  split
  · rename_i isEmpty
    exact absurd isEmpty nonempty
  · exact map_eq_ok

section

variable {id : String} {args args' : List String} (nonempty : args ≠ [])
  (nonempty' : args' ≠ [])

include nonempty nonempty'

private theorem manyArgs_splits {α : Type} {grammar : String → Option α} {c : List α → Annot}
    (joins : ∀ l l', Joins (c (l ++ l')) (c l) (c l')) :
    SplitsInto (manyArgs e ⟨id, args ++ args'⟩ grammar c) (manyArgs e ⟨id, args⟩ grammar c)
      (manyArgs e ⟨id, args'⟩ grammar c) := by
  have whole : args ++ args' ≠ [] := by simp [nonempty]
  constructor
  · intro b run
    obtain ⟨l, parsed, rfl⟩ := (manyArgs_eq_ok_iff whole).mp run
    rw [List.mapM_append, bind_eq_ok] at parsed
    obtain ⟨l1, first, rest⟩ := parsed
    obtain ⟨l2, second, same⟩ := bind_eq_ok.mp rest
    cases same
    exact ⟨c l1, c l2, (manyArgs_eq_ok_iff nonempty).mpr ⟨l1, first, rfl⟩,
      (manyArgs_eq_ok_iff nonempty').mpr ⟨l2, second, rfl⟩, joins l1 l2⟩
  · intro b1 b2 run1 run2
    obtain ⟨l1, first, rfl⟩ := (manyArgs_eq_ok_iff nonempty).mp run1
    obtain ⟨l2, second, rfl⟩ := (manyArgs_eq_ok_iff nonempty').mp run2
    have first' : args.mapM (parseArg e ⟨id, args ++ args'⟩ grammar) = .ok l1 := first
    have second' : args'.mapM (parseArg e ⟨id, args ++ args'⟩ grammar) = .ok l2 := second
    refine ⟨c (l1 ++ l2), (manyArgs_eq_ok_iff whole).mpr ⟨l1 ++ l2, ?_, rfl⟩⟩
    rw [List.mapM_append, first', ok_bind, second']
    rfl

private theorem rawManyArgs_splits {c : List String → Annot}
    (joins : ∀ l l', Joins (c (l ++ l')) (c l) (c l')) :
    SplitsInto (rawManyArgs ⟨id, args ++ args'⟩ c) (rawManyArgs ⟨id, args⟩ c)
      (rawManyArgs ⟨id, args'⟩ c) := by
  have isOk :
      ∀ args : List String, args ≠ [] → rawManyArgs ⟨id, args⟩ c = .ok (c args) := by
    intro args isNonempty
    cases args with
    | nil => exact absurd rfl isNonempty
    | cons arg args => rfl
  rw [isOk _ (by simp [nonempty]), isOk _ nonempty, isOk _ nonempty']
  constructor
  · rintro b ⟨⟩
    exact ⟨_, _, rfl, rfl, joins args args'⟩
  · intro b1 b2 _ _
    exact ⟨_, rfl⟩

end

/-- Arguments of a repeatable kind may be given by several attributes. -/
theorem parseAttr_splits {id : String} {args args' : List String}
    (repeatable : id ∈ repeatableKinds) (nonempty : args ≠ []) (nonempty' : args' ≠ []) :
    SplitsInto (parseAttr e ⟨id, args ++ args'⟩) (parseAttr e ⟨id, args⟩)
      (parseAttr e ⟨id, args'⟩) := by
  simp only [repeatableKinds, List.mem_cons, List.not_mem_nil, or_false] at repeatable
  rcases repeatable with rfl | rfl | rfl | rfl | rfl | rfl | rfl | rfl | rfl | rfl | rfl | rfl |
    rfl | rfl
  · exact manyArgs_splits nonempty nonempty' .context
  · exact manyArgs_splits nonempty nonempty' .instantiate
  · exact manyArgs_splits nonempty nonempty' .parameters
  · exact manyArgs_splits nonempty nonempty' .refinedBy
  · exact manyArgs_splits nonempty nonempty' .exist
  · exact manyArgs_splits nonempty nonempty' .lets
  · exact manyArgs_splits nonempty nonempty' .constraint
  · exact manyArgs_splits nonempty nonempty' .args
  · exact manyArgs_splits nonempty nonempty' .requires
  · exact manyArgs_splits nonempty nonempty' .ensures
  · exact manyArgs_splits nonempty nonempty' .invVars
  · exact manyArgs_splits nonempty nonempty' .annotArgs
  · exact rawManyArgs_splits nonempty nonempty' .tactics
  · refine rawManyArgs_splits nonempty nonempty' fun l l' => ?_
    rw [annotLemmas, List.map_append]
    exact .tactics _ _

private theorem Joins.tag_eq {b b1 b2 : Annot} (joins : Joins b b1 b2) :
    b1.tag = b.tag ∧ b2.tag = b.tag := by
  cases joins <;> exact ⟨rfl, rfl⟩

theorem Joins.repeatable {b b1 b2 : Annot} (joins : Joins b b1 b2) : b.tag ∈ repeatableKinds := by
  cases joins <;> simp [Annot.tag, repeatableKinds]

/-! ## Rules for lists of attributes -/

/-- Which kinds are allowed, which kinds clash with an earlier one, and after which kinds the
attributes that follow are refused without being parsed. -/
structure Rules where
  allowed : List String
  clash : String → String → Bool
  closing : List String
  clashRepeatable : ∀ t ∈ repeatableKinds, clash t t = false
  clashSingle : ∀ t ∈ allowed, t ∉ repeatableKinds → clash t t = true

namespace Rules

variable (rules : Rules)

def allows (b : Annot) : Bool := rules.allowed.contains b.tag

def clashes (b b' : Annot) : Bool := rules.clash b.tag b'.tag

/-- The attributes all parse, and what they are is accepted. -/
structure Accepts (e : Earley) (attrs : List RcAttr) : Prop where
  readable : ∀ a ∈ attrs, (readAttr e a).isSome
  accepted : Accepted rules.allows rules.clashes (attrs.filterMap (readAttr e))

/-- The attributes end the program: some are accepted, and parsing the one after them
crashes. -/
def Crashes (e : Earley) (attrs : List RcAttr) : Prop :=
  ∃ before a after, attrs = before ++ a :: after ∧ rules.Accepts e before ∧
    (∀ b ∈ before.filterMap (readAttr e), b.tag ∉ rules.closing) ∧ AttrCrashes e a

variable {rules}

theorem accepts_perm_iff (symmetric : ∀ t t', rules.clash t t' = rules.clash t' t)
    {xs ys : List RcAttr} (perm : xs.Perm ys) : rules.Accepts e xs ↔ rules.Accepts e ys := by
  have symmetric' (b b' : Annot) : rules.clashes b b' = rules.clashes b' b := symmetric _ _
  constructor
  · rintro ⟨readable, accepted⟩
    exact ⟨fun a member => readable a (perm.mem_iff.mpr member),
      accepted.perm symmetric' (perm.filterMap _)⟩
  · rintro ⟨readable, accepted⟩
    exact ⟨fun a member => readable a (perm.mem_iff.mp member),
      accepted.perm symmetric' (perm.symm.filterMap _)⟩

/-- Other kinds than the repeatable ones are not repeated. -/
theorem not_accepts_repeated {before between after : List RcAttr} {a a' : RcAttr}
    (sameKind : a.id = a'.id) (single : a.id ∉ repeatableKinds) :
    ¬ rules.Accepts e (before ++ a :: (between ++ a' :: after)) := by
  rintro ⟨readable, accepted⟩
  obtain ⟨b, isRead⟩ := Option.isSome_iff_exists.mp (readable a (by simp))
  obtain ⟨b', isRead'⟩ := Option.isSome_iff_exists.mp (readable a' (by simp))
  have notLemmas : a.id ≠ "lemmas" := by
    rintro isLemmas
    exact single (by simp [isLemmas, repeatableKinds])
  have tag : b.tag = a.id := by rw [readAttr_tag isRead, tagOf, if_neg notLemmas]
  have tag' : b'.tag = a.id := by rw [readAttr_tag isRead', ← sameKind, tagOf, if_neg notLemmas]
  rw [List.filterMap_append, List.filterMap_cons_some isRead, List.filterMap_append,
    List.filterMap_cons_some isRead'] at accepted
  have isAllowed := accepted.allowed b (by simp)
  refine not_accepted_of_clash ?_ accepted
  rw [clashes, tag, tag']
  rw [allows, tag, List.contains_iff_mem] at isAllowed
  exact rules.clashSingle _ isAllowed single

/-- Reading an attribute of a repeatable kind, or the two that it is split into. -/
theorem readAttr_split_cases {id : String} {args args' : List String}
    (repeatable : id ∈ repeatableKinds) (nonempty : args ≠ []) (nonempty' : args' ≠ []) :
    (∃ b b1 b2, readAttr e ⟨id, args ++ args'⟩ = some b ∧
      readAttr e ⟨id, args⟩ = some b1 ∧
        readAttr e ⟨id, args'⟩ = some b2 ∧ Joins b b1 b2) ∨
      (readAttr e ⟨id, args ++ args'⟩ = none ∧
        (readAttr e ⟨id, args⟩ = none ∨ readAttr e ⟨id, args'⟩ = none)) := by
  have splits := parseAttr_splits (e := e) repeatable nonempty nonempty'
  unfold readAttr
  cases run : parseAttr e ⟨id, args ++ args'⟩ with
  | ok b =>
      obtain ⟨b1, b2, run1, run2, joins⟩ := splits.split b run
      rw [run1, run2]
      exact .inl ⟨b, b1, b2, rfl, rfl, rfl, joins⟩
  | error exn =>
      refine .inr ⟨rfl, ?_⟩
      cases run1 : parseAttr e ⟨id, args⟩ with
      | error exn1 => exact .inl rfl
      | ok b1 =>
          cases run2 : parseAttr e ⟨id, args'⟩ with
          | error exn2 => exact .inr rfl
          | ok b2 =>
              obtain ⟨b, isOk⟩ := splits.join b1 b2 run1 run2
              rw [run] at isOk
              cases isOk

private theorem accepted_join_iff {before after : List Annot} {b b1 b2 : Annot}
    (joins : Joins b b1 b2) :
    Accepted rules.allows rules.clashes (before ++ b :: after) ↔
      Accepted rules.allows rules.clashes (before ++ b1 :: b2 :: after) := by
  have sameTag : ∀ b' ∈ [b1, b2], b'.tag = b.tag := by
    intro b' member
    simp only [List.mem_cons, List.not_mem_nil, or_false] at member
    rcases member with rfl | rfl
    · exact joins.tag_eq.1
    · exact joins.tag_eq.2
  refine (accepted_replace_iff [b1, b2] (fun b' member => ?_) (fun b' member c => ?_)
    (fun b' member c => ?_) (rules.clashRepeatable _ joins.repeatable) (by simp)).symm
  · rw [allows, allows, sameTag b' member]
  · rw [clashes, clashes, sameTag b' member]
  · rw [clashes, clashes, sameTag b' member]

end Rules

/-! ## Parts of the meaning -/

section

variable {γ : Type}

theorem Part.value_append (part : Part γ) (bs : List Annot) (b : Annot) :
    part.value (bs ++ [b]) = part.value bs ++ part.of b := by
  simp [Part.value]

theorem Part.value_join (part : Part γ) (before after : List Annot) {b b1 b2 : Annot}
    (joins : Joins b b1 b2) :
    part.value (before ++ b :: after) = part.value (before ++ b1 :: b2 :: after) := by
  simp [Part.value, part.ofJoin b b1 b2 joins]

theorem Choice.value_append (choice : Choice γ) (bs : List Annot) (b : Annot) :
    choice.value (bs ++ [b]) = (choice.of b).or (choice.value bs) := by
  rw [Choice.value, Choice.value, List.filterMap_append, List.getLast?_append]
  cases isPart : choice.of b with
  | none => rw [List.filterMap_cons_none isPart]; rfl
  | some c => rw [List.filterMap_cons_some isPart]; rfl

theorem Choice.value_eq_none_iff (choice : Choice γ) {bs : List Annot} :
    choice.value bs = none ↔ ∀ b ∈ bs, b.tag ∉ choice.kinds := by
  rw [Choice.value, List.getLast?_eq_none_iff, List.filterMap_eq_nil_iff]
  exact forall₂_congr fun b _ => choice.ofOther b

theorem Choice.value_join (choice : Choice γ) (before after : List Annot) {b b1 b2 : Annot}
    (joins : Joins b b1 b2) :
    choice.value (before ++ b :: after) = choice.value (before ++ b1 :: b2 :: after) := by
  have none : ∀ b', b'.tag = b.tag → choice.of b' = none := by
    intro b' sameTag
    rw [choice.ofOther, sameTag]
    exact fun isKind => choice.single _ isKind joins.repeatable
  simp only [Choice.value, List.filterMap_append, List.filterMap_cons_none (none b rfl),
    List.filterMap_cons_none (none b1 joins.tag_eq.1),
    List.filterMap_cons_none (none b2 joins.tag_eq.2)]

/-- Of kinds that clash with each other, a list has only one, wherever it stands. -/
theorem Reordered.choice_eq {xs ys : List RcAttr} (reordered : Reordered xs ys) {rules : Rules}
    (accepts : rules.Accepts e xs) (choice : Choice γ)
    (clash : ∀ t ∈ choice.kinds, ∀ t' ∈ choice.kinds, rules.clash t t' = true) :
    choice.value (xs.filterMap (readAttr e)) = choice.value (ys.filterMap (readAttr e)) := by
  have perm := (reordered.perm.filterMap (readAttr e)).filterMap choice.of
  have short : ((xs.filterMap (readAttr e)).filterMap choice.of).length ≤ 1 := by
    rw [List.filterMap_eq_flatMap_toList]
    refine length_flatMap_le_one (fun b => ?_) (accepts.accepted.noClash.imp ?_)
    · cases choice.of b <;> simp
    · intro b b' noClash
      by_contra both
      simp only [Option.toList_eq_nil_iff, choice.ofOther, not_or, not_not] at both
      rw [Rules.clashes, clash _ both.1 _ both.2] at noClash
      cases noClash
  rw [Choice.value, Choice.value, eq_of_perm_of_length_le_one perm short]

end

/-! ## Annotations of lists of attributes -/

/-- A function from attributes to annotations whose outcome only depends on whether the
attributes are accepted, on whether they crash, and on what they carry. -/
structure Collector (e : Earley) (V : Type) where
  run : List RcAttr → AnnotM V
  rules : Rules
  meaning : List Annot → V
  run_eq_ok_iff : ∀ attrs v, run attrs = .ok v ↔
    rules.Accepts e attrs ∧ meaning (attrs.filterMap (readAttr e)) = v
  run_crashes_iff : ∀ attrs, run attrs = .error .assertFailure ↔ rules.Crashes e attrs
  meaning_join : ∀ before after b b1 b2, Joins b b1 b2 →
    meaning (before ++ b :: after) = meaning (before ++ b1 :: b2 :: after)

/-- An attribute is taken when the rules say so, and it then adds what it carries. It crashes
when it is parsed and its parsing does. -/
structure Rules.Steps (e : Earley) (rules : Rules) {S : Type} (handle : S → RcAttr → AnnotM S)
    (summary : List Annot → S) : Prop where
  ok : ∀ bs attr s', Accepted rules.allows rules.clashes bs →
    (handle (summary bs) attr = .ok s' ↔
      ∃ b, readAttr e attr = some b ∧
        (rules.allows b = true ∧ ∀ b' ∈ bs, rules.clashes b' b = false) ∧
          summary (bs ++ [b]) = s')
  crash : ∀ bs attr, Accepted rules.allows rules.clashes bs →
    (handle (summary bs) attr = .error .assertFailure ↔
      (∀ b ∈ bs, b.tag ∉ rules.closing) ∧ AttrCrashes e attr)

section

variable {rules : Rules} {S : Type} {handle : S → RcAttr → AnnotM S}
  {summary : List Annot → S}

/-- A handler that fails where the attribute does not parse is judged on parsed attributes. -/
theorem Rules.Steps.of_parsed
    (fails : ∀ s attr exn s', parseAttr e attr = .error exn → handle s attr ≠ .ok s')
    (steps : ∀ bs attr b s', Accepted rules.allows rules.clashes bs →
      parseAttr e attr = .ok b →
      (handle (summary bs) attr = .ok s' ↔
        (rules.allows b = true ∧ ∀ b' ∈ bs, rules.clashes b' b = false) ∧
          summary (bs ++ [b]) = s'))
    (crash : ∀ bs attr, Accepted rules.allows rules.clashes bs →
      (handle (summary bs) attr = .error .assertFailure ↔
        (∀ b ∈ bs, b.tag ∉ rules.closing) ∧ parseAttr e attr = .error .assertFailure)) :
    rules.Steps e handle summary := by
  constructor
  · intro bs attr s' accepted
    unfold readAttr
    cases run : parseAttr e attr with
    | error exn =>
        apply iff_of_false (fails _ _ exn s' run)
        rintro ⟨b, isRead, -⟩
        cases isRead
    | ok b =>
        rw [steps bs attr b s' accepted run]
        simp only [Except.toOption, Option.some.injEq, exists_eq_left']
  · intro bs attr accepted
    rw [crash bs attr accepted, parseAttr_eq_assertFailure_iff]

variable (steps : rules.Steps e handle summary)

include steps

private theorem Rules.Steps.foldlM_eq_ok_iff {attrs : List RcAttr} {s : S} :
    attrs.foldlM handle (summary []) = .ok s ↔
      rules.Accepts e attrs ∧ s = summary (attrs.filterMap (readAttr e)) := by
  rw [foldlM_collect_iff steps.ok]
  constructor
  · rintro ⟨readable, accepted, isSummary⟩
    exact ⟨⟨readable, accepted⟩, isSummary⟩
  · rintro ⟨⟨readable, accepted⟩, isSummary⟩
    exact ⟨readable, accepted, isSummary⟩

private theorem Rules.Steps.foldlM_crashes_iff {attrs : List RcAttr} :
    attrs.foldlM handle (summary []) = .error .assertFailure ↔ rules.Crashes e attrs := by
  rw [foldlM_eq_error]
  constructor
  · rintro ⟨before, a, after, s, split, run, crashed⟩
    obtain ⟨accepts, rfl⟩ := steps.foldlM_eq_ok_iff.mp run
    exact ⟨before, a, after, split, accepts, (steps.crash _ a accepts.accepted).mp crashed⟩
  · rintro ⟨before, a, after, split, accepts, crashes⟩
    exact ⟨before, a, after, _, split, steps.foldlM_eq_ok_iff.mpr ⟨accepts, rfl⟩,
      (steps.crash _ a accepts.accepted).mpr crashes⟩

end

namespace Collector

/-- Attributes handled one after the other. -/
def ofSteps {S V : Type} {rules : Rules} {handle : S → RcAttr → AnnotM S}
    {summary : List Annot → S} (steps : rules.Steps e handle summary) (finish : S → V)
    (join : ∀ before after b b1 b2, Joins b b1 b2 →
      finish (summary (before ++ b :: after)) = finish (summary (before ++ b1 :: b2 :: after))) :
    Collector e V where
  run attrs := finish <$> attrs.foldlM handle (summary [])
  rules := rules
  meaning bs := finish (summary bs)
  run_eq_ok_iff attrs v := by
    simp only [map_eq_ok, steps.foldlM_eq_ok_iff]
    constructor
    · rintro ⟨s, ⟨accepts, rfl⟩, isFinal⟩
      exact ⟨accepts, isFinal⟩
    · rintro ⟨accepts, isFinal⟩
      exact ⟨_, ⟨accepts, rfl⟩, isFinal⟩
  run_crashes_iff attrs := by
    rw [map_eq_error]
    exact steps.foldlM_crashes_iff
  meaning_join := join

variable {V : Type} (collector : Collector e V)

theorem toOption_eq_iff (xs ys : List RcAttr) :
    (collector.run xs).toOption = (collector.run ys).toOption ↔
      (collector.rules.Accepts e xs ↔ collector.rules.Accepts e ys) ∧
        (collector.rules.Accepts e xs → collector.meaning (xs.filterMap (readAttr e)) =
          collector.meaning (ys.filterMap (readAttr e))) :=
  toOption_eq_iff_of_iff (collector.run_eq_ok_iff xs) (collector.run_eq_ok_iff ys)

theorem sameOutcome_iff (xs ys : List RcAttr) :
    SameOutcome (collector.run xs) (collector.run ys) ↔
      ¬ collector.rules.Crashes e xs ∧ ¬ collector.rules.Crashes e ys ∧
        (collector.run xs).toOption = (collector.run ys).toOption := by
  rw [Frontend.sameOutcome_iff, ne_eq, ne_eq, collector.run_crashes_iff,
    collector.run_crashes_iff]

/-- Without a direction in the clashes, a reordering only matters for crashes and the
meaning. -/
theorem sameOutcome_perm_iff
    (symmetric : ∀ t t', collector.rules.clash t t' = collector.rules.clash t' t)
    {xs ys : List RcAttr} (perm : xs.Perm ys) :
    SameOutcome (collector.run xs) (collector.run ys) ↔
      ¬ collector.rules.Crashes e xs ∧ ¬ collector.rules.Crashes e ys ∧
        (collector.rules.Accepts e xs → collector.meaning (xs.filterMap (readAttr e)) =
          collector.meaning (ys.filterMap (readAttr e))) := by
  rw [collector.sameOutcome_iff, collector.toOption_eq_iff,
    and_iff_right (Rules.accepts_perm_iff symmetric perm)]

private theorem isInvalid_iff_of_not_accepts {attrs : List RcAttr}
    (refused : ¬ collector.rules.Accepts e attrs) :
    (∃ msg, collector.run attrs = .error (.invalidAnnot msg)) ↔
      ¬ collector.rules.Crashes e attrs := by
  rw [← collector.run_crashes_iff]
  rcases run : collector.run attrs with (msg | _) | v
  · simp
  · simp
  · exact absurd ((collector.run_eq_ok_iff attrs v).mp run).1 refused

/-- Repeating a kind that is not repeatable is rejected, unless something crashes. -/
theorem rejects_repeated_iff {before between after : List RcAttr} {a a' : RcAttr}
    (sameKind : a.id = a'.id) (single : a.id ∉ repeatableKinds) :
    (∃ msg, collector.run (before ++ a :: (between ++ a' :: after)) =
        .error (.invalidAnnot msg)) ↔
      ¬ collector.rules.Crashes e (before ++ a :: (between ++ a' :: after)) :=
  collector.isInvalid_iff_of_not_accepts (Rules.not_accepts_repeated sameKind single)

private theorem toOption_run_split (before after : List RcAttr) {id : String}
    {args args' : List String}
    (repeatable : id ∈ repeatableKinds) (nonempty : args ≠ []) (nonempty' : args' ≠ []) :
    (collector.run (before ++ ⟨id, args ++ args'⟩ :: after)).toOption =
      (collector.run (before ++ ⟨id, args⟩ :: ⟨id, args'⟩ :: after)).toOption := by
  rw [collector.toOption_eq_iff]
  rcases Rules.readAttr_split_cases (e := e) repeatable nonempty nonempty' with
    ⟨b, b1, b2, isRead, isRead1, isRead2, joins⟩ | ⟨unread, unreadPart⟩
  · have whole : (before ++ ⟨id, args ++ args'⟩ :: after).filterMap (readAttr e) =
        before.filterMap (readAttr e) ++ b :: after.filterMap (readAttr e) := by
      rw [List.filterMap_append, List.filterMap_cons_some isRead]
    have parts : (before ++ ⟨id, args⟩ :: ⟨id, args'⟩ :: after).filterMap (readAttr e) =
        before.filterMap (readAttr e) ++ b1 :: b2 :: after.filterMap (readAttr e) := by
      rw [List.filterMap_append, List.filterMap_cons_some isRead1,
        List.filterMap_cons_some isRead2]
    constructor
    · constructor
      · rintro ⟨readable, accepted⟩
        refine ⟨?_, ?_⟩
        · simp only [List.forall_mem_append, List.forall_mem_cons] at readable ⊢
          exact ⟨readable.1, by simp [isRead1], by simp [isRead2], readable.2.2⟩
        · rw [whole] at accepted
          rw [parts]
          exact (Rules.accepted_join_iff joins).mp accepted
      · rintro ⟨readable, accepted⟩
        refine ⟨?_, ?_⟩
        · simp only [List.forall_mem_append, List.forall_mem_cons] at readable ⊢
          exact ⟨readable.1, by simp [isRead], readable.2.2.2⟩
        · rw [parts] at accepted
          rw [whole]
          exact (Rules.accepted_join_iff joins).mpr accepted
    · intro _
      rw [whole, parts]
      exact collector.meaning_join _ _ _ _ _ joins
  · have refused : ¬ collector.rules.Accepts e (before ++ ⟨id, args ++ args'⟩ :: after) := by
      intro accepts
      have isSome := accepts.readable ⟨id, args ++ args'⟩ (by simp)
      simp [unread] at isSome
    have refused' :
        ¬ collector.rules.Accepts e (before ++ ⟨id, args⟩ :: ⟨id, args'⟩ :: after) := by
      intro accepts
      have isSome := accepts.readable ⟨id, args⟩ (by simp)
      have isSome' := accepts.readable ⟨id, args'⟩ (by simp)
      rcases unreadPart with none | none <;> simp [none] at isSome isSome'
    exact ⟨iff_of_false refused refused', fun accepts => absurd accepts refused⟩

private theorem toOption_run_splits {before after : List RcAttr} {id : String}
    (repeatable : id ∈ repeatableKinds) (first : List String) (others : List (List String))
    (nonempty : ∀ args ∈ first :: others, args ≠ []) :
    (collector.run (before ++ ⟨id, (first :: others).flatten⟩ :: after)).toOption =
      (collector.run (before ++ ((first :: others).map (RcAttr.mk id) ++ after))).toOption := by
  induction others generalizing before first with
  | nil =>
      rw [List.flatten_singleton]
      rfl
  | cons second others inductionHypothesis =>
      have rest := @inductionHypothesis (before ++ [⟨id, first⟩]) second
        fun args member => nonempty args (List.mem_cons_of_mem _ member)
      have nonemptyRest : (second :: others).flatten ≠ [] := by
        rw [List.flatten_cons]
        exact List.append_ne_nil_of_left_ne_nil (nonempty second (by simp)) _
      have split := collector.toOption_run_split before after repeatable
        (nonempty first (by simp)) nonemptyRest
      simp only [List.append_assoc, List.singleton_append] at rest
      rw [List.flatten_cons, List.map_cons]
      exact split.trans rest

/-- Arguments of a repeatable kind may be spread over consecutive attributes, unless something
crashes. -/
theorem sameOutcome_splits_iff {before after : List RcAttr} {id : String}
    (repeatable : id ∈ repeatableKinds) {parts : List (List String)} (several : parts ≠ [])
    (nonempty : ∀ args ∈ parts, args ≠ []) :
    SameOutcome (collector.run (before ++ ⟨id, parts.flatten⟩ :: after))
        (collector.run (before ++ (parts.map (RcAttr.mk id) ++ after))) ↔
      ¬ collector.rules.Crashes e (before ++ ⟨id, parts.flatten⟩ :: after) ∧
        ¬ collector.rules.Crashes e (before ++ (parts.map (RcAttr.mk id) ++ after)) := by
  obtain ⟨first, others, rfl⟩ := List.exists_cons_of_ne_nil several
  rw [collector.sameOutcome_iff, collector.toOption_run_splits repeatable first others nonempty]
  simp only [and_true]

end Collector

end RefinedC.Frontend
