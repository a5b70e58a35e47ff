import Mathlib.Data.List.DropRight
import Mathlib.Tactic.Common
import RefinedC.Frontend.ImportText
import RefinedC.Library.Fallible

/-!
Annotations in special comments.

Source: `frontend/comment_annot.ml`.

Owns: the classification of lines, the parsing of annotations, and the fact that it
keeps every payload and every line of a block, in its place.

Does not own: the forms of imports, and the grammar of typedefs, which is a parameter.
-/

namespace RefinedC.Frontend.CommentAnnot

/-! ## Lines -/

inductive AnnotLine where
  | annot (name : String) (payload : Option String)
  | comm (s : String)
  | none

/-- Blanks of `String.trim`. -/
def isTrimBlank (c : Char) : Bool := c ∈ [' ', '\x0c', '\n', '\r', '\t']

def trimChars (s : List Char) : List Char :=
  ((s.dropWhile isTrimBlank).reverse.dropWhile isTrimBlank).reverse

def trim (s : String) : String := String.ofList (trimChars s.toList)

def readLine (s : String) : AnnotLine :=
  match scanLiteral "//@rc::".toList s.toList with
  | some s =>
      let (name, s) := scanString s
      let payload := trim (String.ofList s)
      .annot (String.ofList name) (if payload = "" then .none else some payload)
  | .none =>
      match scanLiteral "//@".toList s.toList with
      | some s => .comm (String.ofList s)
      | .none => .none

/-- What a line of the source is. -/
inductive IsLine (s : String) : AnnotLine → Prop where
  | annot {name rest : List Char} {p : String} (text : s.toList = "//@rc::".toList ++ name ++ rest)
      (noBlank : NoBlank name) (ends : WordEnds rest) (payload : p = trim (String.ofList rest))
      (present : p ≠ "") : IsLine s (.annot (String.ofList name) (some p))
  | bare {name rest : List Char} (text : s.toList = "//@rc::".toList ++ name ++ rest)
      (noBlank : NoBlank name) (ends : WordEnds rest) (missing : trim (String.ofList rest) = "") :
      IsLine s (.annot (String.ofList name) .none)
  | comm {rest : List Char} (text : s.toList = "//@".toList ++ rest)
      (notAnnot : ¬ "//@rc::".toList <+: s.toList) : IsLine s (.comm (String.ofList rest))
  | none (other : ¬ "//@".toList <+: s.toList) : IsLine s .none

private theorem readLine_isLine (s : String) : IsLine s (readLine s) := by
  have noLiteral {word : List Char} (scanned : scanLiteral word s.toList = Option.none) :
      ¬ word <+: s.toList := by
    rintro ⟨rest, isText⟩
    rw [scanLiteral_eq_some_iff.mpr isText.symm] at scanned
    cases scanned
  unfold readLine
  split
  · rename_i rest scanned
    have isText := scanLiteral_eq_some_iff.mp scanned
    obtain ⟨name, rest', rfl, noBlank, ends, isName⟩ := exists_scanString rest
    rw [← List.append_assoc] at isText
    simp only [isName]
    split
    · rename_i missing
      exact .bare isText noBlank ends missing
    · rename_i present
      exact .annot isText noBlank ends rfl present
  · rename_i notAnnot
    split
    · rename_i rest scanned
      exact .comm (scanLiteral_eq_some_iff.mp scanned) (noLiteral notAnnot)
    · rename_i other
      exact .none (noLiteral other)

private theorem readLine_eq_iff {s : String} {l : AnnotLine} : readLine s = l ↔ IsLine s l := by
  constructor
  · rintro rfl
    exact readLine_isLine s
  · intro isLine
    have annot {name rest : List Char} (text : s.toList = "//@rc::".toList ++ name ++ rest)
        (noBlank : NoBlank name) (ends : WordEnds rest) :
        readLine s = .annot (String.ofList name)
          (if trim (String.ofList rest) = "" then Option.none
            else some (trim (String.ofList rest))) := by
      rw [List.append_assoc] at text
      rw [readLine, scanLiteral_eq_some_iff.mpr text]
      simp only [scanString_append noBlank ends]
    have noLiteral {word : List Char} (notPrefix : ¬ word <+: s.toList) :
        scanLiteral word s.toList = Option.none := by
      rw [scanLiteral, if_neg (mt List.isPrefixOf_iff_prefix.mp notPrefix)]
    cases isLine with
    | annot text noBlank ends payload present =>
        subst payload
        rw [annot text noBlank ends, if_neg present]
    | bare text noBlank ends missing => rw [annot text noBlank ends, if_pos missing]
    | comm text notAnnot =>
        rw [readLine, noLiteral notAnnot, scanLiteral_eq_some_iff.mpr text]
    | none other =>
        have notAnnot : ¬ "//@rc::".toList <+: s.toList := fun isPrefix =>
          other
            ((show "//@".toList <+: "//@rc::".toList from ⟨"rc::".toList, rfl⟩).trans isPrefix)
        rw [readLine, noLiteral notAnnot, noLiteral other]

/-! ## Annotations -/

structure InlinedCode where
  icPrelude : List String
  icSection : List String
  icFinal : List String

structure CommentAnnots (τ : Type) where
  caInlined : InlinedCode
  caRequires : List String
  caImports : List (String × String)
  caProofImports : List (String × String)
  caCodeImports : List (String × String)
  caContext : List String
  caTypedefs : List τ

/-- The references of `parse_annots`. The newest element comes first. -/
structure Refs (τ : Type) where
  imports : List (String × String × Where)
  requires : List String
  inlined : List String
  inlinedTop : List String
  inlinedEnd : List String
  typedefs : List τ
  context : List String

/-- Where inlined code goes. -/
inductive InlinedKind where
  | sectionCode
  | preludeCode
  | finalCode
deriving DecidableEq

def InlinedKind.name : InlinedKind → String
  | .sectionCode => "inlined"
  | .preludeCode => "inlined_prelude"
  | .finalCode => "inlined_final"

def InlinedKind.ofName : String → Option InlinedKind
  | "inlined" => some .sectionCode
  | "inlined_prelude" => some .preludeCode
  | "inlined_final" => some .finalCode
  | _ => none

def annotError {α : Type} (message : String) : Except String α :=
  .error ("Comment annotation error: " ++ message ++ ".")

/-- The lines of a block, the newest one first, and what follows the block. -/
def readBlock (startTag : String) (acc : List String) :
    List AnnotLine → Except String (List String × List AnnotLine)
  | .comm s :: ls => readBlock startTag (s :: acc) ls
  | .annot "end" none :: ls => .ok (acc, ls)
  | .annot "end" (some _) :: _ => annotError "[rc::end] does not expect a payload"
  | .annot _ _ :: _ => annotError ("unclosed [rc::" ++ startTag ++ "] annotation")
  | .none :: _ => annotError "interrupted block"
  | [] => annotError ("unclosed [rc::" ++ startTag ++ "] annotation")

/-- Lines of an annotation for inlined code, and what follows it. -/
def readInlined (n : String) (p : Option String) (ls : List AnnotLine) :
    Except String (List String × List AnnotLine) :=
  match p with
  | some s => .ok ([s], ls)
  | none => readBlock n [] ls

def getPayload (n : String) : Option String → Except String String
  | some s => .ok s
  | none => annotError ("annotation [rc::" ++ n ++ "] expects a payload")

section

variable {τ : Type}

def Refs.addInlined (refs : Refs τ) (lines : List String) : InlinedKind → Refs τ
  | .sectionCode => { refs with inlined := lines ++ refs.inlined }
  | .preludeCode => { refs with inlinedTop := lines ++ refs.inlinedTop }
  | .finalCode => { refs with inlinedEnd := lines ++ refs.inlinedEnd }

/-- An annotation of one line that is not for inlined code. -/
def Refs.addAnnot (readTypedef : String → Option τ) (refs : Refs τ) (n : String)
    (p : Option String) : Except String (Refs τ) :=
  match n with
  | "end" => annotError "no block has been started"
  | "import" => do
      match readImport (← getPayload n p) with
      | some i => .ok { refs with imports := i :: refs.imports }
      | none => annotError ("invalid [rc::" ++ n ++ "] annotation")
  | "require" => do
      let s ← getPayload n p
      .ok { refs with requires := trim s :: refs.requires }
  | "typedef" => do
      match readTypedef (← getPayload n p) with
      | some t => .ok { refs with typedefs := t :: refs.typedefs }
      | none => annotError "invalid [rc::typedef] annotation"
  | "context" => do
      let s ← getPayload n p
      .ok { refs with context := s :: refs.context }
  | _ => annotError ("unknown annotation [rc::" ++ n ++ "]")

private theorem readBlock_length {startTag : String} {acc lines : List String}
    {ls rest : List AnnotLine}
    (run : readBlock startTag acc ls = .ok (lines, rest)) : rest.length ≤ ls.length := by
  fun_induction readBlock startTag acc ls with
  | case1 acc s ls inductionHypothesis => exact Nat.le_succ_of_le (inductionHypothesis run)
  | case2 acc ls =>
      cases run
      exact Nat.le_succ _
  | _ => cases run

private theorem readInlined_length {n : String} {p : Option String} {lines : List String}
    {ls rest : List AnnotLine} (run : readInlined n p ls = .ok (lines, rest)) :
    rest.length ≤ ls.length := by
  cases p with
  | none => exact readBlock_length run
  | some s =>
      cases run
      exact Nat.le_refl _

def parseLoop (readTypedef : String → Option τ) (refs : Refs τ) :
    List AnnotLine → Except String (Refs τ)
  | [] => .ok refs
  | .none :: ls => parseLoop readTypedef refs ls
  | .comm _ :: _ => annotError "no block has been started"
  | .annot n p :: ls =>
      match InlinedKind.ofName n with
      | some k =>
          match _found : readInlined n p ls with
          | .error e => .error e
          | .ok (lines, rest) => parseLoop readTypedef (refs.addInlined lines k) rest
      | none =>
          match refs.addAnnot readTypedef n p with
          | .error e => .error e
          | .ok refs => parseLoop readTypedef refs ls
termination_by ls => ls.length
decreasing_by
  · simp
  · have := readInlined_length _found
    simp only [List.length_cons]
    omega
  · simp

def Refs.importsOf (refs : Refs τ) (w : Where) : List (String × String) :=
  (refs.imports.reverse.filter fun i => i.2.2 = w).map fun i => (i.1, i.2.1)

/-- The record built from the references. -/
def Refs.annots (refs : Refs τ) : CommentAnnots τ where
  caInlined := ⟨refs.inlinedTop.reverse, refs.inlined.reverse, refs.inlinedEnd.reverse⟩
  caProofImports := refs.importsOf .proofsOnly
  caCodeImports := refs.importsOf .codeOnly
  caImports := refs.importsOf .default
  caRequires := refs.requires.reverse
  caContext := refs.context.reverse
  caTypedefs := refs.typedefs.reverse

def parseAnnots (readTypedef : String → Option τ) (ls : List String) :
    Except String (CommentAnnots τ) := do
  let refs ← parseLoop readTypedef ⟨[], [], [], [], [], [], []⟩ (ls.map readLine)
  .ok refs.annots

/-! ## Well-formed annotations -/

/-- A piece of a well-formed list of lines. -/
inductive AnnotItem (τ : Type) where
  | other
  | inlined (k : InlinedKind) (p : String)
  | block (k : InlinedKind) (lines : List String)
  | importOf (p : String) (i : String × String × Where)
  | require (p : String)
  | typedef (p : String) (t : τ)
  | context (p : String)

namespace AnnotItem

def lines : AnnotItem τ → List AnnotLine
  | .other => [.none]
  | .inlined k p => [.annot k.name (some p)]
  | .block k lines => .annot k.name none :: (lines.map .comm ++ [.annot "end" none])
  | .importOf p _ => [.annot "import" (some p)]
  | .require p => [.annot "require" (some p)]
  | .typedef p _ => [.annot "typedef" (some p)]
  | .context p => [.annot "context" (some p)]

/-- The payload is what its kind demands. -/
def Valid (readTypedef : String → Option τ) : AnnotItem τ → Prop
  | .importOf p (frm, modName, w) => IsImport p frm modName w
  | .typedef p t => readTypedef p = some t
  | _ => True

/-- Inlined code of a kind. -/
@[simp]
def code (k : InlinedKind) : AnnotItem τ → List String
  | .inlined k' p => if k' = k then [p] else []
  | .block k' lines => if k' = k then lines else []
  | _ => []

/-- Import of a kind. -/
@[simp]
def importIn (w : Where) : AnnotItem τ → List (String × String)
  | .importOf _ (frm, modName, w') => if w' = w then [(frm, modName)] else []
  | _ => []

@[simp]
def requires : AnnotItem τ → List String
  | .require p => [p]
  | _ => []

@[simp]
def contexts : AnnotItem τ → List String
  | .context p => [p]
  | _ => []

@[simp]
def typedefs : AnnotItem τ → List τ
  | .typedef _ t => [t]
  | _ => []

/-- The payloads and lines of every kind, in their order. -/
def collect (items : List (AnnotItem τ)) : CommentAnnots τ where
  caInlined := ⟨items.flatMap (code .preludeCode), items.flatMap (code .sectionCode),
    items.flatMap (code .finalCode)⟩
  caRequires := items.flatMap requires
  caImports := items.flatMap (importIn .default)
  caProofImports := items.flatMap (importIn .proofsOnly)
  caCodeImports := items.flatMap (importIn .codeOnly)
  caContext := items.flatMap contexts
  caTypedefs := items.flatMap typedefs

/-- What the item adds to the references. -/
@[simp]
def apply (refs : Refs τ) : AnnotItem τ → Refs τ
  | .other => refs
  | .inlined k p => refs.addInlined [p] k
  | .block k lines => refs.addInlined lines.reverse k
  | .importOf _ i => { refs with imports := i :: refs.imports }
  | .require p => { refs with requires := trim p :: refs.requires }
  | .typedef _ t => { refs with typedefs := t :: refs.typedefs }
  | .context p => { refs with context := p :: refs.context }

end AnnotItem

/-! ## Blocks -/

private theorem ofName_eq_some {n : String} {k : InlinedKind} :
    InlinedKind.ofName n = some k ↔ n = k.name := by
  constructor
  · intro isKind
    unfold InlinedKind.ofName at isKind
    split at isKind <;> cases isKind <;> rfl
  · rintro rfl
    cases k <;> rfl

private theorem readBlock_lines (startTag : String) (acc lines : List String)
    (ls : List AnnotLine) :
    readBlock startTag acc (lines.map .comm ++ .annot "end" none :: ls) =
      .ok (lines.reverse ++ acc, ls) := by
  induction lines generalizing acc with
  | nil => rfl
  | cons s lines inductionHypothesis =>
      rw [List.map_cons, List.cons_append, readBlock, inductionHypothesis, List.reverse_cons,
        List.append_assoc]
      rfl

private theorem readBlock_ok {startTag : String} {acc found : List String}
    {ls rest : List AnnotLine} (run : readBlock startTag acc ls = .ok (found, rest)) :
    ∃ lines : List String,
      ls = lines.map .comm ++ .annot "end" none :: rest ∧ found = lines.reverse ++ acc := by
  fun_induction readBlock startTag acc ls with
  | case1 acc s ls inductionHypothesis =>
      obtain ⟨lines, rfl, rfl⟩ := inductionHypothesis run
      exact ⟨s :: lines, rfl, by simp⟩
  | case2 acc ls =>
      cases run
      exact ⟨[], rfl, rfl⟩
  | _ => cases run

/-! ## One item -/

variable {readTypedef : String → Option τ} {refs refs' : Refs τ}

private theorem parseLoop_nil : parseLoop readTypedef refs [] = .ok refs := by
  rw [parseLoop]

private theorem parseLoop_none (ls : List AnnotLine) :
    parseLoop readTypedef refs (.none :: ls) = parseLoop readTypedef refs ls := by
  rw [parseLoop]

private theorem parseLoop_inlined {k : InlinedKind} {p : Option String} {lines : List String}
    {ls rest : List AnnotLine} (run : readInlined k.name p ls = .ok (lines, rest)) :
    parseLoop readTypedef refs (.annot k.name p :: ls) =
      parseLoop readTypedef (refs.addInlined lines k) rest := by
  rw [parseLoop, ofName_eq_some.2 rfl]
  simp only
  split
  next found => simp [run] at found
  next found =>
    rw [run] at found
    cases found
    rfl

private theorem parseLoop_annot {n : String} {p : Option String} {ls : List AnnotLine}
    (notInlined : InlinedKind.ofName n = none)
    (added : refs.addAnnot readTypedef n p = .ok refs') :
    parseLoop readTypedef refs (.annot n p :: ls) = parseLoop readTypedef refs' ls := by
  rw [parseLoop, notInlined]
  simp only [added]

/-- The lines of an item are read as a whole. -/
theorem parseLoop_item {item : AnnotItem τ} (valid : item.Valid readTypedef)
    (ls : List AnnotLine) :
    parseLoop readTypedef refs (item.lines ++ ls) = parseLoop readTypedef (item.apply refs) ls := by
  cases item with
  | other => exact parseLoop_none ls
  | inlined k p => exact parseLoop_inlined rfl
  | block k lines =>
      refine parseLoop_inlined ?_
      have read := readBlock_lines k.name [] lines ls
      rw [List.append_nil] at read
      simpa [readInlined] using read
  | importOf p i =>
      refine parseLoop_annot rfl ?_
      have isImport : readImport p = some i := readImport_eq_some_iff.mpr valid
      simp only [Refs.addAnnot, getPayload, bind, Except.bind, isImport]
      rfl
  | require p => exact parseLoop_annot rfl rfl
  | typedef p t =>
      refine parseLoop_annot rfl ?_
      have isTypedef : readTypedef p = some t := valid
      simp only [Refs.addAnnot, getPayload, bind, Except.bind, isTypedef]
      rfl
  | context p => exact parseLoop_annot rfl rfl

/-! ## Runs -/

private theorem parseLoop_items {items : List (AnnotItem τ)}
    (valid : ∀ item ∈ items, item.Valid readTypedef) :
    parseLoop readTypedef refs (items.flatMap AnnotItem.lines) =
      .ok (items.foldl AnnotItem.apply refs) := by
  induction items generalizing refs with
  | nil => exact parseLoop_nil
  | cons item items inductionHypothesis =>
      rw [List.flatMap_cons, parseLoop_item (valid item (.head _)),
        inductionHypothesis fun i isItem => valid i (.tail _ isItem), List.foldl_cons]

/-- Inlined code that is read is an item. -/
theorem readInlined_ok {k : InlinedKind} {p : Option String} {found : List String}
    {ls rest : List AnnotLine} (run : readInlined k.name p ls = .ok (found, rest)) :
    ∃ item : AnnotItem τ, item.Valid readTypedef ∧
      .annot k.name p :: ls = item.lines ++ rest ∧
      ∀ refs : Refs τ, refs.addInlined found k = item.apply refs := by
  cases p with
  | some s =>
      cases run
      exact ⟨.inlined k s, trivial, rfl, fun _ => rfl⟩
  | none =>
      obtain ⟨lines, rfl, rfl⟩ := readBlock_ok run
      refine ⟨.block k lines, trivial, ?_, fun refs => ?_⟩
      · simp [AnnotItem.lines]
      · rw [List.append_nil]
        rfl

private theorem getPayload_ok {n s : String} {p : Option String} (run : getPayload n p = .ok s) :
    p = some s := by
  cases p with
  | none => cases run
  | some s' =>
      cases run
      rfl

/-- An annotation that is added is an item. -/
theorem addAnnot_ok {n : String} {p : Option String}
    (run : refs.addAnnot readTypedef n p = .ok refs') :
    ∃ item : AnnotItem τ, item.Valid readTypedef ∧ [.annot n p] = item.lines ∧
      refs' = item.apply refs := by
  unfold Refs.addAnnot at run
  split at run
  · cases run
  · obtain ⟨s, isPayload, added⟩ := Library.bind_eq_ok.1 run
    cases getPayload_ok isPayload
    cases isImport : readImport s with
    | none => simp [isImport, annotError] at added
    | some i =>
        simp only [isImport, Except.ok.injEq] at added
        exact ⟨.importOf s i, readImport_eq_some_iff.mp isImport, rfl, added.symm⟩
  · obtain ⟨s, isPayload, added⟩ := Library.bind_eq_ok.1 run
    cases getPayload_ok isPayload
    cases added
    exact ⟨.require s, trivial, rfl, rfl⟩
  · obtain ⟨s, isPayload, added⟩ := Library.bind_eq_ok.1 run
    cases getPayload_ok isPayload
    cases isTypedef : readTypedef s with
    | none => simp [isTypedef, annotError] at added
    | some t =>
        simp only [isTypedef, Except.ok.injEq] at added
        exact ⟨.typedef s t, isTypedef, rfl, added.symm⟩
  · obtain ⟨s, isPayload, added⟩ := Library.bind_eq_ok.1 run
    cases getPayload_ok isPayload
    cases added
    exact ⟨.context s, trivial, rfl, rfl⟩
  · cases run

/-- Lines that are read are the lines of items. -/
theorem parseLoop_ok {ls : List AnnotLine} (run : parseLoop readTypedef refs ls = .ok refs') :
    ∃ items : List (AnnotItem τ), ls = items.flatMap AnnotItem.lines ∧
      (∀ item ∈ items, item.Valid readTypedef) ∧
        refs' = items.foldl AnnotItem.apply refs := by
  fun_induction parseLoop readTypedef refs ls with
  | case1 refs =>
      cases run
      exact ⟨[], rfl, nofun, rfl⟩
  | case2 refs ls inductionHypothesis =>
      obtain ⟨items, rfl, valid, rfl⟩ := inductionHypothesis run
      exact ⟨.other :: items, rfl, List.forall_mem_cons.2 ⟨trivial, valid⟩, rfl⟩
  | case5 refs n p ls k isKind found rest isRead inductionHypothesis =>
      cases ofName_eq_some.1 isKind
      obtain ⟨items, rfl, valid, rfl⟩ := inductionHypothesis run
      obtain ⟨item, isValid, isLines, added⟩ := readInlined_ok isRead
      refine ⟨item :: items, ?_, List.forall_mem_cons.2 ⟨isValid, valid⟩, ?_⟩
      · rw [isLines, List.flatMap_cons]
      · rw [added, List.foldl_cons]
  | case7 refs n p ls _ added isAdded inductionHypothesis =>
      obtain ⟨items, rfl, valid, rfl⟩ := inductionHypothesis run
      obtain ⟨item, isValid, isLines, rfl⟩ := addAnnot_ok isAdded
      refine ⟨item :: items, ?_, List.forall_mem_cons.2 ⟨isValid, valid⟩, rfl⟩
      rw [List.flatMap_cons, ← isLines]
      rfl
  | _ => cases run

/-! ## Payloads -/

/-- `String.trim` trims at once. -/
theorem trim_trim (s : String) : trim (trim s) = trim s := by
  have trimmed (s : List Char) : trimChars (trimChars s) = trimChars s := by
    have noStart : (trimChars s).dropWhile isTrimBlank = trimChars s := by
      cases isTrimmed : trimChars s with
      | nil => rfl
      | cons c rest =>
          -- The first character is that of the text without its first blanks.
          obtain ⟨suffix, isPrefix⟩ := List.rdropWhile_prefix isTrimBlank
            (l := s.dropWhile isTrimBlank)
          have isStart : s.dropWhile isTrimBlank = c :: (rest ++ suffix) := by
            rw [← isPrefix]
            exact congrArg (· ++ suffix) isTrimmed
          have notBlank := List.head_dropWhile_not isTrimBlank (l := s) (by simp [isStart])
          simp only [isStart, List.head_cons] at notBlank
          simp [notBlank]
    calc trimChars (trimChars s)
        = ((trimChars s).dropWhile isTrimBlank).rdropWhile isTrimBlank := rfl
      _ = (trimChars s).rdropWhile isTrimBlank := by rw [noStart]
      _ = trimChars s := List.rdropWhile_idempotent _ _
  simp [trim, trimmed]

private theorem readLine_trim {s n p : String} (isAnnot : readLine s = .annot n (some p)) :
    trim p = p := by
  unfold readLine at isAnnot
  split at isAnnot
  · simp only [AnnotLine.annot.injEq, Option.ite_none_left_eq_some, Option.some.injEq] at isAnnot
    obtain ⟨-, -, rfl⟩ := isAnnot
    exact trim_trim _
  · split at isAnnot <;> cases isAnnot

/-- What an item adds is in the record, at the end of its kind. -/
theorem annots_apply {item : AnnotItem τ} {items : List (AnnotItem τ)}
    (trimmed : ∀ p, item = .require p → trim p = p)
    (collected : refs.annots = AnnotItem.collect items) :
    (item.apply refs).annots = AnnotItem.collect (items ++ [item]) := by
  simp only [Refs.annots, Refs.importsOf, AnnotItem.collect, CommentAnnots.mk.injEq,
    InlinedCode.mk.injEq] at collected ⊢
  obtain ⟨⟨top, sectionCode, final⟩, requires, imports, proofImports, codeImports, context,
    typedefs⟩ := collected
  simp only [List.flatMap_append, List.flatMap_singleton, ← top, ← sectionCode, ← final,
    ← requires, ← imports, ← proofImports, ← codeImports, ← context, ← typedefs]
  cases item with
  | inlined k p => cases k <;> simp [Refs.addInlined]
  | block k lines => cases k <;> simp [Refs.addInlined]
  | importOf p i =>
      obtain ⟨frm, modName, w⟩ := i
      cases w <;> simp
  | require p => simp [trimmed p rfl]
  | _ => simp

private theorem annots_items {items : List (AnnotItem τ)} (done : List (AnnotItem τ))
    (trimmed : ∀ p, .require p ∈ items → trim p = p)
    (collected : refs.annots = AnnotItem.collect done) :
    (items.foldl AnnotItem.apply refs).annots = AnnotItem.collect (done ++ items) := by
  induction items generalizing refs done with
  | nil => simpa using collected
  | cons item items inductionHypothesis =>
      have isFirst (p : String) (isItem : item = .require p) : trim p = p :=
        trimmed p (isItem ▸ .head _)
      have first := annots_apply isFirst collected
      have others := inductionHypothesis _ (fun p isItem => trimmed p (.tail _ isItem)) first
      rwa [List.append_assoc, List.singleton_append] at others

/-- Payloads that come from lines of the source are trimmed. -/
theorem require_trim {lines : List String} {items : List (AnnotItem τ)}
    (isLines : lines.map readLine = items.flatMap AnnotItem.lines) {p : String}
    (isItem : .require p ∈ items) : trim p = p := by
  have isLine : .annot "require" (some p) ∈ lines.map readLine := by
    rw [isLines]
    exact List.mem_flatMap.2 ⟨_, isItem, .head _⟩
  obtain ⟨s, -, isAnnot⟩ := List.mem_map.1 isLine
  exact readLine_trim isAnnot

/-- The annotations are parsed exactly when the lines are those of well-formed items. Then
the record holds the payloads and lines of every kind, in their order. -/
theorem parseAnnots_iff (readTypedef : String → Option τ) (lines : List String)
    (annots : CommentAnnots τ) :
    parseAnnots readTypedef lines = .ok annots ↔
      ∃ items : List (AnnotItem τ), List.Forall₂ IsLine lines
        (items.flatMap AnnotItem.lines) ∧
        (∀ item ∈ items, item.Valid readTypedef) ∧ annots = AnnotItem.collect items := by
  have isLines_iff (ls : List AnnotLine) : List.Forall₂ IsLine lines ls ↔
      lines.map readLine = ls := by
    rw [← List.forall₂_eq_eq_eq, List.forall₂_map_left_iff]
    simp only [readLine_eq_iff]
  simp only [isLines_iff]
  have collects {items : List (AnnotItem τ)}
      (isLines : lines.map readLine = items.flatMap AnnotItem.lines) :
      (items.foldl AnnotItem.apply ⟨[], [], [], [], [], [], []⟩).annots =
        AnnotItem.collect items :=
    annots_items [] (fun _ isItem => require_trim isLines isItem) rfl
  constructor
  · intro run
    obtain ⟨refs, isParsed, isAnnots⟩ := Library.bind_eq_ok.1 run
    obtain ⟨items, isLines, valid, rfl⟩ := parseLoop_ok isParsed
    cases isAnnots
    exact ⟨items, isLines, valid, collects isLines⟩
  · rintro ⟨items, isLines, valid, rfl⟩
    refine Library.bind_eq_ok.2 ⟨_, ?_, congrArg Except.ok (collects isLines)⟩
    rw [isLines]
    exact parseLoop_items valid

end

end RefinedC.Frontend.CommentAnnot
