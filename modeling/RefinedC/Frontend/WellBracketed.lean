import RefinedC.Frontend.RcAnnot
import RefinedC.Library.Nesting

/-!
Quoted terms.

Source: `well_bracketed`, `coq_term` and `iris_term` of `frontend/rc_annot.ml`.

Owns: the scanner for quoted terms, the quoted terms that it accepts when nothing is
escaped, and what it makes of escaped quotes.

Does not own: the grammar of antiquotations, which is a parameter. A character stands for
a byte of the input.
-/

namespace RefinedC.Frontend

open Library

/-! ## Scanner -/

/-- What is read at the end of the input, `'\255'`. -/
def eofChar : Char := Char.ofNat 255

/-- Delimiters of quoted terms. -/
structure Delims where
  op : Char
  cl : Char
  differ : op ≠ cl
  plainOp : op ∉ ['!', '\\', eofChar]
  plainCl : cl ∉ ['!', '\\', eofChar, '{']

def braces : Delims := ⟨'{', '}', by decide, by decide, by decide⟩

def brackets : Delims := ⟨'[', ']', by decide, by decide, by decide⟩

inductive ScanState where
  | init (i : Nat)
  | bang (i : Nat)
  | anti (k i : Nat)

inductive ScanError where
  | giveUp
  | assertFalse
deriving DecidableEq

/-- A character that is read again in the state `init` after a `!`. -/
def ScanState.rank : ScanState → Nat
  | .bang _ => 1
  | _ => 0

section

variable {α : Type} (d : Delims) (antiGr : String → Option α)

/-- The elements are collected in reverse, and `str` is the current text. -/
def scanLoop (state : ScanState) (elts : List (QuotElt α)) (str input : List Char) :
    Except ScanError (List (QuotElt α) × List Char) :=
  match input with
  | [] => .error .giveUp
  | c :: next =>
      if c = eofChar then .error .giveUp
      else if c = '\\' then
        if next.headD eofChar ∈ [eofChar, '"', '\\'] then scanLoop state elts str next
        else .error .giveUp
      else
        match state with
        | .init i =>
            if c = d.op then scanLoop (.init (i + 1)) elts (str ++ [c]) next
            else if c = d.cl then
              if i = 1 then .ok ((.plain (String.ofList str) :: elts).reverse, next)
              else scanLoop (.init (i - 1)) elts (str ++ [c]) next
            else if c = '!' then scanLoop (.bang i) elts str next
            else scanLoop (.init i) elts (str ++ [c]) next
        | .bang i =>
            if c = '{' then scanLoop (.anti 1 i) (.plain (String.ofList str) :: elts) [] next
            else scanLoop (.init i) elts (str ++ ['!']) (c :: next)
        | .anti k i =>
            if c = '{' then scanLoop (.anti (k + 1) i) elts (str ++ [c]) next
            else if c = '}' then
              if k = 1 then
                match antiGr (String.ofList str) with
                | none => .error .assertFalse
                | some e => scanLoop (.init i) (.anti e :: elts) [] next
              else scanLoop (.anti (k - 1) i) elts (str ++ [c]) next
            else scanLoop (.anti k i) elts (str ++ [c]) next
termination_by (input.length, state.rank)
decreasing_by all_goals simp [Prod.lex_def, ScanState.rank]

def wellBracketed : List Char → Except ScanError (List (QuotElt α) × List Char)
  | [] => .error .giveUp
  | c :: input => if c = d.op then scanLoop d antiGr (.init 1) [] [] input else .error .giveUp

def coqTerm : List Char → Except ScanError (List (QuotElt α) × List Char) :=
  wellBracketed braces antiGr

def irisTerm : List Char → Except ScanError (List (QuotElt α) × List Char) :=
  wellBracketed brackets antiGr

end

/-! ## Quoted terms without escapes -/

/-- Text of an element as it is written. -/
def unparseElt : QuotElt String → List Char
  | .plain p => p.toList
  | .anti t => '!' :: '{' :: t.toList ++ ['}']

def unparse (raw : List (QuotElt String)) : List Char := raw.flatMap unparseElt

/-- The characters outside of antiquotations. -/
def outside (raw : List (QuotElt String)) : List Char :=
  raw.flatMap fun
    | .plain p => p.toList
    | .anti _ => []

/-- Plain elements and antiquotations alternate, with plain ones at both ends. -/
def Alternates {α : Type} : List (QuotElt α) → Prop
  | [.plain _] => True
  | .plain _ :: .anti _ :: elts => Alternates elts
  | _ => False

/-- What can stand behind `i` opening delimiters before the last closing one. -/
structure Delimited (d : Delims) (i : Nat) (raw : List (QuotElt String)) : Prop where
  alternates : Alternates raw
  plain : ∀ p, .plain p ∈ raw → ¬ ['!', '{'] <:+: p.toList
  anti : ∀ t, .anti t ∈ raw → Balanced '{' '}' t.toList
  nesting : Nested d.op d.cl i (outside raw)

/-- An antiquotation is parsed. -/
inductive ParsedTo {α : Type} (antiGr : String → Option α) :
    QuotElt String → QuotElt α → Prop where
  | plain {p} : ParsedTo antiGr (.plain p) (.plain p)
  | anti {t e} : antiGr t = some e → ParsedTo antiGr (.anti t) (.anti e)

/-- No character is a backslash or the end of the input. -/
def Unescaped (s : List Char) : Prop := ∀ c ∈ s, c ≠ eofChar ∧ c ≠ '\\'

/-- The texts that the scanner accepts from the state `init i`: plain text `p`, and the
elements after it. -/
inductive Body (d : Delims) : Nat → List Char → List (QuotElt String) → Prop where
  | nil : Body d 1 [] []
  | op {i p tail} : 0 < i → Body d (i + 1) p tail → Body d i (d.op :: p) tail
  | cl {i p tail} : Body d i p tail → Body d (i + 1) (d.cl :: p) tail
  | bang {i p tail} : p.head? ≠ some '{' → Body d i p tail → Body d i ('!' :: p) tail
  | char {i c p tail} : c ≠ d.op → c ≠ d.cl → c ≠ '!' → Body d i p tail →
      Body d i (c :: p) tail
  | anti {i t p tail} : Nested '{' '}' 1 t.toList → Body d i p tail →
      Body d i [] (.anti t :: .plain (String.ofList p) :: tail)

section

variable {d : Delims} {i : Nat} {p : List Char} {tail : List (QuotElt String)}

theorem Body.pos (body : Body d i p tail) : 0 < i := by
  induction body with
  | nil => exact Nat.one_pos
  | op pos => exact pos
  | cl => exact Nat.succ_pos _
  | bang _ _ pos | char _ _ _ _ pos | anti _ _ pos => exact pos

private theorem delims_op_ne_bang (d : Delims) : '!' ≠ d.op := by
  have := d.plainOp
  simp only [List.mem_cons, not_or] at this
  exact fun same => this.1 same.symm

private theorem delims_cl_ne_bang (d : Delims) : '!' ≠ d.cl := by
  have := d.plainCl
  simp only [List.mem_cons, not_or] at this
  exact fun same => this.1 same.symm

/-- A character in front of the first plain text. -/
theorem Delimited.cons {j : Nat} {c : Char} (notOpen : c = '!' → p.head? ≠ some '{')
    (nested : ∀ {cs}, Nested d.op d.cl j cs → Nested d.op d.cl i (c :: cs))
    (delimited : Delimited d j (.plain (String.ofList p) :: tail)) :
    Delimited d i (.plain (String.ofList (c :: p)) :: tail) := by
  refine ⟨?_, fun q member => ?_, fun t member => ?_, ?_⟩
  · have alternates := delimited.alternates
    cases tail with
    | nil => trivial
    | cons elt tail =>
        cases elt with
        | plain q => exact alternates
        | anti t => exact alternates
  · rcases List.mem_cons.mp member with same | member
    · cases same
      have first := delimited.plain _ List.mem_cons_self
      rw [String.toList_ofList] at first ⊢
      rw [List.infix_cons_iff, not_or]
      refine ⟨fun isPrefix => ?_, first⟩
      obtain ⟨isBang, ⟨rest, isOpen⟩⟩ := List.cons_prefix_cons.mp isPrefix
      exact notOpen isBang.symm (by rw [← isOpen]; rfl)
    · exact delimited.plain q (List.mem_cons_of_mem _ member)
  · rcases List.mem_cons.mp member with same | member
    · cases same
    · exact delimited.anti t (List.mem_cons_of_mem _ member)
  · have nesting := delimited.nesting
    simp only [outside, List.flatMap_cons, String.toList_ofList] at nesting ⊢
    exact nested nesting

private theorem Body.delimited (body : Body d i p tail) :
    Delimited d i (.plain (String.ofList p) :: tail) := by
  induction body with
  | nil =>
      refine ⟨trivial, fun q member => ?_, fun t member => ?_, nested_nil.mpr rfl⟩
      · cases List.mem_singleton.mp member
        simp
      · cases List.mem_singleton.mp member
  | op pos _ delimited =>
      exact .cons (fun same => absurd same.symm (delims_op_ne_bang d))
        (fun nested => (nested_cons_op d.differ).mpr ⟨pos, nested⟩) delimited
  | cl _ delimited =>
      exact .cons (fun same => absurd same.symm (delims_cl_ne_bang d))
        (fun nested => (nested_cons_cl d.differ).mpr nested) delimited
  | bang notOpen _ delimited =>
      exact .cons (fun _ => notOpen)
        (fun nested => (nested_cons_other (delims_op_ne_bang d) (delims_cl_ne_bang d)).mpr nested)
        delimited
  | char notOp notCl notBang _ delimited =>
      exact .cons (fun same => absurd same notBang)
        (fun nested => (nested_cons_other notOp notCl).mpr nested) delimited
  | anti nested _ delimited =>
      refine ⟨delimited.alternates, fun q member => ?_, fun t member => ?_, ?_⟩
      · rcases List.mem_cons.mp member with same | member
        · cases same
          simp
        · rcases List.mem_cons.mp member with same | member
          · cases same
          · exact delimited.plain q member
      · rcases List.mem_cons.mp member with same | member
        · cases same
        · rcases List.mem_cons.mp member with same | member
          · cases same
            exact nested_one_iff.mp nested
          · exact delimited.anti t member
      · exact delimited.nesting

/-- Plain text in front of an element that is accepted at every nesting. -/
theorem body_of_plain (noBang : ¬ ['!', '{'] <:+: p)
    (nested : Nested d.op d.cl i (p ++ outside tail))
    (rest : ∀ j, Nested d.op d.cl j (outside tail) → Body d j [] tail) : Body d i p tail := by
  induction p generalizing i with
  | nil => exact rest i nested
  | cons c p inductionHypothesis =>
      rw [List.infix_cons_iff, not_or] at noBang
      rw [List.cons_append] at nested
      by_cases isOp : c = d.op
      · subst isOp
        obtain ⟨pos, nested⟩ := (nested_cons_op d.differ).mp nested
        exact .op pos (inductionHypothesis noBang.2 nested)
      · by_cases isCl : c = d.cl
        · subst isCl
          obtain ⟨i, rfl⟩ := Nat.exists_eq_succ_of_ne_zero (Nat.ne_of_gt nested.pos)
          exact .cl (inductionHypothesis noBang.2 ((nested_cons_cl d.differ).mp nested))
        · have body := inductionHypothesis noBang.2 ((nested_cons_other isOp isCl).mp nested)
          by_cases isBang : c = '!'
          · subst isBang
            refine .bang (fun isOpen => noBang.1 ?_) body
            obtain ⟨p', rfl⟩ := List.head?_eq_some_iff.mp isOpen
            exact ⟨p', rfl⟩
          · exact .char isOp isCl isBang body

theorem Delimited.body : ∀ {p : String} {tail : List (QuotElt String)} {i : Nat},
    Delimited d i (.plain p :: tail) → Body d i p.toList tail
  | p, [], i, delimited => by
      refine body_of_plain (delimited.plain p List.mem_cons_self) delimited.nesting
        fun j nested => ?_
      rw [nested_nil.mp nested]
      exact .nil
  | p, .plain q :: tail, i, delimited => delimited.alternates.elim
  | p, [.anti t], i, delimited => delimited.alternates.elim
  | p, .anti t :: .anti t' :: tail, i, delimited => delimited.alternates.elim
  | p, .anti t :: .plain q :: tail, i, delimited => by
      refine body_of_plain (delimited.plain p List.mem_cons_self) delimited.nesting
        fun j nested => ?_
      have rest : Delimited d j (.plain q :: tail) :=
        ⟨delimited.alternates,
          fun r member => delimited.plain r
            (List.mem_cons_of_mem _ (List.mem_cons_of_mem _ member)),
          fun r member => delimited.anti r (List.mem_cons_of_mem _ (List.mem_cons_of_mem _ member)),
          nested⟩
      have body := Body.anti (nested_one_iff.mpr (delimited.anti t (by simp))) rest.body
      rwa [String.ofList_toList] at body

/-! ## Steps of the scanner -/

variable {α : Type} {antiGr : String → Option α} {elts res : List (QuotElt α)}
  {str next rest : List Char} {c : Char} {k : Nat}

private theorem scanLoop_init (notEof : c ≠ eofChar) (notEscape : c ≠ '\\') :
    scanLoop d antiGr (.init i) elts str (c :: next) =
      if c = d.op then scanLoop d antiGr (.init (i + 1)) elts (str ++ [c]) next
      else if c = d.cl then
        if i = 1 then .ok ((.plain (String.ofList str) :: elts).reverse, next)
        else scanLoop d antiGr (.init (i - 1)) elts (str ++ [c]) next
      else if c = '!' then scanLoop d antiGr (.bang i) elts str next
      else scanLoop d antiGr (.init i) elts (str ++ [c]) next := by
  rw [scanLoop.eq_def]
  simp only [if_neg notEof, if_neg notEscape]

private theorem scanLoop_bang (notEof : c ≠ eofChar) (notEscape : c ≠ '\\') :
    scanLoop d antiGr (.bang i) elts str (c :: next) =
      if c = '{' then scanLoop d antiGr (.anti 1 i) (.plain (String.ofList str) :: elts) [] next
      else scanLoop d antiGr (.init i) elts (str ++ ['!']) (c :: next) := by
  rw [scanLoop.eq_def]
  simp only [if_neg notEof, if_neg notEscape]

private theorem scanLoop_anti (notEof : c ≠ eofChar) (notEscape : c ≠ '\\') :
    scanLoop d antiGr (.anti k i) elts str (c :: next) =
      if c = '{' then scanLoop d antiGr (.anti (k + 1) i) elts (str ++ [c]) next
      else if c = '}' then
        if k = 1 then
          match antiGr (String.ofList str) with
          | none => .error .assertFalse
          | some e => scanLoop d antiGr (.init i) (.anti e :: elts) [] next
        else scanLoop d antiGr (.anti (k - 1) i) elts (str ++ [c]) next
      else scanLoop d antiGr (.anti k i) elts (str ++ [c]) next := by
  rw [scanLoop.eq_def]
  simp only [if_neg notEof, if_neg notEscape]

/-- A backslash in front of a quote is skipped. -/
theorem scanLoop_quote (state : ScanState) :
    scanLoop d antiGr state elts str ('\\' :: '"' :: next) =
      scanLoop d antiGr state elts str ('"' :: next) := by
  rw [scanLoop.eq_def]
  simp only [if_neg (show '\\' ≠ eofChar by decide), if_pos]
  rw [if_pos (by simp)]

/-! ## Accepted texts -/

private theorem unescaped_cons {s : List Char} :
    Unescaped (c :: s) ↔ (c ≠ eofChar ∧ c ≠ '\\') ∧ Unescaped s :=
  List.forall_mem_cons

private theorem unescaped_append {s s' : List Char} :
    Unescaped (s ++ s') ↔ Unescaped s ∧ Unescaped s' :=
  List.forall_mem_append

private theorem delims_cl (d : Delims) : d.cl ≠ eofChar ∧ d.cl ≠ '\\' ∧ d.cl ≠ '{' := by
  have := d.plainCl
  simp only [List.mem_cons, not_or] at this
  exact ⟨this.2.2.1, this.2.1, this.2.2.2.1⟩

/-- `s` is `t` with backslashes in front of some quotes. -/
inductive Escapes : List Char → List Char → Prop where
  | nil : Escapes [] []
  | char {c s t} : Escapes s t → Escapes (c :: s) (c :: t)
  | quote {s t} : Escapes s t → Escapes ('\\' :: '"' :: s) ('"' :: t)

theorem Escapes.refl : ∀ s : List Char, Escapes s s
  | [] => .nil
  | _ :: s => .char (.refl s)

/-- The scanner reads the first character, whether it is escaped or not. -/
theorem Escapes.uncons (d : Delims) (antiGr : String → Option α) {s t : List Char}
    (escapes : Escapes s (c :: t)) : ∃ s', Escapes s' t ∧ ∀ state elts str after,
      scanLoop d antiGr state elts str (s ++ after) =
        scanLoop d antiGr state elts str (c :: (s' ++ after)) := by
  cases escapes with
  | char rest => exact ⟨_, rest, fun _ _ _ _ => rfl⟩
  | quote rest => exact ⟨_, rest, fun state _ _ _ => scanLoop_quote state⟩

/-- After a `!` that opens no antiquotation, what follows is read again. -/
theorem scanLoop_bang_plain {s t after : List Char} (escapes : Escapes s t)
    (unescaped : Unescaped t) (notOpen : t.head? ≠ some '{')
    (isAfter : ∃ c next, after = c :: next ∧ c ≠ eofChar ∧ c ≠ '\\' ∧ c ≠ '{') :
    scanLoop d antiGr (.bang i) elts str (s ++ after) =
      scanLoop d antiGr (.init i) elts (str ++ ['!']) (s ++ after) := by
  cases t with
  | nil =>
      cases escapes
      obtain ⟨c, next, rfl, notEof, notEscape, notOpen⟩ := isAfter
      rw [List.nil_append, scanLoop_bang notEof notEscape, if_neg notOpen]
  | cons c t =>
      obtain ⟨s', -, same⟩ := escapes.uncons d antiGr
      obtain ⟨⟨notEof, notEscape⟩, -⟩ := unescaped_cons.mp unescaped
      rw [same, same, scanLoop_bang notEof notEscape, if_neg (by simpa using notOpen)]

/-- The text of an antiquotation is read up to its closing brace. -/
theorem scanLoop_text {t : List Char} {e : α} (nested : Nested '{' '}' k t)
    (unescaped : Unescaped t) (parsed : antiGr (String.ofList (str ++ t)) = some e) :
    scanLoop d antiGr (.anti k i) elts str (t ++ '}' :: next) =
      scanLoop d antiGr (.init i) (.anti e :: elts) [] next := by
  induction t generalizing k str with
  | nil =>
      rw [List.append_nil] at parsed
      rw [List.nil_append, scanLoop_anti (by decide) (by decide), if_neg (by decide), if_pos rfl,
        if_pos (nested_nil.mp nested), parsed]
  | cons c t inductionHypothesis =>
      obtain ⟨⟨notEof, notEscape⟩, unescapedRest⟩ := unescaped_cons.mp unescaped
      have parsedRest : antiGr (String.ofList (str ++ [c] ++ t)) = some e := by
        rwa [List.append_assoc, List.singleton_append]
      rw [List.cons_append, scanLoop_anti notEof notEscape]
      by_cases isOpen : c = '{'
      · subst isOpen
        obtain ⟨-, nestedRest⟩ := (nested_cons_op (by decide)).mp nested
        rw [if_pos rfl, inductionHypothesis nestedRest unescapedRest parsedRest]
      · rw [if_neg isOpen]
        by_cases isClose : c = '}'
        · subst isClose
          obtain ⟨k, rfl⟩ := Nat.exists_eq_succ_of_ne_zero (Nat.ne_of_gt nested.pos)
          have nestedRest := (nested_cons_cl (by decide)).mp nested
          have notLast : k.succ ≠ 1 := fun same => absurd (Nat.succ.inj same)
            (Nat.ne_of_gt nestedRest.pos)
          rw [if_pos rfl, if_neg notLast, Nat.succ_sub_one,
            inductionHypothesis nestedRest unescapedRest parsedRest]
        · have nestedRest := (nested_cons_other isOpen isClose).mp nested
          rw [if_neg isClose, inductionHypothesis nestedRest unescapedRest parsedRest]

/-- What follows a plain text starts with a closing delimiter or an antiquotation. -/
theorem Body.after (body : Body d i p tail) :
    ∃ c next, unparse tail ++ d.cl :: rest = c :: next ∧
    c ≠ eofChar ∧ c ≠ '\\' ∧ c ≠ '{' := by
  induction body with
  | nil => exact ⟨d.cl, rest, rfl, delims_cl d⟩
  | op _ _ after | cl _ after | bang _ _ after | char _ _ _ _ after => exact after
  | anti => exact ⟨'!', _, rfl, by decide, by decide, by decide⟩

/-- Accepted texts are read, also when some quotes of the first one are escaped. -/
theorem Body.accepted {s : List Char} {elts' : List (QuotElt α)} (body : Body d i p tail)
    (escapes : Escapes s p) (unescaped : Unescaped (p ++ unparse tail))
    (parsed : List.Forall₂ (ParsedTo antiGr) tail elts') :
    scanLoop d antiGr (.init i) elts str (s ++ (unparse tail ++ d.cl :: rest)) =
      .ok (elts.reverse ++ .plain (String.ofList (str ++ p)) :: elts', rest) := by
  induction body generalizing elts str s elts' with
  | nil =>
      cases escapes
      cases parsed
      obtain ⟨notEof, notEscape, -⟩ := delims_cl d
      have last : scanLoop d antiGr (.init 1) elts str (d.cl :: rest) =
          .ok ((.plain (String.ofList str) :: elts).reverse, rest) := by
        rw [scanLoop_init notEof notEscape, if_neg d.differ.symm, if_pos rfl, if_pos rfl]
      rw [List.append_nil]
      simpa [unparse] using last
  | op pos body inductionHypothesis =>
      obtain ⟨⟨notEof, notEscape⟩, unescapedRest⟩ := unescaped_cons.mp unescaped
      obtain ⟨s', escapesRest, same⟩ := escapes.uncons d antiGr
      rw [same, scanLoop_init notEof notEscape, if_pos rfl,
        inductionHypothesis escapesRest unescapedRest parsed, List.append_assoc,
        List.singleton_append]
  | @cl i p tail body inductionHypothesis =>
      obtain ⟨⟨notEof, notEscape⟩, unescapedRest⟩ := unescaped_cons.mp unescaped
      obtain ⟨s', escapesRest, same⟩ := escapes.uncons d antiGr
      have notLast : i + 1 ≠ 1 := fun last => absurd (Nat.succ.inj last) (Nat.ne_of_gt body.pos)
      rw [same, scanLoop_init notEof notEscape, if_neg d.differ.symm, if_pos rfl, if_neg notLast,
        Nat.add_sub_cancel, inductionHypothesis escapesRest unescapedRest parsed,
        List.append_assoc, List.singleton_append]
  | bang notOpen body inductionHypothesis =>
      obtain ⟨⟨notEof, notEscape⟩, unescapedRest⟩ := unescaped_cons.mp unescaped
      obtain ⟨s', escapesRest, same⟩ := escapes.uncons d antiGr
      rw [same, scanLoop_init notEof notEscape, if_neg (delims_op_ne_bang d),
        if_neg (delims_cl_ne_bang d), if_pos rfl,
        scanLoop_bang_plain escapesRest (unescaped_append.mp unescapedRest).1 notOpen body.after,
        inductionHypothesis escapesRest unescapedRest parsed, List.append_assoc,
        List.singleton_append]
  | char notOp notCl notBang body inductionHypothesis =>
      obtain ⟨⟨notEof, notEscape⟩, unescapedRest⟩ := unescaped_cons.mp unescaped
      obtain ⟨s', escapesRest, same⟩ := escapes.uncons d antiGr
      rw [same, scanLoop_init notEof notEscape, if_neg notOp, if_neg notCl, if_neg notBang,
        inductionHypothesis escapesRest unescapedRest parsed, List.append_assoc,
        List.singleton_append]
  | @anti i t p tail nested body inductionHypothesis =>
      cases escapes
      match elts', parsed with
      | .anti e :: .plain _ :: elts', .cons (.anti isParsed) (.cons .plain parsed) =>
          have written (after : List Char) :
              unparse (.anti t :: .plain (String.ofList p) :: tail) ++ after =
                '!' :: '{' :: (t.toList ++ '}' :: (p ++ (unparse tail ++ after))) := by
            simp [unparse, unparseElt]
          have tailWritten := written []
          rw [List.append_nil, List.append_nil] at tailWritten
          rw [List.nil_append, tailWritten] at unescaped
          obtain ⟨unescapedText, unescapedClose⟩ :=
            unescaped_append.mp (unescaped_cons.mp (unescaped_cons.mp unescaped).2).2
          have unescapedRest := (unescaped_cons.mp unescapedClose).2
          have isText : antiGr (String.ofList ([] ++ t.toList)) = some e := by
            rwa [List.nil_append, String.ofList_toList]
          rw [List.nil_append, written, scanLoop_init (by decide) (by decide),
            if_neg (delims_op_ne_bang d), if_neg (delims_cl_ne_bang d), if_pos rfl,
            scanLoop_bang (by decide) (by decide), if_pos rfl,
            scanLoop_text nested unescapedText isText,
            inductionHypothesis (.refl p) unescapedRest parsed]
          simp

/-! ## Texts that the scanner reads -/

def ScanState.Pos : ScanState → Prop
  | .init i | .bang i => 0 < i
  | .anti k i => 0 < k ∧ 0 < i

/-- A plain text, further elements and the closing delimiter have been read from `s`. -/
def ReadsPlain (d : Delims) (antiGr : String → Option α) (i : Nat) (elts : List (QuotElt α))
    (str s : List Char) (res : List (QuotElt α)) (rest : List Char) : Prop :=
  ∃ p tail elts', res = elts.reverse ++ .plain (String.ofList (str ++ p)) :: elts' ∧
    s = p ++ (unparse tail ++ d.cl :: rest) ∧ Body d i p tail ∧
    List.Forall₂ (ParsedTo antiGr) tail elts'

/-- The text of an antiquotation has been read, and then a plain text. -/
def ReadsAnti (d : Delims) (antiGr : String → Option α) (k i : Nat) (elts : List (QuotElt α))
    (str s : List Char) (res : List (QuotElt α)) (rest : List Char) : Prop :=
  ∃ t next e, s = t ++ '}' :: next ∧ Nested '{' '}' k t ∧
    antiGr (String.ofList (str ++ t)) = some e ∧
    ReadsPlain d antiGr i (.anti e :: elts) [] next res rest

def Reads (d : Delims) (antiGr : String → Option α) (state : ScanState)
    (elts : List (QuotElt α))
    (str s : List Char) (res : List (QuotElt α)) (rest : List Char) : Prop :=
  match state with
  | .init i => ReadsPlain d antiGr i elts str s res rest
  | .bang i => ReadsPlain d antiGr i elts str ('!' :: s) res rest
  | .anti k i => ReadsAnti d antiGr k i elts str s res rest

/-- A character of the plain text has been read. -/
theorem ReadsPlain.cons {j : Nat} (body : ∀ {p tail}, Body d j p tail → Body d i (c :: p) tail)
    (reads : ReadsPlain d antiGr j elts (str ++ [c]) next res rest) :
    ReadsPlain d antiGr i elts str (c :: next) res rest := by
  obtain ⟨p, tail, elts', rfl, rfl, isBody, parsed⟩ := reads
  exact ⟨c :: p, tail, elts', by simp, rfl, body isBody, parsed⟩

theorem ReadsAnti.cons {j : Nat}
    (nested : ∀ {t}, Nested '{' '}' j t → Nested '{' '}' k (c :: t))
    (reads : ReadsAnti d antiGr j i elts (str ++ [c]) next res rest) :
    ReadsAnti d antiGr k i elts str (c :: next) res rest := by
  obtain ⟨t, next, e, rfl, isNested, parsed, plain⟩ := reads
  exact ⟨c :: t, next, e, rfl, nested isNested, by simpa using parsed, plain⟩

private theorem scanLoop_reads {state : ScanState} {s : List Char} (pos : state.Pos)
    (unescaped : Unescaped s)
    (run : scanLoop d antiGr state elts str s = .ok (res, rest)) :
    Reads d antiGr state elts str s res rest := by
  fun_induction scanLoop d antiGr state elts str s with
  | case1 | case2 | case4 | case13 => cases run
  | case3 => exact absurd rfl (unescaped_cons.mp unescaped).1.2
  | case5 elts str next i _ _ inductionHypothesis =>
      have reads : ReadsPlain d antiGr _ _ _ _ _ _ :=
        inductionHypothesis (Nat.succ_pos i) (unescaped_cons.mp unescaped).2 run
      exact reads.cons (.op pos)
  | case6 elts str next =>
      cases run
      exact ⟨[], [], [], by simp, rfl, .nil, .nil⟩
  | case7 elts str next i notLast _ _ _ inductionHypothesis =>
      have pos : 0 < i := pos
      obtain ⟨j, rfl⟩ : ∃ j, i = j + 1 := ⟨i - 1, by omega⟩
      have reads : ReadsPlain d antiGr _ _ _ _ _ _ :=
        inductionHypothesis (show 0 < j + 1 - 1 by omega) (unescaped_cons.mp unescaped).2 run
      exact reads.cons .cl
  | case8 elts str next i _ _ _ _ inductionHypothesis =>
      exact inductionHypothesis pos (unescaped_cons.mp unescaped).2 run
  | case9 elts str c next _ _ i notOp notCl notBang inductionHypothesis =>
      have reads : ReadsPlain d antiGr _ _ _ _ _ _ :=
        inductionHypothesis pos (unescaped_cons.mp unescaped).2 run
      exact reads.cons (.char notOp notCl notBang)
  | case10 elts str next i _ _ inductionHypothesis =>
      have reads : ReadsAnti d antiGr _ _ _ _ _ _ _ :=
        inductionHypothesis ⟨Nat.one_pos, pos⟩ (unescaped_cons.mp unescaped).2 run
      obtain ⟨t, next, e, rfl, nested, isParsed, p, tail, elts', rfl, rfl, body, parsed⟩ :=
        reads
      refine ⟨[], .anti (String.ofList t) :: .plain (String.ofList p) :: tail,
        .anti e :: .plain (String.ofList p) :: elts', by simp, by simp [unparse, unparseElt],
        .anti (by rwa [String.toList_ofList]) body, .cons (.anti isParsed) (.cons .plain parsed)⟩
  | case11 elts str c next _ _ i notOpen inductionHypothesis =>
      have reads : ReadsPlain d antiGr _ _ _ _ _ _ := inductionHypothesis pos unescaped run
      obtain ⟨p, tail, elts', rfl, same, body, parsed⟩ := reads
      refine ⟨'!' :: p, tail, elts', by simp, by rw [same]; rfl,
        .bang (fun isOpen => ?_) body, parsed⟩
      obtain ⟨p', rfl⟩ := List.head?_eq_some_iff.mp isOpen
      exact notOpen (List.cons.inj same).1
  | case12 elts str next k i _ _ inductionHypothesis =>
      have reads : ReadsAnti d antiGr _ _ _ _ _ _ _ :=
        inductionHypothesis ⟨Nat.succ_pos k, pos.2⟩ (unescaped_cons.mp unescaped).2 run
      exact reads.cons fun nested => (nested_cons_op (by decide)).mpr ⟨pos.1, nested⟩
  | case14 elts str next i e isParsed _ _ _ inductionHypothesis =>
      have reads : ReadsPlain d antiGr _ _ _ _ _ _ :=
        inductionHypothesis pos.2 (unescaped_cons.mp unescaped).2 run
      exact ⟨[], next, e, rfl, nested_nil.mpr rfl, by simpa using isParsed, reads⟩
  | case15 elts str next k i notLast _ _ _ inductionHypothesis =>
      obtain ⟨posText, posPlain⟩ : 0 < k ∧ 0 < i := pos
      obtain ⟨j, rfl⟩ : ∃ j, k = j + 1 := ⟨k - 1, by omega⟩
      have reads : ReadsAnti d antiGr _ _ _ _ _ _ _ := inductionHypothesis
        ⟨show 0 < j + 1 - 1 by omega, posPlain⟩ (unescaped_cons.mp unescaped).2 run
      exact reads.cons fun nested => (nested_cons_cl (by decide)).mpr nested
  | case16 elts str c next _ _ k i notOpen notClose inductionHypothesis =>
      have reads : ReadsAnti d antiGr _ _ _ _ _ _ _ :=
        inductionHypothesis pos (unescaped_cons.mp unescaped).2 run
      exact reads.cons fun nested => (nested_cons_other notOpen notClose).mpr nested

end

private theorem Alternates.parsedTo {α : Type} {antiGr : String → Option α} :
    ∀ {raw : List (QuotElt String)} {elts : List (QuotElt α)}, Alternates raw →
      List.Forall₂ (ParsedTo antiGr) raw elts → Alternates elts
  | [.plain _], _, _, .cons .plain .nil => trivial
  | .plain _ :: .anti _ :: tail, .plain _ :: .anti _ :: elts, alternates,
      .cons .plain (.cons (.anti _) parsed) =>
      have rest : Alternates elts :=
        Alternates.parsedTo (show Alternates tail from alternates) parsed
      rest

/-- In an input without escapes, a quoted term is read up to the first closing delimiter
that closes the opening one, outside of antiquotations. -/
theorem wellBracketed_iff {α : Type} {d : Delims} {antiGr : String → Option α}
    {s rest : List Char} {elts : List (QuotElt α)} (unescaped : Unescaped s) :
    wellBracketed d antiGr (d.op :: s) = .ok (elts, rest) ↔
      ∃ raw, s = unparse raw ++ d.cl :: rest ∧ Delimited d 1 raw ∧
        List.Forall₂ (ParsedTo antiGr) raw elts ∧ Alternates elts := by
  rw [wellBracketed, if_pos rfl]
  constructor
  · intro run
    obtain ⟨p, tail, elts', rfl, rfl, body, parsed⟩ : ReadsPlain d antiGr 1 [] [] s elts rest :=
      scanLoop_reads (show (ScanState.init 1).Pos from Nat.one_pos) unescaped run
    have delimited := body.delimited
    have parsed : List.Forall₂ (ParsedTo antiGr) (.plain (String.ofList p) :: tail)
        (.plain (String.ofList p) :: elts') := .cons .plain parsed
    exact ⟨_, by simp [unparse, unparseElt], delimited, parsed,
      delimited.alternates.parsedTo parsed⟩
  · rintro ⟨raw, rfl, delimited, parsed, -⟩
    match raw, delimited, parsed with
    | [], delimited, _ => exact delimited.alternates.elim
    | .anti _ :: _, delimited, _ => exact delimited.alternates.elim
    | .plain p :: tail, delimited, .cons .plain parsed =>
        have written : unparse (.plain p :: tail) ++ d.cl :: rest =
            p.toList ++ (unparse tail ++ d.cl :: rest) := by
          simp [unparse, unparseElt]
        rw [written] at unescaped ⊢
        rw [← List.append_assoc] at unescaped
        rw [delimited.body.accepted (.refl _) (unescaped_append.mp unescaped).1 parsed]
        simp

theorem wellBracketed_nested :
    wellBracketed braces some "\x7ba!\x7bb\x7b\x7d\x7dc\x7d d".toList =
      .ok ([.plain "a", .anti "b\x7b\x7d", .plain "c"], " d".toList) := by
  have nesting : Nested '{' '}' 1 "ac".toList :=
    (nested_cons_other (by decide) (by decide)).mpr
      ((nested_cons_other (by decide) (by decide)).mpr (nested_nil.mpr rfl))
  have text : Nested '{' '}' 1 "b\x7b\x7d".toList :=
    (nested_cons_other (by decide) (by decide)).mpr ((nested_cons_op (by decide)).mpr
      ⟨by decide, (nested_cons_cl (by decide)).mpr (nested_nil.mpr rfl)⟩)
  have unescaped : Unescaped "a!\x7bb\x7b\x7d\x7dc\x7d d".toList :=
    List.forall_iff_forall_mem.mp (by decide)
  refine (wellBracketed_iff unescaped).mpr
    ⟨[.plain "a", .anti "b\x7b\x7d", .plain "c"], by decide,
      ⟨trivial, fun p member => ?_, fun t member => ?_, nesting⟩,
      .cons .plain (.cons (.anti rfl) (.cons .plain .nil)), trivial⟩
  · simp only [List.mem_cons, QuotElt.plain.injEq, reduceCtorEq, List.not_mem_nil, or_false,
      false_or] at member
    rcases member with rfl | rfl <;> decide
  · simp only [List.mem_cons, QuotElt.anti.injEq, reduceCtorEq, List.not_mem_nil, or_false,
      false_or] at member
    rw [member]
    exact nested_one_iff.mp text

/-! ## Escaped texts -/

/-- A text as it is written in a C string literal. -/
def escapeText (t : List Char) : List Char :=
  t.flatMap fun c => if c = '"' ∨ c = '\\' then ['\\', c] else [c]

private theorem escapes_escapeText : ∀ {t : List Char}, '\\' ∉ t → Escapes (escapeText t) t
  | [], _ => .nil
  | c :: t, noBackslash => by
      rw [List.mem_cons, not_or] at noBackslash
      have rest := escapes_escapeText noBackslash.2
      by_cases isQuote : c = '"'
      · subst isQuote
        exact .quote rest
      · have plain : escapeText (c :: t) = c :: escapeText t := by
          simp [escapeText, isQuote, Ne.symm noBackslash.1]
        rw [plain]
        exact .char rest

def NoBackslash {α : Type} (elts : List (QuotElt α)) : Prop :=
  ∀ p, .plain p ∈ elts → '\\' ∉ p.toList

section

variable {α : Type} {d : Delims} {antiGr : String → Option α} {elts res : List (QuotElt α)}
  {str rest : List Char} {c : Char}

private theorem noBackslash_append (noBackslash : '\\' ∉ str) (notEscape : c ≠ '\\') :
    '\\' ∉ str ++ [c] := by
  simp [noBackslash, Ne.symm notEscape]

theorem NoBackslash.plain (collected : NoBackslash elts) (noBackslash : '\\' ∉ str) :
    NoBackslash (.plain (String.ofList str) :: elts) := by
  intro p member
  rcases List.mem_cons.mp member with same | member
  · cases same
    rwa [String.toList_ofList]
  · exact collected p member

theorem NoBackslash.anti {e : α} (collected : NoBackslash elts) :
    NoBackslash (.anti e :: elts) := by
  intro p member
  rcases List.mem_cons.mp member with same | member
  · cases same
  · exact collected p member

/-- No plain text that is read has a backslash. -/
theorem scanLoop_noBackslash {state : ScanState} {s : List Char} (noBackslash : '\\' ∉ str)
    (collected : NoBackslash elts) (run : scanLoop d antiGr state elts str s = .ok (res, rest)) :
    NoBackslash res := by
  fun_induction scanLoop d antiGr state elts str s with
  | case1 | case2 | case4 | case13 => cases run
  | case3 _ _ _ _ _ _ inductionHypothesis | case8 _ _ _ _ _ _ _ _ inductionHypothesis =>
      exact inductionHypothesis noBackslash collected run
  | case6 =>
      cases run
      intro p member
      exact collected.plain noBackslash p (List.mem_reverse.mp member)
  | case10 _ _ _ _ _ _ inductionHypothesis =>
      exact inductionHypothesis List.not_mem_nil (collected.plain noBackslash) run
  | case14 _ _ _ _ _ _ _ _ _ inductionHypothesis =>
      exact inductionHypothesis List.not_mem_nil collected.anti run
  | case11 _ _ _ _ _ _ _ _ inductionHypothesis =>
      exact inductionHypothesis (noBackslash_append noBackslash (by decide)) collected run
  | case5 _ _ _ _ _ notEscape inductionHypothesis
  | case7 _ _ _ _ _ _ notEscape _ inductionHypothesis
  | case9 _ _ _ _ _ notEscape _ _ _ _ inductionHypothesis
  | case12 _ _ _ _ _ _ notEscape inductionHypothesis
  | case15 _ _ _ _ _ _ _ notEscape _ inductionHypothesis
  | case16 _ _ _ _ _ notEscape _ _ _ _ inductionHypothesis =>
      exact inductionHypothesis (noBackslash_append noBackslash notEscape) collected run

/-- An escaped text is read back exactly if it has no backslash. -/
theorem wellBracketed_escapeText_iff {t : List Char} (noEof : eofChar ∉ t)
    (balanced : Balanced d.op d.cl t) (noAnti : ¬ ['!', '{'] <:+: t) :
    wellBracketed d antiGr (d.op :: (escapeText t ++ d.cl :: rest)) =
      .ok ([.plain (String.ofList t)], rest) ↔ '\\' ∉ t := by
  rw [wellBracketed, if_pos rfl]
  constructor
  · intro run
    have read := scanLoop_noBackslash List.not_mem_nil
      (fun _ member => absurd member List.not_mem_nil) run
    have noBackslash := read _ List.mem_cons_self
    rwa [String.toList_ofList] at noBackslash
  · intro noBackslash
    have unescaped : Unescaped (t ++ unparse []) := by
      rw [unparse, List.flatMap_nil, List.append_nil]
      exact fun c member =>
        ⟨fun same => noEof (same ▸ member), fun same => noBackslash (same ▸ member)⟩
    have nested : Nested d.op d.cl 1 (t ++ outside []) := by
      rw [outside, List.flatMap_nil, List.append_nil]
      exact nested_one_iff.mpr balanced
    have body : Body d 1 t [] := body_of_plain noAnti nested fun j nested => by
      rw [nested_nil.mp nested]
      exact .nil
    have run :
        scanLoop d antiGr (.init 1) [] [] (escapeText t ++ (unparse [] ++ d.cl :: rest)) = _ :=
      body.accepted (escapes_escapeText noBackslash) unescaped .nil
    simpa [unparse] using run

end

theorem wellBracketed_escapeText_quote :
    wellBracketed braces some ('{' :: (escapeText "a\"b".toList ++ ['}'])) =
      .ok ([.plain "a\"b"], []) := by
  have balanced : Balanced '{' '}' "a\"b".toList :=
    nested_one_iff.mp ((nested_cons_other (by decide) (by decide)).mpr
      ((nested_cons_other (by decide) (by decide)).mpr
        ((nested_cons_other (by decide) (by decide)).mpr (nested_nil.mpr rfl))))
  exact (wellBracketed_escapeText_iff (d := braces) (by decide) balanced (by decide)).mpr
    (by decide)

/-- An escaped backslash is not read, and one in front of an escaped quote is lost. -/
theorem wellBracketed_escapeText_backslash :
    (Balanced braces.op braces.cl ['\\'] ∧ eofChar ∉ ['\\'] ∧ ¬ ['!', '{'] <:+: ['\\']) ∧
      wellBracketed braces some ('{' :: (escapeText ['\\'] ++ ['}'])) = .error .giveUp ∧
      wellBracketed braces some ('{' :: (escapeText ['\\', '"'] ++ ['}'])) =
        .ok ([.plain "\""], []) := by
  have balanced : Nested '{' '}' 1 ['\\'] :=
    (nested_cons_other (by decide) (by decide)).mpr (nested_nil.mpr rfl)
  have notEof : '\\' ≠ eofChar ∧ '"' ≠ eofChar ∧ '}' ≠ eofChar := by decide
  refine ⟨⟨nested_one_iff.mp balanced, by decide, by decide⟩, ?_, ?_⟩
  · simp [wellBracketed, scanLoop, escapeText, braces]
  · simp [wellBracketed, scanLoop, escapeText, braces, notEof]

end RefinedC.Frontend
