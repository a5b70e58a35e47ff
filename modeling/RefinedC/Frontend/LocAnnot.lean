import RefinedC.Frontend.Location
import RefinedC.Frontend.RcAnnot
import RefinedC.Library.Concat
import RefinedC.Library.Fallible

/-!
Locations of errors in annotations.

Source: `rc_attr_arg`, `loc_of_pos`, `rc_attr` and `parse_attr` of `frontend/rc_annot.ml`.

Owns: attributes with the locations of their pieces, the location of a position in an
argument, the parsing of an attribute with its exceptions, and when the location of a parse
error is found.

Does not own: the grammars and the parser, and the attributes without locations.
-/

namespace RefinedC.Frontend.LocAnnot

open Library

/-! ## Attributes -/

/-- The value of an argument is the concatenation of its pieces. -/
structure RcAttrArg where
  value : Location.Located String
  pieces : List (Location.Located String)
  concat : value.elt = String.join (pieces.map Location.Located.elt)

structure RcAttr where
  id : Location.Located String
  args : List RcAttrArg

def RcAttr.erase (attr : RcAttr) : Frontend.RcAttr :=
  ⟨attr.id.elt, attr.args.map fun arg => arg.value.elt⟩

inductive AttrExn where
  | invalidAnnot (loc : Location) (msg : String)
  | assertFailure

/-- A computation that draws locations and may raise an exception. -/
abbrev LocM := ExceptT AttrExn (StateM Pools)

/-! ## Locations of positions -/

def find : Nat → List (Location.Located String) → Option (Nat × Location)
  | _, [] => none
  | pos, p :: pieces =>
      if pos < p.elt.length then some (pos, p.loc) else find (pos - p.elt.length) pieces

/-- The point `i` characters behind the start of a location. -/
def shiftLoc (i : Nat) (loc : Location) : StateM Pools Location := fun pools =>
  match Location.get pools loc with
  | none => Location.none .rcLocs pools
  | some d =>
      Location.make d.file (d.line1 - 1) (d.col1 + i) (d.line1 - 1) (d.col1 + i) .rcLocs pools

def locOfPos (arg : RcAttrArg) (pos : Nat) : LocM Location :=
  match find pos arg.pieces with
  | none => throw .assertFailure
  | some (i, loc) => shiftLoc i loc

/-! ## Parsing -/

section

variable {α : Type} (e : Earley) (attr : RcAttr)

def error (msg : String) : LocM α :=
  throw (.invalidAnnot attr.id.loc ("Annotation [" ++ attr.id.elt ++ "] " ++ msg ++ "."))

/-- What is raised when an argument does not parse. -/
def raise (arg : RcAttrArg) : ParseFailure → LocM α
  | .parseError pos => do
      let loc ← locOfPos arg pos
      throw (.invalidAnnot loc "No parse in annotation.")
  | .assertFailure => throw .assertFailure

def parse (grammar : String → Option α) (arg : RcAttrArg) : LocM α :=
  match grammar arg.value.elt with
  | some a => pure a
  | none => raise arg (e.failure attr.id.elt arg.value.elt)

def singleArg (grammar : String → Option α) (c : α → Annot) : LocM Annot :=
  match attr.args with
  | [s] => c <$> parse e attr grammar s
  | _ => error attr "should have exactly one argument"

def manyArgs (grammar : String → Option α) (c : List α → Annot) : LocM Annot :=
  match attr.args with
  | [] => error attr "should have at least one argument"
  | args => c <$> args.mapM (parse e attr grammar)

def rawSingleArg (c : String → Annot) : LocM Annot :=
  match attr.args with
  | [a] => pure (c a.value.elt)
  | _ => error attr "should have exactly one argument"

def rawManyArgs (c : List String → Annot) : LocM Annot :=
  match attr.args with
  | [] => error attr "should have at least one argument"
  | args => pure (c (args.map fun a => a.value.elt))

def noArgs (c : Annot) : LocM Annot :=
  match attr.args with
  | [] => pure c
  | _ => error attr "should not have arguments"

end

def parseAttr (e : Earley) (attr : RcAttr) : LocM Annot :=
  match argShape e.grammars attr.id.elt with
  | .single grammar c => singleArg e attr grammar c
  | .many grammar c => manyArgs e attr grammar c
  | .rawSingle c => rawSingleArg attr c
  | .rawMany c => rawManyArgs attr c
  | .noArgs c => noArgs attr c
  | .undefined => error attr "undefined"

/-! ## The piece of a position -/

def chars (p : Location.Located String) : List Char := p.elt.toList

private theorem find_inPiece {pieces : List (Location.Located String)}
    {pos i : Nat} {loc : Location} (found : find pos pieces = some (i, loc)) :
    ∃ p, p.loc = loc ∧ InPiece chars pieces pos p i := by
  induction pieces generalizing pos with
  | nil => cases found
  | cons p pieces inductionHypothesis =>
      rw [find] at found
      split at found
      next inside =>
        cases found
        exact ⟨p, rfl, inPiece_head inside⟩
      next outside =>
        obtain ⟨q, isLoc, inPiece⟩ := inductionHypothesis found
        have shifted := inPiece.cons (q := p)
        have length : (chars p).length = p.elt.length := rfl
        rw [length, Nat.add_sub_cancel' (Nat.le_of_not_lt outside)] at shifted
        exact ⟨q, isLoc, shifted⟩

private theorem find_eq_none_iff {pieces : List (Location.Located String)} {pos : Nat} :
    find pos pieces = none ↔ (pieces.flatMap chars).length ≤ pos := by
  induction pieces generalizing pos with
  | nil => simp [find]
  | cons p pieces inductionHypothesis =>
      have length : (chars p).length = p.elt.length := rfl
      rw [find, List.flatMap_cons, List.length_append, length]
      split
      next inside => simp; omega
      next outside => rw [inductionHypothesis]; omega

private theorem RcAttrArg.chars_value (arg : RcAttrArg) :
    arg.value.elt.toList = arg.pieces.flatMap chars := by
  rw [arg.concat, String.toList_join, List.flatMap_map]
  rfl

/-! ## Located errors -/

/-- Data of a location, moved to the point `i` characters behind its start. -/
def shifted (i : Nat) (key : Int) (d : LocData) : LocData :=
  { key, file := d.file, line1 := d.line1, col1 := d.col1 + i, line2 := d.line1,
    col2 := d.col1 + i }

private theorem get_shiftLoc (i : Nat) (loc : Location) (pools : Pools) :
    Location.get (shiftLoc i loc pools).2 (shiftLoc i loc pools).1 =
      (Location.get pools loc).map (shifted i (shiftLoc i loc pools).1.key) := by
  unfold shiftLoc
  split
  next absent => rw [absent]; exact Location.get_none
  next d found =>
    rw [found, Location.get_make]
    simp [shifted]

private theorem kept_shiftLoc (i : Nat) (loc : Location) (pools : Pools) :
    Location.Kept pools (shiftLoc i loc pools).2 := by
  unfold shiftLoc
  split
  · exact Location.kept_fresh
  · exact Location.kept_fresh

/-- The location of a position is found exactly when the position is inside of the value. -/
theorem locOfPos_cases (arg : RcAttrArg) (pos : Nat) :
    (arg.value.elt.length ≤ pos ∧
        ∀ pools, locOfPos arg pos pools = (.error .assertFailure, pools)) ∨
      (pos < arg.value.elt.length ∧ ∃ p i, InPiece chars arg.pieces pos p i ∧
        ∀ pools, locOfPos arg pos pools =
          (.ok (shiftLoc i p.loc pools).1, (shiftLoc i p.loc pools).2)) := by
  have length : arg.value.elt.length = (arg.pieces.flatMap chars).length := by
    rw [← arg.chars_value, String.length_toList]
  rw [length, ← Nat.not_le, ← find_eq_none_iff]
  cases found : find pos arg.pieces with
  | none =>
      refine .inl ⟨rfl, fun pools => ?_⟩
      rw [locOfPos, found]
      rfl
  | some r =>
      obtain ⟨i, loc⟩ := r
      obtain ⟨p, rfl, inPiece⟩ := find_inPiece found
      refine .inr ⟨nofun, p, i, inPiece, fun pools => ?_⟩
      rw [locOfPos, found]
      rfl

/-- The first argument that does not parse is `arg`, with the given failure. -/
inductive FirstFailure (e : Earley) (attr : RcAttr) : RcAttrArg → ParseFailure → Prop where
  | single {α arg} {grammar : String → Option α} {c : α → Annot} :
      argShape e.grammars attr.id.elt = .single grammar c → attr.args = [arg] →
      grammar arg.value.elt = none →
      FirstFailure e attr arg (e.failure attr.id.elt arg.value.elt)
  | many {α before arg after} {grammar : String → Option α} {c : List α → Annot} :
      argShape e.grammars attr.id.elt = .many grammar c → attr.args = before ++ arg :: after →
      (∀ b ∈ before, (grammar b.value.elt).isSome) → grammar arg.value.elt = none →
      FirstFailure e attr arg (e.failure attr.id.elt arg.value.elt)

private theorem run_bind {α β : Type} (x : LocM α) (k : α → LocM β) (pools : Pools) :
    (x >>= k) pools =
      match x pools with
      | (.ok a, pools') => k a pools'
      | (.error exn, pools') => (.error exn, pools') := by
  have step : (x >>= k) pools =
      ExceptT.bindCont (m := StateM Pools) k (x pools).1 (x pools).2 := rfl
  rw [step]
  rcases x pools with ⟨exn | a, pools'⟩
  · rfl
  · rfl

section

variable {α β : Type} {e : Earley} {attr : RcAttr} {arg : RcAttrArg} {failure : ParseFailure}

private theorem map_raise (c : α → β) :
    c <$> (raise arg failure : LocM α) = raise arg failure := by
  cases failure with
  | parseError pos =>
      rw [raise, map_bind]
      rfl
  | assertFailure => rfl

private theorem raise_bind (k : α → LocM β) :
    (raise arg failure >>= k) = raise arg failure := by
  cases failure with
  | parseError pos =>
      rw [raise, bind_assoc]
      rfl
  | assertFailure => rfl

private theorem raise_parseError_ok {pos : Nat} {pools pools' : Pools} {loc : Location}
    (located : locOfPos arg pos pools = (.ok loc, pools')) :
    (raise arg (.parseError pos) : LocM α) pools =
      (.error (.invalidAnnot loc "No parse in annotation."), pools') := by
  rw [raise, run_bind, located]
  rfl

private theorem raise_parseError_error {pos : Nat} {pools pools' : Pools} {exn : AttrExn}
    (notLocated : locOfPos arg pos pools = (.error exn, pools')) :
    (raise arg (.parseError pos) : LocM α) pools = (.error exn, pools') := by
  rw [raise, run_bind, notLocated]

private theorem mapM_parse {grammar : String → Option α} {before after : List RcAttrArg}
    (parsed : ∀ b ∈ before, (grammar b.value.elt).isSome)
    (rejected : grammar arg.value.elt = none) :
    (before ++ arg :: after).mapM (parse e attr grammar) =
      raise arg (e.failure attr.id.elt arg.value.elt) := by
  induction before with
  | nil =>
      rw [List.nil_append, List.mapM_cons, parse, rejected]
      exact raise_bind _
  | cons b before inductionHypothesis =>
      rw [List.forall_mem_cons] at parsed
      obtain ⟨a, accepted⟩ := Option.isSome_iff_exists.mp parsed.1
      rw [List.cons_append, List.mapM_cons, parse, accepted, pure_bind,
        inductionHypothesis parsed.2]
      exact raise_bind _

/-- An attribute is parsed up to the first argument that does not parse. -/
theorem FirstFailure.parseAttr_eq (first : FirstFailure e attr arg failure) :
    parseAttr e attr = raise arg failure := by
  cases first with
  | single shape args rejected =>
      rw [parseAttr, shape]
      change singleArg e attr _ _ = _
      rw [singleArg, args]
      change _ <$> parse e attr _ arg = _
      rw [parse, rejected]
      exact map_raise _
  | @many _ before _ after grammar c shape args parsed rejected =>
      have notNil : attr.args ≠ [] := by simp [args]
      have several : manyArgs e attr grammar c =
          c <$> attr.args.mapM (parse e attr grammar) := by
        unfold manyArgs
        split
        · contradiction
        · rfl
      rw [parseAttr, shape]
      change manyArgs e attr grammar c = _
      rw [several, args, mapM_parse parsed rejected]
      exact map_raise c

end

/-- What becomes of an error at position `pos` of the argument. -/
structure ErrorLocated (arg : RcAttrArg) (pos : Nat) : Prop where
  terminates : ∀ pools, ∃ loc pools', locOfPos arg pos pools = (.ok loc, pools')
  piece : pos < arg.value.elt.length → ∃ p i, InPiece chars arg.pieces pos p i ∧
    arg.value.elt.toList[pos]? = p.elt.toList[i]? ∧
    ∀ pools, ∃ loc pools', locOfPos arg pos pools = (.ok loc, pools') ∧
      Location.get pools' loc = (Location.get pools p.loc).map (shifted i loc.key)
  raised : ∀ e attr, FirstFailure e attr arg (.parseError pos) → ∀ pools,
    ∃ loc pools', locOfPos arg pos pools = (.ok loc, pools') ∧
      parseAttr e attr pools = (.error (.invalidAnnot loc "No parse in annotation."), pools')

theorem errorLocated_iff (arg : RcAttrArg) (pos : Nat) :
    ErrorLocated arg pos ↔ pos < arg.value.elt.length := by
  rcases locOfPos_cases arg pos with ⟨outside, fails⟩ | ⟨inside, p, i, inPiece, drawn⟩
  · refine iff_of_false (fun located => ?_) (Nat.not_lt.mpr outside)
    obtain ⟨loc, pools', terminates⟩ := located.terminates fun _ => Pool.make
    rw [fails] at terminates
    cases terminates
  · refine iff_of_true
      { terminates := fun pools => ⟨_, _, drawn pools⟩
        piece := fun _ => ⟨p, i, inPiece, ?_, fun pools =>
          ⟨_, _, drawn pools, get_shiftLoc i p.loc pools⟩⟩
        raised := fun e attr first pools => ⟨_, _, drawn pools, ?_⟩ } inside
    · rw [arg.chars_value]
      exact inPiece.getElem?
    · rw [first.parseAttr_eq]
      exact raise_parseError_ok (drawn pools)

/-! ### An empty argument -/

def emptyPiece : Location.Located String := ⟨"", ⟨0, .rcLocs⟩⟩

/-- The argument of `[[rc::size("")]]`. -/
def emptyArg : RcAttrArg := ⟨emptyPiece, [emptyPiece], rfl⟩

theorem errorLocated_fails_empty :
    emptyArg.value.elt.length = 0 ∧ ¬ ErrorLocated emptyArg 0 ∧
      ∀ (e : Earley) (loc : Location), e.grammars.annotSize "" = none →
        e.failure "size" "" = .parseError 0 → ∀ pools,
          parseAttr e ⟨⟨"size", loc⟩, [emptyArg]⟩ pools =
          (.error .assertFailure, pools) := by
  have fails : ∀ pools, locOfPos emptyArg 0 pools = (.error .assertFailure, pools) := fun _ => rfl
  refine ⟨rfl, fun located => ?_, fun e loc rejected atEnd pools => ?_⟩
  · obtain ⟨loc, pools', terminates⟩ := located.terminates fun _ => Pool.make
    rw [fails] at terminates
    cases terminates
  · have shape : argShape e.grammars "size" = .single e.grammars.annotSize .size := rfl
    have first :
        FirstFailure e ⟨⟨"size", loc⟩, [emptyArg]⟩ emptyArg (e.failure "size" "") :=
      .single shape rfl rejected
    rw [first.parseAttr_eq, atEnd]
    exact raise_parseError_error (fails pools)

/-! ## Outcomes of parsing -/

/-- The outcomes with locations, beside those without them. -/
inductive Outcome (e : Earley) (attr : RcAttr) : LocM Annot → AnnotM Annot → Prop where
  | parsed (a) : Outcome e attr (pure a) (.ok a)
  | invalid (msg) : Outcome e attr (error attr msg) (invalidAnnot attr.erase msg)
  | failed {arg failure} : FirstFailure e attr arg failure →
      Outcome e attr (raise arg failure) (.error (failure.exn arg.value.elt))

section

variable {α : Type} {e : Earley} {attr : RcAttr} {grammar : String → Option α}

private theorem parsed_or_first (grammar : String → Option α) (args : List RcAttrArg) :
    (∀ b ∈ args, (grammar b.value.elt).isSome) ∨
      ∃ before arg after, args = before ++ arg :: after ∧
        (∀ b ∈ before, (grammar b.value.elt).isSome) ∧ grammar arg.value.elt = none := by
  cases search : args.find? fun b => (grammar b.value.elt).isNone with
  | none =>
      rw [List.find?_eq_none] at search
      exact .inl fun b member => Option.isSome_iff_ne_none.mpr (by simpa using search b member)
  | some arg =>
      obtain ⟨rejected, before, after, split, parsed⟩ := List.find?_eq_some_iff_append.mp search
      refine .inr ⟨before, arg, after, split, fun b member => ?_, by simpa using rejected⟩
      simpa using parsed b member

private theorem mapM_parse_all (e : Earley) (attr : RcAttr) {args : List RcAttrArg}
    (parsed : ∀ b ∈ args, (grammar b.value.elt).isSome) :
    ∃ values, args.mapM (parse e attr grammar) = pure values ∧
      (args.map fun b => b.value.elt).mapM (parseArg e attr.erase grammar) = .ok values := by
  induction args with
  | nil => exact ⟨[], rfl, rfl⟩
  | cons b args inductionHypothesis =>
      rw [List.forall_mem_cons] at parsed
      obtain ⟨a, accepted⟩ := Option.isSome_iff_exists.mp parsed.1
      obtain ⟨values, located, plain⟩ := inductionHypothesis parsed.2
      refine ⟨a :: values, ?_, ?_⟩
      · rw [List.mapM_cons, parse, accepted, pure_bind, located, pure_bind]
      · rw [List.map_cons, List.mapM_cons, parseArg, accepted, ok_bind, plain]
        rfl

private theorem mapM_parseArg_failed {before after : List RcAttrArg} {arg : RcAttrArg}
    (parsed : ∀ b ∈ before, (grammar b.value.elt).isSome)
    (rejected : grammar arg.value.elt = none) :
    ((before ++ arg :: after).map fun b => b.value.elt).mapM (parseArg e attr.erase grammar) =
      .error ((e.failure attr.id.elt arg.value.elt).exn arg.value.elt) := by
  induction before with
  | nil =>
      rw [List.nil_append, List.map_cons, List.mapM_cons, parseArg, rejected]
      rfl
  | cons b before inductionHypothesis =>
      rw [List.forall_mem_cons] at parsed
      obtain ⟨a, accepted⟩ := Option.isSome_iff_exists.mp parsed.1
      rw [List.cons_append, List.map_cons, List.mapM_cons, parseArg, accepted, ok_bind,
        inductionHypothesis parsed.2]
      rfl

private theorem singleArg_outcome {c : α → Annot}
    (shape : argShape e.grammars attr.id.elt = .single grammar c) :
    Outcome e attr (singleArg e attr grammar c) (Frontend.singleArg e attr.erase grammar c) := by
  obtain ⟨id, args⟩ := attr
  match args with
  | [] | _ :: _ :: _ => exact .invalid _
  | [arg] =>
      change Outcome e _ (c <$> parse e _ grammar arg) (c <$> parseArg e _ grammar arg.value.elt)
      cases rejected : grammar arg.value.elt with
      | some a =>
          rw [parse, parseArg, rejected]
          exact .parsed (c a)
      | none =>
          rw [parse, parseArg, rejected]
          change Outcome e _ (c <$> raise arg _) _
          rw [map_raise]
          exact .failed (.single shape rfl rejected)

private theorem manyArgs_outcome {c : List α → Annot}
    (shape : argShape e.grammars attr.id.elt = .many grammar c) :
    Outcome e attr (manyArgs e attr grammar c) (Frontend.manyArgs e attr.erase grammar c) := by
  obtain ⟨id, args⟩ := attr
  cases args with
  | nil => exact .invalid _
  | cons arg args =>
      change Outcome e _ (c <$> (arg :: args).mapM (parse e _ grammar))
        (c <$> ((arg :: args).map fun b => b.value.elt).mapM (parseArg e _ grammar))
      rcases parsed_or_first grammar (arg :: args) with parsed |
        ⟨before, failed, after, split, parsed, rejected⟩
      · obtain ⟨values, located, plain⟩ := mapM_parse_all e ⟨id, arg :: args⟩ parsed
        rw [located, plain]
        exact .parsed (c values)
      · rw [split, mapM_parse parsed rejected, mapM_parseArg_failed parsed rejected, map_raise]
        exact .failed (.many shape rfl parsed rejected)

end

private theorem rawSingleArg_outcome (e : Earley) (attr : RcAttr) (c : String → Annot) :
    Outcome e attr (rawSingleArg attr c) (Frontend.rawSingleArg attr.erase c) := by
  obtain ⟨id, args⟩ := attr
  match args with
  | [] | _ :: _ :: _ => exact .invalid _
  | [arg] => exact .parsed (c arg.value.elt)

private theorem rawManyArgs_outcome (e : Earley) (attr : RcAttr) (c : List String → Annot) :
    Outcome e attr (rawManyArgs attr c) (Frontend.rawManyArgs attr.erase c) := by
  obtain ⟨id, args⟩ := attr
  cases args with
  | nil => exact .invalid _
  | cons arg args => exact .parsed (c ((arg :: args).map fun b => b.value.elt))

private theorem noArgs_outcome (e : Earley) (attr : RcAttr) (c : Annot) :
    Outcome e attr (noArgs attr c) (Frontend.noArgs attr.erase c) := by
  obtain ⟨id, args⟩ := attr
  cases args with
  | nil => exact .parsed c
  | cons arg args => exact .invalid _

private theorem parseAttr_outcome (e : Earley) (attr : RcAttr) :
    Outcome e attr (parseAttr e attr) (Frontend.parseAttr e attr.erase) := by
  rw [parse_argShape, parseAttr]
  change Outcome e attr _ ((argShape e.grammars attr.id.elt).parse e attr.erase)
  cases shape : argShape e.grammars attr.id.elt with
  | single grammar c => exact singleArg_outcome shape
  | many grammar c => exact manyArgs_outcome shape
  | rawSingle c => exact rawSingleArg_outcome e attr c
  | rawMany c => exact rawManyArgs_outcome e attr c
  | noArgs c => exact noArgs_outcome e attr c
  | undefined => exact .invalid "undefined"

/-- The exception without its location. -/
def AttrExn.erase : AttrExn → AnnotExn
  | .invalidAnnot _ msg => .invalidAnnot msg
  | .assertFailure => .assertFailure

private theorem raise_cases (arg : RcAttrArg) (failure : ParseFailure) (pools : Pools) :
    (failure.exn arg.value.elt = .assertFailure ∧
        (raise arg failure : LocM Annot) pools = (.error .assertFailure, pools)) ∨
      (failure.exn arg.value.elt = .invalidAnnot "No parse in annotation." ∧
        ∃ loc pools', Location.Kept pools pools' ∧
          (raise arg failure : LocM Annot) pools =
            (.error (.invalidAnnot loc "No parse in annotation."), pools')) := by
  cases failure with
  | parseError pos =>
      rcases locOfPos_cases arg pos with ⟨outside, fails⟩ | ⟨inside, p, i, -, drawn⟩
      · exact .inl ⟨if_neg (Nat.not_lt.mpr outside), raise_parseError_error (fails pools)⟩
      · exact .inr ⟨if_pos inside, _, _, kept_shiftLoc i p.loc pools,
          raise_parseError_ok (drawn pools)⟩
  | assertFailure => exact .inl ⟨rfl, rfl⟩

section

variable {e : Earley} {attr : RcAttr} {located : LocM Annot} {plain : AnnotM Annot}

private theorem Outcome.mapError_erase (outcome : Outcome e attr located plain) (pools : Pools) :
    (located pools).1.mapError AttrExn.erase = plain := by
  cases outcome with
  | parsed a => rfl
  | invalid msg => rfl
  | @failed arg failure first =>
      rcases raise_cases arg failure pools with
        ⟨exn, crashes⟩ | ⟨exn, loc, pools', -, reported⟩
      · rw [crashes, exn]
        rfl
      · rw [reported, exn]
        rfl

theorem Outcome.kept (outcome : Outcome e attr located plain) (pools : Pools) :
    Location.Kept pools (located pools).2 := by
  cases outcome with
  | parsed a => exact fun _ _ => rfl
  | invalid msg => exact fun _ _ => rfl
  | @failed arg failure first =>
      rcases raise_cases arg failure pools with
        ⟨-, crashes⟩ | ⟨-, loc, pools', kept, reported⟩
      · rw [crashes]
        exact fun _ _ => rfl
      · rw [reported]
        exact kept

end

/-- Without locations, parsing an attribute is the parsing of the attribute without them. -/
theorem parseAttr_erase (e : Earley) (attr : RcAttr) (pools : Pools) :
    (parseAttr e attr pools).1.mapError AttrExn.erase = Frontend.parseAttr e attr.erase :=
  (parseAttr_outcome e attr).mapError_erase pools

/-- Whatever becomes of an attribute, all earlier locations stay as they are. -/
theorem parseAttr_kept (e : Earley) (attr : RcAttr) (pools : Pools) :
    Location.Kept pools (parseAttr e attr pools).2 :=
  (parseAttr_outcome e attr).kept pools

end RefinedC.Frontend.LocAnnot
