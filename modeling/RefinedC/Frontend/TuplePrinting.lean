import RefinedC.Frontend.CoqText
import RefinedC.Library.AssocList

/-!
Printed tuples, projections and patterns.

Source: `pp_as_tuple`, `pp_encoded_patt_name`, `pp_projection`, `pp_encoded_patt_bindings`
and `pp_intros` of `frontend/coq_pp.ml`, `base_ident` of `frontend/rc_annot.ml`.

Owns: the printers, what Coq reads from their output, and when the components of a tuple
get the names that are meant for them.

Does not own: what is printed around a tuple. A break of the formatter is a blank or a
new line with any indentation.
-/

namespace RefinedC.Frontend

open Library CoqText

/-! ## Identifiers -/

def isIdentStart (c : Char) : Bool := CoqPath.isLetter c || c == '_'

/-- `[A-Za-z_][A-Za-z_0-9]*` -/
def isIdent (s : String) : Bool :=
  match s.toList with
  | [] => false
  | c :: cs => isIdentStart c && cs.all CoqPath.isMemberChar

/-- A name. The grammar of identifiers also accepts `void*`, which is no name in Coq. -/
structure Ident where
  name : String
  valid : isIdent name = true

theorem Ident.isWord (x : Ident) : SingleWord x.name := by
  have valid := x.valid
  unfold isIdent at valid
  cases chars : x.name.toList with
  | nil => simp [chars] at valid
  | cons c cs =>
      simp only [chars, Bool.and_eq_true, List.all_eq_true] at valid
      obtain ⟨start, rest⟩ := valid
      refine ⟨by simp [chars], ?_⟩
      rw [chars, List.forall_mem_cons]
      refine ⟨?_, rest⟩
      rcases (by simpa [isIdentStart] using start : CoqPath.isLetter c = true ∨ c = '_') with
        letter | rfl
      · simp [isWordChar, CoqPath.isMemberChar, letter]
      · decide

/-! ## Printers -/

def ppAsTuple {α : Type} (pp : α → String) : List α → String
  | [] => "()"
  | [x] => pp x
  | x :: xs => "(" ++ pp x ++ String.join (xs.map fun y => ", " ++ pp y) ++ ")"

/-- The name of the bound variable behind which a pattern is encoded. -/
def ppEncodedPattName (used : Bool) : List String → String
  | [] => if used then "unit__" else "_"
  | [x] => x
  | _ => "patt__"

/-- Projection to component `i` of a tuple with `n` components. Without components, the
source does not terminate. -/
def ppProjection : Nat → Nat → Option String
  | 0, _ => none
  | 1, _ => some ""
  | n + 2, i => if i = n + 1 then some ".2" else (".1" ++ ·) <$> ppProjection (n + 1) i

/-- Output of the formatter. -/
inductive FormatItem where
  | str (s : String)
  /-- `@;` -/
  | brk

def ppLet (nb i : Nat) (x : String) : Option (List FormatItem) := do
  let projection ← ppProjection nb i
  some [.str "let ", .str x, .str " := patt__", .str projection, .str " in", .brk]

def ppEncodedPattBindings (xs : List String) : Option (List FormatItem) :=
  if xs.length ≤ 1 then some []
  else List.flatten <$> xs.zipIdx.mapM fun x => ppLet xs.length x.2 x.1

def ppIntros {β : Type} : List (String × β) → String
  | [] => "[]"
  | [x] => x.1
  | x :: xs =>
      String.join (xs.map fun _ => "[") ++ x.1 ++ String.join (xs.map fun y => " " ++ y.1 ++ "]")

/-! ## Rendering -/

def IsBreak (cs : List Char) : Prop := cs = [' '] ∨ ∃ k, cs = '\n' :: List.replicate k ' '

/-- The texts that the formatter may make of its output. -/
inductive RendersTo : List FormatItem → List Char → Prop where
  | nil : RendersTo [] []
  | str {s items cs} : RendersTo items cs → RendersTo (.str s :: items) (s.toList ++ cs)
  | brk {items cs b} : IsBreak b → RendersTo items cs → RendersTo (.brk :: items) (b ++ cs)

theorem IsBreak.blanks {b : List Char} (isBreak : IsBreak b) : ∀ c ∈ b, isBlank c = true := by
  rcases isBreak with rfl | ⟨k, rfl⟩
  · simp [isBlank]
  · simp +contextual [isBlank]

private theorem IsBreak.endsWord {b : List Char} (isBreak : IsBreak b) (cs : List Char) :
    EndsWord (b ++ cs) := by
  rcases isBreak with rfl | ⟨k, rfl⟩
  · exact endsWord_cons (by decide)
  · exact endsWord_cons (by decide)

/-! ## Tuples -/

private theorem readTuple_ppAsTuple {x : String} {xs : List String} (isWord : SingleWord x)
    (areWords : ∀ y ∈ xs, SingleWord y) :
    readTuple (tokens (ppAsTuple id (x :: xs)).toList) =
      some (.tuple (.leaf x) (xs.map .leaf)) := by
  cases xs with
  | nil =>
      rw [ppAsTuple, id, (lexes_word isWord).tokens_eq]
      rfl
  | cons x' xs =>
      have printed : (ppAsTuple id (x :: x' :: xs)).toList =
          '(' :: (x.toList ++ ((x' :: xs).flatMap (fun y => ',' :: ' ' :: y.toList) ++ [')'])) := by
        simp [ppAsTuple, List.flatMap_map]
      have components : Lexes ((x' :: xs).flatMap fun y => ',' :: ' ' :: y.toList)
          ((x' :: xs).flatMap fun y => [.sym ',', .word y]) :=
        lexes_flatMap (fun y _ => endsWord_cons (by decide)) fun y member =>
          ((lexes_word (areWords y member)).cons_blank (by decide)).cons_sym (by decide) (by decide)
      have closing : Lexes [')'] [.sym ')'] := lexes_nil.cons_sym (by decide) (by decide)
      have lexes := ((lexes_word isWord).append
        (components.append closing (endsWord_cons (by decide)))
        ((endsWord_flatMap fun y _ => endsWord_cons (by decide)).append
          (endsWord_cons (by decide)))).cons_sym (c := '(') (by decide) (by decide)
      rw [printed, lexes.tokens_eq]
      exact readComponents_names (.leaf x) (x' :: xs)

/-! ## Projections -/

def sideText : Side → String
  | .fst => ".1"
  | .snd => ".2"

def pathText (path : List Side) : String := String.join (path.map sideText)

private theorem ppProjection_succ (n i : Nat) :
    ppProjection (n + 1) i = some (pathText (Nest.tuplePath (n + 1) i)) := by
  induction n with
  | zero => rfl
  | succ n inductionHypothesis =>
      rw [ppProjection, Nest.tuplePath]
      split
      · rfl
      · rw [inductionHypothesis, pathText, pathText, List.map_cons, String.join_cons]
        rfl

private theorem sideText_ends (side : Side) : EndsWord (sideText side).toList := by
  cases side with
  | fst => exact endsWord_cons (by decide)
  | snd => exact endsWord_cons (by decide)

private theorem lexes_sideText (side : Side) : Lexes (sideText side).toList (sideTokens side) := by
  cases side with
  | fst => exact (lexes_literal "1" (by decide) (by decide)).cons_sym (by decide) (by decide)
  | snd => exact (lexes_literal "2" (by decide) (by decide)).cons_sym (by decide) (by decide)

private theorem lexes_pathText (path : List Side) :
    Lexes (pathText path).toList (path.flatMap sideTokens) := by
  rw [pathText, String.toList_join, List.flatMap_map]
  exact lexes_flatMap (fun side _ => sideText_ends side) (fun side _ => lexes_sideText side)

private theorem pathText_ends (path : List Side) : EndsWord (pathText path).toList := by
  rw [pathText, String.toList_join, List.flatMap_map]
  exact endsWord_flatMap fun side _ => sideText_ends side

/-! ## Intro patterns -/

private theorem readIntro_ppIntros {β : Type} {x : String × β} {xs : List (String × β)}
    (isWord : SingleWord x.1) (areWords : ∀ y ∈ xs, SingleWord y.1) :
    readIntro [] (tokens (ppIntros (x :: xs)).toList) =
      some (.tuple (.leaf x.1) ((xs.map Prod.fst).map .leaf)) := by
  cases xs with
  | nil =>
      rw [ppIntros, (lexes_word isWord).tokens_eq]
      rfl
  | cons x' xs =>
      have printed : (ppIntros (x :: x' :: xs)).toList =
          List.replicate (x' :: xs).length '[' ++
            (x.1.toList ++ (x' :: xs).flatMap fun y => ' ' :: (y.1.toList ++ [']'])) := by
        simp [ppIntros, List.flatMap_map, List.flatMap_replicate,
          List.replicate_succ]
      have closings : Lexes ((x' :: xs).flatMap fun y => ' ' :: (y.1.toList ++ [']']))
          (((x' :: xs).map Prod.fst).flatMap fun y => [.word y, .sym ']']) := by
        rw [List.flatMap_map]
        exact lexes_flatMap (fun y _ => endsWord_cons (by decide)) fun y member =>
          ((lexes_word (areWords y member)).append
            (lexes_nil.cons_sym (by decide) (by decide))
            (endsWord_cons (by decide))).cons_blank (by decide)
      have lexes := ((lexes_word isWord).append closings
        (endsWord_flatMap fun y _ => endsWord_cons (by decide))).replicate_sym (c := '[')
          (by decide) (by decide) (x' :: xs).length
      rw [printed, lexes.tokens_eq, readIntro_openings, List.append_nil, List.cons_append,
        readIntro, ← List.length_map Prod.fst]
      exact readIntro_names (.leaf x.1) ((x' :: xs).map Prod.fst)

/-! ## Bindings -/

def letItems (x projection : String) : List FormatItem :=
  [.str "let ", .str x, .str " := patt__", .str projection, .str " in", .brk]

def letText (x projection : String) : List Char :=
  "let ".toList ++ (x.toList ++ (" := patt__".toList ++ (projection.toList ++ " in".toList)))

private theorem lexes_letText {x : String} (isWord : SingleWord x) (path : List Side) :
    Lexes (letText x (pathText path))
      (.word "let" :: .word x :: .sym ':' :: .sym '=' :: .word "patt__" ::
        (path.flatMap sideTokens ++ [.word "in"])) := by
  have lexesIn : Lexes " in".toList [.word "in"] :=
    (lexes_literal "in" (by decide) (by decide)).cons_blank (by decide)
  have projected := (lexes_literal "patt__" (by decide) (by decide)).append
    ((lexes_pathText path).append lexesIn (endsWord_cons (by decide)))
    ((pathText_ends path).append (endsWord_cons (by decide)))
  have defined := (lexes_word isWord).append
    ((((projected.cons_blank (c := ' ') (by decide)).cons_sym (c := '=') (by decide)
      (by decide)).cons_sym (c := ':') (by decide) (by decide)).cons_blank (c := ' ') (by decide))
    (endsWord_cons (by decide))
  exact (lexes_literal "let" (by decide) (by decide)).append
    (defined.cons_blank (c := ' ') (by decide)) (endsWord_cons (by decide))

private theorem RendersTo.letItems {x projection : String} {items : List FormatItem}
    {text : List Char} (renders : RendersTo (letItems x projection ++ items) text) :
    ∃ b cs, IsBreak b ∧ RendersTo items cs ∧ text = letText x projection ++ (b ++ cs) := by
  obtain _ | ⟨_ | ⟨_ | ⟨_ | ⟨_ | ⟨_ | _ | ⟨isBreak, rest⟩⟩⟩⟩⟩⟩ := renders
  exact ⟨_, _, isBreak, rest, by simp only [letText, List.append_assoc]⟩

private theorem exists_renders (items : List FormatItem) : ∃ text, RendersTo items text := by
  induction items with
  | nil => exact ⟨[], .nil⟩
  | cons item items inductionHypothesis =>
      obtain ⟨text, renders⟩ := inductionHypothesis
      cases item with
      | str s => exact ⟨_, .str renders⟩
      | brk => exact ⟨_, .brk (.inl rfl) renders⟩

def bindingItems (path : Nat → List Side) (names : List String) (k : Nat) : List FormatItem :=
  (names.zipIdx k).flatMap fun x => letItems x.1 (pathText (path x.2))

private theorem readsLets_bindingItems {path : Nat → List Side} {names : List String} {k : Nat}
    (areWords : ∀ y ∈ names, SingleWord y) {text : List Char}
    (renders : RendersTo (bindingItems path names k) text) (body : List Char) :
    ReadsLets (tokens (text ++ body)) (projectLets "patt__" path names k) (tokens body) := by
  induction names generalizing k text with
  | nil =>
      cases renders
      exact .done
  | cons x names inductionHypothesis =>
      rw [List.forall_mem_cons] at areWords
      rw [bindingItems, List.zipIdx_cons, List.flatMap_cons] at renders
      obtain ⟨b, cs, isBreak, rest, rfl⟩ := renders.letItems
      have first : tokens (letText x (pathText (path k)) ++ (b ++ cs) ++ body) =
          .word "let" :: .word x :: .sym ':' :: .sym '=' :: .word "patt__" ::
            ((path k).flatMap sideTokens ++ .word "in" :: tokens (cs ++ body)) := by
        rw [List.append_assoc, List.append_assoc,
          lexes_letText areWords.1 (path k) _ (isBreak.endsWord _),
          tokens_blanks isBreak.blanks]
        simp
      rw [first]
      exact .step (readLet_path x "patt__" (path k) _) (inductionHypothesis areWords.2 rest)

private theorem ppEncodedPattBindings_eq {xs : List String} (several : ¬ xs.length ≤ 1) :
    ppEncodedPattBindings xs = some (bindingItems (Nest.tuplePath xs.length) xs 0) := by
  obtain ⟨n, isLength⟩ : ∃ n, xs.length = n + 1 := ⟨xs.length - 1, by omega⟩
  have lets : (fun x : String × Nat => ppLet xs.length x.2 x.1) = fun x =>
      pure (letItems x.1 (pathText (Nest.tuplePath xs.length x.2))) := by
    funext x
    rw [ppLet, isLength, ppProjection_succ]
    rfl
  rw [ppEncodedPattBindings, if_neg several, lets, List.mapM_pure]
  rfl

/-! ## Components and their names -/

/-- The scope `inner` adds bindings of the names, each one to its own value, to `scope`. The
variable of an encoded pattern may be added as well. -/
structure BindsEach {α : Type} (names : List String) (values : List (Nest α))
    (scope inner : Scope α) : Prop where
  bindings : ∃ outer, inner = (names.zip values).reverse ++ outer
  visible : names.Nodup → ∀ (i : Nat) name value, names[i]? = some name →
    values[i]? = some value → inner.lookup name = some value
  others : ∀ y, y ∉ names → y ≠ "patt__" → inner.lookup y = scope.lookup y

private theorem bindsEach_of_eq {α : Type} {names : List String} {values : List (Nest α)}
    {scope outer : Scope α} (sameLength : values.length = names.length)
    (others : ∀ y, y ≠ "patt__" → outer.lookup y = scope.lookup y) :
    BindsEach names values scope ((names.zip values).reverse ++ outer) := by
  have keys : (names.zip values).map Prod.fst = names := List.map_fst_zip (by omega)
  refine ⟨⟨outer, rfl⟩, ?_, ?_⟩
  · intro distinct i name value isName isValue
    have member : (name, value) ∈ (names.zip values).reverse := by
      rw [List.mem_reverse]
      refine List.mem_of_getElem? (i := i) ?_
      rw [List.getElem?_zip_eq_some]
      exact ⟨isName, isValue⟩
    have found : (names.zip values).reverse.lookup name = some value := by
      refine lookup_of_mem ?_ member
      rwa [List.map_reverse, List.nodup_reverse, keys]
    rw [List.lookup_append, found]
    rfl
  · intro y absent other
    have hidden : (names.zip values).reverse.lookup y = none := by
      rwa [lookup_eq_none_iff, List.map_reverse, List.mem_reverse, keys]
    rw [List.lookup_append, hidden]
    exact others y other

/-- The printers agree on the components of a tuple with the names `x` and `xs`. -/
structure TuplePrintersAgree (x : String) (xs : List String) : Prop where
  tuple : readTuple (tokens (ppAsTuple id (x :: xs)).toList) =
    some (.tuple (.leaf x) (xs.map .leaf))
  projection : ∀ {α : Type} (t : Nest α) (ts : List (Nest α)), ts.length = xs.length →
    ∀ i ≤ xs.length, ∃ text path, ppProjection (xs.length + 1) i = some text ∧
      readProjections (tokens text.toList) = (path, []) ∧
      Nest.select path (.tuple t ts) = (t :: ts)[i]?
  bindings : ∃ items bs, ppEncodedPattBindings (x :: xs) = some items ∧
    (∀ text body, RendersTo items text → ReadsLets (tokens (text ++ body)) bs (tokens body)) ∧
    ∀ {α : Type} (t : Nest α) (ts : List (Nest α)), ts.length = xs.length →
      ∀ (used : Bool) (scope : Scope α), ∃ inner,
        evalLets ((ppEncodedPattName used (x :: xs), .tuple t ts) :: scope) bs = some inner ∧
        BindsEach (x :: xs) (t :: ts) scope inner
  intros : ∀ {β : Type} (params : List (String × β)), params.map Prod.fst = x :: xs →
    ∃ p, readIntro [] (tokens (ppIntros params).toList) = some p ∧
      ∀ {α : Type} (t : Nest α) (ts : List (Nest α)), ts.length = xs.length →
        p.destruct (.tuple t ts) = some ((x :: xs).zip (t :: ts))

section

variable {x : String} {xs : List String}

private theorem ppProjection_selects {α : Type} (t : Nest α) (ts : List (Nest α)) {i : Nat}
    (bound : i ≤ ts.length) :
    ∃ text path, ppProjection (ts.length + 1) i = some text ∧
      readProjections (tokens text.toList) = (path, []) ∧
      Nest.select path (.tuple t ts) = (t :: ts)[i]? := by
  refine ⟨_, Nest.tuplePath (ts.length + 1) i, ppProjection_succ ts.length i, ?_,
    Nest.select_tuplePath t ts bound⟩
  have lexes := lexes_pathText (Nest.tuplePath (ts.length + 1) i)
  have read : readProjections ((Nest.tuplePath (ts.length + 1) i).flatMap sideTokens ++ []) =
      (Nest.tuplePath (ts.length + 1) i, []) := readProjections_path _ rfl
  rwa [List.append_nil, ← lexes.tokens_eq] at read

private theorem ppIntros_destructs {β : Type} {params : List (String × β)}
    (isWord : SingleWord x)
    (areWords : ∀ y ∈ xs, SingleWord y) (names : params.map Prod.fst = x :: xs) :
    ∃ p, readIntro [] (tokens (ppIntros params).toList) = some p ∧
      ∀ {α : Type} (t : Nest α) (ts : List (Nest α)), ts.length = xs.length →
        p.destruct (.tuple t ts) = some ((x :: xs).zip (t :: ts)) := by
  obtain ⟨param, params, rfl, rfl, rfl⟩ := List.map_eq_cons_iff.mp names
  refine ⟨_, readIntro_ppIntros isWord fun y member => areWords _ (List.mem_map_of_mem member),
    fun t ts sameLength => Nest.destruct_tuple param.1 _ t ts sameLength⟩

/-- What the printed bindings are read as, and what they define. -/
theorem ppEncodedPattBindings_binds (isWord : SingleWord x) (areWords : ∀ y ∈ xs, SingleWord y)
    (kept : "patt__" ∉ (x :: xs).dropLast) :
    ∃ items bs, ppEncodedPattBindings (x :: xs) = some items ∧
      (∀ text body, RendersTo items text →
        ReadsLets (tokens (text ++ body)) bs (tokens body)) ∧
      ∀ {α : Type} (t : Nest α) (ts : List (Nest α)), ts.length = xs.length →
        ∀ (used : Bool) (scope : Scope α), ∃ inner,
          evalLets ((ppEncodedPattName used (x :: xs), .tuple t ts) :: scope) bs = some inner ∧
          BindsEach (x :: xs) (t :: ts) scope inner := by
  cases xs with
  | nil =>
      refine ⟨[], [], rfl, ?_, ?_⟩
      · intro text body renders
        cases renders
        exact .done
      · intro α t ts sameLength used scope
        cases List.eq_nil_of_length_eq_zero sameLength
        exact ⟨(x, t) :: scope, rfl, bindsEach_of_eq rfl fun y _ => rfl⟩
  | cons x' xs =>
      have several : ¬ (x :: x' :: xs).length ≤ 1 := by simp
      refine ⟨_, _, ppEncodedPattBindings_eq several,
        fun text body renders =>
          readsLets_bindingItems
            (List.forall_mem_cons.mpr ⟨isWord, areWords⟩) renders body, ?_⟩
      intro α t ts sameLength used scope
      have length : (t :: ts).length = (x :: x' :: xs).length := congrArg (· + 1) sameLength
      refine ⟨_, evalLets_project List.lookup_cons_self length ?_ kept,
        bindsEach_of_eq length ?_⟩
      · intro i inside
        rw [← length] at inside ⊢
        rw [Nat.zero_add]
        exact Nest.select_tuplePath t ts (Nat.le_of_lt_succ inside)
      · intro y other
        change List.lookup y (("patt__", Nest.tuple t ts) :: scope) = scope.lookup y
        rw [List.lookup_cons, beq_false_of_ne other]

private theorem not_agree_of_captured (isWord : SingleWord x)
    (areWords : ∀ y ∈ xs, SingleWord y)
    (captured : "patt__" ∈ (x :: xs).dropLast) : ¬ TuplePrintersAgree x xs := by
  intro agree
  obtain ⟨items, bs, printed, reads, defines⟩ := agree.bindings
  cases xs with
  | nil => cases captured
  | cons x' xs =>
      have several : ¬ (x :: x' :: xs).length ≤ 1 := by simp
      rw [ppEncodedPattBindings_eq several] at printed
      cases printed
      obtain ⟨text, renders⟩ := exists_renders
        (bindingItems (Nest.tuplePath (x :: x' :: xs).length) (x :: x' :: xs) 0)
      have read :=
        readsLets_bindingItems (List.forall_mem_cons.mpr ⟨isWord, areWords⟩) renders []
      rw [(reads text [] renders).functional read] at defines
      -- No component is a pair, so a projection from a component is stuck.
      let ts : List (Nest Unit) := List.replicate (xs.length + 1) (.leaf ())
      obtain ⟨inner, evaluates, -⟩ := defines (.leaf ()) ts List.length_replicate true []
      have selects : ∀ i < (x :: x' :: xs).length,
          Nest.select (Nest.tuplePath (x :: x' :: xs).length (0 + i)) (.tuple (.leaf ()) ts) =
            some (.leaf ()) := by
        intro i inside
        rw [Nat.zero_add]
        exact Nest.select_tuplePath_replicate _ (Nat.le_of_lt_succ inside)
      have stuck : some inner = none := evaluates.symm.trans <|
        evalLets_captured List.lookup_cons_self selects (fun i => Nest.tuplePath_ne_nil) captured
      cases stuck

end

theorem tuplePrinters_agree_iff (x : Ident) (xs : List Ident) :
    TuplePrintersAgree x.name (xs.map Ident.name) ↔
      "patt__" ∉ (x.name :: xs.map Ident.name).dropLast := by
  have areWords : ∀ y ∈ xs.map Ident.name, SingleWord y := by
    rw [List.forall_mem_map]
    exact fun y _ => y.isWord
  constructor
  · exact fun agree captured => not_agree_of_captured x.isWord areWords captured agree
  · exact fun kept =>
      { tuple := readTuple_ppAsTuple x.isWord areWords
        projection := fun t ts sameLength i bound => by
          rw [← sameLength] at bound ⊢
          exact ppProjection_selects t ts bound
        bindings := ppEncodedPattBindings_binds x.isWord areWords kept
        intros := fun params names => ppIntros_destructs x.isWord areWords names }

/-- `patt__` is hidden by the first binding, and the second one needs it. -/
theorem tuplePrinters_disagree_patt : ¬ TuplePrintersAgree "patt__" ["y"] :=
  not_agree_of_captured (singleWord_of_all (by decide) (by decide)) (by
    rw [List.forall_mem_singleton]
    exact singleWord_of_all (by decide) (by decide)) (by decide)

example : ppIntros [("x", ()), ("y", ()), ("z", ())] = "[[x y] z]" ∧
    (List.range 3).map (ppProjection 3) = [some ".1.1", some ".1.2", some ".2"] := by decide

end RefinedC.Frontend
