import RefinedC.Frontend.CoqPath
import RefinedC.Library.Tuple

/-!
Tuples in Coq text.

Source: the notation of Coq for tuples, the projections `.1` and `.2`, the intro patterns
for pairs, and `let`.

Owns: the words and symbols of a text, what a printed tuple, a chain of projections, an
intro pattern and a chain of bindings are read as, and what the bindings define.

Does not own: other terms of Coq. Reserved words are not told apart from names, and a name
may occur twice in an intro pattern.
-/

namespace RefinedC.Frontend.CoqText

open Library

/-! ## Tokens -/

inductive Token where
  | word (w : String)
  | sym (c : Char)
deriving DecidableEq

def isWordChar (c : Char) : Bool := CoqPath.isMemberChar c

def isBlank (c : Char) : Bool := c == ' ' || c == '\n'

/-- A word that ends. -/
def wordToken (w : List Char) : List Token :=
  if w = [] then [] else [.word (String.ofList w)]

def symToken (c : Char) : List Token := if isBlank c then [] else [.sym c]

/-- The tokens of a text that follows the characters `w` of a word. -/
def tokenize : List Char → List Char → List Token
  | w, [] => wordToken w
  | w, c :: cs =>
      if isWordChar c then tokenize (w ++ [c]) cs
      else wordToken w ++ symToken c ++ tokenize [] cs

def tokens (cs : List Char) : List Token := tokenize [] cs

structure SingleWord (w : String) : Prop where
  notNil : w.toList ≠ []
  chars : ∀ c ∈ w.toList, isWordChar c = true

theorem singleWord_of_all {w : String} (notNil : w.toList ≠ [])
    (all : w.toList.all isWordChar = true) : SingleWord w :=
  ⟨notNil, List.all_eq_true.mp all⟩

/-- A word in front of `cs` ends there. -/
def EndsWord (cs : List Char) : Prop := ∀ c ∈ cs.head?, isWordChar c = false

private theorem endsWord_nil : EndsWord [] := by simp [EndsWord]

theorem endsWord_cons {c : Char} {cs : List Char} (other : isWordChar c = false) :
    EndsWord (c :: cs) := by
  simpa [EndsWord] using other

private theorem tokenize_chars {w v : List Char} (chars : ∀ c ∈ v, isWordChar c = true)
    (cs : List Char) : tokenize w (v ++ cs) = tokenize (w ++ v) cs := by
  induction v generalizing w with
  | nil => rw [List.nil_append, List.append_nil]
  | cons c v inductionHypothesis =>
      rw [List.cons_append, tokenize, if_pos (chars c List.mem_cons_self),
        inductionHypothesis fun c' member => chars c' (List.mem_cons_of_mem c member),
        List.append_assoc, List.singleton_append]

theorem EndsWord.append {cs cs' : List Char} (first : EndsWord cs) (second : EndsWord cs') :
    EndsWord (cs ++ cs') := by
  cases cs with
  | nil => exact second
  | cons c cs => exact first

/-- A text has the tokens `ts`, whatever follows where a word ends. -/
def Lexes (text : List Char) (ts : List Token) : Prop :=
  ∀ cs, EndsWord cs → tokens (text ++ cs) = ts ++ tokens cs

theorem Lexes.tokens_eq {text : List Char} {ts : List Token} (lexes : Lexes text ts) :
    tokens text = ts := by
  have alone := lexes [] endsWord_nil
  rw [List.append_nil] at alone
  rw [alone]
  exact List.append_nil ts

theorem lexes_nil : Lexes [] [] := fun _ _ => rfl

theorem lexes_word {w : String} (isWord : SingleWord w) : Lexes w.toList [.word w] := by
  intro cs ends
  have finished : wordToken w.toList = [.word w] := by
    rw [wordToken, if_neg isWord.notNil, String.ofList_toList]
  rw [tokens, tokenize_chars isWord.chars, List.nil_append]
  cases cs with
  | nil => rw [tokenize, finished]; rfl
  | cons c cs =>
      have other : ¬ isWordChar c = true := by simp [ends c rfl]
      rw [tokenize, if_neg other, finished, tokens, tokenize, if_neg other]
      rfl

theorem lexes_literal (w : String) (notNil : w.toList ≠ [])
    (all : w.toList.all isWordChar = true) : Lexes w.toList [.word w] :=
  lexes_word (singleWord_of_all notNil all)

section

variable {text text' : List Char} {ts ts' : List Token} {c : Char}

private theorem tokens_cons (other : isWordChar c = false) (cs : List Char) :
    tokens (c :: cs) = symToken c ++ tokens cs := by
  simp [tokens, tokenize, other, wordToken]

theorem Lexes.cons_sym (other : isWordChar c = false) (notBlank : isBlank c = false)
    (lexes : Lexes text ts) : Lexes (c :: text) (.sym c :: ts) := by
  intro cs ends
  rw [List.cons_append, tokens_cons other, lexes cs ends, symToken, notBlank]
  rfl

theorem Lexes.replicate_sym (other : isWordChar c = false) (notBlank : isBlank c = false)
    (lexes : Lexes text ts) (n : Nat) :
    Lexes (List.replicate n c ++ text) (List.replicate n (.sym c) ++ ts) := by
  induction n with
  | zero => exact lexes
  | succ n inductionHypothesis => exact inductionHypothesis.cons_sym other notBlank

private theorem isWordChar_of_isBlank (blank : isBlank c = true) : isWordChar c = false := by
  rcases (by simpa [isBlank] using blank : c = ' ' ∨ c = '\n') with rfl | rfl
  · decide
  · decide

theorem tokens_blanks {b : List Char} (blanks : ∀ c ∈ b, isBlank c = true) (cs : List Char) :
    tokens (b ++ cs) = tokens cs := by
  induction b with
  | nil => rfl
  | cons c b inductionHypothesis =>
      rw [List.forall_mem_cons] at blanks
      rw [List.cons_append, tokens_cons (isWordChar_of_isBlank blanks.1), symToken, blanks.1,
        inductionHypothesis blanks.2]
      rfl

theorem Lexes.cons_blank (blank : isBlank c = true) (lexes : Lexes text ts) :
    Lexes (c :: text) ts := by
  intro cs ends
  rw [List.cons_append, ← lexes cs ends]
  exact tokens_blanks (b := [c]) (by simpa using blank) _

theorem Lexes.append (first : Lexes text ts) (second : Lexes text' ts')
    (ends : EndsWord text') : Lexes (text ++ text') (ts ++ ts') := by
  intro cs endsAfter
  rw [List.append_assoc, first _ (ends.append endsAfter), second cs endsAfter,
    List.append_assoc]

theorem endsWord_flatMap {α : Type} {f : α → List Char} {xs : List α}
    (ends : ∀ x ∈ xs, EndsWord (f x)) : EndsWord (xs.flatMap f) := by
  induction xs with
  | nil => exact endsWord_nil
  | cons x xs inductionHypothesis =>
      rw [List.forall_mem_cons] at ends
      rw [List.flatMap_cons]
      exact ends.1.append (inductionHypothesis ends.2)

theorem lexes_flatMap {α : Type} {f : α → List Char} {g : α → List Token} {xs : List α}
    (ends : ∀ x ∈ xs, EndsWord (f x)) (lexes : ∀ x ∈ xs, Lexes (f x) (g x)) :
    Lexes (xs.flatMap f) (xs.flatMap g) := by
  induction xs with
  | nil => exact lexes_nil
  | cons x xs inductionHypothesis =>
      rw [List.forall_mem_cons] at ends lexes
      rw [List.flatMap_cons, List.flatMap_cons]
      exact lexes.1.append (inductionHypothesis ends.2 lexes.2) (endsWord_flatMap ends.2)

end

/-! ## Tuples -/

/-- What follows the components `acc` of a tuple. -/
def readComponents (acc : Nest String) : List Token → Option (Nest String)
  | [.sym ')'] => some acc
  | .sym ',' :: .word x :: ts => readComponents (.pair acc (.leaf x)) ts
  | _ => none

/-- A name, or names in parentheses. `(x, y, .., z)` stands for `pair .. (pair x y) .. z`. -/
def readTuple : List Token → Option (Nest String)
  | [.word x] => some (.leaf x)
  | .sym '(' :: .word x :: ts => readComponents (.leaf x) ts
  | _ => none

theorem readComponents_names (acc : Nest String) (xs : List String) :
    readComponents acc (xs.flatMap (fun x => [.sym ',', .word x]) ++ [.sym ')']) =
      some (.tuple acc (xs.map .leaf)) := by
  induction xs generalizing acc with
  | nil => rfl
  | cons x xs inductionHypothesis =>
      rw [List.flatMap_cons]
      exact inductionHypothesis (.pair acc (.leaf x))

/-! ## Projections -/

/-- The projections at the start of a text. -/
def readProjections : List Token → List Side × List Token
  | .sym '.' :: .word "1" :: ts => (.fst :: (readProjections ts).1, (readProjections ts).2)
  | .sym '.' :: .word "2" :: ts => (.snd :: (readProjections ts).1, (readProjections ts).2)
  | ts => ([], ts)

def sideTokens : Side → List Token
  | .fst => [.sym '.', .word "1"]
  | .snd => [.sym '.', .word "2"]

theorem readProjections_path (path : List Side) {ts : List Token}
    (stops : readProjections ts = ([], ts)) :
    readProjections (path.flatMap sideTokens ++ ts) = (path, ts) := by
  induction path with
  | nil => exact stops
  | cons side path inductionHypothesis =>
      cases side with
      | fst => simp [sideTokens, readProjections, inductionHypothesis]
      | snd => simp [sideTokens, readProjections, inductionHypothesis]

/-! ## Intro patterns -/

inductive IntroItem where
  | opening
  | pattern (p : Nest String)

/-- Reads patterns `x` and `[p q]`. What is already read stands on a stack. Coq refuses a pattern
that uses a name twice or a reserved word, which is not checked here. -/
def readIntro : List IntroItem → List Token → Option (Nest String)
  | [.pattern p], [] => some p
  | stack, .sym '[' :: ts => readIntro (.opening :: stack) ts
  | stack, .word x :: ts => readIntro (.pattern (.leaf x) :: stack) ts
  | .pattern q :: .pattern p :: .opening :: stack, .sym ']' :: ts =>
      readIntro (.pattern (.pair p q) :: stack) ts
  | _, _ => none

theorem readIntro_openings (n : Nat) (stack : List IntroItem) (ts : List Token) :
    readIntro stack (List.replicate n (.sym '[') ++ ts) =
      readIntro (List.replicate n .opening ++ stack) ts := by
  induction n generalizing stack with
  | zero => rfl
  | succ n inductionHypothesis =>
      rw [List.replicate_succ, List.cons_append, readIntro, inductionHypothesis,
        List.replicate_succ', List.append_assoc]
      rfl

/-- Every name closes the innermost pair. -/
theorem readIntro_names (p : Nest String) (xs : List String) :
    readIntro (.pattern p :: List.replicate xs.length .opening)
        (xs.flatMap fun x => [.word x, .sym ']']) = some (.tuple p (xs.map .leaf)) := by
  induction xs generalizing p with
  | nil => rfl
  | cons x xs inductionHypothesis =>
      rw [List.length_cons, List.replicate_succ, List.flatMap_cons]
      exact inductionHypothesis (.pair p (.leaf x))

/-! ## Bindings -/

/-- `let name := var.path in`. -/
structure LetBinding where
  name : String
  var : String
  path : List Side
deriving DecidableEq

def readLet : List Token → Option (LetBinding × List Token)
  | .word "let" :: .word x :: .sym ':' :: .sym '=' :: .word y :: ts =>
      match readProjections ts with
      | (path, .word "in" :: rest) => some (⟨x, y, path⟩, rest)
      | _ => none
  | _ => none

theorem readLet_path (x y : String) (path : List Side) (ts : List Token) :
    readLet (.word "let" :: .word x :: .sym ':' :: .sym '=' :: .word y ::
        (path.flatMap sideTokens ++ .word "in" :: ts)) = some (⟨x, y, path⟩, ts) := by
  rw [readLet, readProjections_path path rfl]
  rfl

/-- Bindings at the start of a text, and what follows them. -/
inductive ReadsLets : List Token → List LetBinding → List Token → Prop where
  | done {ts} : ReadsLets ts [] ts
  | step {ts ts' rest b bs} : readLet ts = some (b, ts') → ReadsLets ts' bs rest →
      ReadsLets ts (b :: bs) rest

/-- A text consists of bindings in one way only. -/
theorem ReadsLets.functional {ts : List Token} {bs bs' : List LetBinding}
    (first : ReadsLets ts bs []) (second : ReadsLets ts bs' []) : bs = bs' := by
  generalize finished : ([] : List Token) = rest at first
  induction first generalizing bs' with
  | done =>
      subst finished
      cases second with
      | done => rfl
      | step read _ => cases read
  | step read _ inductionHypothesis =>
      cases second with
      | done => cases read
      | step read' second =>
          rw [read] at read'
          cases read'
          rw [inductionHypothesis second finished]

/-- The variables in scope, the innermost one first. -/
abbrev Scope (α : Type) := List (String × Nest α)

def LetBinding.eval {α : Type} (scope : Scope α) (b : LetBinding) : Option (Scope α) := do
  let t ← scope.lookup b.var
  let u ← Nest.select b.path t
  some ((b.name, u) :: scope)

def evalLets {α : Type} (scope : Scope α) (bs : List LetBinding) : Option (Scope α) :=
  bs.foldlM LetBinding.eval scope

section

variable {α : Type} {x y : String} {t u : Nest α} {path : List Side} {scope : Scope α}

private theorem LetBinding.eval_of_select (bound : scope.lookup y = some t)
    (selected : Nest.select path t = some u) :
    LetBinding.eval scope ⟨x, y, path⟩ = some ((x, u) :: scope) := by
  simp [LetBinding.eval, bound, selected]

private theorem LetBinding.eval_leaf {a : α} (bound : scope.lookup y = some (.leaf a))
    (notNil : path ≠ []) : LetBinding.eval scope ⟨x, y, path⟩ = none := by
  simp [LetBinding.eval, bound, Nest.select_leaf_of_ne_nil notNil]

private theorem evalLets_cons (scope : Scope α) (b : LetBinding) (bs : List LetBinding) :
    evalLets scope (b :: bs) = LetBinding.eval scope b >>= fun inner => evalLets inner bs :=
  List.foldlM_cons

end

/-- Bindings of `names`, numbered from `k`, that all project from the variable `y`. -/
def projectLets (y : String) (path : Nat → List Side) (names : List String) (k : Nat) :
    List LetBinding :=
  (names.zipIdx k).map fun x => ⟨x.1, y, path x.2⟩

section

variable {α : Type} {y : String} {t : Nest α} {path : Nat → List Side}

theorem evalLets_project {names : List String} {values : List (Nest α)} {k : Nat}
    {scope : Scope α} (bound : scope.lookup y = some t) (sameLength : values.length = names.length)
    (selects : ∀ i < names.length, Nest.select (path (k + i)) t = values[i]?)
    (kept : y ∉ names.dropLast) :
    evalLets scope (projectLets y path names k) = some ((names.zip values).reverse ++ scope) := by
  induction names generalizing values k scope with
  | nil => rfl
  | cons x names inductionHypothesis =>
      obtain ⟨u, us, rfl⟩ := List.exists_cons_of_length_eq_add_one sameLength
      have first : LetBinding.eval scope ⟨x, y, path k⟩ = some ((x, u) :: scope) :=
        LetBinding.eval_of_select bound (selects 0 (Nat.zero_lt_succ _))
      have rest : evalLets ((x, u) :: scope) (projectLets y path names (k + 1)) =
          some ((names.zip us).reverse ++ (x, u) :: scope) := by
        cases names with
        | nil => rfl
        | cons x' names =>
            -- A further binding needs `y`, so `x` must not hide it.
            rw [List.dropLast_cons_cons, List.mem_cons, not_or] at kept
            refine inductionHypothesis ?_ (Nat.succ.inj sameLength) ?_ kept.2
            · rw [List.lookup_cons, beq_false_of_ne kept.1]
              exact bound
            · intro i inside
              have selected := selects (i + 1) (Nat.succ_lt_succ inside)
              rwa [List.getElem?_cons_succ, Nat.add_comm i 1, ← Nat.add_assoc] at selected
      rw [projectLets, List.zipIdx_cons, List.map_cons, evalLets_cons, first]
      simpa [projectLets] using rest

/-- The bindings get stuck when one of them hides `y` in front of another one. -/
theorem evalLets_captured {a : α} {names : List String} {k : Nat} {scope : Scope α}
    (bound : scope.lookup y = some t)
    (selects : ∀ i < names.length, Nest.select (path (k + i)) t = some (.leaf a))
    (notNil : ∀ i, path i ≠ []) (captured : y ∈ names.dropLast) :
    evalLets scope (projectLets y path names k) = none := by
  induction names generalizing k scope with
  | nil => cases captured
  | cons x names inductionHypothesis =>
      obtain ⟨x', names, rfl⟩ : ∃ x' names', names = x' :: names' := by
        refine List.exists_cons_of_ne_nil ?_
        rintro rfl
        cases captured
      have first : LetBinding.eval scope ⟨x, y, path k⟩ = some ((x, .leaf a) :: scope) :=
        LetBinding.eval_of_select bound (selects 0 (Nat.zero_lt_succ _))
      have rest : evalLets ((x, .leaf a) :: scope)
          (projectLets y path (x' :: names) (k + 1)) = none := by
        by_cases same : y = x
        · subst same
          rw [projectLets, List.zipIdx_cons, List.map_cons, evalLets_cons,
            LetBinding.eval_leaf (List.lookup_cons_self ..) (notNil _)]
          rfl
        · rw [List.dropLast_cons_cons, List.mem_cons] at captured
          refine inductionHypothesis ?_ ?_ (captured.resolve_left same)
          · rw [List.lookup_cons, beq_false_of_ne same]
            exact bound
          · intro i inside
            have selected := selects (i + 1) (Nat.succ_lt_succ inside)
            rwa [Nat.add_comm i 1, ← Nat.add_assoc] at selected
      rw [projectLets, List.zipIdx_cons, List.map_cons, evalLets_cons, first]
      exact rest

end

end RefinedC.Frontend.CoqText
