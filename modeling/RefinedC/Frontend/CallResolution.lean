import Mathlib.Logic.Relation
import Mathlib.Data.List.ProdSigma
import RefinedC.Frontend.CollectedTaints
import RefinedC.Frontend.EscapeAnalysis

/-!
What the resolution of calls computes.

Owns: the elements of resolved taint lists in terms of the unresolved ones,
reachability in the call graph of a program, and the exact programs for which
resolution removes every call and keeps every access.

Does not own: how the taints of functions are collected.

Both passes fold over a list of taints from the left and restart at an indirect
call. `resolve_calls` substitutes the callees' unresolved lists.
-/

namespace RefinedC.Frontend

open Library

/-! ## Taint lists -/

def Taint.isAccess : Taint → Bool
  | .load _ | .store _ => true
  | .callWild | .call _ => false

/-- No call is left. -/
def Closed (ts : List Taint) : Prop := ∀ t ∈ ts, t.isAccess = true

instance (ts : List Taint) : Decidable (Closed ts) :=
  inferInstanceAs (Decidable (∀ t ∈ ts, _))

/-- The part of a list after its last indirect call. -/
def afterWild : List Taint → List Taint
  | [] => []
  | t :: ts =>
      if .callWild ∈ ts then afterWild ts
      else if t = .callWild then ts
      else t :: ts

theorem afterWild_eq_self {ts : List Taint} (noWild : .callWild ∉ ts) : afterWild ts = ts := by
  cases ts with
  | nil => rfl
  | cons t ts =>
      simp only [List.mem_cons, not_or] at noWild
      simp only [afterWild, if_neg noWild.2, if_neg (Ne.symm noWild.1)]

theorem mem_of_mem_afterWild {t : Taint} {ts : List Taint} (member : t ∈ afterWild ts) :
    t ∈ ts := by
  induction ts with
  | nil => simp [afterWild] at member
  | cons head tail inductionHypothesis =>
      rw [afterWild] at member
      split at member
      · exact List.mem_cons_of_mem _ (inductionHypothesis member)
      · split at member
        · exact List.mem_cons_of_mem _ member
        · exact member

/-! ## Folding over a taint list -/

section Fold

/-- A pass that substitutes `sub f` for a call of `f`. -/
structure Substitutes (step : List Taint → Taint → Result (List Taint))
    (sub : Sym → List Taint) : Prop where
  call : ∀ {acc f acc'}, step acc (.call f) = .ok acc' → acc' = sub f ++ acc
  callWild : ∀ acc, step acc .callWild = .ok [.store .wild]
  access : ∀ acc t, t.isAccess = true → step acc t = .ok (t :: acc)

/-- Elements that the pass makes of a list of taints. -/
def Expands (sub : Sym → List Taint) (pts : List Taint) (t : Taint) : Prop :=
  (t.isAccess = true ∧ t ∈ afterWild pts) ∨ (t = .store .wild ∧ .callWild ∈ pts) ∨
    ∃ f, .call f ∈ afterWild pts ∧ t ∈ sub f

variable {step : List Taint → Taint → Result (List Taint)} {sub : Sym → List Taint}

private theorem expands_cons_of_wild {pts : List Taint} {t z : Taint} (later : .callWild ∈ pts) :
    Expands sub (z :: pts) t ↔ Expands sub pts t := by
  simp [Expands, afterWild, later]

private theorem expands_of_noWild {pts : List Taint} {t : Taint} (noWild : .callWild ∉ pts) :
    Expands sub pts t ↔
      (t.isAccess = true ∧ t ∈ pts) ∨ ∃ f, .call f ∈ pts ∧ t ∈ sub f := by
  simp [Expands, afterWild_eq_self noWild, noWild]

/-- Elements of the result of a pass that starts from `acc`. -/
theorem mem_foldlM (substitutes : Substitutes step sub) {pts acc ys : List Taint} {t : Taint}
    (run : pts.foldlM step acc = .ok ys) :
    t ∈ ys ↔ Expands sub pts t ∨ (t ∈ acc ∧ .callWild ∉ pts) := by
  induction pts generalizing acc with
  | nil =>
      cases run
      simp [Expands, afterWild]
  | cons z pts inductionHypothesis =>
      rw [List.foldlM_cons, bind_eq_ok] at run
      obtain ⟨acc', first, rest⟩ := run
      rw [inductionHypothesis rest]
      by_cases later : .callWild ∈ pts
      · rw [expands_cons_of_wild later]
        simp [later]
      · rw [expands_of_noWild later]
        cases z with
        | callWild =>
            rw [substitutes.callWild] at first
            cases first
            simp only [Expands, afterWild, later, if_false, if_true, List.mem_cons,
              and_true, List.not_mem_nil, or_false, not_false_eq_true, not_true_eq_false, and_false]
            rw [or_assoc, or_comm (b := t = .store .wild)]
        | call f =>
            cases substitutes.call first
            rw [expands_of_noWild (by simp [later])]
            simp [later, or_and_right, exists_or]
            constructor
            · rintro ((⟨access, member⟩ | ⟨g, member, inSub⟩) | inSub | old)
              · exact .inl (.inl ⟨access, .inr member⟩)
              · exact .inl (.inr (.inr ⟨g, member, inSub⟩))
              · exact .inl (.inr (.inl inSub))
              · exact .inr old
            · rintro ((⟨access, rfl | member⟩ | inSub | ⟨g, member, inSub⟩) | old)
              · simp [Taint.isAccess] at access
              · exact .inl (.inl ⟨access, member⟩)
              · exact .inr (.inl inSub)
              · exact .inl (.inr ⟨g, member, inSub⟩)
              · exact .inr (.inr old)
        | load p | store p =>
            rw [substitutes.access acc _ rfl] at first
            cases first
            rw [expands_of_noWild (by simp [later])]
            simp [later]
            constructor
            · rintro ((⟨access, member⟩ | inSub) | rfl | old)
              · exact .inl (.inl ⟨access, .inr member⟩)
              · exact .inl (.inr inSub)
              · exact .inl (.inl ⟨rfl, .inl rfl⟩)
              · exact .inr old
            · rintro ((⟨access, rfl | member⟩ | inSub) | old)
              · exact .inr (.inl rfl)
              · exact .inl (.inl ⟨access, member⟩)
              · exact .inl (.inr inSub)
              · exact .inr (.inr old)

private theorem foldlM_ok {pts : List Taint}
    (total : ∀ acc, ∀ t ∈ pts, ∃ acc', step acc t = .ok acc') (acc : List Taint) :
    ∃ ys, pts.foldlM step acc = .ok ys := by
  induction pts generalizing acc with
  | nil => exact ⟨acc, rfl⟩
  | cons t pts inductionHypothesis =>
      obtain ⟨acc', first⟩ := total acc t (by simp)
      obtain ⟨ys, rest⟩ := inductionHypothesis
        (fun acc t member => total acc t (List.mem_cons_of_mem _ member)) acc'
      exact ⟨ys, by rw [List.foldlM_cons, bind_eq_ok]; exact ⟨acc', first, rest⟩⟩

end Fold

/-! ## The two passes -/

/-- The list of a function in a table, empty if there is none. -/
def entry (table : TaintTable) (f : Sym) : List Taint := (table.lookup f).getD []

/-- Every call in the list is to a function of the table. -/
def CallsInTable (table : TaintTable) (pts : List Taint) : Prop :=
  ∀ f, .call f ∈ pts → (table.lookup f).isSome

theorem assoc_eq_ok {table : TaintTable} {f : Sym} {pts : List Taint} :
    assoc f table = .ok pts ↔ table.lookup f = some pts := by
  unfold assoc
  cases table.lookup f <;> simp

private theorem resolveStep2_substitutes (table : TaintTable) :
    Substitutes (resolveStep2 table) (entry table) where
  call := by
    intro acc f acc' run
    simp only [resolveStep2, bind_eq_ok, assoc_eq_ok] at run
    obtain ⟨pts, found, result⟩ := run
    cases result
    simp [entry, found]
  callWild := fun _ => rfl
  access := by
    intro acc t access
    cases t <;> simp [Taint.isAccess] at access <;> rfl

private theorem resolveStep_substitutes (table : TaintTable) (fsym : Sym) :
    Substitutes (resolveStep table fsym) (fun f => if f = fsym then [] else entry table f) where
  call := by
    intro acc f acc' run
    by_cases self : f = fsym
    · simp only [resolveStep, if_pos self, Except.ok.injEq] at run ⊢
      simpa using run.symm
    · rw [resolveStep, if_neg self] at run
      rw [if_neg self]
      exact (resolveStep2_substitutes table).call run
  callWild := fun _ => rfl
  access := by
    intro acc t access
    cases t <;> simp [Taint.isAccess] at access <;> rfl

/-- Elements of the resolved entry of a function. -/
theorem mem_resolveEntry {table : TaintTable} {fsym : Sym} {pts ys : List Taint} {t : Taint}
    (run : resolveEntry table fsym pts = .ok ys) :
    t ∈ ys ↔ Expands (fun f => if f = fsym then [] else entry table f) pts t := by
  rw [mem_foldlM (resolveStep_substitutes table fsym) run]
  simp

/-- Elements of a resolved recorded list. -/
theorem mem_resolveCalls2 {table : TaintTable} {pts ys : List Taint} {t : Taint}
    (run : resolveCalls2 table pts = .ok ys) : t ∈ ys ↔ Expands (entry table) pts t := by
  rw [mem_foldlM (resolveStep2_substitutes table) run]
  simp

private theorem resolveEntry_ok {table : TaintTable} {pts : List Taint} (fsym : Sym)
    (declared : CallsInTable table pts) : ∃ ys, resolveEntry table fsym pts = .ok ys := by
  apply foldlM_ok
  intro acc t member
  cases t with
  | call f =>
      obtain ⟨pts', found⟩ := Option.isSome_iff_exists.mp (declared f member)
      by_cases self : f = fsym
      · exact ⟨acc, by simp [resolveStep, self]⟩
      · exact ⟨pts' ++ acc,
          by simp only [resolveStep, if_neg self, assoc_eq_ok.mpr found]; rfl⟩
  | _ => exact ⟨_, rfl⟩

private theorem resolveCalls2_ok {table : TaintTable} {pts : List Taint}
    (declared : CallsInTable table pts) : ∃ ys, resolveCalls2 table pts = .ok ys := by
  apply foldlM_ok
  intro acc t member
  cases t with
  | call f =>
      obtain ⟨pts', found⟩ := Option.isSome_iff_exists.mp (declared f member)
      exact ⟨pts' ++ acc, by simp only [resolveStep2, assoc_eq_ok.mpr found]; rfl⟩
  | _ => exact ⟨_, rfl⟩

/-- Resolution maps the entries of the table one by one. -/
theorem lookup_mapM {table table' : TaintTable}
    {resolve : Sym → List Taint → Result (List Taint)} (run : table.mapM (fun entry => do
      let pts ← resolve entry.1 entry.2
      return (entry.1, pts)) = .ok table') (f : Sym) :
    match table.lookup f with
    | none => table'.lookup f = none
    | some pts => ∃ ys, resolve f pts = .ok ys ∧ table'.lookup f = some ys := by
  induction table generalizing table' with
  | nil =>
      cases run
      rfl
  | cons head tail inductionHypothesis =>
      obtain ⟨g, pts⟩ := head
      simp only [List.mapM_cons, bind_eq_ok] at run
      obtain ⟨entry', ⟨ys, resolved, same⟩, tail', rest, result⟩ := run
      cases same
      cases result
      by_cases here : f = g
      · subst here
        simpa using resolved
      · have different : (f == g) = false := by simpa using here
        simpa [List.lookup_cons, different] using inductionHypothesis rest

theorem lookup_resolveCalls {table table' : TaintTable} (run : resolveCalls table = .ok table')
    {f : Sym} {pts : List Taint} (found : table.lookup f = some pts) :
    ∃ ys, resolveEntry table f pts = .ok ys ∧ table'.lookup f = some ys := by
  have entries := lookup_mapM run f
  rwa [found] at entries

private theorem resolveCalls_ok {table : TaintTable}
    (declared : ∀ f pts, (f, pts) ∈ table → CallsInTable table pts) :
    ∃ table', resolveCalls table = .ok table' := by
  have prefixes : ∀ part : TaintTable, (∀ p ∈ part, p ∈ table) →
      ∃ part', part.mapM (fun entry => do
        let pts ← resolveEntry table entry.1 entry.2
        return (entry.1, pts)) = .ok part' := by
    intro part
    induction part with
    | nil => exact fun _ => ⟨[], rfl⟩
    | cons head tail inductionHypothesis =>
        intro inTable
        obtain ⟨ys, resolved⟩ :=
          resolveEntry_ok head.1 (declared head.1 head.2 (inTable _ (by simp)))
        obtain ⟨tail', rest⟩ :=
          inductionHypothesis (fun p member => inTable p (List.mem_cons_of_mem _ member))
        refine ⟨(head.1, ys) :: tail', ?_⟩
        simp only [List.mapM_cons, bind_eq_ok]
        exact ⟨(head.1, ys), ⟨ys, resolved, rfl⟩, tail', rest, rfl⟩
  exact prefixes table (fun _ member => member)

/-- A resolved list is closed if the lists substituted in it are. -/
theorem closed_iff_of_expands {sub : Sym → List Taint} {pts ys : List Taint}
    (elements : ∀ t, t ∈ ys ↔ Expands sub pts t) :
    Closed ys ↔ ∀ f, .call f ∈ afterWild pts → Closed (sub f) := by
  constructor
  · intro closed f call t member
    exact closed t ((elements t).mpr (.inr (.inr ⟨f, call, member⟩)))
  · intro closed t member
    rcases (elements t).mp member with ⟨access, -⟩ | ⟨rfl, -⟩ | ⟨f, call, inSub⟩
    · exact access
    · rfl
    · exact closed f call t inSub

/-! ## What a function performs through its callees -/

/-- Functions that a list calls by name. -/
def callees (ts : List Taint) : List Sym :=
  ts.filterMap fun
    | .call f => some f
    | _ => none

private theorem mem_callees {f : Sym} {ts : List Taint} : f ∈ callees ts ↔ .call f ∈ ts := by
  unfold callees
  rw [List.mem_filterMap]
  constructor
  · rintro ⟨t, member, same⟩
    cases t with
    | call g =>
        cases same
        exact member
    | load p | store p | callWild => cases same
  · exact fun member => ⟨.call f, member, rfl⟩

/-- After its last indirect call the list calls only functions whose other
callees, after their last indirect call, make no calls. -/
def ShallowCalls (taints : Sym → List Taint) (xs : List Taint) : Prop :=
  ∀ f, .call f ∈ afterWild xs → ∀ g, g ≠ f → .call g ∈ afterWild (taints f) →
    Closed (taints g)

/-- Access `t` is performed by `f` after its last indirect call, or by another
function that `f` calls there, or it is what the indirect call of `f` stands for. -/
def PerformsDirectly (taints : Sym → List Taint) (f : Sym) (t : Taint) : Prop :=
  t ∈ afterWild (taints f) ∨ (t = .store .wild ∧ .callWild ∈ taints f) ∨
    ∃ g, g ≠ f ∧ .call g ∈ afterWild (taints f) ∧ t ∈ taints g

instance (taints : Sym → List Taint) (xs : List Taint) : Decidable (ShallowCalls taints xs) :=
  decidable_of_iff
    (∀ f ∈ callees (afterWild xs), ∀ g ∈ callees (afterWild (taints f)), g ≠ f →
      Closed (taints g))
    ⟨fun shallow f call g other nested =>
        shallow f (mem_callees.mpr call) g (mem_callees.mpr nested) other,
      fun shallow f call g nested other =>
        shallow f (mem_callees.mp call) g other (mem_callees.mp nested)⟩

instance (taints : Sym → List Taint) (f : Sym) (t : Taint) :
    Decidable (PerformsDirectly taints f t) :=
  decidable_of_iff
    (t ∈ afterWild (taints f) ∨ (t = .store .wild ∧ .callWild ∈ taints f) ∨
      ∃ g ∈ callees (afterWild (taints f)), g ≠ f ∧ t ∈ taints g)
    (or_congr_right (or_congr_right (exists_congr fun _ =>
      ⟨fun ⟨call, other, member⟩ => ⟨other, mem_callees.mp call, member⟩,
        fun ⟨other, call, member⟩ => ⟨mem_callees.mpr call, other, member⟩⟩)))

private theorem anyM_ok {α : Type} {test : α → Result Bool} {xs : List α}
    (total : ∀ x ∈ xs, ∃ b, test x = .ok b) : ∃ b, xs.anyM test = .ok b := by
  induction xs with
  | nil => exact ⟨false, rfl⟩
  | cons x xs inductionHypothesis =>
      obtain ⟨b, here⟩ := total x (by simp)
      obtain ⟨rest, later⟩ :=
        inductionHypothesis (fun y member => total y (List.mem_cons_of_mem _ member))
      cases b with
      | true => exact ⟨true, by simp only [List.anyM, here]; rfl⟩
      | false => exact ⟨rest, by simp only [List.anyM, here]; exact later⟩

private theorem mayAlias_ok {ys1 ys2 : List Taint} (closed1 : Closed ys1) (closed2 : Closed ys2) :
    ∃ racy, mayAlias ys1 ys2 = .ok racy := by
  apply anyM_ok
  intro pair member
  obtain ⟨t1, t2⟩ := pair
  obtain ⟨in1, in2⟩ := List.mem_product.mp member
  have access1 := closed1 t1 in1
  have access2 := closed2 t2 in2
  cases t1 <;> cases t2 <;> simp [Taint.isAccess] at access1 access2 <;> exact ⟨_, rfl⟩

section Tables

variable {table table' : TaintTable} {f : Sym} {t : Taint}

private theorem isSome_lookup_resolveCalls (run : resolveCalls table = .ok table')
    (isSome : (table.lookup f).isSome) : (table'.lookup f).isSome := by
  obtain ⟨pts, found⟩ := Option.isSome_iff_exists.mp isSome
  obtain ⟨ys, -, found'⟩ := lookup_resolveCalls run found
  simp [found']

/-- Elements of the resolved entry, in terms of the unresolved table. -/
theorem mem_entry_resolveCalls (run : resolveCalls table = .ok table')
    (isSome : (table.lookup f).isSome) :
    t ∈ entry table' f ↔
      Expands (fun g => if g = f then [] else entry table g) (entry table f) t := by
  obtain ⟨pts, found⟩ := Option.isSome_iff_exists.mp isSome
  obtain ⟨ys, resolved, found'⟩ := lookup_resolveCalls run found
  simp only [entry, found, found', Option.getD_some]
  exact mem_resolveEntry resolved

/-- The resolved entry of a function is closed if its callees make no calls. -/
theorem closed_entry_iff (run : resolveCalls table = .ok table')
    (isSome : (table.lookup f).isSome) :
    Closed (entry table' f) ↔
      ∀ g, g ≠ f → .call g ∈ afterWild (entry table f) → Closed (entry table g) := by
  rw [closed_iff_of_expands (fun t => mem_entry_resolveCalls run isSome)]
  constructor
  · intro closed g other call
    simpa [other] using closed g call
  · intro closed g call
    by_cases self : g = f
    · simp [self, Closed]
    · simpa [self] using closed g self call

theorem mem_entry_iff_performsDirectly (run : resolveCalls table = .ok table')
    (isSome : (table.lookup f).isSome) (access : t.isAccess = true) :
    t ∈ entry table' f ↔ PerformsDirectly (entry table) f t := by
  rw [mem_entry_resolveCalls run isSome]
  unfold Expands PerformsDirectly
  constructor
  · rintro (⟨-, own⟩ | wild | ⟨g, call, inSub⟩)
    · exact .inl own
    · exact .inr (.inl wild)
    · by_cases self : g = f
      · simp [self] at inSub
      · exact .inr (.inr ⟨g, self, call, by simpa [self] using inSub⟩)
  · rintro (own | wild | ⟨g, other, call, inEntry⟩)
    · exact .inl ⟨access, own⟩
    · exact .inr (.inl wild)
    · exact .inr (.inr ⟨g, call, by simpa [other] using inEntry⟩)

/-- A recorded list is closed after both passes if its calls are shallow. -/
theorem closed_resolveCalls2_iff (run : resolveCalls table = .ok table') {xs ys : List Taint}
    (declared : CallsInTable table xs) (resolved : resolveCalls2 table' xs = .ok ys) :
    Closed ys ↔ ShallowCalls (entry table) xs := by
  rw [closed_iff_of_expands (fun t => mem_resolveCalls2 resolved)]
  constructor
  · intro closed f call
    exact (closed_entry_iff run (declared f (mem_of_mem_afterWild call))).mp (closed f call)
  · intro shallow f call
    exact (closed_entry_iff run (declared f (mem_of_mem_afterWild call))).mpr (shallow f call)

private theorem mem_resolveCalls2_call {ys : List Taint}
    (resolved : resolveCalls2 table [.call f] = .ok ys) : t ∈ ys ↔ t ∈ entry table f := by
  rw [mem_resolveCalls2 resolved, expands_of_noWild (by simp)]
  constructor
  · rintro (⟨access, member⟩ | ⟨g, member, inEntry⟩)
    · rw [List.mem_singleton.mp member] at access
      simp [Taint.isAccess] at access
    · cases List.mem_singleton.mp member
      exact inEntry
  · intro inEntry
    exact .inr ⟨f, by simp, inEntry⟩

theorem CallsInTable.resolveCalls (run : resolveCalls table = .ok table') {xs : List Taint}
    (declared : CallsInTable table xs) : CallsInTable table' xs :=
  fun f call => isSome_lookup_resolveCalls run (declared f call)

end Tables

/-! ## Programs -/

section Programs

variable [AilTypesAux]

/-- The body of `f` calls `g` by name. -/
def Calls (sigm : Sigma) (f g : Sym) : Prop := .call g ∈ taintsOf sigm f

/-- Function `g` is `f` or is called from `f` through any number of calls. -/
def Reaches (sigm : Sigma) : Sym → Sym → Prop := Relation.ReflTransGen (Calls sigm)

/-- Function `g` is `f` or is called from `f` through at most two calls. -/
def Near (sigm : Sigma) (f g : Sym) : Prop :=
  g = f ∨ Calls sigm f g ∨ ∃ h, Calls sigm f h ∧ Calls sigm h g

/-- Function `g` itself performs access `t`. An indirect call may store anywhere,
and so may a function without definition. -/
def Accesses (sigm : Sigma) (g : Sym) (t : Taint) : Prop :=
  (t.isAccess = true ∧ t ∈ taintsOf sigm g) ∨
    (t = .store .wild ∧
      (.callWild ∈ taintsOf sigm g ∨ sigm.functionDefinitions.lookup g = none))

/-- Every named function that the analysis sees called in the body of a declared function is
declared. -/
def CallsDeclared (sigm : Sigma) : Prop :=
  ∀ f env e sub d es g, IsFunction sigm f → InFunction sigm f env e → Visited sub e →
    stripExpr sub = .call d es → callTaint d = .call g → IsFunction sigm g

/-- Resolution removes all calls from the recorded pairs, the aliasing test of
every pair returns, and the resolved list of a call of a function contains every access of
every function that the call can reach. -/
def CallsResolved (sigm : Sigma) (table : TaintTable) (races : List (List Taint × List Taint)) :
    Prop :=
  ∃ table', resolveCalls table = .ok table' ∧
    (∀ race ∈ races, ∃ ys1 ys2 racy, resolveCalls2 table' race.1 = .ok ys1 ∧
      resolveCalls2 table' race.2 = .ok ys2 ∧ Closed ys1 ∧ Closed ys2 ∧
      mayAlias ys1 ys2 = .ok racy) ∧
    ∀ f, IsFunction sigm f → ∃ ys, resolveCalls2 table' [.call f] = .ok ys ∧
      ∀ g, Reaches sigm f g → ∀ t, Accesses sigm g t → t ∈ ys

/-- The calls of recorded lists are shallow, and every function performs directly what it and
the functions at most two calls away access. -/
structure Resolvable (sigm : Sigma) (races : List (List Taint × List Taint)) : Prop where
  shallow : ∀ race ∈ races,
    ShallowCalls (taintsOf sigm) race.1 ∧ ShallowCalls (taintsOf sigm) race.2
  direct : ∀ f g, IsFunction sigm f → Near sigm f g → ∀ t, Accesses sigm g t →
    PerformsDirectly (taintsOf sigm) f t

/-- Functions at most two calls away from `f`. -/
def nearby (sigm : Sigma) (f : Sym) : List Sym :=
  f :: (callees (taintsOf sigm f) ++
    (callees (taintsOf sigm f)).flatMap fun h => callees (taintsOf sigm h))

def accessesOf (sigm : Sigma) (g : Sym) : List Taint :=
  (taintsOf sigm g).filter Taint.isAccess ++
    if .callWild ∈ taintsOf sigm g ∨ (sigm.functionDefinitions.lookup g).isNone then
      [.store .wild]
    else []

variable {sigm : Sigma} {table : TaintTable} {races : List (List Taint × List Taint)} {f g : Sym}
  {t : Taint}

private theorem mem_nearby : g ∈ nearby sigm f ↔ Near sigm f g := by
  simp [nearby, Near, Calls, mem_callees]

private theorem mem_accessesOf : t ∈ accessesOf sigm g ↔ Accesses sigm g t := by
  rw [accessesOf, Accesses, List.mem_append, List.mem_filter, and_comm]
  refine or_congr_right ?_
  split
  next wild => simpa [and_iff_left_iff_imp] using fun _ => by simpa using wild
  next quiet => simpa using fun _ => by simpa using quiet

instance : Decidable (Resolvable sigm races) :=
  decidable_of_iff
    ((∀ race ∈ races, ShallowCalls (taintsOf sigm) race.1 ∧
      ShallowCalls (taintsOf sigm) race.2) ∧
      ∀ f ∈ functionNames sigm, ∀ g ∈ nearby sigm f, ∀ t ∈ accessesOf sigm g,
        PerformsDirectly (taintsOf sigm) f t)
    (by
      simp only [mem_functionNames, mem_nearby, mem_accessesOf]
      exact ⟨fun ⟨shallow, direct⟩ => ⟨shallow, fun f g declared near t access =>
          direct f declared g near t access⟩,
        fun ⟨shallow, direct⟩ => ⟨shallow, fun f declared g near t access =>
          direct f g declared near t access⟩⟩)

theorem Accesses.isAccess (accesses : Accesses sigm g t) : t.isAccess = true := by
  rcases accesses with ⟨access, -⟩ | ⟨rfl, -⟩
  · exact access
  · rfl

theorem Near.reaches (near : Near sigm f g) : Reaches sigm f g := by
  rcases near with rfl | call | ⟨h, first, second⟩
  · exact .refl
  · exact .single call
  · exact .tail (.single first) second

/-- The entries of the table are the taints of the functions. -/
theorem entry_eq (collected : TableOf sigm sigm.declarations table races) :
    entry table = taintsOf sigm := by
  funext f
  unfold entry
  by_cases declared : IsFunction sigm f
  · rw [collected.lookup_eq_some declared, Option.getD_some]
  · have missing : table.lookup f = none := by
      rw [← Option.not_isSome_iff_eq_none, collected.isSome_lookup_iff]
      exact declared
    rw [missing, taintsOf, if_neg (fun member => declared (mem_functionNames.mp member))]
    rfl

/-- The hypothesis on calls, as it shows in the collected taints. -/
theorem callsDeclared_iff (collected : TableOf sigm sigm.declarations table races) :
    CallsDeclared sigm ↔
      ∀ f, IsFunction sigm f → ∀ g, Calls sigm f g → IsFunction sigm g := by
  constructor
  · intro declared f isFunction g call
    obtain ⟨t, run⟩ := collected.exists_run isFunction
    rw [Calls, taintsOf_eq isFunction run, mem_taintFunction_taints run] at call
    rcases call with ⟨env, e, inside, sub, own, visited, isOwn, call⟩ | ⟨-, wild⟩
    · obtain ⟨d, es, isCall, named⟩ := ownTaints_call isOwn call
      exact declared f env e sub d es g isFunction inside visited isCall named
    · cases wild
  · intro declared f env e sub d es g isFunction inside visited isCall named
    obtain ⟨t, run⟩ := collected.exists_run isFunction
    refine declared f isFunction g ?_
    rw [Calls, taintsOf_eq isFunction run, mem_taintFunction_taints run]
    exact .inl ⟨env, e, inside, sub, [callTaint d], visited,
      by rw [isCall]; rfl, by simp [named]⟩

private theorem callsListed_iff :
    (∀ f ∈ functionNames sigm, ∀ g ∈ callees (taintsOf sigm f),
      g ∈ functionNames sigm) ↔
      ∀ f, IsFunction sigm f → ∀ g, Calls sigm f g → IsFunction sigm g := by
  simp only [mem_functionNames, mem_callees, Calls]

/-- What is performed directly near a function is performed directly by it, so everything that
it reaches is. -/
theorem Resolvable.reached (resolvable : Resolvable sigm races)
    (declared : ∀ f, IsFunction sigm f → ∀ g, Calls sigm f g → IsFunction sigm g)
    (isFunction : IsFunction sigm f) (reaches : Reaches sigm f g) (accesses : Accesses sigm g t) :
    PerformsDirectly (taintsOf sigm) f t := by
  induction reaches using Relation.ReflTransGen.head_induction_on with
  | refl => exact resolvable.direct g g isFunction (.inl rfl) t accesses
  | @head f f' call _ inductionHypothesis =>
      have access := accesses.isAccess
      rcases inductionHypothesis (declared f isFunction f' call) with own | wild | nested
      · exact resolvable.direct f f' isFunction (.inr (.inl call)) t
          (.inl ⟨access, mem_of_mem_afterWild own⟩)
      · exact resolvable.direct f f' isFunction (.inr (.inl call)) t
          (.inr ⟨wild.1, .inl wild.2⟩)
      · obtain ⟨h, -, nestedCall, member⟩ := nested
        exact resolvable.direct f h isFunction
          (.inr (.inr ⟨f', call, mem_of_mem_afterWild nestedCall⟩)) t
            (.inl ⟨access, member⟩)

private theorem callsInTable_of_subset (collected : TableOf sigm sigm.declarations table races)
    (declared : ∀ f, IsFunction sigm f → ∀ g, Calls sigm f g → IsFunction sigm g)
    (isFunction : IsFunction sigm f) {pts : List Taint} (subset : pts ⊆ taintsOf sigm f) :
    CallsInTable table pts :=
  fun g call => collected.isSome_lookup_iff.mpr (declared f isFunction g (subset call))

private theorem exists_resolveCalls (collected : TableOf sigm sigm.declarations table races)
    (declared : ∀ f, IsFunction sigm f → ∀ g, Calls sigm f g → IsFunction sigm g) :
    ∃ table', resolveCalls table = .ok table' := by
  apply resolveCalls_ok
  intro f pts member
  obtain ⟨ret, params, t, isDecl, runs, rfl⟩ := (collected.entries f pts).mp member
  have isFunction : IsFunction sigm f := ⟨ret, params, isDecl⟩
  apply callsInTable_of_subset collected declared isFunction
  rw [taintsOf_eq isFunction runs]
  exact List.Subset.refl _

/-- Resolution does what the aliasing test expects exactly if calls are at most
two deep where it matters. -/
theorem callsResolved_iff (sigm : Sigma) (table : TaintTable)
    (races : List (List Taint × List Taint))
    (collected : taintsOfFunctions sigm sigm.declarations = .ok (table, races))
    (declared : CallsDeclared sigm) :
    CallsResolved sigm table races ↔ Resolvable sigm races := by
  have tableOf := taintsOfFunctions_table collected
  have same := entry_eq tableOf
  have calls := (callsDeclared_iff tableOf).mp declared
  have raceInTable : ∀ race ∈ races, CallsInTable table race.1 ∧
      CallsInTable table race.2 := by
    intro race member
    obtain ⟨f, isFunction, first, second⟩ := tableOf.race_subset member
    exact ⟨callsInTable_of_subset tableOf calls isFunction first,
      callsInTable_of_subset tableOf calls isFunction second⟩
  obtain ⟨table', run⟩ := exists_resolveCalls tableOf calls
  constructor
  · rintro ⟨table'', run', closedPairs, complete⟩
    cases run.symm.trans run'
    refine ⟨?_, ?_⟩
    · intro race member
      obtain ⟨ys1, ys2, racy, resolved1, resolved2, closed1, closed2, -⟩ :=
        closedPairs race member
      obtain ⟨inTable1, inTable2⟩ := raceInTable race member
      rw [← same]
      exact ⟨(closed_resolveCalls2_iff run inTable1 resolved1).mp closed1,
        (closed_resolveCalls2_iff run inTable2 resolved2).mp closed2⟩
    · intro f g isFunction near t accesses
      obtain ⟨ys, resolved, contains⟩ := complete f isFunction
      have member := (mem_resolveCalls2_call resolved).mp (contains g near.reaches t accesses)
      have isSome := tableOf.isSome_lookup_iff.mpr isFunction
      rw [← same]
      exact (mem_entry_iff_performsDirectly run isSome accesses.isAccess).mp member
  · intro resolvable
    refine ⟨table', run, ?_, ?_⟩
    · intro race member
      obtain ⟨inTable1, inTable2⟩ := raceInTable race member
      obtain ⟨shallow1, shallow2⟩ := resolvable.shallow race member
      rw [← same] at shallow1 shallow2
      obtain ⟨ys1, resolved1⟩ := resolveCalls2_ok (inTable1.resolveCalls run)
      obtain ⟨ys2, resolved2⟩ := resolveCalls2_ok (inTable2.resolveCalls run)
      have closed1 := (closed_resolveCalls2_iff run inTable1 resolved1).mpr shallow1
      have closed2 := (closed_resolveCalls2_iff run inTable2 resolved2).mpr shallow2
      obtain ⟨racy, tested⟩ := mayAlias_ok closed1 closed2
      exact ⟨ys1, ys2, racy, resolved1, resolved2, closed1, closed2, tested⟩
    · intro f isFunction
      have isSome := tableOf.isSome_lookup_iff.mpr isFunction
      have called : CallsInTable table [.call f] := by
        intro g member
        cases List.mem_singleton.mp member
        exact isSome
      obtain ⟨ys, resolved⟩ := resolveCalls2_ok (called.resolveCalls run)
      refine ⟨ys, resolved, ?_⟩
      intro g reaches t accesses
      have performs := resolvable.reached calls isFunction reaches accesses
      rw [← same] at performs
      exact (mem_resolveCalls2_call resolved).mpr
        ((mem_entry_iff_performsDirectly run isSome accesses.isAccess).mpr performs)

end Programs

/-! ## Two programs -/

attribute [local instance] plainTypes

def intTy : CType := .integer (.signed .int)

/-- Call of a function without parameters. -/
def callOf (f : Sym) : Expr :=
  .annotated (.rvalue intTy) (.call
    (.annotated (.rvalue (.pointer (.function intTy []))) (.functionDecay
      (.annotated (.lvalue (.function intTy [])) (.ident f)))) [])

def globalX : Sym := ⟨0, "x"⟩

def loadX : Expr :=
  .annotated (.rvalue intTy) (.rvalue (.annotated (.lvalue intTy) (.ident globalX)))

/-- The statement `x = 1;`. -/
def storeX : Stmt :=
  .expr (.annotated (.rvalue intTy) (.assign (.annotated (.lvalue intTy) (.ident globalX))
    (.annotated (.rvalue intTy) (.const (.integer (.iConstant 1))))))

/-- One global variable and functions without parameters. -/
def programOf (fns : List (Sym × Stmt)) : Sigma where
  declarations := (globalX, .object intTy) :: fns.map (fun fn => (fn.1, .function intTy []))
  functionDefinitions := fns.map (fun fn => (fn.1, ⟨[], .block [] [fn.2]⟩))
  tagDefinitions := []

/-- `h` stores to `x`; `f` calls `g` and `g` calls `h`; `main` evaluates
`f() + x`. -/
def callChain : Sigma :=
  programOf
    [(⟨1, "h"⟩, storeX), (⟨2, "g"⟩, .returnS (callOf ⟨1, "h"⟩)),
      (⟨3, "f"⟩, .returnS (callOf ⟨2, "g"⟩)),
      (⟨4, "main"⟩, .returnS (.annotated (.rvalue intTy)
        (.binary (callOf ⟨3, "f"⟩) (.arithmetic .add) loadX)))]

/-- Call of a function that the variable `p` points to. -/
def callThrough (p : Sym) : Expr :=
  let pointer : CType := .pointer (.function intTy [])
  .annotated (.rvalue intTy) (.call
    (.annotated (.rvalue pointer) (.rvalue (.annotated (.lvalue pointer) (.ident p)))) [])

def sumOf (e1 e2 : Expr) : Expr := .annotated (.rvalue intTy) (.binary e1 (.arithmetic .add) e2)

/-- `h` stores to `x`, `r` evaluates `r() + x`, `k` calls a function through the pointer `p`, `u`
is declared only, and `main` evaluates `(h() + k()) + (r() + u())`. -/
def sharedCallees : Sigma :=
  let program := programOf
    [(⟨1, "h"⟩, storeX), (⟨2, "r"⟩, .returnS (sumOf (callOf ⟨2, "r"⟩) loadX)),
      (⟨3, "k"⟩, .returnS (callThrough ⟨4, "p"⟩)),
      (⟨6, "main"⟩, .returnS (sumOf (sumOf (callOf ⟨1, "h"⟩) (callOf ⟨3, "k"⟩))
        (sumOf (callOf ⟨2, "r"⟩) (callOf ⟨5, "u"⟩))))]
  { program with
    declarations := (⟨4, "p"⟩, .object (.pointer (.function intTy []))) ::
      (⟨5, "u"⟩, .function intTy []) :: program.declarations }

theorem callsResolved_sharedCallees :
    ∃ table races, taintsOfFunctions sharedCallees sharedCallees.declarations =
      .ok (table, races) ∧ CallsResolved sharedCallees table races := by
  refine ⟨_, _, rfl, (callsResolved_iff _ _ _ rfl ?_).mpr ?_⟩
  · refine (callsDeclared_iff (taintsOfFunctions_table rfl)).mpr ?_
    rw [← callsListed_iff]
    decide
  · decide

/-- The call of `h` is still there when the aliasing test runs. -/
theorem callsResolved_fails_callChain :
    ∃ table races, taintsOfFunctions callChain callChain.declarations = .ok (table, races) ∧
      CallsDeclared callChain ∧ ¬ CallsResolved callChain table races ∧
      Escape.warnFile callChain = .error .assertFalse := by
  refine ⟨_, _, rfl, ?_, ?_, rfl⟩
  · refine (callsDeclared_iff (taintsOfFunctions_table rfl)).mpr ?_
    rw [← callsListed_iff]
    decide
  · rintro ⟨table', run, pairs, -⟩
    cases run
    obtain ⟨ys1, ys2, racy, resolved1, -, closed1, -⟩ := pairs _ (List.mem_singleton.mpr rfl)
    cases resolved1
    exact absurd (closed1 (.call ⟨1, "h"⟩) (by decide)) (by decide)

end RefinedC.Frontend
