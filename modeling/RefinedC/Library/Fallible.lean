import Mathlib.Data.List.Forall2
import Mathlib.Tactic.Common

/-!
Lists of computations that may fail.

Owns: when a computation mapped or folded over a list succeeds, that the result
only depends on the computation at the elements of the list, and how successful
runs of computations with a state decompose.
-/

namespace RefinedC.Library

variable {α β γ ε : Type}

theorem bind_eq_ok {x : Except ε α} {f : α → Except ε β} {b : β} :
    x >>= f = .ok b ↔ ∃ a, x = .ok a ∧ f a = .ok b := by
  cases x with
  | error e => simp [bind, Except.bind]
  | ok a => simp [bind, Except.bind]

theorem map_eq_ok {x : Except ε α} {f : α → β} {b : β} :
    f <$> x = .ok b ↔ ∃ a, x = .ok a ∧ f a = b := by
  cases x with
  | error e => simp [Functor.map, Except.map]
  | ok a => simp [Functor.map, Except.map]

theorem bind_eq_error {x : Except ε α} {f : α → Except ε β} {e : ε} :
    x >>= f = .error e ↔ x = .error e ∨ ∃ a, x = .ok a ∧ f a = .error e := by
  cases x with
  | error e' => simp [bind, Except.bind]
  | ok a => simp [bind, Except.bind]

theorem map_eq_error {x : Except ε α} {f : α → β} {e : ε} :
    f <$> x = .error e ↔ x = .error e := by
  cases x with
  | error e' => simp [Functor.map, Except.map]
  | ok a => simp [Functor.map, Except.map]

theorem ok_bind (a : α) (f : α → Except ε β) : (Except.ok a >>= f) = f a := rfl

theorem exists_ok_of_isOk {x : Except ε α} (isOk : x.isOk = true) : ∃ a, x = .ok a := by
  cases x with
  | error e => cases isOk
  | ok a => exact ⟨a, rfl⟩

theorem mapM_eq_ok {f : α → Except ε β} {as : List α} {bs : List β} :
    as.mapM f = .ok bs ↔ List.Forall₂ (fun a b => f a = .ok b) as bs := by
  induction as generalizing bs with
  | nil => cases bs with
    | nil => simp [pure, Except.pure]
    | cons b bs => simp [pure, Except.pure]
  | cons a as inductionHypothesis =>
      rw [List.mapM_cons, bind_eq_ok]
      constructor
      · rintro ⟨b, head, rest⟩
        obtain ⟨bs', tail, result⟩ := bind_eq_ok.mp rest
        cases result
        exact .cons head (inductionHypothesis.mp tail)
      · rintro (_ | ⟨head, tail⟩)
        exact ⟨_, head, bind_eq_ok.mpr ⟨_, inductionHypothesis.mpr tail, rfl⟩⟩

theorem exists_mapM_ok {f : α → Except ε β} {as : List α}
    (each : ∀ a ∈ as, ∃ b, f a = .ok b) :
    ∃ bs, as.mapM f = .ok bs := by
  induction as with
  | nil => exact ⟨[], rfl⟩
  | cons a as inductionHypothesis =>
      obtain ⟨b, head⟩ := each a List.mem_cons_self
      obtain ⟨bs, tail⟩ := inductionHypothesis fun a' member =>
        each a' (List.mem_cons_of_mem a member)
      exact ⟨b :: bs, mapM_eq_ok.mpr (.cons head (mapM_eq_ok.mp tail))⟩

theorem exists_ok_of_mapM {f : α → Except ε β} {as : List α} {bs : List β} {a : α}
    (run : as.mapM f = .ok bs) (member : a ∈ as) : ∃ b, f a = .ok b := by
  have results := mapM_eq_ok.mp run
  induction results with
  | nil => cases member
  | @cons a' b as bs head tail inductionHypothesis =>
      rcases List.mem_cons.mp member with rfl | inTail
      · exact ⟨b, head⟩
      · exact inductionHypothesis (mapM_eq_ok.mpr tail) inTail

/-- The first computation that fails decides how the whole list fails. -/
theorem mapM_eq_error {f : α → Except ε β} {as : List α} {e : ε} :
    as.mapM f = .error e ↔ ∃ before a after, as = before ++ a :: after ∧
      (∀ a' ∈ before, ∃ b, f a' = .ok b) ∧ f a = .error e := by
  induction as with
  | nil => simp [pure, Except.pure]
  | cons a as inductionHypothesis =>
      rw [List.mapM_cons, bind_eq_error]
      constructor
      · rintro (failed | ⟨b, head, rest⟩)
        · exact ⟨[], a, as, rfl, by simp, failed⟩
        · rcases bind_eq_error.mp rest with tail | ⟨bs, -, result⟩
          · obtain ⟨before, a', after, rfl, each, failed⟩ := inductionHypothesis.mp tail
            refine ⟨a :: before, a', after, rfl, ?_, failed⟩
            rw [List.forall_mem_cons]
            exact ⟨⟨b, head⟩, each⟩
          · cases result
      · rintro ⟨before, a', after, split, each, failed⟩
        cases before with
        | nil =>
            rw [List.nil_append, List.cons.injEq] at split
            obtain ⟨rfl, rfl⟩ := split
            exact .inl failed
        | cons first before =>
            rw [List.cons_append, List.cons.injEq] at split
            obtain ⟨rfl, rfl⟩ := split
            rw [List.forall_mem_cons] at each
            obtain ⟨⟨b, head⟩, each⟩ := each
            have tail := inductionHypothesis.mpr ⟨before, a', after, rfl, each, failed⟩
            exact .inr ⟨b, head, bind_eq_error.mpr (.inl tail)⟩

/-- A fold fails at the first step that fails. -/
theorem foldlM_eq_error {f : γ → α → Except ε γ} {as : List α} {c : γ} {e : ε} :
    as.foldlM f c = .error e ↔ ∃ before a after c', as = before ++ a :: after ∧
      before.foldlM f c = .ok c' ∧ f c' a = .error e := by
  induction as generalizing c with
  | nil => simp [pure, Except.pure]
  | cons a as inductionHypothesis =>
      rw [List.foldlM_cons, bind_eq_error]
      constructor
      · rintro (failed | ⟨c', head, rest⟩)
        · exact ⟨[], a, as, c, rfl, rfl, failed⟩
        · obtain ⟨before, a', after, last, rfl, run, failed⟩ := inductionHypothesis.mp rest
          refine ⟨a :: before, a', after, last, rfl, ?_, failed⟩
          rw [List.foldlM_cons, head, ok_bind]
          exact run
      · rintro ⟨before, a', after, last, split, run, failed⟩
        cases before with
        | nil =>
            rw [List.nil_append, List.cons.injEq] at split
            obtain ⟨rfl, rfl⟩ := split
            cases run
            exact .inl failed
        | cons first before =>
            rw [List.cons_append, List.cons.injEq] at split
            obtain ⟨rfl, rfl⟩ := split
            rw [List.foldlM_cons] at run
            obtain ⟨c', head, rest⟩ := bind_eq_ok.mp run
            exact .inr ⟨c', head,
              inductionHypothesis.mpr ⟨before, a', after, last, rfl, rest, failed⟩⟩

theorem mapM_congr {f g : α → Except ε β} {as : List α} (same : ∀ a ∈ as, f a = g a) :
    as.mapM f = as.mapM g := by
  induction as with
  | nil => rfl
  | cons a as inductionHypothesis =>
      rw [List.mapM_cons, List.mapM_cons, same a List.mem_cons_self,
        inductionHypothesis fun a' member => same a' (List.mem_cons_of_mem a member)]

theorem foldlM_congr {f g : γ → α → Except ε γ} {as : List α} {c : γ}
    (same : ∀ c, ∀ a ∈ as, f c a = g c a) : as.foldlM f c = as.foldlM g c := by
  induction as generalizing c with
  | nil => rfl
  | cons a as inductionHypothesis =>
      rw [List.foldlM_cons, List.foldlM_cons, same c a List.mem_cons_self]
      congr 1
      funext c'
      exact inductionHypothesis fun c a' member => same c a' (List.mem_cons_of_mem a member)

theorem exists_of_mem_right {R : α → β → Prop} {as : List α} {bs : List β}
    (related : List.Forall₂ R as bs) {b : β} (member : b ∈ bs) : ∃ a ∈ as, R a b := by
  induction related with
  | nil => cases member
  | @cons a b' as bs head tail inductionHypothesis =>
      rcases List.mem_cons.mp member with rfl | inTail
      · exact ⟨a, List.mem_cons_self, head⟩
      · obtain ⟨a', inside, holds⟩ := inductionHypothesis inTail
        exact ⟨a', List.mem_cons_of_mem a inside, holds⟩

theorem map_eq_map_of_forall₂ {f : α → γ} {g : β → γ} {as : List α} {bs : List β}
    (related : List.Forall₂ (fun a b => f a = g b) as bs) : as.map f = bs.map g := by
  induction related with
  | nil => rfl
  | cons head _ inductionHypothesis =>
      rw [List.map_cons, List.map_cons, head, inductionHypothesis]

theorem forall₂_comp {R : α → β → Prop} {S : β → γ → Prop}
    {as : List α} {bs : List β}
    {cs : List γ} (first : List.Forall₂ R as bs) (second : List.Forall₂ S bs cs) :
    List.Forall₂ (fun a c => ∃ b, R a b ∧ S b c) as cs := by
  induction first generalizing cs with
  | nil =>
      cases second
      exact .nil
  | cons related _ inductionHypothesis =>
      cases second with
      | cons related' second => exact .cons ⟨_, related, related'⟩ (inductionHypothesis second)

theorem forall₂_iff_forall_mem {R : α → β → Prop} {P : α → Prop}
    {as : List α} {bs : List β} (related : List.Forall₂ (fun a b => R a b ↔ P a) as bs) :
    List.Forall₂ R as bs ↔ ∀ a ∈ as, P a := by
  induction related with
  | nil => simp
  | cons head _ inductionHypothesis =>
      rw [List.forall₂_cons, List.forall_mem_cons, head, inductionHypothesis]

/-- A fold over results that are all there. -/
theorem foldlM_of_forall₂ {f : α → Except ε β} {step : γ → β → γ}
    {as : List α} {bs : List β}
    (results : List.Forall₂ (fun a b => f a = .ok b) as bs) (c : γ) :
    as.foldlM (fun acc a => do let b ← f a; .ok (step acc b)) c = .ok (bs.foldl step c) := by
  induction results generalizing c with
  | nil => rfl
  | cons head tail inductionHypothesis =>
      rw [List.foldlM_cons, head, ok_bind, ok_bind, List.foldl_cons]
      exact inductionHypothesis _

/-! ## Computations with a state -/

variable {σ : Type}

theorem run_bind_eq_ok {x : StateT σ (Except ε) α}
    {f : α → StateT σ (Except ε) β} {s s'' : σ} {b : β} :
    (x >>= f) s = .ok (b, s'') ↔ ∃ a s', x s = .ok (a, s') ∧ f a s' = .ok (b, s'') := by
  change (x s >>= fun p => f p.1 p.2) = _ ↔ _
  rw [bind_eq_ok]
  constructor
  · rintro ⟨⟨a, s'⟩, first, second⟩
    exact ⟨a, s', first, second⟩
  · rintro ⟨a, s', first, second⟩
    exact ⟨(a, s'), first, second⟩

theorem run_pure_eq_ok {a b : α} {s s' : σ} :
    (pure a : StateT σ (Except ε) α) s = .ok (b, s') ↔ a = b ∧ s = s' := by
  change Except.ok (a, s) = Except.ok (b, s') ↔ _
  rw [Except.ok.injEq, Prod.mk.injEq]

/-- A computation that does not use the state. -/
def liftResult (x : Except ε α) : StateT σ (Except ε) α := fun s => do
  let a ← x
  .ok (a, s)

theorem run_liftResult_eq_ok {x : Except ε α} {b : α} {s s' : σ} :
    (liftResult x : StateT σ (Except ε) α) s = .ok (b, s') ↔ x = .ok b ∧ s = s' := by
  rw [liftResult, bind_eq_ok]
  constructor
  · rintro ⟨a, found, result⟩
    cases result
    exact ⟨found, rfl⟩
  · rintro ⟨found, rfl⟩
    exact ⟨b, found, rfl⟩

end RefinedC.Library
