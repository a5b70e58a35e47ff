import Mathlib.Tactic.Common

/-!
Computations that keep their effects when they fail.

Owns: the computations, what an exception handler does, and pre- and postconditions
with one postcondition for success and one for failure: the rules for sequences,
handlers and loops, and what a computation preserves on every way out.

A failure does not undo what was done before it, so the postcondition for failure
holds of the state in which the computation stopped.
-/

namespace RefinedC.Library

/-- A computation that changes a state and may stop with an exception. -/
def Persistent (ε σ α : Type) : Type := σ → Except ε α × σ

namespace Persistent

variable {ε σ α β : Type}

instance : Monad (Persistent ε σ) where
  pure a := fun s => (.ok a, s)
  bind m f := fun s =>
    match m s with
    | (.ok a, s') => f a s'
    | (.error e, s') => (.error e, s')

def throw (e : ε) : Persistent ε σ α := fun s => (.error e, s)

/-- Goes on with `handler` after an exception that it handles. -/
def tryWith (m : Persistent ε σ α) (handler : ε → Option (Persistent ε σ α)) :
    Persistent ε σ α := fun s =>
  match m s with
  | (.ok a, s') => (.ok a, s')
  | (.error e, s') =>
      match handler e with
      | some m' => m' s'
      | none => (.error e, s')

def get : Persistent ε σ σ := fun s => (.ok s, s)

def modify (f : σ → σ) : Persistent ε σ Unit := fun s => (.ok (), f s)

/-- A computation without effects. -/
def lift (x : Except ε α) : Persistent ε σ α := fun s => (x, s)

theorem bind_ok {m : Persistent ε σ α} {f : α → Persistent ε σ β} {a : α} {s s' : σ}
    (first : m s = (.ok a, s')) : (m >>= f) s = f a s' := by
  change (match m s with
    | (.ok a, s') => f a s'
    | (.error e, s') => (.error e, s')) = f a s'
  rw [first]

theorem bind_error {m : Persistent ε σ α} {f : α → Persistent ε σ β} {e : ε} {s s' : σ}
    (first : m s = (.error e, s')) : (m >>= f) s = (.error e, s') := by
  change (match m s with
    | (.ok a, s') => f a s'
    | (.error e, s') => (.error e, s')) = (.error e, s')
  rw [first]

theorem lift_ok_bind (a : α) (f : α → Persistent ε σ β) :
    (lift (Except.ok a) >>= f : Persistent ε σ β) = f a := rfl

/-! ## Pre- and postconditions -/

/-- From a state in `pre`, the computation succeeds in `post` or stops in `fails`. -/
def Triple (pre : σ → Prop) (m : Persistent ε σ α) (post : α → σ → Prop)
    (fails : σ → Prop) :
    Prop :=
  ∀ s, pre s →
    match m s with
    | (.ok a, s') => post a s'
    | (.error _, s') => fails s'

/-- The computation keeps `inv`, whether it succeeds or not. -/
def Preserves (inv : σ → Prop) (m : Persistent ε σ α) : Prop :=
  Triple inv m (fun _ => inv) inv

variable {pre pre' inv fails fails' : σ → Prop} {post post' : α → σ → Prop}
  {post₂ : β → σ → Prop}
  {m : Persistent ε σ α} {f : α → Persistent ε σ β}

theorem Triple.weaken (triple : Triple pre m post fails) (weakerPre : ∀ s, pre' s → pre s)
    (weakerPost : ∀ a s, post a s → post' a s) (weakerFails : ∀ s, fails s → fails' s) :
    Triple pre' m post' fails' := by
  intro s isPre
  have run := triple s (weakerPre s isPre)
  split at run
  · exact weakerPost _ _ run
  · exact weakerFails _ run

theorem Triple.pure {a : α} (isPost : ∀ s, pre s → post a s) :
    Triple pre (Pure.pure a : Persistent ε σ α) post fails :=
  fun s isPre => isPost s isPre

theorem Triple.lift {x : Except ε α} (isPost : ∀ a s, x = .ok a → pre s → post a s)
    (stops : ∀ s, pre s → fails s) : Triple pre (lift x : Persistent ε σ α) post fails := by
  intro s isPre
  cases x with
  | ok a => exact isPost a s rfl isPre
  | error e => exact stops s isPre

theorem Triple.bind (first : Triple pre m post fails)
    (second : ∀ a, Triple (post a) (f a) post₂ fails) : Triple pre (m >>= f) post₂ fails := by
  intro s isPre
  have run := first s isPre
  match outcome : m s with
  | (.ok a, s') =>
      rw [outcome] at run
      rw [bind_ok outcome]
      exact second a s' run
  | (.error e, s') =>
      rw [outcome] at run
      rw [bind_error outcome]
      exact run

theorem Triple.lift_bind {x : Except ε α} (stops : ∀ s, pre s → fails s)
    (next : ∀ a, x = .ok a → Triple pre (f a) post₂ fails) :
    Triple pre (Persistent.lift x >>= f) post₂ fails := by
  cases x with
  | ok a => exact next a rfl
  | error e => exact fun s isPre => stops s isPre

/-- The handler goes on from a state in which the computation stopped. -/
theorem Triple.tryWith {stopped : σ → Prop} {handler : ε → Option (Persistent ε σ α)}
    (tried : Triple pre m post stopped) (unhandled : ∀ s, stopped s → fails s)
    (handled : ∀ e m', handler e = some m' → Triple stopped m' post fails) :
    Triple pre (m.tryWith handler) post fails := by
  intro s isPre
  have run := tried s isPre
  rw [Persistent.tryWith]
  match outcome : m s with
  | (.ok a, s') =>
      rw [outcome] at run
      exact run
  | (.error e, s') =>
      rw [outcome] at run
      match found : handler e with
      | some m' =>
          simp only [found]
          exact handled e m' found s' run
      | none =>
          simp only [found]
          exact unhandled s' run

/-- The invariant of a loop speaks of the elements that it is through with. -/
theorem Triple.forM {γ : Type} {inv : List γ → σ → Prop}
    {body : γ → Persistent ε σ PUnit} (elements : List γ)
    (step : ∀ done x, x ∈ elements →
      Triple (inv done) (body x) (fun _ => inv (done ++ [x])) fails) :
    Triple (inv []) (elements.forM body) (fun _ => inv elements) fails := by
  have loop : ∀ rest done, (∀ x ∈ rest, x ∈ elements) →
      Triple (inv done) (rest.forM body) (fun _ => inv (done ++ rest)) fails := by
    intro rest
    induction rest with
    | nil =>
        intro done _
        rw [List.append_nil]
        exact Triple.pure fun _ isInv => isInv
    | cons x rest inductionHypothesis =>
        intro done inElements
        have later := inductionHypothesis (done ++ [x])
          fun y member => inElements y (List.mem_cons_of_mem x member)
        rw [List.append_assoc, List.singleton_append] at later
        exact Triple.bind (step done x (inElements x List.mem_cons_self)) fun _ => later
  exact loop elements [] fun _ member => member

/-! ## Preserved properties -/

theorem Preserves.pure (a : α) : Preserves inv (Pure.pure a : Persistent ε σ α) :=
  Triple.pure fun _ isInv => isInv

theorem Preserves.lift (x : Except ε α) :
    Preserves inv (Persistent.lift x : Persistent ε σ α) :=
  Triple.lift (fun _ _ _ isInv => isInv) fun _ isInv => isInv

theorem Preserves.bind (first : Preserves inv m) (second : ∀ a, Preserves inv (f a)) :
    Preserves inv (m >>= f) :=
  Triple.bind first second

theorem Preserves.tryWith {handler : ε → Option (Persistent ε σ α)} (tried : Preserves inv m)
    (handled : ∀ e m', handler e = some m' → Preserves inv m') :
    Preserves inv (m.tryWith handler) :=
  Triple.tryWith tried (fun _ stopped => stopped) handled

theorem Preserves.forM {γ : Type} {body : γ → Persistent ε σ PUnit} (elements : List γ)
    (step : ∀ x ∈ elements, Preserves inv (body x)) : Preserves inv (elements.forM body) :=
  @Triple.forM _ _ _ _ (fun _ => inv) _ elements fun _ x member => step x member

theorem Preserves.holds (preserves : Preserves inv m) {s : σ} (isInv : inv s) : inv (m s).2 := by
  have run := preserves s isInv
  split at run
  · rename_i outcome
    rw [outcome]
    exact run
  · rename_i outcome
    rw [outcome]
    exact run

end Persistent

end RefinedC.Library
