import Mathlib.Data.List.Nodup
import Mathlib.Tactic.Common

/-!
Association lists, read by the first binding of a key.

Owns: when a lookup succeeds, what it returns after bindings are added or dropped,
and at which index a search finds an element.

Does not own: maps without an order, which are the partial maps of this library.
-/

namespace RefinedC.Library

variable {α κ : Type} [BEq κ] [LawfulBEq κ] {l : List (κ × α)} {k k' : κ} {a b : α}

theorem lookup_eq_none_iff : l.lookup k = none ↔ k ∉ l.map Prod.fst := by
  rw [List.lookup_eq_none_iff]
  simp only [List.mem_map, not_exists, not_and, bne_iff_ne, ne_eq]
  exact ⟨fun absent p member same => absent p member same.symm,
    fun absent p member same => absent p member same.symm⟩

theorem mem_of_lookup (found : l.lookup k = some a) : (k, a) ∈ l := by
  obtain ⟨before, after, rfl, -⟩ := List.lookup_eq_some_iff.mp found
  exact List.mem_append_right _ List.mem_cons_self

theorem exists_lookup_of_mem (member : k ∈ l.map Prod.fst) : ∃ a, l.lookup k = some a := by
  cases found : l.lookup k with
  | none => exact absurd member (lookup_eq_none_iff.mp found)
  | some a => exact ⟨a, rfl⟩

theorem lookup_of_mem (distinct : (l.map Prod.fst).Nodup) (member : (k, a) ∈ l) :
    l.lookup k = some a := by
  obtain ⟨b, found⟩ := exists_lookup_of_mem (List.mem_map_of_mem (f := Prod.fst) member)
  have same := List.inj_on_of_nodup_map distinct (mem_of_lookup found) member rfl
  rw [found, (Prod.mk.inj same).2]

/-! ## Bindings added and dropped -/

theorem lookup_cons_of_absent (absent : l.lookup k = none) (found : l.lookup k' = some a) :
    ((k, b) :: l).lookup k' = some a := by
  have other : (k' == k) = false := by
    apply beq_false_of_ne
    rintro rfl
    rw [absent] at found
    cases found
  rw [List.lookup_cons, other]
  exact found

theorem lookup_filter_key {keep : κ → Bool} (l : List (κ × α)) :
    (l.filter fun entry => keep entry.1).lookup k = if keep k then l.lookup k else none := by
  induction l with
  | nil => simp
  | cons entry l inductionHypothesis =>
      obtain ⟨key, a⟩ := entry
      rw [List.filter_cons, List.lookup_cons]
      by_cases same : k = key
      · subst same
        by_cases kept : keep k = true
        · simp [kept]
        · simp [kept, inductionHypothesis]
      · have different : (k == key) = false := by simpa using same
        rw [different]
        by_cases kept : keep key = true
        · rw [if_pos kept, List.lookup_cons, different]
          exact inductionHypothesis
        · rw [if_neg kept]
          exact inductionHypothesis

theorem lookup_eraseP_other [DecidableEq κ] (other : k' ≠ k) :
    (l.eraseP fun entry => entry.1 = k).lookup k' = l.lookup k' := by
  induction l with
  | nil => rfl
  | cons entry l inductionHypothesis =>
      obtain ⟨x, a⟩ := entry
      by_cases same : x = k
      · have differs : (k' == x) = false := by simpa [same] using other
        simp [same, List.lookup_cons, same ▸ differs]
      · simp [same, List.lookup_cons, inductionHypothesis]

/-! ## Indices -/

/-- Elements are found at their own index exactly when they are distinct. -/
theorem findIdx?_eq_self_iff [DecidableEq α] {xs : List α} :
    (∀ (i : Nat) x, xs[i]? = some x → xs.findIdx? (· = x) = some i) ↔ xs.Nodup := by
  constructor
  · intro ownIndex
    rw [List.nodup_iff_getElem?_ne_getElem?]
    intro i j less bound same
    have atJ := List.getElem?_eq_getElem bound
    have found := ownIndex i _ (same.trans atJ)
    rw [ownIndex j _ atJ] at found
    exact absurd (Option.some.inj found) (Nat.ne_of_gt less)
  · intro distinct i x isElement
    obtain ⟨bound, rfl⟩ := List.getElem?_eq_some_iff.mp isElement
    refine List.findIdx?_eq_some_iff_getElem.mpr ⟨bound, by simp, fun j less => ?_⟩
    simpa [distinct.getElem_inj_iff] using Nat.ne_of_lt less

end RefinedC.Library
