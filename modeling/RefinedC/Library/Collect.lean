import Mathlib.Data.List.Induction
import Mathlib.Data.List.Perm.Basic
import Mathlib.Tactic.Common
import RefinedC.Library.Fallible

/-!
Collecting a list of items one by one.

Owns: collectors that read each item and then either refuse it or add it to what they
have. When the refusals only depend on which items came before, the outcome for a whole
list is a condition on the list and a summary of it.

An item clashes with an earlier one when it is refused because of it.
-/

namespace RefinedC.Library

variable {α β σ ε : Type}

/-- Every item is allowed and clashes with none before it. -/
structure Accepted (allowed : β → Bool) (clash : β → β → Bool) (bs : List β) : Prop where
  allowed : ∀ b ∈ bs, allowed b = true
  noClash : bs.Pairwise fun b b' => clash b b' = false

variable {allowed : β → Bool} {clash : β → β → Bool}

private theorem accepted_nil : Accepted allowed clash [] :=
  ⟨fun _ member => absurd member List.not_mem_nil, .nil⟩

private theorem accepted_append_singleton_iff {bs : List β} {b : β} :
    Accepted allowed clash (bs ++ [b]) ↔
      Accepted allowed clash bs ∧ allowed b = true ∧ ∀ b' ∈ bs, clash b' b = false := by
  constructor
  · intro accepted
    have split := List.pairwise_append.mp accepted.noClash
    refine ⟨⟨fun b' member => accepted.allowed b' (List.mem_append_left _ member), split.1⟩,
      accepted.allowed b (by simp), fun b' member => split.2.2 b' member b (by simp)⟩
  · rintro ⟨accepted, isAllowed, noClash⟩
    constructor
    · intro b' member
      rcases List.mem_append.mp member with before | last
      · exact accepted.allowed b' before
      · rw [List.mem_singleton.mp last]
        exact isAllowed
    · refine List.pairwise_append.mpr ⟨accepted.noClash, List.pairwise_singleton _ _, ?_⟩
      intro b' before b'' last
      rw [List.mem_singleton.mp last]
      exact noClash b' before

/-- Without a direction in the clashes, the order of the items does not matter. -/
theorem Accepted.perm {bs bs' : List β} (symmetric : ∀ b b', clash b b' = clash b' b)
    (perm : bs.Perm bs') (accepted : Accepted allowed clash bs) : Accepted allowed clash bs' :=
  ⟨fun b member => accepted.allowed b (perm.mem_iff.mpr member),
    (perm.pairwise_iff fun noClash => by rw [symmetric]; exact noClash).mp accepted.noClash⟩

/-- Two items that clash are not accepted, wherever they stand. -/
theorem not_accepted_of_clash {before between after : List β} {b b' : β}
    (clashes : clash b b' = true) :
    ¬ Accepted allowed clash (before ++ b :: (between ++ b' :: after)) := by
  intro accepted
  have tail := (List.pairwise_append.mp accepted.noClash).2.1
  have noClash := (List.pairwise_cons.mp tail).1 b' (by simp)
  rw [clashes] at noClash
  cases noClash

/-- The outcome of a collector whose steps are summarised by the items before. -/
theorem foldlM_collect_iff {handle : σ → α → Except ε σ} {read : α → Option β}
    {summary : List β → σ} (spec : ∀ bs a s', Accepted allowed clash bs →
      (handle (summary bs) a = .ok s' ↔
        ∃ b, read a = some b ∧ (allowed b = true ∧ ∀ b' ∈ bs, clash b' b = false) ∧
          summary (bs ++ [b]) = s'))
    (as : List α) (s' : σ) :
    as.foldlM handle (summary []) = .ok s' ↔
      (∀ a ∈ as, (read a).isSome) ∧ Accepted allowed clash (as.filterMap read) ∧
        s' = summary (as.filterMap read) := by
  induction as using List.reverseRecOn generalizing s' with
  | nil =>
      rw [List.foldlM_nil, List.filterMap_nil]
      simp only [pure, Except.pure, Except.ok.injEq]
      constructor
      · rintro rfl
        exact ⟨fun _ member => absurd member List.not_mem_nil, accepted_nil, rfl⟩
      · rintro ⟨-, -, rfl⟩
        rfl
  | append_singleton as a inductionHypothesis =>
      rw [List.foldlM_append, bind_eq_ok, List.filterMap_append]
      simp only [List.foldlM_cons, List.foldlM_nil, bind_pure]
      constructor
      · rintro ⟨s, before, last⟩
        obtain ⟨areRead, accepted, rfl⟩ := (inductionHypothesis s).mp before
        obtain ⟨b, isRead, isNext, rfl⟩ := (spec _ a s' accepted).mp last
        rw [List.filterMap_cons_some isRead, List.filterMap_nil]
        refine ⟨fun a' member => ?_,
          accepted_append_singleton_iff.mpr ⟨accepted, isNext⟩, rfl⟩
        rcases List.mem_append.mp member with inside | same
        · exact areRead a' inside
        · rw [List.mem_singleton.mp same, isRead]
          rfl
      · rintro ⟨areRead, accepted, rfl⟩
        obtain ⟨b, isRead⟩ := Option.isSome_iff_exists.mp (areRead a (by simp))
        rw [List.filterMap_cons_some isRead, List.filterMap_nil] at accepted ⊢
        obtain ⟨before, isNext⟩ := accepted_append_singleton_iff.mp accepted
        refine ⟨summary (as.filterMap read), (inductionHypothesis _).mpr ⟨?_, before, rfl⟩,
          (spec _ a _ before).mpr ⟨b, isRead, isNext, rfl⟩⟩
        exact fun a' member => areRead a' (List.mem_append_left _ member)

/-! ## Replacing an item by several -/

/-- Items that are treated like `b` can stand for it. -/
theorem accepted_replace_iff {before after : List β} (bs : List β) {b : β}
    (sameAllowed : ∀ b' ∈ bs, allowed b' = allowed b)
    (sameBefore : ∀ b' ∈ bs, ∀ c, clash c b' = clash c b)
    (sameAfter : ∀ b' ∈ bs, ∀ c, clash b' c = clash b c)
    (noSelf : clash b b = false) (nonempty : bs ≠ []) :
    Accepted allowed clash (before ++ (bs ++ after)) ↔
      Accepted allowed clash (before ++ (b :: after)) := by
  obtain ⟨first, isFirst⟩ := List.exists_mem_of_ne_nil bs nonempty
  constructor
  · rintro ⟨isAllowed, noClash⟩
    obtain ⟨noClashBefore, noClashRest, across⟩ := List.pairwise_append.mp noClash
    obtain ⟨-, noClashAfter, intoAfter⟩ := List.pairwise_append.mp noClashRest
    constructor
    · intro b' member
      rcases List.mem_append.mp member with inBefore | inRest
      · exact isAllowed b' (by simp [inBefore])
      · rcases List.mem_cons.mp inRest with rfl | inAfter
        · rw [← sameAllowed first isFirst]
          exact isAllowed first (by simp [isFirst])
        · exact isAllowed b' (by simp [inAfter])
    · refine List.pairwise_append.mpr
        ⟨noClashBefore, List.pairwise_cons.mpr ⟨?_, noClashAfter⟩, ?_⟩
      · intro c inAfter
        rw [← sameAfter first isFirst]
        exact intoAfter first isFirst c inAfter
      · intro c inBefore c' inRest
        rcases List.mem_cons.mp inRest with rfl | inAfter
        · rw [← sameBefore first isFirst]
          exact across c inBefore first (by simp [isFirst])
        · exact across c inBefore c' (by simp [inAfter])
  · rintro ⟨isAllowed, noClash⟩
    obtain ⟨noClashBefore, noClashRest, across⟩ := List.pairwise_append.mp noClash
    obtain ⟨intoAfter, noClashAfter⟩ := List.pairwise_cons.mp noClashRest
    constructor
    · intro b' member
      simp only [List.mem_append] at member
      rcases member with inBefore | inBs | inAfter
      · exact isAllowed b' (by simp [inBefore])
      · rw [sameAllowed b' inBs]
        exact isAllowed b (by simp)
      · exact isAllowed b' (by simp [inAfter])
    · refine List.pairwise_append.mpr ⟨noClashBefore,
        List.pairwise_append.mpr ⟨?_, noClashAfter, ?_⟩, ?_⟩
      · refine List.Pairwise.imp_mem.mpr (List.pairwise_of_forall fun c c' inBs inBs' => ?_)
        rw [sameAfter c inBs, sameBefore c' inBs']
        exact noSelf
      · intro c inBs c' inAfter
        rw [sameAfter c inBs]
        exact intoAfter c' inAfter
      · intro c inBefore c' inRest
        rcases List.mem_append.mp inRest with inBs | inAfter
        · rw [sameBefore c' inBs]
          exact across c inBefore b (by simp)
        · exact across c inBefore c' (by simp [inAfter])

/-! ## Parts of a summary -/

variable {γ : Type}

/-- Items without a part do not matter for it. -/
theorem flatMap_filterMap_filter {read : α → Option β} {part : β → List γ} {p : α → Bool}
    (others : ∀ a b, p a = false → read a = some b → part b = []) (as : List α) :
    (as.filterMap read).flatMap part = ((as.filter p).filterMap read).flatMap part := by
  induction as with
  | nil => rfl
  | cons a as inductionHypothesis =>
      rw [List.filterMap_cons, List.filter_cons]
      by_cases isKept : p a = true
      · rw [if_pos isKept, List.filterMap_cons]
        cases read a with
        | none => exact inductionHypothesis
        | some b =>
            simp only [List.flatMap_cons]
            rw [inductionHypothesis]
      · rw [if_neg isKept]
        cases isRead : read a with
        | none => exact inductionHypothesis
        | some b =>
            simp only [List.flatMap_cons]
            rw [others a b (by simpa using isKept) isRead, List.nil_append, inductionHypothesis]

/-- A list with at most one element has only one order. -/
theorem eq_of_perm_of_length_le_one {cs cs' : List γ} (perm : cs.Perm cs')
    (short : cs.length ≤ 1) : cs = cs' := by
  match cs, short with
  | [], _ => exact (List.nil_perm.mp perm).symm
  | [c], _ => exact List.singleton_perm.mp perm

/-- Items that clash with each other leave room for only one. -/
theorem length_flatMap_le_one {part : β → List γ} {bs : List β}
    (short : ∀ b, (part b).length ≤ 1)
    (alone : bs.Pairwise fun b b' => part b = [] ∨ part b' = []) :
    (bs.flatMap part).length ≤ 1 := by
  induction alone with
  | nil => exact Nat.zero_le _
  | @cons b bs first _ inductionHypothesis =>
      rw [List.flatMap_cons, List.length_append]
      by_cases isEmpty : part b = []
      · rw [isEmpty, List.length_nil, Nat.zero_add]
        exact inductionHypothesis
      · have rest : bs.flatMap part = [] := by
          rw [List.flatMap_eq_nil_iff]
          exact fun b' member => (first b' member).resolve_left isEmpty
        rw [rest, List.length_nil, Nat.add_zero]
        exact short b

end RefinedC.Library
