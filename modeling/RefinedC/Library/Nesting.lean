import Mathlib.Data.List.Basic
import Mathlib.Tactic.Common

/-!
Nesting of opening and closing characters.

Owns: texts in which every closing character closes an opening one, and how the nesting
changes with each character.

Generic in the alphabet and the two characters.
-/

namespace RefinedC.Library

/-- Prefixes of a text and its first character. -/
theorem forall_prefix_cons {α : Type} {c : α} {cs : List α} {P : List α → Prop} :
    (∀ p, p <+: c :: cs → P p) ↔ P [] ∧ ∀ p, p <+: cs → P (c :: p) := by
  constructor
  · exact fun all => ⟨all [] List.nil_prefix, fun p isPrefix =>
      all (c :: p) (List.cons_prefix_cons.mpr ⟨rfl, isPrefix⟩)⟩
  · rintro ⟨nil, cons⟩ p isPrefix
    rcases List.prefix_cons_iff.mp isPrefix with rfl | ⟨p', rfl, isPrefix⟩
    · exact nil
    · exact cons p' (List.cons_prefix_cons.mp isPrefix).2

variable {α : Type} [DecidableEq α] {op cl : α}

/-- Every closing character closes an opening one, and every opening one is closed. -/
structure Balanced (op cl : α) (cs : List α) : Prop where
  prefixes : ∀ p, p <+: cs → p.count cl ≤ p.count op
  total : cs.count cl = cs.count op

/-- From `i` open brackets, the text closes all but the first of them. -/
structure Nested (op cl : α) (i : Nat) (cs : List α) : Prop where
  prefixes : ∀ p, p <+: cs → p.count cl < i + p.count op
  total : i + cs.count op = cs.count cl + 1

theorem nested_one_iff {cs : List α} : Nested op cl 1 cs ↔ Balanced op cl cs :=
  ⟨fun nested => ⟨fun p isPrefix => by have := nested.prefixes p isPrefix; omega,
      by have := nested.total; omega⟩,
    fun balanced => ⟨fun p isPrefix => by have := balanced.prefixes p isPrefix; omega,
      by have := balanced.total; omega⟩⟩

section

variable {i : Nat} {c : α} {cs : List α}

theorem Nested.pos (nested : Nested op cl i cs) : 0 < i :=
  nested.prefixes [] List.nil_prefix

theorem nested_nil : Nested op cl i [] ↔ i = 1 := by
  constructor
  · intro nested
    have total := nested.total
    simpa using total
  · rintro rfl
    refine ⟨fun p isPrefix => ?_, rfl⟩
    rw [List.prefix_nil.mp isPrefix]
    exact Nat.one_pos

/-- A character opens `a` brackets and closes `b`. -/
theorem nested_cons {a b : Nat} (opens : ∀ p, (c :: p).count op = p.count op + a)
    (closes : ∀ p, (c :: p).count cl = p.count cl + b) :
    Nested op cl (i + b) (c :: cs) ↔ 0 < i + b ∧ Nested op cl (i + a) cs := by
  constructor
  · intro nested
    obtain ⟨first, rest⟩ := forall_prefix_cons.mp nested.prefixes
    have total := nested.total
    rw [opens, closes] at total
    refine ⟨first, fun p isPrefix => ?_, by omega⟩
    have := rest p isPrefix
    rw [opens, closes] at this
    omega
  · rintro ⟨pos, nested⟩
    refine ⟨forall_prefix_cons.mpr ⟨pos, fun p isPrefix => ?_⟩, ?_⟩
    · have := nested.prefixes p isPrefix
      rw [opens, closes]
      omega
    · have total := nested.total
      rw [opens, closes]
      omega

theorem nested_cons_op (differ : op ≠ cl) :
    Nested op cl i (op :: cs) ↔ 0 < i ∧ Nested op cl (i + 1) cs :=
  nested_cons (a := 1) (b := 0) (fun _ => List.count_cons_self)
    fun _ => List.count_cons_of_ne differ

theorem nested_cons_cl (differ : op ≠ cl) :
    Nested op cl (i + 1) (cl :: cs) ↔ Nested op cl i cs := by
  rw [nested_cons (a := 0) (b := 1) (fun _ => List.count_cons_of_ne differ.symm)
    fun _ => List.count_cons_self]
  exact and_iff_right (Nat.succ_pos i)

theorem nested_cons_other (notOp : c ≠ op) (notCl : c ≠ cl) :
    Nested op cl i (c :: cs) ↔ Nested op cl i cs := by
  rw [← Nat.add_zero i, nested_cons (a := 0) (b := 0)
    (fun _ => List.count_cons_of_ne notOp) fun _ => List.count_cons_of_ne notCl]
  exact and_iff_right_of_imp Nested.pos

end

end RefinedC.Library
