import Mathlib.Data.List.Basic
import Mathlib.Tactic.Common

/-!
Positions in a text that is the concatenation of pieces.

Owns: the piece that a position lies in, the index in this piece, and the element there.

Generic in the pieces and in the elements of their texts. Pieces may be empty.
-/

namespace RefinedC.Library

variable {α β : Type} {text : α → List β} {pieces : List α} {pos : Nat} {p q : α} {i : Nat}

/-- Position `pos` of the concatenation is index `i` of the piece `p`. -/
structure InPiece (text : α → List β) (pieces : List α) (pos : Nat) (p : α) (i : Nat) :
    Prop where
  split : ∃ before after, pieces = before ++ p :: after ∧ pos = (before.flatMap text).length + i
  inside : i < (text p).length

theorem inPiece_head (inside : i < (text p).length) : InPiece text (p :: pieces) i p i :=
  ⟨⟨[], pieces, rfl, by simp⟩, inside⟩

theorem InPiece.cons (inPiece : InPiece text pieces pos p i) :
    InPiece text (q :: pieces) ((text q).length + pos) p i := by
  obtain ⟨before, after, rfl, rfl⟩ := inPiece.split
  refine ⟨⟨q :: before, after, rfl, ?_⟩, inPiece.inside⟩
  rw [List.flatMap_cons, List.length_append, Nat.add_assoc]

theorem InPiece.getElem? (inPiece : InPiece text pieces pos p i) :
    (pieces.flatMap text)[pos]? = (text p)[i]? := by
  obtain ⟨before, after, rfl, rfl⟩ := inPiece.split
  rw [List.flatMap_append, List.flatMap_cons, List.getElem?_append_right (Nat.le_add_right _ _),
    Nat.add_sub_cancel_left, List.getElem?_append_left inPiece.inside]

end RefinedC.Library
