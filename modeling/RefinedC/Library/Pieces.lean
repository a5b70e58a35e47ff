import Mathlib.Algebra.GroupWithZero.Nat
import Mathlib.Data.List.Basic
import Mathlib.Order.Nat
import Mathlib.Tactic.Common

/-!
Lists that are changed piece by piece.

Owns: cutting or filling a list to a length, applying a function to each of some consecutive
pieces of a list, when doing so twice is the same as doing so once, and what becomes of a
single piece.

Generic in the elements. The list need not be as long as its pieces together.
-/

namespace RefinedC.Library

variable {α : Type} {d : α} {n : Nat} {xs ys : List α}

/-! ## Lists of a given length -/

/-- Cut the list off, or fill it up, to length `n`. -/
def fit (d : α) (n : Nat) (xs : List α) : List α := xs.take n ++ List.replicate (n - xs.length) d

@[simp] theorem length_fit (d : α) (n : Nat) (xs : List α) : (fit d n xs).length = n := by
  simp only [fit, List.length_append, List.length_take, List.length_replicate]
  omega

private theorem fit_of_le (long : n ≤ xs.length) : fit d n xs = xs.take n := by
  rw [fit, Nat.sub_eq_zero_of_le long, List.replicate_zero, List.append_nil]

theorem fit_of_length (length : xs.length = n) : fit d n xs = xs := by
  rw [fit_of_le length.ge, List.take_of_length_le length.le]

private theorem fit_append (short : xs.length ≤ n) :
    fit d n (xs ++ ys) = xs ++ fit d (n - xs.length) ys := by
  rw [fit, fit, List.take_append, List.take_of_length_le short, List.append_assoc,
    List.length_append, Nat.sub_add_eq]

/-! ## Changing each piece -/

/-- Apply each function to the piece of its size, from the front on. -/
def mapPieces (sizes : List Nat) (fs : List (List α → List α)) (xs : List α) : List α :=
  match sizes, fs with
  | n :: sizes, f :: fs => f (xs.take n) ++ mapPieces sizes fs (xs.drop n)
  | _, _ => []

/-- After `f` has changed a piece of size `n`, or what there is of one, `g` does not change it
again. -/
structure PieceSettles (n : Nat) (f g : List α → List α) : Prop where
  whole : ∀ xs : List α, xs.length = n → (f xs).length = n ∧ (g xs).length = n
  part : ∀ xs : List α, xs.length ≤ n → xs.length ≤ (f xs).length ∧
    (g ((f xs).take xs.length)).take xs.length = (f xs).take xs.length

theorem PieceSettles.of_length {f g : List α → List α} (n : Nat)
    (lengthF : ∀ xs, (f xs).length = xs.length) (lengthG : ∀ xs, (g xs).length = xs.length)
    (settled : ∀ xs, g (f xs) = f xs) : PieceSettles n f g where
  whole xs length := ⟨(lengthF xs).trans length, (lengthG xs).trans length⟩
  part xs _ := by
    have all : (f xs).take xs.length = f xs := List.take_of_length_le (lengthF xs).le
    exact ⟨(lengthF xs).ge, by rw [all, settled, all]⟩

theorem PieceSettles.const (length : ys.length = n) :
    PieceSettles n (fun _ => ys) (fun _ => ys) where
  whole _ _ := ⟨length, length⟩
  part _ short := ⟨short.trans length.ge, rfl⟩

inductive PiecesSettle :
    List Nat → List (List α → List α) → List (List α → List α) → Prop where
  | nil : PiecesSettle [] [] []
  | cons {n : Nat} {f g : List α → List α} {sizes : List Nat}
      {fs gs : List (List α → List α)} :
      PieceSettles n f g → PiecesSettle sizes fs gs →
      PiecesSettle (n :: sizes) (f :: fs) (g :: gs)

/-- Where no piece changes again, the list does not, whatever its length. -/
theorem mapPieces_settled {sizes : List Nat} {fs gs : List (List α → List α)}
    (settle : PiecesSettle sizes fs gs) (xs : List α) :
    fit d xs.length (mapPieces sizes gs (fit d xs.length (mapPieces sizes fs xs))) =
      fit d xs.length (mapPieces sizes fs xs) := by
  induction settle generalizing xs with
  | nil => rfl
  | @cons n f g sizes fs gs piece rest inductionHypothesis =>
      rw [mapPieces, mapPieces]
      generalize isRest : mapPieces sizes fs (xs.drop n) = after
      rcases Nat.le_total n xs.length with long | short
      · -- the first piece is whole
        have isPiece : (xs.take n).length = n := List.length_take_of_le long
        have firstLength := (piece.whole _ isPiece).1
        have secondLength := (piece.whole _ firstLength).2
        have again := (piece.part _ isPiece.le).2
        rw [isPiece, List.take_of_length_le firstLength.le,
          List.take_of_length_le secondLength.le] at again
        have remaining := inductionHypothesis (xs.drop n)
        rw [isRest, List.length_drop] at remaining
        have cut : fit d xs.length (f (xs.take n) ++ after) =
            f (xs.take n) ++ fit d (xs.length - n) after := by
          rw [fit_append (firstLength.le.trans long), firstLength]
        rw [cut, List.take_left' firstLength, List.drop_left' firstLength, again,
          fit_append (firstLength.le.trans long), firstLength, remaining]
      · -- the list ends in the first piece
        have isPiece : xs.take n = xs := List.take_of_length_le short
        obtain ⟨covers, again⟩ := piece.part xs short
        have cut : fit d xs.length (f xs ++ after) = (f xs).take xs.length := by
          rw [fit_of_le (by rw [List.length_append]; omega), List.take_append_of_le_length covers]
        have keptLength : ((f xs).take xs.length).length = xs.length :=
          List.length_take_of_le covers
        have coversAgain : xs.length ≤ (g ((f xs).take xs.length)).length := by
          have length := congrArg List.length again
          rw [keptLength, List.length_take] at length
          omega
        rw [isPiece, cut, List.take_of_length_le (keptLength.le.trans short),
          fit_of_le (by rw [List.length_append]; omega),
          List.take_append_of_le_length coversAgain, again]

/-! ## A single piece -/

theorem length_mapPieces {sizes : List Nat} {fs : List (List α → List α)}
    (lengths : List.Forall₂
      (fun n f => ∀ xs : List α, xs.length = n → (f xs).length = n) sizes fs)
    (length : xs.length = sizes.sum) : (mapPieces sizes fs xs).length = sizes.sum := by
  induction lengths generalizing xs with
  | nil => rfl
  | cons first _ inductionHypothesis =>
      rw [List.sum_cons] at length ⊢
      rw [mapPieces, List.length_append, first _ (List.length_take_of_le (by omega)),
        inductionHypothesis (by rw [List.length_drop]; omega)]

/-- The piece of a list that starts after `i` others and has size `n`. -/
def pieceAt (sizes : List Nat) (i n : Nat) (xs : List α) : List α :=
  (xs.drop (sizes.take i).sum).take n

/-- A piece of the changed list is the changed piece. -/
theorem pieceAt_mapPieces {sizes : List Nat} {fs : List (List α → List α)}
    (lengths : List.Forall₂
      (fun n f => ∀ xs : List α, xs.length = n → (f xs).length = n) sizes fs)
    (length : xs.length = sizes.sum) {i : Nat} {f : List α → List α}
    (size : sizes[i]? = some n) (function : fs[i]? = some f) :
    pieceAt sizes i n (mapPieces sizes fs xs) = f (pieceAt sizes i n xs) := by
  induction lengths generalizing xs i with
  | nil => simp at size
  | @cons m g sizes fs first rest inductionHypothesis =>
      rw [List.sum_cons] at length
      have firstLength := first _ (List.length_take_of_le (l := xs) (i := m) (by omega))
      cases i with
      | zero =>
          simp only [List.getElem?_cons_zero, Option.some.injEq] at size function
          subst size function
          simp only [pieceAt, mapPieces, List.take_zero, List.sum_nil, List.drop_zero]
          rw [List.take_left' firstLength]
      | succ i =>
          have dropped : (xs.drop m).length = sizes.sum := by
            rw [List.length_drop]
            omega
          have tail := inductionHypothesis dropped size function
          simp only [pieceAt, mapPieces, List.take_succ_cons, List.sum_cons] at tail ⊢
          rw [← List.drop_drop, List.drop_left' firstLength, tail, List.drop_drop]

/-- Pieces that are put together stay where they were put. -/
theorem pieceAt_flatten {parts : List (List α)} {i : Nat} (isPart : parts[i]? = some xs) :
    pieceAt (parts.map List.length) i xs.length parts.flatten = xs := by
  induction parts generalizing i with
  | nil => simp at isPart
  | cons part parts inductionHypothesis =>
      cases i with
      | zero =>
          simp only [List.getElem?_cons_zero, Option.some.injEq] at isPart
          subst isPart
          simp [pieceAt]
      | succ i =>
          have tail := inductionHypothesis isPart
          simp only [pieceAt, List.map_cons, List.take_succ_cons, List.sum_cons,
            List.flatten_cons] at tail ⊢
          rw [← List.drop_drop, List.drop_left, tail]

end RefinedC.Library
