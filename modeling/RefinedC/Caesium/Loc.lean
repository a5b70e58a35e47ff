import RefinedC.Caesium.Layout

/-!
Memory locations of Caesium.

Source: `theories/caesium/loc.v`, with the configuration of
`theories/caesium/config/selected_config.v`.

Owns: provenances, locations, pointer offsets, and alignment of a location.

Physical addresses (`addr`) are integers.
-/

namespace RefinedC.Caesium

/-- Allocation identifier (unique to an allocation). -/
abbrev AllocId := Int

def dummyAllocId : AllocId := 0

inductive Prov where
  | provNull
  | provAlloc (aid : Option AllocId)
  | provFnPtr
deriving DecidableEq, Repr

def provAllocId : Prov → Option AllocId
  | .provAlloc aid => aid
  | _ => none

/-- Memory location: provenance and address. -/
abbrev Loc := Prov × Int

def fnLoc (a : Int) : Loc := (.provFnPtr, a)

def nullLoc : Loc := (.provNull, 0)

/-- Shift location `l` by offset `z`. -/
def shiftLoc (l : Loc) (z : Int) : Loc := (l.1, l.2 + z)

/-- Shift a location by `z` times the size of `ly`. -/
def offsetLoc (l : Loc) (ly : Layout) (z : Int) : Loc := shiftLoc l (ly.lySize * z)

/-- Compile-time configuration: Caesium checks that pointers are well aligned. -/
def enforceAlignment : Bool := true

def alignedTo (l : Loc) (n : Nat) : Prop :=
  if enforceAlignment then (n : Int) ∣ l.2 else True

instance (l : Loc) (n : Nat) : Decidable (alignedTo l n) :=
  inferInstanceAs (Decidable (if enforceAlignment then (n : Int) ∣ l.2 else True))

/-- Location `l` has the right alignment for layout `ly`. -/
def hasLayoutLoc (l : Loc) (ly : Layout) : Prop := alignedTo l ly.lyAlign

instance (l : Loc) (ly : Layout) : Decidable (hasLayoutLoc l ly) :=
  inferInstanceAs (Decidable (alignedTo _ _))

end RefinedC.Caesium
