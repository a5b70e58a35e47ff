import Mathlib.Tactic.Common
import Mathlib.Tactic.Ring
import Mathlib.Algebra.Order.Ring.Int

/-!
Layouts, bytes and integer types of Caesium.

Source: `theories/caesium/layout.v`, `byte.v` and `int_type.v`.

Owns: byte size and alignment of a layout, array layouts, well-formedness of a
layout, eight-bit bytes, and the ranges of the integer types.

Byte and bit counts are naturals; the integers of the source that are only ever
used as exponents (`bits_per_int`) are naturals here as well.
-/

namespace RefinedC.Caesium

/-! ## Layouts -/

/-- Representation of a type layout (byte size and alignment constraint). -/
structure Layout where
  lySize : Nat
  lyAlignLog : Nat
deriving DecidableEq, Repr

namespace Layout

def lyAlign (ly : Layout) : Nat := 2 ^ ly.lyAlignLog

def lyMult (ly : Layout) (n : Nat) : Layout :=
  ⟨ly.lySize * n, ly.lyAlignLog⟩

/-- The size of a well-formed layout is a multiple of its alignment. -/
def layoutWf (ly : Layout) : Prop := ly.lyAlign ∣ ly.lySize

instance (ly : Layout) : Decidable ly.layoutWf :=
  inferInstanceAs (Decidable (_ ∣ _))

theorem lyAlign_pos (ly : Layout) : 0 < ly.lyAlign :=
  Nat.two_pow_pos ly.lyAlignLog

end Layout

def voidLayout : Layout := ⟨0, 0⟩

def mkArrayLayout : Layout → Nat → Layout := Layout.lyMult

def boolLayout : Layout := ⟨1, 0⟩

/-! ## Bytes -/

def bitsPerByte : Nat := 8

def byteModulus : Int := 256

/-- Representation of a standard (8-bit) byte. -/
structure Byte where
  byteVal : Int
  byteConstr : -1 < byteVal ∧ byteVal < byteModulus
deriving DecidableEq

namespace Byte

/-- The byte holding the residue of an integer. -/
def ofInt (z : Int) : Byte :=
  ⟨z % byteModulus, by
    have nonneg := Int.emod_nonneg z (show byteModulus ≠ 0 by decide)
    have below := Int.emod_lt_of_pos z (show 0 < byteModulus by decide)
    exact ⟨by omega, below⟩⟩

@[simp] theorem ofInt_byteVal (z : Int) : (ofInt z).byteVal = z % byteModulus := rfl

theorem ext {left right : Byte} (same : left.byteVal = right.byteVal) : left = right := by
  cases left
  cases right
  simp_all

end Byte

def byte0 : Byte := ⟨0, by decide⟩

/-! ## Integer types -/

/-- Representation of an integer type (size and signedness). -/
structure IntType where
  itByteSizeLog : Nat
  itSigned : Bool
deriving DecidableEq, Repr

namespace IntType

def bytesPerInt (it : IntType) : Nat := 2 ^ it.itByteSizeLog

def bitsPerInt (it : IntType) : Nat := it.bytesPerInt * bitsPerByte

def intModulus (it : IntType) : Int := 2 ^ it.bitsPerInt

def intHalfModulus (it : IntType) : Int := 2 ^ (it.bitsPerInt - 1)

/-- Minimal representable integer. -/
def minInt (it : IntType) : Int :=
  if it.itSigned then -it.intHalfModulus else 0

/-- Maximal representable integer. -/
def maxInt (it : IntType) : Int :=
  (if it.itSigned then it.intHalfModulus else it.intModulus) - 1

/-- The range of an integer type. -/
def InRange (z : Int) (it : IntType) : Prop :=
  it.minInt ≤ z ∧ z ≤ it.maxInt

instance (z : Int) (it : IntType) : Decidable (InRange z it) :=
  inferInstanceAs (Decidable (_ ∧ _))

def itLayout (it : IntType) : Layout :=
  ⟨it.bytesPerInt, it.itByteSizeLog⟩

end IntType

def i8 : IntType := ⟨0, true⟩
def u8 : IntType := ⟨0, false⟩
def i16 : IntType := ⟨1, true⟩
def u16 : IntType := ⟨1, false⟩
def i32 : IntType := ⟨2, true⟩
def u32 : IntType := ⟨2, false⟩
def i64 : IntType := ⟨3, true⟩
def u64 : IntType := ⟨3, false⟩

/-- Pointers are hard-coded to 64 bits. -/
def bytesPerAddrLog : Nat := 3

def bytesPerAddr : Nat := 2 ^ bytesPerAddrLog

def voidPtr : Layout := ⟨bytesPerAddr, bytesPerAddrLog⟩

def sizeT : IntType := ⟨bytesPerAddrLog, false⟩
def ssizeT : IntType := ⟨bytesPerAddrLog, true⟩

def boolToZ (b : Bool) : Int := if b then 1 else 0

end RefinedC.Caesium
