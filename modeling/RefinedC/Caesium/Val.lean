import RefinedC.Caesium.Struct

/-!
Bytes and values stored in memory.

Source: `theories/caesium/val.v`.

Owns: memory bytes (integer bytes with provenance, pointer fragments, poison),
values as byte lists, and the conversions between values and locations,
integers and booleans.
-/

namespace RefinedC.Caesium

/-- Representation of a byte stored in memory. -/
inductive Mbyte where
  /-- An integer byte; `p` is set if the integer contains provenance. -/
  | mByte (b : Byte) (p : Option AllocId)
  /-- Fragment `n` of location `l`. -/
  | mPtrFrag (l : Loc) (n : Nat)
  | mPoison
deriving DecidableEq

def mbyteToByte : Mbyte → Option (Byte × Option AllocId)
  | .mByte b p => some (b, p)
  | .mPtrFrag l n => some (Byte.ofInt (l.2 / 2 ^ (8 * n)), provAllocId l.1)
  | .mPoison => none

/-- Representation of a value (list of bytes). -/
abbrev Val := List Mbyte

/-- Value `v` has the right size according to layout `ly`. -/
def hasLayoutVal (v : Val) (ly : Layout) : Prop := v.length = ly.lySize

instance (v : Val) (ly : Layout) : Decidable (hasLayoutVal v ly) :=
  inferInstanceAs (Decidable (_ = _))

/-! ## Conversion to and from locations -/

def valOfLocN (n : Nat) (l : Loc) : Val :=
  (List.range n).reverse.map (Mbyte.mPtrFrag l)

def valOfLoc : Loc → Val := valOfLocN bytesPerAddr

/-- Alternative representation of NULL as integer 0 bytes. -/
def nullBytesN (n : Nat) : Val := List.replicate n (.mByte byte0 none)

def valToLocN (n : Nat) (v : Val) : Option Loc :=
  match v with
  | .mPtrFrag l _ :: _ => if v = valOfLocN n l then some l else none
  | .mByte _ _ :: _ => if v = nullBytesN n then some nullLoc else none
  | _ => none

def valToLoc : Val → Option Loc := valToLocN bytesPerAddr

private theorem valOfLocN_length (n : Nat) (l : Loc) : (valOfLocN n l).length = n := by
  simp [valOfLocN]

@[simp] theorem valOfLoc_length (l : Loc) : (valOfLoc l).length = bytesPerAddr :=
  valOfLocN_length _ l

@[simp] theorem valToLoc_valOfLoc (l : Loc) : valToLoc (valOfLoc l) = some l := by
  simp [valToLoc, valOfLoc, valToLocN, valOfLocN, bytesPerAddr, bytesPerAddrLog, List.range,
    List.range.loop]

/-! ## Conversion to and from mathematical integers (little endian) -/

def valToZGo : Val → Option Int
  | [] => some 0
  | .mByte b _ :: v => (valToZGo v).map (fun z => byteModulus * z + b.byteVal)
  | _ => none

def valToZ (v : Val) (it : IntType) : Option Int :=
  if v.length = it.bytesPerInt then
    (valToZGo v).map (fun z =>
      if it.itSigned && decide (it.intHalfModulus ≤ z) then z - it.intModulus else z)
  else none

/-- The provenance shared by all bytes of an integer, if there is one. -/
def valToByteProv (v : Val) : Option AllocId :=
  match v with
  | .mByte _ (some p) :: _ =>
      if v.all (fun e => match e with
        | .mByte _ (some p') => decide (p = p')
        | _ => false)
      then some p else none
  | _ => none

def provsInBytes (v : Val) : List AllocId :=
  v.filterMap (fun b => match b with
    | .mByte _ (some p) => some p
    | _ => none)

def valToBytes (v : Val) : Option Val :=
  v.mapM (fun b => (mbyteToByte b).map (fun byte => .mByte byte.1 byte.2))

def valOfZGo (n : Int) (sz : Nat) (p : Option AllocId) : Val :=
  match sz with
  | 0 => []
  | sz + 1 => .mByte (Byte.ofInt n) p :: valOfZGo (n / byteModulus) sz p

def valOfZ (z : Int) (it : IntType) (p : Option AllocId) : Option Val :=
  if IntType.InRange z it then
    let n := if z < 0 then z + it.intModulus else z
    some (valOfZGo n it.bytesPerInt p)
  else none

/-! ## Booleans -/

def valOfBool (b : Bool) : Val :=
  [.mByte (Byte.ofInt (boolToZ b)) none]

def valToBool (v : Val) : Option Bool :=
  match v with
  | [.mByte b _] =>
      if b.byteVal = 0 then some false
      else if b.byteVal = 1 then some true
      else none
  | _ => none

def valToZOt (v : Val) (ot : OpType) : Option Int :=
  match ot with
  | .intOp it => valToZ v it
  | .boolOp => (valToBool v).map boolToZ
  | _ => none

end RefinedC.Caesium
