namespace CodeIndex

/-- A number of the format with 64 bits: sign, eleven bits of exponent, 52 bits of fraction. -/
structure Double where
  bits : UInt64
deriving DecidableEq, Repr, Inhabited

namespace Double

def signBit : UInt64 := 0x8000000000000000

def infinity : Double := ⟨0x7ff0000000000000⟩

def nan : Double := ⟨0x7ff8000000000000⟩

def ofFloat (x : Float) : Double := ⟨x.toBits⟩

def toFloat (d : Double) : Float := Float.ofBits d.bits

def ofInt (i : Int) : Double := ofFloat (Float.ofInt i)

def opposite (d : Double) : Double := ⟨d.bits ^^^ signBit⟩

def isNegative (d : Double) : Bool := d.bits &&& signBit != 0

def magnitude (d : Double) : Double := if d.isNegative then d.opposite else d

/-- The whole number of 64 bits nearest to a double, a half going away from zero; what is too small
or no number counts as zero, what is too large as the largest. -/
def toWhole (d : Double) : Nat := d.toFloat.round.toUInt64.toNat

end Double

end CodeIndex
