import CodeIndex.Number.Double

namespace CodeIndex.Shortest

/-- A positive double as `mantissa · 2 ^ exponent`, and whether the double below it is closer than
the one above it. -/
structure Binary where
  mantissa : Nat
  exponent : Int
  isLowest : Bool

def Binary.ofBits (bits : UInt64) : Binary :=
  let field := (bits >>> 52).toNat % 2048
  let fraction := bits.toNat % Nat.pow 2 52
  if field = 0 then ⟨fraction, -1074, false⟩
  else ⟨fraction + Nat.pow 2 52, field - 1075, fraction = 0 && 1 < field⟩

/-- The numbers that round to a double, in units of `1 / den`: `value` itself and the ends `low` and
`high`, which belong to them if `closed`. -/
structure Range where
  value : Nat
  low : Nat
  high : Nat
  den : Nat
  closed : Bool

def Range.ofBinary (b : Binary) : Range :=
  let e := b.exponent - 2
  let scale := Nat.pow 2 e.toNat
  ⟨4 * b.mantissa * scale, (4 * b.mantissa - (if b.isLowest then 1 else 2)) * scale,
    (4 * b.mantissa + 2) * scale, Nat.pow 2 (-e).toNat, b.mantissa % 2 = 0⟩

def Range.holds (r : Range) (digits : Nat) (exponent : Int) : Bool :=
  let x := digits * Nat.pow 10 exponent.toNat * r.den
  let unit := Nat.pow 10 (-exponent).toNat
  if r.closed then r.low * unit ≤ x && x ≤ r.high * unit
  else r.low * unit < x && x < r.high * unit

/-- The largest multiple of `10 ^ exponent` that is not above the double, as a count. -/
def Range.floorAt (r : Range) (exponent : Int) : Nat :=
  r.value * Nat.pow 10 (-exponent).toNat / (r.den * Nat.pow 10 exponent.toNat)

def Range.nearestAt (r : Range) (exponent : Int) : Nat :=
  let below := r.floorAt exponent
  let twice := 2 * r.value * Nat.pow 10 (-exponent).toNat
  let middle := (2 * below + 1) * (r.den * Nat.pow 10 exponent.toNat)
  if twice < middle then below
  else if middle < twice then below + 1
  else if below % 2 = 0 then below else below + 1

/-- A multiple of `10 ^ exponent` that rounds to the double, if one of its two neighbours does; the
nearer if both do. -/
def Range.hit? (r : Range) (exponent : Int) : Option Nat :=
  let below := r.floorAt exponent
  let nearest := r.nearestAt exponent
  if r.holds nearest exponent then some nearest
  else if r.holds below exponent then some below
  else if r.holds (below + 1) exponent then some (below + 1)
  else none

def Range.search (r : Range) : Nat → Int → Nat × Int
  | 0, exponent => (r.nearestAt exponent, exponent)
  | fuel + 1, exponent =>
    match r.hit? exponent with
    | some digits => (digits, exponent)
    | none => r.search fuel (exponent - 1)

def withoutZeros : Nat → Nat × Int → Nat × Int
  | 0, d => d
  | fuel + 1, (digits, exponent) =>
    if digits ≠ 0 ∧ digits % 10 = 0 then withoutZeros fuel (digits / 10, exponent + 1)
    else (digits, exponent)

/-- The shortest digits of a positive finite double. A double has no digit above `10 ^ 308` and
none below `10 ^ -324`. -/
def ofPositive (bits : UInt64) : Nat × Int :=
  withoutZeros 700 ((Range.ofBinary (Binary.ofBits bits)).search 700 309)

def positional (digits : Nat) (exponent : Int) : String :=
  let ds := Nat.toDigits 10 digits
  if 0 ≤ exponent then String.ofList (ds ++ List.replicate exponent.toNat '0')
  else
    let places := exponent.natAbs
    let padded := List.replicate (places + 1 - ds.length) '0' ++ ds
    let whole := padded.length - places
    String.ofList (padded.take whole ++ '.' :: padded.drop whole)

def text (d : Double) : String :=
  let magnitude := d.magnitude.bits
  let unsigned :=
    if magnitude = 0 then "0"
    else if magnitude = Double.infinity.bits then "inf"
    else
      let (digits, exponent) := ofPositive magnitude
      positional digits exponent
  if Double.infinity.bits < magnitude then "NaN"
  else if d.isNegative then "-" ++ unsigned
  else unsigned

end CodeIndex.Shortest
