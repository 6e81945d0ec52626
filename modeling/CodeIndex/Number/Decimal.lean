import CodeIndex.Number.Double

namespace CodeIndex

structure Decimal where
  negative : Bool
  mantissa : Nat
  exponent : Int
deriving DecidableEq, Repr, Inhabited

namespace Decimal

/-- Numbers with an exponent beyond this, counted from the first digit, are zero or infinite as
doubles. -/
def reach : Int := 400

def magnitude (mantissa : Nat) (exponent : Int) : Double :=
  let top := exponent + (Nat.toDigits 10 mantissa).length
  if mantissa = 0 || top < -reach then ⟨0⟩
  else if reach < top then .infinity
  else .ofFloat (Float.ofScientific mantissa (exponent < 0) exponent.natAbs)

def toDouble (d : Decimal) : Double :=
  let x := magnitude d.mantissa d.exponent
  if d.negative then x.opposite else x

def digitsValue (ds : List Char) : Nat := ds.foldl (fun n d => n * 10 + (d.toNat - 48)) 0

def digitRun (cs : List Char) : List Char × List Char :=
  (cs.takeWhile (·.isDigit), cs.dropWhile (·.isDigit))

def sign? : List Char → Option Bool × List Char
  | '-' :: rest => (some true, rest)
  | '+' :: rest => (some false, rest)
  | rest => (none, rest)

def exponent? (cs : List Char) : Option Int :=
  let (negative, ds) := sign? cs
  if ds.isEmpty || !ds.all (·.isDigit) then none
  else some (if negative == some true then -(digitsValue ds : Int) else digitsValue ds)

/-- The number that is all of a text: digits on at least one side of a point, and an exponent or
none. -/
def ofList? (cs : List Char) : Option Decimal := do
  let (negative, cs) := sign? cs
  let (whole, rest) := digitRun cs
  let (places, rest) := match rest with
    | '.' :: rest => digitRun rest
    | rest => ([], rest)
  if whole.isEmpty && places.isEmpty then none
  let exponent ← match rest with
    | [] => some 0
    | c :: rest => if c == 'e' || c == 'E' then exponent? rest else none
  return ⟨negative == some true, digitsValue (whole ++ places), exponent - places.length⟩

end Decimal

namespace Number

/-- The double that a text spells: a decimal number, or one of three words in any case. -/
def double? (s : String) : Option Double :=
  let (negative, cs) := Decimal.sign? s.toLower.toList
  let signed (x : Double) : Double := if negative == some true then x.opposite else x
  match String.ofList cs with
  | "inf" | "infinity" => some (signed .infinity)
  | "nan" => some (signed .nan)
  | _ => (Decimal.ofList? s.toList).map Decimal.toDouble

/-- The whole number that a text spells, with a sign or without, if it is at least `low` and below
`high`. -/
def int? (low high : Int) (s : String) : Option Int :=
  let (negative, ds) := Decimal.sign? s.toList
  if ds.isEmpty || !ds.all (·.isDigit) then none
  else
    let n : Int := Decimal.digitsValue ds
    let n := if negative == some true then -n else n
    if low ≤ n && n < high then some n else none

def signed64? : String → Option Int := int? (-Nat.pow 2 63) (Nat.pow 2 63)

def unsigned64? (s : String) : Option Nat :=
  if s.startsWith "-" then none else (int? 0 (Nat.pow 2 64) s).map Int.toNat

end Number

end CodeIndex
