namespace CodeIndex

structure Duration where
  nanoseconds : Nat
deriving DecidableEq, Repr, Inhabited

namespace Duration

def second : Nat := 1000000000

def max : Duration := ⟨Nat.pow 2 64 * second - 1⟩

def zero : Duration := ⟨0⟩

def ofSecs (n : Nat) : Duration := ⟨n * second⟩
def ofMillis (n : Nat) : Duration := ⟨n * 1000000⟩
def ofParts (secs nanos : Nat) : Duration := ⟨secs * second + nanos⟩

def secs (d : Duration) : Nat := d.nanoseconds / second

def nanos (d : Duration) : Nat := d.nanoseconds % second

def clamp (n : Nat) : Duration := if n ≤ max.nanoseconds then ⟨n⟩ else max

def add (a b : Duration) : Duration := clamp (a.nanoseconds + b.nanoseconds)

def scale (a : Duration) (k : Nat) : Duration := clamp (a.nanoseconds * k)

def min (a b : Duration) : Duration := if a.nanoseconds ≤ b.nanoseconds then a else b

instance : LT Duration := ⟨fun a b => a.nanoseconds < b.nanoseconds⟩
instance (a b : Duration) : Decidable (a < b) :=
  inferInstanceAs (Decidable (a.nanoseconds < b.nanoseconds))

def digits : Nat → Nat → List Char
  | 0, _ => []
  | width + 1, n => digits width (n / 10) ++ [Char.ofNat (48 + n % 10)]

/-- The digits after the point for `part` out of `10 ^ width`, without trailing zeros; nothing for
zero. -/
def fraction (width part : Nat) : String :=
  if part = 0 then ""
  else "." ++ String.ofList ((digits width part).reverse.dropWhile (· == '0')).reverse

def text (d : Duration) : String :=
  let n := d.nanoseconds
  if second ≤ n then toString (n / second) ++ fraction 9 (n % second) ++ "s"
  else if 1000000 ≤ n then toString (n / 1000000) ++ fraction 6 (n % 1000000) ++ "ms"
  else if 1000 ≤ n then toString (n / 1000) ++ fraction 3 (n % 1000) ++ "µs"
  else toString n ++ "ns"

end Duration

end CodeIndex
