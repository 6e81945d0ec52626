/-!
JSON values (RFC 8259) as documents hold them: members keep their order and may repeat a name, a
number keeps the digits it is written with, and a string literal whose escapes or bytes name no
text is kept as one that has none.
-/

namespace CodeIndex

/-- A number: an integer, or `mantissa · 10 ^ exponent` for one with a fraction or an exponent. -/
inductive JsonNumber where
  | integer (negative : Bool) (magnitude : Nat)
  | decimal (negative : Bool) (mantissa : Nat) (exponent : Int)
deriving DecidableEq, Repr, Inhabited

inductive Json where
  | null
  | bool (value : Bool)
  | number (value : JsonNumber)
  | string (literal : Option String)
  | array (items : List Json)
  | object (members : List (Option String × Json))
deriving Repr, Inhabited

namespace Json

def text (s : String) : Json := .string (some s)

def nat (n : Nat) : Json := .number (.integer false n)

def record (members : List (String × Json)) : Json :=
  .object (members.map fun (name, value) => (some name, value))

def optional {α : Type} (write : α → Json) : Option α → Json
  | none => .null
  | some a => write a

end Json

end CodeIndex
