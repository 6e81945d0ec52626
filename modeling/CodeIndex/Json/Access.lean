import CodeIndex.Json.Value

namespace CodeIndex.Json

def members : Json → List (String × Json)
  | .object ms => ms.filterMap fun (name, value) => name.map (·, value)
  | _ => []

def get (j : Json) (name : String) : Json := (j.members.lookup name).getD .null

def isNull : Json → Bool
  | .null => true
  | _ => false

def asText? : Json → Option String
  | .string s => s
  | _ => none

def asNat? : Json → Option Nat
  | .number (.integer false n) => some n
  | _ => none

def asBool? : Json → Option Bool
  | .bool b => some b
  | _ => none

def items : Json → List Json
  | .array xs => xs
  | _ => []

def textAt (j : Json) (name : String) (default : String := "") : String :=
  (j.get name).asText?.getD default

def natAt (j : Json) (name : String) (default : Nat := 0) : Nat := (j.get name).asNat?.getD default

def boolAt (j : Json) (name : String) (default : Bool := false) : Bool :=
  (j.get name).asBool?.getD default

def itemsAt (j : Json) (name : String) : List Json := (j.get name).items

def textsAt (j : Json) (name : String) : List String :=
  (j.itemsAt name).map fun x => x.asText?.getD ""

def without (name : String) : Json → Json
  | .object ms => .object (ms.filter (·.1 != some name))
  | j => j

def withMembers (j : Json) (changed : List (String × Json)) : Json :=
  .record (j.members.map fun (name, value) => (name, (changed.lookup name).getD value))

mutual

def mapTexts (f : String → String) : Json → Json
  | .string s => .string (s.map f)
  | .array xs => .array (mapItems f xs)
  | .object ms => .object (mapMembers f ms)
  | .null => .null
  | .bool b => .bool b
  | .number n => .number n

def mapItems (f : String → String) : List Json → List Json
  | [] => []
  | x :: xs => mapTexts f x :: mapItems f xs

def mapMembers (f : String → String) : List (Option String × Json) → List (Option String × Json)
  | [] => []
  | (name, value) :: ms => (name.map f, mapTexts f value) :: mapMembers f ms

end

def texts (xs : List String) : Json := .array (xs.map .text)

end CodeIndex.Json
