import CodeIndex.Json.Value
import CodeIndex.Time.Duration

/-!
Reading typed data from JSON values. A record is an object, whose members stand in any order, or
an array of its fields in order; a member that names no field counts for nothing, and one that
repeats a field makes the record unreadable.
-/

namespace CodeIndex.Json

/-- What a record says about one field: nothing (`absent` in an object, `beyond` the end of an
array) or a value. -/
inductive Slot where
  | absent
  | beyond
  | given (value : Json)

def membersNamed (name : String) (members : List (Option String × Json)) : List Json :=
  (members.filter fun m => m.1 == some name).map (·.2)

def memberSlot (members : List (Option String × Json)) (name : String) : Option Slot :=
  match membersNamed name members with
  | [] => some .absent
  | [value] => some (.given value)
  | _ => none

def itemSlots : Nat → List Json → List Slot
  | 0, _ => []
  | count + 1, [] => .beyond :: itemSlots count []
  | count + 1, item :: items => .given item :: itemSlots count items

/-- The slots of a record's fields. With `closed`, a member that names no field makes the record
unreadable. -/
def slots (names : List String) (closed : Bool) : Json → Option (List Slot)
  | .object members =>
    if members.all (fun m => m.1.isSome)
        && (!closed || members.all fun m => names.any fun name => m.1 == some name) then
      names.mapM (memberSlot members)
    else none
  | .array items =>
    if items.length ≤ names.length then some (itemSlots names.length items) else none
  | _ => none

def Slot.required {α : Type} (read : Json → Option α) : Slot → Option α
  | .given value => read value
  | _ => none

def Slot.nullable {α : Type} (read : Json → Option α) : Slot → Option (Option α)
  | .absent => some none
  | .beyond => none
  | .given .null => some none
  | .given value => (read value).map some

def Slot.withDefault {α : Type} (default : α) (read : Json → Option α) : Slot → Option α
  | .given value => read value
  | _ => some default

def natBelow? (bound : Nat) : Json → Option Nat
  | .number (.integer false n) => if n < bound then some n else none
  | _ => none

def u32? : Json → Option Nat := natBelow? (Nat.pow 2 32)

def u64? : Json → Option Nat := natBelow? (Nat.pow 2 64)

def text? : Json → Option String
  | .string (some s) => some s
  | _ => none

def bool? : Json → Option Bool
  | .bool b => some b
  | _ => none

def list? {α : Type} (read : Json → Option α) : Json → Option (List α)
  | .array items => items.mapM read
  | _ => none

/-- One of some names, written as a text or as an object with that one member, which is `null`. -/
def name? {α : Type} (ofName? : String → Option α) : Json → Option α
  | .string (some s) => ofName? s
  | .object [(some s, .null)] => ofName? s
  | _ => none

def entries? {α : Type} (read : Json → Option α) : Json → Option (List (String × α))
  | .object members => members.mapM fun m =>
    match m.1, read m.2 with
    | some name, some value => some (name, value)
    | _, _ => none
  | _ => none

/-- A length of time written with the names of its two parts; a billion nanoseconds and more count
as seconds. -/
def durationNamed? (secsName nanosName : String) (value : Json) : Option Duration := do
  let fields ← slots [secsName, nanosName] true value
  match fields with
  | [secs, nanos] =>
    let secs ← secs.required u64?
    let nanos ← nanos.required u32?
    let d := Duration.ofParts secs nanos
    if d.nanoseconds ≤ Duration.max.nanoseconds then some d else none
  | _ => none

def duration? : Json → Option Duration := durationNamed? "secs" "nanos"

def ofDuration (d : Duration) : Json := record [("secs", nat d.secs), ("nanos", nat d.nanos)]

end CodeIndex.Json
