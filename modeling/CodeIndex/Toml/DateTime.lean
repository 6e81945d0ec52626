import CodeIndex.Number.Decimal
import CodeIndex.Time.Timestamp

namespace CodeIndex

structure Clock where
  hour : Nat
  minute : Nat
  second : Nat
  nanosecond : Nat
deriving DecidableEq, Repr, Inhabited

inductive ZoneOffset where
  | universal
  | minutes (count : Int)
deriving DecidableEq, Repr, Inhabited

inductive DateTime where
  | date (day : Date)
  | clock (time : Clock)
  | instant (date : Date) (time : Clock) (offset : Option ZoneOffset)
deriving DecidableEq, Repr, Inhabited

namespace DateTime

def padded (width n : Nat) : String :=
  let ds := Nat.toDigits 10 n
  String.ofList (List.replicate (width - ds.length) '0' ++ ds)

def dateText (d : Date) : String :=
  padded 4 d.year.toNat ++ "-" ++ padded 2 d.month ++ "-" ++ padded 2 d.day

def clockText (c : Clock) : String :=
  let places := (padded 9 c.nanosecond).toList.reverse.dropWhile (· == '0')
  let fraction := if places.isEmpty then "" else "." ++ String.ofList places.reverse
  padded 2 c.hour ++ ":" ++ padded 2 c.minute ++ ":" ++ padded 2 c.second ++ fraction

def offsetText : ZoneOffset → String
  | .universal => "Z"
  | .minutes count =>
    (if count < 0 then "-" else "+") ++ padded 2 (count.natAbs / 60) ++ ":"
      ++ padded 2 (count.natAbs % 60)

def text : DateTime → String
  | .date d => dateText d
  | .clock c => clockText c
  | .instant d c offset => dateText d ++ "T" ++ clockText c ++ (offset.map offsetText).getD ""

def digits? (count : Nat) (cs : List Char) : Option (Nat × List Char) :=
  let ds := cs.take count
  if ds.length = count && ds.all (·.isDigit) then some (Decimal.digitsValue ds, cs.drop count)
  else none

def mark? (mark : Char) : List Char → Option (List Char)
  | c :: rest => if c = mark then some rest else none
  | [] => none

def date? (cs : List Char) : Option (Date × List Char) := do
  let (year, cs) ← digits? 4 cs
  let (month, cs) ← digits? 2 (← mark? '-' cs)
  let (day, cs) ← digits? 2 (← mark? '-' cs)
  let d : Date := ⟨year, month, day⟩
  if d.isValid then some (d, cs) else none

def hourMinute? (cs : List Char) : Option (Nat × Nat × List Char) := do
  let (hour, cs) ← digits? 2 cs
  let (minute, cs) ← digits? 2 (← mark? ':' cs)
  if hour ≤ 23 && minute ≤ 59 then some (hour, minute, cs) else none

/-- The nanoseconds of a fraction of a second; digits after the ninth count for nothing. -/
def nanoseconds (ds : List Char) : Nat :=
  Decimal.digitsValue ((ds ++ List.replicate 9 '0').take 9)

def clock? (cs : List Char) : Option (Clock × List Char) := do
  let (hour, minute, cs) ← hourMinute? cs
  let (second, cs) ← digits? 2 (← mark? ':' cs)
  if 60 < second then none
  match cs with
  | '.' :: rest =>
    match Decimal.digitRun rest with
    | ([], _) => none
    | (ds, rest) => some (⟨hour, minute, second, nanoseconds ds⟩, rest)
  | rest => some (⟨hour, minute, second, 0⟩, rest)

def offset? : List Char → Option (Option ZoneOffset × List Char)
  | 'Z' :: rest => some (some .universal, rest)
  | 'z' :: rest => some (some .universal, rest)
  | '+' :: rest => do
    let (hour, minute, rest) ← hourMinute? rest
    some (some (.minutes (hour * 60 + minute)), rest)
  | '-' :: rest => do
    let (hour, minute, rest) ← hourMinute? rest
    some (some (.minutes (-(hour * 60 + minute))), rest)
  | rest => some (none, rest)

/-- The time and offset after a date. A letter or a blank stands between; a blank that no time
follows belongs to neither. -/
def afterDate? (d : Date) (cs : List Char) : Option (DateTime × List Char) :=
  match cs with
  | c :: rest =>
    if c = 'T' || c = 't' || c = ' ' then
      match clock? rest with
      | none => some (.date d, cs)
      | some (time, rest) => do
        let (offset, rest) ← offset? rest
        some (.instant d time offset, rest)
    else some (.date d, cs)
  | [] => some (.date d, cs)

def first? (cs : List Char) : Option (DateTime × List Char) :=
  match date? cs with
  | some (d, rest) => afterDate? d rest
  | none => (clock? cs).map fun (c, rest) => (.clock c, rest)

end DateTime

end CodeIndex
