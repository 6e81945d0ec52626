import CodeIndex.Text.Blank
import CodeIndex.Time.Duration

namespace CodeIndex

structure Date where
  year : Int
  month : Nat
  day : Nat
deriving DecidableEq, Repr, Inhabited

namespace Date

def isLeapYear (year : Int) : Bool :=
  year % 4 == 0 && (year % 100 != 0 || year % 400 == 0)

def monthLength (year : Int) (month : Nat) : Nat :=
  if month == 2 then (if isLeapYear year then 29 else 28)
  else if month == 4 || month == 6 || month == 9 || month == 11 then 30
  else 31

def yearInRange (year : Int) : Bool := -262143 ≤ year && year ≤ 262142

def isValid (d : Date) : Bool :=
  yearInRange d.year && 1 ≤ d.month && d.month ≤ 12
    && 1 ≤ d.day && d.day ≤ monthLength d.year d.month

def next (d : Date) : Date :=
  if d.day < monthLength d.year d.month then ⟨d.year, d.month, d.day + 1⟩
  else if d.month < 12 then ⟨d.year, d.month + 1, 1⟩
  else ⟨d.year + 1, 1, 1⟩

def previous (d : Date) : Date :=
  if 1 < d.day then ⟨d.year, d.month, d.day - 1⟩
  else if 1 < d.month then ⟨d.year, d.month - 1, monthLength d.year (d.month - 1)⟩
  else ⟨d.year - 1, 12, 31⟩

def dayNumber (d : Date) : Int :=
  let before := d.year - 1
  let years := d.year * 365 + before / 4 - before / 100 + before / 400 + 1
  (List.range (d.month - 1)).foldl (fun days m => days + (monthLength d.year (m + 1) : Int)) years
    + (d.day : Int) - 1

end Date

structure Timestamp where
  date : Date
  second : Nat
  nano : Nat
deriving DecidableEq, Repr, Inhabited

namespace Timestamp

def daySeconds : Nat := 86400

def since (a b : Timestamp) : Int :=
  let days := a.date.dayNumber - b.date.dayNumber
  let leap : Int :=
    if b.second < a.second then (if Duration.second ≤ b.nano then 1 else 0)
    else if a.second < b.second then (if Duration.second ≤ a.nano then -1 else 0)
    else 0
  (days * daySeconds + ((a.second : Int) - b.second) + leap) * Duration.second
    + ((a.nano : Int) - b.nano)

def age (a b : Timestamp) : Duration := ⟨(a.since b).toNat⟩

def addDays : Nat → Date → Date
  | 0, d => d
  | n + 1, d => addDays n d.next

def advance (t : Timestamp) (d : Duration) : Timestamp :=
  let nanos := t.nano + d.nanoseconds
  let seconds := t.second + nanos / Duration.second
  ⟨addDays (seconds / daySeconds) t.date, seconds % daySeconds, nanos % Duration.second⟩

def two (n : Nat) : String := String.ofList (Duration.digits 2 n)

/-- The text of a year: four digits from 0 to 9999, else a sign and at least four digits. -/
def yearText (year : Int) : String :=
  if 0 ≤ year ∧ year ≤ 9999 then String.ofList (Duration.digits 4 year.toNat)
  else
    let magnitude := toString year.natAbs
    (if year < 0 then "-" else "+")
      ++ String.ofList (List.replicate (4 - magnitude.length) '0') ++ magnitude

/-- The fraction of a second with none, three, six or nine digits, the fewest that are exact. -/
def fractionText (nano : Nat) : String :=
  if nano = 0 then ""
  else if nano % 1000000 = 0 then "." ++ String.ofList (Duration.digits 3 (nano / 1000000))
  else if nano % 1000 = 0 then "." ++ String.ofList (Duration.digits 6 (nano / 1000))
  else "." ++ String.ofList (Duration.digits 9 nano)

def text (t : Timestamp) : String :=
  yearText t.date.year ++ "-" ++ two t.date.month ++ "-" ++ two t.date.day ++ "T"
    ++ two (t.second / 3600) ++ ":" ++ two (t.second / 60 % 60) ++ ":"
    ++ two (t.second % 60 + t.nano / Duration.second)
    ++ fractionText (t.nano % Duration.second) ++ "Z"

def digit? (c : Char) : Option Nat :=
  if '0' ≤ c ∧ c ≤ '9' then some (c.toNat - 48) else none

def takeDigits : Nat → List Char → List Nat × List Char
  | 0, cs => ([], cs)
  | _ + 1, [] => ([], [])
  | limit + 1, c :: cs =>
    match digit? c with
    | none => ([], c :: cs)
    | some d =>
      let (ds, rest) := takeDigits limit cs
      (d :: ds, rest)

def value (ds : List Nat) : Nat := ds.foldl (fun n d => n * 10 + d) 0

def number? (limit : Nat) (cs : List Char) : Option (Nat × List Char) :=
  match takeDigits limit cs with
  | ([], _) => none
  | (ds, rest) => some (value ds, rest)

def skipBlanks (cs : List Char) : List Char := cs.dropWhile Text.isBlank

def expect (c : Char) (cs : List Char) : Option (List Char) :=
  match skipBlanks cs with
  | d :: rest => if d = c then some rest else none
  | [] => none

def field? (cs : List Char) : Option (Nat × List Char) := number? 2 (skipBlanks cs)

def year? (cs : List Char) : Option (Int × List Char) :=
  match skipBlanks cs with
  | '-' :: rest => (number? rest.length rest).map fun (n, more) => (-(n : Int), more)
  | '+' :: rest => (number? rest.length rest).map fun (n, more) => ((n : Int), more)
  | rest => (number? 4 rest).map fun (n, more) => ((n : Int), more)

def fraction? : List Char → Option (Nat × List Char)
  | '.' :: rest =>
    match takeDigits 9 rest with
    | ([], _) => none
    | (ds, more) =>
      some (value ds * Nat.pow 10 (9 - ds.length), more.dropWhile fun c => (digit? c).isSome)
  | rest => some (0, rest)

def offsetMinutes? : List Char → Option (Nat × List Char)
  | c :: d :: rest => do
    let tens ← digit? c
    let units ← digit? d
    if tens ≤ 5 then some (tens * 10 + units, rest) else none
  | _ => none

def offset? (cs : List Char) : Option (Int × List Char) :=
  let signed (negative : Bool) (rest : List Char) : Option (Int × List Char) :=
    match rest with
    | c :: d :: rest => do
      let tens ← digit? c
      let units ← digit? d
      let (minutes, rest) ←
        offsetMinutes? (rest.dropWhile fun c => c == ':' || Text.isBlank c)
      let seconds : Int := (tens * 10 + units) * 3600 + minutes * 60
      some (if negative then -seconds else seconds, rest)
    | _ => none
  match skipBlanks cs with
  | 'Z' :: rest => some (0, rest)
  | 'z' :: rest => some (0, rest)
  | '+' :: rest => signed false rest
  | '-' :: rest => signed true rest
  | '\u2212' :: rest => signed true rest
  | a :: b :: c :: rest =>
    if a.toUpper = 'U' ∧ b.toUpper = 'T' ∧ c.toUpper = 'C' then some (0, rest) else none
  | _ => none

def ofLocal (date : Date) (second nano : Nat) (offset : Int) : Option Timestamp :=
  let shifted : Int := second - offset
  let result : Timestamp :=
    if shifted < 0 then ⟨date.previous, (shifted + daySeconds).toNat, nano⟩
    else if (daySeconds : Int) ≤ shifted then ⟨date.next, (shifted - daySeconds).toNat, nano⟩
    else ⟨date, shifted.toNat, nano⟩
  if Date.yearInRange result.date.year then some result else none

/-- Reads an instant: the date, one of `T`, `t` or a blank, the time of day, and the offset. Blanks
may stand before a field or its separator. -/
def parse? (s : String) : Option Timestamp := do
  let (year, cs) ← year? s.toList
  let cs ← expect '-' cs
  let (month, cs) ← field? cs
  let cs ← expect '-' cs
  let (day, cs) ← field? cs
  let cs ← match cs with
    | c :: rest => if c = 'T' ∨ c = 't' ∨ c = ' ' then some rest else none
    | [] => none
  let (hour, cs) ← field? cs
  let cs ← expect ':' cs
  let (minute, cs) ← field? cs
  let cs ← expect ':' cs
  let (second, cs) ← field? cs
  let (nano, cs) ← fraction? cs
  let (offset, cs) ← offset? cs
  let date : Date := ⟨year, month, day⟩
  if (skipBlanks cs).isEmpty && date.isValid && hour < 24 && minute < 60 && second ≤ 60
      && offset.natAbs < daySeconds then
    if second = 60 then
      ofLocal date (hour * 3600 + minute * 60 + 59) (nano + Duration.second) offset
    else ofLocal date (hour * 3600 + minute * 60 + second) nano offset
  else none

end Timestamp

end CodeIndex
