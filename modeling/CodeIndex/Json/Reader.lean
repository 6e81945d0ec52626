import CodeIndex.Json.Value
import CodeIndex.Text.Hex
import CodeIndex.Text.Utf8

/-!
Reading JSON text. The reader takes the characters of a document, `none` where its bytes are no
text: such parts may stand only inside string literals. It accepts exactly one value with blanks
around it.
-/

namespace CodeIndex.Json

abbrev Symbols := List (Option Char)

def isSpace (s : Option Char) : Bool :=
  s == some ' ' || s == some '\n' || s == some '\t' || s == some '\r'

def skipSpaces (cs : Symbols) : Symbols := cs.dropWhile isSpace

def keyword (word : List Char) (cs : Symbols) : Option Symbols :=
  match word with
  | [] => some cs
  | c :: word =>
    match cs with
    | some d :: rest => if c = d then keyword word rest else none
    | _ => none

/-- A part of a string literal: a character, a sixteen-bit code unit, or bytes that are no text. -/
inductive Piece where
  | char (c : Char)
  | unit (code : Nat)
  | garbage

def unit? (a b c d : Option Char) : Option Nat := do
  let a ← Text.hexValue? (← a)
  let b ← Text.hexValue? (← b)
  let c ← Text.hexValue? (← c)
  let d ← Text.hexValue? (← d)
  some (((a * 16 + b) * 16 + c) * 16 + d)

def shortEscape? (c : Char) : Option Char :=
  if c = '"' ∨ c = '\\' ∨ c = '/' then some c
  else if c = 'b' then some (Char.ofNat 8)
  else if c = 'f' then some (Char.ofNat 12)
  else if c = 'n' then some '\n'
  else if c = 'r' then some '\r'
  else if c = 't' then some '\t'
  else none

/-- The parts of a string literal after its opening quote, and what follows the closing one. -/
def pieces : Symbols → Option (List Piece × Symbols)
  | [] => none
  | none :: rest => (pieces rest).map fun (ps, more) => (.garbage :: ps, more)
  | some '"' :: rest => some ([], rest)
  | some '\\' :: some 'u' :: a :: b :: c :: d :: rest =>
    match unit? a b c d with
    | none => none
    | some code => (pieces rest).map fun (ps, more) => (.unit code :: ps, more)
  | some '\\' :: some e :: rest =>
    match shortEscape? e with
    | none => none
    | some c => (pieces rest).map fun (ps, more) => (.char c :: ps, more)
  | some c :: rest =>
    if c = '\\' ∨ c.toNat < 32 then none
    else (pieces rest).map fun (ps, more) => (.char c :: ps, more)

/-- The text of the parts: code units of a surrogate pair make one character, and a lone surrogate
or garbage leaves no text. -/
def composed : List Piece → Option (List Char)
  | [] => some []
  | .garbage :: _ => none
  | .char c :: rest => (composed rest).map (c :: ·)
  | .unit high :: .unit low :: rest =>
    if 0xD800 ≤ high ∧ high < 0xDC00 then
      if 0xDC00 ≤ low ∧ low < 0xE000 then
        (composed rest).map
          (Char.ofNat (0x10000 + (high - 0xD800) * 1024 + (low - 0xDC00)) :: ·)
      else none
    else if 0xDC00 ≤ high ∧ high < 0xE000 then none
    else (composed (.unit low :: rest)).map (Char.ofNat high :: ·)
  | .unit code :: rest =>
    if 0xD800 ≤ code ∧ code < 0xE000 then none
    else (composed rest).map (Char.ofNat code :: ·)

def literal? (cs : Symbols) : Option (Option String × Symbols) :=
  (pieces cs).map fun (ps, rest) => ((composed ps).map String.ofList, rest)

def digitRun : Symbols → List Nat × Symbols
  | [] => ([], [])
  | some c :: rest =>
    if '0' ≤ c ∧ c ≤ '9' then
      let (ds, more) := digitRun rest
      ((c.toNat - 48) :: ds, more)
    else ([], some c :: rest)
  | none :: rest => ([], none :: rest)

def digitsValue (ds : List Nat) : Nat := ds.foldl (fun n d => n * 10 + d) 0

def fraction? : Symbols → Option (Option (List Nat) × Symbols)
  | some '.' :: rest =>
    match digitRun rest with
    | ([], _) => none
    | (ds, more) => some (some ds, more)
  | rest => some (none, rest)

def exponent? (cs : Symbols) : Option (Option Int × Symbols) :=
  let unsigned (negative : Bool) (rest : Symbols) : Option (Option Int × Symbols) :=
    match digitRun rest with
    | ([], _) => none
    | (ds, more) =>
      let n : Int := digitsValue ds
      some (some (if negative then -n else n), more)
  let signed (rest : Symbols) : Option (Option Int × Symbols) :=
    match rest with
    | some '+' :: rest => unsigned false rest
    | some '-' :: rest => unsigned true rest
    | rest => unsigned false rest
  match cs with
  | some 'e' :: rest => signed rest
  | some 'E' :: rest => signed rest
  | rest => some (none, rest)

def unsignedNumber? (negative : Bool) (cs : Symbols) : Option (JsonNumber × Symbols) :=
  match digitRun cs with
  | ([], _) => none
  | (0 :: _ :: _, _) => none
  | (whole, rest) => do
    let (fraction, rest) ← fraction? rest
    let (exponent, rest) ← exponent? rest
    match fraction, exponent with
    | none, none => some (.integer negative (digitsValue whole), rest)
    | _, _ =>
      let places := fraction.getD []
      some (.decimal negative (digitsValue (whole ++ places))
        (exponent.getD 0 - places.length), rest)

def number? : Symbols → Option (JsonNumber × Symbols)
  | some '-' :: rest => unsignedNumber? true rest
  | rest => unsignedNumber? false rest

mutual

def valueFrom : Nat → Symbols → Option (Json × Symbols)
  | 0, _ => none
  | fuel + 1, cs =>
    match skipSpaces cs with
    | [] => none
    | some 'n' :: rest => (keyword "ull".toList rest).map fun rest => (.null, rest)
    | some 't' :: rest => (keyword "rue".toList rest).map fun rest => (.bool true, rest)
    | some 'f' :: rest => (keyword "alse".toList rest).map fun rest => (.bool false, rest)
    | some '"' :: rest => (literal? rest).map fun (s, rest) => (.string s, rest)
    | some '[' :: rest =>
      match skipSpaces rest with
      | some ']' :: rest => some (.array [], rest)
      | rest => do
        let (item, rest) ← valueFrom fuel rest
        let (items, rest) ← itemsFrom fuel rest
        some (.array (item :: items), rest)
    | some '\x7b' :: rest =>
      match skipSpaces rest with
      | some '\x7d' :: rest => some (.object [], rest)
      | rest => do
        let (member, rest) ← memberFrom fuel rest
        let (members, rest) ← membersFrom fuel rest
        some (.object (member :: members), rest)
    | rest => (number? rest).map fun (n, rest) => (.number n, rest)

def itemsFrom : Nat → Symbols → Option (List Json × Symbols)
  | 0, _ => none
  | fuel + 1, cs =>
    match skipSpaces cs with
    | some ']' :: rest => some ([], rest)
    | some ',' :: rest => do
      let (item, rest) ← valueFrom fuel rest
      let (items, rest) ← itemsFrom fuel rest
      some (item :: items, rest)
    | _ => none

def memberFrom : Nat → Symbols → Option ((Option String × Json) × Symbols)
  | 0, _ => none
  | fuel + 1, cs =>
    match skipSpaces cs with
    | some '"' :: rest => do
      let (name, rest) ← literal? rest
      match skipSpaces rest with
      | some ':' :: rest => do
        let (value, rest) ← valueFrom fuel rest
        some ((name, value), rest)
      | _ => none
    | _ => none

def membersFrom : Nat → Symbols → Option (List (Option String × Json) × Symbols)
  | 0, _ => none
  | fuel + 1, cs =>
    match skipSpaces cs with
    | some '\x7d' :: rest => some ([], rest)
    | some ',' :: rest => do
      let (member, rest) ← memberFrom fuel rest
      let (members, rest) ← membersFrom fuel rest
      some (member :: members, rest)
    | _ => none

end

def ofSymbols? (cs : Symbols) : Option Json :=
  match valueFrom (2 * cs.length + 2) cs with
  | some (value, rest) => if (skipSpaces rest).isEmpty then some value else none
  | none => none

def ofBytes? (bytes : ByteArray) : Option Json := ofSymbols? (Text.symbols bytes)

def ofText? (s : String) : Option Json := ofSymbols? (s.toList.map some)

end CodeIndex.Json
