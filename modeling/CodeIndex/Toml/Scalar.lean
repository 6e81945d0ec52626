import CodeIndex.Text.Hex
import CodeIndex.Text.Line
import CodeIndex.Toml.Value

namespace CodeIndex.Toml

structure Quoting where
  mark : Char
  escapes : Bool

def Quoting.basic : Quoting := ⟨'"', true⟩

def Quoting.literal : Quoting := ⟨'\'', false⟩

def isPrintable (c : Char) : Bool :=
  c == '\t' || (0x20 ≤ c.toNat && c.toNat ≤ 0x7E) || 0x80 ≤ c.toNat

def Quoting.isPlain (q : Quoting) (c : Char) : Bool :=
  isPrintable c && c != q.mark && !(q.escapes && c == '\\')

def codePoint? (count : Nat) (cs : List Char) : Option (Char × List Char) := do
  let ds := cs.take count
  if ds.length != count then none
  let values ← ds.mapM Text.hexValue?
  let n := values.foldl (fun n d => n * 16 + d) 0
  if n.isValidChar then some (Char.ofNat n, cs.drop count) else none

def escape? : List Char → Option (Char × List Char)
  | 'b' :: rest => some ('\x08', rest)
  | 't' :: rest => some ('\t', rest)
  | 'n' :: rest => some ('\n', rest)
  | 'f' :: rest => some ('\x0c', rest)
  | 'r' :: rest => some ('\r', rest)
  | '"' :: rest => some ('"', rest)
  | '\\' :: rest => some ('\\', rest)
  | 'u' :: rest => codePoint? 4 rest
  | 'U' :: rest => codePoint? 8 rest
  | _ => none

def lineBreak? : List Char → Option (List Char)
  | '\n' :: rest => some rest
  | '\r' :: '\n' :: rest => some rest
  | _ => none

def skipBlanks (cs : List Char) : List Char := cs.dropWhile fun c => c == ' ' || c == '\t'

def skipBlankLines : List Char → List Char
  | ' ' :: rest => skipBlankLines rest
  | '\t' :: rest => skipBlankLines rest
  | '\n' :: rest => skipBlankLines rest
  | '\r' :: '\n' :: rest => skipBlankLines rest
  | rest => rest

def Quoting.line? (q : Quoting) : Nat → List Char → Option (List Char × List Char)
  | 0, _ => none
  | _, [] => none
  | fuel + 1, c :: rest =>
    if c = q.mark then some ([], rest)
    else if q.escapes && c == '\\' then do
      let (x, rest) ← escape? rest
      let (xs, rest) ← q.line? fuel rest
      some (x :: xs, rest)
    else if q.isPlain c then do
      let (xs, rest) ← q.line? fuel rest
      some (c :: xs, rest)
    else none

/-- The rest of a text of many lines. Three marks close it, and up to two before them belong to the
text; a backslash at the end of a line takes the blanks and line breaks after it away. -/
def Quoting.lines? (q : Quoting) : Nat → List Char → Option (List Char × List Char)
  | 0, _ => none
  | _, [] => none
  | fuel + 1, c :: rest =>
    if c = q.mark then
      let marks := ((c :: rest).takeWhile (· == q.mark)).length
      if marks < 3 then do
        let (xs, rest) ← q.lines? fuel rest
        some (c :: xs, rest)
      else
        let inside := min (marks - 3) 2
        some (List.replicate inside q.mark, (c :: rest).drop (inside + 3))
    else if q.escapes && c == '\\' then
      match lineBreak? (skipBlanks rest) with
      | some rest => q.lines? fuel (skipBlankLines rest)
      | none => do
        let (x, rest) ← escape? rest
        let (xs, rest) ← q.lines? fuel rest
        some (x :: xs, rest)
    else
      match lineBreak? (c :: rest) with
      | some rest => do
        let (xs, rest) ← q.lines? fuel rest
        some ('\n' :: xs, rest)
      | none =>
        if q.isPlain c then do
          let (xs, rest) ← q.lines? fuel rest
          some (c :: xs, rest)
        else none

def Quoting.lineText? (q : Quoting) (cs : List Char) : Option (String × List Char) :=
  (q.line? (cs.length + 1) cs).map fun (s, rest) => (String.ofList s, rest)

/-- A text after its first mark: three marks open a text of many lines, which begins after a line
break that follows them at once. -/
def Quoting.text? (q : Quoting) : List Char → Option (String × List Char)
  | a :: b :: rest =>
    if a = q.mark ∧ b = q.mark then
      let rest := (lineBreak? rest).getD rest
      (q.lines? (rest.length + 1) rest).map fun (s, rest) => (String.ofList s, rest)
    else q.lineText? (a :: b :: rest)
  | rest => q.lineText? rest

def groups? (isDigit : Char → Bool) (cs : List Char) : Option (List Char × List Char) :=
  let run := cs.takeWhile fun c => isDigit c || c == '_'
  if (Text.splitOn '_' run).all fun group => !group.isEmpty then
    some (run.filter (· != '_'), cs.drop run.length)
  else none

def wholePart? (cs : List Char) : Option (List Char × List Char) := do
  let (ds, rest) ← groups? (·.isDigit) cs
  match ds with
  | '0' :: _ :: _ => none
  | _ => some (ds, rest)

def based? (base : Nat) (isDigit : Char → Bool) (cs : List Char) :
    Option (Toml × List Char) := do
  let (ds, rest) ← groups? isDigit cs
  let values ← ds.mapM Text.hexValue?
  let n := values.foldl (fun n d => n * base + d) 0
  if n < Nat.pow 2 63 then some (.integer n, rest) else none

def exponentPart? : List Char → Option (Option Int × List Char)
  | c :: rest =>
    if c = 'e' || c = 'E' then do
      let (negative, rest) := Decimal.sign? rest
      let (ds, rest) ← groups? (·.isDigit) rest
      let n : Int := Decimal.digitsValue ds
      some (some (if negative == some true then -n else n), rest)
    else some (none, c :: rest)
  | [] => some (none, [])

def fractionPart? : List Char → Option (Option (List Char) × List Char)
  | '.' :: rest => (groups? (·.isDigit) rest).map fun (ds, rest) => (some ds, rest)
  | rest => some (none, rest)

/-- A decimal number, whole or not. One that is too large for a double is refused unless it is
negative. -/
def decimal? (negative : Bool) (cs : List Char) : Option (Toml × List Char) := do
  let (whole, rest) ← wholePart? cs
  let (places, rest) ← fractionPart? rest
  let (exponent, rest) ← exponentPart? rest
  match places, exponent with
  | none, none =>
    let n : Int := Decimal.digitsValue whole
    let n := if negative then -n else n
    if -Nat.pow 2 63 ≤ n && n < Nat.pow 2 63 then some (.integer n, rest) else none
  | _, _ =>
    let places := places.getD []
    let d : Decimal :=
      ⟨negative, Decimal.digitsValue (whole ++ places), exponent.getD 0 - places.length⟩
    if d.toDouble = .infinity then none else some (.float d.toDouble, rest)

/-- A number with its sign. Only numbers without a sign have other bases than ten. -/
def number? (cs : List Char) : Option (Toml × List Char) :=
  match Decimal.sign? cs with
  | (none, '0' :: 'x' :: rest) =>
    based? 16 (fun c => (Text.hexValue? c).isSome) rest
  | (none, '0' :: 'o' :: rest) => based? 8 (fun c => '0' ≤ c && c ≤ '7') rest
  | (none, '0' :: 'b' :: rest) => based? 2 (fun c => c == '0' || c == '1') rest
  | (sign, rest) =>
    let signed (d : Double) : Toml := .float (if sign == some true then d.opposite else d)
    match rest with
    | 'i' :: 'n' :: 'f' :: rest => some (signed .infinity, rest)
    | 'n' :: 'a' :: 'n' :: rest => some (signed .nan, rest)
    | rest => decimal? (sign == some true) rest

def scalar? (cs : List Char) : Option (Toml × List Char) :=
  match cs with
  | '"' :: rest => (Quoting.basic.text? rest).map fun (s, rest) => (.text s, rest)
  | '\'' :: rest => (Quoting.literal.text? rest).map fun (s, rest) => (.text s, rest)
  | 't' :: 'r' :: 'u' :: 'e' :: rest => some (.truth true, rest)
  | 'f' :: 'a' :: 'l' :: 's' :: 'e' :: rest => some (.truth false, rest)
  | _ =>
    match DateTime.first? cs with
    | some (m, rest) => some (.dateTime m, rest)
    | none => number? cs

end CodeIndex.Toml
