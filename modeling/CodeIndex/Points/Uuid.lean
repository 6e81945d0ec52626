import CodeIndex.Text.Hex

namespace CodeIndex.Uuid

def groups : List Nat := [8, 4, 4, 4, 12]

def grouped (ds : List Char) : List (List Char) :=
  (groups.foldl (fun (done, rest) n => (done ++ [rest.take n], rest.drop n)) ([], ds)).1

def hyphenated (ds : List Char) : List Char := ['-'].intercalate (grouped ds)

def digits? (cs : List Char) : Option (List Char) :=
  if cs.length = 32 then (cs.mapM Text.hexValue?).map (·.map Text.hexDigit) else none

def hyphenatedDigits? (cs : List Char) : Option (List Char) :=
  let ds := cs.filter (· != '-')
  if hyphenated ds = cs then digits? ds else none

/-- The 32 digits of a text: by themselves, with hyphens, and then in braces or after
`urn:uuid:`. -/
def digitsOf? (cs : List Char) : Option (List Char) :=
  match digits? cs with
  | some ds => some ds
  | none =>
    let start := "urn:uuid:".toList
    if start.isPrefixOf cs then hyphenatedDigits? (cs.drop start.length)
    else match cs, cs.getLast? with
      | '\x7b' :: inside, some '\x7d' => hyphenatedDigits? inside.dropLast
      | cs, _ => hyphenatedDigits? cs

def canonical? (s : String) : Option String :=
  (digitsOf? s.toList).map fun ds => String.ofList (hyphenated ds)

end CodeIndex.Uuid
