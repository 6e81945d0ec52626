namespace CodeIndex.Uri

def isSchemeChar (c : Char) : Bool := c.isAlphanum || c == '+' || c == '-' || c == '.'

def isUriChar (c : Char) : Bool := c.isAlphanum || "!#$&'()*+,-./:;=?@[]_~".contains c

def isPathChar (c : Char) : Bool :=
  let n := c.toNat
  n == 0x21 || (0x22 ≤ n && n ≤ 0x3B && c != '#') || n == 0x3D || (0x40 ≤ n && n ≤ 0x5F)
    || (0x61 ≤ n && n ≤ 0x7E) || 0x7F ≤ n

def isQueryChar (c : Char) : Bool :=
  let n := c.toNat
  n == 0x21 || (0x24 ≤ n && n ≤ 0x3B) || n == 0x3D || 0x3F ≤ n

def limits : Nat × Nat := (64, 65534)

structure Authority where
  colons : Nat := 0
  opened : Bool := false
  closed : Bool := false
  hasPercent : Bool := false
  endsWithAt : Bool := false

def mostColons : Nat := 8

/-- What has been seen after one more character; nothing if it may not stand there. Colons and
percent signs before an `@` or inside brackets count for nothing. -/
def Authority.next (a : Authority) (c : Char) : Option Authority :=
  let a := { a with endsWithAt := false }
  if c = ':' then if a.colons < mostColons then some { a with colons := a.colons + 1 } else none
  else if c = '[' then if a.hasPercent || a.opened then none else some { a with opened := true }
  else if c = ']' then
    if !a.opened || a.closed then none
    else some { a with closed := true, colons := 0, hasPercent := false }
  else if c = '@' then some { a with colons := 0, hasPercent := false, endsWithAt := true }
  else if c = '%' then some { a with hasPercent := true }
  else if isUriChar c then some a
  else none

def Authority.isComplete (a : Authority) : Bool :=
  a.opened == a.closed && a.colons ≤ 1 && !a.endsWithAt && !a.hasPercent

def authority? (cs : List Char) : Option (Nat × List Char) := do
  let front := cs.takeWhile fun c => c != '/' && c != '?' && c != '#'
  let seen ← front.foldlM Authority.next {}
  if seen.isComplete then some (front.length, cs.drop front.length) else none

def isPathAndQuery (cs : List Char) : Bool :=
  let cs := cs.takeWhile (· != '#')
  let path := cs.takeWhile (· != '?')
  path.all isPathChar && (cs.drop (path.length + 1)).all isQueryChar

def afterScheme? (cs : List Char) : Option (Nat × List Char) :=
  let scheme := cs.takeWhile isSchemeChar
  match cs.drop scheme.length with
  | ':' :: '/' :: '/' :: rest => some (scheme.length, rest)
  | _ => none

def isValid (s : String) : Bool :=
  let cs := s.toList
  if limits.2 < s.utf8ByteSize then false
  else match cs with
  | [] => false
  | ['*'] => true
  | '/' :: _ => isPathAndQuery cs
  | _ =>
    match afterScheme? cs with
    | some (length, rest) =>
      length ≤ limits.1 && match authority? rest with
      | some (width, rest) => width != 0 && isPathAndQuery rest
      | none => false
    | none =>
      match authority? cs with
      | some (_, rest) => rest.isEmpty
      | none => false

end CodeIndex.Uri
