import CodeIndex.Toml.Scalar

namespace CodeIndex.Toml

/-- Lists and tables in braces may be nested to a depth below this, and so many names may make up a
key. -/
def depthLimit : Nat := 80

def isBare (c : Char) : Bool := c.isAlphanum || c == '_' || c == '-'

def name? (cs : List Char) : Option (String × List Char) := do
  let (s, rest) ← match skipBlanks cs with
    | '"' :: rest => Quoting.basic.lineText? rest
    | '\'' :: rest => Quoting.literal.lineText? rest
    | cs =>
      let bare := cs.takeWhile isBare
      if bare.isEmpty then none else some (String.ofList bare, cs.drop bare.length)
  some (s, skipBlanks rest)

def names? : Nat → List Char → Option (List String × List Char)
  | 0, _ => none
  | fuel + 1, cs => do
    let (name, rest) ← name? cs
    match rest with
    | '.' :: rest => do
      let (names, rest) ← names? fuel rest
      some (name :: names, rest)
    | rest => some ([name], rest)

def key? (cs : List Char) : Option (Key × List Char) := do
  let (names, rest) ← names? (depthLimit - 1) cs
  match names.reverse with
  | name :: path => some (⟨path.reverse, name⟩, rest)
  | [] => none

def skipComment : List Char → List Char
  | [] => []
  | c :: rest => if isPrintable c then skipComment rest else c :: rest

def skipTrivia : Nat → List Char → List Char
  | 0, cs => cs
  | fuel + 1, cs =>
    match skipBlankLines cs with
    | '#' :: rest =>
      match lineBreak? (skipComment rest) with
      | some rest => skipTrivia fuel rest
      | none => '#' :: rest
    | rest => rest

def skipAll (cs : List Char) : List Char := skipTrivia (cs.length + 1) cs

mutual

/-- A value at the front of a text; `depth` is how much deeper lists and tables may nest. Every
step down uses up fuel. -/
def valueFrom : Nat → Nat → List Char → Option (Toml × List Char)
  | 0, _, _ => none
  | fuel + 1, depth, cs =>
    match cs with
    | '[' :: rest =>
      match depth, skipAll rest with
      | 0, _ => none
      | _, ']' :: rest => some (.list [], rest)
      | depth + 1, rest => do
        let (items, rest) ← itemsFrom fuel depth rest
        some (.list items, rest)
    | '\x7b' :: rest =>
      match depth, skipBlanks rest with
      | 0, _ => none
      | _, '\x7d' :: rest => some (.table .braces [], rest)
      | depth + 1, rest => do
        let (es, rest) ← entriesFrom fuel depth [] rest
        some (.table .braces es, rest)
    | cs => scalar? cs

def itemsFrom : Nat → Nat → List Char → Option (List Toml × List Char)
  | 0, _, _ => none
  | fuel + 1, depth, cs => do
    let (item, rest) ← valueFrom fuel depth (skipAll cs)
    match skipAll rest with
    | ']' :: rest => some ([item], rest)
    | ',' :: rest =>
      match skipAll rest with
      | ']' :: rest => some ([item], rest)
      | rest => do
        let (items, rest) ← itemsFrom fuel depth rest
        some (item :: items, rest)
    | _ => none

/-- The entries of a table in braces, added to those before them, and its closing brace. -/
def entriesFrom : Nat → Nat → Entries → List Char → Option (Entries × List Char)
  | 0, _, _, _ => none
  | fuel + 1, depth, es, cs => do
    let (key, rest) ← key? cs
    let (value, rest) ← valueFrom fuel depth (skipBlanks (← DateTime.mark? '=' rest))
    let es ← define key value es
    match skipBlanks rest with
    | '\x7d' :: rest => some (es, rest)
    | ',' :: rest => entriesFrom fuel depth es rest
    | _ => none

end

def value? (cs : List Char) : Option (Toml × List Char) :=
  valueFrom (2 * cs.length + 2) (depthLimit - 1) cs

/-- What follows the end of a line: blanks, a comment or none, and a line break unless the document
ends. -/
def lineEnd? (cs : List Char) : Option (List Char) :=
  let rest := match skipBlanks cs with
    | '#' :: rest => skipComment rest
    | rest => rest
  if rest.isEmpty then some [] else lineBreak? rest

def line? (cs : List Char) : Option (Line × List Char) :=
  match cs with
  | '[' :: '[' :: rest => do
    let (key, rest) ← key? rest
    let rest ← lineEnd? (← DateTime.mark? ']' (← DateTime.mark? ']' rest))
    some (.element key, rest)
  | '[' :: rest => do
    let (key, rest) ← key? rest
    let rest ← lineEnd? (← DateTime.mark? ']' rest)
    some (.header key, rest)
  | cs => do
    let (key, rest) ← key? cs
    let (value, rest) ← value? (skipBlanks (← DateTime.mark? '=' rest))
    some (.entry key value, ← lineEnd? rest)

def linesFrom : Nat → List Char → Option (List Line)
  | 0, _ => none
  | fuel + 1, cs =>
    match skipAll cs with
    | [] => some []
    | '#' :: rest => if (skipComment rest).isEmpty then some [] else none
    | cs => do
      let (line, rest) ← line? cs
      let lines ← linesFrom fuel rest
      some (line :: lines)

def ofText? (s : String) : Option Entries := do
  let cs := match s.toList with
    | '\uFEFF' :: rest => rest
    | cs => cs
  ofLines? (← linesFrom (cs.length + 1) cs)

end CodeIndex.Toml
