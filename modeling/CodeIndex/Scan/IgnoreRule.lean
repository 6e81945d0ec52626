import CodeIndex.Glob.Parse
import CodeIndex.Text.Blank
import CodeIndex.Text.Line
import CodeIndex.Text.Utf8

/-!
Ignore rules: lines with a glob pattern, of which the last that matches a path decides. A rule
with `!` in front keeps what it matches, one with `/` at the end matches directories only, and one
without any other slash matches at any depth.
-/

namespace CodeIndex

structure IgnoreRule where
  glob : Glob
  keeps : Bool
  onlyDirectories : Bool
deriving Repr, Inhabited

inductive IgnoreVerdict where
  | silent | ignored | kept
deriving DecidableEq, Repr, Inhabited

def IgnoreVerdict.orElse (a b : IgnoreVerdict) : IgnoreVerdict := if a = .silent then b else a

namespace IgnoreRule

/-- Blanks at the end of a line count for nothing, unless the last is a space after `\`. -/
def trimmed (line : String) : String :=
  match line.toList.reverse with
  | ' ' :: '\\' :: _ => line
  | _ => Text.trimEnd line

/-- What stands in front of a rule's pattern: whether it keeps, whether its pattern starts at the
top, and the pattern. -/
def front : List Char → Bool × Bool × List Char
  | '\\' :: '!' :: rest => (false, false, '!' :: rest)
  | '\\' :: '#' :: rest => (false, false, '#' :: rest)
  | '!' :: '/' :: rest => (true, true, rest)
  | '!' :: rest => (true, false, rest)
  | '/' :: rest => (false, true, rest)
  | rest => (false, false, rest)

def back (cs : List Char) : Bool × List Char :=
  match cs.reverse with
  | '/' :: '\\' :: rest => (true, rest.reverse)
  | '/' :: rest => (true, rest.reverse)
  | _ => (false, cs)

def startsWith (start : String) (text : List Char) : Bool := start.toList.isPrefixOf text

def atAnyDepth (atTop : Bool) (cs : List Char) : List Char :=
  if atTop || cs.contains '/' || cs == "**".toList || startsWith "**/" cs then cs
  else "**/".toList ++ cs

def withinDirectory (cs : List Char) : List Char :=
  if "/**".toList.isSuffixOf cs then cs ++ "/*".toList else cs

def ofLine (lenient : Bool) (line : String) : Except GlobError (Option IgnoreRule) :=
  if line.toList.head? == some '#' then .ok none
  else if (trimmed line).isEmpty then .ok none
  else
    let (keeps, atTop, cs) := front (trimmed line).toList
    let (onlyDirectories, cs) := back cs
    (Glob.parse lenient (String.ofList (withinDirectory (atAnyDepth atTop cs)))).map fun glob =>
      some ⟨glob, keeps, onlyDirectories⟩

def applies (r : IgnoreRule) (path : String) (isDirectory : Bool) : Bool :=
  (isDirectory || !r.onlyDirectories) && r.glob.matchesPath path

def verdict (r : IgnoreRule) : IgnoreVerdict := if r.keeps then .kept else .ignored

def decideBy (rules : List IgnoreRule) (path : String) (isDirectory : Bool) : IgnoreVerdict :=
  match rules.reverse.find? (·.applies path isDirectory) with
  | some r => r.verdict
  | none => .silent

def fileLines (bytes : ByteArray) : List String :=
  let lines := (Text.linesOfPieces 13 (Text.splitOn 10 bytes.toList)).map fun line =>
    (Text.scanSymbols line).mapM id
  (lines.takeWhile (·.isSome)).filterMap fun line => line.map String.ofList

def dropMarks (line : String) : String :=
  String.ofList (line.toList.dropWhile (· == Char.ofNat 0xFEFF))

/-- The rules of an ignore file; a line that is no pattern counts for nothing. -/
def ofFile (bytes : ByteArray) : List IgnoreRule :=
  let lines := match fileLines bytes with
    | first :: rest => dropMarks first :: rest
    | [] => []
  lines.filterMap fun line =>
    match ofLine true line with
    | .ok rule => rule
    | .error _ => none

def seenFrom (root path : String) : String :=
  let dropDot (s : List Char) := if startsWith "./" s then s.drop 2 else s
  let cs := dropDot path.toList
  let top := dropDot root.toList
  if top == ['.'] || !cs.contains '/' || !top.isPrefixOf cs then String.ofList cs
  else
    let rest := cs.drop top.length
    String.ofList (if rest.head? == some '/' then rest.drop 1 else rest)

end IgnoreRule

end CodeIndex
