import CodeIndex.Glob.Pattern

namespace CodeIndex

inductive GlobError where
  | unclosedClass
  | invalidRange (low high : Char)
  | unopenedGroup
  | unclosedGroup
  | danglingEscape
deriving DecidableEq, Repr

def GlobError.message : GlobError → String
  | .unclosedClass => "unclosed character class; missing ']'"
  | .invalidRange low high =>
    "invalid range; '" ++ low.toString ++ "' > '" ++ high.toString ++ "'"
  | .unopenedGroup =>
    "unopened alternate group; missing '\x7b' (maybe escape '\x7d' with '[\x7d]'?)"
  | .unclosedGroup =>
    "unclosed alternate group; missing '\x7d' (maybe escape '\x7b' with '[\x7b]'?)"
  | .danglingEscape => "dangling '\\'"

namespace Glob

def charBytes (c : Char) : List UInt8 := (String.singleton c).toUTF8.toList

def singles (bytes : List UInt8) : List (UInt8 × UInt8) := bytes.map fun b => (b, b)

/-- The byte ranges that a range of characters stands for: its two ends are joined byte by byte. -/
def byteRanges (range : Char × Char) : List (UInt8 × UInt8) :=
  if range.1 = range.2 then singles (charBytes range.1)
  else
    match (charBytes range.1).reverse, charBytes range.2 with
    | last :: before, first :: after => singles before.reverse ++ [(last, first)] ++ singles after
    | _, _ => []

/-- A class as it is read: its ranges, the latest first, and whether a hyphen awaits its end. -/
structure ClassText where
  ranges : List (Char × Char) := []
  awaiting : Bool := false

def ClassText.add (t : ClassText) (c : Char) : Except GlobError ClassText :=
  match t.awaiting, t.ranges with
  | true, (low, _) :: ranges =>
    if c < low then .error (.invalidRange low c) else .ok ⟨(low, c) :: ranges, false⟩
  | _, ranges => .ok ⟨(c, c) :: ranges, false⟩

/-- The ranges of a class that is closed here; a hyphen at the end stands for itself. -/
def ClassText.close (t : ClassText) : List (Char × Char) :=
  (if t.awaiting then ('-', '-') :: t.ranges else t.ranges).reverse

/-- Reads a class up to its closing bracket: its ranges, and how many characters it has. -/
def classBody (isFirst : Bool) (t : ClassText) (count : Nat) :
    List Char → Except GlobError (Option (List (Char × Char) × Nat))
  | [] => .ok none
  | c :: rest =>
    if c = ']' ∧ ¬isFirst then .ok (some (t.close, count + 1))
    else if c = '-' ∧ ¬isFirst ∧ ¬t.awaiting then
      classBody false { t with awaiting := true } (count + 1) rest
    else do classBody false (← t.add c) (count + 1) rest

/-- Reads a class after its opening bracket: the part it stands for, and how many characters it
has. -/
def classPart (cs : List Char) : Except GlobError (Option (GlobPart × Nat)) :=
  let negated := cs.head? == some '!' || cs.head? == some '^'
  let skipped := if negated then 1 else 0
  (classBody true {} skipped (cs.drop skipped)).map fun found =>
    found.map fun (ranges, count) => (.oneByteOf negated (ranges.flatMap byteRanges), count)

/-- An open group: its finished branches, and the parts of the one being read, the latest first. -/
structure Branches where
  finished : List (List GlobPart) := []
  current : List GlobPart := []

namespace Branches

def push (b : Branches) (part : GlobPart) : Branches := { b with current := part :: b.current }

def pushChar (b : Branches) (c : Char) : Branches :=
  (charBytes c).foldl (fun b x => b.push (.byte x)) b

def next (b : Branches) : Branches := ⟨b.finished ++ [b.current.reverse], []⟩

def close (b : Branches) : GlobPart := .oneOf b.next.finished

def pushRun (b : Branches) : Branches := (b.push .run).push .run

def pushDirs (b : Branches) (atEnd : Bool) : Branches :=
  match b.current with
  | .leading :: _ | .inside :: _ => b
  | _ :: parts => { b with current := (if atEnd then .inside else .between) :: parts }
  | [] => b

end Branches

/-- Reads a pattern: `skip` characters are read already, `before` is the character before, and
`outer` are the groups around the open one. With `lenient`, a bracket that opens no class stands
for itself. -/
def parseFrom (lenient : Bool) : (skip : Nat) → (before : Option Char) → (outer : List Branches) →
    (group : Branches) → List Char → Except GlobError (List GlobPart)
  | _, _, [], group, [] => .ok group.current.reverse
  | _, _, _ :: _, _, [] => .error .unclosedGroup
  | skip + 1, _, outer, group, c :: rest => parseFrom lenient skip (some c) outer group rest
  | 0, before, outer, group, '*' :: '*' :: rest =>
    let inGroup := !outer.isEmpty
    if group.current.isEmpty then
      match rest with
      | [] => parseFrom lenient 0 (some '*') outer (group.push .leading) rest
      | '/' :: _ => parseFrom lenient 1 (some '*') outer (group.push .leading) rest
      | _ => parseFrom lenient 0 (some '*') outer group.pushRun rest
    else if before == some '/' || inGroup && (before == some ',' || before == some '\x7b') then
      match rest with
      | [] => parseFrom lenient 0 (some '*') outer (group.pushDirs true) rest
      | '/' :: _ => parseFrom lenient 1 (some '*') outer (group.pushDirs false) rest
      | c :: _ =>
        if inGroup && (c == ',' || c == '\x7d') then
          parseFrom lenient 0 (some '*') outer (group.pushDirs true) rest
        else parseFrom lenient 0 (some '*') outer group.pushRun rest
    else parseFrom lenient 0 (some '*') outer group.pushRun rest
  | 0, _, outer, group, '[' :: rest =>
    match classPart rest with
    | .error e => .error e
    | .ok (some (part, count)) => parseFrom lenient count (some '[') outer (group.push part) rest
    | .ok none =>
      if lenient then parseFrom lenient 0 (some '[') outer (group.pushChar '[') rest
      else .error .unclosedClass
  | 0, _, outer, group, '\x7b' :: rest =>
    parseFrom lenient 0 (some '\x7b') (group :: outer) {} rest
  | 0, _, [], _, '\x7d' :: _ => .error .unopenedGroup
  | 0, _, around :: outer, group, '\x7d' :: rest =>
    parseFrom lenient 0 (some '\x7d') outer (around.push group.close) rest
  | 0, _, around :: outer, group, ',' :: rest =>
    parseFrom lenient 0 (some ',') (around :: outer) group.next rest
  | 0, _, _, _, ['\\'] => .error .danglingEscape
  | 0, _, outer, group, '\\' :: c :: rest =>
    parseFrom lenient 0 (some c) outer (group.pushChar c) rest
  | 0, _, outer, group, '?' :: rest => parseFrom lenient 0 (some '?') outer (group.push .other) rest
  | 0, _, outer, group, '*' :: rest => parseFrom lenient 0 (some '*') outer (group.push .run) rest
  | 0, _, outer, group, c :: rest => parseFrom lenient 0 (some c) outer (group.pushChar c) rest

def parse (lenient : Bool) (text : String) : Except GlobError Glob :=
  (parseFrom lenient 0 none [] {} text.toList).map Glob.mk

end Glob

end CodeIndex
