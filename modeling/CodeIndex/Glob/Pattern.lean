namespace CodeIndex

inductive GlobPart where
  | byte (b : UInt8)
  | other
  | run
  | oneByteOf (negated : Bool) (ranges : List (UInt8 × UInt8))
  | leading
  | between
  | inside
  | oneOf (branches : List (List GlobPart))
deriving Repr, Inhabited

namespace GlobPart

def slash : UInt8 := 47

def ends : List UInt8 → List (List UInt8)
  | [] => [[]]
  | b :: rest => (b :: rest) :: ends rest

def runEnds : List UInt8 → List (List UInt8)
  | [] => [[]]
  | b :: rest => (b :: rest) :: if b = slash then [] else runEnds rest

def afterSlashes : List UInt8 → List (List UInt8)
  | [] => []
  | b :: rest => if b = slash then rest :: afterSlashes rest else afterSlashes rest

def inRanges (b : UInt8) (ranges : List (UInt8 × UInt8)) : Bool :=
  ranges.any fun (low, high) => low ≤ b && b ≤ high

mutual

def isVoid : GlobPart → Bool
  | oneOf branches => allBranchesVoid branches
  | _ => false

def allVoid : List GlobPart → Bool
  | [] => true
  | part :: parts => isVoid part && allVoid parts

def allBranchesVoid : List (List GlobPart) → Bool
  | [] => true
  | branch :: branches => allVoid branch && allBranchesVoid branches

end

mutual

def rests : GlobPart → List UInt8 → List (List UInt8)
  | byte b, c :: rest => if b = c then [rest] else []
  | byte _, [] => []
  | other, c :: rest => if c = slash then [] else [rest]
  | other, [] => []
  | run, bytes => runEnds bytes
  | oneByteOf negated ranges, c :: rest => if inRanges c ranges != negated then [rest] else []
  | oneByteOf _ _, [] => []
  | leading, bytes => bytes :: afterSlashes bytes
  | between, c :: rest => if c = slash then rest :: afterSlashes rest else []
  | between, [] => []
  | inside, c :: rest => if c = slash then ends rest else []
  | inside, [] => []
  | oneOf branches, bytes =>
    if allBranchesVoid branches then [bytes] else restsOfBranches branches bytes

def restsOfAll : List GlobPart → List (List UInt8) → List (List UInt8)
  | [], found => found
  | part :: parts, found => restsOfAll parts (found.flatMap (rests part)).eraseDups

def restsOfBranches : List (List GlobPart) → List UInt8 → List (List UInt8)
  | [], _ => []
  | branch :: branches, bytes =>
    (if allVoid branch then [] else restsOfAll branch [bytes]) ++ restsOfBranches branches bytes

end

/-- A single leading part stands for a whole path; other patterns match as their parts do. -/
def matchesAll : List GlobPart → List UInt8 → Bool
  | [leading], _ => true
  | parts, path => (restsOfAll parts [path]).any (·.isEmpty)

end GlobPart

structure Glob where
  parts : List GlobPart
deriving Repr, Inhabited

def Glob.matchesPath (g : Glob) (path : String) : Bool :=
  GlobPart.matchesAll g.parts path.toUTF8.toList

end CodeIndex
