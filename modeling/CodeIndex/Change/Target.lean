import CodeIndex.Json.Decode

namespace CodeIndex

inductive DiffTarget where
  | workingTree
  | head
  | staged
  | branchBase (branch : String)
deriving DecidableEq, Repr, Inhabited

namespace DiffTarget

def toJson : DiffTarget → Json
  | .workingTree => .text "working_tree"
  | .head => .text "head"
  | .staged => .text "staged"
  | .branchBase branch => .record [("branch_base", .text branch)]

def ofName? (s : String) : Option DiffTarget :=
  if s == "working_tree" then some .workingTree
  else if s == "head" then some .head
  else if s == "staged" then some .staged
  else none

def ofJson? : Json → Option DiffTarget
  | .object [(some "branch_base", .string (some branch))] => some (.branchBase branch)
  | value => Json.name? ofName? value

end DiffTarget

inductive ChangeSource where
  | git | hashFallback | firstRun | full | supplied
deriving DecidableEq, Repr, Inhabited

namespace ChangeSource

def all : List ChangeSource := [git, hashFallback, firstRun, full, supplied]

def name : ChangeSource → String
  | .git => "git"
  | .hashFallback => "hash_fallback"
  | .firstRun => "first_run"
  | .full => "full"
  | .supplied => "supplied"

def word : ChangeSource → String
  | .git => "Git"
  | .hashFallback => "HashFallback"
  | .firstRun => "FirstRun"
  | .full => "Full"
  | .supplied => "Supplied"

def ofName? (s : String) : Option ChangeSource := all.find? fun source => source.name == s

end ChangeSource

end CodeIndex
