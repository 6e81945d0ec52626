import CodeIndex.Change.ChangeSet
import CodeIndex.Disk.Basic
import CodeIndex.Scan.Filter

namespace CodeIndex

/-- The rules of the ignore files of one directory, by the kind of file. -/
structure DirectoryRules where
  directory : String
  own : List IgnoreRule
  tracked : List IgnoreRule
  untracked : List IgnoreRule
deriving Inhabited

namespace DirectoryRules

def rulesAt (d : Disk) (path : String) : List IgnoreRule :=
  match d.readFile path with
  | .ok (content, _) => IgnoreRule.ofFile content
  | .error _ => []

def load (d : Disk) (respectGitignore : Bool) (directory : String) : DirectoryRules where
  directory := directory
  own := rulesAt d (Path.join directory ".ignore")
  tracked := if respectGitignore then rulesAt d (Path.join directory ".gitignore") else []
  untracked := if respectGitignore then rulesAt d (Path.join directory ".git/info/exclude") else []

def firstVerdict (select : DirectoryRules → List IgnoreRule) (path : String)
    (isDirectory : Bool) : List DirectoryRules → IgnoreVerdict
  | [] => .silent
  | rules :: above =>
    (IgnoreRule.decideBy (select rules) (IgnoreRule.seenFrom rules.directory path)
      isDirectory).orElse (firstVerdict select path isDirectory above)

def verdict (around : List DirectoryRules) (path : String) (isDirectory : Bool) : IgnoreVerdict :=
  ((firstVerdict own path isDirectory around).orElse
    (firstVerdict tracked path isDirectory around)).orElse
      (firstVerdict untracked path isDirectory around)

end DirectoryRules

namespace FileFilter

def skipsEntry (f : FileFilter) (around : List DirectoryRules) (path name : String)
    (isDirectory : Bool) : Bool :=
  f.isExcluded path isDirectory ||
    match DirectoryRules.verdict around path isDirectory with
    | .ignored => true
    | .kept => false
    | .silent => name.toList.head? == some '.'

/-- The files below a directory with their sizes; `relative` leads to it from the root, and fuel
bounds the depth. -/
def filesBelow (f : FileFilter) (d : Disk) : Nat → List DirectoryRules → Location → List String →
    List (String × Nat)
  | 0, _, _, _ => []
  | depth + 1, above, place, relative =>
    let directory := Path.join f.root ("/".intercalate relative)
    let around := DirectoryRules.load d f.config.respectGitignore directory :: above
    (d.children place).flatMap fun (name, node) =>
      let names := relative ++ [name]
      let path := Path.join f.root ("/".intercalate names)
      match node with
      | .link _ => []
      | .directory =>
        if f.skipsEntry around path name true then []
        else filesBelow f d depth around (place ++ [name]) names
      | .file content _ =>
        if f.skipsEntry around path name false then []
        else [("/".intercalate names, content.size)]

def directoriesAbove : Location → List String
  | place => ((List.range place.length).map fun n => "/" ++ "/".intercalate (place.take n)).reverse

/-- The files of the tree that may be indexed, in order. -/
def scan (f : FileFilter) (d : Disk) : List String :=
  match d.locate f.root with
  | .error _ => []
  | .ok place =>
    if d.lookup place = some .directory then
      let above := (directoriesAbove place).map (DirectoryRules.load d f.config.respectGitignore)
      let found := f.filesBelow d (d.nodes.size + 1) above place []
      sortedPaths (found.filterMap fun (path, size) =>
        if f.isEligible path && f.withinSize size then some path else none)
    else []

end FileFilter

end CodeIndex
