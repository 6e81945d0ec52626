import CodeIndex.Text.Line

namespace CodeIndex.Path

inductive Component where
  | root
  | current
  | parent
  | normal (name : String)
deriving DecidableEq, Repr, Inhabited

/-- The component a piece between slashes stands for, after the front of the path. -/
def componentOf (piece : List Char) : Option Component :=
  if piece = [] ∨ piece = ['.'] then none
  else if piece = ['.', '.'] then some .parent
  else some (.normal (String.ofList piece))

def components (path : String) : List Component :=
  let pieces := Text.splitOn '/' path.toList
  match path.toList, pieces with
  | '/' :: _, _ => .root :: pieces.filterMap componentOf
  | _, first :: rest =>
    if first = ['.'] then .current :: rest.filterMap componentOf
    else pieces.filterMap componentOf
  | _, [] => []

def isAbsolute (path : String) : Bool := path.toList.head? == some '/'

def normalNames (cs : List Component) : List String :=
  cs.filterMap fun
    | .normal name => some name
    | _ => none

def fileName? (path : String) : Option String :=
  match (components path).getLast? with
  | some (.normal name) => some name
  | _ => none

/-- The part of a file name after its last dot, unless that dot stands at the front. -/
def extensionOfName (name : String) : Option String :=
  match (Text.splitOn '.' name.toList).reverse with
  | last :: before :: more =>
    if more.isEmpty && before.isEmpty then none else some (String.ofList last)
  | _ => none

def extension? (path : String) : Option String := (fileName? path).bind extensionOfName

/-- `path` under `base`; an absolute path stands for itself. -/
def join (base path : String) : String :=
  if isAbsolute path then path
  else if base.isEmpty then path
  else if base.toList.getLast? == some '/' then base ++ path
  else base ++ "/" ++ path

def stripPrefix? : List Component → List Component → Option (List Component)
  | [], rest => some rest
  | r :: root, c :: rest => if r = c then stripPrefix? root rest else none
  | _ :: _, [] => none

/-- The path of a file below `root`: the names after the root, joined with slashes. Nothing for a
path outside `root` or `root` itself. -/
def relativeTo? (root path : String) : Option String :=
  match stripPrefix? (components root) (components path) with
  | none => none
  | some rest =>
    match normalNames rest with
    | [] => none
    | names => some ("/".intercalate names)

end CodeIndex.Path
