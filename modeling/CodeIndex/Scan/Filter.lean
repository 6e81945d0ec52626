import CodeIndex.Path
import CodeIndex.Run.Error
import CodeIndex.Scan.IgnoreRule

namespace CodeIndex

structure ScanConfig where
  extensions : List String := ["rs", "py", "js", "jsx", "ts", "tsx", "go"]
  exclude : List String := []
  respectGitignore : Bool := true
  maxFileBytes : Nat := 1048576
  stateDir : String := ".sift"
deriving DecidableEq, Repr, Inhabited

structure FileFilter where
  root : String
  config : ScanConfig
  excludes : List IgnoreRule
deriving Inhabited

namespace FileFilter

/-- The rule of a pattern to leave out, which is written as one with `!` in front. -/
def excludeRule (pattern : String) : Except IndexError (Option IgnoreRule) :=
  let line := "!" ++ pattern
  match IgnoreRule.ofLine false line with
  | .ok rule => .ok rule
  | .error e =>
    .error (.config ("bad exclude glob " ++ Text.quoted pattern ++ ": error parsing glob '"
      ++ IgnoreRule.trimmed line ++ "': " ++ e.message))

def ofConfig (root : String) (config : ScanConfig) : Except IndexError FileFilter := do
  let rules ← config.exclude.mapM excludeRule
  return ⟨root, config, rules.filterMap id⟩

def isExcluded (f : FileFilter) (path : String) (isDirectory : Bool) : Bool :=
  let seen := IgnoreRule.seenFrom f.root path
  f.excludes.any (·.applies seen isDirectory)

def foreignDirectories : List String :=
  ["target", "node_modules", ".git", "vendor", "__pycache__"]

def hasExtension (f : FileFilter) (path : String) : Bool :=
  match Path.extension? path with
  | some extension => f.config.extensions.contains extension
  | none => false

/-- Some name in the path is that of a foreign directory or of the state directory. -/
def isForeign (f : FileFilter) (path : String) : Bool :=
  (Path.normalNames (Path.components path)).any fun name =>
    foreignDirectories.contains name || name == f.config.stateDir

def isEligible (f : FileFilter) (path : String) : Bool :=
  f.hasExtension path && !f.isForeign path && !f.isExcluded path false

def withinSize (f : FileFilter) (size : Nat) : Bool := size ≤ f.config.maxFileBytes

end FileFilter

end CodeIndex
