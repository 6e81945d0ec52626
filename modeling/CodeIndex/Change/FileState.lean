import CodeIndex.Disk.Basic
import CodeIndex.Digest.Fingerprint
import CodeIndex.Scan.Walk

namespace CodeIndex

inductive FileState where
  | missing
  | excluded
  | unreadable
  | present (hash : ContentHash)
deriving DecidableEq, Repr, Inhabited

def FileState.isPresent : FileState → Bool
  | .present _ => true
  | _ => false

def FileFilter.inspect (f : FileFilter) (d : Disk) (path : String) : FileState :=
  if f.isEligible path then
    match d.stat (Path.join f.root path) with
    | .error .notFound => .missing
    | .error _ => .unreadable
    | .ok (.file content _) =>
      if !f.withinSize content.size then .excluded
      else if Digest.isBinary content then .excluded
      else .present (Digest.contentHash content)
    | .ok _ => .missing
  else .excluded

end CodeIndex
