import CodeIndex.Entity.Mint
import CodeIndex.Run.State

namespace CodeIndex

/-- A file to be indexed, with what was recorded of it when the run turned to its files. -/
structure WorkItem where
  path : String
  lineage : Option String
  previousIds : Std.ExtTreeSet String
deriving DecidableEq, Inhabited

def WorkItem.ofPath (m : Manifest) (path : String) : WorkItem :=
  match m.get? path with
  | none => ⟨path, none, ∅⟩
  | some r => ⟨path, some r.lineage, .ofList r.entityIds⟩

structure PreparedFile where
  path : String
  hash : ContentHash
  modificationTime : Nat
  lineage : String
  hasRecord : Bool
  previousIds : Std.ExtTreeSet String
  currentIds : Std.ExtTreeSet String
  fresh : List Entity
deriving DecidableEq, Inhabited

inductive Prepared where
  | ready (file : PreparedFile)
  | unreadable (path : String)
  | failed (path : String) (cause : IndexError)
deriving DecidableEq, Inhabited

/-- The entities an extractor finds in a file; a path that it does not understand has none. -/
def Extractor.find (x : Extractor) (path : String) (content : ByteArray) :
    Except ExtractError (List ExtractedEntity) :=
  if x.supports path then x.extract path (Text.lossy content) else .ok []

def prepareContent (x : Extractor) (variants : List ChunkVariant) (force : Bool)
    (item : WorkItem) (content : ByteArray) (modified : Nat) : Prepared :=
  match x.find item.path content with
  | .error e => .failed item.path (.extract item.path e.message)
  | .ok found =>
    let lineage := item.lineage.getD (lineageFor item.path)
    let entities := mintEntities item.path lineage found variants
    .ready {
      path := item.path
      hash := Digest.contentHash content
      modificationTime := modified % Nat.pow 2 64
      lineage := lineage
      hasRecord := item.lineage.isSome
      previousIds := item.previousIds
      currentIds := .ofList (entities.map (·.id))
      fresh := (partitionNew item.previousIds entities force).1 }

def prepare {σ : Type} (setting : RunSetting σ) (force : Bool) (d : Disk) (item : WorkItem) :
    Prepared :=
  match d.readFile (Path.join setting.root item.path) with
  | .error _ => .unreadable item.path
  | .ok (content, modified) =>
    prepareContent setting.extractor setting.config.variants force item content modified

end CodeIndex
