import CodeIndex.Path
import CodeIndex.Run.World
import CodeIndex.State.CheckpointFile
import CodeIndex.State.ManifestFile

namespace CodeIndex

abbrev RunM (τ : Type) := ExceptT IndexError (StateM τ)

namespace World

variable {σ : Type}

def change (act : Disk → Except DiskError Disk) : RunM (World σ) Unit := do
  let w ← get
  match act w.disk with
  | .ok d => set (({ w with disk := d } : World σ).mark .diskWrite)
  | .error e => throw (.io e.message)

/-- Takes a step of a save. If it fails, `cut` is what it leaves of what it writes. -/
def saveStep (env : Surroundings) (act : Disk → Except DiskError Disk)
    (cut : Nat → Disk → Except DiskError Disk) : RunM (World σ) Unit := do
  let w ← get
  match env.atWrite (w.writes + 1) with
  | .proceed => change act
  | .fail cause written =>
    let left := (cut written w.disk).toOption.getD w.disk
    set (({ w with disk := left } : World σ).mark .diskWrite)
    throw (.io cause.message)

def save (env : Surroundings) (directory name text : String) : RunM (World σ) Unit := do
  let target := Path.join directory name
  let beside := Path.join directory (name ++ ".tmp")
  let nothing (_ : Nat) (d : Disk) : Except DiskError Disk := .ok d
  saveStep env (·.makeDirectoryAll directory) nothing
  let now := (← get).milliseconds
  saveStep env (·.writeFile beside .empty now) nothing
  saveStep env (·.writeFile beside text.toUTF8 now) fun written d =>
    d.writeFile beside (text.toUTF8.extract 0 written) now
  saveStep env (·.rename beside target) nothing

def load? (w : World σ) (directory name : String) : Except IndexError (Option ByteArray) :=
  match w.disk.readFile (Path.join directory name) with
  | .ok (content, _) => .ok (some content)
  | .error .notFound => .ok none
  | .error e => .error (.io e.message)

def loadCheckpoint (w : World σ) (directory : String) : Except IndexError (Option Checkpoint) := do
  match ← w.load? directory Checkpoint.fileName with
  | none => return none
  | some bytes =>
    return some (← Checkpoint.ofFile (Path.join directory Checkpoint.fileName) bytes)

def loadManifest (w : World σ) (directory : String) : Except IndexError Manifest := do
  match ← w.load? directory Manifest.fileName with
  | none => return .empty
  | some bytes => Manifest.ofFile (Path.join directory Manifest.fileName) bytes

def resetCheckpoint (directory : String) : RunM (World σ) Unit := do
  let w ← get
  match w.disk.removeFile (Path.join directory Checkpoint.fileName) with
  | .ok d => set (({ w with disk := d } : World σ).mark .diskWrite)
  | .error .notFound => pure ()
  | .error e => throw (.io e.message)

def lockName : String := "index.lock"

def lock (directory : String) : RunM (World σ) Unit := do
  let path := Path.join directory lockName
  change (·.makeDirectoryAll directory)
  let w ← get
  match w.disk.stat path with
  | .error .notFound => change (·.writeFile path .empty w.milliseconds)
  | .error e => throw (.io e.message)
  | .ok (.file _ _) =>
    if (w.disk.locate path).toOption.any w.held.contains then throw (.lockConflict path)
  | .ok _ => throw (.io DiskError.isDirectory.message)

end World

end CodeIndex
