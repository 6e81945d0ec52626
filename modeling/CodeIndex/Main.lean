import CodeIndex.Cli.Program

/-!
The program at a terminal. The lines of standard input name the files that it may see; they are
read, the program runs on them, and the files that it has changed are written back. No service and
no version control answers it here.
-/

namespace CodeIndex.Cli

def variableNames : List String :=
  ["HOME", "XDG_CONFIG_HOME", "OPENROUTER_API_KEY"]
    ++ (default : Config).sections.flatMap fun (table, entries) =>
      entries.map fun (name, _) => ("SIFT__" ++ table ++ "__" ++ name).toUpper

partial def readLines (input : IO.FS.Stream) : IO (List String) := do
  let line ← input.getLine
  if line.isEmpty then return []
  return (line.toList.takeWhile (· != '\n') |> String.ofList) :: (← readLines input)

def readDisk (directory : String) (paths : List String) (now : Nat) : IO Disk := do
  let mut d := ({} : Disk).makeDirectoryAll directory |>.toOption.getD {}
  for path in paths do
    let full := Path.join directory path
    d := (d.writeUnder full (← IO.FS.readBinFile full) now).toOption.getD d
  return d

def writeChanges (changes : List (String × Option ByteArray)) : IO Unit := do
  for (path, content) in changes do
    match content with
    | some bytes =>
      IO.FS.createDirAll (Disk.parentOf path)
      IO.FS.writeBinFile path bytes
    | none => IO.FS.removeFile path

def terminal (directory : String) (vars : Variables) : Environment Unit where
  vars := vars
  directory := directory
  git _ _ := .outside
  points := .silent Unit
  send _ _ := (.zero, none)
  extractor := .ofParser fun _ _ => none
  runId n := toString n

end CodeIndex.Cli

open CodeIndex CodeIndex.Cli in
def main (args : List String) : IO UInt32 := do
  let directory := (← IO.getEnv "PWD").getD "/"
  let vars ← variableNames.filterMapM fun name => do
    return (← IO.getEnv name).map fun value => (name, value)
  let seconds := ((← IO.getEnv "SOURCE_DATE_EPOCH").bind String.toNat?).getD 0
  let clock : Timestamp := (⟨⟨1970, 1, 1⟩, 0, 0⟩ : Timestamp).advance (.ofSecs seconds)
  let d ← readDisk directory (← readLines (← IO.getStdin)) (seconds * 1000)
  let world : World Unit := { disk := d, store := (), clock := clock }
  let (outcome, world) := (start (terminal directory vars) args).run world
  writeChanges (d.changedFiles world.disk)
  IO.print outcome.output
  if let some e := outcome.error then IO.eprintln ("Error: " ++ e.message)
  return outcome.code.toUInt32
