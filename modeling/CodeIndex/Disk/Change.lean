import CodeIndex.Disk.Basic

namespace CodeIndex.Disk

def put (d : Disk) (place : Location) (node : DiskNode) : Disk := ⟨d.nodes.insert place node⟩

def drop (d : Disk) (place : Location) : Disk :=
  ⟨d.nodes.filter fun found _ => !place.isPrefixOf found⟩

def locateEntry (d : Disk) (path : String) : Except DiskError Location :=
  if path.toList.any (· == Char.ofNat 0) then .error .invalidPath
  else
    match (steps path).reverse with
    | [] => .ok []
    | name :: before =>
      if name = "." ∨ name = ".." then d.locate path
      else if longestName < name.utf8ByteSize then .error .nameTooLong
      else do
        let parent ← walk d linkLimit [] before.reverse
        match d.lookup parent with
        | some .directory => .ok (parent ++ [name])
        | some _ => .error .notDirectory
        | none => .error .notFound

def makeDirectory (d : Disk) (path : String) : Except DiskError Disk := do
  let place ← d.locateEntry path
  match d.lookup place with
  | some _ => .error .alreadyExists
  | none => .ok (d.put place .directory)

/-- Makes the directories on the way along some names, as far as they are missing. -/
def makeDirectories (d : Disk) (done : String) : List String → Except DiskError Disk
  | [] => .ok d
  | name :: rest =>
    let path := done ++ "/" ++ name
    match d.stat path with
    | .ok .directory => makeDirectories d path rest
    | .ok _ => .error (if rest.isEmpty then .alreadyExists else .notDirectory)
    | .error .notFound => do makeDirectories (← d.makeDirectory path) path rest
    | .error e => .error e

/-- Makes a directory and all those above it, as far as they are missing. -/
def makeDirectoryAll (d : Disk) (path : String) : Except DiskError Disk :=
  if path.toList.any (· == Char.ofNat 0) then .error .invalidPath
  else makeDirectories d "" (steps path)

def writeFile (d : Disk) (path : String) (content : ByteArray) (now : Nat) :
    Except DiskError Disk := do
  let place ← d.locate path
  match d.lookup place with
  | some .directory => .error .isDirectory
  | some _ => .ok (d.put place (.file content now))
  | none =>
    match d.lookup place.dropLast with
    | some .directory => .ok (d.put place (.file content now))
    | _ => .error .notFound

def parentOf (path : String) : String := "/" ++ "/".intercalate (steps path).dropLast

def writeUnder (d : Disk) (path : String) (content : ByteArray) (now : Nat) :
    Except DiskError Disk := do
  (← d.makeDirectoryAll (parentOf path)).writeFile path content now

def removeFile (d : Disk) (path : String) : Except DiskError Disk := do
  let place ← d.locateEntry path
  match d.lookup place with
  | none => .error .notFound
  | some .directory => .error .isDirectory
  | some _ => .ok ⟨d.nodes.erase place⟩

def removeAll (d : Disk) (path : String) : Except DiskError Disk := do
  let place ← d.locateEntry path
  match d.lookup place with
  | none => .error .notFound
  | some _ => .ok (d.drop place)

def makeLink (d : Disk) (path target : String) : Except DiskError Disk := do
  let place ← d.locateEntry path
  match d.lookup place with
  | some _ => .error .alreadyExists
  | none => .ok (d.put place (.link target))

def transplant (d : Disk) (source target : Location) : Disk :=
  let taken := d.nodes.toList.filterMap fun (found, node) =>
    if source.isPrefixOf found then some (target ++ found.drop source.length, node) else none
  ⟨taken.foldl (fun nodes (place, node) => nodes.insert place node)
    ((d.drop source).drop target).nodes⟩

/-- Moves a file, link or directory. It replaces a file or link, or a directory an empty one. -/
def rename (d : Disk) (source target : String) : Except DiskError Disk := do
  let place ← d.locateEntry source
  let goal ← d.locateEntry target
  match d.lookup place, d.lookup goal with
  | none, _ => .error .notFound
  | some _, none => .ok (d.transplant place goal)
  | some .directory, some .directory =>
    if place = goal then .ok d
    else if (d.children goal).isEmpty then .ok (d.transplant place goal)
    else .error .notEmpty
  | some .directory, some _ => .error .notDirectory
  | some _, some .directory => .error .isDirectory
  | some _, some _ => if place = goal then .ok d else .ok (d.transplant place goal)

/-- The files that differ on a later disk, by path: their bytes, or nothing if they are gone. -/
def changedFiles (d later : Disk) : List (String × Option ByteArray) :=
  let pathOf (place : Location) : String := "/" ++ "/".intercalate place
  let content? (d : Disk) (place : Location) : Option ByteArray :=
    match d.lookup place with
    | some (.file content _) => some content
    | _ => none
  let gone := d.nodes.toList.filterMap fun (place, _) =>
    if (content? d place).isSome ∧ (content? later place).isNone then some (pathOf place, none)
    else none
  let written := later.nodes.toList.filterMap fun (place, _) =>
    match content? later place with
    | some content =>
      if content? d place = some content then none else some (pathOf place, some content)
    | none => none
  gone ++ written

end CodeIndex.Disk
