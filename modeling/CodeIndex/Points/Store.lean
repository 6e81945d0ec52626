import CodeIndex.Points.Service
import CodeIndex.Store.VectorStore
import CodeIndex.Text.Quoted

namespace CodeIndex.PointStore

variable {σ : Type}

/-- An answer of the service, or the context in which there was none. -/
def asked {α : Type} (context : String) (request : PointM σ α) : StoreM σ α :=
  ExceptT.mk do
    match ← request.run with
    | some a => return .ok a
    | none => return .error (.backend context)

def pointIds (ids : List String) : Except StoreError (List String) :=
  ids.mapM fun id =>
    match Uuid.canonical? id with
    | some uuid => .ok uuid
    | none => .error (.backend ("entity id " ++ Text.quoted id ++ " is not a 128-bit hex id"))

def countMatching (service : PointService σ) (f : PointFilter) : StoreM σ Nat := do
  return (← asked "Failed to count points" (service.count f)).getD 0

def deleteMatching (service : PointService σ) (f : PointFilter) : StoreM σ Nat := do
  let count ← countMatching service f
  if count = 0 then return 0
  asked "Failed to delete points" (service.delete f)
  return count

def scrollLimit : Nat := Nat.pow 2 32 - 1

def upsert (service : PointService σ) (entities : List EmbeddedEntity) : StoreM σ Unit := do
  if entities.isEmpty then return
  let ids ← ExceptT.mk (pure (pointIds (entities.map (·.entity.id))))
  let curated ← asked "Failed to look up curated points"
    (service.scroll (Point.curatedAmong ids) (min ids.length scrollLimit))
  let points := (ids.zip (entities.map Point.ofEmbedded)).filter fun (id, _) =>
    !curated.contains id
  if points.isEmpty then return
  asked "Failed to upsert points" (service.upsert points)

def updatePath (service : PointService σ) (source target : String) : StoreM σ Nat := do
  let f := Point.derivedFor source
  let count ← countMatching service f
  if count = 0 then return 0
  asked "Failed to update file_path payload"
    (service.setPayload f (Std.ExtTreeMap.ofList [("file_path", PayloadValue.text target)]))
  return count

def calls (service : PointService σ) : VectorStore σ where
  upsert entities := upsert service entities
  deleteByPath path := deleteMatching service (Point.derivedFor path)
  deleteIds ids := do
    if ids.isEmpty then return 0
    let ids ← ExceptT.mk (pure (pointIds ids))
    deleteMatching service (Point.derivedAmong ids)
  updatePath source target := updatePath service source target
  countForPath path := countMatching service (Point.derivedFor path)

inductive CollectionError where
  | unlisted
  | missing (collection : String) (dimensions : Nat)
deriving DecidableEq, Repr, Inhabited

def CollectionError.message : CollectionError → String
  | .unlisted => "Failed to list collections"
  | .missing collection dimensions =>
    "collection " ++ collection ++ " does not exist; create it with " ++ toString dimensions
      ++ " dimensions first"

def checkCollection (service : PointService σ) (collection : String) (dimensions : Nat) :
    ExceptT CollectionError (StateM σ) Unit :=
  ExceptT.mk do
    match ← service.collections.run with
    | none => return .error .unlisted
    | some names =>
      if names.contains collection then return .ok ()
      else return .error (.missing collection dimensions)

end CodeIndex.PointStore
