import CodeIndex.Points.Point

namespace CodeIndex

abbrev PointM (σ : Type) := OptionT (StateM σ)

structure PointService (σ : Type) where
  collections : PointM σ (List String)
  count : PointFilter → PointM σ (Option Nat)
  scroll : PointFilter → Nat → PointM σ (List String)
  upsert : List (String × Point) → PointM σ Unit
  delete : PointFilter → PointM σ Unit
  setPayload : PointFilter → Payload → PointM σ Unit

def PointService.silent (σ : Type) : PointService σ where
  collections := failure
  count _ := failure
  scroll _ _ := failure
  upsert _ := failure
  delete _ := failure
  setPayload _ _ := failure

abbrev PointTable := Std.ExtTreeMap String Point

namespace PointTable

def chosen (t : PointTable) (f : PointFilter) : List String :=
  (t.filter fun id p => f.chooses id p).keys

def merge (old new : Payload) : Payload :=
  new.foldl (fun payload key value => payload.insert key value) old

def service (collection : String) : PointService PointTable where
  collections := pure [collection]
  count f := do return some ((← get).chosen f).length
  scroll f limit := do return ((← get).chosen f).take limit
  upsert points := modify fun t => points.foldl (fun t (id, p) => t.insert id p) t
  delete f := modify fun t => t.filter fun id p => !f.chooses id p
  setPayload f values := modify fun t => t.map fun id p =>
    if f.chooses id p then { p with payload := merge p.payload values } else p

end PointTable

end CodeIndex
