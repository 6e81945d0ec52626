import CodeIndex.Run.Error
import CodeIndex.Store.Entry

namespace CodeIndex

abbrev StoreM (σ : Type) := ExceptT StoreError (StateM σ)

/-- The calls of a store with state `σ`. Curated entries are never changed by them. -/
structure VectorStore (σ : Type) where
  upsert : List EmbeddedEntity → StoreM σ Unit
  deleteByPath : String → StoreM σ Nat
  deleteIds : List String → StoreM σ Nat
  updatePath : String → String → StoreM σ Nat
  countForPath : String → StoreM σ Nat

inductive StoreCall where
  | upsert | deleteByPath | deleteIds | updatePath | countForPath
deriving DecidableEq, Repr, Inhabited

namespace StoreCall

def name : StoreCall → String
  | .upsert => "upsert"
  | .deleteByPath => "delete_by_path"
  | .deleteIds => "delete_ids"
  | .updatePath => "update_path"
  | .countForPath => "count_for_path"

def ofName? (s : String) : Option StoreCall :=
  [upsert, deleteByPath, deleteIds, updatePath, countForPath].find? fun call => call.name == s

end StoreCall

def VectorStore.guarded {σ : Type} (store : VectorStore σ) (before : StoreCall → StoreM σ Unit) :
    VectorStore σ where
  upsert entities := do before .upsert; store.upsert entities
  deleteByPath path := do before .deleteByPath; store.deleteByPath path
  deleteIds ids := do before .deleteIds; store.deleteIds ids
  updatePath source target := do before .updatePath; store.updatePath source target
  countForPath path := do before .countForPath; store.countForPath path

def StoreM.onPart {σ τ α : Type} (get : τ → σ) (set : σ → τ → τ) (call : StoreM σ α) :
    StoreM τ α :=
  ExceptT.mk fun t =>
    let (result, s) := call.run (get t)
    (result, set s t)

def VectorStore.onPart {σ τ : Type} (store : VectorStore σ) (get : τ → σ) (set : σ → τ → τ) :
    VectorStore τ where
  upsert entities := (store.upsert entities).onPart get set
  deleteByPath path := (store.deleteByPath path).onPart get set
  deleteIds ids := (store.deleteIds ids).onPart get set
  updatePath source target := (store.updatePath source target).onPart get set
  countForPath path := (store.countForPath path).onPart get set

end CodeIndex
