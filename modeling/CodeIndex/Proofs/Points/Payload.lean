import Mathlib.Data.Option.Basic
import CodeIndex.Points.Service
import CodeIndex.Store.Entry

namespace CodeIndex

namespace Point

def ofStored (e : StoredEntity) : Point := ⟨e.vector, payloadOf e.entity e.origin⟩

def fields (e : Entity) (origin : Origin) : List (String × PayloadValue) :=
  [("entity_id", .text e.id), ("file_path", .text e.filePath),
    ("kind", .text e.kind.name), ("name", .text e.name),
    ("line_start", lineValue e.span.startLine), ("line_end", lineValue e.span.endLine),
    ("content_hash", .text e.contentHash), ("variant", .text e.variant.name),
    ("origin", .text origin.name), ("text", .text e.text)]
    ++ (e.signature.map fun s => ("signature", PayloadValue.text s)).toList
    ++ (e.scope.map fun s => ("scope", PayloadValue.text s)).toList

theorem fields_distinct (e : Entity) (origin : Origin) :
    (fields e origin).Pairwise fun a b => ¬compare a.1 b.1 = .eq := by
  have hkeys : ((fields e origin).map (·.1)).Nodup := by
    unfold fields
    cases e.signature <;> cases e.scope <;> simp
  have hne := List.pairwise_map.mp hkeys
  exact hne.imp fun h heq => h (Std.LawfulEqCmp.eq_of_compare heq)

theorem getElem?_payloadOf (e : Entity) (origin : Origin) (key : String) :
    (payloadOf e origin)[key]? = ((fields e origin).find? (·.1 == key)).map (·.2) := by
  change (Std.ExtTreeMap.ofList (fields e origin))[key]? = _
  cases hfound : (fields e origin).find? (·.1 == key) with
  | none =>
    apply Std.ExtTreeMap.getElem?_ofList_of_contains_eq_false
    rw [← Bool.not_eq_true, List.contains_iff_mem]
    intro hmem
    obtain ⟨field, hfield, hkey⟩ := List.mem_map.mp hmem
    exact List.find?_eq_none.mp hfound field hfield (beq_iff_eq.mpr hkey)
  | some field =>
    have hmem := List.mem_of_find?_eq_some hfound
    have hkey : field.1 = key := by simpa using List.find?_some hfound
    exact Std.ExtTreeMap.getElem?_ofList_of_mem (Std.LawfulEqCmp.compare_eq_iff_eq.mpr hkey)
      (fields_distinct e origin) hmem

theorem payloadOf_path (e : Entity) (origin : Origin) :
    (payloadOf e origin)["file_path"]? = some (.text e.filePath) := by
  rw [getElem?_payloadOf]
  rfl

theorem payloadOf_origin (e : Entity) (origin : Origin) :
    (payloadOf e origin)["origin"]? = some (.text origin.name) := by
  rw [getElem?_payloadOf]
  rfl

/-- Setting the path in the payload of an entity gives the payload of the moved entity. -/
theorem payloadOf_move (e : Entity) (origin : Origin) (path : String) :
    PointTable.merge (payloadOf e origin)
        (Std.ExtTreeMap.ofList [("file_path", PayloadValue.text path)]) =
      payloadOf { e with filePath := path } origin := by
  have hmerge (old : Payload) (value : PayloadValue) :
      PointTable.merge old (Std.ExtTreeMap.ofList [("file_path", value)]) =
        old.insert "file_path" value := by
    have hlist : (Std.ExtTreeMap.ofList [("file_path", value)] : Payload).toList =
        [("file_path", value)] := rfl
    unfold PointTable.merge
    rw [Std.ExtTreeMap.foldl_eq_foldl_toList, hlist]
    rfl
  apply Std.ExtTreeMap.ext_getElem?
  intro key
  rw [hmerge, Std.ExtTreeMap.getElem?_insert]
  split
  · rename_i hkey
    rw [← Std.LawfulEqCmp.eq_of_compare hkey, payloadOf_path]
  · -- every other field is that of the entity
    rename_i hkey
    have hother : ("file_path" == key) = false := by
      rw [← Bool.not_eq_true, beq_iff_eq]
      exact fun h => hkey (Std.LawfulEqCmp.compare_eq_iff_eq.mpr h)
    rw [getElem?_payloadOf, getElem?_payloadOf]
    simp only [fields, List.cons_append, List.find?_cons, hother]

end Point

end CodeIndex
