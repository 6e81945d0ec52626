import CodeIndex.Proofs.Store.Curated

namespace CodeIndex

namespace MemoryStore

def derivedSize (s : MemoryStore) : Nat :=
  (s.toList.filter fun entry => entry.2.origin == .derived).length

theorem derivedSize_eq (s : MemoryStore) :
    s.derivedSize = (s.entries.filter fun _ e => e.origin == .derived).size := by
  rw [← Std.ExtTreeMap.length_toList, Std.ExtTreeMap.toList_filter]
  rfl

/-- A store of which only derived entries are left out has that many fewer of them. -/
theorem size_filter (s : MemoryStore) (gone : String → StoredEntity → Bool)
    (h : ∀ id e, gone id e = true → e.origin = .derived) :
    (⟨s.entries.filter fun id e => !gone id e⟩ : MemoryStore).derivedSize +
      (s.toList.filter fun entry => gone entry.1 entry.2).length = s.derivedSize := by
  -- both parts are among the derived entries, and one is what the other leaves
  have hleft : (⟨s.entries.filter fun id e => !gone id e⟩ : MemoryStore).derivedSize =
      ((s.toList.filter fun entry => entry.2.origin == .derived).filter fun entry =>
        !gone entry.1 entry.2).length := by
    unfold derivedSize toList
    rw [Std.ExtTreeMap.toList_filter, List.filter_comm]
  have hgone : (s.toList.filter fun entry => gone entry.1 entry.2) =
      (s.toList.filter fun entry => entry.2.origin == .derived).filter fun entry =>
        gone entry.1 entry.2 := by
    rw [List.filter_filter]
    apply List.filter_congr
    rintro ⟨id, e⟩ _
    cases hcase : gone id e with
    | false => rfl
    | true => rw [h id e hcase]; rfl
  have hsplit := List.length_eq_length_filter_add
    (l := s.toList.filter fun entry => entry.2.origin == .derived) fun entry =>
      gone entry.1 entry.2
  rw [hleft, hgone]
  unfold derivedSize
  omega

theorem size_clear (s : MemoryStore) (path : String) :
    ((StoreEdit.clear path).apply s).derivedSize + (StoreEdit.clear path).count s =
      s.derivedSize := by
  rw [StoreEdit.count, s.lost_clear]
  exact s.size_filter (fun _ e => e.isDerivedFor path) fun _ e h =>
    ((isDerivedFor_iff e path).mp h).1

theorem size_drop (s : MemoryStore) (ids : List String) :
    ((StoreEdit.drop ids).apply s).derivedSize + (StoreEdit.drop ids).count s = s.derivedSize := by
  rw [StoreEdit.count, s.lost_drop, s.deleteIds_count, StoreEdit.apply, s.deleteIds_eq_filter]
  apply s.size_filter fun id e => ids.contains id && e.origin == .derived
  intro id e h
  rw [Bool.and_eq_true] at h
  exact eq_of_beq h.2

theorem size_move (s : MemoryStore) (source target : String) :
    ((StoreEdit.move source target).apply s).derivedSize = s.derivedSize := by
  have horigin (e : StoredEntity) : (if e.isDerivedFor source then
      { e with entity := { e.entity with filePath := target } } else e).origin = e.origin := by
    split <;> rfl
  unfold derivedSize toList StoreEdit.apply updatePath
  rw [Std.ExtTreeMap.toList_map, List.filter_map, List.length_map]
  simp only [Function.comp_def, horigin]

theorem isDerived_upsertOne (s : MemoryStore) (e : EmbeddedEntity) (id : String)
    (h : e.entity.id ≠ id) : (s.upsertOne e).isDerived id = s.isDerived id := by
  unfold isDerived
  rw [s.get?_upsertOne, if_neg h, ite_self]

theorem size_upsertOne (s : MemoryStore) (e : EmbeddedEntity)
    (hfree : s.isCurated e.entity.id = false) :
    (s.upsertOne e).derivedSize + (if s.isDerived e.entity.id then 1 else 0) =
      s.derivedSize + 1 := by
  -- no curated entry is in the way, so the entry is put into the map
  have hwritten : (s.upsertOne e).entries = s.entries.insert e.entity.id
      ⟨e.entity, e.vector, .derived⟩ := by
    rw [upsertOne, hfree, if_neg Bool.false_ne_true]
  -- what is derived is filtered before or after, as the new entry is derived
  have hinsert : (s.entries.insert e.entity.id ⟨e.entity, e.vector, .derived⟩).filter
      (fun _ e => e.origin == .derived) = (s.entries.filter fun _ e => e.origin == .derived).insert
        e.entity.id ⟨e.entity, e.vector, .derived⟩ := by
    apply Std.ExtTreeMap.ext_getElem?
    intro id
    simp only [Std.ExtTreeMap.getElem?_filter', Std.ExtTreeMap.getElem?_insert]
    split <;> rfl
  have hmem : (s.entries.filter fun _ e => e.origin == .derived).contains e.entity.id =
      s.isDerived e.entity.id := by
    rw [Std.ExtTreeMap.contains_eq_isSome_getElem?, Std.ExtTreeMap.getElem?_filter',
      Option.isSome_filter]
    rfl
  rw [derivedSize_eq, derivedSize_eq, hwritten, hinsert, Std.ExtTreeMap.size_insert, hmem]
  split <;> omega

/-- Entities with ids of their own come on top of what there is, but for those that are written
over. -/
theorem size_write (s : MemoryStore) (entities : List EmbeddedEntity)
    (hnodup : (entities.map (·.entity.id)).Nodup)
    (hfree : ∀ e ∈ entities, s.isCurated e.entity.id = false) :
    ((StoreEdit.write entities).apply s).derivedSize +
        ((entities.map (·.entity.id)).filter s.isDerived).length =
      s.derivedSize + entities.length := by
  -- the induction is on the entities; the store is the one written so far
  induction entities generalizing s with
  | nil => rfl
  | cons e rest ih =>
    obtain ⟨hnew, hrest⟩ := List.nodup_cons.mp hnodup
    have hother : ∀ id ∈ rest.map (·.entity.id), e.entity.id ≠ id := by
      rintro id hid rfl
      exact hnew hid
    have hcurated (x : EmbeddedEntity) : (s.upsertOne e).isCurated x.entity.id =
        s.isCurated x.entity.id := isCurated_apply (.write [e]) s x.entity.id
    have hlater := ih (s.upsertOne e) hrest fun x hx =>
      (hcurated x).trans (hfree x (List.mem_cons_of_mem _ hx))
    have hsame : (rest.map (·.entity.id)).filter (s.upsertOne e).isDerived =
        (rest.map (·.entity.id)).filter s.isDerived :=
      List.filter_congr fun id hid => s.isDerived_upsertOne e id (hother id hid)
    have hone := s.size_upsertOne e (hfree e List.mem_cons_self)
    have happly : (StoreEdit.write (e :: rest)).apply s =
        (StoreEdit.write rest).apply (s.upsertOne e) := rfl
    rw [hsame] at hlater
    rw [happly, List.map_cons, List.filter_cons, List.length_cons]
    split
    · rename_i hderived
      rw [if_pos hderived] at hone
      rw [List.length_cons]
      omega
    · rename_i hderived
      rw [if_neg hderived] at hone
      omega

end MemoryStore

namespace FileEdit

variable (s : MemoryStore)

theorem size_delete (path : String) : (s.edited (delete path).edits).derivedSize +
    ((delete path).stats s).removed = s.derivedSize := s.size_clear path

theorem size_rename (source target : String) (had : Bool) :
    (s.edited (rename source target had).edits).derivedSize +
      ((rename source target had).stats s).removed = s.derivedSize := by
  unfold edits World.moveEdits stats
  rw [s.edited_append]
  show ((StoreEdit.move source target).apply _).derivedSize + _ = _
  rw [MemoryStore.size_move]
  cases had with
  | true => exact s.size_clear target
  | false => rfl

def cleared (path : String) (hasRecord : Bool) : MemoryStore :=
  s.edited (if hasRecord then [] else [.clear path])

/-- The update of a file adds its new entries, but for those that are written over. -/
theorem size_update (path : String) (previous current : Std.ExtTreeSet String)
    (embedded : List EmbeddedEntity) (hasRecord : Bool)
    (hnodup : (embedded.map (·.entity.id)).Nodup)
    (hfree : ∀ e ∈ embedded, s.isCurated e.entity.id = false) :
    (s.edited (update path previous current embedded hasRecord).edits).derivedSize +
        ((update path previous current embedded hasRecord).stats s).removed +
        ((embedded.map (·.entity.id)).filter (cleared s path hasRecord).isDerived).length =
      s.derivedSize + ((update path previous current embedded hasRecord).stats s).added := by
  -- the store is cleared, written to and rid of stale ids; each step has its own balance
  have hclear : (cleared s path hasRecord).derivedSize +
      (if hasRecord then 0 else (StoreEdit.clear path).count s) = s.derivedSize := by
    unfold cleared
    cases hasRecord with
    | true => rfl
    | false => exact s.size_clear path
  have hwrite := (cleared s path hasRecord).size_write embedded hnodup fun e he =>
    (s.isCurated_edited _ _).trans (hfree e he)
  have hdrop := ((StoreEdit.write embedded).apply (cleared s path hasRecord)).size_drop
    (VectorStore.staleIds previous current)
  have hedited : s.edited (update path previous current embedded hasRecord).edits =
      (StoreEdit.drop (VectorStore.staleIds previous current)).apply
        ((StoreEdit.write embedded).apply (cleared s path hasRecord)) := by
    unfold edits World.updateEdits
    rw [s.edited_append]
    exact MemoryStore.edited_drop _ _
  have hwritten : s.edited ((if hasRecord then [] else [.clear path]) ++ [.write embedded]) =
      (StoreEdit.write embedded).apply (cleared s path hasRecord) := s.edited_append _ _
  rw [hedited]
  unfold stats
  dsimp only
  rw [hwritten]
  omega

end FileEdit

end CodeIndex
