import Mathlib.Data.List.Basic
import CodeIndex.Store.Memory

namespace CodeIndex

/-- A call that changes a store, with what it is given. -/
inductive StoreEdit where
  | clear (path : String)
  | move (source target : String)
  | write (entities : List EmbeddedEntity)
  | drop (ids : List String)
deriving DecidableEq

namespace StoreEdit

def call : StoreEdit → StoreCall
  | .clear _ => .deleteByPath
  | .move _ _ => .updatePath
  | .write _ => .upsert
  | .drop _ => .deleteIds

def apply : StoreEdit → MemoryStore → MemoryStore
  | .clear path, s => s.deleteByPath path
  | .move source target, s => s.updatePath source target
  | .write entities, s => s.upsert entities
  | .drop ids, s => (s.deleteIds ids).2

/-- The entry that a list of entities writes under an id: that of the last one. -/
def written (entities : List EmbeddedEntity) (id : String) : Option StoredEntity :=
  (entities.reverse.find? (·.entity.id == id)).map fun e => ⟨e.entity, e.vector, .derived⟩

def onEntry (id : String) : StoreEdit → Option StoredEntity → Option StoredEntity
  | .clear path, e => e.filter (!·.isDerivedFor path)
  | .move source target, e => e.map fun e =>
    if e.isDerivedFor source then { e with entity := { e.entity with filePath := target } } else e
  | .write entities, e =>
    if e.any (·.origin == .curated) then e else (written entities id).or e
  | .drop ids, e => if ids.contains id && e.any (·.origin == .derived) then none else e

end StoreEdit

namespace MemoryStore

theorem ext_get? (s t : MemoryStore) (h : ∀ id, s.get? id = t.get? id) : s = t := by
  obtain ⟨a⟩ := s
  obtain ⟨b⟩ := t
  have hab : a = b := Std.ExtTreeMap.ext_getElem? fun {id} => h id
  rw [hab]

theorem get?_upsertOne (s : MemoryStore) (e : EmbeddedEntity) (id : String) :
    (s.upsertOne e).get? id =
      if (s.get? id).any (·.origin == .curated) = true then s.get? id
      else if e.entity.id = id then some ⟨e.entity, e.vector, .derived⟩
      else s.get? id := by
  unfold upsertOne isCurated
  by_cases hid : e.entity.id = id
  · rw [hid, if_pos rfl]
    split
    · rfl
    · simp only [get?, Std.ExtTreeMap.getElem?_insert_self]
  · rw [if_neg hid]
    have hother : (if (s.get? e.entity.id).any (·.origin == .curated) = true then s
        else ⟨s.entries.insert e.entity.id ⟨e.entity, e.vector, .derived⟩⟩).get? id = s.get? id := by
      split
      · rfl
      · simp only [get?, Std.ExtTreeMap.getElem?_insert, Std.LawfulEqCmp.compare_eq_iff_eq, hid,
          if_false]
    rw [hother]
    split <;> rfl

theorem get?_upsert (s : MemoryStore) (entities : List EmbeddedEntity) (id : String) :
    (s.upsert entities).get? id =
      if (s.get? id).any (·.origin == .curated) = true then s.get? id
      else (StoreEdit.written entities id).or (s.get? id) := by
  unfold upsert
  -- the induction is on the entities; the store is the one written so far
  induction entities generalizing s with
  | nil =>
    rw [List.foldl_nil]
    split <;> rfl
  | cons e rest ih =>
    have hwritten : StoreEdit.written (e :: rest) id = (StoreEdit.written rest id).or
        (if e.entity.id = id then some ⟨e.entity, e.vector, .derived⟩ else none) := by
      unfold StoreEdit.written
      rw [List.reverse_cons, List.find?_append]
      cases rest.reverse.find? (·.entity.id == id) with
      | some x => rfl
      | none =>
        by_cases hid : e.entity.id = id
        · simp [hid]
        · simp [hid]
    rw [List.foldl_cons, ih, get?_upsertOne, hwritten]
    by_cases hc : (s.get? id).any (·.origin == .curated) = true
    · simp only [hc, if_true]
    · by_cases hid : e.entity.id = id
      · -- the entry just written is derived, so that a later one of the id replaces it
        have hderived : (some (⟨e.entity, e.vector, .derived⟩ : StoredEntity)).any
            (·.origin == .curated) = false := rfl
        simp only [hc, hid, hderived, if_true, if_false, Bool.false_eq_true, Option.or_assoc,
          Option.some_or]
      · simp only [hc, hid, if_false, Bool.false_eq_true, Option.or_assoc, Option.none_or]

theorem get?_deleteIds (s : MemoryStore) (ids : List String) (id : String) :
    (s.deleteIds ids).2.get? id =
      if ids.contains id && (s.get? id).any (·.origin == .derived) then none else s.get? id := by
  unfold deleteIds
  generalize 0 = count
  induction ids generalizing s count with
  | nil => simp
  | cons first rest ih =>
    rw [List.foldl_cons]
    dsimp only
    split
    · rename_i hderived
      rw [ih]
      by_cases hid : first = id
      · -- the entry is gone after the first mention
        have hgone : (⟨s.entries.erase first⟩ : MemoryStore).get? id = none := by
          simp only [get?, Std.ExtTreeMap.getElem?_erase, Std.LawfulEqCmp.compare_eq_iff_eq, hid,
            if_true]
        rw [hgone]
        unfold isDerived at hderived
        rw [hid] at hderived
        simp [hid, hderived]
      · have hkept : (⟨s.entries.erase first⟩ : MemoryStore).get? id = s.get? id := by
          simp only [get?, Std.ExtTreeMap.getElem?_erase, Std.LawfulEqCmp.compare_eq_iff_eq, hid,
            if_false]
        rw [hkept]
        simp [Ne.symm hid]
    · rename_i hderived
      rw [ih]
      by_cases hid : first = id
      · unfold isDerived at hderived
        rw [hid] at hderived
        simp [hid, hderived]
      · simp [Ne.symm hid]

theorem get?_deleteByPath (s : MemoryStore) (path id : String) :
    (s.deleteByPath path).get? id = (s.get? id).filter (!·.isDerivedFor path) :=
  Std.ExtTreeMap.getElem?_filter'

theorem get?_updatePath (s : MemoryStore) (source target id : String) :
    (s.updatePath source target).get? id = (s.get? id).map fun e =>
      if e.isDerivedFor source then { e with entity := { e.entity with filePath := target } }
      else e :=
  Std.ExtTreeMap.getElem?_map

end MemoryStore

theorem StoreEdit.get?_apply (edit : StoreEdit) (s : MemoryStore) (id : String) :
    (edit.apply s).get? id = edit.onEntry id (s.get? id) := by
  cases edit with
  | clear path => exact s.get?_deleteByPath path id
  | move source target => exact s.get?_updatePath source target id
  | write entities => exact s.get?_upsert entities id
  | drop ids => exact s.get?_deleteIds ids id

namespace MemoryStore

/-- The store holds a derived entry of a path under an id. -/
def Holds (s : MemoryStore) (path id : String) : Prop :=
  ∃ e, s.get? id = some e ∧ e.isDerivedFor path = true

theorem mem_idsForPath (s : MemoryStore) (path id : String) :
    id ∈ s.idsForPath path ↔ s.Holds path id := by
  simp only [idsForPath, derivedFor, toList, List.mem_map, List.mem_filter]
  constructor
  · rintro ⟨⟨id', e⟩, ⟨hmem, he⟩, rfl⟩
    exact ⟨e, Std.ExtTreeMap.mem_toList_iff_getElem?_eq_some.mp hmem, he⟩
  · rintro ⟨e, hget, he⟩
    exact ⟨(id, e), ⟨Std.ExtTreeMap.mem_toList_iff_getElem?_eq_some.mpr hget, he⟩, rfl⟩

theorem isDerivedFor_iff (e : StoredEntity) (path : String) :
    e.isDerivedFor path = true ↔ e.origin = .derived ∧ e.entity.filePath = path := by
  unfold StoredEntity.isDerivedFor
  rw [Bool.and_eq_true, beq_iff_eq, beq_iff_eq]

theorem holds_unique (s : MemoryStore) (p q id : String) (hp : s.Holds p id) (hq : s.Holds q id) :
    p = q := by
  obtain ⟨e, he, hep⟩ := hp
  obtain ⟨e', he', heq⟩ := hq
  rw [he] at he'
  cases he'
  rw [← ((isDerivedFor_iff e p).mp hep).2, ← ((isDerivedFor_iff e q).mp heq).2]

theorem holds_clear (s : MemoryStore) (path q id : String) :
    ((StoreEdit.clear path).apply s).Holds q id ↔ s.Holds q id ∧ q ≠ path := by
  unfold Holds
  simp only [StoreEdit.get?_apply, StoreEdit.onEntry, Option.filter_eq_some_iff,
    Bool.not_eq_true']
  constructor
  · rintro ⟨e, ⟨hget, hpath⟩, hq⟩
    refine ⟨⟨e, hget, hq⟩, ?_⟩
    rintro rfl
    rw [hq] at hpath
    cases hpath
  · rintro ⟨⟨e, hget, hq⟩, hne⟩
    refine ⟨e, ⟨hget, ?_⟩, hq⟩
    rw [← Bool.not_eq_true, isDerivedFor_iff]
    rintro ⟨_, hpath⟩
    exact hne (((isDerivedFor_iff e q).mp hq).2.symm.trans hpath)

theorem holds_move (s : MemoryStore) (source target q id : String) :
    ((StoreEdit.move source target).apply s).Holds q id ↔
      (q = target ∧ s.Holds source id) ∨ (q ≠ source ∧ s.Holds q id) := by
  unfold Holds
  simp only [StoreEdit.get?_apply, StoreEdit.onEntry, Option.map_eq_some_iff]
  constructor
  · rintro ⟨e, ⟨e', hget, rfl⟩, hq⟩
    split at hq
    · rename_i hsource
      exact .inl ⟨((isDerivedFor_iff _ q).mp hq).2.symm, e', hget, hsource⟩
    · rename_i hsource
      refine .inr ⟨?_, e', hget, hq⟩
      rintro rfl
      exact hsource hq
  · rintro (⟨rfl, e, hget, hsource⟩ | ⟨hne, e, hget, hq⟩)
    · refine ⟨_, ⟨e, hget, rfl⟩, ?_⟩
      rw [if_pos hsource, isDerivedFor_iff]
      exact ⟨((isDerivedFor_iff e source).mp hsource).1, rfl⟩
    · refine ⟨e, ⟨e, hget, ?_⟩, hq⟩
      rw [if_neg]
      intro hsource
      exact hne (((isDerivedFor_iff e q).mp hq).2.symm.trans
        ((isDerivedFor_iff e source).mp hsource).2)

theorem holds_drop (s : MemoryStore) (ids : List String) (q id : String) :
    ((StoreEdit.drop ids).apply s).Holds q id ↔ s.Holds q id ∧ id ∉ ids := by
  unfold Holds
  simp only [StoreEdit.get?_apply, StoreEdit.onEntry, Bool.and_eq_true, List.contains_iff_mem]
  by_cases hid : id ∈ ids
  · refine ⟨?_, fun h => absurd hid h.2⟩
    rintro ⟨e, hget, hq⟩
    split at hget
    · cases hget
    · rename_i hkept
      have horigin := ((isDerivedFor_iff e q).mp hq).1
      exact absurd ⟨hid, by rw [hget, Option.any_some, horigin]; rfl⟩ hkept
  · simp only [hid, false_and, if_false, not_false_eq_true, and_true]

theorem written_none (entities : List EmbeddedEntity) (id : String) :
    StoreEdit.written entities id = none ↔ ∀ e ∈ entities, e.entity.id ≠ id := by
  unfold StoreEdit.written
  simp

theorem written_some (entities : List EmbeddedEntity) (id : String) (x : StoredEntity)
    (h : StoreEdit.written entities id = some x) :
    ∃ e ∈ entities, e.entity.id = id ∧ x = ⟨e.entity, e.vector, .derived⟩ := by
  obtain ⟨e, he, rfl⟩ := Option.map_eq_some_iff.mp h
  exact ⟨e, List.mem_reverse.mp (List.mem_of_find?_eq_some he), by
    simpa using List.find?_some he, rfl⟩

/-- The entries of one path are written where no curated entry stands. -/
theorem holds_write (s : MemoryStore) (entities : List EmbeddedEntity) (path q id : String)
    (hpath : ∀ e ∈ entities, e.entity.filePath = path)
    (hfree : ∀ e ∈ entities, s.isCurated e.entity.id = false) :
    ((StoreEdit.write entities).apply s).Holds q id ↔
      (q = path ∧ ∃ e ∈ entities, e.entity.id = id) ∨
      ((∀ e ∈ entities, e.entity.id ≠ id) ∧ s.Holds q id) := by
  unfold Holds
  simp only [StoreEdit.get?_apply, StoreEdit.onEntry]
  cases hwritten : StoreEdit.written entities id with
  | none =>
    have hnone := (written_none entities id).mp hwritten
    have hkept : (if (s.get? id).any (·.origin == .curated) = true then s.get? id
        else none.or (s.get? id)) = s.get? id := by
      split <;> rfl
    rw [hkept]
    constructor
    · exact fun h => .inr ⟨hnone, h⟩
    · rintro (⟨_, e, he, hid⟩ | ⟨_, h⟩)
      · exact absurd hid (hnone e he)
      · exact h
  | some x =>
    obtain ⟨e, he, hid, rfl⟩ := written_some entities id x hwritten
    have hopen : (s.get? id).any (·.origin == .curated) = false := by
      have hcurated := hfree e he
      rw [hid] at hcurated
      exact hcurated
    simp only [hopen, Bool.false_eq_true, if_false, Option.some_or, Option.some.injEq]
    constructor
    · rintro ⟨x, rfl, hq⟩
      exact .inl ⟨((isDerivedFor_iff _ q).mp hq).2.symm.trans (hpath e he), e, he, hid⟩
    · rintro (⟨rfl, _⟩ | ⟨hnone, _⟩)
      · exact ⟨_, rfl, (isDerivedFor_iff _ q).mpr ⟨rfl, hpath e he⟩⟩
      · exact absurd hid (hnone e he)

/-- No edit makes an entry curated, or takes a curated one away. -/
theorem isCurated_apply (edit : StoreEdit) (s : MemoryStore) (id : String) :
    (edit.apply s).isCurated id = s.isCurated id := by
  unfold isCurated
  rw [StoreEdit.get?_apply]
  generalize s.get? id = found
  cases edit with
  | clear path =>
    cases found with
    | none => rfl
    | some e =>
      unfold StoreEdit.onEntry
      dsimp only
      rw [Option.filter_some]
      split
      · rfl
      · -- only derived entries of the path are cleared
        rename_i hpath
        have horigin : e.origin = .derived := by
          simp only [Bool.not_eq_true', Bool.not_eq_false] at hpath
          exact ((isDerivedFor_iff e path).mp hpath).1
        rw [Option.any_none, Option.any_some, horigin]
        rfl
  | move source target =>
    cases found with
    | none => rfl
    | some e =>
      unfold StoreEdit.onEntry
      dsimp only
      rw [Option.map_some, Option.any_some, Option.any_some]
      split <;> rfl
  | write entities =>
    unfold StoreEdit.onEntry
    dsimp only
    split
    · rfl
    · -- where no curated entry stands a derived one is written
      rename_i hopen
      rw [Bool.not_eq_true] at hopen
      rw [hopen]
      cases hwritten : StoreEdit.written entities id with
      | none => exact hopen
      | some x =>
        obtain ⟨e, _, _, rfl⟩ := written_some entities id x hwritten
        rfl
  | drop ids =>
    unfold StoreEdit.onEntry
    dsimp only
    split
    · -- only derived entries are dropped
      rename_i hdropped
      rw [Bool.and_eq_true] at hdropped
      cases found with
      | none => rfl
      | some e =>
        have horigin : e.origin = .derived := by simpa using hdropped.2
        rw [Option.any_none, Option.any_some, horigin]
        rfl
    · rfl

theorem deleteIds_eq_filter (s : MemoryStore) (ids : List String) :
    (s.deleteIds ids).2 =
      ⟨s.entries.filter fun id e => !(ids.contains id && e.origin == .derived)⟩ := by
  apply ext_get?
  intro id
  have hfilter : (⟨s.entries.filter fun id e =>
      !(ids.contains id && e.origin == .derived)⟩ : MemoryStore).get? id =
      (s.get? id).filter fun e => !(ids.contains id && e.origin == .derived) :=
    Std.ExtTreeMap.getElem?_filter'
  rw [s.get?_deleteIds, hfilter]
  cases s.get? id with
  | none => simp
  | some e =>
    rw [Option.any_some, Option.filter_some]
    cases ids.contains id && e.origin == .derived <;> rfl

theorem deleteIds_size (s : MemoryStore) (ids : List String) :
    (s.deleteIds ids).1 + (s.deleteIds ids).2.size = s.size := by
  rw [← Nat.zero_add s.size]
  unfold deleteIds
  -- with any count of what is deleted so far
  generalize 0 = count
  induction ids generalizing s count with
  | nil => rfl
  | cons id rest ih =>
    rw [List.foldl_cons]
    dsimp only
    split
    · rename_i hderived
      have hin : s.entries.contains id = true := by
        unfold isDerived get? at hderived
        rw [Std.ExtTreeMap.contains_iff_mem, Std.ExtTreeMap.mem_iff_isSome_getElem?]
        cases hget : s.entries[id]? with
        | none => rw [hget] at hderived; cases hderived
        | some e => rfl
      have hsome : s.entries.size ≠ 0 := by
        intro hsize
        rw [Std.ExtTreeMap.eq_empty_iff_size_eq_zero.mpr hsize,
          Std.ExtTreeMap.contains_empty] at hin
        cases hin
      have herased : (⟨s.entries.erase id⟩ : MemoryStore).size = s.entries.size - 1 := by
        unfold size
        rw [Std.ExtTreeMap.size_erase, if_pos hin]
      apply (ih ⟨s.entries.erase id⟩ (count + 1)).trans
      rw [herased]
      unfold size
      omega
    · exact ih s count

theorem deleteIds_count (s : MemoryStore) (ids : List String) :
    (s.deleteIds ids).1 = (s.toList.filter fun entry =>
      ids.contains entry.1 && entry.2.origin == .derived).length := by
  have hleft : (s.deleteIds ids).2.size = (s.toList.filter fun entry =>
      !(ids.contains entry.1 && entry.2.origin == .derived)).length := by
    rw [deleteIds_eq_filter]
    unfold size toList
    rw [← Std.ExtTreeMap.length_toList, Std.ExtTreeMap.toList_filter]
  have hsize := s.deleteIds_size ids
  have hall : s.size = s.toList.length := Std.ExtTreeMap.length_toList.symm
  have hsplit := List.length_eq_length_filter_add (l := s.toList) fun entry =>
    ids.contains entry.1 && entry.2.origin == .derived
  omega

/-- The store once some edits are made. -/
def edited (s : MemoryStore) (edits : List StoreEdit) : MemoryStore :=
  edits.foldl (fun s edit => edit.apply s) s

theorem edited_append (s : MemoryStore) (xs ys : List StoreEdit) :
    s.edited (xs ++ ys) = (s.edited xs).edited ys := List.foldl_append

theorem edited_drop (s : MemoryStore) (ids : List String) :
    s.edited (if ids.isEmpty then [] else [.drop ids]) = (StoreEdit.drop ids).apply s := by
  split
  · rename_i hempty
    rw [List.isEmpty_iff.mp hempty]
    apply ext_get?
    intro id
    rw [StoreEdit.get?_apply]
    rfl
  · rfl

theorem isCurated_edited (s : MemoryStore) (edits : List StoreEdit) (id : String) :
    (s.edited edits).isCurated id = s.isCurated id := by
  induction edits generalizing s with
  | nil => rfl
  | cons edit rest ih => exact (ih _).trans (isCurated_apply edit s id)

end MemoryStore

end CodeIndex
