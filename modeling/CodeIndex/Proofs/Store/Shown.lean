import Mathlib.Data.List.Nodup
import CodeIndex.Proofs.Store.Memory

namespace CodeIndex

/-- The entity of a list with an id. -/
def entityOf (entities : List Entity) (id : String) : Option Entity :=
  entities.find? (·.id == id)

theorem entityOf_some (entities : List Entity) (id : String) (e : Entity)
    (h : entityOf entities id = some e) : e ∈ entities ∧ e.id = id :=
  ⟨List.mem_of_find?_eq_some h, by simpa using List.find?_some h⟩

theorem entityOf_none (entities : List Entity) (id : String) :
    entityOf entities id = none ↔ ∀ e ∈ entities, e.id ≠ id := by
  unfold entityOf
  simp

theorem entityOf_mem (entities : List Entity) (hnodup : (entities.map (·.id)).Nodup) (e : Entity)
    (he : e ∈ entities) : entityOf entities e.id = some e := by
  cases hfound : entityOf entities e.id with
  | none => exact absurd rfl ((entityOf_none entities e.id).mp hfound e he)
  | some x =>
    obtain ⟨hx, hid⟩ := entityOf_some entities e.id x hfound
    rw [List.inj_on_of_nodup_map hnodup hx he hid]

namespace MemoryStore

/-- The entity that a derived entry of a path has under an id. -/
def shown (s : MemoryStore) (path id : String) : Option Entity :=
  ((s.get? id).filter (·.isDerivedFor path)).map (·.entity)

theorem shown_congr {s s' : MemoryStore} {path id : String}
    (h : ∀ x : StoredEntity, x.isDerivedFor path = true →
      (s.get? id = some x ↔ s'.get? id = some x)) : s.shown path id = s'.shown path id := by
  have hentry (x : StoredEntity) : (s.get? id).filter (·.isDerivedFor path) = some x ↔
      (s'.get? id).filter (·.isDerivedFor path) = some x := by
    rw [Option.filter_eq_some_iff, Option.filter_eq_some_iff]
    exact and_congr_left fun hx => h x hx
  unfold shown
  rw [Option.ext hentry]

theorem shown_clear (s : MemoryStore) (path q id : String) :
    ((StoreEdit.clear path).apply s).shown q id = if q = path then none else s.shown q id := by
  unfold shown
  rw [StoreEdit.get?_apply, StoreEdit.onEntry]
  rw [Option.filter_filter]
  cases s.get? id with
  | none => simp
  | some e =>
    rw [Option.filter_some, Option.filter_some]
    by_cases hq : q = path
    · rw [if_pos hq, hq, Bool.not_and_self, if_neg Bool.false_ne_true]
      rfl
    · -- an entry that is shown for another path is not cleared
      rw [if_neg hq]
      cases hshown : e.isDerivedFor q with
      | false => rw [Bool.and_false]
      | true =>
        have hkept : e.isDerivedFor path = false := by
          rw [← Bool.not_eq_true, isDerivedFor_iff]
          exact fun h => hq (((isDerivedFor_iff e q).mp hshown).2.symm.trans h.2)
        rw [hkept]
        rfl

theorem shown_drop (s : MemoryStore) (ids : List String) (q id : String) :
    ((StoreEdit.drop ids).apply s).shown q id = if id ∈ ids then none else s.shown q id := by
  unfold shown
  rw [StoreEdit.get?_apply, StoreEdit.onEntry]
  cases s.get? id with
  | none => simp
  | some e =>
    by_cases hid : id ∈ ids
    · cases horigin : e.origin with
      | derived => simp [hid, horigin]
      | curated => simp [hid, horigin, StoredEntity.isDerivedFor]
    · simp [hid]

/-- Entities of a path are written where no curated entry stands: they are shown, over those that
were shown before. -/
theorem shown_write (s : MemoryStore) (entities : List EmbeddedEntity) (path id : String)
    (hpath : ∀ e ∈ entities, e.entity.filePath = path)
    (hnodup : (entities.map (·.entity.id)).Nodup)
    (hfree : ∀ e ∈ entities, s.isCurated e.entity.id = false) :
    ((StoreEdit.write entities).apply s).shown path id =
      (entityOf (entities.map (·.entity)) id).or (s.shown path id) := by
  have hnodup' : ((entities.map (·.entity)).map (·.id)).Nodup := by
    rw [List.map_map]
    exact hnodup
  unfold shown
  rw [StoreEdit.get?_apply, StoreEdit.onEntry]
  cases hwritten : StoreEdit.written entities id with
  | none =>
    have hnone : entityOf (entities.map (·.entity)) id = none := by
      rw [entityOf_none]
      intro x hx
      obtain ⟨e, he, rfl⟩ := List.mem_map.mp hx
      exact (written_none entities id).mp hwritten e he
    rw [hnone, Option.none_or, Option.none_or, ite_self]
  | some x =>
    obtain ⟨e, he, rfl, rfl⟩ := written_some entities id x hwritten
    have hopen : (s.get? e.entity.id).any (·.origin == .curated) = false := hfree e he
    have hderived : (⟨e.entity, e.vector, .derived⟩ : StoredEntity).isDerivedFor path = true :=
      (isDerivedFor_iff _ path).mpr ⟨rfl, hpath e he⟩
    rw [entityOf_mem _ hnodup' e.entity (List.mem_map_of_mem he), hopen, Option.some_or,
      Option.some_or, if_neg Bool.false_ne_true, Option.filter_some, if_pos hderived]
    rfl

end MemoryStore

end CodeIndex
