import Mathlib.Data.List.Dedup
import Mathlib.Data.List.Perm.Subperm
import CodeIndex.Proofs.Points.Payload
import CodeIndex.Proofs.Points.Uuid
import CodeIndex.Proofs.Store.Memory

/-!
The store of points beside the store in memory. An ideal service that holds the points of the
entries of a store in memory answers every call as that store does, and afterwards it holds the
points of the entries that are left.
-/

namespace CodeIndex

namespace MemoryStore

theorem foldl_insert_toList (s : MemoryStore) :
    (⟨s.toList.foldl (fun m entry => m.insert entry.1 entry.2) ∅⟩ : MemoryStore) = s := by
  apply ext_get?
  intro id
  unfold get?
  rw [← Std.ExtTreeMap.ofList_eq_foldl]
  cases hget : s.entries[id]? with
  | none =>
    apply Std.ExtTreeMap.getElem?_ofList_of_contains_eq_false
    unfold toList
    rw [Std.ExtTreeMap.map_fst_toList_eq_keys, Std.ExtTreeMap.contains_keys,
      Std.ExtTreeMap.contains_eq_isSome_getElem?, hget]
    rfl
  | some e =>
    exact Std.ExtTreeMap.getElem?_ofList_of_mem Std.ReflCmp.compare_self
      Std.ExtTreeMap.distinct_keys_toList
      (Std.ExtTreeMap.mem_toList_iff_getElem?_eq_some.mpr hget)

end MemoryStore

namespace Point

theorem holds_path (path uuid : String) (e : StoredEntity) :
    (PointCondition.keyword "file_path" path).holds uuid (ofStored e) =
      (e.entity.filePath == path) := by
  have hpath : (ofStored e).payload["file_path"]? = some (.text e.entity.filePath) :=
    payloadOf_path e.entity e.origin
  rw [PointCondition.holds, hpath, Bool.eq_iff_iff, beq_iff_eq, beq_iff_eq, Option.some.injEq,
    PayloadValue.text.injEq]

theorem holds_curated (uuid : String) (e : StoredEntity) :
    curated.holds uuid (ofStored e) = (e.origin == .curated) := by
  have horigin : (ofStored e).payload["origin"]? = some (.text e.origin.name) :=
    payloadOf_origin e.entity e.origin
  rw [curated, PointCondition.holds, horigin]
  cases e.origin <;> decide

theorem holds_hasId (uuids : List String) (uuid : String) (p : Point) :
    (PointCondition.hasId uuids).holds uuid p = uuids.contains uuid := rfl

theorem not_curated (e : StoredEntity) : (!e.origin == .curated) = (e.origin == .derived) := by
  cases e.origin <;> rfl

/-- The service's choice of the derived points of a path is that of the entries. -/
theorem derivedFor_chooses (path uuid : String) (e : StoredEntity) :
    (derivedFor path).chooses uuid (ofStored e) = e.isDerivedFor path := by
  unfold PointFilter.chooses derivedFor StoredEntity.isDerivedFor
  simp only [List.all_cons, List.all_nil, List.any_cons, List.any_nil, Bool.and_true,
    Bool.or_false, holds_path, holds_curated, not_curated]
  exact Bool.and_comm _ _

theorem derivedAmong_chooses (uuids : List String) (uuid : String) (e : StoredEntity) :
    (derivedAmong uuids).chooses uuid (ofStored e) =
      (uuids.contains uuid && e.origin == .derived) := by
  unfold PointFilter.chooses derivedAmong
  simp only [List.all_cons, List.all_nil, List.any_cons, List.any_nil, Bool.and_true,
    Bool.or_false, holds_curated, not_curated, holds_hasId]

theorem curatedAmong_chooses (uuids : List String) (uuid : String) (e : StoredEntity) :
    (curatedAmong uuids).chooses uuid (ofStored e) =
      (uuids.contains uuid && e.origin == .curated) := by
  unfold PointFilter.chooses curatedAmong
  simp only [List.all_cons, List.all_nil, List.any_nil, Bool.and_true, Bool.not_false,
    holds_curated, holds_hasId]

end Point

/-- A table holds the points of the entries of a store, each under the UUID of its id. -/
structure Mirrors (t : PointTable) (s : MemoryStore) : Prop where
  ids : ∀ id e, s.get? id = some e → Uuid.IsId id
  points : ∀ uuid p, t[uuid]? = some p ↔
    ∃ id e, s.get? id = some e ∧ Uuid.pointOf id = uuid ∧ Point.ofStored e = p

namespace Mirrors

variable {t : PointTable} {s : MemoryStore}

/-- Under the UUID of an id stands the point of the entry with that id. -/
theorem getElem?_pointOf (h : Mirrors t s) (id : String) (hid : Uuid.IsId id) :
    t[Uuid.pointOf id]? = (s.get? id).map Point.ofStored := by
  apply Option.ext
  intro p
  rw [h.points, Option.map_eq_some_iff]
  constructor
  · rintro ⟨id', e, hget, hpoint, hp⟩
    have hsame : id' = id := Uuid.pointOf_injective id' id (h.ids id' e hget) hid hpoint
    exact ⟨e, hsame ▸ hget, hp⟩
  · rintro ⟨e, hget, hp⟩
    exact ⟨id, e, hget, rfl, hp⟩

theorem insert (h : Mirrors t s) (id : String) (hid : Uuid.IsId id) (e : StoredEntity) :
    Mirrors (t.insert (Uuid.pointOf id) (Point.ofStored e)) ⟨s.entries.insert id e⟩ := by
  have hget (id' : String) : (⟨s.entries.insert id e⟩ : MemoryStore).get? id' =
      if id = id' then some e else s.get? id' := by
    simp only [MemoryStore.get?, Std.ExtTreeMap.getElem?_insert,
      Std.LawfulEqCmp.compare_eq_iff_eq]
  refine ⟨?_, ?_⟩
  · intro id' e' he'
    rw [hget] at he'
    split at he'
    · rename_i hsame
      exact hsame ▸ hid
    · exact h.ids id' e' he'
  · intro uuid p
    rw [Std.ExtTreeMap.getElem?_insert]
    simp only [Std.LawfulEqCmp.compare_eq_iff_eq, hget]
    by_cases huuid : Uuid.pointOf id = uuid
    · rw [if_pos huuid]
      constructor
      · intro hp
        exact ⟨id, e, if_pos rfl, huuid, Option.some.inj hp⟩
      · rintro ⟨id', e', he', hpoint, hp⟩
        -- the new point is that of no other entry
        by_cases hsame : id = id'
        · rw [if_pos hsame] at he'
          rw [Option.some.inj he', hp]
        · rw [if_neg hsame] at he'
          have hids := h.ids id' e' he'
          exact absurd (Uuid.pointOf_injective id id' hid hids (huuid.trans hpoint.symm)) hsame
    · rw [if_neg huuid, h.points]
      constructor
      · rintro ⟨id', e', he', hpoint, hp⟩
        have hother : id ≠ id' := fun hsame => huuid (hsame ▸ hpoint)
        exact ⟨id', e', by rw [if_neg hother]; exact he', hpoint, hp⟩
      · rintro ⟨id', e', he', hpoint, hp⟩
        have hother : id ≠ id' := fun hsame => huuid (hsame ▸ hpoint)
        rw [if_neg hother] at he'
        exact ⟨id', e', he', hpoint, hp⟩

theorem filter (h : Mirrors t s) (keepPoint : String → Point → Bool)
    (keep : String → StoredEntity → Bool)
    (hkeep : ∀ id e, s.get? id = some e →
      keepPoint (Uuid.pointOf id) (Point.ofStored e) = keep id e) :
    Mirrors (t.filter keepPoint) ⟨s.entries.filter keep⟩ := by
  have hget (id : String) :
      (⟨s.entries.filter keep⟩ : MemoryStore).get? id = (s.get? id).filter (keep id) :=
    Std.ExtTreeMap.getElem?_filter'
  refine ⟨?_, ?_⟩
  · intro id e he
    rw [hget, Option.filter_eq_some_iff] at he
    exact h.ids id e he.1
  · intro uuid p
    rw [Std.ExtTreeMap.getElem?_filter', Option.filter_eq_some_iff, h.points]
    constructor
    · rintro ⟨⟨id, e, he, rfl, rfl⟩, hp⟩
      refine ⟨id, e, ?_, rfl, rfl⟩
      rw [hget, Option.filter_eq_some_iff]
      exact ⟨he, (hkeep id e he).symm.trans hp⟩
    · rintro ⟨id, e, he, rfl, rfl⟩
      rw [hget, Option.filter_eq_some_iff] at he
      exact ⟨⟨id, e, he.1, rfl, rfl⟩, (hkeep id e he.1).trans he.2⟩

theorem map (h : Mirrors t s) (changePoint : String → Point → Point)
    (change : String → StoredEntity → StoredEntity)
    (hchange : ∀ id e,
      changePoint (Uuid.pointOf id) (Point.ofStored e) = Point.ofStored (change id e)) :
    Mirrors (t.map changePoint) ⟨s.entries.map change⟩ := by
  have hget (id : String) :
      (⟨s.entries.map change⟩ : MemoryStore).get? id = (s.get? id).map (change id) :=
    Std.ExtTreeMap.getElem?_map
  refine ⟨?_, ?_⟩
  · intro id e he
    rw [hget, Option.map_eq_some_iff] at he
    obtain ⟨e', he', -⟩ := he
    exact h.ids id e' he'
  · intro uuid p
    rw [Std.ExtTreeMap.getElem?_map, Option.map_eq_some_iff]
    simp only [h.points, hget, Option.map_eq_some_iff]
    constructor
    · rintro ⟨_, ⟨id, e, he, rfl, rfl⟩, rfl⟩
      exact ⟨id, change id e, ⟨e, he, rfl⟩, rfl, (hchange id e).symm⟩
    · rintro ⟨id, _, ⟨e, he, rfl⟩, rfl, rfl⟩
      exact ⟨_, ⟨id, e, he, rfl, rfl⟩, hchange id e⟩

/-- The points that a filter chooses are those of the entries that it would choose. -/
theorem chosen_perm (h : Mirrors t s) (f : PointFilter) :
    (t.chosen f).Perm (((s.toList.filter fun entry =>
      f.chooses (Uuid.pointOf entry.1) (Point.ofStored entry.2)).map (·.1)).map Uuid.pointOf) := by
  have hmem (id : String) : id ∈ (s.toList.filter fun entry =>
      f.chooses (Uuid.pointOf entry.1) (Point.ofStored entry.2)).map (·.1) ↔
      ∃ e, s.get? id = some e ∧ f.chooses (Uuid.pointOf id) (Point.ofStored e) = true := by
    rw [List.mem_map]
    constructor
    · rintro ⟨⟨id, e⟩, hentry, rfl⟩
      obtain ⟨hlist, hchosen⟩ := List.mem_filter.mp hentry
      exact ⟨e, Std.ExtTreeMap.mem_toList_iff_getElem?_eq_some.mp hlist, hchosen⟩
    · rintro ⟨e, hget, hchosen⟩
      have hlist : (id, e) ∈ s.toList := Std.ExtTreeMap.mem_toList_iff_getElem?_eq_some.mpr hget
      exact ⟨(id, e), List.mem_filter.mpr ⟨hlist, hchosen⟩, rfl⟩
  have hkeys : ((s.toList.filter fun entry =>
      f.chooses (Uuid.pointOf entry.1) (Point.ofStored entry.2)).map (·.1)).Nodup := by
    have hall : (s.toList.map (·.1)).Nodup := by
      unfold MemoryStore.toList
      rw [Std.ExtTreeMap.map_fst_toList_eq_keys]
      exact Std.ExtTreeMap.nodup_keys
    exact hall.sublist (List.filter_sublist.map _)
  have hpoints := hkeys.map_on (f := Uuid.pointOf) fun a ha b hb hab => by
    obtain ⟨ea, hea, -⟩ := (hmem a).mp ha
    obtain ⟨eb, heb, -⟩ := (hmem b).mp hb
    exact Uuid.pointOf_injective a b (h.ids a ea hea) (h.ids b eb heb) hab
  -- neither list names a point twice, so that the points on them decide
  apply (List.perm_ext_iff_of_nodup Std.ExtTreeMap.nodup_keys hpoints).mpr
  intro uuid
  rw [Std.ExtTreeMap.mem_keys, Std.ExtTreeMap.mem_iff_isSome_getElem?,
    Std.ExtTreeMap.getElem?_filter', Option.isSome_iff_exists, List.mem_map]
  simp only [Option.filter_eq_some_iff, h.points, hmem]
  constructor
  · rintro ⟨_, ⟨id, e, hget, rfl, rfl⟩, hchosen⟩
    exact ⟨id, ⟨e, hget, hchosen⟩, rfl⟩
  · rintro ⟨id, ⟨e, hget, hchosen⟩, rfl⟩
    exact ⟨_, ⟨id, e, hget, rfl, rfl⟩, hchosen⟩

theorem chosen_length (h : Mirrors t s) (f : PointFilter) :
    (t.chosen f).length = (s.toList.filter fun entry =>
      f.chooses (Uuid.pointOf entry.1) (Point.ofStored entry.2)).length := by
  rw [(h.chosen_perm f).length_eq, List.length_map, List.length_map]

theorem chosen_derivedFor (h : Mirrors t s) (path : String) :
    (t.chosen (Point.derivedFor path)).length = s.countForPath path := by
  rw [h.chosen_length]
  unfold MemoryStore.countForPath MemoryStore.derivedFor
  simp only [Point.derivedFor_chooses]

/-- Entities are UUIDs' among those of some ids exactly if their ids are among them. -/
theorem contains_pointOf (h : Mirrors t s) (ids : List String) (hids : ∀ id ∈ ids, Uuid.IsId id)
    (id : String) (e : StoredEntity) (hget : s.get? id = some e) :
    (ids.map Uuid.pointOf).contains (Uuid.pointOf id) = ids.contains id := by
  rw [Bool.eq_iff_iff, List.contains_iff_mem, List.contains_iff_mem, List.mem_map]
  constructor
  · rintro ⟨id', hmem, hsame⟩
    have heq := Uuid.pointOf_injective id' id (hids id' hmem) (h.ids id e hget) hsame
    exact heq ▸ hmem
  · intro hmem
    exact ⟨id, hmem, rfl⟩

theorem deleteByPath (h : Mirrors t s) (path : String) :
    Mirrors (t.filter fun uuid p => !(Point.derivedFor path).chooses uuid p)
      (s.deleteByPath path) :=
  h.filter _ (fun _ e => !e.isDerivedFor path) fun id e _ => by
    rw [Point.derivedFor_chooses]

theorem updatePath (h : Mirrors t s) (source target : String) :
    Mirrors (t.map fun uuid p =>
        if (Point.derivedFor source).chooses uuid p then
          { p with payload := (PointTable.merge p.payload
            (Std.ExtTreeMap.ofList [("file_path", PayloadValue.text target)])) }
        else p)
      (s.updatePath source target) := by
  apply h.map
  intro id e
  rw [Point.derivedFor_chooses]
  split
  · unfold Point.ofStored
    rw [Point.payloadOf_move]
  · rfl

theorem deleteIds (h : Mirrors t s) (ids : List String) (hids : ∀ id ∈ ids, Uuid.IsId id) :
    Mirrors (t.filter fun uuid p =>
        !(Point.derivedAmong (ids.map Uuid.pointOf)).chooses uuid p)
      (s.deleteIds ids).2 := by
  rw [MemoryStore.deleteIds_eq_filter]
  apply h.filter
  intro id e hget
  rw [Point.derivedAmong_chooses, h.contains_pointOf ids hids id e hget]

theorem mem_chosen (h : Mirrors t s) (f : PointFilter) (id : String) (hid : Uuid.IsId id) :
    Uuid.pointOf id ∈ t.chosen f ↔
      ∃ e, s.get? id = some e ∧ f.chooses (Uuid.pointOf id) (Point.ofStored e) = true := by
  unfold PointTable.chosen
  rw [Std.ExtTreeMap.mem_keys, Std.ExtTreeMap.mem_iff_isSome_getElem?,
    Std.ExtTreeMap.getElem?_filter', h.getElem?_pointOf id hid]
  cases s.get? id with
  | none => simp
  | some e => simp [Option.filter_some]

/-- Among points of some ids those are curated whose entries are. -/
theorem mem_curatedAmong (h : Mirrors t s) (ids : List String) (id : String) (hmem : id ∈ ids)
    (hid : Uuid.IsId id) :
    (t.chosen (Point.curatedAmong (ids.map Uuid.pointOf))).contains (Uuid.pointOf id) =
      s.isCurated id := by
  rw [Bool.eq_iff_iff, List.contains_iff_mem, h.mem_chosen _ id hid]
  unfold MemoryStore.isCurated
  rw [Option.any_eq_true]
  have hamong : (ids.map Uuid.pointOf).contains (Uuid.pointOf id) = true :=
    List.contains_iff_mem.mpr (List.mem_map_of_mem hmem)
  simp only [Point.curatedAmong_chooses, hamong, Bool.true_and]

/-- Curated points among some ids are no more than there are curated ids. -/
theorem curatedAmong_length (h : Mirrors t s) (ids : List String)
    (hids : ∀ id ∈ ids, Uuid.IsId id) :
    (t.chosen (Point.curatedAmong (ids.map Uuid.pointOf))).length ≤
      (ids.dedup.filter s.isCurated).length := by
  have hsub : t.chosen (Point.curatedAmong (ids.map Uuid.pointOf)) ⊆
      (ids.dedup.filter s.isCurated).map Uuid.pointOf := by
    intro uuid huuid
    have hfound := (h.chosen_perm _).mem_iff.mp huuid
    obtain ⟨_, hkey, rfl⟩ := List.mem_map.mp hfound
    obtain ⟨⟨id, e⟩, hentry, rfl⟩ := List.mem_map.mp hkey
    obtain ⟨hlist, hchosen⟩ := List.mem_filter.mp hentry
    dsimp only at hchosen
    have hget : s.get? id = some e := Std.ExtTreeMap.mem_toList_iff_getElem?_eq_some.mp hlist
    rw [Point.curatedAmong_chooses, h.contains_pointOf ids hids id e hget, Bool.and_eq_true,
      List.contains_iff_mem] at hchosen
    refine List.mem_map_of_mem (List.mem_filter.mpr ⟨List.mem_dedup.mpr hchosen.1, ?_⟩)
    unfold MemoryStore.isCurated
    rw [hget]
    exact hchosen.2
  have hnodup : (t.chosen (Point.curatedAmong (ids.map Uuid.pointOf))).Nodup :=
    Std.ExtTreeMap.nodup_keys
  have hle := (List.subperm_of_subset hnodup hsub).length_le
  rw [List.length_map] at hle
  exact hle

/-- Writing entities and writing their points, where what is curated is known beforehand. -/
theorem upsert (h : Mirrors t s) (curated : String → Bool)
    (hcurated : ∀ id, s.isCurated id = curated id) (entities : List EmbeddedEntity)
    (hids : ∀ e ∈ entities, Uuid.IsId e.entity.id) :
    Mirrors ((entities.filter fun e => !curated e.entity.id).foldl
        (fun t e => t.insert (Uuid.pointOf e.entity.id) (Point.ofEmbedded e)) t)
      (s.upsert entities) := by
  -- the induction is on the entities; what is curated stays so while they are written
  induction entities generalizing t s with
  | nil => exact h
  | cons e rest ih =>
    have hrest : ∀ e ∈ rest, Uuid.IsId e.entity.id :=
      fun e he => hids e (List.mem_cons_of_mem _ he)
    have hstays : ∀ id, (s.upsertOne e).isCurated id = curated id := by
      intro id
      rw [← hcurated id]
      exact s.isCurated_apply (.write [e]) id
    have hnext : s.upsert (e :: rest) = (s.upsertOne e).upsert rest := rfl
    rw [hnext]
    cases he : curated e.entity.id with
    | true =>
      have hsame : s.upsertOne e = s := if_pos ((hcurated _).trans he)
      rw [List.filter_cons_of_neg (by rw [he]; decide), hsame]
      exact ih h hcurated hrest
    | false =>
      have hnew : s.upsertOne e =
          ⟨s.entries.insert e.entity.id ⟨e.entity, e.vector, .derived⟩⟩ := by
        apply if_neg
        rw [hcurated, he]
        exact Bool.false_ne_true
      rw [List.filter_cons_of_pos (by rw [he]; decide), List.foldl_cons]
      rw [hnew] at hstays ⊢
      exact ih (h.insert _ (hids e List.mem_cons_self) ⟨e.entity, e.vector, .derived⟩) hstays hrest

theorem chosen_derivedAmong (h : Mirrors t s) (ids : List String)
    (hids : ∀ id ∈ ids, Uuid.IsId id) :
    (t.chosen (Point.derivedAmong (ids.map Uuid.pointOf))).length = (s.deleteIds ids).1 := by
  rw [h.chosen_length, s.deleteIds_count]
  apply congrArg List.length
  apply List.filter_congr
  rintro ⟨id, e⟩ hentry
  have hget : s.get? id = some e := Std.ExtTreeMap.mem_toList_iff_getElem?_eq_some.mp hentry
  rw [Point.derivedAmong_chooses, h.contains_pointOf ids hids id e hget]

theorem empty : Mirrors ∅ {} := by
  have hnone (id : String) : ({} : MemoryStore).get? id = none := Std.ExtTreeMap.getElem?_empty
  refine ⟨?_, ?_⟩
  · intro id e he
    rw [hnone] at he
    cases he
  · intro uuid p
    simp [hnone]

/-- Writing entries one after another and writing their points. -/
theorem insertAll (h : Mirrors t s) (entries : List (String × StoredEntity))
    (hids : ∀ entry ∈ entries, Uuid.IsId entry.1) :
    Mirrors
      (entries.foldl (fun t entry => t.insert (Uuid.pointOf entry.1) (Point.ofStored entry.2)) t)
      ⟨entries.foldl (fun m entry => m.insert entry.1 entry.2) s.entries⟩ := by
  induction entries generalizing t s with
  | nil => exact h
  | cons entry rest ih =>
    have hfirst := h.insert entry.1 (hids entry List.mem_cons_self) entry.2
    exact ih hfirst fun entry hentry => hids entry (List.mem_cons_of_mem _ hentry)

end Mirrors

def PointTable.ofEntries (s : MemoryStore) : PointTable :=
  s.toList.foldl (fun t entry => t.insert (Uuid.pointOf entry.1) (Point.ofStored entry.2)) ∅

theorem PointTable.ofEntries_mirrors (s : MemoryStore)
    (hids : ∀ id e, s.get? id = some e → Uuid.IsId id) : Mirrors (PointTable.ofEntries s) s := by
  have hlisted : ∀ entry ∈ s.toList, Uuid.IsId entry.1 := fun entry hentry =>
    hids entry.1 entry.2 (Std.ExtTreeMap.mem_toList_iff_getElem?_eq_some.mp hentry)
  have hmirrors := Mirrors.empty.insertAll s.toList hlisted
  rw [MemoryStore.foldl_insert_toList] at hmirrors
  exact hmirrors

end CodeIndex
