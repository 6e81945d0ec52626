import CodeIndex.Points.Store
import CodeIndex.Proofs.Points.Mirror

/-!
Requests to the store of points and to the store in memory. While the table of the service mirrors
the store in memory, both answer a request alike, and the table mirrors the store again.
-/

namespace CodeIndex

/-- A call of a store with what it is given: an edit, or a question for a number. -/
inductive StoreRequest where
  | edit (edit : StoreEdit)
  | count (path : String)
deriving DecidableEq

namespace StoreRequest

def send {σ : Type} (store : VectorStore σ) : StoreRequest → StoreM σ (Option Nat)
  | .edit (.write entities) => do store.upsert entities; return none
  | .edit (.clear path) => do return some (← store.deleteByPath path)
  | .edit (.drop ids) => do return some (← store.deleteIds ids)
  | .edit (.move source target) => do return some (← store.updatePath source target)
  | .count path => do return some (← store.countForPath path)

/-- The answers of a store to one request after another, each with the state after it. -/
def trace {σ : Type} (store : VectorStore σ) :
    List StoreRequest → σ → List (Except StoreError (Option Nat) × σ)
  | [], _ => []
  | r :: rs, s => (r.send store).run s :: trace store rs ((r.send store).run s).2

/-- The ids of the entities that a request writes. -/
def written : StoreRequest → List String
  | .edit (.write entities) => entities.map (·.entity.id)
  | _ => []

/-- The ids that a request names. -/
def named : StoreRequest → List String
  | .edit (.drop ids) => ids
  | r => r.written

def answer (s : MemoryStore) : StoreRequest → Option Nat
  | .edit (.write _) => none
  | .edit (.clear path) => some (s.countForPath path)
  | .edit (.drop ids) => some (s.deleteIds ids).1
  | .edit (.move source _) => some (s.countForPath source)
  | .count path => some (s.countForPath path)

/-- The store in memory after a request. -/
def after (s : MemoryStore) : StoreRequest → MemoryStore
  | .edit e => e.apply s
  | .count _ => s

theorem send_memory (r : StoreRequest) (s : MemoryStore) :
    (r.send MemoryStore.calls).run s = (.ok (r.answer s), r.after s) := by
  cases r with
  | edit e => cases e <;> rfl
  | count path => rfl

/-- No request makes an entry curated, or takes a curated one away. -/
theorem isCurated_after (r : StoreRequest) (s : MemoryStore) (id : String) :
    (r.after s).isCurated id = s.isCurated id := by
  cases r with
  | edit e => exact s.isCurated_apply e id
  | count path => rfl

end StoreRequest

theorem pointIds_ok (ids : List String) (hids : ∀ id ∈ ids, Uuid.IsId id) :
    PointStore.pointIds ids = .ok (ids.map Uuid.pointOf) := by
  unfold PointStore.pointIds
  induction ids with
  | nil => rfl
  | cons id rest ih =>
    have hrest := ih fun id hid => hids id (List.mem_cons_of_mem _ hid)
    rw [List.mapM_cons, Uuid.canonical_of_isId id (hids id List.mem_cons_self), hrest]
    rfl

theorem StoreM.run_bind_ok {σ α β : Type} (x : StoreM σ α) (k : α → StoreM σ β) (s t : σ) (a : α)
    (hx : x.run s = (.ok a, t)) : (x >>= k).run s = (k a).run t := by
  change ExceptT.bindCont k (x.run s).1 (x.run s).2 = _
  rw [hx]
  rfl

namespace PointStore

variable (collection : String) (t : PointTable)

theorem countMatching_run (f : PointFilter) :
    (countMatching (PointTable.service collection) f).run t = (.ok (t.chosen f).length, t) := rfl

theorem unchosen (f : PointFilter) (hnone : (t.chosen f).length = 0) (uuid : String) (p : Point)
    (hp : t[uuid]? = some p) : f.chooses uuid p = false := by
  rw [← Bool.not_eq_true]
  intro hchosen
  have hkey : uuid ∈ t.chosen f := by
    unfold PointTable.chosen
    rw [Std.ExtTreeMap.mem_keys, Std.ExtTreeMap.mem_iff_isSome_getElem?,
      Std.ExtTreeMap.getElem?_filter', hp, Option.filter_some, if_pos hchosen]
    rfl
  rw [List.length_eq_zero_iff.mp hnone] at hkey
  cases hkey

theorem deleteMatching_run (f : PointFilter) :
    (deleteMatching (PointTable.service collection) f).run t =
      (.ok (t.chosen f).length, t.filter fun uuid p => !f.chooses uuid p) := by
  unfold deleteMatching
  rw [StoreM.run_bind_ok _ _ _ _ _ (countMatching_run collection t f)]
  split
  · -- the request is not sent, and it would remove nothing
    rename_i hnone
    have hall : t.filter (fun uuid p => !f.chooses uuid p) = t := by
      rw [Std.ExtTreeMap.filter_eq_self_iff]
      intro uuid huuid
      have hpoint := Std.ExtTreeMap.getElem?_eq_some_getElem huuid
      rw [Std.ExtTreeMap.getKey_eq, unchosen t f hnone uuid _ hpoint]
      rfl
    rw [hall, hnone]
    rfl
  · rfl

def moved (f : PointFilter) (target : String) : PointTable :=
  t.map fun uuid p =>
    if f.chooses uuid p then
      { p with payload := (PointTable.merge p.payload
        (Std.ExtTreeMap.ofList [("file_path", PayloadValue.text target)])) }
    else p

theorem updatePath_run (source target : String) :
    (updatePath (PointTable.service collection) source target).run t =
      (.ok (t.chosen (Point.derivedFor source)).length,
        moved t (Point.derivedFor source) target) := by
  unfold updatePath
  rw [StoreM.run_bind_ok _ _ _ _ _ (countMatching_run collection t _)]
  split
  · rename_i hnone
    have hall : moved t (Point.derivedFor source) target = t := by
      apply Std.ExtTreeMap.ext_getElem?
      intro uuid
      unfold moved
      rw [Std.ExtTreeMap.getElem?_map]
      cases hp : t[uuid]? with
      | none => rfl
      | some p => rw [Option.map_some, unchosen t _ hnone uuid p hp, if_neg Bool.false_ne_true]
    rw [hall, hnone]
    rfl
  · rfl

/-- The points of entities are written, save for those whose ids are taken. -/
theorem upsert_run (entities : List EmbeddedEntity)
    (hids : ∀ e ∈ entities, Uuid.IsId e.entity.id)
    (hroom : (t.chosen (Point.curatedAmong
      ((entities.map (·.entity.id)).map Uuid.pointOf))).length ≤ min entities.length scrollLimit) :
    (upsert (PointTable.service collection) entities).run t =
      (.ok (), (entities.filter fun e => !(t.chosen (Point.curatedAmong
          ((entities.map (·.entity.id)).map Uuid.pointOf))).contains
            (Uuid.pointOf e.entity.id)).foldl
        (fun t e => t.insert (Uuid.pointOf e.entity.id) (Point.ofEmbedded e)) t) := by
  cases hentities : entities with
  | nil => rfl
  | cons first rest =>
    rw [← hentities]
    have hpoints : pointIds (entities.map (·.entity.id)) =
        .ok ((entities.map (·.entity.id)).map Uuid.pointOf) := by
      apply pointIds_ok
      intro id hid
      obtain ⟨e, he, rfl⟩ := List.mem_map.mp hid
      exact hids e he
    have hfull : entities.isEmpty = false := by
      rw [hentities]
      rfl
    have hasked : (ExceptT.mk (pure (pointIds (entities.map (·.entity.id)))) :
        StoreM PointTable (List String)).run t =
          (.ok ((entities.map (·.entity.id)).map Uuid.pointOf), t) := by
      rw [hpoints]
      rfl
    have hzip (keep : String → Bool) :
        (((entities.map (·.entity.id)).map Uuid.pointOf).zip
          (entities.map Point.ofEmbedded)).filter (fun point => keep point.1) =
        (entities.filter fun e => keep (Uuid.pointOf e.entity.id)).map fun e =>
          (Uuid.pointOf e.entity.id, Point.ofEmbedded e) := by
      rw [List.map_map, List.zip_map', List.filter_map]
      rfl
    -- from here on the points are known by their uuids
    generalize huuids : (entities.map (·.entity.id)).map Uuid.pointOf = uuids at *
    have hlength : uuids.length = entities.length := by
      rw [← huuids, List.length_map, List.length_map]
    have hscroll : (asked "Failed to look up curated points"
        ((PointTable.service collection).scroll (Point.curatedAmong uuids)
          (min uuids.length scrollLimit))).run t =
        (.ok (t.chosen (Point.curatedAmong uuids)), t) := by
      have hall := List.take_of_length_le (hlength ▸ hroom)
      exact congrArg (fun ids => (Except.ok ids, t)) hall
    unfold upsert
    rw [hfull, if_neg Bool.false_ne_true, StoreM.run_bind_ok _ _ _ _ _ hasked,
      StoreM.run_bind_ok _ _ _ _ _ hscroll]
    dsimp only
    have hwritten := hzip fun uuid => !(t.chosen (Point.curatedAmong uuids)).contains uuid
    generalize hchosen : t.chosen (Point.curatedAmong uuids) = curated at *
    rw [hwritten]
    -- nothing is sent when every id is taken
    split
    · rename_i hnone
      rw [List.isEmpty_iff, List.map_eq_nil_iff] at hnone
      rw [hnone]
      rfl
    · have hfold : ((entities.filter fun e =>
            !curated.contains (Uuid.pointOf e.entity.id)).map fun e =>
              (Uuid.pointOf e.entity.id, Point.ofEmbedded e)).foldl
            (fun t point => t.insert point.1 point.2) t = _ := List.foldl_map
      exact congrArg (fun t => (Except.ok (), t)) hfold

end PointStore

namespace Mirrors

variable {t : PointTable} {s : MemoryStore}

/-- A request is answered alike, and the table mirrors the store afterwards. -/
theorem send (h : Mirrors t s) (collection : String) (r : StoreRequest)
    (hids : ∀ id ∈ r.named, Uuid.IsId id)
    (hroom : (r.written.dedup.filter s.isCurated).length ≤ PointStore.scrollLimit) :
    ∃ t', (r.send (PointStore.calls (PointTable.service collection))).run t =
      (.ok (r.answer s), t') ∧ Mirrors t' (r.after s) := by
  cases r with
  | count path =>
    have hrun := PointStore.countMatching_run collection t (Point.derivedFor path)
    have hsent := StoreM.run_bind_ok _ (fun n => return some n) _ _ _ hrun
    rw [h.chosen_derivedFor] at hsent
    exact ⟨t, hsent, h⟩
  | edit e =>
    cases e with
    | clear path =>
      have hrun := PointStore.deleteMatching_run collection t (Point.derivedFor path)
      have hsent := StoreM.run_bind_ok _ (fun n => return some n) _ _ _ hrun
      rw [h.chosen_derivedFor] at hsent
      exact ⟨_, hsent, h.deleteByPath path⟩
    | move source target =>
      have hrun := PointStore.updatePath_run collection t source target
      have hsent := StoreM.run_bind_ok _ (fun n => return some n) _ _ _ hrun
      rw [h.chosen_derivedFor] at hsent
      exact ⟨_, hsent, h.updatePath source target⟩
    | drop ids =>
      -- without ids nothing is sent
      cases hempty : ids.isEmpty with
      | true =>
        rw [List.isEmpty_iff] at hempty
        rw [hempty]
        exact ⟨t, rfl, h⟩
      | false =>
        have hpoints : (ExceptT.mk (pure (PointStore.pointIds ids)) :
            StoreM PointTable (List String)).run t = (.ok (ids.map Uuid.pointOf), t) := by
          rw [pointIds_ok ids hids]
          rfl
        have hrun := PointStore.deleteMatching_run collection t
          (Point.derivedAmong (ids.map Uuid.pointOf))
        rw [h.chosen_derivedAmong ids hids] at hrun
        refine ⟨_, ?_, h.deleteIds ids hids⟩
        apply (StoreM.run_bind_ok _ (fun n => return some n) t _ (s.deleteIds ids).1 ?_).trans rfl
        unfold PointStore.calls
        dsimp only
        rw [hempty, if_neg Bool.false_ne_true, StoreM.run_bind_ok _ _ _ _ _ hpoints, hrun]
    | write entities =>
      have hentities : ∀ e ∈ entities, Uuid.IsId e.entity.id :=
        fun e he => hids _ (List.mem_map_of_mem he)
      -- as many curated points as there may be are found at once, so that none is overlooked
      have hlisted : (t.chosen (Point.curatedAmong
          ((entities.map (·.entity.id)).map Uuid.pointOf))).length ≤
            min entities.length PointStore.scrollLimit := by
        have hnamed : ∀ id ∈ entities.map (·.entity.id), Uuid.IsId id := hids
        have hcurated := h.curatedAmong_length (entities.map (·.entity.id)) hnamed
        have hdistinct : ((entities.map (·.entity.id)).dedup.filter s.isCurated).length ≤
            entities.length := by
          have hsub := (List.filter_sublist (p := s.isCurated)).trans
            (List.dedup_sublist (entities.map (·.entity.id)))
          simpa using hsub.length_le
        exact Nat.le_min.mpr ⟨Nat.le_trans hcurated hdistinct, Nat.le_trans hcurated hroom⟩
      have hrun := PointStore.upsert_run collection t entities hentities hlisted
      have hfree : (entities.filter fun e => !(t.chosen (Point.curatedAmong
          ((entities.map (·.entity.id)).map Uuid.pointOf))).contains
            (Uuid.pointOf e.entity.id)) =
          entities.filter fun e => !s.isCurated e.entity.id := by
        apply List.filter_congr
        intro e he
        rw [h.mem_curatedAmong _ _ (List.mem_map_of_mem he) (hentities e he)]
      rw [hfree] at hrun
      have hsent := StoreM.run_bind_ok _ (fun _ => return (none : Option Nat)) _ _ _ hrun
      exact ⟨_, hsent, h.upsert s.isCurated (fun _ => rfl) entities hentities⟩

end Mirrors

/-- Two stores gave the same answer, and the table of one mirrors the other. -/
def Agree (a : Except StoreError (Option Nat) × PointTable)
    (b : Except StoreError (Option Nat) × MemoryStore) : Prop :=
  (∃ answer, a.1 = .ok answer ∧ b.1 = .ok answer) ∧ Mirrors a.2 b.2

/-- From a table that mirrors a store in memory, the store of points answers every request as the
store in memory does, and after each request its table mirrors that store again. One request lists
2^32 - 1 points at most, which is why no write names more curated ids than that. -/
theorem points_agree_with_memory (collection : String) (t : PointTable) (s : MemoryStore)
    (h : Mirrors t s) (requests : List StoreRequest)
    (hids : ∀ r ∈ requests, ∀ id ∈ r.named, Uuid.IsId id)
    (hroom : ∀ r ∈ requests,
      (r.written.dedup.filter s.isCurated).length ≤ PointStore.scrollLimit) :
    List.Forall₂ Agree
      (StoreRequest.trace (PointStore.calls (PointTable.service collection)) requests t)
      (StoreRequest.trace MemoryStore.calls requests s) := by
  induction requests generalizing t s with
  | nil => exact .nil
  | cons r rest ih =>
    obtain ⟨t', hsent, hnext⟩ := h.send collection r (hids r List.mem_cons_self)
      (hroom r List.mem_cons_self)
    have hmemory := r.send_memory s
    have hrest := ih t' (r.after s) hnext (fun r hr => hids r (List.mem_cons_of_mem _ hr)) <| by
      intro r' hr'
      rw [funext (r.isCurated_after s)]
      exact hroom r' (List.mem_cons_of_mem _ hr')
    rw [StoreRequest.trace, StoreRequest.trace, hsent, hmemory]
    exact .cons ⟨⟨r.answer s, rfl, rfl⟩, hnext⟩ hrest

def sampleEntity (id path : String) : Entity :=
  ⟨id, path, .function, "f", ⟨1, 1⟩, "", .full, none, none, "f"⟩

def sampleEntries : MemoryStore :=
  let derived := ({} : MemoryStore).upsert
    [⟨sampleEntity "0a0a0a0a0a0a0a0a0a0a0a0a0a0a0a0a" "a.py", [1]⟩]
  derived.insertCurated (sampleEntity "0b0b0b0b0b0b0b0b0b0b0b0b0b0b0b0b" "a.py") [2]

/-- A new entity and one with a curated id are written; then entries are moved and removed, one of
them named twice. -/
def sampleRequests : List StoreRequest :=
  [.edit (.write [⟨sampleEntity "0c0c0c0c0c0c0c0c0c0c0c0c0c0c0c0c" "a.py", [3]⟩,
      ⟨sampleEntity "0b0b0b0b0b0b0b0b0b0b0b0b0b0b0b0b" "a.py", [4]⟩]),
    .count "a.py", .edit (.move "a.py" "b.py"),
    .edit (.drop ["0a0a0a0a0a0a0a0a0a0a0a0a0a0a0a0a", "0a0a0a0a0a0a0a0a0a0a0a0a0a0a0a0a",
      "0b0b0b0b0b0b0b0b0b0b0b0b0b0b0b0b"]),
    .edit (.clear "b.py")]

theorem sampleEntries_ids (id : String) (e : StoredEntity) (h : sampleEntries.get? id = some e) :
    Uuid.IsId id := by
  have hkeys : ∀ id ∈ sampleEntries.entries.keys, Uuid.IsId id := by decide
  apply hkeys
  rw [Std.ExtTreeMap.mem_keys, Std.ExtTreeMap.mem_iff_isSome_getElem?]
  exact Option.isSome_iff_exists.mpr ⟨e, h⟩

theorem sample_points_agree :
    Mirrors (PointTable.ofEntries sampleEntries) sampleEntries ∧
    (∀ r ∈ sampleRequests, ∀ id ∈ r.named, Uuid.IsId id) ∧
    (∀ r ∈ sampleRequests,
      (r.written.dedup.filter sampleEntries.isCurated).length ≤ PointStore.scrollLimit) ∧
    List.Forall₂ Agree
      (StoreRequest.trace (PointStore.calls (PointTable.service "code")) sampleRequests
        (PointTable.ofEntries sampleEntries))
      (StoreRequest.trace MemoryStore.calls sampleRequests sampleEntries) := by
  have hmirrors := PointTable.ofEntries_mirrors sampleEntries sampleEntries_ids
  have hids : ∀ r ∈ sampleRequests, ∀ id ∈ r.named, Uuid.IsId id := by decide
  have hroom : ∀ r ∈ sampleRequests,
      (r.written.dedup.filter sampleEntries.isCurated).length ≤ PointStore.scrollLimit := by decide
  exact ⟨hmirrors, hids, hroom,
    points_agree_with_memory "code" _ sampleEntries hmirrors sampleRequests hids hroom⟩

example : (StoreRequest.trace MemoryStore.calls sampleRequests sampleEntries).map (·.1) =
    [.ok none, .ok (some 2), .ok (some 2), .ok (some 1), .ok (some 1)] := by rfl

end CodeIndex
