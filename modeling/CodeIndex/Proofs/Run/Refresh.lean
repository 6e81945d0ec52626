import CodeIndex.Proofs.Run.Filling
import CodeIndex.Proofs.Store.Shown

/-!
What the store shows of a file that is indexed again. Entities whose identity was stored before are
left out of the update, so they are shown as they were then; the identity does not depend on the
scope, the signature or the last line.
-/

namespace CodeIndex

/-- The digests of two versions of a file do not collide. -/
structure ToldApart (lineage : String) (variants : List ChunkVariant)
    (old new : List ExtractedEntity) : Prop where
  ids : ∀ a ∈ old, ∀ b ∈ new, ∀ v ∈ variants, ∀ v' ∈ variants,
    entityId lineage a.kind a.name a.span.startLine v (Digest.textHash a.text) =
      entityId lineage b.kind b.name b.span.startLine v' (Digest.textHash b.text) →
    identityFields lineage a.kind a.name a.span.startLine v (Digest.textHash a.text) =
      identityFields lineage b.kind b.name b.span.startLine v' (Digest.textHash b.text)
  texts : ∀ a ∈ old, ∀ b ∈ new, Digest.textHash a.text = Digest.textHash b.text → a.text = b.text

/-- Two entities with the same identity are the same but for their scope, signature and last
line. -/
theorem ToldApart.mint_eq_iff {lineage : String} {variants : List ChunkVariant}
    {old new : List ExtractedEntity} (h : ToldApart lineage variants old new) (path : String)
    (a b : ExtractedEntity) (ha : a ∈ old) (hb : b ∈ new) (v v' : ChunkVariant)
    (hv : v ∈ variants) (hv' : v' ∈ variants)
    (hid : (a.mint path lineage v).id = (b.mint path lineage v').id) :
    a.mint path lineage v = b.mint path lineage v' ↔
      a.scope = b.scope ∧ a.signature = b.signature ∧ a.span.endLine = b.span.endLine := by
  obtain ⟨akind, aname, ⟨astart, aend⟩, asignature, ascope, atext⟩ := a
  obtain ⟨bkind, bname, ⟨bstart, bend⟩, bsignature, bscope, btext⟩ := b
  have hfields := h.ids _ ha _ hb v hv v' hv' hid
  simp only [identityFields, List.cons.injEq, true_and, and_true] at hfields
  obtain ⟨hkind, rfl, hstart, hvariant, hhash⟩ := hfields
  have hkind := EntityKind.name_injective hkind
  have hvariant := ChunkVariant.name_injective hvariant
  have hstart := Nat.repr_injective hstart
  have htext := h.texts _ ha _ hb hhash
  dsimp only at htext
  subst hkind hvariant hstart htext
  constructor
  · intro heq
    simp only [ExtractedEntity.mint, Entity.mk.injEq, Span.mk.injEq] at heq
    exact ⟨heq.2.2.2.2.2.2.2.2.1, heq.2.2.2.2.2.2.2.1, heq.2.2.2.2.1.2⟩
  · rintro ⟨hscope, hsignature, hend⟩
    dsimp only at hscope hsignature hend
    rw [hscope, hsignature, hend]

/-- What is shown of a file once it is updated: its new entities, and those that were shown before
where the id is still current. -/
def PreparedFile.shows (file : PreparedFile) (before : String → Option Entity) (id : String) :
    Option Entity :=
  if id ∈ file.currentIds then
    (entityOf file.fresh id).or (if file.hasRecord then before id else none)
  else none

namespace MemoryStore

/-- The store once the update of a file is made. -/
def updated (s : MemoryStore) (file : PreparedFile) (vectors : List Embedding) : MemoryStore :=
  ((calls.updateFile file.path file.previousIds file.currentIds
    (RunState.withVectors file.fresh vectors) file.hasRecord).run s).2

theorem updated_eq (s : MemoryStore) (file : PreparedFile) (vectors : List Embedding) :
    s.updated file vectors = s.edited (World.updateEdits file.path file.previousIds
      file.currentIds (RunState.withVectors file.fresh vectors) file.hasRecord) := by
  have hruns : Runs (calls.updateFile file.path file.previousIds file.currentIds
      (RunState.withVectors file.fresh vectors) file.hasRecord) s
      (fun _ t => t = s.edited (World.updateEdits file.path file.previousIds file.currentIds
        (RunState.withVectors file.fresh vectors) file.hasRecord)) (fun _ _ => False) := by
    rw [VectorStore.runs_updateFile]
    unfold World.updateEdits
    cases file.hasRecord with
    | true =>
      rw [if_pos rfl, if_pos rfl, runs_pure]
      cases (VectorStore.staleIds file.previousIds file.currentIds).isEmpty <;> exact rfl
    | false =>
      rw [if_neg Bool.false_ne_true, if_neg Bool.false_ne_true]
      cases (VectorStore.staleIds file.previousIds file.currentIds).isEmpty <;> exact rfl
  obtain ⟨stats, t, hrun, ht⟩ := runs_returns _ hruns
  unfold updated
  rw [hrun]
  exact ht

/-- After the update of a file the store shows its new entities, and those that it showed before
where the id is still current. -/
theorem shown_updated (s : MemoryStore) (file : PreparedFile) (vectors : List Embedding)
    (hvectors : file.fresh.length ≤ vectors.length)
    (hpath : ∀ e ∈ file.fresh, e.filePath = file.path)
    (hnodup : (file.fresh.map (·.id)).Nodup)
    (hcurrent : ∀ e ∈ file.fresh, e.id ∈ file.currentIds)
    (hfree : ∀ e ∈ file.fresh, s.isCurated e.id = false)
    (hheld : file.hasRecord = true → ∀ id, (s.shown file.path id).isSome → id ∈ file.previousIds)
    (id : String) :
    (s.updated file vectors).shown file.path id = file.shows (s.shown file.path) id := by
  have hentities : (RunState.withVectors file.fresh vectors).map (·.entity) = file.fresh := by
    unfold RunState.withVectors
    rw [List.map_map]
    exact List.map_fst_zip hvectors
  have hmem (e : EmbeddedEntity) (he : e ∈ RunState.withVectors file.fresh vectors) :
      e.entity ∈ file.fresh := withVectors_entity _ _ e he
  have hnodup' : ((RunState.withVectors file.fresh vectors).map (·.entity.id)).Nodup := by
    rw [← hentities, List.map_map] at hnodup
    exact hnodup
  -- `base` is what is left of the entries before
  have hrest (s₁ : MemoryStore) (base : Option Entity) (hbase : s₁.shown file.path id = base)
      (hcurated : ∀ id, s₁.isCurated id = s.isCurated id)
      (hprevious : base.isSome → id ∈ file.previousIds) :
      (s₁.edited (.write (RunState.withVectors file.fresh vectors) ::
        if (VectorStore.staleIds file.previousIds file.currentIds).isEmpty then []
        else [.drop (VectorStore.staleIds file.previousIds file.currentIds)])).shown file.path id =
      if id ∈ file.currentIds then (entityOf file.fresh id).or base else none := by
    have hwritten := s₁.shown_write (RunState.withVectors file.fresh vectors) file.path id
      (fun e he => hpath _ (hmem e he)) hnodup'
      fun e he => (hcurated _).trans (hfree _ (hmem e he))
    rw [hentities, hbase] at hwritten
    have hgone (h : id ∉ file.currentIds) (hkept : id ∉ file.previousIds) :
        (entityOf file.fresh id).or base = none := by
      have hnew : entityOf file.fresh id = none := by
        rw [entityOf_none]
        rintro e he rfl
        exact h (hcurrent e he)
      rw [hnew, Option.none_or, ← Option.not_isSome_iff_eq_none]
      exact fun hsome => hkept (hprevious hsome)
    show (((StoreEdit.write _).apply s₁).edited _).shown file.path id = _
    rw [edited_drop, shown_drop, hwritten]
    by_cases hin : id ∈ file.currentIds
    · rw [if_neg fun h => ((VectorStore.mem_staleIds _ _ id).mp h).2 hin, if_pos hin]
    · rw [if_neg hin]
      split
      · rfl
      · rename_i hkept
        exact hgone hin fun h => hkept ((VectorStore.mem_staleIds _ _ id).mpr ⟨h, hin⟩)
  rw [updated_eq]
  unfold World.updateEdits PreparedFile.shows
  cases hrecord : file.hasRecord with
  | true => exact hrest s _ rfl (fun _ => rfl) (hheld hrecord id)
  | false =>
    refine hrest ((StoreEdit.clear file.path).apply s) none ?_ (fun _ => isCurated_apply _ _ _)
      fun h => by cases h
    rw [shown_clear, if_pos rfl]

end MemoryStore

structure PreparedFile.Lists (file : PreparedFile) (item : WorkItem) (es : List Entity) : Prop where
  path : file.path = item.path
  recorded : file.hasRecord = item.lineage.isSome
  previous : file.previousIds = item.previousIds
  current : ∀ id, id ∈ file.currentIds ↔ ∃ e ∈ es, e.id = id
  fresh : file.fresh = es.filter fun e => !file.previousIds.contains e.id
  paths : ∀ e ∈ es, e.filePath = item.path
  distinct : (es.map (·.id)).Nodup

namespace PreparedFile.Lists

variable {file : PreparedFile} {item : WorkItem} {es : List Entity}

theorem mem_fresh (h : file.Lists item es) (e : Entity) :
    e ∈ file.fresh ↔ e ∈ es ∧ e.id ∉ item.previousIds := by
  rw [h.fresh, List.mem_filter, Bool.not_eq_true', ← Bool.not_eq_true,
    Std.ExtTreeSet.contains_iff_mem, h.previous]

theorem nodup_fresh (h : file.Lists item es) : (file.fresh.map (·.id)).Nodup := by
  rw [h.fresh]
  exact h.distinct.sublist (List.filter_sublist.map _)

theorem entityOf_current (h : file.Lists item es) (id : String) :
    entityOf es id = if id ∈ file.currentIds then entityOf es id else none := by
  split
  · rfl
  · rename_i hout
    exact (entityOf_none es id).mpr fun e he hid => hout ((h.current id).mpr ⟨e, he, hid⟩)

end PreparedFile.Lists

theorem prepareContent_lists {x : Extractor} {variants : List ChunkVariant} {item : WorkItem}
    {content : ByteArray} {modified : Nat} {file : PreparedFile} {found : List ExtractedEntity}
    (h : prepareContent x variants false item content modified = .ready file)
    (hfound : x.find item.path content = .ok found) :
    file.Lists item (mintEntities item.path file.lineage found variants) ∧
      file.lineage = item.lineage.getD (lineageFor item.path) := by
  obtain ⟨_, hfound', rfl⟩ := prepareContent_ready h
  rw [hfound] at hfound'
  cases hfound'
  refine ⟨⟨rfl, rfl, rfl, mem_idSet _, rfl, mintEntities_path _ _ _ _,
    mintEntities_nodup _ _ _ _⟩, rfl⟩

section Again

variable {file : PreparedFile} {item : WorkItem} {es es' : List Entity}
  {before : String → Option Entity}

/-- The update of a file whose ids are free leaves the store with what the file shows. -/
theorem shown_listed {s : MemoryStore} {vectors : List Embedding} (h : file.Lists item es)
    (hvectors : file.fresh.length ≤ vectors.length)
    (hfree : ∀ id ∈ file.currentIds, s.isCurated id = false)
    (hheld : file.hasRecord = true → ∀ id, (s.shown item.path id).isSome → id ∈ item.previousIds)
    (id : String) :
    (s.updated file vectors).shown item.path id = file.shows (s.shown item.path) id := by
  have hcurrent (e : Entity) (he : e ∈ file.fresh) : e.id ∈ file.currentIds :=
    (h.current _).mpr ⟨e, ((h.mem_fresh e).mp he).1, rfl⟩
  rw [← h.path] at hheld ⊢
  rw [← h.previous] at hheld
  exact s.shown_updated file vectors hvectors
    (fun e he => (h.paths e ((h.mem_fresh e).mp he).1).trans h.path.symm) h.nodup_fresh hcurrent
    (fun e he => hfree _ (hcurrent e he)) hheld id

/-- A file of which nothing was stored shows its entities. -/
theorem shows_first (h : file.Lists item es) (hnew : item.previousIds = ∅)
    (hbare : file.hasRecord = true → ∀ id, before id = none) (id : String) :
    file.shows before id = entityOf es id := by
  -- nothing is there before, so that all entities are new
  have hfresh : file.fresh = es := by
    rw [h.fresh, h.previous, hnew]
    refine List.filter_eq_self.mpr fun e _ => ?_
    rw [Std.ExtTreeSet.contains_empty]
    rfl
  have hnone : (if file.hasRecord then before id else none) = none := by
    split
    · rename_i hrecord
      exact hbare hrecord id
    · rfl
  unfold PreparedFile.shows
  rw [hnone, Option.or_none, hfresh]
  exact (h.entityOf_current id).symm

variable (h : file.Lists item es') (hrecorded : item.lineage.isSome)
  (hprevious : ∀ id, id ∈ item.previousIds ↔ ∃ e ∈ es, e.id = id)
  (hbefore : ∀ id, before id = entityOf es id)

include h hrecorded hprevious hbefore

/-- A file that is indexed again shows, under an id of its later version, the entity that the
earlier one had under it, and else its own. -/
theorem shows_again (hdistinct : (es.map (·.id)).Nodup) (id : String) :
    file.shows before id = (entityOf es' id).bind fun e => (entityOf es id).or (some e) := by
  have hrecord : file.hasRecord = true := h.recorded.trans hrecorded
  unfold PreparedFile.shows
  rw [hrecord, if_pos rfl, hbefore, h.entityOf_current]
  by_cases hin : id ∈ file.currentIds
  · obtain ⟨e, he, rfl⟩ := (h.current id).mp hin
    rw [if_pos hin, if_pos hin, entityOf_mem es' h.distinct e he, Option.bind_some]
    by_cases hold : e.id ∈ item.previousIds
    · -- the entity counts as stored, and is left out of the update
      have hnone : entityOf file.fresh e.id = none := by
        rw [entityOf_none]
        intro e' he' heq
        exact ((h.mem_fresh e').mp he').2 (heq ▸ hold)
      obtain ⟨a, ha, hid⟩ := (hprevious e.id).mp hold
      rw [hnone, ← hid, entityOf_mem es hdistinct a ha]
      rfl
    · have hnone : entityOf es e.id = none :=
        (entityOf_none es e.id).mpr fun a ha hid => hold ((hprevious e.id).mpr ⟨a, ha, hid⟩)
      rw [hnone, entityOf_mem file.fresh h.nodup_fresh e ((h.mem_fresh e).mpr ⟨he, hold⟩)]
      rfl
  · rw [if_neg hin, if_neg hin]
    rfl

end Again

/-- A file that is indexed again shows the entities of its later version exactly when those with an
identity of the earlier one have the same scope, signature and last line. -/
theorem ToldApart.shows_iff {lineage : String} {variants : List ChunkVariant}
    {found found' : List ExtractedEntity} (htold : ToldApart lineage variants found found')
    {path : String} {file : PreparedFile} {item : WorkItem} {before : String → Option Entity}
    (h : file.Lists item (mintEntities path lineage found' variants))
    (hrecorded : item.lineage.isSome)
    (hprevious : ∀ id, id ∈ item.previousIds ↔
      ∃ e ∈ mintEntities path lineage found variants, e.id = id)
    (hbefore : ∀ id, before id = entityOf (mintEntities path lineage found variants) id) :
    (∀ id, file.shows before id = entityOf (mintEntities path lineage found' variants) id) ↔
      ∀ a ∈ mintEntities path lineage found variants,
      ∀ b ∈ mintEntities path lineage found' variants, a.id = b.id →
        a.scope = b.scope ∧ a.signature = b.signature ∧ a.span.endLine = b.span.endLine := by
  have hnodup := mintEntities_nodup path lineage found variants
  have hnodup' := mintEntities_nodup path lineage found' variants
  have hshown := shows_again h hrecorded hprevious hbefore hnodup
  have hsame (a b : Entity) (ha : a ∈ mintEntities path lineage found variants)
      (hb : b ∈ mintEntities path lineage found' variants) (hid : a.id = b.id) :
      a = b ↔ a.scope = b.scope ∧ a.signature = b.signature ∧ a.span.endLine = b.span.endLine := by
    obtain ⟨i, hi, v, hv, rfl⟩ := mem_mintEntities _ _ _ _ a ha
    obtain ⟨j, hj, v', hv', rfl⟩ := mem_mintEntities _ _ _ _ b hb
    exact htold.mint_eq_iff path i j hi hj v v' hv hv' hid
  constructor
  · intro hall a ha b hb hid
    have heq := (hshown b.id).symm.trans (hall b.id)
    rw [entityOf_mem _ hnodup' b hb, Option.bind_some, ← hid, entityOf_mem _ hnodup a ha] at heq
    exact (hsame a b ha hb hid).mp (Option.some.inj heq)
  · intro hall id
    rw [hshown]
    cases hfind : entityOf (mintEntities path lineage found' variants) id with
    | none => rfl
    | some b =>
      obtain ⟨hb, rfl⟩ := entityOf_some _ id b hfind
      rw [Option.bind_some]
      cases hfind' : entityOf (mintEntities path lineage found variants) b.id with
      | none => rfl
      | some a =>
        obtain ⟨ha, hid⟩ := entityOf_some _ _ a hfind'
        rw [(hsame a b ha hb hid).mpr (hall a ha b hb hid)]
        rfl

section Reindexed

variable (x : Extractor) (variants : List ChunkVariant) (plan : RunPlan) (item : WorkItem)
  (m : Manifest) (s : MemoryStore) (old new : ByteArray) (modified modified' : Nat)
  (found found' : List ExtractedEntity) (file file' : PreparedFile)
  (vectors vectors' : List Embedding)

variable (hnew : item.previousIds = ∅)
  (hbare : item.lineage.isSome → ∀ id, s.shown item.path id = none)
  (hfound : x.find item.path old = .ok found) (hfound' : x.find item.path new = .ok found')
  (hfile : prepareContent x variants false item old modified = .ready file)
  (hrecord : m.get? item.path = some (RunState.recordOf plan file))
  (hfile' : prepareContent x variants false (WorkItem.ofPath m item.path) new modified' =
    .ready file')
  (hvectors : file.fresh.length ≤ vectors.length)
  (hvectors' : file'.fresh.length ≤ vectors'.length)
  (hfree : ∀ id, id ∈ file.currentIds ∨ id ∈ file'.currentIds → s.isCurated id = false)

include hnew hbare hfound hfound' hfile hrecord hfile' hvectors hvectors' hfree

/-- A file is indexed, recorded and indexed again with other content: the store shows what the
second version shows over the entities of the first. -/
theorem shown_reindexed :
    file'.Lists ⟨item.path, some file.lineage, .ofList file.currentIds.toList⟩
        (mintEntities item.path file.lineage found' variants) ∧
      (∀ id, (s.updated file vectors).shown item.path id =
        entityOf (mintEntities item.path file.lineage found variants) id) ∧
      (∀ id, id ∈ (Std.ExtTreeSet.ofList file.currentIds.toList : Std.ExtTreeSet String) ↔
        ∃ e ∈ mintEntities item.path file.lineage found variants, e.id = id) ∧
      ∀ id, ((s.updated file vectors).updated file' vectors').shown item.path id =
        file'.shows ((s.updated file vectors).shown item.path) id := by
  have hlists := (prepareContent_lists hfile hfound).1
  have hbare' (hrecord : file.hasRecord = true) : ∀ id, s.shown item.path id = none :=
    hbare (hlists.recorded.symm.trans hrecord)
  have hfirst (id : String) : (s.updated file vectors).shown item.path id =
      entityOf (mintEntities item.path file.lineage found variants) id := by
    rw [shown_listed hlists hvectors (fun id h => hfree id (.inl h))
      (fun hrecord id hsome => by rw [hbare' hrecord] at hsome; cases hsome)]
    exact shows_first hlists hnew hbare' id
  have hwork : WorkItem.ofPath m item.path =
      ⟨item.path, some file.lineage, .ofList file.currentIds.toList⟩ := by
    unfold WorkItem.ofPath
    rw [hrecord]
    rfl
  rw [hwork] at hfile'
  obtain ⟨hlists', hlineage⟩ := prepareContent_lists hfile' hfound'
  rw [hlineage, Option.getD_some] at hlists'
  have hprevious (id : String) :
      id ∈ (Std.ExtTreeSet.ofList file.currentIds.toList : Std.ExtTreeSet String) ↔
        ∃ e ∈ mintEntities item.path file.lineage found variants, e.id = id := by
    rw [Std.ExtTreeSet.mem_ofList, List.contains_iff_mem, Std.ExtTreeSet.mem_toList]
    exact hlists.current id
  refine ⟨hlists', hfirst, hprevious, fun id => ?_⟩
  apply shown_listed hlists' hvectors'
  · intro id hid
    rw [MemoryStore.updated_eq, MemoryStore.isCurated_edited]
    exact hfree id (.inr hid)
  · intro _ id hsome
    obtain ⟨e, he⟩ := Option.isSome_iff_exists.mp hsome
    rw [hfirst] at he
    exact (hprevious id).mpr ⟨e, entityOf_some _ id e he⟩

/-- A file is indexed, recorded and indexed again with other content: the store shows the entities
of the later version exactly when those with an identity of the earlier one have the same scope,
signature and last line. -/
theorem reindexed_shown_iff (htold : ToldApart file.lineage variants found found') :
    (∀ id, ((s.updated file vectors).updated file' vectors').shown item.path id =
        entityOf (mintEntities item.path file.lineage found' variants) id) ↔
      ∀ a ∈ mintEntities item.path file.lineage found variants,
      ∀ b ∈ mintEntities item.path file.lineage found' variants, a.id = b.id →
        a.scope = b.scope ∧ a.signature = b.signature ∧ a.span.endLine = b.span.endLine := by
  obtain ⟨hlists, hfirst, hprevious, hshown⟩ := shown_reindexed x variants plan item m s old new
    modified modified' found found' file file' vectors vectors' hnew hbare hfound hfound' hfile
    hrecord hfile' hvectors hvectors' hfree
  simp only [hshown]
  exact htold.shows_iff hlists rfl hprevious hfirst

end Reindexed

section Rescoped

def methodOf (source : String) : ExtractedEntity :=
  ⟨.method, "f", ⟨2, 2⟩, none, some source, "def f(self): pass"⟩

def methodExtractor : Extractor := ⟨fun _ => true, fun _ source => .ok [methodOf source]⟩

def preparedMethod (item : WorkItem) (source : String) : PreparedFile :=
  let minted := mintEntities item.path (item.lineage.getD (lineageFor item.path))
    [methodOf source] [.metadata]
  { path := item.path
    hash := Digest.contentHash source.toUTF8
    modificationTime := 0
    lineage := item.lineage.getD (lineageFor item.path)
    hasRecord := item.lineage.isSome
    previousIds := item.previousIds
    currentIds := .ofList (minted.map (·.id))
    fresh := (partitionNew item.previousIds minted false).1 }

def firstMethod : PreparedFile := preparedMethod ⟨"a.py", none, ∅⟩ "class A"

def firstPlan : RunPlan := ⟨none, false, .unknown, false⟩

def firstManifest : Manifest :=
  Manifest.empty.recordIndexed (RunState.recordOf firstPlan firstMethod) .zero

def secondMethod : PreparedFile := preparedMethod (.ofPath firstManifest "a.py") "class B"

def rescopedStore : MemoryStore :=
  (({} : MemoryStore).updated firstMethod [[1]]).updated secondMethod [[1]]

theorem methodExtractor_find (source : String) :
    methodExtractor.find "a.py" source.toUTF8 = .ok [methodOf source] := by
  show Except.ok [methodOf (Text.lossy source.toUTF8)] = _
  rw [Text.lossy_toUTF8]

theorem mintEntities_method (path lineage source : String) :
    mintEntities path lineage [methodOf source] [.metadata] =
      [(methodOf source).mint path lineage .metadata] := by
  have hmintable : (methodOf source).isMintable = true := by
    show (!Text.isAllBlank "f" && !Text.isAllBlank "def f(self): pass" &&
      Span.isValid ⟨2, 2⟩) = true
    decide
  unfold mintEntities
  rw [List.filter_cons_of_pos hmintable]
  rfl

theorem prepareContent_method (item : WorkItem) (source : String) (hpath : item.path = "a.py") :
    prepareContent methodExtractor [.metadata] false item source.toUTF8 0 =
      .ready (preparedMethod item source) := by
  unfold prepareContent
  rw [hpath, methodExtractor_find source]
  dsimp only
  rw [← hpath]
  rfl

theorem preparedMethod_fresh (item : WorkItem) (source : String) :
    (preparedMethod item source).fresh.length ≤ 1 := by
  show ((partitionNew _ _ false).1).length ≤ 1
  rw [mintEntities_method]
  exact List.length_filter_le _ _

theorem firstManifest_get :
    firstManifest.get? "a.py" = some (RunState.recordOf firstPlan firstMethod) := by
  have hpath : (RunState.recordOf firstPlan firstMethod).path = "a.py" := rfl
  unfold firstManifest
  rw [Manifest.get?_recordIndexed, if_pos hpath]

/-- The store keeps the method as one of the class that is gone. -/
theorem rescoped_kept : ∃ e,
    mintEntities "a.py" (lineageFor "a.py") [methodOf "class B"] [.metadata] = [e] ∧
      rescopedStore.shown "a.py" e.id =
        some ((methodOf "class A").mint "a.py" (lineageFor "a.py") .metadata) ∧
      e.scope = some "class B" := by
  have hminted := mintEntities_method "a.py" (lineageFor "a.py")
  have hfirst := prepareContent_method ⟨"a.py", none, ∅⟩ "class A" rfl
  have hsecond := prepareContent_method (.ofPath firstManifest "a.py") "class B"
    (WorkItem.ofPath_path _ _)
  obtain ⟨hlists, hearlier, hprevious, hshown⟩ := shown_reindexed methodExtractor [.metadata]
    firstPlan ⟨"a.py", none, ∅⟩ firstManifest {} "class A".toUTF8 "class B".toUTF8 0 0
    [methodOf "class A"] [methodOf "class B"] firstMethod secondMethod [[1]] [[1]] rfl
    (fun _ _ => rfl) (methodExtractor_find _) (methodExtractor_find _) hfirst firstManifest_get
    hsecond (preparedMethod_fresh _ _) (preparedMethod_fresh _ _) (fun _ _ => rfl)
  have hagain := shows_again hlists rfl hprevious hearlier (mintEntities_nodup _ _ _ _)
  refine ⟨(methodOf "class B").mint "a.py" (lineageFor "a.py") .metadata, hminted _, ?_, rfl⟩
  have hlineage : firstMethod.lineage = lineageFor "a.py" := rfl
  have hid : ((methodOf "class B").mint "a.py" (lineageFor "a.py") .metadata).id =
      ((methodOf "class A").mint "a.py" (lineageFor "a.py") .metadata).id := rfl
  have hsingle (e : Entity) : entityOf [e] e.id = some e :=
    entityOf_mem [e] (List.nodup_singleton e.id) e List.mem_cons_self
  unfold rescopedStore
  rw [hshown, hagain, hlineage, hminted, hminted, hsingle, Option.bind_some, hid, hsingle]
  rfl

end Rescoped

end CodeIndex
