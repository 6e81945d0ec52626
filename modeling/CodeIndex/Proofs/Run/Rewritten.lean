import CodeIndex.Proofs.Run.Batched
import CodeIndex.Proofs.Run.Rest

/-!
Runs over everything that are made again after they were stopped. Every file is indexed anew, also
what the first run recorded: its entries are written once more, and nothing is cleared or dropped
for it, as its record has their ids now. This comes to what one run would have come to, as long as
no file that is indexed gives up an id that another one is given.
-/

namespace CodeIndex

open StateDir

namespace PreparedFile

def Mints (file : PreparedFile) (id : String) : Prop := ∃ e ∈ file.fresh, e.id = id

def GivesUp (file : PreparedFile) (id : String) : Prop :=
  id ∈ VectorStore.staleIds file.previousIds file.currentIds

/-- The file as it is prepared again once it is recorded. -/
def known (file : PreparedFile) : PreparedFile :=
  { file with hasRecord := true, previousIds := file.currentIds }

def writing (vector : String → Embedding) (file : PreparedFile) : StoreEdit :=
  .write (RunState.withVectors file.fresh (file.fresh.map fun e => vector e.text))

variable {file : PreparedFile} {vector : String → Embedding} {id : String}
  {x : Option StoredEntity} {e : StoredEntity}

theorem edits_eq : file.edits vector = file.opening ++ file.writing vector :: file.dropping := by
  rw [edits_parts, filling, List.append_assoc]
  rfl

theorem edits_known : file.known.edits vector = [file.writing vector] := by
  have hnone : VectorStore.staleIds file.currentIds file.currentIds = [] := by
    rw [List.eq_nil_iff_forall_not_mem]
    intro id hid
    obtain ⟨hin, hout⟩ := (VectorStore.mem_staleIds _ _ id).mp hid
    exact hout hin
  have hdropping : file.known.dropping = [] := by
    show (if (VectorStore.staleIds file.currentIds file.currentIds).isEmpty then [] else _) = []
    rw [hnone]
    rfl
  rw [edits_eq, hdropping]
  rfl

variable (vector) in
theorem writing_minted (h : file.Mints id) : ∃ e : StoredEntity, e.entity ∈ file.fresh ∧
    ∀ x, StoreEdit.Loose x → (file.writing vector).onEntry id x = some e := by
  let entities := RunState.withVectors file.fresh (file.fresh.map fun e => vector e.text)
  obtain ⟨entity, hentity, hid⟩ :=
    (withVectors_mem file.fresh _ (Nat.le_of_eq (List.length_map _).symm) id).mpr h
  have hsome : StoreEdit.written entities id ≠ none := fun hnone =>
    (MemoryStore.written_none entities id).mp hnone entity hentity hid
  obtain ⟨e, he⟩ := Option.ne_none_iff_exists'.mp hsome
  obtain ⟨y, hy, _, rfl⟩ := MemoryStore.written_some entities id e he
  refine ⟨⟨y.entity, y.vector, .derived⟩, withVectors_entity _ _ y hy, fun x hx => ?_⟩
  show (if x.any (·.origin == .curated) then x else (StoreEdit.written entities id).or x) = _
  rw [hx.not_curated, if_neg Bool.false_ne_true, he]
  rfl

theorem writing_other (h : ¬ file.Mints id) (x : Option StoredEntity) :
    (file.writing vector).onEntry id x = x := by
  let entities := RunState.withVectors file.fresh (file.fresh.map fun e => vector e.text)
  have hnone : StoreEdit.written entities id = none := by
    rw [MemoryStore.written_none]
    intro e he hid
    exact h ⟨e.entity, withVectors_entity _ _ e he, hid⟩
  show (if x.any (·.origin == .curated) then x else (StoreEdit.written entities id).or x) = x
  rw [hnone]
  exact ite_self x

theorem opening_other (h : e.entity.filePath ≠ file.path) :
    StoreEdit.onEntries id file.opening (some e) = some e := by
  unfold opening
  split
  · rfl
  · show (StoreEdit.clear file.path).onEntry id (some e) = some e
    rw [StoreEdit.clear_some, if_neg]
    intro hmine
    exact h ((MemoryStore.isDerivedFor_iff e file.path).mp hmine).2

theorem dropping_other (h : ¬ file.GivesUp id) (x : Option StoredEntity) :
    StoreEdit.onEntries id file.dropping x = x := by
  unfold dropping
  split
  · rfl
  · have hunlisted : (VectorStore.staleIds file.previousIds file.currentIds).contains id =
        false := by
      rw [← Bool.not_eq_true, List.contains_iff_mem]
      exact h
    show (if (_ && _) = true then none else x) = x
    rw [hunlisted]
    rfl

theorem onEntries_edits (x : Option StoredEntity) :
    StoreEdit.onEntries id (file.edits vector) x =
      StoreEdit.onEntries id file.dropping
        ((file.writing vector).onEntry id (StoreEdit.onEntries id file.opening x)) := by
  rw [edits_eq, StoreEdit.onEntries_append]
  rfl

end PreparedFile

open PreparedFile

section Files

variable {files front rest : List PreparedFile} {vector : String → Embedding} {id : String}
  {x y : Option StoredEntity}

/-- Files of different paths, of which none gives up an id that another one is given. -/
structure Unshared (files : List PreparedFile) : Prop where
  paths : (files.map (·.path)).Nodup
  own : ∀ file ∈ files, ∀ e ∈ file.fresh, e.filePath = file.path
  kept : ∀ file ∈ files, ∀ other ∈ files, ∀ id, file.Mints id → ¬ other.GivesUp id

theorem Unshared.append (h : Unshared (front ++ rest)) : Unshared front := by
  have hmem (file : PreparedFile) (hfile : file ∈ front) : file ∈ front ++ rest :=
    List.mem_append_left _ hfile
  refine ⟨?_, fun file hfile => h.own file (hmem file hfile), fun file hfile other hother =>
    h.kept file (hmem file hfile) other (hmem other hother)⟩
  have hpaths := h.paths
  rw [List.map_append] at hpaths
  exact (List.nodup_append.mp hpaths).1

variable (vector) in
/-- Under an id that is given to one of the files, what stands at the end is the entry of the last
one, whatever stood there; and it is written over itself when all are known. -/
theorem Unshared.minted (h : Unshared files) (hminted : ∃ file ∈ files, file.Mints id) :
    ∃ e : StoredEntity, e.entity.filePath ∈ files.map (·.path) ∧
      (∀ x, StoreEdit.Loose x →
        StoreEdit.onEntries id (files.flatMap (PreparedFile.edits vector)) x = some e) ∧
      ∀ y, StoreEdit.Loose y →
        StoreEdit.onEntries id ((files.map known).flatMap (PreparedFile.edits vector)) y =
          some e := by
  induction files using List.reverseRecOn with
  | nil =>
    obtain ⟨file, hfile, _⟩ := hminted
    exact absurd hfile List.not_mem_nil
  | append_singleton front file ih =>
    have hlast : file ∈ front ++ [file] := List.mem_append_right _ List.mem_cons_self
    have hedits (x : Option StoredEntity) :
        StoreEdit.onEntries id ((front ++ [file]).flatMap (PreparedFile.edits vector)) x =
          StoreEdit.onEntries id (file.edits vector)
            (StoreEdit.onEntries id (front.flatMap (PreparedFile.edits vector)) x) := by
      rw [List.flatMap_append, List.flatMap_singleton, StoreEdit.onEntries_append]
    have hknown (y : Option StoredEntity) :
        StoreEdit.onEntries id (((front ++ [file]).map known).flatMap (PreparedFile.edits vector))
            y =
          (file.writing vector).onEntry id
            (StoreEdit.onEntries id ((front.map known).flatMap (PreparedFile.edits vector)) y) := by
      rw [List.map_append, List.flatMap_append, StoreEdit.onEntries_append, List.map_singleton,
        List.flatMap_singleton, edits_known]
      rfl
    by_cases hmine : file.Mints id
    · obtain ⟨e, he, hwritten⟩ := writing_minted vector hmine
      have hkept : ¬ file.GivesUp id := h.kept file hlast file hlast id hmine
      refine ⟨e, ?_, fun x hx => ?_, fun y hy => ?_⟩
      · rw [h.own file hlast e.entity he]
        exact List.mem_map_of_mem hlast
      · rw [hedits, onEntries_edits, hwritten _ ((hx.onEntries _).onEntries _),
          dropping_other hkept]
      · rw [hknown, hwritten _ (hy.onEntries _)]
    · obtain ⟨other, hother, hminted⟩ : ∃ other ∈ front, other.Mints id := by
        obtain ⟨other, hother, hminted⟩ := hminted
        rcases List.mem_append.mp hother with hother | hother
        · exact ⟨other, hother, hminted⟩
        · exact absurd (List.mem_singleton.mp hother ▸ hminted) hmine
      obtain ⟨e, hplace, hfirst, hagain⟩ := ih h.append ⟨other, hother, hminted⟩
      have hkept : ¬ file.GivesUp id :=
        h.kept other (List.mem_append_left _ hother) file hlast id hminted
      -- the entry is of a path before, which the last file does not clear
      have hother : e.entity.filePath ≠ file.path := by
        have hpaths := h.paths
        rw [List.map_append, List.nodup_append] at hpaths
        exact hpaths.2.2 _ hplace _ List.mem_cons_self
      refine ⟨e, ?_, fun x hx => ?_, fun y hy => ?_⟩
      · rw [List.map_append]
        exact List.mem_append_left _ hplace
      · rw [hedits, hfirst x hx, onEntries_edits, opening_other hother, writing_other hmine,
          dropping_other hkept]
      · rw [hknown, hagain y hy, writing_other hmine]

theorem known_other (h : ∀ file ∈ files, ¬ file.Mints id) (x : Option StoredEntity) :
    StoreEdit.onEntries id ((files.map known).flatMap (PreparedFile.edits vector)) x = x := by
  induction files with
  | nil => rfl
  | cons file rest ih =>
    rw [List.map_cons, List.flatMap_cons, StoreEdit.onEntries_append, edits_known]
    calc StoreEdit.onEntries id ((rest.map known).flatMap (PreparedFile.edits vector))
          ((file.writing vector).onEntry id x)
      _ = StoreEdit.onEntries id ((rest.map known).flatMap (PreparedFile.edits vector)) x := by
        rw [writing_other (h file List.mem_cons_self)]
      _ = x := ih fun other hother => h other (List.mem_cons_of_mem _ hother)

/-- Where some files are gathered and some edits for the others are made, to gather all again comes
to the same as to gather them once. -/
theorem Unshared.rewritten (h : Unshared front) {made : List StoreEdit}
    (hmade : ∀ edit ∈ made, edit ∈ rest.flatMap (PreparedFile.edits vector)) (s : MemoryStore) :
    ((s.edited (front.flatMap (PreparedFile.edits vector))).edited made).edited
        ((front.map known ++ rest).flatMap (PreparedFile.edits vector)) =
      s.edited ((front ++ rest).flatMap (PreparedFile.edits vector)) := by
  apply MemoryStore.ext_get?
  intro id
  simp only [StoreEdit.get?_edited, List.flatMap_append, StoreEdit.onEntries_append]
  generalize s.get? id = x
  by_cases hloose : StoreEdit.Loose x
  · by_cases hminted : ∃ file ∈ front, file.Mints id
    · obtain ⟨e, _, hfirst, hagain⟩ := h.minted vector hminted
      rw [hfirst x hloose, hagain _ ((hfirst x hloose ▸ hloose.onEntries _).onEntries made)]
    · -- nothing is written again that stands under this id
      have hothers : ∀ file ∈ front, ¬ file.Mints id := fun file hfile hmine =>
        hminted ⟨file, hfile, hmine⟩
      rw [known_other hothers, StoreEdit.content_again (gathered_contents vector rest) hmade]
  · simp only [StoreEdit.unloose_onEntries hloose]

end Files

namespace Contents

variable {vector : String → Embedding} {plan : RunPlan} {files front rest : List PreparedFile}
  {a b c : Contents}

theorem manifest_foldl_write : (files.foldl (write vector plan) c).manifest =
    files.foldl (fun m file => m.recordIndexed (RunState.recordOf plan file) .zero) c.manifest := by
  induction files generalizing c with
  | nil => rfl
  | cons file rest ih => exact ih

/-- To record some files again, and then the others, comes to the same records as at once. -/
theorem foldl_write_known
    (h : ∀ p, b.manifest.get? p = (front.foldl (write vector plan) a).manifest.get? p)
    (p : String) : ((front.map known ++ rest).foldl (write vector plan) b).manifest.get? p =
      ((front ++ rest).foldl (write vector plan) a).manifest.get? p := by
  have hknown : ((front.map known).foldl (write vector plan) b).manifest =
      (front.foldl (write vector plan) b).manifest := by
    rw [manifest_foldl_write, manifest_foldl_write, List.foldl_map]
    rfl
  rw [List.foldl_append, List.foldl_append]
  refine foldl_write_congr (fun q => .inr ?_) p
  rw [hknown]
  refine foldl_write_congr (fun r => ?_) q
  by_cases hr : ∃ file ∈ front, file.path = r
  · exact .inl hr
  · exact .inr ((h r).trans (foldl_write_elsewhere fun file hfile heq => hr ⟨file, hfile, heq⟩))

end Contents

theorem prepare_known {σ : Type} (setting : RunSetting σ) {plan : RunPlan} {d : Disk}
    {m m' : Manifest} {p : String} {file : PreparedFile}
    (h : prepare setting true d (WorkItem.ofPath m p) = .ready file)
    (hrecord : m'.get? p = some (RunState.recordOf plan file)) :
    prepare setting true d (WorkItem.ofPath m' p) = .ready file.known := by
  have hids : (Std.ExtTreeSet.ofList file.currentIds.toList : Std.ExtTreeSet String) =
      file.currentIds := by
    apply Std.ExtTreeSet.ext_mem
    intro id
    rw [Std.ExtTreeSet.mem_ofList, List.contains_iff_mem, Std.ExtTreeSet.mem_toList]
  have hitem : WorkItem.ofPath m' p = ⟨p, some file.lineage, file.currentIds⟩ := by
    unfold WorkItem.ofPath
    rw [hrecord, ← hids]
    rfl
  have hpath := WorkItem.ofPath_path m p
  rw [hitem]
  unfold prepare at h ⊢
  rw [hpath] at h
  dsimp only
  split at h
  · cases h
  · rename_i content modified hread
    obtain ⟨found, hfound, rfl⟩ := prepareContent_ready h
    rw [hpath] at hfound
    unfold prepareContent
    dsimp only
    rw [hfound, hpath]
    rfl

/-- The files that are prepared again are known where they were ready in front, and the others are
as they were. -/
theorem reprepared {first again : String → Prepared} {front rest : List String}
    (hready : ∀ p ∈ front, (again p).file? = (first p).file?.map known)
    (hrest : ∀ p ∈ rest, again p = first p) :
    ((front ++ rest).map again).filterMap Prepared.file? =
        ((front.map first).filterMap Prepared.file?).map known ++
          (rest.map first).filterMap Prepared.file? ∧
      ((front ++ rest).map again).countP (fun next => next.file?.isNone) =
        ((front ++ rest).map first).countP fun next => next.file?.isNone := by
  have hbehind : rest.map again = rest.map first := List.map_congr_left hrest
  rw [List.map_append, List.map_append, hbehind, List.filterMap_append, List.countP_append,
    List.countP_append]
  constructor
  · congr 1
    rw [List.filterMap_map, List.filterMap_map, List.map_filterMap]
    exact List.filterMap_congr hready
  · congr 1
    rw [List.countP_map, List.countP_map]
    refine List.countP_congr fun p hp => ?_
    show (again p).file?.isNone = true ↔ (first p).file?.isNone = true
    rw [hready p hp, Option.isNone_map]

namespace TreeView

variable (t : TreeView) (m m' : Manifest)

/-- What is listed to be indexed anew does not depend on the records. -/
theorem detectAll_listed (p : String) :
    p ∈ (t.detectAll m).changes.added ++ (t.detectAll m).changes.modified ↔
      p ∈ t.files ∧ (t.look p).isPresent = true := by
  obtain ⟨hadded, hmodified, _⟩ := t.detectAll_parts m
  rw [List.mem_append, hadded, hmodified]
  constructor
  · rintro (⟨hfile, hlook, _⟩ | ⟨hfile, hlook, _⟩)
    · exact ⟨hfile, hlook⟩
    · exact ⟨hfile, hlook⟩
  · rintro ⟨hfile, hlook⟩
    cases hrecord : m.get? p with
    | none => exact .inl ⟨hfile, hlook, rfl⟩
    | some r => exact .inr ⟨hfile, hlook, rfl⟩

variable {t m m'} in
/-- Once what is gone is removed, nothing more is found to be gone. -/
theorem detectAll_kept {shape : Shape} {look : String → FileState}
    (h : shape.Tidied m look (t.detectAll m).changes.deleted [])
    (hrest : ∀ p, m'.get? p = shape.manifest.get? p ∨
      p ∈ (t.detectAll m).changes.added ++ (t.detectAll m).changes.modified) :
    (t.detectAll m').changes.deleted = [] := by
  obtain ⟨_, _, hdeleted, _⟩ := t.detectAll_parts m
  obtain ⟨_, _, hdeleted', _⟩ := t.detectAll_parts m'
  rw [List.eq_nil_iff_forall_not_mem]
  intro p hp
  obtain ⟨hrecord, hgone⟩ := (hdeleted' p).mp hp
  rcases hrest p with hsame | hlisted
  · rw [hsame] at hrecord
    by_cases hremoved : p ∈ (t.detectAll m).changes.deleted
    · rw [h.removed p (.inl hremoved)] at hrecord
      cases hrecord
    · rw [h.others p hremoved fun e he => absurd he List.not_mem_nil] at hrecord
      exact hremoved ((hdeleted p).mpr ⟨hrecord, hgone⟩)
  · obtain ⟨hfile, hlook⟩ := (t.detectAll_listed m p).mp hlisted
    exact hgone ⟨hfile, .inl hlook⟩

end TreeView

namespace RunSetting

open RunState

/-- No file that some changes lead to gives up an id that another one is given. -/
def GivesUpFreely (setting : RunSetting MemoryStore) (plan : RunPlan) (changes : ChangeSet)
    (d : Disk) (m : Manifest) : Prop :=
  ∀ file other, .ready file ∈ setting.preparations plan changes d m →
    .ready other ∈ setting.preparations plan changes d m → ∀ id, file.Mints id → ¬ other.GivesUp id

/-- Where nothing is recorded, nothing is given up. -/
theorem givesUpFreely_empty {setting : RunSetting MemoryStore} {plan : RunPlan} {t : TreeView}
    (d : Disk) : setting.GivesUpFreely plan (t.detectAll .empty).changes d .empty := by
  intro file other _ hother id _ hgives
  have hdeleted : (t.detectAll .empty).changes.deleted = [] := by
    obtain ⟨_, _, hdeleted, _⟩ := t.detectAll_parts .empty
    rw [List.eq_nil_iff_forall_not_mem]
    intro p hp
    have hrecord := ((hdeleted p).mp hp).1
    rw [Manifest.get?_empty] at hrecord
    cases hrecord
  rw [preparations_eq (Shape.ofChanges_plain plan _ _ _ hdeleted rfl)] at hother
  obtain ⟨p, _, hprepared⟩ := List.mem_map.mp hother
  obtain ⟨_, hfaithful⟩ := prepare_faithful setting plan.force d .empty p other hprepared
  obtain ⟨r, hr, _⟩ := (hfaithful.previous id).mp ((VectorStore.mem_staleIds _ _ id).mp hgives).1
  rw [Manifest.get?_empty] at hr
  cases hr

section Anew

variable {setting : RunSetting MemoryStore} {plan : RunPlan} {vector : String → Embedding}
  {d : Disk} {t : TreeView} {m m' : Manifest} {shape : Shape} {front rest : List String}
  {prepared : List Prepared} {c : Contents}

theorem mem_ready {file : PreparedFile}
    (h : file ∈ (front.map (setting.preparedIn plan d shape)).filterMap Prepared.file?) :
    file.path ∈ front ∧ setting.preparedIn plan d shape file.path = .ready file := by
  obtain ⟨next, hnext, hready⟩ := List.mem_filterMap.mp h
  obtain ⟨p, hp, rfl⟩ := List.mem_map.mp hnext
  have hready' := Prepared.file?_some.mp hready
  obtain rfl := (prepare_faithful setting plan.force d shape.manifest p file hready').1
  exact ⟨hp, hready'⟩

theorem ready_paths (hnodup : front.Nodup) :
    (((front.map (setting.preparedIn plan d shape)).filterMap Prepared.file?).map
      (·.path)).Nodup := by
  have hcame : Came setting plan shape.manifest front
      (front.map (setting.preparedIn plan d shape)) :=
    List.forall₂_map_right_iff.mpr (List.forall₂_same.mpr fun p _ => ⟨d, rfl⟩)
  exact hnodup.sublist hcame.paths

theorem GivesUpFreely.unshared {changes : ChangeSet} (h : setting.GivesUpFreely plan changes d m)
    (hprepared : setting.preparations plan changes d m =
      front.map (setting.preparedIn plan d shape)) (hnodup : front.Nodup) :
    Unshared ((front.map (setting.preparedIn plan d shape)).filterMap Prepared.file?) := by
  have hready (file : PreparedFile) (hfile : file ∈
      (front.map (setting.preparedIn plan d shape)).filterMap Prepared.file?) :
      .ready file ∈ setting.preparations plan changes d m := by
    obtain ⟨hp, hready⟩ := mem_ready hfile
    rw [hprepared, ← hready]
    exact List.mem_map_of_mem hp
  refine ⟨ready_paths hnodup, fun file hfile => ?_, fun file hfile other hother =>
    h file other (hready file hfile) (hready other hother)⟩
  exact (prepare_faithful setting plan.force d shape.manifest file.path file
    (mem_ready hfile).2).2.path

variable (vector c) in
/-- What is recorded once some files are gathered: those that were ready as they are, and the others
as they were. -/
theorem gathered_records (hnodup : front.Nodup) :
    let gathered := c.gather vector plan (front.map (setting.preparedIn plan d shape))
    (∀ p, (p ∈ front → (setting.preparedIn plan d shape p).file? = none) →
      gathered.manifest.get? p = c.manifest.get? p) ∧
    ∀ p ∈ front, ∀ file, (setting.preparedIn plan d shape p).file? = some file →
      gathered.manifest.get? p = some (recordOf plan file) := by
  refine ⟨fun p hp => ?_, fun p hp file hready => ?_⟩
  · refine Contents.foldl_write_elsewhere fun file hfile heq => ?_
    obtain ⟨hin, hready⟩ := mem_ready hfile
    rw [heq] at hin hready
    have hnone := hp hin
    rw [hready] at hnone
    cases hnone
  · obtain rfl := (prepare_faithful setting plan.force d shape.manifest p file
      (Prepared.file?_some.mp hready)).1
    exact Contents.foldl_write_recorded (ready_paths hnodup)
      (List.mem_filterMap.mpr ⟨_, List.mem_map_of_mem hp, hready⟩)

variable (hforce : plan.force = true)
  (hshape : Shape.ofChanges plan (setting.hashOf d) (t.detectAll m).changes m = shape)

include hshape

theorem anew_shape : shape.Tidied m t.look (t.detectAll m).changes.deleted [] ∧
    setting.preparations plan (t.detectAll m).changes d m =
      (sortedPaths ((t.detectAll m).changes.added ++ (t.detectAll m).changes.modified)).map
        (setting.preparedIn plan d shape) := by
  have htidied : shape.Tidied m t.look (t.detectAll m).changes.deleted [] := by
    rw [← hshape]
    exact Shape.tidied_deletions _ Shape.tidied_start
  refine ⟨htidied, ?_⟩
  have hnone : shape.reindex = [] := by
    rw [List.eq_nil_iff_forall_not_mem]
    intro p hp
    obtain ⟨e, he, _⟩ := htidied.reindex p hp
    exact absurd he List.not_mem_nil
  rw [preparations_eq hshape, hnone, List.append_nil]

include hforce

/-- After a run that gathered some files, all are prepared again: those that were recorded as known,
and the others as they were. -/
theorem preparations_anew
    (hpaths : sortedPaths ((t.detectAll m).changes.added ++ (t.detectAll m).changes.modified) =
      front ++ rest)
    (hrecords : ∀ p, m'.get? p = ((c.shaped shape).gather vector plan
      (front.map (setting.preparedIn plan d shape))).manifest.get? p) :
    Shape.ofChanges plan (setting.hashOf d) (t.detectAll m').changes m' = .start m' ∧
      setting.preparations plan (t.detectAll m').changes d m' =
        (front ++ rest).map (setting.preparedIn plan d (.start m')) ∧
      (∀ p ∈ front, (setting.preparedIn plan d (.start m') p).file? =
        (setting.preparedIn plan d shape p).file?.map PreparedFile.known) ∧
      ∀ p ∈ rest,
        setting.preparedIn plan d (.start m') p = setting.preparedIn plan d shape p := by
  obtain ⟨htidied, _⟩ := anew_shape hshape
  have hnodup : (front ++ rest).Nodup := hpaths ▸ sortedPaths_nodup _
  obtain ⟨hothers, hready⟩ := gathered_records vector (c.shaped shape)
    (List.nodup_append.mp hnodup).1
  have hsame (p : String)
      (hp : p ∈ front → (setting.preparedIn plan d shape p).file? = none) :
      m'.get? p = shape.manifest.get? p := (hrecords p).trans (hothers p hp)
  have hagain (p : String)
      (hp : p ∈ front → (setting.preparedIn plan d shape p).file? = none) :
      setting.preparedIn plan d (.start m') p = setting.preparedIn plan d shape p := by
    show prepare setting plan.force d (WorkItem.ofPath m' p) = _
    rw [WorkItem.ofPath_congr (hsame p hp)]
    rfl
  have hdeleted : (t.detectAll m').changes.deleted = [] := by
    refine TreeView.detectAll_kept htidied fun p => ?_
    by_cases hp : p ∈ front
    · right
      rw [← mem_sortedPaths, hpaths]
      exact List.mem_append_left _ hp
    · exact .inl (hsame p fun hin => absurd hin hp)
  have hstart := Shape.ofChanges_plain plan (setting.hashOf d) (t.detectAll m').changes m' hdeleted
    rfl
  refine ⟨hstart, ?_, fun p hp => ?_, fun p hp => ?_⟩
  · rw [preparations_eq hstart, ← hpaths]
    congr 1
    apply sortedPaths_congr
    intro p
    show p ∈ _ ++ [] ↔ _
    rw [List.append_nil, t.detectAll_listed, t.detectAll_listed]
  · cases hfile : (setting.preparedIn plan d shape p).file? with
    | none =>
      rw [hagain p fun _ => hfile, hfile]
      rfl
    | some file =>
      have hfirst := Prepared.file?_some.mp hfile
      have hrecord := (hrecords p).trans (hready p hp file hfile)
      unfold preparedIn at hfirst ⊢
      rw [hforce] at hfirst ⊢
      show (prepare setting true d (WorkItem.ofPath m' p)).file? = _
      rw [prepare_known setting hfirst hrecord]
      rfl
  · refine hagain p fun hfront => ?_
    exact absurd rfl ((List.nodup_append.mp hnodup).2.2 p hfront p hp)

omit hshape

/-- **A run over everything that is made again.** What is left of such a run when it is stopped, and
is then all indexed anew, comes to what the run would have come to. -/
theorem Leaves.anew {s store : MemoryStore} {missed : Nat}
    (hfree : setting.GivesUpFreely plan (t.detectAll m).changes d m)
    (h : setting.Leaves plan vector (t.detectAll m).changes d ⟨s, m, missed⟩ store m') :
    (setting.replay plan vector (t.detectAll m').changes d ⟨store, m', missed⟩).Alike
      (setting.replay plan vector (t.detectAll m).changes d ⟨s, m, missed⟩) := by
  generalize hshape : Shape.ofChanges plan (setting.hashOf d) (t.detectAll m).changes m = shape
  obtain ⟨htidied, hprepared⟩ := anew_shape hshape
  unfold Leaves at h
  rw [hshape, hprepared] at h
  rcases h with ⟨made, left, hcut, rfl, rfl⟩ |
    ⟨front, rest, made, left, hsplit, hcut, rfl, hrecords⟩
  · -- nothing was moved, and what was cleared is cleared again
    have hclears (edit : StoreEdit) (hedit : edit ∈ shape.edits) : ∃ p, edit = .clear p := by
      rcases htidied.edits edit hedit with ⟨p, rfl, _⟩ | ⟨e, he, _⟩
      · exact ⟨p, rfl⟩
      · exact absurd he List.not_mem_nil
    refine replay_begun hshape ⟨fun edit hedit => ?_, fun source target hmove => ?_⟩ hcut
    · obtain ⟨p, rfl⟩ := hclears edit hedit
      trivial
    · obtain ⟨p, heq⟩ := hclears _ hmove
      cases heq
  · obtain ⟨fs, rs, hpaths, rfl, rfl⟩ := List.map_eq_append_iff.mp hsplit
    obtain ⟨hstart, hprepared', hready, hrest⟩ :=
      preparations_anew hforce hshape hpaths hrecords
    obtain ⟨hfiles, hmissed⟩ := reprepared hready hrest
    rw [hpaths] at hprepared
    have hunshared := hfree.unshared hprepared (hpaths ▸ sortedPaths_nodup _)
    have hall : ((fs ++ rs).map (setting.preparedIn plan d shape)).filterMap Prepared.file? =
        (fs.map (setting.preparedIn plan d shape)).filterMap Prepared.file? ++
          (rs.map (setting.preparedIn plan d shape)).filterMap Prepared.file? := by
      rw [List.map_append, List.filterMap_append]
    have hmade : ∀ edit ∈ made, edit ∈ gatherEdits vector
        (rs.map (setting.preparedIn plan d shape)) := by
      intro edit hedit
      rw [hcut]
      exact List.mem_append_left left hedit
    rw [hall] at hunshared
    rw [replay_eq hstart, replay_eq hshape, hprepared, hprepared']
    refine ⟨?_, fun p => ?_, ?_⟩
    · rw [Contents.gather_store, Contents.gather_store, Contents.gather_store, hfiles, hall]
      exact hunshared.append.rewritten hmade _
    · unfold Contents.gather
      rw [hfiles, hall]
      exact Contents.foldl_write_known hrecords p
    · have hunread : shape.unread = 0 := htidied.unread
      rw [Contents.gather_missed, Contents.gather_missed, hmissed]
      show missed + 0 + _ = missed + shape.unread + _
      rw [hunread]

end Anew

end RunSetting

end CodeIndex
