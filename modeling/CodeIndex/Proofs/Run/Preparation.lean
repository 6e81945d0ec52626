import CodeIndex.Proofs.Entity.Mint
import CodeIndex.Run.Prepare

namespace CodeIndex

namespace WorkItem

theorem ofPath_path (m : Manifest) (path : String) :
    (WorkItem.ofPath m path).path = path := by
  unfold ofPath
  split <;> rfl

theorem ofPath_lineage (m : Manifest) (path : String) :
    (WorkItem.ofPath m path).lineage = (m.get? path).map (·.lineage) := by
  unfold ofPath
  split <;> rename_i h <;> rw [h] <;> rfl

theorem ofPath_congr {m m' : Manifest} {p : String} (h : m.get? p = m'.get? p) :
    WorkItem.ofPath m p = WorkItem.ofPath m' p := by
  unfold ofPath
  rw [h]

theorem mem_previousIds (m : Manifest) (path id : String) :
    id ∈ (ofPath m path).previousIds ↔ ∃ r, m.get? path = some r ∧ id ∈ r.entityIds := by
  unfold ofPath
  cases m.get? path with
  | none =>
    constructor
    · exact fun h => absurd h Std.ExtTreeSet.not_mem_empty
    · rintro ⟨r, hr, _⟩
      cases hr
  | some record =>
    rw [Std.ExtTreeSet.mem_ofList, List.contains_iff_mem]
    constructor
    · exact fun h => ⟨record, rfl, h⟩
    · rintro ⟨r, hr, h⟩
      cases hr
      exact h

end WorkItem

section

variable (entities : List Entity)

theorem mem_idSet (id : String) :
    id ∈ (Std.ExtTreeSet.ofList (entities.map (·.id)) : Std.ExtTreeSet String) ↔
      ∃ e ∈ entities, e.id = id := by
  rw [Std.ExtTreeSet.mem_ofList, List.contains_iff_mem, List.mem_map]

variable (previous : Std.ExtTreeSet String) (force : Bool)

/-- The entities to be embedded are those that had no entry so far, or all. -/
theorem mem_partitionNew (e : Entity) : e ∈ (partitionNew previous entities force).1 ↔
    e ∈ entities ∧ (force = false → e.id ∉ previous) := by
  unfold partitionNew
  cases force with
  | true =>
    rw [if_pos rfl]
    exact ⟨fun he => ⟨he, fun hlazy => by cases hlazy⟩, And.left⟩
  | false =>
    rw [if_neg Bool.false_ne_true, List.mem_filter, Bool.not_eq_true', ← Bool.not_eq_true,
      Std.ExtTreeSet.contains_iff_mem]
    exact ⟨fun h => ⟨h.1, fun _ => h.2⟩, fun h => ⟨h.1, h.2 rfl⟩⟩

theorem partitionNew_sublist : (partitionNew previous entities force).1.Sublist entities := by
  unfold partitionNew
  split
  · exact List.Sublist.refl _
  · exact List.filter_sublist

end

def Prepared.path : Prepared → String
  | .ready file => file.path
  | .unreadable path => path
  | .failed path _ => path

def Prepared.file? : Prepared → Option PreparedFile
  | .ready file => some file
  | _ => none

theorem prepareContent_ready {x : Extractor} {variants : List ChunkVariant} {force : Bool}
    {item : WorkItem} {content : ByteArray} {modified : Nat} {file : PreparedFile}
    (h : prepareContent x variants force item content modified = .ready file) :
    ∃ found, x.find item.path content = .ok found ∧
      let lineage := item.lineage.getD (lineageFor item.path)
      let entities := mintEntities item.path lineage found variants
      file = {
        path := item.path
        hash := Digest.contentHash content
        modificationTime := modified % Nat.pow 2 64
        lineage := lineage
        hasRecord := item.lineage.isSome
        previousIds := item.previousIds
        currentIds := .ofList (entities.map (·.id))
        fresh := (partitionNew item.previousIds entities force).1 } := by
  unfold prepareContent at h
  split at h
  · cases h
  · rename_i found hfound
    injection h with h
    exact ⟨found, hfound, h.symm⟩

theorem prepare_path {σ : Type} (setting : RunSetting σ) (force : Bool) (d : Disk)
    (item : WorkItem) : (prepare setting force d item).path = item.path := by
  unfold prepare
  split
  · rfl
  · unfold prepareContent
    split <;> rfl

theorem prepare_read {σ : Type} (setting : RunSetting σ) (force : Bool) {d : Disk}
    {item : WorkItem} {content : ByteArray} {modified : Nat}
    (h : d.readFile (Path.join setting.root item.path) = .ok (content, modified)) :
    prepare setting force d item =
      prepareContent setting.extractor setting.config.variants force item content modified := by
  unfold prepare
  rw [h]

theorem prepare_time {σ : Type} (setting : RunSetting σ) {force : Bool} {d : Disk}
    {item : WorkItem} {file : PreparedFile} (h : prepare setting force d item = .ready file) :
    file.modificationTime < Nat.pow 2 64 := by
  unfold prepare at h
  split at h
  · cases h
  · obtain ⟨found, _, rfl⟩ := prepareContent_ready h
    exact Nat.mod_lt _ (by decide)

structure PreparedFile.Faithful (m : Manifest) (file : PreparedFile) : Prop where
  time : file.modificationTime < Nat.pow 2 64
  recorded : file.hasRecord = (m.get? file.path).isSome
  previous : ∀ id, id ∈ file.previousIds ↔ ∃ r, m.get? file.path = some r ∧ id ∈ r.entityIds
  path : ∀ e ∈ file.fresh, e.filePath = file.path
  fresh : ∀ e ∈ file.fresh, e.id ∈ file.currentIds
  current : ∀ id ∈ file.currentIds, id ∈ file.previousIds ∨ ∃ e ∈ file.fresh, e.id = id

theorem PreparedFile.Faithful.congr {m m' : Manifest} {file : PreparedFile} (h : file.Faithful m)
    (hm : m'.get? file.path = m.get? file.path) : file.Faithful m' where
  time := h.time
  recorded := by rw [hm]; exact h.recorded
  previous := by rw [hm]; exact h.previous
  path := h.path
  fresh := h.fresh
  current := h.current

/-- A file that is prepared by the record of its path is faithful to the records. -/
theorem prepare_faithful {σ : Type} (setting : RunSetting σ) (force : Bool) (d : Disk)
    (m : Manifest) (p : String) (file : PreparedFile)
    (h : prepare setting force d (WorkItem.ofPath m p) = .ready file) :
    file.path = p ∧ file.Faithful m := by
  have hpath : file.path = p := by
    have heq := prepare_path setting force d (WorkItem.ofPath m p)
    rw [h, WorkItem.ofPath_path] at heq
    exact heq
  refine ⟨hpath, ?_⟩
  unfold prepare at h
  split at h
  · cases h
  · obtain ⟨found, _, rfl⟩ := prepareContent_ready h
    refine ⟨Nat.mod_lt _ (by decide), ?_, fun id => ?_, fun e he => ?_, fun e he => ?_,
      fun id hid => ?_⟩
    · dsimp only
      rw [WorkItem.ofPath_path, WorkItem.ofPath_lineage, Option.isSome_map]
    · rw [WorkItem.ofPath_path]
      exact WorkItem.mem_previousIds m p id
    · exact mintEntities_path _ _ _ _ e ((mem_partitionNew _ _ _ e).mp he).1
    · exact (mem_idSet _ _).mpr ⟨e, ((mem_partitionNew _ _ _ e).mp he).1, rfl⟩
    · obtain ⟨e, he, rfl⟩ := (mem_idSet _ _).mp hid
      by_cases hold : e.id ∈ (WorkItem.ofPath m p).previousIds
      · exact .inl hold
      · exact .inr ⟨e, (mem_partitionNew _ _ _ e).mpr ⟨he, fun _ => hold⟩, rfl⟩

end CodeIndex
