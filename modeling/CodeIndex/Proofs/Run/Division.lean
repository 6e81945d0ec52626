import CodeIndex.Proofs.Run.Refresh

namespace CodeIndex

/-- Lists without repetition that have the same members are of one length. -/
theorem length_eq_of_mem {α : Type} {xs ys : List α} (hxs : xs.Nodup) (hys : ys.Nodup)
    (h : ∀ a, a ∈ xs ↔ a ∈ ys) : xs.length = ys.length :=
  ((List.perm_ext_iff_of_nodup hxs hys).mpr h).length_eq

namespace PreparedFile

def kept (file : PreparedFile) : List String :=
  file.currentIds.toList.filter fun id => !(file.fresh.map (·.id)).contains id

def unchanged (file : PreparedFile) : List String :=
  file.previousIds.toList.filter fun id => file.currentIds.contains id

structure Divided (force : Bool) (entities : List Entity) (file : PreparedFile) : Prop where
  distinct : (entities.map (·.id)).Nodup
  current : ∀ id, id ∈ file.currentIds ↔ id ∈ entities.map (·.id)
  fresh : file.fresh = (partitionNew file.previousIds entities force).1

namespace Divided

variable {force : Bool} {entities : List Entity} {file : PreparedFile}
  (h : file.Divided force entities)

include h

theorem size_current : file.currentIds.size = entities.length := by
  rw [← Std.ExtTreeSet.length_toList, ← entities.length_map (·.id)]
  apply length_eq_of_mem (nodup_toList _) h.distinct
  exact fun id => Std.ExtTreeSet.mem_toList.trans (h.current id)

theorem mem_fresh (id : String) : id ∈ file.fresh.map (·.id) ↔
    id ∈ file.currentIds ∧ (force = false → id ∉ file.previousIds) := by
  rw [h.fresh, h.current]
  simp only [List.mem_map, mem_partitionNew]
  constructor
  · rintro ⟨e, ⟨he, hnew⟩, rfl⟩
    exact ⟨⟨e, he, rfl⟩, hnew⟩
  · rintro ⟨⟨e, he, rfl⟩, hnew⟩
    exact ⟨e, ⟨he, hnew⟩, rfl⟩

theorem nodup_fresh : (file.fresh.map (·.id)).Nodup := by
  rw [h.fresh]
  exact h.distinct.sublist ((partitionNew_sublist _ _ _).map _)

theorem size_kept : file.currentIds.size = file.fresh.length + file.kept.length := by
  -- the entities to be embedded have current ids, and each an id of its own
  have hfresh : (file.currentIds.toList.filter fun id =>
      (file.fresh.map (·.id)).contains id).length = file.fresh.length := by
    rw [← file.fresh.length_map (·.id)]
    apply length_eq_of_mem ((nodup_toList _).filter _) h.nodup_fresh
    intro id
    rw [List.mem_filter, Std.ExtTreeSet.mem_toList, List.contains_iff_mem]
    exact ⟨fun hid => hid.2, fun hid => ⟨((h.mem_fresh id).mp hid).1, hid⟩⟩
  rw [← Std.ExtTreeSet.length_toList, ← hfresh]
  exact List.length_eq_length_filter_add _

theorem mem_kept (id : String) :
    id ∈ file.kept ↔ force = false ∧ id ∈ file.currentIds ∧ id ∈ file.previousIds := by
  have hfresh := h.mem_fresh id
  rw [kept, List.mem_filter, Std.ExtTreeSet.mem_toList, Bool.not_eq_true', ← Bool.not_eq_true,
    List.contains_iff_mem, hfresh]
  cases force with
  | true => simp
  | false =>
    constructor
    · rintro ⟨hid, hold⟩
      exact ⟨rfl, hid, Decidable.byContradiction fun hnew => hold ⟨hid, fun _ => hnew⟩⟩
    · rintro ⟨_, hid, hprevious⟩
      exact ⟨hid, fun hnew => hnew.2 rfl hprevious⟩

theorem kept_forced (hforce : force = true) : file.kept = [] := by
  apply List.eq_nil_iff_forall_not_mem.mpr
  intro id hid
  have hlazy := ((h.mem_kept id).mp hid).1
  rw [hforce] at hlazy
  cases hlazy

theorem length_kept (hforce : force = false) : file.kept.length = file.unchanged.length := by
  apply length_eq_of_mem ((nodup_toList _).filter _) ((nodup_toList _).filter _)
  intro id
  refine (h.mem_kept id).trans ?_
  rw [List.mem_filter, Std.ExtTreeSet.mem_toList, Std.ExtTreeSet.contains_iff_mem]
  exact ⟨fun hid => ⟨hid.2.2, hid.2.1⟩, fun hid => ⟨hforce, hid.2, hid.1⟩⟩

/-- Of the entities to be embedded, the file had those that are unchanged if all are embedded anew,
and none of them otherwise. -/
theorem length_again : ((file.fresh.map (·.id)).filter file.previousIds.contains).length =
    if force then file.unchanged.length else 0 := by
  cases force with
  | true =>
    -- all ids are embedded, so both sides are what the file had and still has
    rw [if_pos rfl]
    apply length_eq_of_mem (h.nodup_fresh.filter _) ((nodup_toList _).filter _)
    intro id
    rw [List.mem_filter, List.mem_filter, h.mem_fresh, Std.ExtTreeSet.mem_toList,
      Std.ExtTreeSet.contains_iff_mem, Std.ExtTreeSet.contains_iff_mem]
    exact ⟨fun hid => ⟨hid.2, hid.1.1⟩, fun hid => ⟨⟨hid.2, fun hlazy => by cases hlazy⟩, hid.1⟩⟩
  | false =>
    -- only ids that are new are embedded
    rw [if_neg Bool.false_ne_true, List.length_eq_zero_iff, List.filter_eq_nil_iff]
    intro id hid
    rw [Std.ExtTreeSet.contains_iff_mem]
    exact ((h.mem_fresh id).mp hid).2 rfl

/-- The entities of a file are those to be embedded and those that are unchanged. When all are
embedded anew, the unchanged ones are among both. -/
theorem length_entities : file.fresh.length + file.unchanged.length =
    entities.length + if force then file.unchanged.length else 0 := by
  have hsize := h.size_current
  have hkept := h.size_kept
  cases force with
  | true =>
    rw [h.kept_forced rfl, List.length_nil] at hkept
    rw [if_pos rfl]
    omega
  | false =>
    rw [h.length_kept rfl] at hkept
    rw [if_neg Bool.false_ne_true]
    omega

end Divided

end PreparedFile

/-- A file that is ready has the entities that are found in its content. -/
theorem prepare_divided {σ : Type} {setting : RunSetting σ} {force : Bool} {d : Disk}
    {item : WorkItem} {file : PreparedFile} (h : prepare setting force d item = .ready file) :
    ∃ content modified found,
      d.readFile (Path.join setting.root item.path) = .ok (content, modified) ∧
      setting.extractor.find item.path content = .ok found ∧
      file.Divided force (mintEntities item.path file.lineage found setting.config.variants) := by
  unfold prepare at h
  split at h
  · cases h
  · rename_i content modified hread
    obtain ⟨found, hfound, rfl⟩ := prepareContent_ready h
    refine ⟨content, modified, found, hread, hfound, mintEntities_nodup _ _ _ _, fun id => ?_, rfl⟩
    rw [Std.ExtTreeSet.mem_ofList, List.contains_iff_mem]

end CodeIndex
