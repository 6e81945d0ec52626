import CodeIndex.State.Manifest

namespace CodeIndex.Manifest

theorem mem_paths (m : Manifest) (p : String) : p ∈ m.paths ↔ (m.get? p).isSome := by
  rw [paths, Std.ExtTreeMap.mem_keys, get?, ← Std.ExtTreeMap.mem_iff_isSome_getElem?]

theorem mem_records (m : Manifest) (r : FileRecord) :
    r ∈ m.records ↔ ∃ p, m.get? p = some r := by
  rw [records, List.mem_map]
  constructor
  · rintro ⟨⟨p, r'⟩, hmem, rfl⟩
    exact ⟨p, Std.ExtTreeMap.mem_toList_iff_getElem?_eq_some.mp hmem⟩
  · rintro ⟨p, hp⟩
    exact ⟨(p, r), Std.ExtTreeMap.mem_toList_iff_getElem?_eq_some.mpr hp, rfl⟩

theorem isEmpty_iff (m : Manifest) : m.isEmpty = true ↔ ∀ p, m.get? p = none := by
  rw [isEmpty, Std.ExtTreeMap.isEmpty_iff]
  constructor
  · intro h p
    rw [get?, h]
    exact Std.ExtTreeMap.getElem?_empty
  · intro h
    apply Std.ExtTreeMap.ext_getElem?
    intro p
    rw [Std.ExtTreeMap.getElem?_empty]
    exact h p

@[simp] theorem get?_empty (p : String) : empty.get? p = none := by
  exact Std.ExtTreeMap.getElem?_empty

theorem mem_deletedFrom (m : Manifest) (current : List String) (p : String) :
    p ∈ m.deletedFrom current ↔ (m.get? p).isSome ∧ p ∉ current := by
  simp [deletedFrom, mem_paths]

@[simp] theorem get?_recordIndexed (m : Manifest) (r : FileRecord) (now : Duration) (p : String) :
    (m.recordIndexed r now).get? p = if r.path = p then some r else m.get? p := by
  simp only [recordIndexed, get?, Std.ExtTreeMap.getElem?_insert,
    Std.LawfulEqCmp.compare_eq_iff_eq]

@[simp] theorem get?_removeFile (m : Manifest) (path : String) (now : Duration) (p : String) :
    (m.removeFile path now).get? p = if path = p then none else m.get? p := by
  unfold removeFile
  split
  · rename_i hnone
    split
    · rename_i heq
      rw [← heq]
      exact hnone
    · rfl
  · simp only [get?, Std.ExtTreeMap.getElem?_erase, Std.LawfulEqCmp.compare_eq_iff_eq]

/-- A record that is moved keeps all but its path and the commit it was seen at. -/
theorem get?_renameFile (m : Manifest) (source target : String) (commit : Option String)
    (now : Duration) (r : FileRecord) (hr : m.get? source = some r) (p : String) :
    (m.renameFile source target commit now).get? p =
      if target = p then
        some { r with path := target, lastSeenCommit := commit.or r.lastSeenCommit }
      else if source = p then none
      else m.get? p := by
  unfold renameFile
  rw [hr]
  simp only [get?, Std.ExtTreeMap.getElem?_insert, Std.ExtTreeMap.getElem?_erase,
    Std.LawfulEqCmp.compare_eq_iff_eq]

@[simp] theorem get?_setDiverged (m : Manifest) (path : String) (value : Bool) (p : String) :
    (m.setDiverged path value).get? p =
      if path = p then (m.get? p).map fun r => { r with diverged := value } else m.get? p := by
  unfold setDiverged
  split
  · rename_i hnone
    split
    · rename_i heq
      rw [← heq, hnone]
      rfl
    · rfl
  · rename_i r hsome
    simp only [get?, Std.ExtTreeMap.getElem?_insert, Std.LawfulEqCmp.compare_eq_iff_eq]
    split
    · rename_i heq
      have hp : m.files[p]? = some r := heq ▸ hsome
      rw [hp]
      rfl
    · rfl

/-- Settling gives every record the flag of its path, whether or not some flag was wrong. -/
@[simp] theorem get?_settleDivergence (m : Manifest) (found : Std.ExtTreeSet String)
    (now : Duration) (p : String) :
    (m.settleDivergence found now).get? p =
      (m.get? p).map fun r => { r with diverged := found.contains r.path } := by
  unfold settleDivergence
  split
  · simp only [get?, Std.ExtTreeMap.getElem?_map]
  · rename_i hsettled
    cases hp : m.get? p with
    | none => rfl
    | some r =>
      have hflag : r.diverged = found.contains r.path := by
        have hr : r ∈ m.records := (mem_records m r).mpr ⟨p, hp⟩
        have hall : ¬ (m.records.any fun r => r.diverged != found.contains r.path) = true :=
          hsettled
        rw [List.any_eq_true] at hall
        apply Decidable.byContradiction
        intro hne
        exact hall ⟨r, hr, by simpa using hne⟩
      rw [Option.map_some, ← hflag]

def Keyed (m : Manifest) : Prop := ∀ p r, m.get? p = some r → r.path = p

theorem keyed_empty : empty.Keyed := by
  intro p r h
  rw [get?_empty] at h
  cases h

theorem keyed_recordIndexed (m : Manifest) (r : FileRecord) (now : Duration) (h : m.Keyed) :
    (m.recordIndexed r now).Keyed := by
  intro p r' hp
  rw [get?_recordIndexed] at hp
  split at hp
  · rename_i heq
    cases hp
    exact heq
  · exact h p r' hp

theorem keyed_removeFile (m : Manifest) (path : String) (now : Duration) (h : m.Keyed) :
    (m.removeFile path now).Keyed := by
  intro p r hp
  rw [get?_removeFile] at hp
  split at hp
  · cases hp
  · exact h p r hp

theorem keyed_renameFile (m : Manifest) (source target : String) (commit : Option String)
    (now : Duration) (h : m.Keyed) : (m.renameFile source target commit now).Keyed := by
  cases hs : m.get? source with
  | none =>
    have hsame : m.renameFile source target commit now = m := by
      unfold renameFile
      rw [hs]
    rw [hsame]
    exact h
  | some r =>
    intro p r' hp
    rw [get?_renameFile m source target commit now r hs] at hp
    split at hp
    · rename_i heq
      cases hp
      exact heq
    · split at hp
      · cases hp
      · exact h p r' hp

theorem keyed_setDiverged (m : Manifest) (path : String) (value : Bool) (h : m.Keyed) :
    (m.setDiverged path value).Keyed := by
  intro p r hp
  rw [get?_setDiverged] at hp
  split at hp
  · obtain ⟨r', hr', rfl⟩ := Option.map_eq_some_iff.mp hp
    exact h p r' hr'
  · exact h p r hp

theorem keyed_settleDivergence (m : Manifest) (found : Std.ExtTreeSet String) (now : Duration)
    (h : m.Keyed) : (m.settleDivergence found now).Keyed := by
  intro p r hp
  rw [get?_settleDivergence] at hp
  obtain ⟨r', hr', rfl⟩ := Option.map_eq_some_iff.mp hp
  exact h p r' hr'

theorem mem_divergedPaths (m : Manifest) (h : m.Keyed) (p : String) :
    p ∈ m.divergedPaths ↔ ∃ r, m.get? p = some r ∧ r.diverged = true := by
  simp only [divergedPaths, List.mem_map, List.mem_filter, mem_records]
  constructor
  · rintro ⟨r, ⟨⟨q, hq⟩, hflag⟩, hpath⟩
    have hkey : r.path = q := h q r hq
    have hqp : q = p := hkey.symm.trans hpath
    exact ⟨r, hqp ▸ hq, hflag⟩
  · rintro ⟨r, hr, hflag⟩
    exact ⟨r, ⟨⟨p, hr⟩, hflag⟩, h p r hr⟩

/-- The hash that is recorded of a path. -/
def hashAt (m : Manifest) (p : String) : Option ContentHash := (m.get? p).map (·.contentHash)

theorem hashAt_none (m : Manifest) (p : String) : m.hashAt p = none ↔ m.get? p = none := by
  simp [hashAt]

theorem hashAt_recordIndexed (m : Manifest) (r : FileRecord) (now : Duration) (p : String) :
    (m.recordIndexed r now).hashAt p = if r.path = p then some r.contentHash else m.hashAt p := by
  simp only [hashAt, get?_recordIndexed]
  split <;> rfl

theorem hashAt_removeFile (m : Manifest) (path : String) (now : Duration) (p : String) :
    (m.removeFile path now).hashAt p = if path = p then none else m.hashAt p := by
  simp only [hashAt, get?_removeFile]
  split <;> rfl

theorem hashAt_settleDivergence (m : Manifest) (found : Std.ExtTreeSet String) (now : Duration)
    (p : String) : (m.settleDivergence found now).hashAt p = m.hashAt p := by
  simp only [hashAt, get?_settleDivergence, Option.map_map]
  rfl

end CodeIndex.Manifest
