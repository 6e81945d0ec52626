import CodeIndex.Change.Confirm
import CodeIndex.Proofs.Change.ChangeSet
import CodeIndex.Proofs.State.Manifest

namespace CodeIndex

namespace Sorting

variable (m : Manifest) (look : String → FileState)

/-- One candidate rename adds to each part of a sorting what its two ends say. -/
theorem addRename_parts (s : Sorting) (a b : String) :
    (∀ p, p ∈ (addRename m look s (a, b)).check ↔ p ∈ s.check ∨
      (m.get? a = none ∧ p = b) ∨
      ((m.get? a).isSome ∧ (look b).isPresent ∧ (look a).isPresent ∧ (p = a ∨ p = b))) ∧
    (∀ p, p ∈ (addRename m look s (a, b)).gone ↔ p ∈ s.gone ∨
      ((m.get? a).isSome ∧ (look b).isPresent = false ∧ look b ≠ .unreadable ∧ p = a)) ∧
    (∀ e, e ∈ (addRename m look s (a, b)).renames ↔ e ∈ s.renames ∨
      ((m.get? a).isSome ∧ (look b).isPresent ∧ (look a).isPresent = false ∧ e = (a, b))) ∧
    (∀ p, p ∈ (addRename m look s (a, b)).skipped ↔ p ∈ s.skipped ∨
      ((m.get? a).isSome ∧ look b = .unreadable ∧ p = b)) := by
  unfold addRename
  dsimp only
  cases hrec : m.get? a with
  | none => simp
  | some r =>
    cases hlook : look b with
    | present hash =>
      have hb : (FileState.present hash).isPresent = true := rfl
      by_cases hsource : (look a).isPresent = true
      · simp [hsource, hb]
      · simp [hsource, hb]
    | missing => simp [FileState.isPresent]
    | excluded => simp [FileState.isPresent]
    | unreadable => simp [FileState.isPresent]

/-- What is in each part of a sorting once some renames are sorted in too. -/
theorem foldl_addRename_parts (renamed : List (String × String)) (s : Sorting) :
    (∀ p, p ∈ (renamed.foldl (addRename m look) s).check ↔ p ∈ s.check ∨
      ∃ e ∈ renamed, (m.get? e.1 = none ∧ p = e.2) ∨
        ((m.get? e.1).isSome ∧ (look e.2).isPresent ∧ (look e.1).isPresent ∧
          (p = e.1 ∨ p = e.2))) ∧
    (∀ p, p ∈ (renamed.foldl (addRename m look) s).gone ↔ p ∈ s.gone ∨
      ∃ e ∈ renamed, (m.get? e.1).isSome ∧ (look e.2).isPresent = false ∧
        look e.2 ≠ .unreadable ∧ p = e.1) ∧
    (∀ e, e ∈ (renamed.foldl (addRename m look) s).renames ↔ e ∈ s.renames ∨
      (e ∈ renamed ∧ (m.get? e.1).isSome ∧ (look e.2).isPresent ∧
        (look e.1).isPresent = false)) ∧
    (∀ p, p ∈ (renamed.foldl (addRename m look) s).skipped ↔ p ∈ s.skipped ∨
      ∃ e ∈ renamed, (m.get? e.1).isSome ∧ look e.2 = .unreadable ∧ p = e.2) := by
  induction renamed generalizing s with
  | nil => simp
  | cons ends rest ih =>
    obtain ⟨a, b⟩ := ends
    obtain ⟨hcheck, hgone, hrenames, hskipped⟩ := addRename_parts m look s a b
    obtain ⟨icheck, igone, irenames, iskipped⟩ := ih (addRename m look s (a, b))
    rw [List.foldl_cons]
    refine ⟨?_, ?_, ?_, ?_⟩
    · intro p
      rw [icheck, hcheck]
      simp only [List.mem_cons, exists_eq_or_imp, or_assoc]
    · intro p
      rw [igone, hgone]
      simp only [List.mem_cons, exists_eq_or_imp, or_assoc]
    · intro e
      rw [irenames, hrenames]
      simp only [List.mem_cons, or_assoc]
      constructor
      · -- the part of the renames lists the entry itself, and not one of its ends
        rintro (h | ⟨h1, h2, h3, rfl⟩ | ⟨h0, h⟩)
        · exact .inl h
        · exact .inr ⟨.inl rfl, h1, h2, h3⟩
        · exact .inr ⟨.inr h0, h⟩
      · rintro (h | ⟨rfl | h0, h⟩)
        · exact .inl h
        · exact .inr (.inl ⟨h.1, h.2.1, h.2.2, rfl⟩)
        · exact .inr (.inr ⟨h0, h⟩)
    · intro p
      rw [iskipped, hskipped]
      simp only [List.mem_cons, exists_eq_or_imp, or_assoc]

theorem ofCandidates_parts (candidates : ChangeSet) :
    (∀ p, p ∈ (ofCandidates m look candidates).check ↔
      p ∈ candidates.added ∨ p ∈ candidates.modified ∨
      ∃ e ∈ candidates.renamed, (m.get? e.1 = none ∧ p = e.2) ∨
        ((m.get? e.1).isSome ∧ (look e.2).isPresent ∧ (look e.1).isPresent ∧
          (p = e.1 ∨ p = e.2))) ∧
    (∀ p, p ∈ (ofCandidates m look candidates).gone ↔ p ∈ candidates.deleted ∨
      ∃ e ∈ candidates.renamed, (m.get? e.1).isSome ∧ (look e.2).isPresent = false ∧
        look e.2 ≠ .unreadable ∧ p = e.1) ∧
    (∀ e, e ∈ (ofCandidates m look candidates).renames ↔ e ∈ candidates.renamed ∧
      (m.get? e.1).isSome ∧ (look e.2).isPresent ∧ (look e.1).isPresent = false) ∧
    (∀ p, p ∈ (ofCandidates m look candidates).skipped ↔
      ∃ e ∈ candidates.renamed, (m.get? e.1).isSome ∧ look e.2 = .unreadable ∧ p = e.2) := by
  obtain ⟨hcheck, hgone, hrenames, hskipped⟩ := foldl_addRename_parts m look candidates.renamed
    { check := candidates.added ++ candidates.modified, gone := candidates.deleted }
  refine ⟨?_, hgone, ?_, ?_⟩
  · intro p
    rw [ofCandidates, hcheck]
    simp only [List.mem_append, or_assoc]
  · intro e
    rw [ofCandidates, hrenames]
    simp
  · intro p
    rw [ofCandidates, hskipped]
    simp

def Covers (s : Sorting) (p : String) : Prop :=
  p ∈ s.paths ∨ ∃ e ∈ s.renames, p = e.1 ∨ p = e.2

end Sorting

section Confirm

variable (m : Manifest) (look : String → FileState) (candidates : ChangeSet)

def comparedPaths : List String := (Sorting.ofCandidates m look candidates).paths

def foundAdded : List (String × ContentHash) :=
  ((comparedPaths m look candidates).map fun path =>
    (path, compareRecord (m.get? path) (look path))).filterMap fun
      | (path, .added hash) => some (path, hash)
      | _ => none

def foundDeleted : List String :=
  (((comparedPaths m look candidates).map fun path =>
    (path, compareRecord (m.get? path) (look path))).filter (·.2 == .deleted)).map (·.1)

theorem mem_having (c : Comparison) (p : String) :
    p ∈ (((comparedPaths m look candidates).map fun path =>
        (path, compareRecord (m.get? path) (look path))).filter (·.2 == c)).map (·.1) ↔
      p ∈ comparedPaths m look candidates ∧ compareRecord (m.get? p) (look p) = c := by
  simp only [List.mem_map, List.mem_filter, beq_iff_eq]
  constructor
  · rintro ⟨x, ⟨⟨q, hq, rfl⟩, hx⟩, rfl⟩
    exact ⟨hq, hx⟩
  · rintro ⟨hp, hc⟩
    exact ⟨_, ⟨⟨p, hp, rfl⟩, hc⟩, rfl⟩

theorem mem_foundAdded (p : String) (hash : ContentHash) :
    (p, hash) ∈ foundAdded m look candidates ↔
      p ∈ comparedPaths m look candidates ∧
        compareRecord (m.get? p) (look p) = .added hash := by
  simp only [foundAdded, List.mem_filterMap, List.mem_map]
  constructor
  · rintro ⟨x, ⟨q, hq, rfl⟩, hx⟩
    split at hx
    · rename_i path found heq
      cases hx
      injection heq with hqp hc
      rw [← hqp]
      exact ⟨hq, hc⟩
    · cases hx
  · rintro ⟨hp, hc⟩
    exact ⟨_, ⟨p, hp, rfl⟩, by rw [hc]⟩

theorem mem_foundDeleted (p : String) :
    p ∈ foundDeleted m look candidates ↔
      p ∈ comparedPaths m look candidates ∧ compareRecord (m.get? p) (look p) = .deleted :=
  mem_having m look candidates .deleted p

section Partner

variable (added : List (String × ContentHash)) (deleted : List String)

theorem recorded_with (path : String) (hash : ContentHash) :
    (m.get? path).any (·.contentHash == hash) = (m.hashAt path == some hash) := by
  cases hrec : m.get? path <;> simp [Manifest.hashAt, hrec]

theorem mem_deletedWith (hash : ContentHash) (d : String) :
    d ∈ deletedWith m deleted hash ↔ d ∈ deleted ∧ m.hashAt d = some hash := by
  simp only [deletedWith, recorded_with, List.mem_filter, beq_iff_eq]

theorem length_deletedWith (hash : ContentHash) :
    (deletedWith m deleted hash).length = deleted.countP (m.hashAt · == some hash) := by
  simp only [deletedWith, recorded_with, List.countP_eq_length_filter]

/-- An addition is paired with the one deletion of its hash, if it is itself the one addition of
it. -/
theorem partnerOf_eq_some_iff (hash : ContentHash) (d : String) :
    partnerOf m added deleted hash = some d ↔
      (d ∈ deleted ∧ m.hashAt d = some hash) ∧ added.countP (·.2 == hash) = 1 ∧
        deleted.countP (m.hashAt · == some hash) = 1 := by
  rw [← mem_deletedWith, ← length_deletedWith, List.countP_eq_length_filter,
    List.length_eq_one_iff, List.length_eq_one_iff]
  unfold partnerOf
  constructor
  · intro h
    split at h
    · rename_i x source hx hsource
      cases h
      exact ⟨by simp [hsource], ⟨x, hx⟩, ⟨d, hsource⟩⟩
    · cases h
  · rintro ⟨hd, ⟨x, hx⟩, ⟨source, hsource⟩⟩
    have hsame : d = source := by simpa [hsource] using hd
    rw [hx, hsource, hsame]

theorem mem_pairs (a b : String) :
    (a, b) ∈ added.filterMap (fun (path, hash) =>
      (partnerOf m added deleted hash).map (·, path)) ↔
    ∃ hash, (b, hash) ∈ added ∧ partnerOf m added deleted hash = some a := by
  simp only [List.mem_filterMap, Option.map_eq_some_iff]
  constructor
  · rintro ⟨⟨path, hash⟩, hmem, source, hsource, heq⟩
    cases heq
    exact ⟨hash, hmem, hsource⟩
  · rintro ⟨hash, hmem, hsource⟩
    exact ⟨(b, hash), hmem, a, hsource, rfl⟩

end Partner

theorem confirm_parts :
    (∀ p, p ∈ (confirm m look candidates).changes.added ↔
      ∃ hash, (p, hash) ∈ foundAdded m look candidates ∧
        partnerOf m (foundAdded m look candidates) (foundDeleted m look candidates) hash = none) ∧
    (∀ p, p ∈ (confirm m look candidates).changes.modified ↔
      p ∈ comparedPaths m look candidates ∧
        compareRecord (m.get? p) (look p) = .modified) ∧
    (∀ p, p ∈ (confirm m look candidates).changes.deleted ↔
      p ∈ foundDeleted m look candidates ∧
        ∀ q hash, (q, hash) ∈ foundAdded m look candidates →
          partnerOf m (foundAdded m look candidates) (foundDeleted m look candidates) hash ≠
            some p) ∧
    (∀ a b, (a, b) ∈ (confirm m look candidates).changes.renamed ↔
      (a, b) ∈ (Sorting.ofCandidates m look candidates).renames ∨
      ∃ hash, (b, hash) ∈ foundAdded m look candidates ∧
        partnerOf m (foundAdded m look candidates) (foundDeleted m look candidates) hash =
          some a) ∧
    (∀ p, p ∈ (confirm m look candidates).skipped ↔
      p ∈ (Sorting.ofCandidates m look candidates).skipped ∨
      (p ∈ comparedPaths m look candidates ∧
        compareRecord (m.get? p) (look p) = .skipped)) := by
  -- the additions and deletions are those that no pair takes up
  have hpair := mem_pairs m (foundAdded m look candidates) (foundDeleted m look candidates)
  refine ⟨?_, ?_, ?_, ?_, ?_⟩
  · intro p
    show p ∈ sortedPaths ((pairRenames m (foundAdded m look candidates)
      (foundDeleted m look candidates)).added) ↔ _
    rw [mem_sortedPaths]
    simp only [pairRenames, List.mem_map, List.mem_filter, Option.isNone_iff_eq_none]
    constructor
    · rintro ⟨⟨q, hash⟩, ⟨hmem, hnone⟩, rfl⟩
      exact ⟨hash, hmem, hnone⟩
    · rintro ⟨hash, hmem, hnone⟩
      exact ⟨(p, hash), ⟨hmem, hnone⟩, rfl⟩
  · intro p
    show p ∈ sortedPaths _ ↔ _
    rw [mem_sortedPaths]
    exact mem_having m look candidates .modified p
  · intro p
    show p ∈ sortedPaths ((pairRenames m (foundAdded m look candidates)
      (foundDeleted m look candidates)).deleted) ↔ _
    rw [mem_sortedPaths]
    simp only [pairRenames, List.mem_filter, Bool.not_eq_true', List.any_eq_false, beq_iff_eq]
    constructor
    · rintro ⟨hmem, hnot⟩
      refine ⟨hmem, fun q hash hq hpartner => ?_⟩
      exact hnot (p, q) ((hpair p q).mpr ⟨hash, hq, hpartner⟩) rfl
    · rintro ⟨hmem, hnot⟩
      refine ⟨hmem, ?_⟩
      rintro ⟨a, b⟩ hab heq
      obtain ⟨hash, hb, hpartner⟩ := (hpair a b).mp hab
      have hap : a = p := heq
      exact hnot b hash hb (hap ▸ hpartner)
  · intro a b
    show (a, b) ∈ sortedPairs ((Sorting.ofCandidates m look candidates).renames ++
      (pairRenames m (foundAdded m look candidates) (foundDeleted m look candidates)).renamed) ↔ _
    rw [mem_sortedPairs, List.mem_append]
    exact or_congr Iff.rfl (hpair a b)
  · intro p
    show p ∈ sortedPaths _ ↔ _
    rw [mem_sortedPaths, List.mem_append]
    exact or_congr Iff.rfl (mem_having m look candidates .skipped p)

end Confirm

theorem compareRecord_added (record : Option FileRecord) (s : FileState) (hash : ContentHash) :
    compareRecord record s = .added hash ↔ record = none ∧ s = .present hash := by
  cases s <;> cases record <;> simp [compareRecord]
  split <;> simp

theorem compareRecord_modified (record : Option FileRecord) (s : FileState) :
    compareRecord record s = .modified ↔
      ∃ r hash, record = some r ∧ s = .present hash ∧ r.contentHash ≠ hash := by
  cases s <;> cases record <;> simp [compareRecord]

theorem compareRecord_deleted (record : Option FileRecord) (s : FileState) :
    compareRecord record s = .deleted ↔ record.isSome ∧ (s = .missing ∨ s = .excluded) := by
  cases s <;> cases record <;> simp [compareRecord]
  split <;> simp

theorem compareRecord_skipped (record : Option FileRecord) (s : FileState) :
    compareRecord record s = .skipped ↔ s = .unreadable := by
  cases s <;> cases record <;> simp [compareRecord]
  split <;> simp

theorem compareRecord_same (record : Option FileRecord) (s : FileState) :
    compareRecord record s = .same ↔
      (∃ r hash, record = some r ∧ s = .present hash ∧ r.contentHash = hash) ∨
      (record = none ∧ (s = .missing ∨ s = .excluded)) := by
  cases s with
  | present hash =>
    cases record with
    | none => simp [compareRecord]
    | some r =>
      have hcompared : compareRecord (some r) (.present hash) = .same ↔ r.contentHash = hash := by
        simp [compareRecord]
      rw [hcompared]
      constructor
      · exact fun h => .inl ⟨r, hash, rfl, rfl, h⟩
      · rintro (⟨r', hash', hr, hstate, h⟩ | ⟨hr, _⟩)
        · cases hr
          cases hstate
          exact h
        · cases hr
  | missing => cases record <;> simp [compareRecord]
  | excluded => cases record <;> simp [compareRecord]
  | unreadable => simp [compareRecord]

/-- What the members of confirmed changes show of the disk and of the records. -/
structure Evident (m : Manifest) (look : String → FileState) (c : ChangeSet) : Prop where
  added : ∀ p ∈ c.added, m.get? p = none ∧ ∃ hash, look p = .present hash
  modified : ∀ p ∈ c.modified,
    ∃ r hash, m.get? p = some r ∧ look p = .present hash ∧ r.contentHash ≠ hash
  deleted : ∀ p ∈ c.deleted, (m.get? p).isSome ∧ (look p = .missing ∨ look p = .excluded)
  renamed : ∀ e ∈ c.renamed, (m.get? e.1).isSome ∧ (look e.1).isPresent = false ∧
    ∃ hash, look e.2 = .present hash

theorem FileState.isPresent_iff (s : FileState) :
    s.isPresent = true ↔ ∃ hash, s = .present hash := by
  cases s <;> simp [isPresent]

theorem FileState.absent_of_gone {s : FileState} (h : s = .missing ∨ s = .excluded) :
    s.isPresent = false := by
  rcases h with h | h <;> rw [h] <;> rfl

theorem confirm_evident (m : Manifest) (look : String → FileState) (candidates : ChangeSet) :
    Evident m look (confirm m look candidates).changes := by
  obtain ⟨hadded, hmodified, hdeleted, hrenamed, _⟩ := confirm_parts m look candidates
  have hfound (p : String) (hash : ContentHash) (h : (p, hash) ∈ foundAdded m look candidates) :
      m.get? p = none ∧ look p = .present hash :=
    (compareRecord_added _ _ _).mp ((mem_foundAdded m look candidates p hash).mp h).2
  have hgone (p : String) (h : p ∈ foundDeleted m look candidates) :
      (m.get? p).isSome ∧ (look p = .missing ∨ look p = .excluded) :=
    (compareRecord_deleted _ _).mp ((mem_foundDeleted m look candidates p).mp h).2
  refine ⟨?_, ?_, ?_, ?_⟩
  · intro p hp
    obtain ⟨hash, hmem, _⟩ := (hadded p).mp hp
    exact ⟨(hfound p hash hmem).1, hash, (hfound p hash hmem).2⟩
  · intro p hp
    exact (compareRecord_modified _ _).mp ((hmodified p).mp hp).2
  · intro p hp
    exact hgone p ((hdeleted p).mp hp).1
  · rintro ⟨a, b⟩ he
    -- a rename is a candidate that held, or a deletion paired with an addition
    rcases (hrenamed a b).mp he with h | ⟨hash, hb, hpartner⟩
    · obtain ⟨_, h1, h2, h3⟩ := ((Sorting.ofCandidates_parts m look candidates).2.2.1 _).mp h
      exact ⟨h1, h3, (FileState.isPresent_iff _).mp h2⟩
    · obtain ⟨⟨hmem, _⟩, _⟩ := (partnerOf_eq_some_iff m _ _ hash a).mp hpartner
      obtain ⟨hrec, hlook⟩ := hgone a hmem
      exact ⟨hrec, FileState.absent_of_gone hlook, hash, (hfound b hash hb).2⟩

structure Founded (m : Manifest) (look : String → FileState) (c : ChangeSet) : Prop where
  added : ∀ p ∈ c.added, m.get? p = none ∧ (look p).isPresent = true
  modified : ∀ p ∈ c.modified, (m.get? p).isSome ∧ (look p).isPresent = true
  deleted : ∀ p ∈ c.deleted, (m.get? p).isSome ∧ (look p).isPresent = false
  renamed : ∀ e ∈ c.renamed, (m.get? e.1).isSome ∧ (look e.1).isPresent = false ∧
    (look e.2).isPresent = true

theorem Evident.founded {m : Manifest} {look : String → FileState} {c : ChangeSet}
    (h : Evident m look c) : Founded m look c where
  added p hp := ⟨(h.added p hp).1, (FileState.isPresent_iff _).mpr (h.added p hp).2⟩
  modified p hp := by
    obtain ⟨r, hash, hrec, hlook, _⟩ := h.modified p hp
    exact ⟨by rw [hrec]; rfl, (FileState.isPresent_iff _).mpr ⟨hash, hlook⟩⟩
  deleted p hp := ⟨(h.deleted p hp).1, FileState.absent_of_gone (h.deleted p hp).2⟩
  renamed e he := by
    obtain ⟨hrec, hsource, htarget⟩ := h.renamed e he
    exact ⟨hrec, hsource, (FileState.isPresent_iff _).mpr htarget⟩

theorem confirm_founded (m : Manifest) (look : String → FileState) (candidates : ChangeSet) :
    Founded m look (confirm m look candidates).changes :=
  (confirm_evident m look candidates).founded

/-- A covered path that is not as its record says is a member of the confirmed changes, unless it
was left out as unreadable. -/
theorem confirm_covers (m : Manifest) (look : String → FileState) (candidates : ChangeSet)
    (p : String) (hp : (Sorting.ofCandidates m look candidates).Covers p) :
    compareRecord (m.get? p) (look p) = .same ∨ p ∈ (confirm m look candidates).skipped ∨
      p ∈ (confirm m look candidates).changes.mentioned := by
  obtain ⟨hadded, hmodified, hdeleted, hrenamed, hskipped⟩ := confirm_parts m look candidates
  rcases hp with hp | ⟨e, he, hends⟩
  · have hpaths : p ∈ comparedPaths m look candidates := hp
    -- what is added or deleted may be paired into a rename, which mentions the path too
    cases hc : compareRecord (m.get? p) (look p) with
    | same => exact .inl rfl
    | skipped => exact .inr (.inl ((hskipped p).mpr (.inr ⟨hpaths, hc⟩)))
    | modified =>
      refine .inr (.inr ((ChangeSet.mem_mentioned _ p).mpr ?_))
      exact .inr (.inl ((hmodified p).mpr ⟨hpaths, hc⟩))
    | added hash =>
      have hfound := (mem_foundAdded m look candidates p hash).mpr ⟨hpaths, hc⟩
      refine .inr (.inr ((ChangeSet.mem_mentioned _ p).mpr ?_))
      cases hpartner : partnerOf m (foundAdded m look candidates)
          (foundDeleted m look candidates) hash with
      | none => exact .inl ((hadded p).mpr ⟨hash, hfound, hpartner⟩)
      | some source =>
        refine .inr (.inr (.inr ⟨(source, p), ?_, .inr rfl⟩))
        exact (hrenamed source p).mpr (.inr ⟨hash, hfound, hpartner⟩)
    | deleted =>
      have hfound := (mem_foundDeleted m look candidates p).mpr ⟨hpaths, hc⟩
      refine .inr (.inr ((ChangeSet.mem_mentioned _ p).mpr ?_))
      by_cases hpaired : ∃ q hash, (q, hash) ∈ foundAdded m look candidates ∧
          partnerOf m (foundAdded m look candidates) (foundDeleted m look candidates) hash =
            some p
      · obtain ⟨q, hash, hq, hpartner⟩ := hpaired
        refine .inr (.inr (.inr ⟨(p, q), ?_, .inl rfl⟩))
        exact (hrenamed p q).mpr (.inr ⟨hash, hq, hpartner⟩)
      · refine .inr (.inr (.inl ((hdeleted p).mpr ⟨hfound, ?_⟩)))
        intro q hash hq hpartner
        exact hpaired ⟨q, hash, hq, hpartner⟩
  · obtain ⟨a, b⟩ := e
    refine .inr (.inr ((ChangeSet.mem_mentioned _ p).mpr ?_))
    exact .inr (.inr (.inr ⟨(a, b), (hrenamed a b).mpr (.inl he), hends⟩))

/-- Candidates that are as their records say come to no changes. -/
theorem confirm_idle (m : Manifest) (look : String → FileState) (candidates : ChangeSet)
    (hrenames : (Sorting.ofCandidates m look candidates).renames = [])
    (hsame : ∀ p ∈ comparedPaths m look candidates,
      compareRecord (m.get? p) (look p) = .same ∨ compareRecord (m.get? p) (look p) = .skipped) :
    (confirm m look candidates).changes.isEmpty = true := by
  obtain ⟨hadded, hmodified, hdeleted, hrenamed, _⟩ := confirm_parts m look candidates
  have hother (c : Comparison) (hc : c ≠ .same ∧ c ≠ .skipped) (p : String)
      (h : p ∈ comparedPaths m look candidates ∧ compareRecord (m.get? p) (look p) = c) :
      False := by
    rcases hsame p h.1 with hp | hp
    · exact hc.1 (h.2.symm.trans hp)
    · exact hc.2 (h.2.symm.trans hp)
  have hfound (p : String) (hash : ContentHash) : (p, hash) ∉ foundAdded m look candidates :=
    fun h => hother (.added hash) (by simp) p ((mem_foundAdded m look candidates p hash).mp h)
  rw [ChangeSet.isEmpty_iff]
  refine ⟨?_, ?_, ?_, ?_⟩ <;> rw [List.eq_nil_iff_forall_not_mem]
  · intro p hp
    obtain ⟨hash, hmem, _⟩ := (hadded p).mp hp
    exact hfound p hash hmem
  · intro p hp
    exact hother .modified (by simp) p ((hmodified p).mp hp)
  · intro p hp
    exact hother .deleted (by simp) p ((mem_foundDeleted m look candidates p).mp
      ((hdeleted p).mp hp).1)
  · rintro ⟨source, target⟩ he
    rcases (hrenamed source target).mp he with h | ⟨hash, hmem, _⟩
    · rw [hrenames] at h
      exact absurd h List.not_mem_nil
    · exact hfound target hash hmem

theorem confirm_mentions (m : Manifest) (look : String → FileState) (candidates : ChangeSet)
    (p : String) (hp : p ∈ (confirm m look candidates).changes.mentioned) :
    (Sorting.ofCandidates m look candidates).Covers p := by
  obtain ⟨hadded, hmodified, hdeleted, hrenamed, _⟩ := confirm_parts m look candidates
  rcases (ChangeSet.mem_mentioned _ p).mp hp with h | h | h | ⟨⟨a, b⟩, h, hends⟩
  · obtain ⟨hash, hmem, _⟩ := (hadded p).mp h
    exact .inl ((mem_foundAdded m look candidates p hash).mp hmem).1
  · exact .inl ((hmodified p).mp h).1
  · exact .inl ((mem_foundDeleted m look candidates p).mp ((hdeleted p).mp h).1).1
  · rcases (hrenamed a b).mp h with h | ⟨hash, hb, hpartner⟩
    · exact .inr ⟨(a, b), h, hends⟩
    · rcases hends with rfl | rfl
      · obtain ⟨⟨hmem, _⟩, _⟩ := (partnerOf_eq_some_iff m _ _ hash _).mp hpartner
        exact .inl ((mem_foundDeleted m look candidates _).mp hmem).1
      · exact .inl ((mem_foundAdded m look candidates _ hash).mp hb).1

namespace ChangeSet

/-- The path is to be written: it is added, modified, or the target of a rename. -/
def Writes (c : ChangeSet) (p : String) : Prop :=
  p ∈ c.added ∨ p ∈ c.modified ∨ ∃ e ∈ c.renamed, p = e.2

def Removes (c : ChangeSet) (p : String) : Prop :=
  p ∈ c.deleted ∨ ∃ e ∈ c.renamed, p = e.1

/-- The paths that are left once deletions and renames are done are to be written, if those to be
indexed anew are. -/
theorem writes_of_left {c : ChangeSet} {reindex : List String} (h : ∀ p ∈ reindex, c.Writes p)
    {p : String} (hp : p ∈ sortedPaths (c.added ++ c.modified ++ reindex)) : c.Writes p := by
  rw [mem_sortedPaths, List.mem_append, List.mem_append] at hp
  rcases hp with (hp | hp) | hp
  · exact .inl hp
  · exact .inr (.inl hp)
  · exact h p hp

theorem mentioned_iff (c : ChangeSet) (p : String) :
    p ∈ c.mentioned ↔ c.Writes p ∨ c.Removes p := by
  rw [mem_mentioned]
  unfold Writes Removes
  constructor
  · rintro (h | h | h | ⟨e, he, h | h⟩)
    · exact .inl (.inl h)
    · exact .inl (.inr (.inl h))
    · exact .inr (.inl h)
    · exact .inr (.inr ⟨e, he, h⟩)
    · exact .inl (.inr (.inr ⟨e, he, h⟩))
  · rintro ((h | h | ⟨e, he, h⟩) | h | ⟨e, he, h⟩)
    · exact .inl h
    · exact .inr (.inl h)
    · exact .inr (.inr (.inr ⟨e, he, .inr h⟩))
    · exact .inr (.inr (.inl h))
    · exact .inr (.inr (.inr ⟨e, he, .inl h⟩))

structure Workable (look : String → FileState) (c : ChangeSet) : Prop where
  present : ∀ p, c.Writes p → ∃ hash, look p = .present hash
  apart : ∀ p, c.Writes p → ¬ c.Removes p

end ChangeSet

theorem Founded.workable {m : Manifest} {look : String → FileState} {c : ChangeSet}
    (h : Founded m look c) : c.Workable look := by
  have hpresent (p : String) (hp : c.Writes p) : (look p).isPresent = true := by
    rcases hp with hp | hp | ⟨e, he, rfl⟩
    · exact (h.added p hp).2
    · exact (h.modified p hp).2
    · exact (h.renamed e he).2.2
  refine ⟨fun p hp => (FileState.isPresent_iff _).mp (hpresent p hp), fun p hp hr => ?_⟩
  have habsent : (look p).isPresent = false := by
    rcases hr with hr | ⟨e, he, rfl⟩
    · exact (h.deleted p hr).2
    · exact (h.renamed e he).2.1
  rw [hpresent p hp] at habsent
  cases habsent

end CodeIndex
