import CodeIndex.Proofs.Change.Remaining
import CodeIndex.Proofs.Run.Advance
import CodeIndex.Proofs.Run.Repeat

/-!
Detection by the answers of version control, set against a scan of the tree. While the answers are
true of the commits, and a record without a flag is that of the commit compared with, a detection
overlooks two kinds of paths: a file without a record that no answer has looked at, and a recorded
file that is no longer to be indexed and is told of as the target of a rename.
-/

namespace CodeIndex

namespace DiffEntry

/-- Entries tell of two trees: of each path that differs, of a rename from a path that is gone to
one that is there, and of the target of a rename nothing else. -/
structure Tells (entries : List DiffEntry) (old new : String → Option ByteArray) : Prop where
  named : ∀ p, old p ≠ new p → ∃ e ∈ entries, p ∈ e.paths
  moved : ∀ s t, .renamed s t ∈ entries → new s = none ∧ (new t).isSome = true
  once : ∀ s t, .renamed s t ∈ entries → ∀ e ∈ entries, t ∈ e.paths → e = .renamed s t

/-- The entry has a path looked at. -/
def Examines (m : Manifest) (look : String → FileState) (p : String) : DiffEntry → Prop
  | .added path | .modified path | .deleted path => p = path
  | .renamed source target => (p = source ∧ (m.get? source).isSome) ∨
      (p = target ∧ ((m.get? source).isSome → (look target).isPresent))

def candidates (entries : List DiffEntry) (new : List String) : ChangeSet :=
  .ofLists ((changes entries).added ++ new) (changes entries).modified (changes entries).deleted
    (changes entries).renamed

variable (entries : List DiffEntry) (new : List String)

theorem mem_picked {α : Type} (pick : DiffEntry → Option α) (a : α) (entry : DiffEntry)
    (h : ∀ e, pick e = some a ↔ e = entry) : a ∈ entries.filterMap pick ↔ entry ∈ entries := by
  simp only [List.mem_filterMap, h, exists_eq_right]

theorem candidates_parts :
    (∀ p, p ∈ (candidates entries new).added ↔ .added p ∈ entries ∨ p ∈ new) ∧
    (∀ p, p ∈ (candidates entries new).modified ↔ .modified p ∈ entries) ∧
    (∀ p, p ∈ (candidates entries new).deleted ↔ .deleted p ∈ entries) ∧
    ∀ s t, (s, t) ∈ (candidates entries new).renamed ↔ .renamed s t ∈ entries := by
  simp only [candidates, changes, ChangeSet.ofLists, mem_sortedPaths, mem_sortedPairs,
    List.mem_append]
  refine ⟨fun p => ?_, fun p => ?_, fun p => ?_, fun s t => ?_⟩
  · rw [mem_picked entries _ p (.added p)]
    intro e
    cases e <;> simp
  · apply mem_picked
    intro e
    cases e <;> simp
  · apply mem_picked
    intro e
    cases e <;> simp
  · apply mem_picked
    intro e
    cases e <;> simp

theorem mem_mentioned (p : String) :
    p ∈ (candidates entries new).mentioned ↔ p ∈ new ∨ ∃ e ∈ entries, p ∈ e.paths := by
  obtain ⟨hadded, hmodified, hdeleted, hrenamed⟩ := candidates_parts entries new
  rw [ChangeSet.mem_mentioned, hadded, hmodified, hdeleted]
  constructor
  · rintro ((h | h) | h | h | ⟨⟨s, t⟩, h, hends⟩)
    · exact .inr ⟨_, h, List.mem_singleton.mpr rfl⟩
    · exact .inl h
    · exact .inr ⟨_, h, List.mem_singleton.mpr rfl⟩
    · exact .inr ⟨_, h, List.mem_singleton.mpr rfl⟩
    · refine .inr ⟨_, (hrenamed s t).mp h, ?_⟩
      simpa [paths] using hends
  · rintro (h | ⟨e, h, hp⟩)
    · exact .inl (.inr h)
    · cases e with
      | added path => exact .inl (.inl (List.mem_singleton.mp hp ▸ h))
      | modified path => exact .inr (.inl (List.mem_singleton.mp hp ▸ h))
      | deleted path => exact .inr (.inr (.inl (List.mem_singleton.mp hp ▸ h)))
      | renamed s t =>
        refine .inr (.inr (.inr ⟨(s, t), (hrenamed s t).mpr h, ?_⟩))
        simpa [paths] using hp

/-- With the flagged records a comparison has these paths looked at: those that are untracked, those
that its entries have looked at, and the flagged ones that it does not tell of. -/
theorem candidates_examine (m : Manifest) (look : String → FileState) (hkeyed : m.Keyed)
    (p : String) :
    ((candidates entries new).withRechecks m.divergedPaths).Examines m look p ↔
      p ∈ new ∨ (∃ e ∈ entries, e.Examines m look p) ∨
        ((∃ r, m.get? p = some r ∧ r.diverged = true) ∧ p ∉ new ∧
          ∀ e ∈ entries, p ∉ e.paths) := by
  obtain ⟨hadded, hmodified, hdeleted, hrenamed⟩ := candidates_parts entries new
  obtain ⟨hadded', hmodified', hdeleted', hrenamed'⟩ :=
    (candidates entries new).withRechecks_parts m.divergedPaths
  have hunnamed : p ∉ (candidates entries new).mentioned ↔
      p ∉ new ∧ ∀ e ∈ entries, p ∉ e.paths := by
    rw [mem_mentioned]
    simp only [not_or, not_exists, not_and]
  unfold ChangeSet.Examines
  rw [hadded', hmodified', hdeleted', hadded, hmodified, hdeleted, m.mem_divergedPaths hkeyed,
    hunnamed]
  constructor
  · rintro ((h | h) | (h | h) | h | ⟨⟨s, t⟩, h, hends⟩)
    · exact .inr (.inl ⟨_, h, rfl⟩)
    · exact .inl h
    · exact .inr (.inl ⟨_, h, rfl⟩)
    · exact .inr (.inr h)
    · exact .inr (.inl ⟨_, h, rfl⟩)
    · exact .inr (.inl ⟨_, (hrenamed s t).mp ((hrenamed' _).mp h), hends⟩)
  · rintro (h | ⟨e, h, hp⟩ | h)
    · exact .inl (.inr h)
    · cases e with
      | added path =>
        cases hp
        exact .inl (.inl h)
      | modified path =>
        cases hp
        exact .inr (.inl (.inl h))
      | deleted path =>
        cases hp
        exact .inr (.inr (.inl h))
      | renamed s t =>
        exact .inr (.inr (.inr ⟨(s, t), (hrenamed' _).mpr ((hrenamed s t).mpr h), hp⟩))
    · exact .inr (.inl (.inr h))

end DiffEntry

/-- What version control holds of a tree beside its commits: the commit that is checked out, the
tracked paths, and the untracked ones that are not ignored. -/
structure Checkout where
  head : String
  tracked : String → Bool
  untracked : List String

namespace FileFilter

def trackedAt (f : FileFilter) (d : Disk) (tracked : String → Bool) (p : String) :
    Option ByteArray :=
  if tracked p then f.bytesAt d p else none

structure Attested (f : FileFilter) (d : Disk) (git : Git.View)
    (commits : String → String → Option ByteArray) (c : Checkout) : Prop where
  head : (f.treeView d git).head = some c.head
  since : ∀ commit, git.commitExists commit = true → ∃ entries,
    (f.treeView d git).diff (.working commit) = .ok entries ∧
      DiffEntry.Tells entries (commits commit) (f.trackedAt d c.tracked)
  current : ∃ entries, (f.treeView d git).diff (.working "HEAD") = .ok entries ∧
    DiffEntry.Tells entries (commits c.head) (f.trackedAt d c.tracked)
  untracked : (f.treeView d git).untracked = .ok c.untracked
  apart : ∀ p ∈ c.untracked, c.tracked p = false

end FileFilter

def Manifest.Marked (m : Manifest) (f : FileFilter) (tree : String → Option ByteArray) : Prop :=
  ∀ p r, m.get? p = some r → r.diverged = true ∨ ∃ content, tree p = some content ∧
    f.Indexes p content ∧ Digest.contentHash content = r.contentHash

namespace TreeView

variable (t : TreeView) (m : Manifest) (reference : Option String)

structure Compared (entries : List DiffEntry) (new : List String) : Prop where
  recorded : m.isEmpty = false
  head : t.head.isSome = true
  commit : ∃ r, reference = some r ∧ t.git.commitExists r = true ∧
    t.diff (.working r) = .ok entries
  untracked : t.untracked = .ok new

structure Unreported (entries : List DiffEntry) (new : List String) (p : String) : Prop where
  found : p ∈ t.files
  present : (t.look p).isPresent = true
  unrecorded : m.get? p = none
  listed : p ∉ new
  told : ∀ e ∈ entries, p ∈ e.paths → ∃ target, e = .renamed p target

structure Hidden (entries : List DiffEntry) (p : String) : Prop where
  recorded : (m.get? p).isSome = true
  excluded : t.look p = .excluded
  target : ∃ source, .renamed source p ∈ entries ∧ (m.get? source).isSome = true

/-- A detection overlooks a path that a scan would not. -/
def Overlooks (p : String) : Prop :=
  ∃ entries new, t.Compared m reference entries new ∧
    (t.Unreported m entries new p ∨ t.Hidden m entries p)

variable {t m reference}

/-- The candidates of a comparison are what it tells of, and the flagged records. -/
theorem Compared.candidates {entries : List DiffEntry} {new : List String}
    (h : t.Compared m reference entries new) :
    t.candidates m reference .workingTree =
      (DiffEntry.candidates entries new).withRechecks m.divergedPaths := by
  obtain ⟨r, hreference, hexists, hdiff⟩ := h.commit
  have hrange : t.rangeFor reference .workingTree = .ok (some (.working r)) := by
    rw [hreference]
    show Except.ok (if t.git.commitExists r = true then _ else _) = _
    rw [if_pos hexists]
  have hgit : t.gitCandidates reference .workingTree =
      .ok (some (DiffEntry.candidates entries new)) := by
    unfold gitCandidates
    rw [hrange]
    show (do
      let changes := DiffEntry.changes (← t.diff (.working r))
      let new ← t.untracked
      return some (.ofLists (changes.added ++ new) changes.modified changes.deleted
        changes.renamed) : Except IndexError (Option ChangeSet)) = _
    rw [hdiff, h.untracked]
    rfl
  have hhead : t.head.isNone = false := by
    rw [← Option.not_isSome, h.head]
    rfl
  unfold TreeView.candidates
  rw [h.recorded, hhead, hgit]
  rfl

end TreeView

namespace FileFilter.Attested

variable {f : FileFilter} {d : Disk} {git : Git.View}
  {commits : String → String → Option ByteArray} {c : Checkout} {m : Manifest}
  {reference : Option String} {entries : List DiffEntry} {new : List String} {p : String}

section Detection

variable (h : f.Attested d git commits c)

include h

theorem scanned
    (hnone : ∀ entries new, ¬ (f.treeView d git).Compared m reference entries new) :
    (f.treeView d git).candidates m reference .workingTree =
      (f.treeView d git).scanCandidates m := by
  have hhead : (f.treeView d git).head.isSome = true := by
    rw [h.head]
    rfl
  by_cases hempty : m.isEmpty = true
  · unfold TreeView.candidates
    rw [hempty, Bool.true_or, if_pos rfl]
  · have hrange : (f.treeView d git).rangeFor reference .workingTree = .ok none := by
      cases reference with
      | none => rfl
      | some r =>
        show Except.ok (if git.commitExists r = true then _ else _) = _
        rw [if_neg]
        intro hexists
        -- a commit that is there would be compared with
        obtain ⟨entries, hdiff, _⟩ := h.since r hexists
        exact hnone entries c.untracked
          ⟨by simpa using hempty, hhead, ⟨r, rfl, hexists, hdiff⟩, h.untracked⟩
    have hgit : (f.treeView d git).gitCandidates reference .workingTree = .ok none := by
      unfold TreeView.gitCandidates
      rw [hrange]
      rfl
    have hsome : (f.treeView d git).head.isNone = false := by
      rw [← Option.not_isSome, hhead]
      rfl
    have hfull : m.isEmpty = false := by simpa using hempty
    unfold TreeView.candidates
    rw [hfull, hsome, hgit]
    rfl

/-- What a comparison tells is true of the commit that the index reflects. -/
theorem compared (hcompared : (f.treeView d git).Compared m reference entries new) :
    new = c.untracked ∧ ∃ r, reference = some r ∧
      DiffEntry.Tells entries (commits r) (f.trackedAt d c.tracked) := by
  obtain ⟨r, hreference, hexists, hdiff⟩ := hcompared.commit
  obtain ⟨entries', hdiff', htells⟩ := h.since r hexists
  rw [hdiff] at hdiff'
  refine ⟨?_, r, hreference, Except.ok.inj hdiff' ▸ htells⟩
  exact Except.ok.inj (hcompared.untracked.symm.trans h.untracked)

end Detection

end FileFilter.Attested

section Comparison

variable {f : FileFilter} {d : Disk} {git : Git.View} {tree : String → Option ByteArray}
  {tracked : String → Bool} {m : Manifest} {entries : List DiffEntry} {new : List String}
  {p : String}

theorem DiffEntry.Examines.told {look : String → FileState} {e : DiffEntry}
    (h : e.Examines m look p) : p ∈ e.paths := by
  cases e with
  | added path => exact List.mem_singleton.mpr h
  | modified path => exact List.mem_singleton.mpr h
  | deleted path => exact List.mem_singleton.mpr h
  | renamed s t =>
    have hends : p = s ∨ p = t := h.imp And.left And.left
    simpa [DiffEntry.paths] using hends

theorem FileFilter.inspect_there (h : (f.bytesAt d p).isSome = true) :
    (f.inspect d p).isPresent = true ∨ f.inspect d p = .excluded := by
  unfold FileFilter.bytesAt at h
  unfold FileFilter.inspect
  split
  · split at h
    · rename_i content modified hstat
      rw [hstat]
      dsimp only
      split
      · exact .inr rfl
      · split
        · exact .inr rfl
        · exact .inl rfl
    · cases h
  · exact .inr rfl

variable (htells : DiffEntry.Tells entries tree (f.trackedAt d tracked))

include htells

/-- A recorded path is looked at, unless it is hidden or as its record says. -/
theorem recorded_examined (hkeyed : m.Keyed) (hmarked : m.Marked f tree) {r : FileRecord}
    (hr : m.get? p = some r) :
    ((DiffEntry.candidates entries new).withRechecks m.divergedPaths).Examines m (f.inspect d) p ∨
      (f.treeView d git).Hidden m entries p ∨ f.inspect d p = .present r.contentHash := by
  have hsome : (m.get? p).isSome = true := by rw [hr]; rfl
  rw [DiffEntry.candidates_examine entries new m _ hkeyed]
  by_cases htold : ∃ e ∈ entries, p ∈ e.paths
  · obtain ⟨e, he, hp⟩ := htold
    cases e with
    | added path => exact .inl (.inr (.inl ⟨_, he, List.mem_singleton.mp hp⟩))
    | modified path => exact .inl (.inr (.inl ⟨_, he, List.mem_singleton.mp hp⟩))
    | deleted path => exact .inl (.inr (.inl ⟨_, he, List.mem_singleton.mp hp⟩))
    | renamed s t =>
      have hends : p = s ∨ p = t := by simpa [DiffEntry.paths] using hp
      rcases hends with rfl | rfl
      · exact .inl (.inr (.inl ⟨_, he, .inl ⟨rfl, hsome⟩⟩))
      · by_cases hlooked : (m.get? s).isSome → (f.inspect d p).isPresent
        · exact .inl (.inr (.inl ⟨_, he, .inr ⟨rfl, hlooked⟩⟩))
        · obtain ⟨hsource, habsent⟩ := Classical.not_imp.mp hlooked
          -- the target of a rename is tracked, and its file is there
          have hthere : (f.bytesAt d p).isSome = true := by
            have hnew := (htells.moved s p he).2
            unfold FileFilter.trackedAt at hnew
            split at hnew
            · exact hnew
            · cases hnew
          have hexcluded := (FileFilter.inspect_there hthere).resolve_left habsent
          exact .inr (.inl ⟨hsome, hexcluded, s, he, hsource⟩)
  · rcases hmarked p r hr with hflag | ⟨content, htree, hindexes, hhash⟩
    · by_cases hlisted : p ∈ new
      · exact .inl (.inl hlisted)
      · refine .inl (.inr (.inr ⟨⟨r, hr, hflag⟩, hlisted, fun e he hp => ?_⟩))
        exact htold ⟨e, he, hp⟩
    · -- nothing is told of the path, so that its file is the one that the commit has
      have hsame : tree p = f.trackedAt d tracked p := by
        by_contra hdiffers
        exact htold (htells.named p hdiffers)
      have hbytes : f.bytesAt d p = some content := by
        rw [htree] at hsame
        unfold FileFilter.trackedAt at hsame
        split at hsame
        · exact hsame.symm
        · cases hsame
      rw [← hhash]
      exact .inr (.inr (FileFilter.inspect_bytes p content hbytes hindexes))

/-- A file without a record is looked at, unless it is not reported. -/
theorem unrecorded_examined (hkeyed : m.Keyed) (hnone : m.get? p = none)
    (hpresent : (f.inspect d p).isPresent = true) (hfound : p ∈ f.scan d) :
    ¬ ((DiffEntry.candidates entries new).withRechecks m.divergedPaths).Examines m
        (f.inspect d) p ↔ (f.treeView d git).Unreported m entries new p := by
  rw [DiffEntry.candidates_examine entries new m _ hkeyed]
  constructor
  · intro hunseen
    refine ⟨hfound, hpresent, hnone, fun hlisted => hunseen (.inl hlisted), fun e he hp => ?_⟩
    cases e with
    | added path => exact absurd (.inr (.inl ⟨_, he, List.mem_singleton.mp hp⟩)) hunseen
    | modified path => exact absurd (.inr (.inl ⟨_, he, List.mem_singleton.mp hp⟩)) hunseen
    | deleted path => exact absurd (.inr (.inl ⟨_, he, List.mem_singleton.mp hp⟩)) hunseen
    | renamed s t =>
      have hends : p = s ∨ p = t := by simpa [DiffEntry.paths] using hp
      rcases hends with rfl | rfl
      · exact ⟨t, rfl⟩
      · exact absurd (.inr (.inl ⟨_, he, .inr ⟨rfl, fun _ => hpresent⟩⟩)) hunseen
  · rintro hunreported (hlisted | ⟨e, he, hexamined⟩ | ⟨⟨r, hr, _⟩, _⟩)
    · exact hunreported.listed hlisted
    · obtain ⟨target, rfl⟩ := hunreported.told e he hexamined.told
      rcases hexamined with ⟨_, hsome⟩ | ⟨hself, _⟩
      · rw [hnone] at hsome
        cases hsome
      · -- a path that moved away is not where it moved to
        subst hself
        obtain ⟨hgone, hthere⟩ := htells.moved p p he
        rw [hgone] at hthere
        cases hthere
    · rw [hnone] at hr
      cases hr

theorem hidden_unexamined (hkeyed : m.Keyed) (hapart : ∀ p ∈ new, tracked p = false)
    (h : (f.treeView d git).Hidden m entries p) :
    ¬ ((DiffEntry.candidates entries new).withRechecks m.divergedPaths).Examines m
        (f.inspect d) p := by
  obtain ⟨source, hrename, hsource⟩ := h.target
  obtain ⟨hgone, hthere⟩ := htells.moved source p hrename
  have hexcluded : f.inspect d p = .excluded := h.excluded
  rw [DiffEntry.candidates_examine entries new m _ hkeyed]
  rintro (hlisted | ⟨e, he, hexamined⟩ | ⟨_, _, huntold⟩)
  · -- the target of a rename is tracked
    rw [FileFilter.trackedAt, hapart p hlisted] at hthere
    cases hthere
  · obtain rfl := htells.once source p hrename e he hexamined.told
    rcases hexamined with ⟨hself, _⟩ | ⟨_, hpresent⟩
    · subst hself
      rw [hgone] at hthere
      cases hthere
    · have hlooked := hpresent hsource
      rw [hexcluded] at hlooked
      cases hlooked
  · refine huntold _ hrename ?_
    simp [DiffEntry.paths]

end Comparison

section Confirmation

variable {m m' : Manifest} {look : String → FileState} {candidates : ChangeSet}

theorem Manifest.right_iff_same (p : String) : m.Right look p ∨ look p = .unreadable ↔
    compareRecord (m.get? p) (look p) = .same ∨
      compareRecord (m.get? p) (look p) = .skipped := by
  rw [compareRecord_skipped]
  by_cases hread : look p = .unreadable
  · simp only [hread, or_true]
  · rw [Manifest.right_iff hread]

variable (hskipped : (confirm m look candidates).skipped = [])
  (hwork : Reworked look m m' (confirm m look candidates).changes.Writes
    (confirm m look candidates).changes.Removes
    fun p => p ∈ (confirm m look candidates).changes.mentioned)

include hskipped hwork

/-- Once confirmed candidates are worked through, a path is right if it was looked at, and else if
it was before. -/
theorem confirmed_right (p : String) : m'.Right look p ↔
    (Sorting.ofCandidates m look candidates).Covers p ∨ m.Right look p := by
  by_cases hin : p ∈ (confirm m look candidates).changes.mentioned
  · refine iff_of_true ?_ (.inl (confirm_mentions m look candidates p hin))
    rcases (ChangeSet.mentioned_iff _ p).mp hin with hwrites | hremoves
    · obtain ⟨hash, hlook, hhash⟩ := hwork.kept p hwrites
      rw [Manifest.Right, hhash, hlook]
      rfl
    · have hgone : (look p).isPresent = false := by
        rcases hremoves with h | ⟨e, he, rfl⟩
        · exact ((confirm_founded m look candidates).deleted p h).2
        · exact ((confirm_founded m look candidates).renamed e he).2.1
      rw [Manifest.Right, hwork.dropped p hremoves, FileState.hash?_of_absent hgone]
  · have hsame : m'.Right look p ↔ m.Right look p := by
      rw [Manifest.Right, Manifest.Right, hwork.rest p hin]
    rw [hsame]
    refine ⟨.inr, fun h => h.elim (fun hcovers => ?_) id⟩
    rcases confirm_covers m look candidates p hcovers with hcompared | hmem | hmentioned
    · have hread : look p ≠ .unreadable := by
        intro hlook
        rw [hlook] at hcompared
        cases hcompared
      exact (Manifest.right_iff hread).mpr hcompared
    · rw [hskipped] at hmem
      exact absurd hmem List.not_mem_nil
    · exact absurd hmentioned hin

/-- A path that is recorded and cannot be read was recorded before, and was not looked at. -/
theorem confirmed_unread {p : String} (hrecorded : (m'.get? p).isSome = true)
    (hlook : look p = .unreadable) :
    (m.get? p).isSome = true ∧ ¬ (Sorting.ofCandidates m look candidates).Covers p := by
  have hwrong (n : Manifest) (h : (n.get? p).isSome = true) : ¬ n.Right look p := by
    rw [Manifest.Right, hlook]
    intro hnone
    rw [(n.hashAt_none p).mp hnone] at h
    cases h
  have hright := confirmed_right hskipped hwork p
  have hcovers : ¬ (Sorting.ofCandidates m look candidates).Covers p :=
    fun h => hwrong m' hrecorded (hright.mpr (.inl h))
  have hout : p ∉ (confirm m look candidates).changes.mentioned :=
    fun h => hcovers (confirm_mentions m look candidates p h)
  exact ⟨(hwork.isSome_rest hout).symm.trans hrecorded, hcovers⟩

end Confirmation

namespace TreeView

variable {t : TreeView} {m : Manifest}

/-- A scan finds nothing to do when every path that it looks at is right or cannot be read. -/
theorem hashScan_idle_iff : (t.hashScan m).changes.isEmpty = true ↔
    ∀ p, p ∈ t.files ∨ (m.get? p).isSome → m.Right t.look p ∨ t.look p = .unreadable := by
  have hconfirm : t.hashScan m = confirm m t.look (t.scanCandidates m) := rfl
  rw [hconfirm]
  constructor
  · intro hidle p hin
    rcases confirm_covers m t.look _ p ((t.scanCandidates_covers m p).mpr hin) with
      hsame | hskipped | hmentioned
    · exact (Manifest.right_iff_same p).mpr (.inl hsame)
    · exact .inr ((t.scan_skipped m p).mp hskipped).2
    · obtain ⟨hadded, hmodified, hdeleted, hrenamed⟩ := (ChangeSet.isEmpty_iff _).mp hidle
      rw [ChangeSet.mem_mentioned, hadded, hmodified, hdeleted, hrenamed] at hmentioned
      simp at hmentioned
  · intro hright
    apply confirm_idle m t.look _ (t.scan_renames m)
    intro p hp
    exact (Manifest.right_iff_same p).mp (hright p ((t.mem_scanPaths m p).mp hp))

end TreeView

namespace FileFilter.Attested

variable {f : FileFilter} {d : Disk} {git : Git.View}
  {commits : String → String → Option ByteArray} {c : Checkout} {m m' : Manifest}
  {reference : Option String}

section Overlooked

variable (hskipped : (confirm m (f.inspect d)
    ((f.treeView d git).candidates m reference .workingTree)).skipped = [])

include hskipped

/-- A detection that compares looks at what its candidates have looked at. -/
theorem looks_iff {entries : List DiffEntry} {new : List String}
    (hcompared : (f.treeView d git).Compared m reference entries new) (p : String) :
    (f.treeView d git).LooksAt m reference .workingTree p ↔
      ((DiffEntry.candidates entries new).withRechecks m.divergedPaths).Examines m
        (f.inspect d) p := by
  rw [hcompared.candidates] at hskipped
  unfold TreeView.LooksAt
  rw [hcompared.candidates]
  exact covers_iff_of_skips_nothing hskipped p

variable (h : f.Attested d git commits c) (hkeyed : m.Keyed)

include h hkeyed

/-- What is overlooked is not looked at, and is neither right nor unreadable. -/
theorem overlooked_unseen {p : String} (hover : (f.treeView d git).Overlooks m reference p) :
    (p ∈ f.scan d ∨ (m.get? p).isSome) ∧
      ¬ (f.treeView d git).LooksAt m reference .workingTree p ∧
      ¬ (m.Right (f.inspect d) p ∨ f.inspect d p = .unreadable) := by
  obtain ⟨entries, new, hcompared, hover⟩ := hover
  obtain ⟨rfl, commit, hreference, htells⟩ := h.compared hcompared
  rw [looks_iff hskipped hcompared]
  rcases hover with hunreported | hhidden
  · have hpresent : (f.inspect d p).isPresent = true := hunreported.present
    refine ⟨.inl hunreported.found, ?_, ?_⟩
    · exact (unrecorded_examined htells hkeyed hunreported.unrecorded hpresent
        hunreported.found).mpr hunreported
    · obtain ⟨hash, hlook⟩ := (FileState.isPresent_iff _).mp hpresent
      rintro (hright | hread)
      · rw [Manifest.Right, hlook, (m.hashAt_none p).mpr hunreported.unrecorded] at hright
        cases hright
      · rw [hlook] at hread
        cases hread
  · have hexcluded : f.inspect d p = .excluded := hhidden.excluded
    refine ⟨.inr hhidden.recorded, hidden_unexamined htells hkeyed h.apart hhidden, ?_⟩
    rintro (hright | hread)
    · have hnone : m.hashAt p = none := by
        rw [Manifest.Right, hexcluded] at hright
        exact hright
      have hsome := hhidden.recorded
      rw [(m.hashAt_none p).mp hnone] at hsome
      cases hsome
    · rw [hexcluded] at hread
      cases hread

variable (hmarked : ∀ r, reference = some r → m.Marked f (commits r))

include hmarked

/-- A recorded path is looked at, unless it is overlooked or as its record says. -/
theorem recorded_looked {p : String} {r : FileRecord} (hr : m.get? p = some r) :
    (f.treeView d git).LooksAt m reference .workingTree p ∨
      (f.treeView d git).Overlooks m reference p ∨ f.inspect d p = .present r.contentHash := by
  by_cases hcompares : ∃ entries new, (f.treeView d git).Compared m reference entries new
  · obtain ⟨entries, new, hcompared⟩ := hcompares
    obtain ⟨rfl, commit, hreference, htells⟩ := h.compared hcompared
    rw [looks_iff hskipped hcompared]
    rcases recorded_examined htells hkeyed (hmarked commit hreference) hr with
      hexamined | hhidden | hpresent
    · exact .inl hexamined
    · exact .inr (.inl ⟨entries, _, hcompared, .inr hhidden⟩)
    · exact .inr (.inr hpresent)
  · left
    unfold TreeView.LooksAt
    rw [h.scanned fun entries new hcompared => hcompares ⟨entries, new, hcompared⟩]
    exact ((f.treeView d git).scanCandidates_covers m p).mpr (.inr (by rw [hr]; rfl))

/-- What a detection overlooks is what a scan has looked at, of what is neither looked at nor right
nor unreadable. -/
theorem overlooks_iff (p : String) : (f.treeView d git).Overlooks m reference p ↔
    (p ∈ f.scan d ∨ (m.get? p).isSome) ∧
      ¬ (f.treeView d git).LooksAt m reference .workingTree p ∧
      ¬ (m.Right (f.inspect d) p ∨ f.inspect d p = .unreadable) := by
  refine ⟨overlooked_unseen hskipped h hkeyed, fun ⟨hin, hlooks, hright⟩ => ?_⟩
  cases hrecord : m.get? p with
  | some r =>
    rcases recorded_looked hskipped h hkeyed hmarked hrecord with hlooked | hover | hpresent
    · exact absurd hlooked hlooks
    · exact hover
    · refine absurd (.inl ?_) hright
      rw [Manifest.Right, Manifest.hashAt, hrecord, hpresent]
      rfl
  | none =>
    have hfound : p ∈ f.scan d := by
      rcases hin with hfound | hsome
      · exact hfound
      · rw [hrecord] at hsome
        cases hsome
    have hpresent : (f.inspect d p).isPresent = true := by
      by_contra habsent
      refine hright (.inl ?_)
      rw [Manifest.Right, FileState.hash?_of_absent (by simpa using habsent)]
      exact (m.hashAt_none p).mpr hrecord
    by_cases hcompares : ∃ entries new, (f.treeView d git).Compared m reference entries new
    · obtain ⟨entries, new, hcompared⟩ := hcompares
      obtain ⟨rfl, commit, hreference, htells⟩ := h.compared hcompared
      rw [looks_iff hskipped hcompared] at hlooks
      exact ⟨entries, _, hcompared,
        .inl ((unrecorded_examined htells hkeyed hrecord hpresent hfound).mp hlooks)⟩
    · refine absurd ?_ hlooks
      unfold TreeView.LooksAt
      rw [h.scanned fun entries new hcompared => hcompares ⟨entries, new, hcompared⟩]
      exact ((f.treeView d git).scanCandidates_covers m p).mpr (.inl hfound)

variable (hwork : Reworked (f.inspect d) m m'
  (confirm m (f.inspect d)
    ((f.treeView d git).candidates m reference .workingTree)).changes.Writes
  (confirm m (f.inspect d)
    ((f.treeView d git).candidates m reference .workingTree)).changes.Removes
  fun p => p ∈ (confirm m (f.inspect d)
    ((f.treeView d git).candidates m reference .workingTree)).changes.mentioned)

include hwork

/-- Once its changes are worked through, a detection leaves a scan nothing to do exactly when it
overlooked nothing. -/
theorem scan_idle_iff : ((f.treeView d git).hashScan m').changes.isEmpty = true ↔
    ∀ p, ¬ (f.treeView d git).Overlooks m reference p := by
  have hmentions (p : String)
      (hlooks : ¬ (f.treeView d git).LooksAt m reference .workingTree p) :
      (m'.get? p).isSome = (m.get? p).isSome :=
    hwork.isSome_rest fun hin => hlooks (confirm_mentions m _ _ p hin)
  have hright (p : String) : m'.Right (f.inspect d) p ↔
      (f.treeView d git).LooksAt m reference .workingTree p ∨ m.Right (f.inspect d) p :=
    confirmed_right hskipped hwork p
  rw [TreeView.hashScan_idle_iff]
  constructor
  · intro hidle p hover
    obtain ⟨hin, hlooks, hwrong⟩ := overlooked_unseen hskipped h hkeyed hover
    rw [← hmentions p hlooks] at hin
    rcases hidle p hin with hnow | hread
    · rcases (hright p).mp hnow with hlooked | hbefore
      · exact hlooks hlooked
      · exact hwrong (.inl hbefore)
    · exact hwrong (.inr hread)
  · intro hnone p hin
    by_contra hwrong
    have hlooks : ¬ (f.treeView d git).LooksAt m reference .workingTree p :=
      fun hlooked => hwrong (.inl ((hright p).mpr (.inl hlooked)))
    rw [hmentions p hlooks] at hin
    refine hnone p ((overlooks_iff hskipped h hkeyed hmarked p).mpr ⟨hin, hlooks, ?_⟩)
    rintro (hbefore | hread)
    · exact hwrong (.inl ((hright p).mpr (.inr hbefore)))
    · exact hwrong (.inr hread)

/-- What is recorded after a detection that overlooked nothing is there as it is recorded. -/
theorem recorded_present (hidle : ((f.treeView d git).hashScan m').changes.isEmpty = true)
    {p : String} {r : FileRecord} (hr : m'.get? p = some r) :
    f.inspect d p = .present r.contentHash := by
  have hsome : (m'.get? p).isSome = true := by rw [hr]; rfl
  rcases TreeView.hashScan_idle_iff.mp hidle p (.inr hsome) with hright | hread
  · have hhash : some r.contentHash = (f.inspect d p).hash? := by
      rw [← Option.map_some, ← hr]
      exact hright
    cases hlook : f.inspect d p with
    | present hash =>
      rw [hlook] at hhash
      rw [Option.some.inj hhash]
    | _ =>
      rw [hlook] at hhash
      cases hhash
  · -- a path that cannot be read would have been looked at, and left out
    obtain ⟨hbefore, hlooks⟩ := confirmed_unread hskipped hwork hsome hread
    obtain ⟨r₀, hr₀⟩ := Option.isSome_iff_exists.mp hbefore
    rcases recorded_looked hskipped h hkeyed hmarked hr₀ with hlooked | hover | hpresent
    · exact absurd hlooked hlooks
    · exact absurd (.inr hread) (overlooked_unseen hskipped h hkeyed hover).2.2
    · have hread' : f.inspect d p = .unreadable := hread
      rw [hread'] at hpresent
      cases hpresent

end Overlooked

/-- Records that are there as they are recorded are flagged, or those of the commit that is checked
out, if none of them is ignored. -/
theorem marked (h : f.Attested d git commits c) (hkeyed : m.Keyed)
    (hrecorded : ∀ p r, m.get? p = some r → f.inspect d p = .present r.contentHash)
    (hflags : ∀ found, (f.treeView d git).headDivergence = .paths found →
      ∀ p r, m.get? p = some r → r.diverged = found.contains r.path)
    (hunignored : ∀ p, (m.get? p).isSome = true → c.tracked p = true ∨ p ∈ c.untracked) :
    m.Marked f (commits c.head) := by
  obtain ⟨entries, hdiff, htells⟩ := h.current
  have hdivergence : (f.treeView d git).headDivergence =
      .paths (.ofList (c.untracked ++ entries.flatMap (·.paths))) := by
    unfold TreeView.headDivergence
    rw [h.head, hdiff, h.untracked]
    rfl
  intro p r hr
  have hflag := hflags _ hdivergence p r hr
  rw [hkeyed p r hr] at hflag
  by_cases hfound : p ∈ c.untracked ++ entries.flatMap (·.paths)
  · left
    rw [hflag, Std.ExtTreeSet.contains_ofList]
    exact List.contains_iff_mem.mpr hfound
  · right
    rw [List.mem_append, not_or, List.mem_flatMap] at hfound
    obtain ⟨hlisted, htold⟩ := hfound
    -- the path is tracked, and the commit has it as the tree does
    have htracked : c.tracked p = true :=
      (hunignored p (by rw [hr]; rfl)).resolve_right hlisted
    have hsame : commits c.head p = f.trackedAt d c.tracked p := by
      by_contra hdiffers
      exact htold (htells.named p hdiffers)
    obtain ⟨heligible, content, modified, hstat, hsize, hbinary, hhash⟩ :=
      (inspect_present p _).mp (hrecorded p r hr)
    refine ⟨content, ?_, ⟨heligible, hsize, hbinary⟩, hhash⟩
    rw [hsame, trackedAt, if_pos htracked, bytesAt, hstat]

end FileFilter.Attested

end CodeIndex
