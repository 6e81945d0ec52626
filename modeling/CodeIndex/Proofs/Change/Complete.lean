import CodeIndex.Proofs.Change.Confirm

/-!
Which paths a confirmation looks at. What the candidates name as added, modified or deleted is always
compared with its record; of a candidate rename, an end is looked at only as the other end allows.
-/

namespace CodeIndex

section Confirmation

variable (m : Manifest) (look : String → FileState) (candidates : ChangeSet)

theorem covers_mentioned (p : String) (hp : (Sorting.ofCandidates m look candidates).Covers p) :
    p ∈ candidates.mentioned := by
  obtain ⟨hcheck, hgone, hrenames, _⟩ := Sorting.ofCandidates_parts m look candidates
  rw [ChangeSet.mem_mentioned]
  rcases hp with hp | ⟨e, he, hends⟩
  · rw [Sorting.paths, mem_sortedPaths, List.mem_append, hcheck, hgone] at hp
    rcases hp with (h | h | ⟨e, he, ⟨_, rfl⟩ | ⟨_, _, _, hends⟩⟩) | h | ⟨e, he, _, _, _, rfl⟩
    · exact .inl h
    · exact .inr (.inl h)
    · exact .inr (.inr (.inr ⟨e, he, .inr rfl⟩))
    · exact .inr (.inr (.inr ⟨e, he, hends⟩))
    · exact .inr (.inr (.inl h))
    · exact .inr (.inr (.inr ⟨e, he, .inl rfl⟩))
  · exact .inr (.inr (.inr ⟨e, ((hrenames e).mp he).1, hends⟩))

/-- A path is not as the manifest has it: it is there with another content or without a record, or
it is recorded and is missing or excluded. -/
def Manifest.Disagrees (m : Manifest) (look : String → FileState) (p : String) : Prop :=
  (∃ r hash, m.get? p = some r ∧ look p = .present hash ∧ r.contentHash ≠ hash) ∨
    (m.get? p = none ∧ ∃ hash, look p = .present hash) ∨
    ((m.get? p).isSome ∧ (look p = .missing ∨ look p = .excluded))

theorem Manifest.disagrees_iff (p : String) (hreadable : look p ≠ .unreadable) :
    m.Disagrees look p ↔ compareRecord (m.get? p) (look p) ≠ .same := by
  unfold Manifest.Disagrees
  cases hlook : look p with
  | unreadable => exact absurd hlook hreadable
  | present hash => cases hrec : m.get? p <;> simp [compareRecord]
  | missing => cases hrec : m.get? p <;> simp [compareRecord]
  | excluded => cases hrec : m.get? p <;> simp [compareRecord]

/-- The candidates have a path looked at: they name it outside of renames, as the source of a rename
and it is recorded, or as the target of a rename and it is there or the source has no record. -/
def ChangeSet.Examines (c : ChangeSet) (m : Manifest) (look : String → FileState) (p : String) :
    Prop :=
  p ∈ c.added ∨ p ∈ c.modified ∨ p ∈ c.deleted ∨
    ∃ e ∈ c.renamed, (p = e.1 ∧ (m.get? e.1).isSome) ∨
      (p = e.2 ∧ ((m.get? e.1).isSome → (look e.2).isPresent))

variable {m look candidates}

/-- A confirmation that leaves nothing out looks at the paths that the candidates have looked at. -/
theorem covers_iff_of_skips_nothing (hnone : (confirm m look candidates).skipped = []) (p : String) :
    (Sorting.ofCandidates m look candidates).Covers p ↔ candidates.Examines m look p := by
  obtain ⟨hcheck, hgone, hrenames, hleft⟩ := Sorting.ofCandidates_parts m look candidates
  obtain ⟨_, _, _, _, hskipped⟩ := confirm_parts m look candidates
  have hpaths : p ∈ (Sorting.ofCandidates m look candidates).paths ↔
      p ∈ (Sorting.ofCandidates m look candidates).check ∨
        p ∈ (Sorting.ofCandidates m look candidates).gone := by
    rw [Sorting.paths, mem_sortedPaths, List.mem_append]
  unfold Sorting.Covers ChangeSet.Examines
  rw [hpaths, hcheck, hgone]
  constructor
  · rintro (((h | h | ⟨e, he, ⟨hnew, rfl⟩ | ⟨hsome, htarget, _, hends⟩⟩) |
      h | ⟨e, he, hsome, _, _, rfl⟩) | ⟨e, he, hends⟩)
    · exact .inl h
    · exact .inr (.inl h)
    · exact .inr (.inr (.inr ⟨e, he, .inr ⟨rfl, by simp [hnew]⟩⟩))
    · exact .inr (.inr (.inr ⟨e, he, hends.imp (⟨·, hsome⟩) (⟨·, fun _ => htarget⟩)⟩))
    · exact .inr (.inr (.inl h))
    · exact .inr (.inr (.inr ⟨e, he, .inl ⟨rfl, hsome⟩⟩))
    · obtain ⟨hin, hsome, htarget, _⟩ := (hrenames e).mp he
      exact .inr (.inr (.inr ⟨e, hin, hends.imp (⟨·, hsome⟩) (⟨·, fun _ => htarget⟩)⟩))
  · rintro (h | h | h | ⟨e, he, hends⟩)
    · exact .inl (.inl (.inl h))
    · exact .inl (.inl (.inr (.inl h)))
    · exact .inl (.inr (.inl h))
    -- what is done with a rename depends on the record of its source and on what is at its ends
    · by_cases hsome : (m.get? e.1).isSome
      · have hread : look e.2 ≠ .unreadable := by
          intro hlook
          have hmem := (hskipped e.2).mpr (.inl ((hleft e.2).mpr ⟨e, he, hsome, hlook, rfl⟩))
          rw [hnone] at hmem
          exact absurd hmem List.not_mem_nil
        by_cases htarget : (look e.2).isPresent = true
        · have hboth : p = e.1 ∨ p = e.2 := hends.imp And.left And.left
          by_cases hsource : (look e.1).isPresent = true
          · exact .inl (.inl (.inr (.inr ⟨e, he, .inr ⟨hsome, htarget, hsource, hboth⟩⟩)))
          · refine .inr ⟨e, (hrenames e).mpr ⟨he, hsome, htarget, ?_⟩, hboth⟩
            simpa using hsource
        · rcases hends with ⟨rfl, _⟩ | ⟨_, h⟩
          · refine .inl (.inr (.inr ⟨e, he, hsome, ?_, hread, rfl⟩))
            simpa using htarget
          · exact absurd (h hsome) htarget
      · rcases hends with ⟨_, h⟩ | ⟨rfl, _⟩
        · exact absurd h hsome
        · exact .inl (.inl (.inr (.inr ⟨e, he, .inl ⟨by simpa using hsome, rfl⟩⟩)))

variable (hreadable : ∀ p ∈ candidates.mentioned, look p ≠ .unreadable)

include hreadable

theorem confirm_skips_nothing : (confirm m look candidates).skipped = [] := by
  obtain ⟨_, _, _, hleft⟩ := Sorting.ofCandidates_parts m look candidates
  obtain ⟨_, _, _, _, hskipped⟩ := confirm_parts m look candidates
  rw [List.eq_nil_iff_forall_not_mem]
  intro p hp
  rcases (hskipped p).mp hp with h | ⟨hpaths, hcompared⟩
  · obtain ⟨e, he, _, hlook, rfl⟩ := (hleft p).mp h
    have hmentioned := (ChangeSet.mem_mentioned candidates e.2).mpr
      (.inr (.inr (.inr ⟨e, he, .inr rfl⟩)))
    exact hreadable _ hmentioned hlook
  · exact hreadable p (covers_mentioned m look candidates p (.inl hpaths))
      ((compareRecord_skipped _ _).mp hcompared)

/-- Candidates come to no changes exactly when every path that is looked at is as its record
says. -/
theorem confirm_idle_iff : (confirm m look candidates).changes.isEmpty = true ↔
    ∀ p, (Sorting.ofCandidates m look candidates).Covers p →
      compareRecord (m.get? p) (look p) = .same := by
  constructor
  · intro hempty p hp
    rcases confirm_covers m look candidates p hp with hsame | hskipped | hmentioned
    · exact hsame
    · rw [confirm_skips_nothing hreadable] at hskipped
      exact absurd hskipped List.not_mem_nil
    · obtain ⟨hadded, hmodified, hdeleted, hrenamed⟩ := (ChangeSet.isEmpty_iff _).mp hempty
      rw [ChangeSet.mem_mentioned, hadded, hmodified, hdeleted, hrenamed] at hmentioned
      simp at hmentioned
  · intro hsame
    apply confirm_idle
    · rw [List.eq_nil_iff_forall_not_mem]
      intro e he
      -- the source of a rename is recorded, and gone
      obtain ⟨_, hsome, _, hgone⟩ :=
        ((Sorting.ofCandidates_parts m look candidates).2.2.1 e).mp he
      rcases (compareRecord_same _ _).mp (hsame e.1 (.inr ⟨e, he, .inl rfl⟩)) with
        ⟨_, _, _, hlook, _⟩ | ⟨hnone, _⟩
      · rw [hlook] at hgone
        cases hgone
      · rw [hnone] at hsome
        cases hsome
    · exact fun p hp => .inl (hsame p (.inl hp))

/-- Where everything can be read, the paths that are looked at are those that the candidates have
looked at. -/
theorem covers_iff_examines (p : String) :
    (Sorting.ofCandidates m look candidates).Covers p ↔ candidates.Examines m look p :=
  covers_iff_of_skips_nothing (confirm_skips_nothing hreadable) p

/-- A path that is not as the manifest has it is among the confirmed changes exactly when the
candidates have it looked at. -/
theorem confirm_complete_iff (p : String) (hmentioned : p ∈ candidates.mentioned)
    (hdisagrees : m.Disagrees look p) :
    p ∈ (confirm m look candidates).changes.mentioned ↔ candidates.Examines m look p := by
  have hchanged : compareRecord (m.get? p) (look p) ≠ .same :=
    (m.disagrees_iff look p (hreadable p hmentioned)).mp hdisagrees
  rw [← covers_iff_examines hreadable]
  constructor
  · exact confirm_mentions m look candidates p
  · intro hcovers
    rcases confirm_covers m look candidates p hcovers with hsame | hskipped | hin
    · exact absurd hsame hchanged
    · rw [confirm_skips_nothing hreadable] at hskipped
      exact absurd hskipped List.not_mem_nil
    · exact hin

end Confirmation

section Vanished

def bareLook : String → FileState :=
  (⟨"/w", {}, []⟩ : FileFilter).inspect ⟨.ofList [(["w"], DiskNode.directory)]⟩

def vanishedManifest : Manifest :=
  let record (path : String) : FileRecord := ⟨path, "", none, 0, "", [], false⟩
  (Manifest.empty.recordIndexed (record "a.py") .zero).recordIndexed (record "b.py") .zero

def vanishedCandidates : ChangeSet := { renamed := [("a.py", "b.py")] }

theorem vanished_confirmed :
    "a.py" ∈ (confirm vanishedManifest bareLook vanishedCandidates).changes.mentioned := by
  have hreadable : ∀ p ∈ vanishedCandidates.mentioned, bareLook p ≠ .unreadable := by
    decide +kernel
  have hdisagrees : vanishedManifest.Disagrees bareLook "a.py" := .inr (.inr (by decide +kernel))
  refine (confirm_complete_iff hreadable "a.py" (by decide) hdisagrees).mpr ?_
  exact .inr (.inr (.inr ⟨("a.py", "b.py"), by decide, .inl ⟨rfl, by decide +kernel⟩⟩))

/-- The target of the rename is recorded and missing, and no change tells of it. -/
theorem vanished_overlooked :
    (∀ p ∈ vanishedCandidates.mentioned, bareLook p ≠ .unreadable) ∧
      "b.py" ∈ vanishedCandidates.mentioned ∧ vanishedManifest.Disagrees bareLook "b.py" ∧
      "b.py" ∉ (confirm vanishedManifest bareLook vanishedCandidates).changes.mentioned := by
  refine ⟨by decide +kernel, by decide, .inr (.inr (by decide +kernel)), by decide +kernel⟩

end Vanished

end CodeIndex
