import CodeIndex.Proofs.Change.Mended
import CodeIndex.Proofs.Change.Sound

/-!
What is left of some changes once a part of them is done. The paths that were to be removed have no
record any more, and some of those that were to be written are recorded as they are. The same
candidates come to the rest then: to what was to be written and is not, and to nothing else.
-/

namespace CodeIndex

def ChangeSet.Names (c : ChangeSet) (p : String) : Prop :=
  p ∈ c.added ∨ p ∈ c.modified ∨ p ∈ c.deleted

structure ChangeSet.PartlyDone (changes : ChangeSet) (look : String → FileState) (m m' : Manifest) :
    Prop where
  removed : ∀ p, changes.Removes p → m'.get? p = none
  kept : ∀ p, ¬ changes.Removes p → (m.get? p).isSome → (m'.get? p).isSome
  mended : ∀ p, m'.get? p = m.get? p ∨ m'.Right look p

/-- The candidates are found again: the same renames, the same paths where the records stayed, and
no path without a record that was not found before. -/
structure ChangeSet.Recurs (c c' : ChangeSet) (m m' : Manifest) : Prop where
  renamed : ∀ e, e ∈ c'.renamed ↔ e ∈ c.renamed
  named : ∀ p, m'.get? p = m.get? p → (c'.Names p ↔ c.Names p)
  unrecorded : ∀ p, m'.get? p = none → c'.Names p → c.Names p

def ChangeSet.Unhidden (c : ChangeSet) (m : Manifest) (look : String → FileState) : Prop :=
  ∀ e ∈ c.renamed, (m.get? e.1).isSome → (look e.2).isPresent = false → m.get? e.2 = none

section Remaining

variable {m m' : Manifest} {look : String → FileState} {c c' : ChangeSet} {p : String}

theorem ChangeSet.examines_iff : c.Examines m look p ↔ c.Names p ∨
    ∃ e ∈ c.renamed, (p = e.1 ∧ (m.get? e.1).isSome) ∨
      (p = e.2 ∧ ((m.get? e.1).isSome → (look e.2).isPresent)) := by
  unfold ChangeSet.Examines ChangeSet.Names
  simp only [or_assoc]

theorem ChangeSet.Recurs.refl (c : ChangeSet) (m m' : Manifest) : c.Recurs c m m' :=
  ⟨fun _ => Iff.rfl, fun _ _ => Iff.rfl, fun _ _ h => h⟩

theorem ChangeSet.mentioned_names : p ∈ c.mentioned ↔
    c.Names p ∨ ∃ e ∈ c.renamed, p = e.1 ∨ p = e.2 := by
  rw [ChangeSet.mem_mentioned]
  unfold ChangeSet.Names
  simp only [or_assoc]

theorem Manifest.right_iff (hreadable : look p ≠ .unreadable) :
    m.Right look p ↔ compareRecord (m.get? p) (look p) = .same := by
  unfold Manifest.Right Manifest.hashAt
  rw [compareRecord_same]
  cases hlook : look p with
  | unreadable => exact absurd hlook hreadable
  | present hash =>
    cases hrecord : m.get? p with
    | none => simp [FileState.hash?]
    | some r =>
      have hflip : r.contentHash = hash ↔ hash = r.contentHash := ⟨Eq.symm, Eq.symm⟩
      simp [FileState.hash?, hflip]
  | missing => cases hrecord : m.get? p <;> simp [FileState.hash?]
  | excluded => cases hrecord : m.get? p <;> simp [FileState.hash?]

theorem Manifest.right_absent (hgone : (look p).isPresent = false) :
    m.Right look p ↔ m.get? p = none := by
  rw [Manifest.Right, FileState.hash?_of_absent hgone, Manifest.hashAt_none]

/-- What can be read of the candidates can be read of them when they are found again. -/
theorem ChangeSet.Recurs.readable (h : c.Recurs c' m m')
    (hreadable : ∀ p ∈ c.mentioned, look p ≠ .unreadable)
    (hmended : ∀ p, m'.get? p = m.get? p ∨ m'.Right look p) :
    ∀ p ∈ c'.mentioned, look p ≠ .unreadable := by
  intro p hp hlook
  rcases ChangeSet.mentioned_names.mp hp with hnamed | ⟨e, he, hend⟩
  · refine hreadable p (ChangeSet.mentioned_names.mpr (.inl ?_)) hlook
    rcases hmended p with hsame | hright
    · exact (h.named p hsame).mp hnamed
    · have hgone : (look p).isPresent = false := by rw [hlook]; rfl
      exact h.unrecorded p ((Manifest.right_absent hgone).mp hright) hnamed
  · exact hreadable p
      (ChangeSet.mentioned_names.mpr (.inr ⟨e, (h.renamed e).mp he, hend⟩)) hlook

section Confirmed

variable (hreadable : ∀ p ∈ c.mentioned, look p ≠ .unreadable)

include hreadable

/-- What the changes say of a path that is looked at and is not right. -/
theorem confirm_finds (hright : ¬ m.Right look p) (hexamined : c.Examines m look p) :
    (confirm m look c).changes.Writes p ∨ (confirm m look c).changes.Removes p := by
  have hcovers := (covers_iff_examines (m := m) hreadable p).mpr hexamined
  have hnone := confirm_skips_nothing (m := m) hreadable
  rcases confirm_covers m look c p hcovers with hsame | hskipped | hmentioned
  · have hread := hreadable p (covers_mentioned m look c p hcovers)
    exact absurd ((Manifest.right_iff hread).mpr hsame) hright
  · rw [hnone] at hskipped
    exact absurd hskipped List.not_mem_nil
  · exact (ChangeSet.mentioned_iff _ p).mp hmentioned

theorem confirm_examines
    (h : (confirm m look c).changes.Writes p ∨ (confirm m look c).changes.Removes p) :
    c.Examines m look p :=
  (covers_iff_examines hreadable p).mp
    (confirm_mentions m look c p ((ChangeSet.mentioned_iff _ p).mpr h))

end Confirmed

variable (hreadable : ∀ p ∈ c.mentioned, look p ≠ .unreadable)
  (hunhidden : c.Unhidden m look) (hrecurs : c.Recurs c' m m')
  (hpartly : (confirm m look c).changes.PartlyDone look m m')

include hreadable hunhidden hrecurs hpartly

/-- A path that is not right is looked at again if it was looked at before, and only then. -/
theorem examines_again (hright : ¬ m'.Right look p) :
    c'.Examines m' look p ↔ c.Examines m look p := by
  have hsame : m'.get? p = m.get? p := (hpartly.mended p).resolve_right hright
  have hrecorded (hgone : (look p).isPresent = false) : (m.get? p).isSome := by
    rw [← hsame]
    exact Option.isSome_iff_ne_none.mpr fun hnone =>
      hright ((Manifest.right_absent hgone).mpr hnone)
  rw [ChangeSet.examines_iff, ChangeSet.examines_iff]
  constructor
  · rintro (hnamed | ⟨e, he, ⟨rfl, hsource⟩ | ⟨rfl, htarget⟩⟩)
    · exact .inl ((hrecurs.named p hsame).mp hnamed)
    · refine .inr ⟨e, (hrecurs.renamed e).mp he, .inl ⟨rfl, ?_⟩⟩
      rw [← hsame]
      exact hsource
    · refine .inr ⟨e, (hrecurs.renamed e).mp he, .inr ⟨rfl, fun hsource => ?_⟩⟩
      -- a target that is gone and recorded is not hidden
      cases hgone : (look e.2).isPresent with
      | true => rfl
      | false =>
        have hsome := hrecorded hgone
        rw [hunhidden e ((hrecurs.renamed e).mp he) hsource hgone] at hsome
        cases hsome
  · intro hexamined
    rcases hexamined with hnamed | ⟨e, he, ⟨rfl, hsource⟩ | ⟨rfl, htarget⟩⟩
    · exact .inl ((hrecurs.named p hsame).mpr hnamed)
    · refine .inr ⟨e, (hrecurs.renamed e).mpr he, .inl ⟨rfl, ?_⟩⟩
      rw [hsame]
      exact hsource
    · refine .inr ⟨e, (hrecurs.renamed e).mpr he, .inr ⟨rfl, fun _ => ?_⟩⟩
      -- a target that was looked at, gone and recorded would be removed by now
      cases hgone : (look e.2).isPresent with
      | true => rfl
      | false =>
        have hwrong : ¬ m.Right look e.2 := by
          rw [Manifest.right_absent hgone]
          exact Option.isSome_iff_ne_none.mp (hrecorded hgone)
        have hexamined : c.Examines m look e.2 :=
          ChangeSet.examines_iff.mpr (.inr ⟨e, he, .inr ⟨rfl, htarget⟩⟩)
        have hremoved : m'.get? e.2 = none := by
          apply hpartly.removed
          refine (confirm_finds hreadable hwrong hexamined).resolve_left fun hwrites => ?_
          obtain ⟨hash, hpresent⟩ := (confirm_founded m look c).workable.present e.2 hwrites
          rw [hpresent] at hgone
          cases hgone
        exact absurd ((Manifest.right_absent hgone).mpr hremoved) hright

theorem remaining_removes : ¬ (confirm m' look c').changes.Removes p := by
  intro hremoves
  have hfounded := confirm_founded m' look c'
  have hevident := confirm_evident m' look c'
  have hstands : (m'.get? p).isSome ∧ (look p).isPresent = false := by
    rcases hremoves with hp | ⟨e, he, rfl⟩
    · exact ⟨(hevident.deleted p hp).1, (hfounded.deleted p hp).2⟩
    · exact ⟨(hevident.renamed e he).1, (hfounded.renamed e he).2.1⟩
  obtain ⟨hsome, hgone⟩ := hstands
  have hright : ¬ m'.Right look p := by
    rw [Manifest.right_absent hgone]
    exact Option.isSome_iff_ne_none.mp hsome
  have hsame : m'.get? p = m.get? p := (hpartly.mended p).resolve_right hright
  have hwrong : ¬ m.Right look p := by
    rw [Manifest.right_absent hgone, ← hsame]
    exact Option.isSome_iff_ne_none.mp hsome
  -- what is removed now was found then, and has no record any more
  have hexamined := (examines_again hreadable hunhidden hrecurs hpartly hright).mp
    (confirm_examines (hrecurs.readable hreadable hpartly.mended) (.inr hremoves))
  rcases confirm_finds hreadable hwrong hexamined with hwrites | hremoved
  · obtain ⟨hash, hpresent⟩ := (confirm_founded m look c).workable.present p hwrites
    rw [hpresent] at hgone
    cases hgone
  · rw [hpartly.removed p hremoved] at hsome
    cases hsome

/-- Of what was to be written, that is left which is not right yet. -/
theorem remaining_writes (p : String) : (confirm m' look c').changes.Writes p ↔
    (confirm m look c).changes.Writes p ∧ ¬ m'.Right look p := by
  constructor
  · intro hwrites
    obtain ⟨hash, hpresent⟩ := (confirm_founded m' look c').workable.present p hwrites
    have hright : ¬ m'.Right look p := by
      intro hright
      rw [Manifest.Right, hpresent] at hright
      obtain ⟨e, he, rfl, hsome, hgone⟩ := confirm_rewrites m' look c' hpresent hright hwrites
      -- the source of such a rename would be removed
      obtain ⟨_, _, _, hrenamed, _⟩ := confirm_parts m' look c'
      have htarget : (look e.2).isPresent = true := by
        rw [hpresent]
        rfl
      have hmem : e ∈ (confirm m' look c').changes.renamed := (hrenamed e.1 e.2).mpr (.inl
        (((Sorting.ofCandidates_parts m' look c').2.2.1 e).mpr ⟨he, hsome, htarget, hgone⟩))
      exact remaining_removes hreadable hunhidden hrecurs hpartly (.inr ⟨e, hmem, rfl⟩)
    refine ⟨?_, hright⟩
    have hsame : m'.get? p = m.get? p := (hpartly.mended p).resolve_right hright
    have hwrong : ¬ m.Right look p := by
      unfold Manifest.Right Manifest.hashAt at hright ⊢
      rw [← hsame]
      exact hright
    have hexamined := (examines_again hreadable hunhidden hrecurs hpartly hright).mp
      (confirm_examines (hrecurs.readable hreadable hpartly.mended) (.inl hwrites))
    refine (confirm_finds hreadable hwrong hexamined).resolve_right fun hremoves => ?_
    have hgone : (look p).isPresent = false := by
      rcases hremoves with hp | ⟨e, he, rfl⟩
      · exact ((confirm_founded m look c).deleted p hp).2
      · exact ((confirm_founded m look c).renamed e he).2.1
    rw [hpresent] at hgone
    cases hgone
  · rintro ⟨hwrites, hright⟩
    have hexamined := (examines_again hreadable hunhidden hrecurs hpartly hright).mpr
      (confirm_examines hreadable (.inl hwrites))
    exact (confirm_finds (hrecurs.readable hreadable hpartly.mended) hright hexamined).resolve_right
      (remaining_removes hreadable hunhidden hrecurs hpartly)

theorem remaining_plain : (confirm m' look c').changes.deleted = [] ∧
    (confirm m' look c').changes.renamed = [] := by
  have hnone (p : String) : ¬ (confirm m' look c').changes.Removes p :=
    remaining_removes hreadable hunhidden hrecurs hpartly
  constructor
  · rw [List.eq_nil_iff_forall_not_mem]
    exact fun p hp => hnone p (.inl hp)
  · rw [List.eq_nil_iff_forall_not_mem]
    exact fun e he => hnone e.1 (.inr ⟨e, he, rfl⟩)

end Remaining

namespace TreeView

variable (t : TreeView) {m m' : Manifest} (reference : Option String) (target : DiffTarget)

theorem scan_names (m : Manifest) (p : String) :
    (t.scanCandidates m).Names p ↔ p ∈ t.files ∨ (m.get? p).isSome := by
  unfold ChangeSet.Names
  show p ∈ sortedPaths t.files ∨ p ∈ sortedPaths [] ∨ p ∈ sortedPaths (m.deletedFrom t.files) ↔ _
  rw [mem_sortedPaths, mem_sortedPaths, mem_sortedPaths, Manifest.mem_deletedFrom]
  by_cases hfile : p ∈ t.files <;> simp [hfile]

/-- Candidates are found again where they come from the same source, and where there are none to be
had of version control. -/
theorem candidates_recur (hkeyed : m.Keyed) (hkeyed' : m'.Keyed)
    (hsource : (∀ found, t.gitCandidates reference target ≠ .ok (some found)) ∨
      m.isEmpty = false ∧ m'.isEmpty = false) :
    (t.candidates m reference target).Recurs (t.candidates m' reference target) m m' := by
  have hscan : (t.scanCandidates m).Recurs (t.scanCandidates m') m m' := by
    refine ⟨fun e => Iff.rfl, fun p hsame => ?_, fun p hnone hnamed => ?_⟩
    · rw [scan_names, scan_names, hsame]
    · rw [scan_names, hnone] at hnamed
      rw [scan_names]
      exact hnamed.imp_right fun h => by cases h
  unfold candidates
  cases hgit : t.gitCandidates reference target with
  | error e => simpa only [ite_self] using hscan
  | ok found =>
    cases found with
    | none => simpa only [ite_self] using hscan
    | some found =>
      obtain ⟨hm, hm'⟩ := hsource.resolve_left fun hnone => hnone found hgit
      rw [hm, hm', Bool.false_or]
      cases t.head.isNone with
      | true => exact hscan
      | false =>
        dsimp only
        obtain ⟨hadded, hmodified, hdeleted, hrenamed⟩ := found.withRechecks_parts m.divergedPaths
        obtain ⟨hadded', hmodified', hdeleted', hrenamed'⟩ :=
          found.withRechecks_parts m'.divergedPaths
        refine ⟨fun e => (hrenamed' e).trans (hrenamed e).symm, fun p hsame => ?_,
          fun p hnone hnamed => ?_⟩
        · -- a record that stayed keeps its flag
          have hflag : p ∈ m'.divergedPaths ↔ p ∈ m.divergedPaths := by
            rw [Manifest.mem_divergedPaths _ hkeyed', Manifest.mem_divergedPaths _ hkeyed, hsame]
          show p ∈ _ ∨ p ∈ _ ∨ p ∈ _ ↔ p ∈ _ ∨ p ∈ _ ∨ p ∈ _
          simp only [Bool.false_eq_true, if_false, hadded, hadded', hmodified, hmodified', hdeleted,
            hdeleted', hflag]
        · -- and a path without a record has none
          have hflag : p ∉ m'.divergedPaths := by
            rw [Manifest.mem_divergedPaths _ hkeyed', hnone]
            rintro ⟨_, h, _⟩
            cases h
          change p ∈ _ ∨ p ∈ _ ∨ p ∈ _ at hnamed
          show p ∈ _ ∨ p ∈ _ ∨ p ∈ _
          simp only [Bool.false_eq_true, if_false, hadded', hmodified', hdeleted'] at hnamed
          simp only [Bool.false_eq_true, if_false, hadded, hmodified, hdeleted]
          exact hnamed.imp_right fun h => h.imp_left fun h => .inl (h.resolve_right fun h =>
            hflag h.1)

end TreeView

end CodeIndex
