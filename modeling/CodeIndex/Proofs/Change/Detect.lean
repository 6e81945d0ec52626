import CodeIndex.Change.Detect
import CodeIndex.Proofs.Change.Confirm

namespace CodeIndex

namespace TreeView

variable (t : TreeView) (m : Manifest)

def scanCandidates : ChangeSet := .ofLists t.files [] (m.deletedFrom t.files) []

def candidates (reference : Option String) (target : DiffTarget) : ChangeSet :=
  if m.isEmpty || t.head.isNone then t.scanCandidates m
  else
    match t.gitCandidates reference target with
    | .ok (some found) => found.withRechecks m.divergedPaths
    | _ => t.scanCandidates m

theorem detect_confirm (reference : Option String) (target : DiffTarget) :
    ∃ source, t.detect m reference target =
      ⟨(confirm m t.look (t.candidates m reference target)).changes, source, t.head,
        (confirm m t.look (t.candidates m reference target)).skipped⟩ := by
  unfold detect candidates
  cases m.isEmpty with
  | true => exact ⟨.firstRun, by simp only [if_true, Bool.true_or]; rfl⟩
  | false =>
    cases t.head.isNone with
    | true =>
      refine ⟨.hashFallback, ?_⟩
      simp only [Bool.false_eq_true, if_false, if_true, Bool.or_true]
      rfl
    | false =>
      simp only [Bool.false_eq_true, if_false, Bool.or_self]
      cases t.gitCandidates reference target with
      | error e => exact ⟨.hashFallback, by dsimp only; rfl⟩
      | ok found =>
        cases found with
        | none => exact ⟨.hashFallback, by dsimp only; rfl⟩
        | some found => exact ⟨.git, by dsimp only⟩

/-- A scan compares every file of the walk and every recorded path. -/
theorem mem_scanPaths (p : String) :
    p ∈ comparedPaths m t.look (t.scanCandidates m) ↔ p ∈ t.files ∨ (m.get? p).isSome := by
  obtain ⟨hcheck, hgone, _⟩ := Sorting.ofCandidates_parts m t.look (t.scanCandidates m)
  have hnone (e : String × String) : e ∉ (t.scanCandidates m).renamed := List.not_mem_nil
  rw [comparedPaths, Sorting.paths, mem_sortedPaths, List.mem_append, hcheck, hgone]
  simp only [hnone, false_and, exists_const, or_false]
  show (p ∈ sortedPaths t.files ∨ p ∈ sortedPaths []) ∨ p ∈ sortedPaths (m.deletedFrom t.files) ↔ _
  rw [mem_sortedPaths, mem_sortedPaths, mem_sortedPaths, Manifest.mem_deletedFrom]
  constructor
  · rintro ((h | h) | h)
    · exact .inl h
    · exact absurd h List.not_mem_nil
    · exact .inr h.1
  · rintro (h | h)
    · exact .inl (.inl h)
    · by_cases hp : p ∈ t.files
      · exact .inl (.inl hp)
      · exact .inr ⟨h, hp⟩

theorem scan_renames : (Sorting.ofCandidates m t.look (t.scanCandidates m)).renames = [] := by
  rw [List.eq_nil_iff_forall_not_mem]
  intro e he
  have hrenamed := ((Sorting.ofCandidates_parts m t.look (t.scanCandidates m)).2.2.1 e).mp he
  exact absurd hrenamed.1 List.not_mem_nil

/-- A scan looks at every file of the walk and at every record. -/
theorem scanCandidates_covers (p : String) :
    (Sorting.ofCandidates m t.look (t.scanCandidates m)).Covers p ↔
      p ∈ t.files ∨ (m.get? p).isSome := by
  rw [Sorting.Covers, scan_renames, ← mem_scanPaths]
  simp only [List.not_mem_nil, false_and, exists_const, or_false]
  rfl

theorem scan_removes (p : String)
    (h : (confirm m t.look (t.scanCandidates m)).changes.Removes p) :
    compareRecord (m.get? p) (t.look p) = .deleted := by
  obtain ⟨_, _, hdeleted, hrenamed, _⟩ := confirm_parts m t.look (t.scanCandidates m)
  rcases h with h | ⟨⟨source, target⟩, he, rfl⟩
  · exact ((mem_foundDeleted m _ _ p).mp ((hdeleted p).mp h).1).2
  · rcases (hrenamed _ target).mp he with h | ⟨hash, _, hpartner⟩
    · rw [scan_renames] at h
      exact absurd h List.not_mem_nil
    · obtain ⟨⟨hmem, _⟩, _⟩ := (partnerOf_eq_some_iff m _ _ hash _).mp hpartner
      exact ((mem_foundDeleted m _ _ _).mp hmem).2

theorem scan_skipped (p : String) :
    p ∈ (confirm m t.look (t.scanCandidates m)).skipped ↔
      (p ∈ t.files ∨ (m.get? p).isSome) ∧ t.look p = .unreadable := by
  obtain ⟨_, _, _, _, hskipped⟩ := confirm_parts m t.look (t.scanCandidates m)
  obtain ⟨_, _, _, hleft⟩ := Sorting.ofCandidates_parts m t.look (t.scanCandidates m)
  rw [hskipped, hleft, mem_scanPaths, compareRecord_skipped]
  constructor
  · rintro (⟨e, he, _⟩ | h)
    · exact absurd he List.not_mem_nil
    · exact h
  · exact .inr

theorem detectAll_parts :
    (∀ p, p ∈ (t.detectAll m).changes.added ↔
      p ∈ t.files ∧ (t.look p).isPresent = true ∧ m.get? p = none) ∧
    (∀ p, p ∈ (t.detectAll m).changes.modified ↔
      p ∈ t.files ∧ (t.look p).isPresent = true ∧ (m.get? p).isSome) ∧
    (∀ p, p ∈ (t.detectAll m).changes.deleted ↔ (m.get? p).isSome ∧
      ¬ (p ∈ t.files ∧ ((t.look p).isPresent = true ∨ t.look p = .unreadable))) ∧
    (t.detectAll m).changes.renamed = [] ∧
    ∀ p, p ∈ (t.detectAll m).skipped ↔ p ∈ t.files ∧ t.look p = .unreadable := by
  refine ⟨fun p => ?_, fun p => ?_, fun p => ?_, rfl, fun p => ?_⟩
  · simp only [detectAll, ChangeSet.ofLists, mem_sortedPaths, List.mem_filter, and_assoc,
      Option.isNone_iff_eq_none]
  · simp only [detectAll, ChangeSet.ofLists, mem_sortedPaths, List.mem_filter, and_assoc]
  · simp only [detectAll, ChangeSet.ofLists, mem_sortedPaths, Manifest.mem_deletedFrom,
      List.mem_append, List.mem_filter, beq_iff_eq, and_or_left]
  · simp [detectAll]

theorem detectAll_workable : (t.detectAll m).changes.Workable t.look := by
  obtain ⟨hadded, hmodified, hdeleted, hrenamed, _⟩ := t.detectAll_parts m
  have hwrites (p : String) (h : (t.detectAll m).changes.Writes p) :
      p ∈ t.files ∧ (t.look p).isPresent = true := by
    rcases h with h | h | ⟨e, he, _⟩
    · exact ⟨((hadded p).mp h).1, ((hadded p).mp h).2.1⟩
    · exact ⟨((hmodified p).mp h).1, ((hmodified p).mp h).2.1⟩
    · rw [hrenamed] at he
      exact absurd he List.not_mem_nil
  refine ⟨fun p h => (FileState.isPresent_iff _).mp (hwrites p h).2, fun p h hr => ?_⟩
  rcases hr with hr | ⟨e, he, _⟩
  · exact ((hdeleted p).mp hr).2 ⟨(hwrites p h).1, .inl (hwrites p h).2⟩
  · rw [hrenamed] at he
    exact absurd he List.not_mem_nil

end TreeView

end CodeIndex
