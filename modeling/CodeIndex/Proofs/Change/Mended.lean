import CodeIndex.Proofs.Change.Detect

namespace CodeIndex

def FileState.hash? : FileState → Option ContentHash
  | .present hash => some hash
  | _ => none

theorem FileState.hash?_of_absent {s : FileState} (h : s.isPresent = false) : s.hash? = none := by
  cases s with
  | present hash => cases h
  | _ => rfl

namespace Manifest

variable (look : String → FileState)

def Right (m : Manifest) (p : String) : Prop := m.hashAt p = (look p).hash?

def Mends (m m' : Manifest) : Prop := ∀ p, m'.hashAt p = m.hashAt p ∨ m'.Right look p

variable {look} {m m' m'' : Manifest}

theorem Mends.refl (m : Manifest) : m.Mends look m := fun _ => .inl rfl

theorem Mends.trans (h : m.Mends look m') (h' : m'.Mends look m'') : m.Mends look m'' := by
  intro p
  rcases h' p with heq | hright
  · rcases h p with heq' | hright'
    · exact .inl (heq.trans heq')
    · exact .inr (heq.trans hright')
  · exact .inr hright

theorem Right.mends {p : String} (h : m.Right look p) (hm : m.Mends look m') :
    m'.Right look p := by
  rcases hm p with heq | hright
  · exact heq.trans h
  · exact hright

theorem right_removeFile (m : Manifest) {path : String} (now : Duration)
    (hgone : (look path).isPresent = false) :
    m.Mends look (m.removeFile path now) ∧ (m.removeFile path now).Right look path := by
  have hright : (m.removeFile path now).Right look path := by
    unfold Right
    rw [hashAt_removeFile, if_pos rfl, FileState.hash?_of_absent hgone]
  refine ⟨fun p => ?_, hright⟩
  by_cases hp : path = p
  · exact .inr (hp ▸ hright)
  · rw [hashAt_removeFile, if_neg hp]
    exact .inl rfl

theorem right_recordIndexed (m : Manifest) (r : FileRecord) (now : Duration)
    (hlook : look r.path = .present r.contentHash) :
    m.Mends look (m.recordIndexed r now) ∧ (m.recordIndexed r now).Right look r.path := by
  have hright : (m.recordIndexed r now).Right look r.path := by
    unfold Right
    rw [hashAt_recordIndexed, if_pos rfl, hlook]
    rfl
  refine ⟨fun p => ?_, hright⟩
  by_cases hp : r.path = p
  · exact .inr (hp ▸ hright)
  · rw [hashAt_recordIndexed, if_neg hp]
    exact .inl rfl

end Manifest

/-- Confirmed changes write a path that is recorded as it is only as the target of a candidate
rename, from a recorded path that is gone. -/
theorem confirm_rewrites (m : Manifest) (look : String → FileState) (candidates : ChangeSet)
    {p : String} {hash : ContentHash} (hlook : look p = .present hash)
    (hright : m.hashAt p = some hash) (hp : (confirm m look candidates).changes.Writes p) :
    ∃ e ∈ candidates.renamed, e.2 = p ∧ (m.get? e.1).isSome = true ∧
      (look e.1).isPresent = false := by
  obtain ⟨hadded, hmodified, _, hrenamed, _⟩ := confirm_parts m look candidates
  obtain ⟨r, hr, hhash⟩ := Option.map_eq_some_iff.mp hright
  have hnew (hash' : ContentHash) : (p, hash') ∉ foundAdded m look candidates := by
    intro h
    have hcompared := ((mem_foundAdded m look candidates p hash').mp h).2
    obtain ⟨hnone, _⟩ := (compareRecord_added _ _ _).mp hcompared
    rw [hnone] at hr
    cases hr
  rcases hp with hp | hp | ⟨⟨source, target⟩, he, rfl⟩
  · obtain ⟨hash', h, _⟩ := (hadded p).mp hp
    exact absurd h (hnew hash')
  · obtain ⟨r', hash', hr', hlook', hne⟩ :=
      (compareRecord_modified _ _).mp ((hmodified p).mp hp).2
    rw [hr] at hr'
    rw [hlook] at hlook'
    cases hr'
    cases hlook'
    exact absurd hhash hne
  · rcases (hrenamed source p).mp he with he | ⟨hash', h, _⟩
    · obtain ⟨hcandidate, hsome, _, hgone⟩ :=
        ((Sorting.ofCandidates_parts m look candidates).2.2.1 _).mp he
      exact ⟨_, hcandidate, rfl, hsome, hgone⟩
    · exact absurd h (hnew hash')

namespace TreeView

variable (t : TreeView) {m m' : Manifest} {reference : Option String} {target : DiffTarget}

theorem detect_writes (m : Manifest) (reference : Option String) (target : DiffTarget) :
    (t.detect m reference target).changes =
      (confirm m t.look (t.candidates m reference target)).changes := by
  obtain ⟨source, hdetect⟩ := t.detect_confirm m reference target
  rw [hdetect]

theorem detect_gone (m : Manifest) {p : String}
    (hp : (t.detect m reference target).changes.Removes p) : (t.look p).isPresent = false := by
  rw [detect_writes] at hp
  have hfounded := confirm_founded m t.look (t.candidates m reference target)
  rcases hp with hp | ⟨e, he, rfl⟩
  · exact (hfounded.deleted p hp).2
  · exact (hfounded.renamed e he).2.1

/-- Which renames are candidates does not depend on the records, as long as there are any. -/
theorem candidates_renamed (hm : m.isEmpty = false) (hm' : m'.isEmpty = false)
    (e : String × String) : e ∈ (t.candidates m' reference target).renamed ↔
      e ∈ (t.candidates m reference target).renamed := by
  unfold candidates
  rw [hm, hm', Bool.false_or]
  split
  · rfl
  · split
    · rename_i found _
      rw [(found.withRechecks_parts m.divergedPaths).2.2.2,
        (found.withRechecks_parts m'.divergedPaths).2.2.2]
    · rfl

/-- A path is done with: it is recorded as it is, if it is there, and detection finds nothing to be
written there. -/
structure Done (m : Manifest) (reference : Option String) (target : DiffTarget) (p : String) :
    Prop where
  recorded : ∀ hash, t.look p = .present hash → m.hashAt p = some hash
  spared : ¬ (t.detect m reference target).changes.Writes p

variable {t}

/-- A rename that would have a path written that is recorded as it is, once records were mended, had
it written before. -/
theorem mended_rewrites (hmends : m.Mends t.look m') {p : String} {hash : ContentHash}
    (hlook : t.look p = .present hash) (hright : m'.hashAt p = some hash)
    (hp : (t.detect m' reference target).changes.Writes p) :
    ∃ e ∈ (t.detect m reference target).changes.renamed, e.2 = p ∧ m'.hashAt e.1 ≠ none ∧
      (t.look e.1).isPresent = false := by
  rw [detect_writes] at hp ⊢
  obtain ⟨e, he, rfl, hsome, hgone⟩ := confirm_rewrites m' t.look _ hlook hright hp
  have hrecorded : m'.hashAt e.1 ≠ none := by
    rw [Ne, Manifest.hashAt_none]
    exact Option.isSome_iff_ne_none.mp hsome
  -- a path that is gone has no record but the one it had
  have hbefore : m.hashAt e.1 ≠ none := by
    rcases hmends e.1 with heq | hnone
    · rw [← heq]
      exact hrecorded
    · rw [Manifest.Right, FileState.hash?_of_absent hgone] at hnone
      exact absurd hnone hrecorded
  have hsome' : (m.get? e.1).isSome = true := by
    rw [Option.isSome_iff_ne_none, Ne, ← Manifest.hashAt_none]
    exact hbefore
  have hfull (n : Manifest) (h : (n.get? e.1).isSome = true) : n.isEmpty = false := by
    rw [← Bool.not_eq_true, Manifest.isEmpty_iff]
    intro hnone
    rw [hnone] at h
    cases h
  have hcandidate := (t.candidates_renamed (hfull m hsome') (hfull m' hsome) e).mp he
  have hpresent : (t.look e.2).isPresent = true := by
    rw [hlook]
    rfl
  refine ⟨e, ?_, rfl, hrecorded, hgone⟩
  obtain ⟨_, _, _, hrenamed, _⟩ := confirm_parts m t.look (t.candidates m reference target)
  apply (hrenamed e.1 e.2).mpr
  left
  exact ((Sorting.ofCandidates_parts m t.look _).2.2.1 e).mpr
    ⟨hcandidate, hsome', hpresent, hgone⟩

theorem Done.mends {p : String} (h : t.Done m reference target p) (hmends : m.Mends t.look m') :
    t.Done m' reference target p := by
  have hrecorded (hash : ContentHash) (hlook : t.look p = .present hash) :
      m'.hashAt p = some hash := by
    rcases hmends p with heq | hright
    · rw [heq]
      exact h.recorded hash hlook
    · rw [hright, hlook]
      rfl
  refine ⟨hrecorded, fun hwrites => ?_⟩
  have hpresent := hwrites
  rw [detect_writes] at hpresent
  obtain ⟨hash, hlook⟩ := (confirm_founded m' t.look _).workable.present p hpresent
  obtain ⟨e, he, hep, _⟩ := mended_rewrites hmends hlook (hrecorded hash hlook) hwrites
  exact h.spared (.inr (.inr ⟨e, he, hep.symm⟩))

/-- Once the sources of its renames are no longer recorded, a detection is done with the paths that
are recorded as they are. -/
theorem done_of_right (hmends : m.Mends t.look m')
    (hsources : ∀ e ∈ (t.detect m reference target).changes.renamed, m'.Right t.look e.1)
    {p : String} (hright : m'.Right t.look p) : t.Done m' reference target p := by
  have hrecorded (hash : ContentHash) (hlook : t.look p = .present hash) :
      m'.hashAt p = some hash := by
    rw [hright, hlook]
    rfl
  refine ⟨hrecorded, fun hwrites => ?_⟩
  have hpresent := hwrites
  rw [detect_writes] at hpresent
  obtain ⟨hash, hlook⟩ := (confirm_founded m' t.look _).workable.present p hpresent
  obtain ⟨e, he, _, hsome, hgone⟩ := mended_rewrites hmends hlook (hrecorded hash hlook) hwrites
  have hnone := hsources e he
  rw [Manifest.Right, FileState.hash?_of_absent hgone] at hnone
  exact hsome hnone

end TreeView

end CodeIndex
