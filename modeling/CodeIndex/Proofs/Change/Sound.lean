import CodeIndex.Proofs.Change.Complete

/-!
What confirmed changes can be relied on for. Each member tells of its path what the disk and the
records show, so no path is both made and unmade, and none is listed without being a candidate.
-/

namespace CodeIndex

namespace Evident

variable {m : Manifest} {look : String → FileState} {c : ChangeSet}

/-- A file with the recorded content is not among the changes to be made to single paths. -/
theorem spares_recorded (h : Evident m look c) {p : String} {r : FileRecord}
    (hrec : m.get? p = some r) (hlook : look p = .present r.contentHash) :
    p ∉ c.added ∧ p ∉ c.modified ∧ p ∉ c.deleted := by
  refine ⟨fun hp => ?_, fun hp => ?_, fun hp => ?_⟩
  · have hnone : m.get? p = none := (h.added p hp).1
    rw [hrec] at hnone
    cases hnone
  · obtain ⟨r', hash, hrec', hlook', hne⟩ := h.modified p hp
    have hr : r = r' := Option.some.inj (hrec.symm.trans hrec')
    have hhash : FileState.present r.contentHash = .present hash := hlook.symm.trans hlook'
    cases hr
    cases hhash
    exact hne rfl
  · rcases (h.deleted p hp).2 with hgone | hgone <;> rw [hlook] at hgone <;> cases hgone

/-- Renames do not follow on one another, whatever their order. -/
theorem unchained (h : Evident m look c) {e e' : String × String} (he : e ∈ c.renamed)
    (he' : e' ∈ c.renamed) : e.1 ≠ e'.2 := by
  intro heq
  have hwritten : c.Writes e.1 := .inr (.inr ⟨e', he', heq⟩)
  exact h.founded.workable.apart e.1 hwritten (.inr ⟨e, he, rfl⟩)

theorem deleted_ne_target (h : Evident m look c) {p : String} {e : String × String}
    (hp : p ∈ c.deleted) (he : e ∈ c.renamed) : p ≠ e.2 := by
  intro heq
  have hwritten : c.Writes p := .inr (.inr ⟨e, he, heq⟩)
  exact h.founded.workable.apart p hwritten (.inl hp)

end Evident

/-- Confirmed changes are sound, whatever the manifest, the disk and the candidates: every member is
what the disk and its record show, a file that is there with the recorded content is not listed as
added, modified or deleted, no source of a rename is the target of a rename, no deleted path is one
either, and every path comes from the candidates. An excluded file is gone whatever it holds. -/
theorem confirm_sound (m : Manifest) (look : String → FileState) (candidates : ChangeSet) :
    let c := (confirm m look candidates).changes
    Evident m look c ∧
      (∀ p r, m.get? p = some r → look p = .present r.contentHash →
        p ∉ c.added ∧ p ∉ c.modified ∧ p ∉ c.deleted) ∧
      (∀ e ∈ c.renamed, ∀ e' ∈ c.renamed, e.1 ≠ e'.2) ∧
      (∀ p ∈ c.deleted, ∀ e ∈ c.renamed, p ≠ e.2) ∧
      ∀ p ∈ c.mentioned, p ∈ candidates.mentioned := by
  intro c
  have h : Evident m look c := confirm_evident m look candidates
  refine ⟨h, fun p r => h.spares_recorded, fun e he e' he' => h.unchained he he',
    fun p hp e he => h.deleted_ne_target hp he, fun p hp => ?_⟩
  have hcovers := confirm_mentions m look candidates p hp
  exact covers_mentioned m look candidates p hcovers

end CodeIndex
