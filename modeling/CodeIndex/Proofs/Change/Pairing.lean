import CodeIndex.Proofs.Change.Confirm
import Mathlib.Data.List.Nodup

/-!
Additions paired with deletions into renames. The remaining paths are filtered apart from the pairs,
so that nothing is lost or used twice has to be shown: every part is counted over the whole lists.
-/

namespace CodeIndex

section Pairing

variable (m : Manifest) (added : List (String × ContentHash)) (deleted : List String)

theorem pairRenames_targets :
    (pairRenames m added deleted).renamed.map (·.2) =
      (added.filter fun x => !(partnerOf m added deleted x.2).isNone).map (·.1) := by
  simp only [pairRenames, List.map_filterMap]
  -- the partners are found against all additions, whichever of them are gone through
  generalize hpartner : partnerOf m added deleted = partner
  clear hpartner
  induction added with
  | nil => rfl
  | cons x rest ih =>
    cases hx : partner x.2 with
    | none => simpa [hx] using ih
    | some d => simpa [hx] using ih

/-- Additions stay as they are or become the target of a rename. -/
theorem pairRenames_added :
    ((pairRenames m added deleted).added ++ (pairRenames m added deleted).renamed.map (·.2)).Perm
      (added.map (·.1)) := by
  rw [pairRenames_targets]
  have hsplit := List.filter_append_perm
    (fun x : String × ContentHash => (partnerOf m added deleted x.2).isNone) added
  have hpaths := hsplit.map (·.1)
  rw [List.map_append] at hpaths
  exact hpaths

/-- Renames come from deletions: no two of them from the same one. -/
theorem pairRenames_sources (h : added.Nodup) :
    ((pairRenames m added deleted).renamed.map (·.1)).Nodup := by
  simp only [pairRenames, List.map_filterMap, List.Nodup, List.pairwise_filterMap]
  refine List.Pairwise.imp_of_mem ?_ h
  intro x y hx hy hne d hd d' hd' heq
  have hdx : partnerOf m added deleted x.2 = some d := by simpa using hd
  have hdy : partnerOf m added deleted y.2 = some d := by simpa [heq] using hd'
  obtain ⟨⟨_, hrecx⟩, hone, _⟩ := (partnerOf_eq_some_iff m added deleted x.2 d).mp hdx
  obtain ⟨⟨_, hrecy⟩, _, _⟩ := (partnerOf_eq_some_iff m added deleted y.2 d).mp hdy
  -- both additions have the hash that is recorded of `d`, which only one addition has
  have hhash : y.2 = x.2 := Option.some.inj (hrecy.symm.trans hrecx)
  rw [List.countP_eq_length_filter, List.length_eq_one_iff] at hone
  obtain ⟨z, hz⟩ := hone
  have hxz : x = z := by
    have hmem : x ∈ added.filter (·.2 == x.2) := List.mem_filter.mpr ⟨hx, by simp⟩
    simpa [hz] using hmem
  have hyz : y = z := by
    have hmem : y ∈ added.filter (·.2 == x.2) := List.mem_filter.mpr ⟨hy, by simp [hhash]⟩
    simpa [hz] using hmem
  exact hne (hxz.trans hyz.symm)

/-- Deletions stay as they are or become the source of a rename. -/
theorem pairRenames_deleted (hadded : added.Nodup) (hdeleted : deleted.Nodup) :
    ((pairRenames m added deleted).deleted ++ (pairRenames m added deleted).renamed.map (·.1)).Perm
      deleted := by
  let taken (d : String) : Bool := (pairRenames m added deleted).renamed.any (·.1 == d)
  have hsources : ((pairRenames m added deleted).renamed.map (·.1)).Perm
      (deleted.filter taken) := by
    refine (List.perm_ext_iff_of_nodup (pairRenames_sources m added deleted hadded)
      (hdeleted.filter _)).mpr fun d => ?_
    rw [List.mem_filter]
    constructor
    · intro hd
      obtain ⟨⟨d', a⟩, hpair, rfl⟩ := List.mem_map.mp hd
      obtain ⟨hash, _, hpartner⟩ := (mem_pairs m added deleted d' a).mp hpair
      have hin := ((partnerOf_eq_some_iff m added deleted hash d').mp hpartner).1.1
      exact ⟨hin, List.any_eq_true.mpr ⟨(d', a), hpair, by simp⟩⟩
    · rintro ⟨_, htaken⟩
      obtain ⟨pair, hpair, heq⟩ := List.any_eq_true.mp htaken
      have hd : pair.1 = d := by simpa using heq
      exact List.mem_map.mpr ⟨pair, hpair, hd⟩
  have hsplit := List.filter_append_perm taken deleted
  let P := pairRenames m added deleted
  calc (P.deleted ++ P.renamed.map (·.1)).Perm
        (deleted.filter (!taken ·) ++ deleted.filter taken) := hsources.append_left _
    List.Perm _ (deleted.filter taken ++ deleted.filter (!taken ·)) := List.perm_append_comm
    List.Perm _ deleted := hsplit

/-- Pairing loses nothing and uses nothing twice, and pairs a deletion with an addition exactly when
the hash that they share occurs once among the additions and once among the deletions. -/
theorem pairRenames_exact (hadded : (added.map (·.1)).Nodup) (hdeleted : deleted.Nodup) :
    ((pairRenames m added deleted).added ++ (pairRenames m added deleted).renamed.map (·.2)).Perm
        (added.map (·.1)) ∧
      ((pairRenames m added deleted).deleted ++
        (pairRenames m added deleted).renamed.map (·.1)).Perm deleted ∧
      ((pairRenames m added deleted).renamed.map (·.1)).Nodup ∧
      ((pairRenames m added deleted).renamed.map (·.2)).Nodup ∧
      ∀ d a hash, d ∈ deleted → (a, hash) ∈ added →
        ((d, a) ∈ (pairRenames m added deleted).renamed ↔
          m.hashAt d = some hash ∧ added.countP (·.2 == hash) = 1 ∧
            deleted.countP (m.hashAt · == some hash) = 1) := by
  have hnodup : added.Nodup := hadded.of_map
  have htargets : ((pairRenames m added deleted).renamed.map (·.2)).Nodup :=
    ((pairRenames_added m added deleted).nodup_iff.mpr hadded).of_append_right
  refine ⟨pairRenames_added m added deleted, pairRenames_deleted m added deleted hnodup hdeleted,
    pairRenames_sources m added deleted hnodup, htargets, fun d a hash hd ha => ?_⟩
  have hpair : (d, a) ∈ (pairRenames m added deleted).renamed ↔
      ∃ hash', (a, hash') ∈ added ∧ partnerOf m added deleted hash' = some d :=
    mem_pairs m added deleted d a
  rw [hpair]
  constructor
  · rintro ⟨hash', ha', hpartner⟩
    -- an added path has one hash
    have hhash : hash' = hash :=
      congrArg Prod.snd (List.inj_on_of_nodup_map hadded ha' ha rfl)
    rw [hhash] at hpartner
    obtain ⟨⟨_, hrec⟩, hone⟩ := (partnerOf_eq_some_iff m added deleted hash d).mp hpartner
    exact ⟨hrec, hone⟩
  · rintro ⟨hrec, hone⟩
    exact ⟨hash, ha, (partnerOf_eq_some_iff m added deleted hash d).mpr ⟨⟨hd, hrec⟩, hone⟩⟩

end Pairing

section Ambiguous

def ambiguousManifest : Manifest :=
  let record (path : String) (hash : ContentHash) : FileRecord :=
    ⟨path, hash, none, 0, "", [], false⟩
  ((Manifest.empty.recordIndexed (record "a.py" "1") .zero).recordIndexed (record "b.py" "2")
    .zero).recordIndexed (record "c.py" "2") .zero

/-- The file that is alone in its content is renamed. Which of the others moved cannot be told. -/
theorem ambiguous_paired :
    let added : List (String × ContentHash) := [("x.py", "1"), ("y.py", "2")]
    let deleted := ["a.py", "b.py", "c.py"]
    (added.map (·.1)).Nodup ∧ deleted.Nodup ∧
      ("a.py", "x.py") ∈ (pairRenames ambiguousManifest added deleted).renamed ∧
      ("b.py", "y.py") ∉ (pairRenames ambiguousManifest added deleted).renamed := by
  intro added deleted
  have hadded : (added.map (·.1)).Nodup := by decide
  have hdeleted : deleted.Nodup := by decide
  obtain ⟨_, _, _, _, hiff⟩ := pairRenames_exact ambiguousManifest added deleted hadded hdeleted
  have hpaired := hiff "a.py" "x.py" "1" (by decide) (by decide)
  have hambiguous := hiff "b.py" "y.py" "2" (by decide) (by decide)
  exact ⟨hadded, hdeleted, hpaired.mpr (by decide +kernel), fun h =>
    absurd (hambiguous.mp h) (by decide +kernel)⟩

end Ambiguous

end CodeIndex
