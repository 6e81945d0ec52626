import CodeIndex.Change.ChangeSet

namespace CodeIndex

instance comparePairs_lawful : Std.LawfulEqCmp comparePairs where
  eq_of_compare := by
    intro a b h
    have hc : compareLex (compareOn (·.1)) (compareOn (·.2)) a b = .eq := h
    rw [compareLex_eq_eq] at hc
    have hfst : a.1 = b.1 := Std.LawfulEqCmp.eq_of_compare hc.1
    have hsnd : a.2 = b.2 := Std.LawfulEqCmp.eq_of_compare hc.2
    exact Prod.ext hfst hsnd
  compare_self := by
    intro a
    exact Std.ReflCmp.compare_self

@[simp] theorem mem_sortedPaths (paths : List String) (p : String) :
    p ∈ sortedPaths paths ↔ p ∈ paths := by
  rw [sortedPaths, Std.ExtTreeSet.mem_toList, Std.ExtTreeSet.mem_ofList]
  exact List.contains_iff_mem

@[simp] theorem mem_sortedPairs (pairs : List (String × String)) (e : String × String) :
    e ∈ sortedPairs pairs ↔ e ∈ pairs := by
  rw [sortedPairs, Std.ExtTreeSet.mem_toList, Std.ExtTreeSet.mem_ofList]
  exact List.contains_iff_mem

theorem nodup_toList (names : Std.ExtTreeSet String) : names.toList.Nodup := by
  apply List.Pairwise.imp _ names.distinct_toList
  intro a b hab heq
  exact hab (heq ▸ Std.ReflCmp.compare_self)

theorem sortedPaths_congr {xs ys : List String} (h : ∀ p, p ∈ xs ↔ p ∈ ys) :
    sortedPaths xs = sortedPaths ys := by
  unfold sortedPaths
  congr 1
  apply Std.ExtTreeSet.ext_mem
  intro p
  rw [Std.ExtTreeSet.mem_ofList, Std.ExtTreeSet.mem_ofList, List.contains_iff_mem,
    List.contains_iff_mem, h]

theorem sortedPaths_nodup (xs : List String) : (sortedPaths xs).Nodup := nodup_toList _

theorem sortedPaths_single (paths : List String) (path : String) (h : ∀ p, p ∈ paths ↔ p = path) :
    sortedPaths paths = [path] := by
  have hmem (p : String) : p ∈ sortedPaths paths ↔ p ∈ [path] := by
    rw [mem_sortedPaths, h, List.mem_singleton]
  have hperm : (sortedPaths paths).Perm [path] :=
    (List.perm_ext_iff_of_nodup (sortedPaths_nodup _) (List.pairwise_singleton _ _)).mpr hmem
  exact List.perm_singleton.mp hperm

/-- Paths that are in order already are sorted by any list of them. -/
theorem sortedPaths_of_sublist {xs ys zs : List String} (hsub : ys.Sublist (sortedPaths xs))
    (h : ∀ p, p ∈ zs ↔ p ∈ ys) : sortedPaths zs = ys := by
  have hordered (l : List String) : (sortedPaths l).Pairwise fun a b => compare a b = .lt :=
    Std.ExtTreeSet.ordered_toList
  have hperm : (sortedPaths zs).Perm ys :=
    (List.perm_ext_iff_of_nodup (sortedPaths_nodup zs) ((sortedPaths_nodup xs).sublist hsub)).mpr
      fun p => (mem_sortedPaths zs p).trans (h p)
  apply hperm.eq_of_pairwise _ (hordered zs) ((hordered xs).sublist hsub)
  intro a b _ _ hab hba
  exact absurd hba (Std.OrientedCmp.not_lt_of_lt hab)

@[simp] theorem sortedPaths_nil : sortedPaths [] = [] := rfl

namespace ChangeSet

theorem mem_mentioned (c : ChangeSet) (p : String) :
    p ∈ c.mentioned ↔ p ∈ c.added ∨ p ∈ c.modified ∨ p ∈ c.deleted ∨
      ∃ e ∈ c.renamed, p = e.1 ∨ p = e.2 := by
  simp [mentioned]

/-- The added and renamed paths stay as they are when paths are rechecked. -/
theorem withRechecks_parts (c : ChangeSet) (paths : List String) :
    (∀ p, p ∈ (c.withRechecks paths).added ↔ p ∈ c.added) ∧
    (∀ p, p ∈ (c.withRechecks paths).modified ↔
      p ∈ c.modified ∨ (p ∈ paths ∧ p ∉ c.mentioned)) ∧
    (∀ p, p ∈ (c.withRechecks paths).deleted ↔ p ∈ c.deleted) ∧
    (∀ e, e ∈ (c.withRechecks paths).renamed ↔ e ∈ c.renamed) := by
  have hextra (p : String) : p ∈ (paths.filter fun p => !c.mentioned.contains p) ↔
      p ∈ paths ∧ p ∉ c.mentioned := by
    simp
  unfold withRechecks
  split
  · rename_i hnone
    refine ⟨fun _ => Iff.rfl, ?_, fun _ => Iff.rfl, fun _ => Iff.rfl⟩
    intro p
    have hp := hextra p
    rw [hnone] at hp
    constructor
    · exact Or.inl
    · rintro (h | h)
      · exact h
      · exact absurd (hp.mpr h) (List.not_mem_nil)
  · rename_i extra hsome
    simp only [ofLists, mem_sortedPaths, mem_sortedPairs, List.mem_append, hextra, implies_true,
      and_true]

theorem isEmpty_iff (c : ChangeSet) :
    c.isEmpty = true ↔ c.added = [] ∧ c.modified = [] ∧ c.deleted = [] ∧ c.renamed = [] := by
  simp only [isEmpty, size, beq_iff_eq]
  rw [← List.length_eq_zero_iff, ← List.length_eq_zero_iff, ← List.length_eq_zero_iff,
    ← List.length_eq_zero_iff]
  omega

end ChangeSet

end CodeIndex
