import CodeIndex.Provider.Response
import Mathlib.Data.List.Perm.Subperm

/-!
Which responses yield vectors, and for which texts. Items come in any order and are put in order by
their positions. Only their number and the widths of their vectors are looked at: a response with a
position given twice, or out of range, passes as well, and then some text has no vector of its own.
-/

namespace CodeIndex

/-- A response has a vector of the right width for each text: the positions of its items are those
of the texts, each once. -/
structure CompleteResponse (items : List EmbeddingItem) (expected dimensions : Nat) : Prop where
  positions : (items.map (·.index)).Perm (List.range expected)
  widths : ∀ item ∈ items, item.embedding.length = dimensions

/-- There is a text whose position no item has. -/
def LeavesOut (items : List EmbeddingItem) (expected : Nat) : Prop :=
  ∃ i < expected, ∀ item ∈ items, item.index ≠ i

variable {items sorted : List EmbeddingItem} {expected dimensions : Nat}

/-- So many positions, none of them left out, are all positions and each is there once. -/
theorem positions_iff :
    (items.map (·.index)).Perm (List.range expected) ↔
      items.length = expected ∧ ¬ LeavesOut items expected := by
  have hlength : (items.map (·.index)).length = items.length := List.length_map _
  constructor
  · intro h
    refine ⟨by simpa using h.length_eq, ?_⟩
    rintro ⟨i, hi, hnone⟩
    obtain ⟨item, hitem, heq⟩ := List.mem_map.mp (h.mem_iff.mpr (List.mem_range.mpr hi))
    exact hnone item hitem heq
  · rintro ⟨hcount, hall⟩
    have hsubset : List.range expected ⊆ items.map (·.index) := by
      intro i hi
      by_contra hmissing
      refine hall ⟨i, List.mem_range.mp hi, fun item hitem heq => hmissing ?_⟩
      exact List.mem_map.mpr ⟨item, hitem, heq⟩
    have hless : (items.map (·.index)).length ≤ (List.range expected).length :=
      Nat.le_of_eq (by rw [hlength, hcount, List.length_range])
    exact ((List.subperm_of_subset List.nodup_range hsubset).perm_of_length_le hless).symm

theorem complete_iff :
    CompleteResponse items expected dimensions ↔
      (items.length = expected ∧ ∀ item ∈ items, item.embedding.length = dimensions) ∧
        ¬ LeavesOut items expected := by
  constructor
  · rintro ⟨hpositions, hwidths⟩
    obtain ⟨hcount, hall⟩ := positions_iff.mp hpositions
    exact ⟨⟨hcount, hwidths⟩, hall⟩
  · rintro ⟨⟨hcount, hwidths⟩, hall⟩
    exact ⟨positions_iff.mpr ⟨hcount, hall⟩, hwidths⟩

/-- In order of their positions, the items of a complete response stand where they belong, whichever
way they were sorted. -/
theorem CompleteResponse.getElem?_sorted (h : CompleteResponse items expected dimensions)
    (hperm : sorted.Perm items) (hsorted : sorted.Pairwise fun a b => a.index ≤ b.index)
    {item : EmbeddingItem} (hitem : item ∈ items) : sorted[item.index]? = some item := by
  have hindexes : sorted.map (·.index) = List.range expected :=
    ((hperm.map _).trans h.positions).eq_of_pairwise (fun _ _ _ _ => Nat.le_antisymm)
      (List.pairwise_map.mpr hsorted) List.pairwise_le_range
  obtain ⟨k, hk⟩ := List.mem_iff_getElem?.mp (hperm.mem_iff.mpr hitem)
  have hindex : (List.range expected)[k]? = some item.index := by
    rw [← hindexes, List.getElem?_map, hk]
    rfl
  have hkth : k = item.index := by
    rw [List.getElem?_eq_some_iff] at hindex
    obtain ⟨hlt, heq⟩ := hindex
    rwa [List.getElem_range] at heq
  rwa [hkth] at hk

theorem sorted_mergeSort (items : List EmbeddingItem) :
    (items.mergeSort fun a b => a.index ≤ b.index).Pairwise fun a b => a.index ≤ b.index := by
  have htrans (a b c : EmbeddingItem) : decide (a.index ≤ b.index) = true →
      decide (b.index ≤ c.index) = true → decide (a.index ≤ c.index) = true := by
    simp only [decide_eq_true_eq]
    exact Nat.le_trans
  have htotal (a b : EmbeddingItem) :
      (decide (a.index ≤ b.index) || decide (b.index ≤ a.index)) = true := by
    simpa using Nat.le_total a.index b.index
  simpa only [decide_eq_true_eq] using List.pairwise_mergeSort htrans htotal items

/-- A response is accepted exactly if it has as many items as there are texts, and all vectors have
the right width. -/
theorem collectVectors_ok_iff (vectors : List Embedding) :
    collectVectors items expected dimensions = .ok vectors ↔
      (items.length = expected ∧ ∀ item ∈ items, item.embedding.length = dimensions) ∧
        vectors = (items.mergeSort fun a b => a.index ≤ b.index).map (·.embedding) := by
  generalize hsorted : items.mergeSort (fun a b => a.index ≤ b.index) = sorted
  have hperm : sorted.Perm items := hsorted ▸ List.mergeSort_perm _ _
  unfold collectVectors
  dsimp only
  rw [hsorted]
  by_cases hcount : items.length = expected
  · rw [if_neg (not_not.mpr hcount)]
    cases hbad : sorted.find? fun item => item.embedding.length ≠ dimensions with
    | some item =>
      have hwrong := List.find?_some hbad
      have hmem := hperm.mem_iff.mp (List.mem_of_find?_eq_some hbad)
      have hwidth : item.embedding.length ≠ dimensions := by simpa using hwrong
      exact ⟨nofun, fun h => absurd (h.1.2 item hmem) hwidth⟩
    | none =>
      have hwidths : ∀ item ∈ items, item.embedding.length = dimensions := by
        intro item hitem
        simpa using List.find?_eq_none.mp hbad item (hperm.mem_iff.mpr hitem)
      rw [Except.ok.injEq]
      exact ⟨fun h => ⟨⟨hcount, hwidths⟩, h.symm⟩, fun h => h.2.symm⟩
  · rw [if_pos hcount]
    exact ⟨nofun, fun h => absurd h.1.1 hcount⟩

/-- A complete response yields the vector of each text at the position of the text. Beside complete
responses those are accepted, and only those, that have the right number of items and the right
widths but leave out a text. -/
theorem complete_accepted_iff (items : List EmbeddingItem) (expected dimensions : Nat) :
    (CompleteResponse items expected dimensions →
      ∃ vectors, collectVectors items expected dimensions = .ok vectors ∧
        vectors.length = expected ∧ ∀ item ∈ items, vectors[item.index]? = some item.embedding) ∧
    (((∃ vectors, collectVectors items expected dimensions = .ok vectors) ↔
        CompleteResponse items expected dimensions) ↔
      ¬ ((items.length = expected ∧ ∀ item ∈ items, item.embedding.length = dimensions) ∧
        LeavesOut items expected)) := by
  refine ⟨fun h => ?_, ?_⟩
  · have hcounted := (complete_iff.mp h).1
    refine ⟨_, (collectVectors_ok_iff _).mpr ⟨hcounted, rfl⟩, ?_, fun item hitem => ?_⟩
    · rw [List.length_map, List.length_mergeSort, hcounted.1]
    · rw [List.getElem?_map,
        h.getElem?_sorted (List.mergeSort_perm _ _) (sorted_mergeSort items) hitem]
      rfl
  · have haccepted : (∃ vectors, collectVectors items expected dimensions = .ok vectors) ↔
        items.length = expected ∧ ∀ item ∈ items, item.embedding.length = dimensions := by
      simp only [collectVectors_ok_iff, exists_and_left, exists_eq, and_true]
    rw [haccepted, complete_iff]
    tauto

def repeatedItems : List EmbeddingItem := [⟨1, [0x40A00000]⟩, ⟨1, [0x40E00000]⟩]

/-- The response is accepted, though the first text has no vector in it. -/
theorem repeated_accepted :
    (∃ vectors, collectVectors repeatedItems 2 1 = .ok vectors) ∧
      LeavesOut repeatedItems 2 ∧ ¬ CompleteResponse repeatedItems 2 1 := by
  have hmissing : LeavesOut repeatedItems 2 := ⟨0, by decide, by decide⟩
  refine ⟨⟨_, (collectVectors_ok_iff _).mpr ⟨by decide, rfl⟩⟩, hmissing, fun h => ?_⟩
  exact (complete_iff.mp h).2 hmissing

end CodeIndex
