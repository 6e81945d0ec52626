import CodeIndex.Json.Decode
import CodeIndex.Proofs.Json.RoundTrip

namespace CodeIndex.Json

variable {α β : Type}

theorem mapM_read (f : α → Option β) (g : α → β) (xs : List α) (h : ∀ a ∈ xs, f a = some (g a)) :
    xs.mapM f = some (xs.map g) := by
  induction xs with
  | nil => rfl
  | cons a xs ih =>
    rw [List.mapM_cons, h a List.mem_cons_self,
      ih fun b hb => h b (List.mem_cons_of_mem a hb)]
    rfl

theorem mapM_items (f : α → Option β) (xs : List α) (ys : List β) (h : xs.mapM f = some ys) :
    ∀ b ∈ ys, ∃ a ∈ xs, f a = some b := by
  induction xs generalizing ys with
  | nil =>
    cases h
    exact fun b hb => absurd hb List.not_mem_nil
  | cons a xs ih =>
    rw [List.mapM_cons] at h
    simp only [bind, Option.bind_eq_some_iff] at h
    obtain ⟨b, hb, bs, hbs, h⟩ := h
    cases h
    intro c hc
    rcases List.mem_cons.mp hc with rfl | hc
    · exact ⟨a, List.mem_cons_self, hb⟩
    · obtain ⟨x, hx, hread⟩ := ih bs hbs c hc
      exact ⟨x, List.mem_cons_of_mem a hx, hread⟩

theorem membersNamed_other (name : String) (ms : List (String × Json))
    (h : name ∉ ms.map (·.1)) :
    membersNamed name (ms.map fun (name, value) => (some name, value)) = [] := by
  unfold membersNamed
  rw [List.map_eq_nil_iff, List.filter_eq_nil_iff]
  intro m hm
  obtain ⟨⟨other, value⟩, hmem, rfl⟩ := List.mem_map.mp hm
  simp only [beq_iff_eq, Option.some.injEq]
  rintro rfl
  exact h (List.mem_map_of_mem hmem)

theorem memberSlot_record (ms : List (String × Json)) (h : (ms.map (·.1)).Nodup)
    (m : String × Json) (hm : m ∈ ms) :
    memberSlot (ms.map fun (name, value) => (some name, value)) m.1 = some (.given m.2) := by
  have hone : membersNamed m.1 (ms.map fun (name, value) => (some name, value)) = [m.2] := by
    induction ms with
    | nil => exact absurd hm List.not_mem_nil
    | cons n ms ih =>
      rw [List.map_cons, List.nodup_cons] at h
      obtain ⟨name, value⟩ := n
      rcases List.mem_cons.mp hm with rfl | hrest
      · -- the names after it are others
        have hrest := membersNamed_other name ms h.1
        unfold membersNamed at hrest ⊢
        rw [List.map_cons, List.filter_cons_of_pos (by simp), List.map_cons, hrest]
      · have hne : name ≠ m.1 := by
          rintro rfl
          exact h.1 (List.mem_map.mpr ⟨m, hrest, rfl⟩)
        have hread := ih h.2 hrest
        unfold membersNamed at hread ⊢
        rw [List.map_cons, List.filter_cons_of_neg (by simpa using hne), hread]
  unfold memberSlot
  rw [hone]

theorem slots_record (closed : Bool) (ms : List (String × Json)) (h : (ms.map (·.1)).Nodup) :
    slots (ms.map (·.1)) closed (record ms) = some (ms.map fun m => .given m.2) := by
  have hread : (ms.map (·.1)).mapM (memberSlot (ms.map fun (name, value) => (some name, value))) =
      some (ms.map fun m => .given m.2) := by
    rw [List.mapM_map]
    exact mapM_read _ _ ms fun m hm => memberSlot_record ms h m hm
  have hnames : (ms.map fun (name, value) => (some name, value)).all (fun m => m.1.isSome) := by
    simp
  have hclosed : (ms.map fun (name, value) => (some name, value)).all
      (fun m => (ms.map (·.1)).any fun name => m.1 == some name) := by
    rw [List.all_eq_true]
    intro m hm
    obtain ⟨⟨name, value⟩, hmem, rfl⟩ := List.mem_map.mp hm
    rw [List.any_eq_true]
    exact ⟨name, List.mem_map_of_mem hmem, by simp⟩
  rw [record, slots, if_pos (by rw [hnames, hclosed]; cases closed <;> rfl), hread]

theorem list_texts (xs : List String) : list? text? (.array (xs.map .text)) = some xs := by
  show (xs.map Json.text).mapM text? = some xs
  rw [List.mapM_map]
  exact (mapM_read _ id xs fun _ _ => rfl).trans (by rw [List.map_id])

theorem entries_record (read : Json → Option α) (write : α → Json) (xs : List (String × α))
    (h : ∀ x ∈ xs, read (write x.2) = some x.2) :
    entries? read (.record (xs.map fun x => (x.1, write x.2))) = some xs := by
  unfold record entries?
  dsimp only
  rw [List.map_map, List.mapM_map]
  refine (mapM_read _ id xs ?_).trans (by rw [List.map_id])
  intro x hx
  simp only [Function.comp, h x hx]
  rfl

theorem natBelow_nat (bound n : Nat) (h : n < bound) : natBelow? bound (.nat n) = some n :=
  if_pos h

/-- A value that may be missing is read back, unless it is written as `null`. -/
theorem nullable_optional (read : Json → Option α) (write : α → Json) (x : Option α)
    (hread : ∀ a, x = some a → read (write a) = some a) (hnull : ∀ a, write a ≠ .null) :
    (Slot.given (.optional write x)).nullable read = some x := by
  cases x with
  | none => rfl
  | some a =>
    have ha := hread a rfl
    have hne := hnull a
    unfold optional Slot.nullable
    split
    · rename_i heq
      cases heq
    · rename_i heq
      cases heq
    · rename_i heq
      injection heq with heq
      exact absurd heq hne
    · rename_i heq
      injection heq with heq
      rw [← heq, ha]
      rfl

theorem natBelow_lt (bound n : Nat) (v : Json) (h : natBelow? bound v = some n) : n < bound := by
  unfold natBelow? at h
  split at h
  · split at h
    · rename_i hlt
      injection h with h
      rwa [← h]
    · cases h
  · cases h

theorem required_given (read : Json → Option α) (s : Slot) (a : α)
    (h : s.required read = some a) : ∃ v, read v = some a := by
  unfold Slot.required at h
  split at h
  · exact ⟨_, h⟩
  · cases h

theorem nullable_given (read : Json → Option α) (s : Slot) (a : α)
    (h : s.nullable read = some (some a)) : ∃ v, read v = some a := by
  unfold Slot.nullable at h
  split at h
  · cases h
  · cases h
  · cases h
  · obtain ⟨b, hb, heq⟩ := Option.map_eq_some_iff.mp h
    injection heq with heq
    exact ⟨_, heq ▸ hb⟩

theorem entries_given (read : Json → Option α) (v : Json) (xs : List (String × α))
    (h : entries? read v = some xs) : ∀ x ∈ xs, ∃ v, read v = some x.2 := by
  unfold entries? at h
  split at h
  · intro x hx
    obtain ⟨m, _, hm⟩ := mapM_items _ _ _ h x hx
    split at hm
    · rename_i hread
      injection hm with hm
      subst hm
      exact ⟨_, hread⟩
    · cases hm
  · cases h

theorem plainItems_iff (items : List Json) : PlainItems items ↔ ∀ v ∈ items, Plain v := by
  induction items with
  | nil => simp [PlainItems]
  | cons v items ih => simp [PlainItems, ih]

theorem plainMembers_iff (ms : List (String × Json)) :
    Plain (record ms) ↔ ∀ m ∈ ms, Plain m.2 := by
  have hmembers : PlainMembers (ms.map fun (name, value) => (some name, value)) ↔
      ∀ m ∈ ms, Plain m.2 := by
    induction ms with
    | nil => simp [PlainMembers]
    | cons m ms ih => simp [PlainMembers, ih]
  unfold record
  rw [Plain]
  exact hmembers

theorem plain_texts (xs : List String) : Plain (.array (xs.map .text)) := by
  rw [Plain, plainItems_iff]
  intro v hv
  obtain ⟨s, _, rfl⟩ := List.mem_map.mp hv
  unfold text
  rw [Plain]
  rfl

theorem plain_text (s : String) : Plain (.text s) := by
  unfold text
  rw [Plain]
  rfl

theorem plain_nat (n : Nat) : Plain (.nat n) := by
  unfold nat
  rw [Plain]
  exact trivial

theorem plain_optional (write : α → Json) (h : ∀ a, Plain (write a)) (x : Option α) :
    Plain (.optional write x) := by
  cases x with
  | none =>
    unfold optional
    rw [Plain]
    exact trivial
  | some a => exact h a

end CodeIndex.Json
