import CodeIndex.Proofs.Store.Curated

/-!
Edits that are made again. Of some edits the first have been made, and then all are made from the
start. This comes to the same as making them once, as long as nothing is moved to where it would be
cleared or moved from.
-/

namespace CodeIndex

namespace StoreEdit

def onEntries (id : String) (edits : List StoreEdit) (x : Option StoredEntity) :
    Option StoredEntity :=
  edits.foldl (fun x edit => edit.onEntry id x) x

variable {id : String} {edits done left : List StoreEdit} {e : StoredEntity}
  {x : Option StoredEntity}

theorem clear_some (id path : String) (e : StoredEntity) : (clear path).onEntry id (some e) =
    if e.isDerivedFor path = true then none else some e := by
  show (some e).filter (!·.isDerivedFor path) = _
  rw [Option.filter_some]
  cases e.isDerivedFor path <;> rfl

theorem move_some (id source target : String) (e : StoredEntity) :
    (move source target).onEntry id (some e) = some (if e.isDerivedFor source = true then
      { e with entity := { e.entity with filePath := target } } else e) := rfl

theorem get?_edited (s : MemoryStore) (id : String) (edits : List StoreEdit) :
    (s.edited edits).get? id = onEntries id edits (s.get? id) := by
  induction edits generalizing s with
  | nil => rfl
  | cons edit rest ih =>
    calc (s.edited (edit :: rest)).get? id
      _ = ((edit.apply s).edited rest).get? id := rfl
      _ = onEntries id rest ((edit.apply s).get? id) := ih (edit.apply s)
      _ = onEntries id rest (edit.onEntry id (s.get? id)) := by rw [get?_apply]

theorem onEntries_append (id : String) (xs ys : List StoreEdit) (x : Option StoredEntity) :
    onEntries id (xs ++ ys) x = onEntries id ys (onEntries id xs x) := List.foldl_append

def Passes (id : String) (e : StoredEntity) (edit : StoreEdit) : Prop :=
  edit.onEntry id (some e) = some e

theorem onEntries_passes (h : ∀ edit ∈ edits, edit.Passes id e) :
    onEntries id edits (some e) = some e := by
  induction edits with
  | nil => rfl
  | cons edit rest ih =>
    have hfirst : edit.onEntry id (some e) = some e := h edit List.mem_cons_self
    have hrest : ∀ edit ∈ rest, edit.Passes id e := fun edit hedit =>
      h edit (List.mem_cons_of_mem _ hedit)
    calc onEntries id (edit :: rest) (some e)
      _ = onEntries id rest (edit.onEntry id (some e)) := rfl
      _ = onEntries id rest (some e) := by rw [hfirst]
      _ = some e := ih hrest

/-- All of some edits pass an entry, or there is a first one that does not. -/
theorem passes_or_first (id : String) (e : StoredEntity) (edits : List StoreEdit) :
    (∀ edit ∈ edits, edit.Passes id e) ∨ ∃ front edit back, edits = front ++ edit :: back ∧
      (∀ edit ∈ front, edit.Passes id e) ∧ ¬ edit.Passes id e := by
  induction edits with
  | nil => exact .inl fun edit hedit => absurd hedit List.not_mem_nil
  | cons edit rest ih =>
    by_cases hfirst : edit.Passes id e
    · rcases ih with hall | ⟨front, touch, back, rfl, hfront, htouch⟩
      · refine .inl fun other hother => ?_
        rcases List.mem_cons.mp hother with rfl | hother
        · exact hfirst
        · exact hall other hother
      · refine .inr ⟨edit :: front, touch, back, rfl, fun other hother => ?_, htouch⟩
        rcases List.mem_cons.mp hother with rfl | hother
        · exact hfirst
        · exact hfront other hother
    · exact .inr ⟨[], edit, rest, rfl, fun other hother => absurd hother List.not_mem_nil, hfirst⟩

def IsStructural : StoreEdit → Prop
  | .clear _ | .move _ _ => True
  | .write _ | .drop _ => False

/-- What is moved stays where it comes to: it is not cleared there, nor moved on. -/
def Settles (edits : List StoreEdit) : Prop :=
  (∀ edit ∈ edits, edit.IsStructural) ∧ ∀ source target, .move source target ∈ edits →
    .clear target ∉ edits ∧ ∀ next, .move target next ∉ edits

theorem onEntries_none (h : ∀ edit ∈ edits, edit.IsStructural) :
    onEntries id edits none = none := by
  induction edits with
  | nil => rfl
  | cons edit rest ih =>
    have hnone : edit.onEntry id none = none := by
      have hstructural := h edit List.mem_cons_self
      cases edit with
      | clear path => rfl
      | move source target => rfl
      | write entities => exact hstructural.elim
      | drop ids => exact hstructural.elim
    calc onEntries id (edit :: rest) none
      _ = onEntries id rest (edit.onEntry id none) := rfl
      _ = onEntries id rest none := by rw [hnone]
      _ = none := ih fun edit hedit => h edit (List.mem_cons_of_mem _ hedit)

/-- An entry that is not passed is gone for good, or it is where it stays. -/
theorem Settles.touched (h : Settles edits) {edit : StoreEdit} (hedit : edit ∈ edits)
    (htouch : ¬ edit.Passes id e) : edit.onEntry id (some e) = none ∨
      ∃ e', edit.onEntry id (some e) = some e' ∧ ∀ other ∈ edits, other.Passes id e' := by
  have hstructural := h.1 edit hedit
  cases edit with
  | write entities => exact hstructural.elim
  | drop ids => exact hstructural.elim
  | clear path =>
    left
    unfold Passes at htouch
    rw [clear_some] at htouch ⊢
    split
    · rfl
    · rename_i hother
      rw [if_neg hother] at htouch
      exact absurd rfl htouch
  | move source target =>
    right
    have hmine : e.isDerivedFor source = true := by
      by_contra hother
      unfold Passes at htouch
      rw [move_some, if_neg hother] at htouch
      exact htouch rfl
    let e' : StoredEntity := { e with entity := { e.entity with filePath := target } }
    have hmoved : (StoreEdit.move source target).onEntry id (some e) = some e' := by
      rw [move_some, if_pos hmine]
    -- the entry is about the target now, which no other edit starts from
    have hplace (path : String) (hpath : path ≠ target) : ¬ e'.isDerivedFor path = true := by
      intro hother
      exact hpath ((MemoryStore.isDerivedFor_iff e' path).mp hother).2.symm
    refine ⟨e', hmoved, fun other hother => ?_⟩
    unfold Passes
    cases other with
    | write entities => exact (h.1 _ hother).elim
    | drop ids => exact (h.1 _ hother).elim
    | clear path =>
      have hne : path ≠ target := by
        intro heq
        exact (h.2 source target hedit).1 (heq ▸ hother)
      rw [clear_some, if_neg (hplace path hne)]
    | move source' target' =>
      have hne : source' ≠ target := by
        intro heq
        exact (h.2 source target hedit).2 target' (heq ▸ hother)
      rw [move_some, if_neg (hplace source' hne)]

/-- Where the first edits have been made of some that settle, all of them are made as if none had
been. -/
theorem Settles.onEntries_again (h : Settles edits) (hcut : edits = done ++ left) :
    onEntries id edits (onEntries id done x) = onEntries id edits x := by
  have hdone : ∀ edit ∈ done, edit ∈ edits := by
    intro edit hedit
    rw [hcut]
    exact List.mem_append_left left hedit
  have hstructural : ∀ some : List StoreEdit, (∀ edit ∈ some, edit ∈ edits) →
      ∀ edit ∈ some, edit.IsStructural := fun _ hsub edit hedit => h.1 edit (hsub edit hedit)
  cases x with
  | none => rw [onEntries_none (hstructural done hdone)]
  | some e =>
    rcases passes_or_first id e done with hpasses | ⟨front, edit, back, rfl, hfront, htouch⟩
    · rw [onEntries_passes hpasses]
    · have hback : ∀ other ∈ back ++ left, other ∈ edits := by
        intro other hother
        rw [hcut, List.append_assoc]
        exact List.mem_append_right front (List.mem_cons_of_mem edit hother)
      have hbegun (rest : List StoreEdit) : onEntries id (front ++ edit :: rest) (some e) =
          onEntries id rest (edit.onEntry id (some e)) := by
        calc onEntries id (front ++ edit :: rest) (some e)
          _ = onEntries id (edit :: rest) (onEntries id front (some e)) := onEntries_append ..
          _ = onEntries id (edit :: rest) (some e) := by rw [onEntries_passes hfront]
      have hwhole : onEntries id edits (some e) =
          onEntries id (back ++ left) (edit.onEntry id (some e)) := by
        rw [hcut, List.append_assoc]
        exact hbegun (back ++ left)
      have hedit : edit ∈ edits := hdone edit (List.mem_append_right front List.mem_cons_self)
      rw [hwhole, hbegun]
      rcases h.touched hedit htouch with hgone | ⟨e', hmoved, hstays⟩
      · rw [hgone, onEntries_none (hstructural back fun other hother =>
          hback other (List.mem_append_left left hother)), onEntries_none h.1,
          onEntries_none (hstructural _ hback)]
      · rw [hmoved, onEntries_passes fun other hother =>
          hstays other (hback other (List.mem_append_left left hother)), onEntries_passes hstays,
          onEntries_passes fun other hother => hstays other (hback other hother)]

def IsContent : StoreEdit → Prop
  | .move _ _ => False
  | .clear _ | .write _ | .drop _ => True

def Fixes (id : String) : StoreEdit → Prop
  | .write entities => (written entities id).isSome = true
  | .drop ids => id ∈ ids
  | .clear _ | .move _ _ => False

def Loose (x : Option StoredEntity) : Prop := ∀ e, x = some e → e.origin = .derived

theorem written_loose (entities : List EmbeddedEntity) (id : String) :
    Loose (written entities id) := by
  intro e he
  obtain ⟨y, _, _, rfl⟩ := MemoryStore.written_some entities id e he
  rfl

theorem Loose.onEntry (h : Loose x) (edit : StoreEdit) : Loose (edit.onEntry id x) := by
  cases edit with
  | clear path => exact fun e he => h e (Option.filter_eq_some_iff.mp he).1
  | move source target =>
    intro e he
    obtain ⟨e', he', rfl⟩ := Option.map_eq_some_iff.mp he
    split
    · exact h e' he'
    · exact h e' he'
  | write entities =>
    intro e he
    unfold StoreEdit.onEntry at he
    dsimp only at he
    split at he
    · exact h e he
    · rcases Option.or_eq_some_iff.mp he with hnew | ⟨_, hold⟩
      · exact written_loose entities id e hnew
      · exact h e hold
  | drop ids =>
    intro e he
    unfold StoreEdit.onEntry at he
    dsimp only at he
    split at he
    · cases he
    · exact h e he

theorem Loose.onEntries (h : Loose x) (edits : List StoreEdit) : Loose (onEntries id edits x) := by
  induction edits generalizing x with
  | nil => exact h
  | cons edit rest ih => exact ih (h.onEntry edit)

theorem Loose.not_curated (h : Loose x) : x.any (·.origin == .curated) = false := by
  cases x with
  | none => rfl
  | some e =>
    have horigin := h e rfl
    rw [Option.any_some, horigin]
    rfl

/-- A curated entry stands through all edits. -/
theorem unloose_onEntries (h : ¬ Loose x) (edits : List StoreEdit) :
    onEntries id edits x = x := by
  cases x with
  | none => exact absurd (fun e he => by cases he) h
  | some e =>
    have hcurated : e.origin = .curated := by
      cases horigin : e.origin with
      | curated => rfl
      | derived =>
        refine absurd (fun e' he' => ?_) h
        cases he'
        exact horigin
    exact onEntries_passes fun edit _ => onEntry_curated edit id e hcurated

theorem Fixes.onEntry_eq {edit : StoreEdit} (hfixes : edit.Fixes id) {y : Option StoredEntity}
    (hx : Loose x) (hy : Loose y) : edit.onEntry id x = edit.onEntry id y := by
  cases edit with
  | clear path => exact hfixes.elim
  | move source target => exact hfixes.elim
  | write entities =>
    obtain ⟨e, he⟩ := Option.isSome_iff_exists.mp hfixes
    have hwritten (z : Option StoredEntity) (hz : Loose z) :
        (StoreEdit.write entities).onEntry id z = some e := by
      unfold StoreEdit.onEntry
      dsimp only
      rw [hz.not_curated, if_neg Bool.false_ne_true, he]
      rfl
    rw [hwritten x hx, hwritten y hy]
  | drop ids =>
    have hdropped (z : Option StoredEntity) (hz : Loose z) :
        (StoreEdit.drop ids).onEntry id z = none := by
      unfold StoreEdit.onEntry
      dsimp only
      cases z with
      | none => exact ite_self none
      | some e =>
        have horigin := hz e rfl
        have hlisted : ids.contains id = true := List.contains_iff_mem.mpr hfixes
        rw [hlisted, Option.any_some, horigin]
        rfl
    rw [hdropped x hx, hdropped y hy]

theorem unfixed_onEntry {edit : StoreEdit} (hcontent : edit.IsContent) (hloose : ¬ edit.Fixes id)
    (x : Option StoredEntity) : edit.onEntry id x = x ∨
      edit.onEntry id x = none ∧ ∃ path e, edit = .clear path ∧ x = some e ∧
        e.isDerivedFor path = true := by
  cases edit with
  | move source target => exact hcontent.elim
  | clear path =>
    cases x with
    | none => exact .inl rfl
    | some e =>
      rw [clear_some]
      by_cases hmine : e.isDerivedFor path = true
      · exact .inr ⟨if_pos hmine, path, e, rfl, rfl, hmine⟩
      · exact .inl (if_neg hmine)
  | write entities =>
    left
    have hnone : written entities id = none := Option.not_isSome_iff_eq_none.mp hloose
    unfold StoreEdit.onEntry
    dsimp only
    rw [hnone]
    exact ite_self x
  | drop ids =>
    left
    have hunlisted : ids.contains id = false := by
      rw [← Bool.not_eq_true, List.contains_iff_mem]
      exact hloose
    unfold StoreEdit.onEntry
    dsimp only
    rw [hunlisted]
    rfl

/-- Where no edit fixes an id, nothing comes to stand under it. -/
theorem unfixed_none (hcontent : ∀ edit ∈ edits, edit.IsContent)
    (hloose : ∀ edit ∈ edits, ¬ edit.Fixes id) : onEntries id edits none = none := by
  induction edits with
  | nil => rfl
  | cons edit rest ih =>
    have hnone : edit.onEntry id none = none := by
      rcases unfixed_onEntry (hcontent edit List.mem_cons_self) (hloose edit List.mem_cons_self)
        none with hsame | ⟨hgone, _⟩
      · exact hsame
      · exact hgone
    calc onEntries id (edit :: rest) none
      _ = onEntries id rest (edit.onEntry id none) := rfl
      _ = onEntries id rest none := by rw [hnone]
      _ = none := ih (fun edit hedit => hcontent edit (List.mem_cons_of_mem _ hedit))
        fun edit hedit => hloose edit (List.mem_cons_of_mem _ hedit)

/-- Where no edit fixes an id, what stands under it goes if its file is cleared, and stays else. -/
theorem unfixed_onEntries (hcontent : ∀ edit ∈ edits, edit.IsContent)
    (hloose : ∀ edit ∈ edits, ¬ edit.Fixes id) (e : StoredEntity) :
    (∃ path, .clear path ∈ edits ∧ e.isDerivedFor path = true) ∧
      onEntries id edits (some e) = none ∨
    (∀ edit ∈ edits, edit.Passes id e) ∧ onEntries id edits (some e) = some e := by
  rcases passes_or_first id e edits with hpasses | ⟨front, edit, back, rfl, hfront, htouch⟩
  · exact .inr ⟨hpasses, onEntries_passes hpasses⟩
  · left
    have hedit : edit ∈ front ++ edit :: back := List.mem_append_right front List.mem_cons_self
    have hback : ∀ other ∈ back, other ∈ front ++ edit :: back := fun other hother =>
      List.mem_append_right front (List.mem_cons_of_mem edit hother)
    rcases unfixed_onEntry (hcontent edit hedit) (hloose edit hedit) (some e) with
      hsame | ⟨hgone, path, e', rfl, he, hmine⟩
    · exact absurd hsame htouch
    · cases he
      refine ⟨⟨path, hedit, hmine⟩, ?_⟩
      calc onEntries id (front ++ .clear path :: back) (some e)
        _ = onEntries id (.clear path :: back) (onEntries id front (some e)) :=
          onEntries_append ..
        _ = onEntries id back ((clear path).onEntry id (some e)) := by
          rw [onEntries_passes hfront]; rfl
        _ = onEntries id back none := by rw [hgone]
        _ = none := unfixed_none (fun other hother => hcontent other (hback other hother))
          fun other hother => hloose other (hback other hother)

/-- Some of the edits have been made, and then all are made. What stands under an id is what they
fix, or it stays or is cleared as it would be at once. -/
theorem content_again (hcontent : ∀ edit ∈ edits, edit.IsContent)
    (hdone : ∀ edit ∈ done, edit ∈ edits) :
    onEntries id edits (onEntries id done x) = onEntries id edits x := by
  by_cases hloose : Loose x
  · by_cases hfixed : ∃ edit ∈ edits, edit.Fixes id
    · obtain ⟨edit, hedit, hfixes⟩ := hfixed
      obtain ⟨front, back, rfl⟩ := List.append_of_mem hedit
      have hlast (z : Option StoredEntity) : onEntries id (front ++ edit :: back) z =
          onEntries id back (edit.onEntry id (onEntries id front z)) := onEntries_append ..
      rw [hlast, hlast, hfixes.onEntry_eq ((hloose.onEntries done).onEntries front)
        (hloose.onEntries front)]
    · have hunfixed : ∀ edit ∈ edits, ¬ edit.Fixes id := fun edit hedit hfixes =>
        hfixed ⟨edit, hedit, hfixes⟩
      have hsome : ∀ edit ∈ done, ¬ edit.Fixes id := fun edit hedit =>
        hunfixed edit (hdone edit hedit)
      have hplain : ∀ edit ∈ done, edit.IsContent := fun edit hedit =>
        hcontent edit (hdone edit hedit)
      cases x with
      | none => rw [unfixed_none hplain hsome]
      | some e =>
        rcases unfixed_onEntries hplain hsome e with ⟨⟨path, hclear, hmine⟩, hgone⟩ | ⟨_, hkept⟩
        · -- what has been cleared would be cleared by the same edit
          rcases unfixed_onEntries hcontent hunfixed e with ⟨_, hgone'⟩ | ⟨hpasses, _⟩
          · rw [hgone, hgone', unfixed_none hcontent hunfixed]
          · have hkept := hpasses _ (hdone _ hclear)
            unfold Passes at hkept
            rw [clear_some, if_pos hmine] at hkept
            cases hkept
        · rw [hkept]
  · rw [unloose_onEntries hloose]

end StoreEdit

namespace MemoryStore

variable {edits done left : List StoreEdit}

theorem edited_settling (s : MemoryStore) (h : StoreEdit.Settles edits)
    (hcut : edits = done ++ left) : (s.edited done).edited edits = s.edited edits := by
  apply ext_get?
  intro id
  rw [StoreEdit.get?_edited, StoreEdit.get?_edited, StoreEdit.get?_edited, h.onEntries_again hcut]

theorem edited_contents (s : MemoryStore) (h : ∀ edit ∈ edits, edit.IsContent)
    (hdone : ∀ edit ∈ done, edit ∈ edits) : (s.edited done).edited edits = s.edited edits := by
  apply ext_get?
  intro id
  rw [StoreEdit.get?_edited, StoreEdit.get?_edited, StoreEdit.get?_edited,
    StoreEdit.content_again h hdone]

end MemoryStore

end CodeIndex
