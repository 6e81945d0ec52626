import CodeIndex.Proofs.Run.Agreement
import CodeIndex.Proofs.Run.Midway

/-!
What an update that was cut short leaves in the store, and what the next run makes of it. The next
run goes by the record of the file, which does not know of the update, so that what was written is
removed only if it is not minted again, and what was removed is missed only if it is.
-/

namespace CodeIndex

open StateDir

/-! ### What a store holds for one path -/

def StoreEdit.Avoids (path : String) (own : String → Prop) : StoreEdit → Prop
  | .clear p => p ≠ path
  | .move source target => source ≠ path ∧ target ≠ path
  | .write entities => ∀ e ∈ entities, e.entity.filePath ≠ path ∧ ¬ own e.entity.id
  | .drop ids => ∀ id ∈ ids, ¬ own id

namespace MemoryStore

variable {s : MemoryStore} {path id : String} {own : String → Prop} {edits : List StoreEdit}

/-- Entries that are written for other paths do not come to be held for a path. -/
theorem holds_write_elsewhere {entities : List EmbeddedEntity}
    (hpath : ∀ e ∈ entities, e.entity.filePath ≠ path)
    (h : ((StoreEdit.write entities).apply s).Holds path id) :
    s.Holds path id := by
  obtain ⟨e, hget, he⟩ := h
  rw [StoreEdit.get?_apply] at hget
  unfold StoreEdit.onEntry at hget
  dsimp only at hget
  split at hget
  · exact ⟨e, hget, he⟩
  · cases hwritten : StoreEdit.written entities id with
    | none =>
      rw [hwritten] at hget
      exact ⟨e, hget, he⟩
    | some x =>
      rw [hwritten] at hget
      cases hget
      obtain ⟨y, hy, _, rfl⟩ := written_some entities id _ hwritten
      exact absurd ((isDerivedFor_iff _ path).mp he).2 (hpath y hy)

theorem holds_avoiding {edit : StoreEdit} (hedit : edit.Avoids path own)
    (hown : ∀ id, s.Holds path id → own id) (id : String) :
    (edit.apply s).Holds path id ↔ s.Holds path id := by
  cases edit with
  | clear p =>
    rw [holds_clear]
    exact ⟨And.left, fun h => ⟨h, Ne.symm hedit⟩⟩
  | move source target =>
    rw [holds_move]
    refine ⟨?_, fun h => .inr ⟨Ne.symm hedit.1, h⟩⟩
    rintro (⟨heq, _⟩ | ⟨_, h⟩)
    · exact absurd heq.symm hedit.2
    · exact h
  | drop ids =>
    rw [holds_drop]
    exact ⟨And.left, fun h => ⟨h, fun hid => hedit id hid (hown id h)⟩⟩
  | write entities =>
    refine ⟨holds_write_elsewhere fun e he => (hedit e he).1, ?_⟩
    rintro ⟨e, hget, he⟩
    have hnone : StoreEdit.written entities id = none :=
      (written_none entities id).mpr fun x hx heq => (hedit x hx).2 (heq ▸ hown id ⟨e, hget, he⟩)
    refine ⟨e, ?_, he⟩
    rw [StoreEdit.get?_apply, hget]
    unfold StoreEdit.onEntry
    dsimp only
    rw [hnone]
    split <;> rfl

theorem edited_avoiding (hedits : ∀ edit ∈ edits, edit.Avoids path own)
    (hown : ∀ id, s.Holds path id → own id) (id : String) :
    (s.edited edits).Holds path id ↔ s.Holds path id := by
  induction edits generalizing s with
  | nil => exact Iff.rfl
  | cons edit rest ih =>
    have hfirst := holds_avoiding (hedits edit List.mem_cons_self) hown
    exact (ih (fun e he => hedits e (List.mem_cons_of_mem _ he))
      fun id h => hown id ((hfirst id).mp h)).trans (hfirst id)

/-- Where a path is cleared among edits that are not about it, it comes to hold nothing. -/
theorem edited_clearing (hedits : ∀ edit ∈ edits, edit.Avoids path own ∨ edit = .clear path)
    (hown : ∀ id, s.Holds path id → own id) :
    (∀ id, (s.edited edits).Holds path id ↔ s.Holds path id) ∧ .clear path ∉ edits ∨
      (∀ id, ¬ (s.edited edits).Holds path id) ∧ .clear path ∈ edits := by
  induction edits generalizing s with
  | nil => exact .inl ⟨fun _ => Iff.rfl, List.not_mem_nil⟩
  | cons edit rest ih =>
    have hrest : ∀ e ∈ rest, e.Avoids path own ∨ e = .clear path := fun e he =>
      hedits e (List.mem_cons_of_mem _ he)
    rcases hedits edit List.mem_cons_self with havoids | rfl
    · have hfirst := holds_avoiding havoids hown
      have hne : edit ≠ .clear path := by
        rintro rfl
        exact havoids rfl
      rcases ih hrest fun id h => hown id ((hfirst id).mp h) with ⟨hsame, hnot⟩ | ⟨hnone, hin⟩
      · refine .inl ⟨fun id => (hsame id).trans (hfirst id), fun hmem => ?_⟩
        rcases List.mem_cons.mp hmem with heq | hmem
        · exact hne heq.symm
        · exact hnot hmem
      · exact .inr ⟨hnone, List.mem_cons_of_mem _ hin⟩
    · have hgone (id : String) : ¬ ((StoreEdit.clear path).apply s).Holds path id := fun h =>
        ((holds_clear s path path id).mp h).2 rfl
      refine .inr ⟨fun id h => ?_, List.mem_cons_self⟩
      rcases ih hrest fun id h => absurd h (hgone id) with ⟨hsame, _⟩ | ⟨hnone, _⟩
      · exact hgone id ((hsame id).mp h)
      · exact hnone id h

end MemoryStore

/-! ### The update of one file -/

namespace PreparedFile

variable (file : PreparedFile) (vector : String → Embedding)

def opening : List StoreEdit := if file.hasRecord then [] else [.clear file.path]

def filling : List StoreEdit :=
  file.opening ++
    [.write (RunState.withVectors file.fresh (file.fresh.map fun e => vector e.text))]

def dropping : List StoreEdit :=
  if (VectorStore.staleIds file.previousIds file.currentIds).isEmpty then []
  else [.drop (VectorStore.staleIds file.previousIds file.currentIds)]

theorem edits_parts : file.edits vector = file.filling vector ++ file.dropping := by
  unfold edits World.updateEdits filling
  rw [List.append_assoc]
  rfl

/-- An update may be cut short before it begins, once the file is cleared, once the new entries are
written, or at its end. -/
theorem edits_cut {done left : List StoreEdit} (h : file.edits vector = done ++ left) :
    done = [] ∨ done = file.opening ∨ done = file.filling vector ∨ done = file.edits vector := by
  have hopening (hdone : done <+: file.opening) : done = [] ∨ done = file.opening := by
    unfold opening at hdone ⊢
    split at hdone
    · exact .inl (List.prefix_nil.mp hdone)
    · rename_i hnew
      rw [if_neg hnew]
      rcases List.prefix_cons_iff.mp hdone with hnil | ⟨rest, rfl, hrest⟩
      · exact .inl hnil
      · rw [List.prefix_nil.mp hrest]
        exact .inr rfl
  have hfilling (hdone : done <+: file.filling vector) :
      done = [] ∨ done = file.opening ∨ done = file.filling vector := by
    rcases List.prefix_concat_iff.mp hdone with heq | hopened
    · exact .inr (.inr heq)
    · exact (hopening hopened).imp_right .inl
  have hdone : done <+: file.filling vector ++ file.dropping :=
    ⟨left, by rw [← edits_parts, h]⟩
  have hfilled (hdone : done <+: file.filling vector) : done = [] ∨ done = file.opening ∨
      done = file.filling vector ∨ done = file.edits vector :=
    (hfilling hdone).imp_right fun h => h.imp_right .inl
  unfold dropping at hdone
  split at hdone
  · rw [List.append_nil] at hdone
    exact hfilled hdone
  · rename_i hstale
    rcases List.prefix_concat_iff.mp hdone with heq | hdone
    · refine .inr (.inr (.inr ?_))
      rw [edits_parts, heq]
      unfold dropping
      rw [if_neg hstale]
    · exact hfilled hdone

end PreparedFile

namespace MemoryStore

variable {s : MemoryStore} {file : PreparedFile} {vector : String → Embedding}
  (hpath : ∀ e ∈ file.fresh, e.filePath = file.path)
  (hfree : ∀ e ∈ file.fresh, s.isCurated e.id = false)

def Filled (s : MemoryStore) (file : PreparedFile) (id : String) : Prop :=
  (file.hasRecord = true ∧ s.Holds file.path id) ∨ ∃ e ∈ file.fresh, e.id = id

theorem holds_opening (s : MemoryStore) (file : PreparedFile) (id : String) :
    (s.edited file.opening).Holds file.path id ↔
      file.hasRecord = true ∧ s.Holds file.path id := by
  unfold PreparedFile.opening
  cases file.hasRecord with
  | true => exact ⟨fun h => ⟨rfl, h⟩, And.right⟩
  | false =>
    refine ⟨fun h => absurd rfl ((holds_clear s file.path file.path id).mp h).2, ?_⟩
    rintro ⟨hrecord, _⟩
    cases hrecord

include hpath hfree

theorem holds_filling (id : String) :
    (s.edited (file.filling vector)).Holds file.path id ↔ s.Filled file id := by
  let entities := RunState.withVectors file.fresh (file.fresh.map fun e => vector e.text)
  have hmine (e : EmbeddedEntity) (he : e ∈ entities) : e.entity ∈ file.fresh :=
    withVectors_entity _ _ e he
  have hids : (∃ e ∈ entities, e.entity.id = id) ↔ ∃ e ∈ file.fresh, e.id = id :=
    withVectors_mem _ _ (Nat.le_of_eq (List.length_map _).symm) id
  have hwritten := (s.edited file.opening).holds_write entities file.path file.path id
    (fun e he => hpath _ (hmine e he))
    fun e he => by rw [isCurated_edited]; exact hfree _ (hmine e he)
  unfold PreparedFile.filling
  rw [edited_append]
  refine hwritten.trans ?_
  rw [holds_opening]
  unfold Filled
  constructor
  · rintro (⟨_, h⟩ | ⟨_, h⟩)
    · exact .inr (hids.mp h)
    · exact .inl h
  · rintro (h | h)
    · by_cases hnew : ∃ e ∈ entities, e.entity.id = id
      · exact .inl ⟨rfl, hnew⟩
      · exact .inr ⟨fun e he heq => hnew ⟨e, he, heq⟩, h⟩
    · exact .inl ⟨rfl, hids.mpr h⟩

theorem holds_updated (id : String) : (s.edited (file.edits vector)).Holds file.path id ↔
    s.Filled file id ∧ ¬ (id ∈ file.previousIds ∧ id ∉ file.currentIds) := by
  rw [file.edits_parts, edited_append]
  unfold PreparedFile.dropping
  rw [edited_drop, holds_drop, holds_filling hpath hfree, VectorStore.mem_staleIds]

variable (vector) in
/-- An update that is complete leaves a file with its ids exactly if whatever the file held was
recorded or is its own, and it held the ids that are not written anew. -/
theorem updated_iff (hids : ∀ e ∈ file.fresh, e.id ∈ file.currentIds) :
    (∀ id, (s.edited (file.edits vector)).Holds file.path id ↔ id ∈ file.currentIds) ↔
      (file.hasRecord = true → ∀ id, s.Holds file.path id →
        id ∈ file.previousIds ∨ id ∈ file.currentIds) ∧
      ∀ id ∈ file.currentIds, s.Filled file id := by
  simp only [holds_updated hpath hfree]
  constructor
  · intro h
    refine ⟨fun hrecord id hheld => ?_, fun id hid => ((h id).mpr hid).1⟩
    by_cases hold : id ∈ file.previousIds
    · exact .inl hold
    · exact .inr ((h id).mp ⟨.inl ⟨hrecord, hheld⟩, fun hstale => hold hstale.1⟩)
  · rintro ⟨hleft, hfilled⟩ id
    refine ⟨fun ⟨hid, hkept⟩ => ?_, fun hid => ⟨hfilled id hid, fun hstale => hstale.2 hid⟩⟩
    rcases hid with ⟨hrecord, hheld⟩ | ⟨e, he, rfl⟩
    · exact Decidable.byContradiction fun hout =>
        hkept ⟨(hleft hrecord id hheld).resolve_right hout, hout⟩
    · exact hids e he

/-- An update that is cut short leaves a file with the ids that were recorded, with its own, or with
both. -/
theorem cut_holds {m : Manifest} (hfile : file.Faithful m)
    (hheld : ∀ id, s.Holds file.path id ↔ id ∈ file.previousIds) {done left : List StoreEdit}
    (h : file.edits vector = done ++ left) :
    (∀ id, (s.edited done).Holds file.path id ↔ id ∈ file.previousIds) ∨
      (∀ id, (s.edited done).Holds file.path id ↔
        id ∈ file.previousIds ∨ id ∈ file.currentIds) ∨
      ∀ id, (s.edited done).Holds file.path id ↔ id ∈ file.currentIds := by
  -- a file without a record had no ids
  have hrecord (id : String) : file.hasRecord = true ∧ s.Holds file.path id ↔
      id ∈ file.previousIds := by
    rw [hheld]
    refine ⟨And.right, fun hid => ⟨?_, hid⟩⟩
    obtain ⟨r, hr, _⟩ := (hfile.previous id).mp hid
    rw [hfile.recorded, hr]
    rfl
  have hfilled (id : String) : s.Filled file id ↔
      id ∈ file.previousIds ∨ id ∈ file.currentIds := by
    unfold Filled
    rw [hrecord]
    constructor
    · rintro (hid | ⟨e, he, rfl⟩)
      · exact .inl hid
      · exact .inr (hfile.fresh e he)
    · rintro (hid | hid)
      · exact .inl hid
      · exact hfile.current id hid
  rcases file.edits_cut vector h with rfl | rfl | rfl | rfl
  · exact .inl hheld
  · exact .inl fun id => (holds_opening s file id).trans (hrecord id)
  · exact .inr (.inl fun id => (holds_filling hpath hfree id).trans (hfilled id))
  · refine .inr (.inr fun id => ?_)
    rw [holds_updated hpath hfree, hfilled]
    refine ⟨fun ⟨hid, hkept⟩ => Decidable.byContradiction fun hout =>
      hkept ⟨hid.resolve_right hout, hout⟩, fun hid => ⟨.inr hid, fun hstale => hstale.2 hid⟩⟩

end MemoryStore

/-! ### One path in the edits of a run -/

namespace RunSetting

open RunState

variable (setting : RunSetting MemoryStore) (plan : RunPlan) (vector : String → Embedding)
  (changes : ChangeSet) (d : Disk) (m : Manifest)

/-- The edits that some changes come to: those of deletions and renames, then those that gather the
files that are left. -/
def editsOf : List StoreEdit :=
  (Shape.ofChanges plan (setting.hashOf d) changes m).edits ++
    gatherEdits vector (setting.preparations plan changes d m)

/-- A path has no part in a rename, and its ids are its own: no other file that is prepared had them
or is given them. -/
structure Secluded (p : String) (own : String → Prop) : Prop where
  renamed : ∀ e ∈ changes.renamed, e.1 ≠ p ∧ e.2 ≠ p
  ids : ∀ file, .ready file ∈ setting.preparations plan changes d m → file.path ≠ p → ∀ id, own id →
    id ∉ file.previousIds ∧ id ∉ file.currentIds

variable {setting plan vector changes d m} {p : String} {own : String → Prop} {c : Contents}

theorem Leaves.edits {store : MemoryStore} {m' : Manifest}
    (h : setting.Leaves plan vector changes d c store m') :
    ∃ made left, setting.editsOf plan vector changes d c.manifest = made ++ left ∧
      store = c.store.edited made := by
  unfold editsOf
  rcases h with ⟨made, left, hsplit, hstore, _⟩ |
    ⟨front, rest, made, left, hprepared, hedits, hstore, _⟩
  · exact ⟨made, left ++ gatherEdits vector _, by rw [hsplit, List.append_assoc], hstore⟩
  · refine ⟨(Shape.ofChanges plan (setting.hashOf d) changes c.manifest).edits ++
      (gatherEdits vector front ++ made), left, ?_, ?_⟩
    · rw [hprepared]
      unfold gatherEdits at hedits ⊢
      rw [List.filterMap_append, List.flatMap_append, hedits]
      simp only [List.append_assoc]
    · rw [hstore, Contents.gather_store, MemoryStore.edited_append, MemoryStore.edited_append]
      rfl

variable (c) in
theorem replay_store : (setting.replay plan vector changes d c).store =
    c.store.edited (setting.editsOf plan vector changes d c.manifest) := by
  unfold replay editsOf
  dsimp only
  rw [Contents.gather_store, MemoryStore.edited_append]
  rfl

/-- The edits for another file are not about a path and its own ids. -/
theorem edits_avoiding {file : PreparedFile} {n : Manifest} (hfile : file.Faithful n)
    (hpath : file.path ≠ p)
    (hids : ∀ id, own id → id ∉ file.previousIds ∧ id ∉ file.currentIds) :
    ∀ edit ∈ file.edits vector, edit.Avoids p own := by
  intro edit hedit
  rw [file.edits_parts] at hedit
  unfold PreparedFile.filling at hedit
  rcases List.mem_append.mp hedit with hedit | hedit
  · rcases List.mem_append.mp hedit with hedit | hedit
    · unfold PreparedFile.opening at hedit
      split at hedit
      · exact absurd hedit List.not_mem_nil
      · rw [List.mem_singleton.mp hedit]
        exact hpath
    · rw [List.mem_singleton.mp hedit]
      intro e he
      have hmine := withVectors_entity _ _ e he
      rw [hfile.path _ hmine]
      exact ⟨hpath, fun hown => (hids _ hown).2 (hfile.fresh _ hmine)⟩
  · unfold PreparedFile.dropping at hedit
    split at hedit
    · exact absurd hedit List.not_mem_nil
    · rw [List.mem_singleton.mp hedit]
      exact fun id hid hown => (hids id hown).1 ((VectorStore.mem_staleIds _ _ id).mp hid).1

/-- What is prepared at other paths comes to edits that are not about a path. -/
theorem gatherEdits_avoiding (h : setting.Secluded plan changes d m p own)
    {some : List Prepared} (hsome : ∀ next ∈ some,
      next ∈ setting.preparations plan changes d m ∧ next.path ≠ p) :
    ∀ edit ∈ gatherEdits vector some, edit.Avoids p own := by
  intro edit hedit
  obtain ⟨file, hfile, hedit⟩ := List.mem_flatMap.mp hedit
  obtain ⟨next, hnext, heq⟩ := List.mem_filterMap.mp hfile
  obtain ⟨hmem, hpath⟩ := hsome next hnext
  cases next with
  | unreadable path => cases heq
  | failed path e => cases heq
  | ready file' =>
    cases heq
    obtain ⟨q, n, _, hprepared⟩ := mem_preparations hmem
    obtain ⟨_, hfaithful⟩ := prepare_faithful setting plan.force d n q file hprepared.symm
    exact edits_avoiding hfaithful hpath (h.ids file hmem hpath) edit hedit

/-- The edits of deletions and renames are not about a path that has no part in them. -/
theorem shape_avoiding (h : setting.Secluded plan changes d m p own) {edit : StoreEdit}
    (hedit : edit ∈ (Shape.ofChanges plan (setting.hashOf d) changes m).edits) :
    edit.Avoids p own ∨ p ∈ changes.deleted ∧ edit = .clear p := by
  rcases Shape.mem_ofChanges_edits _ _ hedit with ⟨q, hq, rfl⟩ | ⟨e, he, hedit⟩
  · by_cases heq : q = p
    · exact .inr ⟨heq ▸ hq, by rw [heq]⟩
    · exact .inl heq
  · obtain ⟨hsource, htarget⟩ := h.renamed e he
    rcases hedit with rfl | rfl | rfl
    · exact .inl hsource
    · exact .inl htarget
    · exact .inl ⟨hsource, htarget⟩

/-- A path that has no part in a rename is prepared by its own record, and by no other. -/
theorem preparations_at (h : setting.Secluded plan changes d m p own)
    {look : String → FileState} (hwork : changes.Workable look) (hp : changes.Writes p) :
    ∃ front back, setting.preparations plan changes d m =
        front ++ prepare setting plan.force d (WorkItem.ofPath m p) :: back ∧
      (∀ next ∈ front, next.path ≠ p) ∧ ∀ next ∈ back, next.path ≠ p := by
  have hlisted : p ∈ sortedPaths (changes.added ++ changes.modified ++
      (Shape.ofChanges plan (setting.hashOf d) changes m).reindex) := by
    rw [mem_sortedPaths]
    rcases hp with hp | hp | ⟨e, he, heq⟩
    · exact List.mem_append_left _ (List.mem_append_left _ hp)
    · exact List.mem_append_left _ (List.mem_append_right _ hp)
    · exact absurd heq.symm (h.renamed e he).2
  obtain ⟨front, back, hsplit⟩ := List.append_of_mem hlisted
  have hnodup := sortedPaths_nodup (changes.added ++ changes.modified ++
    (Shape.ofChanges plan (setting.hashOf d) changes m).reindex)
  rw [hsplit, List.nodup_append, List.nodup_cons] at hnodup
  obtain ⟨_, ⟨hback, _⟩, hfront⟩ := hnodup
  have hrecord : (Shape.ofChanges plan (setting.hashOf d) changes m).manifest.get? p =
      m.get? p := by
    refine (Shape.ofChanges_within changes m).records p fun hmem => ?_
    rcases (Shape.mem_structuralPaths changes p).mp hmem with hmem | ⟨e, he, heq | heq⟩
    · exact hwork.apart p hp (.inl hmem)
    · exact (h.renamed e he).1 heq.symm
    · exact (h.renamed e he).2 heq.symm
  have hpath (q : String) (n : Manifest) :
      (prepare setting plan.force d (WorkItem.ofPath n q)).path = q :=
    (prepare_path setting plan.force d _).trans (WorkItem.ofPath_path n q)
  have hprepared := congrArg (List.map fun q => prepare setting plan.force d
    (WorkItem.ofPath (Shape.ofChanges plan (setting.hashOf d) changes m).manifest q)) hsplit
  rw [List.map_append, List.map_cons, WorkItem.ofPath_congr hrecord] at hprepared
  refine ⟨_, _, hprepared, fun next hnext => ?_, fun next hnext => ?_⟩
  · obtain ⟨q, hq, rfl⟩ := List.mem_map.mp hnext
    rw [hpath]
    exact hfront q hq p List.mem_cons_self
  · obtain ⟨q, hq, rfl⟩ := List.mem_map.mp hnext
    rw [hpath]
    rintro rfl
    exact hback hq

theorem clear_mem_edits (hp : p ∈ changes.deleted) :
    .clear p ∈ (Shape.ofChanges plan (setting.hashOf d) changes m).edits := by
  obtain ⟨done, rest, hsplit⟩ := List.append_of_mem hp
  obtain ⟨more, hmore⟩ := Shape.ofChanges_deleting plan (setting.hashOf d)
    (show changes.deleted = (done ++ [p]) ++ rest by rw [hsplit, List.append_assoc]; rfl) m
  rw [hmore, List.foldl_concat]
  exact List.mem_append_left _ (List.mem_append_right _ List.mem_cons_self)

variable (vector) in
/-- What the changes of a run come to for a path that has no part in a rename. Either a file is
updated there, or it is cleared if it is to be deleted. -/
theorem editsOf_at (h : setting.Secluded plan changes d m p own)
    {look : String → FileState} (hwork : changes.Workable look) :
    (∃ file front back, changes.Writes p ∧
      prepare setting plan.force d (WorkItem.ofPath m p) = .ready file ∧
      setting.editsOf plan vector changes d m = front ++ file.edits vector ++ back ∧
      (∀ edit ∈ front, edit.Avoids p own) ∧ ∀ edit ∈ back, edit.Avoids p own) ∨
    ((changes.Writes p → ∀ file,
        prepare setting plan.force d (WorkItem.ofPath m p) ≠ .ready file) ∧
      (∀ edit ∈ setting.editsOf plan vector changes d m,
        edit.Avoids p own ∨ edit = .clear p) ∧
      (.clear p ∈ setting.editsOf plan vector changes d m ↔ p ∈ changes.deleted)) := by
  have hgathered {some : List Prepared} (hpaths : ∀ next ∈ some,
      next ∈ setting.preparations plan changes d m ∧ next.path ≠ p) :
      ∀ edit ∈ gatherEdits vector some, edit.Avoids p own := gatherEdits_avoiding h hpaths
  by_cases hready : ∃ file, changes.Writes p ∧
      prepare setting plan.force d (WorkItem.ofPath m p) = .ready file
  · obtain ⟨file, hp, hfile⟩ := hready
    obtain ⟨front, back, hsplit, hfront, hback⟩ := preparations_at h hwork hp
    refine .inl ⟨file, (Shape.ofChanges plan (setting.hashOf d) changes m).edits ++
      gatherEdits vector front, gatherEdits vector back, hp, hfile, ?_, fun edit hedit => ?_, ?_⟩
    · unfold editsOf
      rw [hsplit, hfile]
      unfold gatherEdits
      rw [List.filterMap_append, List.flatMap_append]
      simp only [List.append_assoc]
      rfl
    · rcases List.mem_append.mp hedit with hedit | hedit
      · exact (shape_avoiding h hedit).resolve_right fun hdeleted =>
          hwork.apart p hp (.inl hdeleted.1)
      · refine hgathered (fun next hnext => ⟨?_, hfront next hnext⟩) edit hedit
        rw [hsplit]
        exact List.mem_append_left _ hnext
    · refine hgathered fun next hnext => ⟨?_, hback next hnext⟩
      rw [hsplit]
      exact List.mem_append_right _ (List.mem_cons_of_mem _ hnext)
  · -- nothing is written there
    have hrest : ∀ edit ∈ gatherEdits vector (setting.preparations plan changes d m),
        edit.Avoids p own := by
      by_cases hp : changes.Writes p
      · obtain ⟨front, back, hsplit, hfront, hback⟩ := preparations_at h hwork hp
        have hnone : (prepare setting plan.force d (WorkItem.ofPath m p)).file? = none := by
          cases hprepared : prepare setting plan.force d (WorkItem.ofPath m p) with
          | ready file => exact absurd ⟨file, hp, hprepared⟩ hready
          | unreadable path => rfl
          | failed path e => rfl
        have hleft : gatherEdits vector (setting.preparations plan changes d m) =
            gatherEdits vector (front ++ back) := by
          rw [hsplit]
          unfold gatherEdits
          rw [List.filterMap_append, List.filterMap_append, List.filterMap_cons_none hnone]
        rw [hleft]
        refine hgathered fun next hnext => ?_
        rcases List.mem_append.mp hnext with hnext | hnext
        · refine ⟨?_, hfront next hnext⟩
          rw [hsplit]
          exact List.mem_append_left _ hnext
        · refine ⟨?_, hback next hnext⟩
          rw [hsplit]
          exact List.mem_append_right _ (List.mem_cons_of_mem _ hnext)
      · refine hgathered fun next hnext => ⟨hnext, ?_⟩
        obtain ⟨q, n, hwrites, rfl⟩ := mem_preparations hnext
        rw [prepare_path, WorkItem.ofPath_path]
        rintro rfl
        exact hp hwrites
    refine .inr ⟨fun hp file hfile => hready ⟨file, hp, hfile⟩, fun edit hedit => ?_,
      fun hclear => ?_, fun hp => List.mem_append_left _ (clear_mem_edits hp)⟩
    · rcases List.mem_append.mp hedit with hedit | hedit
      · exact (shape_avoiding h hedit).imp_right And.right
      · exact .inl (hrest edit hedit)
    · rcases List.mem_append.mp hclear with hclear | hclear
      · exact (shape_avoiding h hclear).elim (fun havoids => absurd rfl havoids) And.left
      · exact absurd rfl (hrest _ hclear)

/-! ### What is left and what is made of it -/

/-- Ids are the old ones, the new ones, or both. -/
def Between (old new left : String → Prop) : Prop :=
  (∀ id, left id ↔ old id) ∨ (∀ id, left id ↔ old id ∨ new id) ∨ ∀ id, left id ↔ new id

variable (setting) in
/-- The ids that are minted from the file at a path, if one is seen there. -/
def FoundAt (look : String → FileState) (d : Disk) (m : Manifest) (p id : String) : Prop :=
  (look p).isPresent = true ∧
    ∃ force file, prepare setting force d (WorkItem.ofPath m p) = .ready file ∧ id ∈ file.currentIds

/-- What is minted from a file is the same whether all its entities are to be embedded or not. -/
theorem foundAt_iff {look : String → FileState} (hlook : (look p).isPresent = true) {force : Bool}
    {file : PreparedFile} (hfile : prepare setting force d (WorkItem.ofPath m p) = .ready file)
    (id : String) : setting.FoundAt look d m p id ↔ id ∈ file.currentIds := by
  refine ⟨?_, fun hid => ⟨hlook, force, file, hfile, hid⟩⟩
  rintro ⟨_, force', file', hfile', hid⟩
  unfold prepare at hfile hfile'
  split at hfile
  · cases hfile
  · rename_i hread
    rw [hread] at hfile'
    obtain ⟨found, hfound, rfl⟩ := prepareContent_ready hfile
    obtain ⟨found', hfound', rfl⟩ := prepareContent_ready hfile'
    rw [hfound] at hfound'
    cases hfound'
    exact hid

/-- The new entries of a file are those of its ids that its record lacks, or all. -/
theorem prepare_fresh {force : Bool} {file : PreparedFile}
    (hfile : prepare setting force d (WorkItem.ofPath m p) = .ready file) (id : String) :
    (∃ e ∈ file.fresh, e.id = id) ↔
      id ∈ file.currentIds ∧ (force = false → id ∉ file.previousIds) := by
  unfold prepare at hfile
  split at hfile
  · cases hfile
  · obtain ⟨found, _, rfl⟩ := prepareContent_ready hfile
    dsimp only
    rw [mem_idSet]
    constructor
    · rintro ⟨e, he, rfl⟩
      obtain ⟨hmem, hnew⟩ := (mem_partitionNew _ _ _ e).mp he
      exact ⟨⟨e, hmem, rfl⟩, hnew⟩
    · rintro ⟨⟨e, hmem, rfl⟩, hnew⟩
      exact ⟨e, (mem_partitionNew _ _ _ e).mpr ⟨hmem, hnew⟩, rfl⟩

section Path

variable (h : setting.Secluded plan changes d m p own) {look : String → FileState}
  (hwork : changes.Workable look) {s : MemoryStore} (hheld : ∀ id, s.Holds p id → own id)
  (hnew : ∀ id, setting.FoundAt look d m p id → own id)
  (hfree : ∀ id, own id → s.isCurated id = false)

include h hwork hheld hnew hfree

/-- Some of the edits that a run makes leave a path with the ids that were recorded, with those of
its file, or with both. -/
theorem editsOf_cut
    (hrecorded : ∀ id, s.Holds p id ↔ ∃ r, m.get? p = some r ∧ id ∈ r.entityIds)
    {made left : List StoreEdit} (hcut : setting.editsOf plan vector changes d m = made ++ left) :
    Between (fun id => ∃ r, m.get? p = some r ∧ id ∈ r.entityIds)
      (fun id => p ∉ changes.deleted ∧ setting.FoundAt look d m p id)
      ((s.edited made).Holds p) := by
  rcases editsOf_at vector h hwork with
    ⟨file, front, back, hp, hfile, hsplit, hfront, hback⟩ | ⟨_, havoids, hclear⟩
  · have hlook : (look p).isPresent = true := (FileState.isPresent_iff _).mpr (hwork.present p hp)
    have hkept : p ∉ changes.deleted := fun hdeleted => hwork.apart p hp (.inl hdeleted)
    obtain ⟨rfl, hfaithful⟩ := prepare_faithful setting plan.force d m p file hfile
    have hfound (id : String) : file.path ∉ changes.deleted ∧
        setting.FoundAt look d m file.path id ↔ id ∈ file.currentIds :=
      (and_iff_right hkept).trans (foundAt_iff hlook hfile id)
    have hprevious (id : String) : s.Holds file.path id ↔ id ∈ file.previousIds :=
      (hrecorded id).trans (hfaithful.previous id).symm
    have hbefore (id : String) :=
      (MemoryStore.edited_avoiding hfront hheld id).trans (hprevious id)
    have hfresh : ∀ e ∈ file.fresh, (s.edited front).isCurated e.id = false := fun e he => by
      rw [MemoryStore.isCurated_edited]
      exact hfree _ (hnew _ ((foundAt_iff hlook hfile _).mpr (hfaithful.fresh e he)))
    -- some edits of the update are made, and then some for other paths
    have hupdated {done rest more : List StoreEdit} (hdone : file.edits vector = done ++ rest)
        (hmore : ∀ edit ∈ more, edit.Avoids file.path own) :
        Between (fun id => ∃ r, m.get? file.path = some r ∧ id ∈ r.entityIds)
          (fun id => file.path ∉ changes.deleted ∧ setting.FoundAt look d m file.path id)
          ((s.edited (front ++ (done ++ more))).Holds file.path) := by
      have hbetween := MemoryStore.cut_holds hfaithful.path hfresh hfaithful hbefore hdone
      have hmine (id : String) (hid : id ∈ file.previousIds ∨ id ∈ file.currentIds) : own id :=
        hid.elim (fun hid => hheld id ((hprevious id).mpr hid))
          fun hid => hnew id ((hfound id).mpr hid).2
      have hlast (hown : ∀ id, ((s.edited front).edited done).Holds file.path id → own id)
          (id : String) := MemoryStore.edited_avoiding hmore hown id
      rw [MemoryStore.edited_append, MemoryStore.edited_append]
      rcases hbetween with hids | hids | hids
      · refine .inl fun id => (hlast (fun id hid => hmine id (.inl ((hids id).mp hid))) id).trans ?_
        exact (hids id).trans (hfaithful.previous id)
      · refine .inr (.inl fun id => (hlast (fun id hid => hmine id ((hids id).mp hid)) id).trans ?_)
        exact (hids id).trans (or_congr (hfaithful.previous id) (hfound id).symm)
      · refine .inr (.inr fun id =>
          (hlast (fun id hid => hmine id (.inr ((hids id).mp hid))) id).trans ?_)
        exact (hids id).trans (hfound id).symm
    rw [hsplit, List.append_assoc] at hcut
    rcases List.append_eq_append_iff.mp hcut with ⟨done, rfl, hrest⟩ | ⟨rest, rfl, _⟩
    · rcases List.append_eq_append_iff.mp hrest with ⟨more, rfl, hmore⟩ | ⟨rest, hedits, _⟩
      · refine hupdated (List.append_nil _).symm fun edit hedit => hback edit ?_
        rw [hmore]
        exact List.mem_append_left _ hedit
      · have hcutshort := hupdated hedits fun edit hedit => absurd hedit List.not_mem_nil
        rw [List.append_nil] at hcutshort
        exact hcutshort
    · refine .inl fun id => (MemoryStore.edited_avoiding (fun edit hedit => hfront edit ?_) hheld
        id).trans (hrecorded id)
      exact List.mem_append_left _ hedit
  · have hmade : ∀ edit ∈ made, edit ∈ setting.editsOf plan vector changes d m := by
      rw [hcut]
      exact fun edit hedit => List.mem_append_left _ hedit
    rcases MemoryStore.edited_clearing (fun edit hedit => havoids edit (hmade edit hedit)) hheld
      with ⟨hsame, _⟩ | ⟨hnone, hcleared⟩
    · exact .inl fun id => (hsame id).trans (hrecorded id)
    · exact .inr (.inr fun id => ⟨fun hid => absurd hid (hnone id),
        fun hid => absurd (hclear.mp (hmade _ hcleared)) hid.1⟩)

/-- What a run needs to bring a path to the ids of its file. If it is to write the file, then
whatever the store holds is recorded or found in the file, and it holds what is recorded and still
found there. Otherwise the store holds these ids to begin with, or the path is to be deleted and has
none. -/
def Mendable (setting : RunSetting MemoryStore) (look : String → FileState) (d : Disk)
    (m : Manifest) (force : Bool) (changes : ChangeSet) (p : String) (left : String → Prop) :
    Prop :=
  (changes.Writes p →
    ((m.get? p).isSome = true → ∀ id, left id →
      (∃ r, m.get? p = some r ∧ id ∈ r.entityIds) ∨ setting.FoundAt look d m p id) ∧
    (force = false → ∀ id, (∃ r, m.get? p = some r ∧ id ∈ r.entityIds) →
      setting.FoundAt look d m p id → left id)) ∧
  (¬ changes.Writes p → ∀ id, setting.FoundAt look d m p id ↔ p ∉ changes.deleted ∧ left id)

variable (vector) in
/-- The edits of a run bring a path to the ids of its file exactly if what is left can be mended. -/
theorem editsOf_mends (hready : changes.Writes p →
      ∃ file, prepare setting plan.force d (WorkItem.ofPath m p) = .ready file) :
    (∀ id, (s.edited (setting.editsOf plan vector changes d m)).Holds p id ↔
        setting.FoundAt look d m p id) ↔
      Mendable setting look d m plan.force changes p (s.Holds p) := by
  unfold Mendable
  rcases editsOf_at vector h hwork with
    ⟨file, front, back, hp, hfile, hsplit, hfront, hback⟩ | ⟨hunready, havoids, hclear⟩
  · have hlook : (look p).isPresent = true := (FileState.isPresent_iff _).mpr (hwork.present p hp)
    obtain ⟨rfl, hfaithful⟩ := prepare_faithful setting plan.force d m p file hfile
    have hfound := foundAt_iff hlook hfile
    have hfresh : ∀ e ∈ file.fresh, (s.edited front).isCurated e.id = false := fun e he => by
      rw [MemoryStore.isCurated_edited]
      exact hfree _ (hnew _ ((hfound _).mpr (hfaithful.fresh e he)))
    have hbefore := MemoryStore.edited_avoiding hfront hheld
    have hafter (id : String) : (s.edited (setting.editsOf plan vector changes d m)).Holds
        file.path id ↔ ((s.edited front).edited (file.edits vector)).Holds file.path id := by
      rw [hsplit, MemoryStore.edited_append, MemoryStore.edited_append]
      refine MemoryStore.edited_avoiding hback (fun id hid => ?_) id
      rcases ((MemoryStore.holds_updated hfaithful.path hfresh id).mp hid).1 with
        ⟨_, hid⟩ | ⟨e, he, rfl⟩
      · exact hheld id ((hbefore id).mp hid)
      · exact hnew _ ((hfound _).mpr (hfaithful.fresh e he))
    have hfilled (id : String) (hid : id ∈ file.currentIds) : (s.edited front).Filled file id ↔
        (plan.force = false → id ∈ file.previousIds → s.Holds file.path id) := by
      unfold MemoryStore.Filled
      rw [prepare_fresh hfile, hbefore]
      constructor
      · rintro (⟨_, hid⟩ | ⟨_, hfresh⟩) hlazy hold
        · exact hid
        · exact absurd hold (hfresh hlazy)
      · intro hkept
        by_cases hold : plan.force = false ∧ id ∈ file.previousIds
        · obtain ⟨r, hr, _⟩ := (hfaithful.previous id).mp hold.2
          exact .inl ⟨by rw [hfaithful.recorded, hr]; rfl, hkept hold.1 hold.2⟩
        · exact .inr ⟨hid, fun hlazy hprevious => hold ⟨hlazy, hprevious⟩⟩
    have hupdated := MemoryStore.updated_iff vector hfaithful.path hfresh
      hfaithful.fresh
    simp only [hafter, hfound, hupdated, hbefore, hfaithful.recorded, ← hfaithful.previous, hp,
      forall_const, not_true_eq_false, false_implies, and_true]
    refine and_congr_right fun _ => ⟨fun hall hlazy id hold hid =>
      (hfilled id hid).mp (hall id hid) hlazy hold, fun hall id hid =>
      (hfilled id hid).mpr fun hlazy hold => hall hlazy id hold hid⟩
  · have hp : ¬ changes.Writes p := fun hp => by
      obtain ⟨file, hfile⟩ := hready hp
      exact hunready hp file hfile
    simp only [hp, false_implies, not_false_eq_true, forall_const, true_and]
    rcases MemoryStore.edited_clearing havoids hheld with ⟨hsame, hnot⟩ | ⟨hnone, hin⟩
    · have hkept := mt hclear.mpr hnot
      simp only [hsame, hkept, not_false_eq_true, true_and]
      exact forall_congr' fun id => Iff.comm
    · have hdeleted := hclear.mp hin
      simp only [hnone, hdeleted, not_true_eq_false, false_and, false_iff, iff_false]

end Path

/-! ### The run that follows -/

variable (setting) in
/-- A run on some changes of what is seen in its tree comes to a result. -/
structure Executed (home : Location) (filter : FileFilter) (look : String → FileState)
    (c : RunContext) (detection : Detection) (force : Bool) (w w' : World MemoryStore)
    (res : IndexResult) : Prop where
  ready : Ready setting.stateDir home w.disk
  workable : detection.changes.Workable look
  seen : Seen setting.root home w.disk look
  run : ∃ report, (setting.execute filter c detection force).run w = (.ok report, w') ∧
    report.outcome = .ok res

variable (setting) in
/-- The ids of a path: those of its record, and those that are minted from either of two versions of
its file. -/
def Own (m : Manifest) (p : String) (look look' : String → FileState) (d d' : Disk) (id : String) :
    Prop :=
  (∃ r, m.get? p = some r ∧ id ∈ r.entityIds) ∨ setting.FoundAt look d m p id ∨
    setting.FoundAt look' d' m p id

variable {home : Location} {filter : FileFilter} {look look' : String → FileState} {d' : Disk}
  {m' : Manifest}

/-- What is minted from a file depends on what can be read there and on its record. -/
theorem foundAt_congr (hseen : Seen setting.root home d look) (hsame : Same home d d')
    (hstart : Same home d d) (hrecord : m'.get? p = m.get? p) (id : String) :
    setting.FoundAt look d' m' p id ↔ setting.FoundAt look d m p id := by
  unfold FoundAt
  refine and_congr_right fun hlook => ?_
  obtain ⟨hash, hpresent⟩ := (FileState.isPresent_iff _).mp hlook
  obtain ⟨content, modified, _, hall⟩ := hseen p hash hpresent
  unfold prepare
  rw [WorkItem.ofPath_congr hrecord, WorkItem.ofPath_path, hall d' hsame, hall d hstart]

/-- A provider that never fails lets no file fail that is ready. -/
theorem not_gaveUp {vector : String → Embedding} (hfaithful : setting.Faithful vector)
    {prepared : List Prepared} {s : RunState MemoryStore}
    (hprepared : prepared = setting.preparations plan changes d m)
    (hexcused : ∀ failure ∈ s.result.errors, Excused setting prepared failure) :
    ¬ GaveUp prepared s := by
  rintro ⟨failure, hfailure, file, hfile, hpath⟩
  rcases hexcused failure hfailure with ⟨e, hfailed⟩ | ⟨_, hnever⟩
  · -- the extractor does not both fail and succeed on the content of a file
    rw [hprepared] at hfile hfailed
    obtain ⟨p, n, _, hready⟩ := mem_preparations hfile
    obtain ⟨q, k, _, hfails⟩ := mem_preparations hfailed
    have hq := prepare_path setting plan.force d (WorkItem.ofPath k q)
    have hp := prepare_path setting plan.force d (WorkItem.ofPath n p)
    rw [← hfails, WorkItem.ofPath_path] at hq
    rw [← hready, WorkItem.ofPath_path] at hp
    have heq : p = q := hp.symm.trans (hpath.trans hq)
    subst heq
    unfold prepare at hready hfails
    rw [WorkItem.ofPath_path] at hready hfails
    split at hready
    · cases hready
    · rename_i hread
      rw [hread] at hfails
      obtain ⟨found, hfound, _⟩ := prepareContent_ready hready.symm
      rw [WorkItem.ofPath_path] at hfound
      dsimp only at hfails
      unfold prepareContent at hfails
      rw [WorkItem.ofPath_path, hfound] at hfails
      cases hfails
  · exact hnever vector hfaithful

section Runs

variable (hstill : setting.env.Still) (hstore : setting.store = MemoryStore.calls)
  (hfaithful : setting.Faithful vector) {detection : Detection} {force : Bool}
  {context : RunContext} {w w' : World MemoryStore} {res : IndexResult}

include hstill hstore hfaithful

/-- A run that is aborted has made the first edits of its changes. -/
theorem Executed.cut (h : setting.Executed home filter look context detection force w w' res)
    (haborted : res.status = .aborted) : ∃ plan d made left, plan.force = force ∧
      Same home w.disk d ∧
      setting.editsOf plan vector detection.changes d context.manifest = made ++ left ∧
      w'.store = w.store.edited made := by
  obtain ⟨report, hrun, houtcome⟩ := h.run
  obtain ⟨_, w₁, hsave, hsaved⟩ := runs_returns _ (World.save_saved setting.env hstill
    Checkpoint.fileName (beginning context detection w.clock).fileText w h.ready (by decide))
  have hready₁ := h.ready.of_same hsaved.same
  obtain ⟨_, hleaves, _⟩ := execute_leaves hstill hstore hfaithful context detection force hready₁
    hsave (h.workable.legible (h.seen.of_same hsaved.same)) hrun houtcome haborted
  obtain ⟨made, left, hcut, hmade⟩ := hleaves.edits
  refine ⟨_, w₁.disk, made, left, rfl, hsaved.same, hcut, hmade.trans ?_⟩
  obtain ⟨_, _, rfl⟩ := hsaved.rest
  rfl

/-- A run that goes through all its batches makes all edits of its changes. -/
theorem Executed.whole (h : setting.Executed home filter look context detection force w w' res)
    (hended : res.status ≠ .aborted) : ∃ plan d, plan.force = force ∧ Same home w.disk d ∧
      w'.store =
        w.store.edited (setting.editsOf plan vector detection.changes d context.manifest) := by
  obtain ⟨report, hrun, houtcome⟩ := h.run
  obtain ⟨_, w₁, hsave, hsaved⟩ := runs_returns _ (World.save_saved setting.env hstill
    Checkpoint.fileName (beginning context detection w.clock).fileText w h.ready (by decide))
  have hready₁ := h.ready.of_same hsaved.same
  obtain ⟨hworld, herrors, hexcused, hcontents⟩ := execute_replayed setting hstill hstore
    hfaithful.answers filter context detection force hready₁ hsave
    (h.workable.legible (h.seen.of_same hsaved.same)) hrun houtcome hended
  have halike := hcontents.resolve_left (not_gaveUp hfaithful rfl fun failure hfailure =>
    hexcused failure (herrors ▸ hfailure))
  refine ⟨setting.planned filter context detection force w.clock w₁.disk, w₁.disk, rfl,
    hsaved.same, ?_⟩
  rw [← hworld]
  refine halike.store.trans ((replay_store _).trans ?_)
  obtain ⟨_, _, rfl⟩ := hsaved.rest
  rfl

end Runs

/-- **An update that was cut short.** A run is aborted among its batches, so that a file is recorded
as before, and the file may change once more. What the store holds for the file then is the ids that
were recorded, those of the version that the run saw, or both. Another run brings it to the ids of
the version that is there by then exactly if what is left can be mended. -/
theorem interrupted_mended_iff (setting : RunSetting MemoryStore) (hstill : setting.env.Still)
    (hstore : setting.store = MemoryStore.calls) (vector : String → Embedding)
    (hfaithful : setting.Faithful vector) (home : Location) (filter : FileFilter)
    (look look' : String → FileState) (c c' : RunContext) (detection detection' : Detection)
    (force force' : Bool) (w w' v v' : World MemoryStore) (res res' : IndexResult) (p : String)
    (hrun : setting.Executed home filter look c detection force w w' res)
    (haborted : res.status = .aborted)
    (hrun' : setting.Executed home filter look' c' detection' force' v v' res')
    (hended : res'.status ≠ .aborted) (hstored : v.store = w'.store)
    (hrecord : c'.manifest.get? p = c.manifest.get? p) (hagrees : w.store.Agrees c.manifest p)
    (hfree : ∀ id, setting.Own c.manifest p look look' w.disk v.disk id →
      w.store.isCurated id = false)
    (hapart : ∀ plan d, plan.force = force → Same home w.disk d →
      setting.Secluded plan detection.changes d c.manifest p
        (setting.Own c.manifest p look look' w.disk v.disk))
    (hapart' : ∀ plan d, plan.force = force' → Same home v.disk d →
      setting.Secluded plan detection'.changes d c'.manifest p
        (setting.Own c.manifest p look look' w.disk v.disk))
    (hready : detection'.changes.Writes p → ∃ file,
      prepare setting force' v.disk (WorkItem.ofPath c.manifest p) = .ready file) :
    Between (fun id => ∃ r, c.manifest.get? p = some r ∧ id ∈ r.entityIds)
        (fun id => p ∉ detection.changes.deleted ∧ setting.FoundAt look w.disk c.manifest p id)
        (w'.store.Holds p) ∧
      ((∀ id, v'.store.Holds p id ↔ setting.FoundAt look' v.disk c.manifest p id) ↔
        Mendable setting look' v.disk c.manifest force' detection'.changes p
          (w'.store.Holds p)) := by
  have hrecorded := (MemoryStore.agrees_iff _ _ _).mp hagrees
  have hbetween : Between (fun id => ∃ r, c.manifest.get? p = some r ∧ id ∈ r.entityIds)
      (fun id => p ∉ detection.changes.deleted ∧ setting.FoundAt look w.disk c.manifest p id)
      (w'.store.Holds p) := by
    obtain ⟨plan, d, made, left, hforce, hsame, hcut, hmade⟩ :=
      hrun.cut hstill hstore hfaithful haborted
    have hfound (id : String) : setting.FoundAt look d c.manifest p id ↔
        setting.FoundAt look w.disk c.manifest p id :=
      foundAt_congr hrun.seen hsame hrun.ready.same_refl rfl id
    have hmost := editsOf_cut (hapart plan d hforce hsame) hrun.workable
      (fun id hid => .inl ((hrecorded id).mp hid))
      (fun id hid => .inr (.inl ((hfound id).mp hid))) hfree hrecorded hcut
    rw [hmade]
    simpa only [hfound] using hmost
  refine ⟨hbetween, ?_⟩
  have hheld (id : String) (hid : w'.store.Holds p id) :
      setting.Own c.manifest p look look' w.disk v.disk id := by
    rcases hbetween with hids | hids | hids
    · exact .inl ((hids id).mp hid)
    · exact ((hids id).mp hid).imp_right fun hnew => .inl hnew.2
    · exact .inr (.inl ((hids id).mp hid).2)
  have hcurated (id : String) : w'.store.isCurated id = w.store.isCurated id := by
    obtain ⟨_, _, _, _, _, _, _, hmade⟩ := hrun.cut hstill hstore hfaithful haborted
    rw [hmade, MemoryStore.isCurated_edited]
  obtain ⟨plan, d, rfl, hsame, hwhole⟩ := hrun'.whole hstill hstore hfaithful hended
  have hfound (id : String) : setting.FoundAt look' d c'.manifest p id ↔
      setting.FoundAt look' v.disk c.manifest p id :=
    foundAt_congr hrun'.seen hsame hrun'.ready.same_refl hrecord id
  have hmends := editsOf_mends vector (hapart' plan d rfl hsame) hrun'.workable hheld
    (fun id hid => .inr (.inr ((hfound id).mp hid)))
    (fun id hid => (hcurated id).trans (hfree id hid)) fun hp => by
      obtain ⟨file, hfile⟩ := hready hp
      obtain ⟨content, modified, hall⟩ := hrun'.workable.legible hrun'.seen p hp
      refine ⟨file, ?_⟩
      unfold prepare at hfile ⊢
      rw [WorkItem.ofPath_congr hrecord]
      rw [WorkItem.ofPath_path, hall _ hrun'.ready.same_refl] at hfile
      rw [WorkItem.ofPath_path, hall d hsame]
      exact hfile
  rw [hwhole, hstored]
  unfold Mendable at hmends ⊢
  simpa only [hfound, hrecord] using hmends

end RunSetting

/-! ### A change that is undone -/

section Undone

open RunSetting

def undoneSetting : RunSetting MemoryStore :=
  let base := sampleSetting
    ⟨fun _ => true, fun _ text => .ok [⟨.function, text, ⟨1, 1⟩, none, none, text⟩]⟩
    fun _ => .outside
  { base with
    env := { base.env with
      atStore := fun call nth =>
        if call = .deleteIds ∧ nth = 1 then .fail (.unavailable "down") else .proceed } }

def undoneEntity : Entity :=
  (⟨.function, "a", ⟨1, 1⟩, none, none, "a"⟩ : ExtractedEntity).mint "a.py" "1" .metadata

def undoneManifest : Manifest :=
  Manifest.empty.recordIndexed
    { path := "a.py"
      contentHash := Digest.contentHash "a".toUTF8
      lastSeenCommit := none
      modificationTime := 0
      lineage := "1"
      entityIds := [undoneEntity.id] } .zero

def undoneDisk (text : String) : Disk := sampleDisk [("a.py", text)]

def undoneWorld : World MemoryStore where
  disk := undoneDisk "b"
  store := ({} : MemoryStore).upsert [⟨undoneEntity, []⟩]
  clock := ⟨⟨2024, 1, 1⟩, 0, 0⟩

def undoneChanges (text : String) : ChangeSet :=
  (confirm undoneManifest (sampleFilter.inspect (undoneDisk text)) { modified := ["a.py"] }).changes

def undoneRun (changes : ChangeSet) : RunM (World MemoryStore) (RunReport MemoryStore) :=
  undoneSetting.execute sampleFilter ⟨sampleCheckpoint "old", undoneManifest, false⟩
    ⟨changes, .supplied, none, []⟩ false

def undoneRuns : RunM (World MemoryStore) (RunReport MemoryStore × RunReport MemoryStore) := do
  let first ← undoneRun { modified := ["a.py"] }
  modify fun w => { w with disk := undoneDisk "a" }
  let second ← undoneRun {}
  return (first, second)

def statusOf (report : RunReport MemoryStore) : Option RunOutcome :=
  report.outcome.toOption.map (·.status)

theorem statusOf_some {report : RunReport MemoryStore} {status : RunOutcome}
    (h : statusOf report = some status) : ∃ res, report.outcome = .ok res ∧ res.status = status := by
  unfold statusOf at h
  cases houtcome : report.outcome with
  | error e =>
    rw [houtcome] at h
    cases h
  | ok res =>
    rw [houtcome] at h
    exact ⟨res, rfl, Option.some.inj h⟩

theorem undone_ended : ∃ reports v', undoneRuns.run undoneWorld = (.ok reports, v') ∧
    statusOf reports.1 = some .aborted ∧ statusOf reports.2 = some .completed ∧
    (v'.store.idsForPath "a.py").any (· != undoneEntity.id) = true :=
  runs_returns _ (by decide +kernel)

theorem undone_changes :
    undoneChanges "b" = { modified := ["a.py"] } ∧ undoneChanges "a" = {} := by
  decide +kernel

theorem undone_parts {w v' : World MemoryStore}
    {reports : RunReport MemoryStore × RunReport MemoryStore}
    (h : undoneRuns.run w = (.ok reports, v')) : ∃ w',
      (undoneRun (undoneChanges "b")).run w = (.ok reports.1, w') ∧
      (undoneRun (undoneChanges "a")).run { w' with disk := undoneDisk "a" } =
        (.ok reports.2, v') := by
  rw [undone_changes.1, undone_changes.2]
  have hruns : Runs undoneRuns w (fun reports v' => ∃ w',
      (undoneRun { modified := ["a.py"] }).run w = (.ok reports.1, w') ∧
      (undoneRun {}).run { w' with disk := undoneDisk "a" } = (.ok reports.2, v'))
      fun _ _ => True := by
    unfold undoneRuns
    rw [runs_bind, Runs]
    rcases (undoneRun { modified := ["a.py"] }).run w with ⟨_ | first, w'⟩
    · exact trivial
    · dsimp only
      rw [runs_bind, runs_modify, runs_bind, Runs]
      rcases hsecond : (undoneRun {}).run { w' with disk := undoneDisk "a" } with ⟨_ | second, v⟩
      · exact trivial
      · exact ⟨w', rfl, hsecond⟩
  exact runs_ok _ _ _ hruns h

/-- The file that is there in the end has the entity that was indexed first. -/
theorem undone_prepared : ∃ file, prepare undoneSetting false (undoneDisk "a")
    (WorkItem.ofPath undoneManifest "a.py") = .ready file ∧
      file.currentIds.toList = [undoneEntity.id] := by
  have hall : ((prepare undoneSetting false (undoneDisk "a")
      (WorkItem.ofPath undoneManifest "a.py")).file?.map (·.currentIds.toList)) =
        some [undoneEntity.id] := by
    decide +kernel
  obtain ⟨file, hfile, hids⟩ := Option.map_eq_some_iff.mp hall
  cases hprepared : prepare undoneSetting false (undoneDisk "a")
      (WorkItem.ofPath undoneManifest "a.py") with
  | ready file' =>
    rw [hprepared] at hfile
    cases hfile
    exact ⟨file, rfl, hids⟩
  | unreadable path =>
    rw [hprepared] at hfile
    cases hfile
  | failed path e =>
    rw [hprepared] at hfile
    cases hfile

theorem undone_found (id : String) : undoneSetting.FoundAt (sampleFilter.inspect (undoneDisk "a"))
    (undoneDisk "a") undoneManifest "a.py" id ↔ id = undoneEntity.id := by
  obtain ⟨file, hfile, hids⟩ := undone_prepared
  rw [foundAt_iff (by decide +kernel) hfile, ← Std.ExtTreeSet.mem_toList, hids,
    List.mem_singleton]

theorem undone_executed {text : String} (htext : text = "a" ∨ text = "b")
    {w w' : World MemoryStore} (hdisk : w.disk = undoneDisk text) {report : RunReport MemoryStore}
    (hrun : (undoneRun (undoneChanges text)).run w = (.ok report, w')) {status : RunOutcome}
    (hstatus : statusOf report = some status) : ∃ res, res.status = status ∧
      undoneSetting.Executed sampleHome sampleFilter (sampleFilter.inspect (undoneDisk text))
        ⟨sampleCheckpoint "old", undoneManifest, false⟩ ⟨undoneChanges text, .supplied, none, []⟩
        false w w' res := by
  have hdir : undoneSetting.stateDir = "/w/.sift" :=
    sample_stateDir ⟨fun _ => true, fun _ _ => .ok []⟩ fun _ => .outside
  have hlinks : (undoneDisk text).Linkless ∧ Ready "/w/.sift" sampleHome (undoneDisk text) := by
    rcases htext with rfl | rfl
    · refine ⟨Disk.linkless_of_all _ (by decide), ?_⟩
      apply sample_ready <;> decide
    · refine ⟨Disk.linkless_of_all _ (by decide), ?_⟩
      apply sample_ready <;> decide
  have hroot : sampleFilter.root = undoneSetting.root := by decide
  have hseen := (sample_apart (undoneDisk text) hlinks.1).seen
  obtain ⟨res, houtcome, hstatus⟩ := statusOf_some hstatus
  refine ⟨res, hstatus, ?_, (confirm_founded undoneManifest _ _).workable, ?_, report, hrun,
    houtcome⟩
  · rw [hdisk, hdir]
    exact hlinks.2
  · rw [hdisk, ← hroot]
    exact hseen

theorem undone_secluded {text : String} (htext : text = "a" ∨ text = "b") (plan : RunPlan)
    (d : Disk) (own : String → Prop) :
    undoneSetting.Secluded plan (undoneChanges text) d undoneManifest "a.py" own := by
  have hchanges : (undoneChanges text).renamed = [] ∧
      ∀ q, (undoneChanges text).Writes q → q = "a.py" := by
    rcases htext with rfl | rfl
    · rw [undone_changes.2]
      refine ⟨rfl, ?_⟩
      rintro q (hq | hq | ⟨_, hq, _⟩)
      all_goals exact absurd hq List.not_mem_nil
    · rw [undone_changes.1]
      refine ⟨rfl, ?_⟩
      rintro q (hq | hq | ⟨_, hq, _⟩)
      · exact absurd hq List.not_mem_nil
      · exact List.mem_singleton.mp hq
      · exact absurd hq List.not_mem_nil
  constructor
  · intro e he
    rw [hchanges.1] at he
    exact absurd he List.not_mem_nil
  · intro file hfile hpath
    obtain ⟨q, n, hq, hprepared⟩ := mem_preparations hfile
    obtain ⟨hsame, _⟩ := prepare_faithful undoneSetting plan.force d n q file hprepared.symm
    exact absurd (hsame.trans (hchanges.2 q hq)) hpath

/-- What the first run leaves can be mended only if the second one finds just that. -/
theorem undone_mended_iff : ∃ report w' report' v',
    (undoneRun (undoneChanges "b")).run undoneWorld = (.ok report, w') ∧
    (undoneRun (undoneChanges "a")).run { w' with disk := undoneDisk "a" } = (.ok report', v') ∧
    Between (fun id => ∃ r, undoneManifest.get? "a.py" = some r ∧ id ∈ r.entityIds)
      (fun id => "a.py" ∉ (undoneChanges "b").deleted ∧
        undoneSetting.FoundAt (sampleFilter.inspect (undoneDisk "b")) undoneWorld.disk
          undoneManifest "a.py" id)
      (w'.store.Holds "a.py") ∧
    ((∀ id, v'.store.Holds "a.py" id ↔ undoneSetting.FoundAt
        (sampleFilter.inspect (undoneDisk "a")) (undoneDisk "a") undoneManifest "a.py" id) ↔
      Mendable undoneSetting (sampleFilter.inspect (undoneDisk "a")) (undoneDisk "a") undoneManifest
        false (undoneChanges "a") "a.py" (w'.store.Holds "a.py")) := by
  obtain ⟨reports, v', hruns, haborted, hcompleted, -⟩ := undone_ended
  have hstored : undoneWorld.store.Synced undoneManifest :=
    MemoryStore.synced_single ⟨undoneEntity, []⟩ _ .zero rfl rfl
  have hfree (id : String) : undoneWorld.store.isCurated id = false :=
    MemoryStore.isCurated_apply (.write [⟨undoneEntity, []⟩]) {} id
  have hdisk : undoneWorld.disk = undoneDisk "b" := rfl
  -- the runs themselves are not looked into
  generalize undoneWorld = w at *
  obtain ⟨w', hfirst, hsecond⟩ := undone_parts hruns
  obtain ⟨res, hres, hrun⟩ := undone_executed (.inr rfl) hdisk hfirst haborted
  obtain ⟨res', hres', hrun'⟩ := undone_executed (.inl rfl) rfl hsecond hcompleted
  refine ⟨reports.1, w', reports.2, v', hfirst, hsecond, ?_⟩
  have hstill : undoneSetting.env.Still := by
    refine ⟨fun _ _ => rfl, fun call nth change h => ?_, fun _ => rfl⟩
    have hnever : (if call = .deleteIds ∧ nth = 1 then StoreHook.fail (.unavailable "down")
        else .proceed) ≠ .alter change := by
      split <;> exact fun heq => by cases heq
    exact absurd h hnever
  have htime : ¬ ({} : RunConfig).retry.callTimeout < Duration.zero := by decide
  have hiff := interrupted_mended_iff undoneSetting hstill rfl (fun _ => [])
    ⟨rfl, fun _ _ => ⟨htime, rfl⟩⟩ sampleHome sampleFilter _ _ _ _ _ _ _ _ w w' _ v' res res' "a.py"
    hrun hres hrun' (by rw [hres']; decide) rfl rfl (hstored "a.py") (fun id _ => hfree id)
    (fun plan d _ _ => undone_secluded (.inr rfl) plan d _)
    (fun plan d _ _ => undone_secluded (.inl rfl) plan d _) (fun _ => ?_)
  · exact hiff
  · obtain ⟨file, hfile, _⟩ := undone_prepared
    exact ⟨file, hfile⟩

/-- **A leftover that stays.** A file is indexed and changed, the run on it is aborted, and the
change is undone. The next run completes, and the store still holds an id that is not minted from
the file. -/
theorem undone_leftover : undoneWorld.store.Agrees undoneManifest "a.py" ∧
    ∃ report w' report' v', (undoneRun (undoneChanges "b")).run undoneWorld = (.ok report, w') ∧
      statusOf report = some .aborted ∧
      (undoneRun (undoneChanges "a")).run { w' with disk := undoneDisk "a" } = (.ok report', v') ∧
      statusOf report' = some .completed ∧
      ∃ id, v'.store.Holds "a.py" id ∧ ¬ undoneSetting.FoundAt
        (sampleFilter.inspect (undoneDisk "a")) (undoneDisk "a") undoneManifest "a.py" id := by
  obtain ⟨reports, v', hruns, haborted, hcompleted, hany⟩ := undone_ended
  obtain ⟨id, hid, hother⟩ := List.any_eq_true.mp hany
  have hstored : undoneWorld.store.Synced undoneManifest :=
    MemoryStore.synced_single ⟨undoneEntity, []⟩ _ .zero rfl rfl
  generalize undoneWorld = w at *
  obtain ⟨w', hfirst, hsecond⟩ := undone_parts hruns
  refine ⟨hstored "a.py", reports.1, w', reports.2, v', hfirst, haborted, hsecond, hcompleted, id,
    (MemoryStore.mem_idsForPath _ _ id).mp hid, ?_⟩
  rw [undone_found]
  exact bne_iff_ne.mp hother

end Undone

end CodeIndex
