import CodeIndex.Proofs.Change.Confirm
import CodeIndex.Proofs.Run.Preparation
import CodeIndex.Proofs.Run.Since

namespace CodeIndex

open StateDir

/-- The records of `m'` come from those of `m`: paths of `kept` are recorded with the content they
have, paths of `dropped` are not recorded, and those outside `touched` are recorded as before. -/
structure Reworked (look : String → FileState) (m m' : Manifest)
    (kept dropped touched : String → Prop) : Prop where
  kept : ∀ p, kept p → ∃ hash, look p = .present hash ∧ m'.hashAt p = some hash
  dropped : ∀ p, dropped p → m'.hashAt p = none
  rest : ∀ p, ¬ touched p → m'.hashAt p = m.hashAt p

namespace Reworked

variable {look : String → FileState} {m m' : Manifest} {kept dropped touched : String → Prop}

theorem recorded (h : Reworked look m m' kept dropped touched) {p : String} (hp : kept p) :
    ∃ r, m'.get? p = some r ∧ look p = .present r.contentHash := by
  obtain ⟨hash, hlook, hhash⟩ := h.kept p hp
  obtain ⟨r, hr, rfl⟩ := Option.map_eq_some_iff.mp hhash
  exact ⟨r, hr, hlook⟩

theorem isSome_rest (h : Reworked look m m' kept dropped touched) {p : String}
    (hp : ¬ touched p) : (m'.get? p).isSome = (m.get? p).isSome := by
  have hsame := congrArg Option.isSome (h.rest p hp)
  unfold Manifest.hashAt at hsame
  rw [Option.isSome_map, Option.isSome_map] at hsame
  exact hsame

end Reworked

/-- What was seen of the files of a tree is what a run reads, whatever it writes to its state
directory. -/
def Seen (root : String) (home : Location) (d : Disk) (look : String → FileState) : Prop :=
  ∀ p hash, look p = .present hash → ∃ content modified, Digest.contentHash content = hash ∧
    ∀ d', Same home d d' → d'.readFile (Path.join root p) = .ok (content, modified)

theorem Seen.of_same {root : String} {home : Location} {d d' : Disk} {look : String → FileState}
    (h : Seen root home d look) (hsame : Same home d d') : Seen root home d' look := by
  intro p hash hlook
  obtain ⟨content, modified, hhash, hall⟩ := h p hash hlook
  exact ⟨content, modified, hhash, fun d'' hsame' => hall d'' (hsame.trans hsame')⟩

namespace RunState

variable {σ : Type} (setting : RunSetting σ) {home : Location}

section Batches

variable (plan : RunPlan) (look : String → FileState) (changes : ChangeSet) (s₀ : RunState σ)

structure Reading (home : Location) (s t : RunState σ) : Prop extends Since home s t where
  unread : t.unreadable = s.unreadable

def Touches (p : String) : Prop := changes.Writes p ∨ changes.Removes p

def Sighted (file : PreparedFile) : Prop :=
  changes.Writes file.path ∧ look file.path = .present file.hash ∧
    file.modificationTime < Nat.pow 2 64

def Deleting (home : Location) (rest : List String) (t : RunState σ) : Prop :=
  Reading home s₀ t ∧ ∃ done, changes.deleted = done ++ rest ∧
    Reworked look s₀.manifest t.manifest (fun _ => False) (· ∈ done) (Touches changes)

def Renaming (home : Location) (reindex : List String) (rest : List (String × String))
    (t : RunState σ) : Prop :=
  Reading home s₀ t ∧ ∃ done, changes.renamed = done ++ rest ∧
    (∀ p ∈ reindex, ∃ e ∈ done, p = e.2) ∧
    Reworked look s₀.manifest t.manifest (fun p => (∃ e ∈ done, p = e.2) ∧ p ∉ reindex)
      (fun p => p ∈ changes.deleted ∨ ∃ e ∈ done, p = e.1) (Touches changes)

def Writing (home : Location) (left : List String) (t : RunState σ) : Prop :=
  Reading home s₀ t ∧ (t.core.missed = s₀.core.missed →
    Reworked look s₀.manifest t.manifest (fun p => changes.Writes p ∧ p ∉ left) changes.Removes
      (Touches changes))

def Stored (home : Location) (t : RunState σ) : Prop :=
  content home t.world.disk Manifest.fileName = some t.manifest.fileText.toUTF8 ∨
    content home t.world.disk Manifest.fileName =
      content home s₀.world.disk Manifest.fileName ∧ t.manifest = s₀.manifest

def StoreFailed (home : Location) (e : IndexError) (t : RunState σ) : Prop :=
  Since home s₀ t ∧ ∃ cause, e = .storeWrite cause

/-- A batch that is being filled and the files read ahead are still to be written. All of them were
seen, and none of them is unreadable. -/
structure Outstanding (home : Location) (pending : List PreparedFile) (todo : List Prepared)
    (t : RunState σ) : Prop where
  stored : Stored s₀ home t
  writing : Writing look changes s₀ home (pending.map (·.path) ++ todo.map Prepared.path) t
  batch : ∀ file ∈ pending, Sighted look changes file
  ahead : ∀ file, .ready file ∈ todo → Sighted look changes file
  readable : ∀ path, Prepared.unreadable path ∉ todo

variable {look changes s₀}

theorem Reading.called {s t : RunState σ} (h : Reading home s t) {w : World σ}
    (hw : t.world.Called w) (m : Manifest) (hkeyed : t.manifest.Keyed → m.Keyed)
    (hstorable : w.unixTime.Storable → t.manifest.Storable → m.Storable) :
    Reading home s { t with world := w, manifest := m } :=
  ⟨h.toSince.called hw m hkeyed hstorable, h.unread⟩

theorem Reading.quiet {s t u : RunState σ} (h : Reading home s t) (hq : Quiet setting.env t u) :
    Reading home s u := ⟨hq.since setting h.toSince, hq.unread.trans h.unread⟩

theorem Reading.committed {s t u : RunState σ} {files : List String} (h : Reading home s t)
    (hc : Committed home files t u) : Reading home s u :=
  ⟨hc.since h.toSince, hc.unread.trans h.unread⟩

theorem hashAt_relocated (m : Manifest) (source target : String) (now : Duration)
    (r : FileRecord) (hr : m.get? source = some r) (hne : source ≠ target) (p : String) :
    (relocated m plan source target now).hashAt p =
      if target = p then some r.contentHash else if source = p then none else m.hashAt p := by
  unfold Manifest.hashAt
  rw [get?_relocated m plan source target now r hr hne p]
  split
  · rfl
  · split <;> rfl

theorem Stored.quiet {t u : RunState σ} (h : Stored s₀ home t) (hq : Quiet setting.env t u) :
    Stored s₀ home u := by
  unfold Stored at *
  rw [core_disk hq.core, core_manifest hq.core]
  exact h

theorem Committed.stored {t u : RunState σ} {files : List String}
    (h : Committed home files t u) : Stored s₀ home u := by
  refine .inl ?_
  rw [show u.manifest = t.manifest from congrArg Core.manifest h.core]
  exact h.manifestText

theorem forget_since (hstill : setting.env.Still) (path : String) (t : RunState σ)
    (ht : Reading home s₀ t) :
    Runs (forget setting path) t
      (fun _ u => Reading home s₀ u ∧ ∃ now, u.manifest = t.manifest.removeFile path now)
      (StoreFailed s₀ home) := by
  rw [runs_forget]
  apply runs_imp _ _ _ (World.deleteFile_called setting.env hstill setting.store path t.world)
  · intro stats w hw
    exact ⟨ht.called hw _ (Manifest.keyed_removeFile _ _ _) fun hnow hs => hs.removeFile _ _ hnow,
      _, rfl⟩
  · intro e w hw
    exact ⟨(ht.called hw _ id fun _ hs => hs).toSince, e, rfl⟩

theorem forget_deleting (hstill : setting.env.Still) (path : String) (rest : List String)
    (t : RunState σ) (ht : Deleting look changes s₀ home (path :: rest) t) :
    Runs (forget setting path) t (fun _ u => Deleting look changes s₀ home rest u)
      (StoreFailed s₀ home) := by
  obtain ⟨hsince, done, hsplit, hwork⟩ := ht
  apply runs_imp _ _ _ (forget_since setting hstill path t hsince)
  · rintro _ u ⟨hu, now, hm⟩
    refine ⟨hu, done ++ [path], by rw [hsplit, List.append_assoc]; rfl, ?_, ?_, ?_⟩
    · intro p hp
      exact hp.elim
    · intro p hp
      rw [hm, Manifest.hashAt_removeFile]
      split
      · rfl
      · rename_i hne
        rcases List.mem_append.mp hp with hp | hp
        · exact hwork.dropped p hp
        · exact absurd (List.mem_singleton.mp hp).symm hne
    · intro p hp
      have hne : path ≠ p := by
        rintro rfl
        exact hp (.inr (.inl (by rw [hsplit]; simp)))
      rw [hm, Manifest.hashAt_removeFile, if_neg hne]
      exact hwork.rest p hp
  · exact fun _ _ h => h

def Renamed (look : String → FileState) (changes : ChangeSet) (m₀ : Manifest)
    (reindex : List String) (done : List (String × String)) (m : Manifest) : Prop :=
  Reworked look m₀ m (fun p => (∃ e ∈ done, p = e.2) ∧ p ∉ reindex)
    (fun p => p ∈ changes.deleted ∨ ∃ e ∈ done, p = e.1) (Touches changes)

theorem exists_mem_concat {α β : Type} (done : List α) (e : α) (f : α → β) (p : β) :
    (∃ x ∈ done ++ [e], p = f x) ↔ (∃ x ∈ done, p = f x) ∨ p = f e := by
  simp only [List.mem_append, List.mem_singleton, or_and_right, exists_or, exists_eq_left]

section Rename

variable {m₀ m m' : Manifest} {reindex : List String} {done rest : List (String × String)}
  {source target : String} (hwork : changes.Workable look)
  (hsplit : changes.renamed = done ++ (source, target) :: rest)

include hsplit in
theorem rename_mem : (source, target) ∈ changes.renamed := by
  rw [hsplit]
  exact List.mem_append_right _ List.mem_cons_self

include hwork hsplit

/-- The ends of a rename are apart from each other and from those of the renames before it. -/
theorem rename_apart : source ≠ target ∧ (∀ e ∈ done, source ≠ e.2) ∧
    (∀ e ∈ done, target ≠ e.1) ∧ target ∉ changes.deleted := by
  have hmem := rename_mem hsplit
  have hearlier (e : String × String) (he : e ∈ done) : e ∈ changes.renamed := by
    rw [hsplit]
    exact List.mem_append_left _ he
  have hwrites : changes.Writes target := .inr (.inr ⟨_, hmem, rfl⟩)
  have hremoves : changes.Removes source := .inr ⟨_, hmem, rfl⟩
  refine ⟨?_, fun e he heq => ?_, fun e he heq => ?_, fun hdeleted => ?_⟩
  · rintro rfl
    exact hwork.apart _ hwrites hremoves
  · exact hwork.apart source (.inr (.inr ⟨e, hearlier e he, heq⟩)) hremoves
  · exact hwork.apart target hwrites (.inr ⟨e, hearlier e he, heq⟩)
  · exact hwork.apart target hwrites (.inl hdeleted)

/-- The target is left for later, with its source unrecorded from now on. -/
theorem Renamed.later (h : Renamed look changes m₀ reindex done m)
    (hsource : m'.hashAt source = none) (hother : ∀ p, p ≠ source → m'.hashAt p = m.hashAt p) :
    Renamed look changes m₀ (reindex ++ [target]) (done ++ [(source, target)]) m' := by
  obtain ⟨_, htargets, _, _⟩ := rename_apart hwork hsplit
  have hremoves : changes.Removes source := .inr ⟨_, rename_mem hsplit, rfl⟩
  refine ⟨?_, fun p hp => ?_, fun p hp => ?_⟩
  · rintro p ⟨hp, hout⟩
    rw [List.mem_append, not_or] at hout
    rcases (exists_mem_concat done (source, target) (·.2) p).mp hp with hbefore | rfl
    · have hps : p ≠ source := by
        obtain ⟨e, he, heq⟩ := hbefore
        rw [heq]
        exact (htargets e he).symm
      rw [hother p hps]
      exact h.kept p ⟨hbefore, hout.1⟩
    · exact absurd (List.mem_singleton_self _) hout.2
  · by_cases hps : p = source
    · rw [hps, hsource]
    · rw [hother p hps]
      rw [exists_mem_concat done (source, target) (·.1)] at hp
      rcases hp with hp | hp | hp
      · exact h.dropped p (.inl hp)
      · exact h.dropped p (.inr hp)
      · exact absurd hp hps
  · have hps : p ≠ source := by
      rintro rfl
      exact hp (.inr hremoves)
    rw [hother p hps]
    exact h.rest p hp

/-- The record has moved to the target, which holds what is recorded. -/
theorem Renamed.moved {hash : ContentHash} (h : Renamed look changes m₀ reindex done m)
    (hlook : look target = .present hash)
    (hmoved : ∀ p, m'.hashAt p =
      if target = p then some hash else if source = p then none else m.hashAt p) :
    Renamed look changes m₀ reindex (done ++ [(source, target)]) m' := by
  obtain ⟨hne, htargets, hsources, hdeleted⟩ := rename_apart hwork hsplit
  have hmem := rename_mem hsplit
  refine ⟨?_, fun p hp => ?_, fun p hp => ?_⟩
  · -- the targets so far: the one that is new holds what was seen, the others are no source now
    rintro p ⟨hp, hout⟩
    rw [hmoved]
    split
    · rename_i heq
      exact ⟨hash, heq ▸ hlook, rfl⟩
    · rename_i htarget
      rcases (exists_mem_concat done (source, target) (·.2) p).mp hp with hbefore | heq
      · have hps : source ≠ p := by
          obtain ⟨e, he, heq⟩ := hbefore
          rw [heq]
          exact htargets e he
        rw [if_neg hps]
        exact h.kept p ⟨hbefore, hout⟩
      · exact absurd heq.symm htarget
  · -- what is deleted or was a source stays unrecorded, as the target is none of it
    rw [exists_mem_concat done (source, target) (·.1)] at hp
    have htarget : target ≠ p := by
      rintro rfl
      rcases hp with hp | ⟨e, he, heq⟩ | heq
      · exact hdeleted hp
      · exact hsources e he heq
      · exact hne heq.symm
    rw [hmoved, if_neg htarget]
    split
    · rfl
    · rename_i hps
      rcases hp with hp | hp | hp
      · exact h.dropped p (.inl hp)
      · exact h.dropped p (.inr hp)
      · exact absurd hp.symm hps
  · have htarget : target ≠ p := by
      rintro rfl
      exact hp (.inl (.inr (.inr ⟨_, hmem, rfl⟩)))
    have hps : source ≠ p := by
      rintro rfl
      exact hp (.inr (.inr ⟨_, hmem, rfl⟩))
    rw [hmoved, if_neg htarget, if_neg hps]
    exact h.rest p hp

end Rename

/-- A rename moves the record of its source, or leaves its target to be indexed anew. -/
theorem applyRename_renaming (hstill : setting.env.Still) (hwork : changes.Workable look)
    (hseen : Seen setting.root home s₀.world.disk look) (found : Restructured)
    (source target : String) (rest : List (String × String)) (t : RunState σ)
    (ht : Renaming look changes s₀ home found.reindex ((source, target) :: rest) t) :
    Runs (applyRename setting plan found source target) t
      (fun r u => Renaming look changes s₀ home r.reindex rest u) (StoreFailed s₀ home) := by
  obtain ⟨hsince, done, hsplit, hreindex, hdone⟩ := ht
  obtain ⟨hne, _⟩ := rename_apart hwork hsplit
  have hsplit' : changes.renamed = (done ++ [(source, target)]) ++ rest := by
    rw [hsplit, List.append_assoc]
    rfl
  have hkept (p : String) (hp : p ∈ found.reindex) : ∃ e ∈ done ++ [(source, target)], p = e.2 :=
    (exists_mem_concat done (source, target) (·.2) p).mpr (.inl (hreindex p hp))
  have hadded (p : String) (hp : p ∈ found.reindex ++ [target]) :
      ∃ e ∈ done ++ [(source, target)], p = e.2 := by
    rcases List.mem_append.mp hp with hp | hp
    · exact hkept p hp
    · exact ⟨_, List.mem_append_right _ (List.mem_singleton_self _), List.mem_singleton.mp hp⟩
  -- the target was seen, so it can be read and holds what was seen
  obtain ⟨hash, hlook⟩ := hwork.present target (.inr (.inr ⟨_, rename_mem hsplit, rfl⟩))
  obtain ⟨content, modified, hhash, hall⟩ := hseen target hash hlook
  have hread := hall _ hsince.same
  apply applyRename_rule setting plan
    (fun _ reindex u => Renaming look changes s₀ home reindex rest u)
  · intro hnone
    exact ⟨hsince, _, hsplit', hadded, Renamed.later hwork hsplit hdone
      ((Manifest.hashAt_none _ _).mpr hnone) fun _ _ => rfl⟩
  · intro _ e hfails
    rw [hread] at hfails
    cases hfails
  · intro r content' modified' hr hread' hsame
    cases hread.symm.trans hread'
    rw [runs_relocate]
    apply runs_imp _ _ _ (World.renameFile_called setting.env hstill setting.store source target
      (t.manifest.get? target).isSome t.world)
    · intro stats w hw
      have hmoved := hashAt_relocated plan t.manifest source target w.unixTime r hr hne
      rw [← hsame, hhash] at hmoved
      exact ⟨hsince.called hw _ (relocated_keyed _ _ _ _ _)
        fun hnow hs => relocated_storable _ _ _ _ _ hs hnow, _, hsplit', hkept,
        Renamed.moved hwork hsplit hdone hlook hmoved⟩
    · intro e w hw
      exact ⟨(hsince.called hw _ id fun _ hs => hs).toSince, e, rfl⟩
  · intro r content' modified' hr hread' hdiffers
    apply runs_imp _ _ _ (forget_since setting hstill source t hsince)
    · rintro _ u ⟨hu, now, hm⟩
      refine ⟨hu, _, hsplit', hadded, Renamed.later hwork hsplit hdone ?_ fun p hp => ?_⟩
      · rw [hm, Manifest.hashAt_removeFile, if_pos rfl]
      · rw [hm, Manifest.hashAt_removeFile, if_neg (Ne.symm hp)]
    · exact fun _ _ h => h

/-- When deletions and renames are done, what is left are the other paths to be written and the
targets to be indexed anew. -/
theorem applyStructural_writing (hstill : setting.env.Still) (hwork : changes.Workable look)
    (hready : Ready setting.stateDir home s₀.world.disk)
    (hseen : Seen setting.root home s₀.world.disk look) :
    Runs (applyStructural setting plan changes) s₀
      (fun reindex t => (∀ p ∈ reindex, changes.Writes p) ∧ Stored s₀ home t ∧
        ∀ left, (∀ p, changes.Writes p →
          p ∈ changes.added ∨ p ∈ changes.modified ∨ p ∈ reindex → p ∈ left) →
          Writing look changes s₀ home left t) (StoreFailed s₀ home) := by
  apply applyStructural_rule setting plan changes (fun _ => Deleting look changes s₀ home)
    (fun _ => Renaming look changes s₀ home)
    (fun reindex t => (∀ p ∈ reindex, changes.Writes p) ∧ Stored s₀ home t ∧
      ∀ left, (∀ p, changes.Writes p →
        p ∈ changes.added ∨ p ∈ changes.modified ∨ p ∈ reindex → p ∈ left) →
        Writing look changes s₀ home left t)
  · exact ⟨⟨(Since.refl hready.leaf).called ⟨_, _, _, rfl⟩ _ id fun _ hs => hs, rfl⟩, [], rfl,
      fun _ hp => hp.elim, fun _ hp => absurd hp List.not_mem_nil, fun _ _ => rfl⟩
  · exact fun _ path rest t ht => forget_deleting setting hstill path rest t ht
  · -- all deletions are done, and no rename is
    rintro touched t ⟨hsince, done, hsplit, hdone⟩
    have hall : done = changes.deleted := by rw [hsplit, List.append_nil]
    refine ⟨hsince, [], rfl, fun _ hp => absurd hp List.not_mem_nil, ?_, ?_, hdone.rest⟩
    · rintro p ⟨⟨e, he, _⟩, _⟩
      exact absurd he List.not_mem_nil
    · rintro p (hp | ⟨e, he, _⟩)
      · exact hdone.dropped p (hall ▸ hp)
      · exact absurd he List.not_mem_nil
  · exact fun found source target rest t ht =>
      applyRename_renaming setting plan hstill hwork hseen found source target rest t ht
  · -- all renames are done, and a path to be written was either moved to or is left
    rintro touched reindex t ⟨hsince, done, hsplit, hreindex, hdone⟩
    have hall : done = changes.renamed := by rw [hsplit, List.append_nil]
    rw [hall] at hreindex hdone
    apply runs_imp _ _ _ (commitBatch_committed setting hstill touched t
      (hready.of_same hsince.same))
    · intro _ u hu
      refine ⟨fun p hp => .inr (.inr (hreindex p hp)), hu.stored, fun left hleft =>
        ⟨hsince.committed hu, fun _ => ?_⟩⟩
      rw [show u.manifest = t.manifest from congrArg Core.manifest hu.core]
      refine ⟨?_, hdone.dropped, hdone.rest⟩
      rintro p ⟨hp, hout⟩
      have hnot := fun h => hout (hleft p hp h)
      rcases hp with hp | hp | hp
      · exact absurd (.inl hp) hnot
      · exact absurd (.inr (.inl hp)) hnot
      · exact hdone.kept p ⟨hp, fun h => hnot (.inr (.inr h))⟩
    · exact fun _ _ h => h.elim
  · rintro reindex t u ⟨hreindex, hstored, hleft⟩ hcounted
    have hq := hcounted.quiet setting.env
    refine ⟨hreindex, hstored.quiet setting hq, fun left h => ?_⟩
    obtain ⟨hsince, hwriting⟩ := hleft left h
    refine ⟨hsince.quiet setting hq, fun hmissed => ?_⟩
    rw [core_manifest hq.core]
    exact hwriting ((core_missed hq.core).symm.trans hmissed)

/-- A file that failed is missed, so that nothing more is claimed. -/
theorem Writing.missing {left left' : List String} {t u : RunState σ}
    (ht : Writing look changes s₀ home left t) (hu : Reading home s₀ u)
    (hmissed : u.core.missed = t.core.missed + 1) : Writing look changes s₀ home left' u := by
  have hleast := ht.1.missed
  exact ⟨hu, fun heq => absurd heq (by omega)⟩

theorem Writing.quiet {left : List String} {t u : RunState σ}
    (ht : Writing look changes s₀ home left t) (hq : Quiet setting.env t u) :
    Writing look changes s₀ home left u := by
  refine ⟨ht.1.quiet setting hq, fun hmissed => ?_⟩
  rw [core_manifest hq.core]
  exact ht.2 ((core_missed hq.core).symm.trans hmissed)

theorem writeFile_writing (hstill : setting.env.Still) (hwork : changes.Workable look)
    (file : PreparedFile) (hfile : Sighted look changes file) (vectors : List Embedding)
    (left : List String) (t : RunState σ)
    (ht : Writing look changes s₀ home (file.path :: left) t) :
    Runs (writeFile setting plan file vectors) t
      (fun _ u => Writing look changes s₀ home left u) (StoreFailed s₀ home) := by
  obtain ⟨hwrites, hlook, htime⟩ := hfile
  rw [runs_writeFile]
  apply runs_imp _ _ _ (World.updateFile_called setting.env hstill setting.store file.path
    file.previousIds file.currentIds (withVectors file.fresh vectors) file.hasRecord t.world)
  · intro stats w hw
    refine ⟨ht.1.called hw _ (Manifest.keyed_recordIndexed _ _ _)
      fun hnow hs => hs.recordIndexed _ htime _ hnow, fun hmissed => ?_⟩
    have hbefore := ht.2 hmissed
    have hpath : (recordOf plan file).path = file.path := rfl
    have hhash : (recordOf plan file).contentHash = file.hash := rfl
    refine ⟨?_, ?_, ?_⟩
    · -- a path that was written before is another one, as the file was still left
      rintro p ⟨hp, hout⟩
      rw [Manifest.hashAt_recordIndexed, hpath, hhash]
      split
      · rename_i heq
        exact ⟨file.hash, heq ▸ hlook, rfl⟩
      · rename_i hne
        exact hbefore.kept p ⟨hp, fun h => by
          rcases List.mem_cons.mp h with h | h
          · exact hne h.symm
          · exact hout h⟩
    · intro p hp
      rw [Manifest.hashAt_recordIndexed, hpath, if_neg]
      · exact hbefore.dropped p hp
      · rintro rfl
        exact hwork.apart _ hwrites hp
    · intro p hp
      rw [Manifest.hashAt_recordIndexed, hpath, if_neg]
      · exact hbefore.rest p hp
      · rintro rfl
        exact hp (.inl hwrites)
  · intro e w hw
    exact ⟨(ht.1.called hw _ id fun _ hs => hs).toSince, e, rfl⟩

theorem writeBatch_writing (hstill : setting.env.Still) (hwork : changes.Workable look)
    (hready : Ready setting.stateDir home s₀.world.disk) (files : List PreparedFile)
    (hfiles : ∀ file ∈ files, Sighted look changes file) (left : List String) (t : RunState σ)
    (ht : Writing look changes s₀ home (files.map (·.path) ++ left) t) :
    Runs (writeBatch setting plan files) t
      (fun _ u => Stored s₀ home u ∧ Writing look changes s₀ home left u)
      (StoreFailed s₀ home) := by
  apply writeBatch_rule setting hstill plan files (fun _ _ _ rest u =>
    (∀ file ∈ rest, Sighted look changes file) ∧
      Writing look changes s₀ home (rest.map (·.path) ++ left) u)
  · intro failure vectors u hquiet _ _
    refine ⟨hfiles, Writing.quiet setting (t := t.begunBatch (files.map (·.path))) ?_ hquiet⟩
    exact ⟨ht.1.called ⟨_, _, _, rfl⟩ _ id fun _ hs => hs, ht.2⟩
  · rintro failure done vectors file rest u e _ _ ⟨hsighted, hu⟩
    refine ⟨fun f hf => hsighted f (List.mem_cons_of_mem _ hf),
      hu.missing ⟨since_addFailure hu.1.toSince _ _, hu.1.unread⟩ ?_⟩
    rw [core_addFailure]
  · rintro failure done vectors file rest u _ ⟨hsighted, hu⟩
    apply runs_imp _ _ _ (writeFile_writing setting plan hstill hwork file
      (hsighted file List.mem_cons_self) vectors (rest.map (·.path) ++ left) u hu)
    · exact fun _ v hv => ⟨fun f hf => hsighted f (List.mem_cons_of_mem _ hf), hv⟩
    · exact fun _ _ h => h
  · rintro failure done vectors u v ⟨_, hu⟩ hquiet
    have hv := Writing.quiet setting hu hquiet
    apply runs_imp _ _ _ (commitBatch_committed setting hstill done v (hready.of_same hv.1.same))
    · intro _ x hx
      refine ⟨hx.stored, hv.1.committed hx, fun hmissed => ?_⟩
      rw [show x.manifest = v.manifest from congrArg Core.manifest hx.core]
      exact hv.2 ((congrArg Core.missed hx.core).symm.trans hmissed)
    · exact fun _ _ h => h.elim
  · exact fun u v hu hquiet => ⟨hu.1.quiet setting hquiet, Writing.quiet setting hu.2 hquiet⟩

/-- A file that was seen, and is read at some time of the run, may be written. -/
theorem prepare_sighted (hwork : changes.Workable look)
    (hseen : Seen setting.root home s₀.world.disk look) {d : Disk}
    (hsame : Same home s₀.world.disk d) {item : WorkItem} (hwrites : changes.Writes item.path)
    {file : PreparedFile} (h : prepare setting plan.force d item = .ready file) :
    Sighted look changes file := by
  obtain ⟨hash, hlook⟩ := hwork.present _ hwrites
  obtain ⟨content, modified, hhash, hall⟩ := hseen _ hash hlook
  have htime := prepare_time setting h
  rw [prepare_read setting plan.force (hall d hsame)] at h
  obtain ⟨found, _, rfl⟩ := prepareContent_ready h
  refine ⟨hwrites, ?_, htime⟩
  rw [hhash]
  exact hlook

theorem Outstanding.take {pending : List PreparedFile} {next : Prepared} {todo : List Prepared}
    {t : RunState σ} (h : Outstanding look changes s₀ home pending (next :: todo) t) :
    Outstanding look changes s₀ home (takePrepared t pending next).2 todo
      (takePrepared t pending next).1 := by
  have hahead (file : PreparedFile) (hf : .ready file ∈ todo) : Sighted look changes file :=
    h.ahead file (List.mem_cons_of_mem _ hf)
  have hreadable (path : String) (hp : Prepared.unreadable path ∈ todo) : False :=
    h.readable path (List.mem_cons_of_mem _ hp)
  have hlater := since_takePrepared h.writing.1.toSince pending next
  cases next with
  | ready file =>
    refine ⟨h.stored, ⟨⟨hlater, h.writing.1.unread⟩, fun hmissed => ?_⟩, fun f hf => ?_, hahead,
      hreadable⟩
    · have hopen : (pending ++ [file]).map (·.path) ++ todo.map Prepared.path =
          pending.map (·.path) ++ (Prepared.ready file :: todo).map Prepared.path := by
        rw [List.map_append, List.append_assoc]
        rfl
      show Reworked look s₀.manifest t.manifest (fun p => changes.Writes p ∧
        p ∉ (pending ++ [file]).map (·.path) ++ todo.map Prepared.path) _ _
      rw [hopen]
      exact h.writing.2 hmissed
    · rcases List.mem_append.mp hf with hf | hf
      · exact h.batch f hf
      · rw [List.mem_singleton.mp hf]
        exact h.ahead file List.mem_cons_self
  | unreadable path => exact absurd List.mem_cons_self (h.readable path)
  | failed path e =>
    exact ⟨h.stored, h.writing.missing ⟨hlater, h.writing.1.unread⟩
      (congrArg Core.missed (core_addFailure t path e)), h.batch, hahead, hreadable⟩

/-- The files at some paths are prepared and written, until none is left. -/
theorem drain_writing (hstill : setting.env.Still) (hwork : changes.Workable look)
    (hready : Ready setting.stateDir home s₀.world.disk)
    (hseen : Seen setting.root home s₀.world.disk look) (m : Manifest) (paths : List String)
    (hpaths : ∀ p ∈ paths, changes.Writes p) (t : RunState σ)
    (hstored : Stored s₀ home t) (ht : Writing look changes s₀ home paths t) :
    Runs (drain setting plan paths.length { items := paths.map (WorkItem.ofPath m) }) t
      (fun ending u => Reading home s₀ u ∧
        (ending = .finished → Stored s₀ home u ∧ Writing look changes s₀ home [] u))
      (StoreFailed s₀ home) := by
  let read := prepare setting plan.force s₀.world.disk
  -- every item is a path that was seen, and is read the same at any time
  have hitem (item : WorkItem) (h : item ∈ paths.map (WorkItem.ofPath m)) :
      ∃ hash content modified, changes.Writes item.path ∧ look item.path = .present hash ∧
        Digest.contentHash content = hash ∧ ∀ d', Same home s₀.world.disk d' →
          d'.readFile (Path.join setting.root item.path) = .ok (content, modified) := by
    obtain ⟨p, hp, rfl⟩ := List.mem_map.mp h
    rw [WorkItem.ofPath_path]
    obtain ⟨hash, hlook⟩ := hwork.present p (hpaths p hp)
    obtain ⟨content, modified, hhash, hall⟩ := hseen p hash hlook
    exact ⟨hash, content, modified, hpaths p hp, hlook, hhash, hall⟩
  have hsame := Disk.SameBut.refl hready.leaf
  apply runs_imp _ _ _ (drain_rule setting plan read
    (fun pending todo u => Outstanding look changes s₀ home pending todo u)
    (StoreFailed s₀ home) (Reading home s₀) (paths.map (WorkItem.ofPath m)) ?_
    (fun _ _ _ _ h => h.take) ?_ ?_ _ _ t (fun _ h => h) ?_ ?_)
  · rintro ending u ⟨hfinished, hcancelled⟩
    cases ending with
    | finished =>
      exact ⟨(hfinished rfl).writing.1, fun _ => ⟨(hfinished rfl).stored, (hfinished rfl).writing⟩⟩
    | cancelled => exact ⟨hcancelled rfl, nofun⟩
  · exact fun _ _ h => h
  · intro pending todo u hu item hin
    obtain ⟨hash, content, modified, _, _, _, hall⟩ := hitem item hin
    rw [prepare_read setting plan.force (hall _ hu.writing.1.same)]
    exact (prepare_read setting plan.force (hall _ hsame)).symm
  · intro pending todo u _ hu _
    apply runs_imp _ _ _ (writeBatch_writing setting plan hstill hwork hready pending hu.batch
      (todo.map Prepared.path) u hu.writing)
    · exact fun _ v hv => ⟨hv.1, hv.2, nofun, hu.ahead, hu.readable⟩
    · exact fun _ _ h => h
  · exact fun _ _ _ h _ => h.writing.1
  · simp
  · have hmap : (paths.map (WorkItem.ofPath m)).map (fun item => (read item).path) = paths := by
      rw [List.map_map]
      refine (List.map_congr_left fun p _ => ?_).trans (List.map_id paths)
      show (prepare setting plan.force s₀.world.disk (WorkItem.ofPath m p)).path = p
      rw [prepare_path, WorkItem.ofPath_path]
    refine ⟨hstored, ?_, nofun, fun file h => ?_, fun path h => ?_⟩
    · show Writing look changes s₀ home (((paths.map (WorkItem.ofPath m)).map read).map _) t
      rw [List.map_map]
      exact hmap.symm ▸ ht
    · obtain ⟨item, hin, hprepared⟩ := List.mem_map.mp h
      obtain ⟨_, _, _, hwrites, _⟩ := hitem item hin
      exact prepare_sighted setting plan hwork hseen hsame hwrites hprepared
    · obtain ⟨item, hin, hprepared⟩ := List.mem_map.mp h
      obtain ⟨_, content, modified, _, _, _, hall⟩ := hitem item hin
      have hread : prepareContent setting.extractor setting.config.variants plan.force item
          content modified = .unreadable path :=
        (prepare_read setting plan.force (hall _ hsame)).symm.trans hprepared
      unfold prepareContent at hread
      split at hread <;> cases hread

/-- The batches of a run: it fails only in the store, and when it finishes without missing a file
the records are those of the changes. -/
theorem runBatches_records (hstill : setting.env.Still) (hwork : changes.Workable look)
    (hready : Ready setting.stateDir home s₀.world.disk)
    (hseen : Seen setting.root home s₀.world.disk look) :
    Runs (runBatches setting plan changes) s₀
      (fun ending t => Reading home s₀ t ∧ (ending = .finished → Stored s₀ home t ∧
        (t.core.missed = s₀.core.missed → Reworked look s₀.manifest t.manifest changes.Writes
          changes.Removes fun p => p ∈ changes.mentioned)))
      (StoreFailed s₀ home) := by
  -- from the end of deletions and renames on, what is left is gathered
  have hrest (reindex : List String) (hreindex : ∀ p ∈ reindex, changes.Writes p)
      (t : RunState σ) (hstored : Stored s₀ home t) (ht : Writing look changes s₀ home
        (sortedPaths (changes.added ++ changes.modified ++ reindex)) t) :
      Runs (drain setting plan (sortedPaths (changes.added ++ changes.modified ++ reindex)).length
        { items :=
            (sortedPaths (changes.added ++ changes.modified ++ reindex)).map
              (WorkItem.ofPath t.manifest) }) t
        (fun ending t => Reading home s₀ t ∧ (ending = .finished → Stored s₀ home t ∧
          (t.core.missed = s₀.core.missed → Reworked look s₀.manifest t.manifest changes.Writes
            changes.Removes fun p => p ∈ changes.mentioned))) (StoreFailed s₀ home) := by
    apply runs_imp _ _ _ (drain_writing setting plan hstill hwork hready hseen t.manifest _ ?_ t
      hstored ht)
    · rintro ending u ⟨hu, hfinished⟩
      refine ⟨hu, fun hending => ⟨(hfinished hending).1, fun hmissed => ?_⟩⟩
      have hwork := (hfinished hending).2.2 hmissed
      exact ⟨fun p hp => hwork.kept p ⟨hp, List.not_mem_nil⟩, hwork.dropped, fun p hp =>
        hwork.rest p fun h => hp ((changes.mentioned_iff p).mpr h)⟩
    · exact fun _ _ h => h
    · exact fun p hp => ChangeSet.writes_of_left hreindex hp
  have hsince : Reading home s₀ s₀ := ⟨Since.refl hready.leaf, rfl⟩
  apply runBatches_rule setting plan changes (fun reindex t =>
    (∀ p ∈ reindex, changes.Writes p) ∧ Stored s₀ home t ∧ Writing look changes s₀ home
      (sortedPaths (changes.added ++ changes.modified ++ reindex)) t)
  · exact fun _ => ⟨hsince, fun h => by cases h⟩
  · -- without deletions and renames all that is to be written is left
    intro hdeleted hrenamed
    refine ⟨fun _ h => absurd h List.not_mem_nil, .inr ⟨rfl, rfl⟩, hsince,
      fun _ => ⟨?_, ?_, fun _ _ => rfl⟩⟩
    · rintro p ⟨hp, hout⟩
      rw [mem_sortedPaths, List.append_nil, List.mem_append] at hout
      rcases hp with hp | hp | ⟨e, he, _⟩
      · exact absurd (.inl hp) hout
      · exact absurd (.inr hp) hout
      · rw [hrenamed] at he
        exact absurd he List.not_mem_nil
    · rintro p (hp | ⟨e, he, _⟩)
      · rw [hdeleted] at hp
        exact absurd hp List.not_mem_nil
      · rw [hrenamed] at he
        exact absurd he List.not_mem_nil
  · apply runs_imp _ _ _ (applyStructural_writing setting plan hstill hwork hready hseen)
    · rintro reindex t ⟨hreindex, hstored, hleft⟩
      refine ⟨hreindex, hstored, hleft _ fun p _ h => ?_⟩
      rw [mem_sortedPaths, List.mem_append, List.mem_append, or_assoc]
      exact h
    · exact fun _ _ h => h
  · exact fun reindex t ht => hrest reindex ht.1 t ht.2.1 ht.2.2

theorem runBatches_idle (hnone : changes.isEmpty = true) (hcalm : s₀.world.isCancelled = false) :
    (runBatches setting plan changes).run s₀ = (.ok .finished, s₀) := by
  obtain ⟨hadded, hmodified, hdeleted, hrenamed⟩ := (ChangeSet.isEmpty_iff changes).mp hnone
  obtain ⟨ending, t, hrun, hfinished, ht⟩ := runs_returns (s := s₀)
    (Q := fun ending t => ending = .finished ∧ t = s₀) (runBatches setting plan changes) (by
      rw [runBatches_plain setting plan changes _ _ s₀ hdeleted hrenamed hcalm, hadded, hmodified,
        List.append_nil, sortedPaths_nil, List.map_nil, List.length_nil, drain]
      unfold drain.finish
      rw [List.isEmpty_nil, if_pos rfl, runs_pure]
      exact ⟨rfl, rfl⟩)
  rw [hrun, hfinished, ht]

end Batches

end RunState

end CodeIndex
