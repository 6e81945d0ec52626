import CodeIndex.Proofs.State.Files

/-!
The saves of a state directory as a ledger: what each save of the manifest brought, which of them
the checkpoint has recorded, and what may be saved next. The ledger holds what the two files hold,
and how they came to it.
-/

namespace CodeIndex

inductive RecordEdit where
  | forget (path : String) (now : Duration)
  | relocate (source target : String) (commit : Option String) (diverged : Bool) (now : Duration)
  | enter (record : FileRecord) (now : Duration)

namespace RecordEdit

/-- The files that a batch lists for an edit. -/
def files : RecordEdit → List String
  | forget path _ => [path]
  | relocate source target .. => [source, target]
  | enter record _ => [record.path]

def apply (m : Manifest) : RecordEdit → Manifest
  | forget path now => m.removeFile path now
  | relocate source target commit diverged now =>
    let cleared := if (m.get? target).isSome then m.removeFile target now else m
    (cleared.renameFile source target commit now).setDiverged target diverged
  | enter record now => m.recordIndexed record now

end RecordEdit

/-- What a save of the manifest brings: the edits of a batch, or flags that are settled. -/
inductive Work where
  | batch (edits : List RecordEdit)
  | settling (found : Std.ExtTreeSet String) (now : Duration)

namespace Work

/-- The files that are listed for it. -/
def files : Work → List String
  | batch edits => edits.flatMap RecordEdit.files
  | settling .. => []

def apply (m : Manifest) : Work → Manifest
  | batch edits => edits.foldl RecordEdit.apply m
  | settling found now => m.settleDivergence found now

end Work

/-- A save of the manifest. -/
structure Posting where
  run : Nat
  runId : String
  work : Work
  index : Option Nat := none

structure Shift where
  run : Nat
  head : Option String
  clean : Prop

namespace Checkpoint

def Active (c : Checkpoint) : Prop := c.status = .running ∨ c.status = .checkpointed

def opening (id : String) (previous : Option Checkpoint) (head : Option String)
    (now : Timestamp) : Checkpoint :=
  ({ newRun id (previous.bind (·.lastIndexedCommit)) none now with
    targetCommit := head } : Checkpoint).begin now

def resumed (c : Checkpoint) (head : Option String) (now : Timestamp) : Checkpoint :=
  ({ c with targetCommit := head } : Checkpoint).begin now

/-- What a run saves in the place of a checkpoint. The ids are those of the runs that have begun,
and `mine` says that the checkpoint is of the run itself. -/
inductive Follows (shift : Shift) (ids : List String) (mine : Prop) :
    Option Checkpoint → Checkpoint → Prop where
  | opening (previous : Option Checkpoint) (id : String) (now : Timestamp) (hmine : ¬ mine)
      (hover : ∀ c, previous = some c → c.status = .completed) (hid : id ∉ ids) :
      Follows shift ids mine previous (opening id previous shift.head now)
  | resumed (c : Checkpoint) (now : Timestamp) (hmine : ¬ mine)
      (hstatus : c.status.isResumable = true) :
      Follows shift ids mine (some c) (c.resumed shift.head now)
  | recorded (c : Checkpoint) (files : List String) (now : Timestamp) (hmine : mine)
      (hactive : c.Active) :
      Follows shift ids mine (some c) (c.recordBatch c.nextBatch files now)
  | completed (c : Checkpoint) (advance : Bool) (now : Timestamp) (hmine : mine)
      (hactive : c.Active) (htarget : c.targetCommit = shift.head)
      (hclean : advance = true → shift.clean) :
      Follows shift ids mine (some c) (c.complete advance now)
  | failed (c : Checkpoint) (now : Timestamp) (hmine : mine) (hactive : c.Active) :
      Follows shift ids mine (some c) (c.fail now)
  | recordedFailed (c : Checkpoint) (files : List String) (now later : Timestamp) (hmine : mine)
      (hactive : c.Active) :
      Follows shift ids mine (some c) ((c.recordBatch c.nextBatch files now).fail later)

/-- The commit that an index reflects changes only as a run is complete, without a failed or
unreadable file, and to the commit that the run detects as checked out. -/
theorem Follows.advances {shift : Shift} {ids : List String} {mine : Prop}
    {previous : Option Checkpoint} {c : Checkpoint} (h : Follows shift ids mine previous c)
    (hmoved : c.lastIndexedCommit ≠ previous.bind (·.lastIndexedCommit)) :
    c.status = .completed ∧ shift.clean ∧ c.lastIndexedCommit = shift.head := by
  cases h with
  | completed c advance now hmine hactive htarget hclean =>
    cases advance with
    | false => exact absurd rfl hmoved
    | true =>
      have hadvanced : (c.complete true now).lastIndexedCommit =
          c.targetCommit.or c.lastIndexedCommit := rfl
      cases hc : c.targetCommit with
      | none =>
        rw [hc] at hadvanced
        exact absurd hadvanced hmoved
      | some commit =>
        rw [hc] at hadvanced
        exact ⟨rfl, hclean rfl, hadvanced.trans (hc.symm.trans htarget)⟩
  | _ => exact absurd rfl hmoved

end Checkpoint

/-- The saves of a state directory so far. -/
structure Ledger where
  closed : List Posting := []
  ahead : List Posting := []
  checkpoint : Option Checkpoint := none
  ids : List String := []
  holder : Option Nat := none

namespace Ledger

/-- What all the saves of the manifest brought, in turn. -/
def works (l : Ledger) : List Work := (l.closed ++ l.ahead).map (·.work)

/-- The runs that made them, in turn. -/
def runs (l : Ledger) : List Nat := (l.closed ++ l.ahead).map (·.run)

/-- The manifest that was saved last; before any save it is empty. -/
def manifest (l : Ledger) : Manifest := l.works.foldl Work.apply .empty

def manifest? (l : Ledger) : Option Manifest := if l.works = [] then none else some l.manifest

def records (l : Ledger) (id : String) : List Posting :=
  l.closed.filter fun p => p.index.isSome && p.runId == id

def recordCount (l : Ledger) : Nat := l.closed.countP (·.index.isSome)

def post (l : Ledger) (p : Posting) : Ledger := { l with ahead := l.ahead ++ [p] }

def close (l : Ledger) (c : Checkpoint) : Ledger :=
  { l with
    closed := l.closed ++ l.ahead
    ahead := []
    checkpoint := some c }

/-- The ledger once the last of the saves ahead is recorded as a batch. -/
def record (l : Ledger) (ahead : List Posting) (p : Posting) (index : Nat) (c : Checkpoint) :
    Ledger :=
  { l with
    closed := l.closed ++ ahead ++ [{ p with index := some index }]
    ahead := []
    checkpoint := some c }

/-- A save of a run: it begins by saving the checkpoint, and has one save of the manifest ahead of
the checkpoint at most. -/
inductive Step (shift : Shift) (l : Ledger) : Ledger → Prop where
  | opening (id : String) (now : Timestamp) (hholder : ∀ r, l.holder = some r → r < shift.run)
      (hover : ∀ c, l.checkpoint = some c → c.status = .completed) (hid : id ∉ l.ids)
      (hnow : now.Valid) :
      Step shift l { l with
        checkpoint := some (.opening id l.checkpoint shift.head now)
        ids := l.ids ++ [id]
        holder := some shift.run }
  | resumed (c : Checkpoint) (now : Timestamp) (hholder : ∀ r, l.holder = some r → r < shift.run)
      (hc : l.checkpoint = some c) (hstatus : c.status.isResumable = true) (hnow : now.Valid) :
      Step shift l { l with
        checkpoint := some (c.resumed shift.head now)
        holder := some shift.run }
  | posted (c : Checkpoint) (work : Work) (hholder : l.holder = some shift.run)
      (hc : l.checkpoint = some c) (hlevel : ∀ p ∈ l.ahead, p.run < shift.run)
      (hfits : (work.apply l.manifest).Storable) :
      Step shift l (l.post ⟨shift.run, c.runId, work, none⟩)
  | recorded (c : Checkpoint) (ahead : List Posting) (edits : List RecordEdit) (now : Timestamp)
      (hholder : l.holder = some shift.run) (hc : l.checkpoint = some c) (hactive : c.Active)
      (hahead : l.ahead = ahead ++ [⟨shift.run, c.runId, .batch edits, none⟩])
      (hnow : now.Valid) :
      Step shift l (l.record ahead ⟨shift.run, c.runId, .batch edits, none⟩ c.nextBatch
        (c.recordBatch c.nextBatch (edits.flatMap RecordEdit.files) now))
  | completed (c : Checkpoint) (advance : Bool) (now : Timestamp)
      (hholder : l.holder = some shift.run) (hc : l.checkpoint = some c) (hactive : c.Active)
      (htarget : c.targetCommit = shift.head) (hclean : advance = true → shift.clean)
      (hnow : now.Valid) :
      Step shift l (l.close (c.complete advance now))
  | failed (c : Checkpoint) (now : Timestamp) (hholder : l.holder = some shift.run)
      (hc : l.checkpoint = some c) (hactive : c.Active) (hnow : now.Valid) :
      Step shift l { l with checkpoint := some (c.fail now) }
  | recordedFailed (c : Checkpoint) (ahead : List Posting) (edits : List RecordEdit)
      (now later : Timestamp) (hholder : l.holder = some shift.run) (hc : l.checkpoint = some c)
      (hactive : c.Active)
      (hahead : l.ahead = ahead ++ [⟨shift.run, c.runId, .batch edits, none⟩])
      (hlater : later.Valid) :
      Step shift l (l.record ahead ⟨shift.run, c.runId, .batch edits, none⟩ c.nextBatch
        ((c.recordBatch c.nextBatch (edits.flatMap RecordEdit.files) now).fail later))

/-- What a checkpoint says of its run is what the ledger has of it. -/
structure Tells (l : Ledger) (c : Checkpoint) : Prop where
  last : c.lastCompletedBatch = (l.records c.runId).getLast?.bind (·.index)
  files : ∀ path, path ∈ c.processedFiles ↔ ∃ p ∈ l.records c.runId, path ∈ p.work.files

def Numbered (l : Ledger) : Prop :=
  ∀ id, (l.records id).map (·.index) = (List.range (l.records id).length).map some

structure Sound (l : Ledger) : Prop where
  numbered : l.Numbered
  tells : ∀ c, l.checkpoint = some c → l.Tells c
  known : ∀ c, l.checkpoint = some c → c.runId ∈ l.ids
  owned : ∀ p ∈ l.closed ++ l.ahead, p.runId ∈ l.ids
  unrecorded : ∀ p ∈ l.ahead, p.index = none
  ordered : l.runs.Pairwise (· ≤ ·)
  latest : ∀ r ∈ l.runs, ∃ h, l.holder = some h ∧ r ≤ h
  lead : l.ahead.Pairwise (·.run < ·.run)
  fits : l.manifest.Storable
  dated : ∀ c, l.checkpoint = some c →
    c.schemaVersion = Checkpoint.currentSchema ∧ c.startedAt.Valid ∧ c.timestamp.Valid
  begun : ∀ c, l.checkpoint = some c → c.status ≠ .notStarted

variable {shift : Shift} {l l' : Ledger} {c : Checkpoint}

theorem empty_sound : Sound {} where
  numbered _ := rfl
  tells c h := by cases h
  known c h := by cases h
  owned p h := by cases h
  unrecorded p h := by cases h
  ordered := List.Pairwise.nil
  latest r h := by cases h
  lead := List.Pairwise.nil
  fits := Manifest.empty_storable
  dated c h := by cases h
  begun c h := by cases h

theorem records_nil (id : String) (h : ∀ p ∈ l.closed, p.runId ≠ id) : l.records id = [] := by
  unfold records
  rw [List.filter_eq_nil_iff]
  intro p hp
  simp [h p hp]

theorem records_close (h : l.Sound) (c : Checkpoint) (id : String) :
    (l.close c).records id = l.records id := by
  have hnone : l.ahead.filter (fun p => p.index.isSome && p.runId == id) = [] := by
    rw [List.filter_eq_nil_iff]
    intro p hp
    simp [h.unrecorded p hp]
  unfold records close
  dsimp only
  rw [List.filter_append, hnone, List.append_nil]

theorem records_record (h : l.Sound) {ahead : List Posting} {p : Posting} (index : Nat)
    (c : Checkpoint) (hahead : l.ahead = ahead ++ [p]) (id : String) :
    (l.record ahead p index c).records id =
      l.records id ++ if p.runId = id then [{ p with index := some index }] else [] := by
  have hnone : ahead.filter (fun p => p.index.isSome && p.runId == id) = [] := by
    rw [List.filter_eq_nil_iff]
    intro q hq
    simp [h.unrecorded q (by rw [hahead]; exact List.mem_append_left _ hq)]
  unfold records record
  dsimp only
  rw [List.filter_append, List.filter_append, hnone, List.append_nil, List.filter_singleton]
  by_cases hid : p.runId = id
  · simp [hid]
  · simp [hid, beq_eq_false_iff_ne.mpr hid]

theorem works_record {ahead : List Posting} {p : Posting} (index : Nat) (c : Checkpoint)
    (hahead : l.ahead = ahead ++ [p]) : (l.record ahead p index c).works = l.works := by
  unfold works record
  rw [hahead]
  simp

theorem runs_record {ahead : List Posting} {p : Posting} (index : Nat) (c : Checkpoint)
    (hahead : l.ahead = ahead ++ [p]) : (l.record ahead p index c).runs = l.runs := by
  unfold runs record
  rw [hahead]
  simp

theorem recordCount_record (h : l.Sound) {ahead : List Posting} {p : Posting} (index : Nat)
    (c : Checkpoint) (hahead : l.ahead = ahead ++ [p]) :
    (l.record ahead p index c).recordCount = l.recordCount + 1 := by
  have hnone : ahead.countP (·.index.isSome) = 0 := by
    rw [List.countP_eq_zero]
    intro q hq
    simp [h.unrecorded q (by rw [hahead]; exact List.mem_append_left _ hq)]
  unfold recordCount record
  dsimp only
  rw [List.countP_append, List.countP_append, hnone]
  rfl

/-- A save of the manifest makes it what the work makes of the one before. -/
theorem manifest_post (l : Ledger) (p : Posting) :
    (l.post p).manifest = p.work.apply l.manifest := by
  unfold manifest works post
  dsimp only
  rw [← List.append_assoc, List.map_append, List.foldl_append]
  rfl

theorem manifest?_post (l : Ledger) (p : Posting) :
    (l.post p).manifest? = some (p.work.apply l.manifest) := by
  rw [← manifest_post, manifest?, if_neg]
  unfold works post
  simp

theorem works_close (l : Ledger) (c : Checkpoint) : (l.close c).works = l.works := by
  unfold works close
  rw [List.append_nil]

theorem runs_close (l : Ledger) (c : Checkpoint) : (l.close c).runs = l.runs := by
  unfold runs close
  rw [List.append_nil]

theorem runs_post (l : Ledger) (p : Posting) : (l.post p).runs = l.runs ++ [p.run] := by
  unfold runs post
  rw [← List.append_assoc, List.map_append]
  rfl

theorem recordCount_close (h : l.Sound) (c : Checkpoint) :
    (l.close c).recordCount = l.recordCount := by
  have hnone : l.ahead.countP (·.index.isSome) = 0 := by
    rw [List.countP_eq_zero]
    intro p hp
    simp [h.unrecorded p hp]
  unfold recordCount close
  dsimp only
  rw [List.countP_append, hnone, Nat.add_zero]

theorem manifest?_congr {l l' : Ledger} (h : l'.works = l.works) : l'.manifest? = l.manifest? := by
  unfold manifest? manifest
  rw [h]

/-- The number of the next batch is the number of those recorded. -/
theorem Sound.nextBatch (h : l.Sound) (hc : l.checkpoint = some c) :
    c.nextBatch = (l.records c.runId).length := by
  have hlast := (h.tells c hc).last
  have hnumbered := h.numbered c.runId
  rcases List.eq_nil_or_concat (l.records c.runId) with hnil | ⟨before, p, hcons⟩
  · rw [hnil] at hlast ⊢
    unfold Checkpoint.nextBatch
    rw [hlast]
    rfl
  · rw [List.concat_eq_append] at hcons
    rw [hcons, List.map_append, List.length_append, List.length_singleton, List.range_succ,
      List.map_append] at hnumbered
    have hindex : p.index = some before.length := by
      have htail := (List.append_inj' hnumbered rfl).2
      simpa using htail
    rw [hcons] at hlast ⊢
    unfold Checkpoint.nextBatch
    rw [hlast]
    simp [hindex]

theorem records_le_recordCount (l : Ledger) (id : String) :
    (l.records id).length ≤ l.recordCount := by
  unfold records recordCount
  rw [← List.countP_eq_length_filter]
  apply List.countP_mono_left
  intro p _ hp
  simp only [Bool.and_eq_true] at hp
  exact hp.1

/-- A checkpoint with a batch fewer than fits the file fits it. -/
theorem Sound.storable (h : l.Sound) (hc : l.checkpoint = some c)
    (hfew : l.recordCount < Nat.pow 2 64) : c.Storable where
  schema := (h.dated c hc).1
  batch n hn := by
    have hnext := h.nextBatch hc
    have hle := l.records_le_recordCount c.runId
    unfold Checkpoint.nextBatch at hnext
    rw [hn] at hnext
    dsimp only at hnext
    omega
  started := (h.dated c hc).2.1
  timestamp := (h.dated c hc).2.2

section Record

variable {ahead : List Posting} {edits : List RecordEdit} {c' : Checkpoint}

/-- The checkpoint with the next batch tells what the ledger has once it is recorded. -/
theorem tells_record (h : l.Sound) (hc : l.checkpoint = some c) {p : Posting}
    (hahead : l.ahead = ahead ++ [p]) (hid : p.runId = c.runId) (now : Timestamp) :
    (l.record ahead p c.nextBatch c').Tells (c.recordBatch c.nextBatch p.work.files now) := by
  have hrecords : (l.record ahead p c.nextBatch c').records c.runId =
      l.records c.runId ++ [{ p with index := some c.nextBatch }] := by
    rw [records_record h _ _ hahead, if_pos hid]
  constructor
  · show some c.nextBatch = ((l.record ahead p c.nextBatch c').records c.runId).getLast?.bind _
    rw [hrecords, List.getLast?_append]
    rfl
  · intro path
    show path ∈ c.processedFiles.insertMany p.work.files ↔
      ∃ q ∈ (l.record ahead p c.nextBatch c').records c.runId, path ∈ q.work.files
    rw [hrecords, Std.ExtTreeSet.mem_insertMany_list, (h.tells c hc).files path]
    simp only [List.contains_iff_mem, List.mem_append, List.mem_singleton, or_and_right, exists_or,
      exists_eq_left]

theorem numbered_record (h : l.Sound) (hc : l.checkpoint = some c) {p : Posting}
    (hahead : l.ahead = ahead ++ [p]) (hid : p.runId = c.runId) :
    (l.record ahead p c.nextBatch c').Numbered := by
  intro id
  rw [records_record h _ _ hahead]
  split
  · rename_i heq
    have hnext := h.nextBatch hc
    rw [← hid, heq] at hnext
    rw [List.map_append, h.numbered id, List.length_append, List.length_singleton,
      List.range_succ, List.map_append, hnext]
    rfl
  · rw [List.append_nil]
    exact h.numbered id

/-- A ledger stays sound when a batch is recorded by a checkpoint that tells of it. -/
theorem Sound.record (h : l.Sound) (hc : l.checkpoint = some c) {p : Posting}
    (hahead : l.ahead = ahead ++ [p]) (hid : p.runId = c.runId) (hrun : c'.runId = c.runId)
    (htells : (l.record ahead p c.nextBatch c').Tells c')
    (hdated : c'.schemaVersion = c.schemaVersion ∧ c'.startedAt = c.startedAt ∧
      c'.timestamp.Valid) (hbegun : c'.status ≠ .notStarted) :
    (l.record ahead p c.nextBatch c').Sound where
  numbered := numbered_record h hc hahead hid
  tells d hd := by cases hd; exact htells
  known d hd := by cases hd; exact hrun ▸ h.known c hc
  owned q hq := by
    have hin : ∀ q ∈ l.closed ++ ahead ++ [p], q.runId ∈ l.ids := by
      rw [List.append_assoc, ← hahead]
      exact h.owned
    rw [Ledger.record, List.append_nil, List.mem_append] at hq
    rcases hq with hq | hq
    · exact hin q (List.mem_append_left _ hq)
    · rw [List.mem_singleton.mp hq]
      exact hin p (List.mem_append_right _ (List.mem_singleton_self p))
  unrecorded q hq := by cases hq
  ordered := by
    rw [runs_record _ _ hahead]
    exact h.ordered
  latest := by
    rw [runs_record _ _ hahead]
    exact h.latest
  lead := List.Pairwise.nil
  fits := by
    rw [manifest, works_record _ _ hahead]
    exact h.fits
  dated d hd := by
    cases hd
    obtain ⟨hschema, hstarted, _⟩ := h.dated c hc
    exact ⟨hdated.1.trans hschema, hdated.2.1 ▸ hstarted, hdated.2.2⟩
  begun d hd := by cases hd; exact hbegun

end Record

/-- Another checkpoint that tells the same leaves a ledger sound. -/
theorem Sound.saved (h : l.Sound) (c' : Checkpoint) (ids : List String) (holder : Option Nat)
    (hids : ∀ id ∈ l.ids, id ∈ ids)
    (hholder : ∀ r, l.holder = some r → ∃ h, holder = some h ∧ r ≤ h) (hknown : c'.runId ∈ ids)
    (htells : l.Tells c')
    (hdated : c'.schemaVersion = Checkpoint.currentSchema ∧ c'.startedAt.Valid ∧
      c'.timestamp.Valid) (hbegun : c'.status ≠ .notStarted) :
    Sound { l with checkpoint := some c', ids := ids, holder := holder } where
  numbered := h.numbered
  tells d hd := by cases hd; exact ⟨htells.last, htells.files⟩
  known d hd := by cases hd; exact hknown
  owned p hp := hids _ (h.owned p hp)
  unrecorded := h.unrecorded
  ordered := h.ordered
  latest r hr := by
    obtain ⟨held, hheld, hle⟩ := h.latest r hr
    obtain ⟨later, hlater, hle'⟩ := hholder held hheld
    exact ⟨later, hlater, Nat.le_trans hle hle'⟩
  lead := h.lead
  fits := h.fits
  dated d hd := by cases hd; exact hdated
  begun d hd := by cases hd; exact hbegun

/-- A save of the manifest by the run that holds the lock keeps a ledger sound, if the saves ahead
are of earlier runs. -/
theorem Sound.post (h : l.Sound) (hc : l.checkpoint = some c) {run : Nat}
    (hholder : l.holder = some run) (hlevel : ∀ p ∈ l.ahead, p.run < run) {work : Work}
    (hfits : (work.apply l.manifest).Storable) : (l.post ⟨run, c.runId, work, none⟩).Sound := by
  -- no run has posted that began after the one that holds the checkpoint
  have hlatest (r : Nat) (hr : r ∈ l.runs) : r ≤ run := by
    obtain ⟨held, hheld, hle⟩ := h.latest r hr
    rw [hholder] at hheld
    cases hheld
    exact hle
  refine ⟨h.numbered, fun d hd => ⟨(h.tells d hd).last, (h.tells d hd).files⟩, h.known,
    fun p hp => ?_, fun p hp => ?_, ?_, fun r hr => ?_, ?_, ?_, h.dated, h.begun⟩
  · rw [Ledger.post, ← List.append_assoc, List.mem_append] at hp
    rcases hp with hp | hp
    · exact h.owned p hp
    · rw [List.mem_singleton.mp hp]
      exact h.known c hc
  · rcases List.mem_append.mp hp with hp | hp
    · exact h.unrecorded p hp
    · rw [List.mem_singleton.mp hp]
  · rw [runs_post]
    refine List.pairwise_append.mpr ⟨h.ordered, List.pairwise_singleton _ _,
      fun r hr q hq => ?_⟩
    rw [List.mem_singleton.mp hq]
    exact hlatest r hr
  · refine ⟨run, hholder, ?_⟩
    rw [runs_post] at hr
    rcases List.mem_append.mp hr with hr | hr
    · exact hlatest r hr
    · exact Nat.le_of_eq (List.mem_singleton.mp hr)
  · refine List.pairwise_append.mpr ⟨h.lead, List.pairwise_singleton _ _, fun p hp q hq => ?_⟩
    rw [List.mem_singleton.mp hq]
    exact hlevel p hp
  · rw [manifest_post]
    exact hfits

theorem Sound.close (h : l.Sound) {c' : Checkpoint} (hknown : c'.runId ∈ l.ids)
    (htells : l.Tells c')
    (hdated : c'.schemaVersion = Checkpoint.currentSchema ∧ c'.startedAt.Valid ∧
      c'.timestamp.Valid) (hbegun : c'.status ≠ .notStarted) : (l.close c').Sound := by
  refine ⟨fun id => ?_, fun d hd => ?_, fun d hd => ?_, fun p hp => ?_, fun p hp => ?_,
    ?_, ?_, List.Pairwise.nil, ?_, fun d hd => ?_, fun d hd => ?_⟩
  · rw [records_close h]
    exact h.numbered id
  · cases hd
    constructor
    · rw [records_close h]
      exact htells.last
    · rw [records_close h]
      exact htells.files
  · cases hd
    exact hknown
  · rw [Ledger.close, List.append_nil] at hp
    exact h.owned p hp
  · cases hp
  · rw [runs_close]
    exact h.ordered
  · rw [runs_close]
    exact h.latest
  · rw [manifest, works_close]
    exact h.fits
  · cases hd
    exact hdated
  · cases hd
    exact hbegun

theorem Step.sound (h : Step shift l l') (hl : l.Sound) : l'.Sound := by
  cases h with
  | opening id now hholder hover hid hnow =>
    -- the id of the run is a new one, so that nothing is recorded under it
    have hnone : l.records id = [] := records_nil id fun p hp heq =>
      hid (heq ▸ hl.owned p (List.mem_append_left _ hp))
    refine hl.saved _ _ _ (fun i hi => List.mem_append_left _ hi)
      (fun r hr => ⟨_, rfl, Nat.le_of_lt (hholder r hr)⟩)
      (List.mem_append_right _ (List.mem_singleton_self id)) ⟨?_, fun path => ?_⟩
      ⟨rfl, hnow, hnow⟩ (by intro h; cases h)
    · show none = (l.records id).getLast?.bind _
      rw [hnone]
      rfl
    · show path ∈ (∅ : Std.ExtTreeSet String) ↔ ∃ p ∈ l.records id, _
      rw [hnone]
      simp
  | resumed c now hholder hc hstatus hnow =>
    have htells := hl.tells c hc
    exact hl.saved _ _ _ (fun _ h => h) (fun r hr => ⟨_, rfl, Nat.le_of_lt (hholder r hr)⟩)
      (hl.known c hc) ⟨htells.last, htells.files⟩
      ⟨(hl.dated c hc).1, (hl.dated c hc).2.1, hnow⟩ (by intro h; cases h)
  | posted c work hholder hc hlevel hfits => exact hl.post hc hholder hlevel hfits
  | recorded c ahead edits now hholder hc hactive hahead hnow =>
    exact hl.record hc hahead rfl rfl (tells_record hl hc hahead rfl now) ⟨rfl, rfl, hnow⟩
      (by intro h; cases h)
  | completed c advance now hholder hc hactive htarget hclean hnow =>
    have htells := hl.tells c hc
    exact hl.close (hl.known c hc) ⟨htells.last, htells.files⟩
      ⟨(hl.dated c hc).1, (hl.dated c hc).2.1, hnow⟩ (by intro h; cases h)
  | failed c now hholder hc hactive hnow =>
    have htells := hl.tells c hc
    exact hl.saved _ _ _ (fun _ h => h) (fun r hr => ⟨r, hr, Nat.le_refl r⟩) (hl.known c hc)
      ⟨htells.last, htells.files⟩
      ⟨(hl.dated c hc).1, (hl.dated c hc).2.1, hnow⟩ (by intro h; cases h)
  | recordedFailed c ahead edits now later hholder hc hactive hahead hlater =>
    have htells : (l.record ahead ⟨shift.run, c.runId, .batch edits, none⟩ c.nextBatch
        ((c.recordBatch c.nextBatch (edits.flatMap RecordEdit.files) now).fail later)).Tells
          (c.recordBatch c.nextBatch (edits.flatMap RecordEdit.files) now) :=
      tells_record hl hc hahead rfl now
    exact hl.record hc hahead rfl rfl ⟨htells.last, htells.files⟩ ⟨rfl, rfl, hlater⟩
      (by intro h; cases h)

theorem Step.holder (h : Step shift l l') : l'.holder = some shift.run := by
  cases h with
  | opening | resumed => rfl
  | posted c work hholder | recorded c ahead edits now hholder | completed c advance now hholder
  | failed c now hholder | recordedFailed c ahead edits now later hholder => exact hholder

theorem Step.ids (h : Step shift l l') : l.ids ⊆ l'.ids := by
  cases h with
  | opening => exact List.subset_append_left _ _
  | _ => exact fun _ hid => hid

/-- A save leaves the checkpoint or puts one in its place that may follow it. -/
theorem Step.follows (h : Step shift l l') :
    l'.checkpoint = l.checkpoint ∨
      ∃ c, l'.checkpoint = some c ∧
        Checkpoint.Follows shift l.ids (l.holder = some shift.run) l.checkpoint c := by
  -- a run that begins has not saved the checkpoint before
  have hnew (hholder : ∀ r, l.holder = some r → r < shift.run) : l.holder ≠ some shift.run :=
    fun heq => Nat.lt_irrefl _ (hholder _ heq)
  cases h with
  | opening id now hholder hover hid hnow =>
    exact .inr ⟨_, rfl, .opening _ id now (hnew hholder) hover hid⟩
  | resumed c now hholder hc hstatus hnow =>
    exact .inr ⟨_, rfl, hc ▸ .resumed c now (hnew hholder) hstatus⟩
  | posted c work hholder hc hlevel hfits => exact .inl rfl
  | recorded c ahead edits now hholder hc hactive hahead hnow =>
    exact .inr ⟨_, rfl, hc ▸ .recorded c _ now hholder hactive⟩
  | completed c advance now hholder hc hactive htarget hclean hnow =>
    exact .inr ⟨_, rfl, hc ▸ .completed c advance now hholder hactive htarget hclean⟩
  | failed c now hholder hc hactive hnow => exact .inr ⟨_, rfl, hc ▸ .failed c now hholder hactive⟩
  | recordedFailed c ahead edits now later hholder hc hactive hahead hlater =>
    exact .inr ⟨_, rfl, hc ▸ .recordedFailed c _ now later hholder hactive⟩

/-- What becomes of a checkpoint in a moment of a run. -/
structure Moves (shift : Shift) (l l' : Ledger) : Prop where
  step : l' = l ∨ Step shift l l'
  follows : l'.checkpoint = l.checkpoint ∨
    ∃ c, l'.checkpoint = some c ∧
      Checkpoint.Follows shift l.ids (l.holder = some shift.run) l.checkpoint c
  numbered : l'.Numbered
  tells : ∀ c, l'.checkpoint = some c → l'.Tells c
  begun : ∀ c, l'.checkpoint = some c → c.status ≠ .notStarted
  advances : ∀ c, l'.checkpoint = some c →
    c.lastIndexedCommit ≠ l.checkpoint.bind (·.lastIndexedCommit) →
      c.status = .completed ∧ shift.clean ∧ c.lastIndexedCommit = shift.head

theorem Sound.moves (h : l'.Sound) (hstep : l' = l ∨ Step shift l l') : l.Moves shift l' := by
  have hfollows : l'.checkpoint = l.checkpoint ∨ ∃ c, l'.checkpoint = some c ∧
      Checkpoint.Follows shift l.ids (l.holder = some shift.run) l.checkpoint c := by
    rcases hstep with rfl | hstep
    · exact .inl rfl
    · exact hstep.follows
  refine ⟨hstep, hfollows, h.numbered, h.tells, h.begun, fun c hc hmoved => ?_⟩
  rcases hfollows with hsame | ⟨c', hc', hfollows⟩
  · rw [← hsame, hc] at hmoved
    exact absurd rfl hmoved
  · cases hc.symm.trans hc'
    exact hfollows.advances hmoved

/-- A file that a checkpoint lists as processed has its update in the manifest. -/
theorem Tells.updated (h : l.Tells c) (path : String) (hpath : path ∈ c.processedFiles) :
    ∃ work ∈ l.works, path ∈ work.files := by
  obtain ⟨p, hp, hin⟩ := (h.files path).mp hpath
  exact ⟨p.work, List.mem_map_of_mem (List.mem_append_left _ (List.mem_of_mem_filter hp)), hin⟩

end Ledger

end CodeIndex
