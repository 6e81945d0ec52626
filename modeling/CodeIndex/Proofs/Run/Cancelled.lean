import CodeIndex.Proofs.Run.Sending

namespace CodeIndex

open StateDir

structure RunSetting.Cancelling (setting : RunSetting MemoryStore) : Prop where
  still : setting.env.Still
  memory : setting.store = MemoryStore.calls
  store : ∀ call n, setting.env.atStore call n = .proceed
  cancels : ∀ n, setting.env.cancelsAt n = true
  faithful : ∃ vector, setting.Faithful vector
  single : setting.config.filesPerBatch ≤ 1

namespace RunState

variable {setting : RunSetting MemoryStore} {home : Location} {plan : RunPlan}
  {s t u : RunState MemoryStore} {file : PreparedFile}

structure Cut (home : Location) (plan : RunPlan) (s : RunState MemoryStore) (file : PreparedFile)
    (t : RunState MemoryStore) : Prop extends Since home s t where
  cancelled : t.world.isCancelled = true
  status : t.result.status = s.result.status
  sent : ∀ e more, file.fresh = e :: more → World.Sent e.text s.world t.world
  entered : ∃ now, t.manifest = s.manifest.recordIndexed (recordOf plan file) now
  recorded : ∃ now, t.checkpoint = s.checkpoint.recordBatch s.batchIndex [file.path] now
  manifestText : content home t.world.disk Manifest.fileName = some t.manifest.fileText.toUTF8
  checkpointText : content home t.world.disk Checkpoint.fileName =
    some t.checkpoint.fileText.toUTF8

theorem Cut.progressed (h : Cut home plan s file t) (progress : Progress) :
    Cut home plan s file { t with progress := progress } where
  toSince := ⟨h.same, h.clock, h.storable, h.keyed, h.missed, h.checkpoint, h.timestamp⟩
  cancelled := h.cancelled
  status := h.status
  sent := h.sent
  entered := h.entered
  recorded := h.recorded
  manifestText := h.manifestText
  checkpointText := h.checkpointText

theorem Cut.counted (h : Cut home plan s file t) (hc : Counted t u) : Cut home plan s file u := by
  have hsince := hc.since h.toSince
  obtain ⟨⟨result, progress, rfl⟩, _, hstatus, _⟩ := hc
  exact ⟨hsince, h.cancelled, hstatus.trans h.status, h.sent, h.entered, h.recorded,
    h.manifestText, h.checkpointText⟩

variable (h : setting.Cancelling)

include h

/-- The first request has the first text, and cancels the run. -/
theorem embedAll_cancelled (text : String) (more : List String) (hsound : s.optimizer.Sound) :
    Runs (embedAll setting (text :: more)) s
      (fun _ t => Quiet setting.env s t ∧ t.world.isCancelled = true ∧
        World.Sent text s.world t.world) (fun _ _ => False) := by
  let Asked (w : World MemoryStore) : Prop := w.isCancelled = true ∧ World.Sent text s.world w
  apply runs_imp _ _ _ (runs_and _ _ _ (embedAll_facts setting h.still (text :: more) s)
    (embedAll_rule setting
      (fun left w => (left = text :: more ∧ w.requests = s.world.requests) ∨ Asked w)
      (text :: more) s ?_ ?_ (.inl ⟨rfl, rfl⟩)))
  · rintro _ t ⟨⟨hquiet, _⟩, _, _, left, hleft, ⟨hnone, _⟩ | hasked⟩
    · rw [hleft hsound] at hnone
      cases hnone
    · exact ⟨hquiet, hasked⟩
  · -- the provider never fails
    rintro _ t ⟨⟨_, hnever⟩, _⟩
    obtain ⟨vector, hvector⟩ := h.faithful
    exact hnever vector hvector
  · rintro left w d (⟨hleft, hw⟩ | ⟨hcancelled, sent, hsent, hmem⟩)
    · exact .inl ⟨hleft, (w.wait_requests d).trans hw⟩
    · refine .inr ⟨?_, sent, (w.wait_requests d).trans hsent, hmem⟩
      unfold World.wait
      dsimp only
      split <;> exact hcancelled
  · intro left w size hsize hw
    have hasked : Asked (w.requested setting.env (left.take size)) := by
      refine ⟨?_, ?_⟩
      · show (w.isCancelled || setting.env.cancelsAt _) = true
        rw [h.cancels, Bool.or_true]
      · rcases hw with ⟨rfl, hw⟩ | ⟨_, sent, hsent, texts, htexts, htext⟩
        · obtain ⟨k, rfl⟩ := Nat.exists_eq_add_of_le (hsize hsound (List.cons_ne_nil _ _))
          refine ⟨[(text :: more).take (1 + k)], congrArg (_ :: ·) hw, _,
            List.mem_singleton_self _, ?_⟩
          rw [Nat.add_comm, List.take_succ_cons]
          exact List.mem_cons_self
        · exact ⟨left.take size :: sent, congrArg (_ :: ·) hsent, texts,
            List.mem_cons_of_mem _ htexts, htext⟩
    exact ⟨.inr hasked, .inr hasked⟩

/-- A batch of one file is committed, though the run is cancelled meanwhile. -/
theorem writeBatch_cut (plan : RunPlan) (e : Entity) (more : List Entity)
    (hfresh : file.fresh = e :: more) (htime : file.modificationTime < Nat.pow 2 64)
    (hready : Ready setting.stateDir home s.world.disk) (hsound : s.optimizer.Sound) :
    Runs (writeBatch setting plan [file]) s (fun _ t => Cut home plan s file t)
      (fun _ _ => False) := by
  have hbegun : Since home s (s.begunBatch [file.path]) :=
    (Since.refl hready.leaf).called ⟨_, _, _, rfl⟩ s.manifest id fun _ hs => hs
  have htexts : textsOf [file] = e.text :: more.map (·.text) := by
    unfold textsOf
    rw [List.flatMap_singleton, hfresh]
    rfl
  -- the file is either still to be written, or it is written
  apply writeBatch_steps setting plan [file] (fun failure done _ rest u => failure = none ∧
    Since home s u ∧ u.world.isCancelled = true ∧ u.result.status = s.result.status ∧
    World.Sent e.text s.world u.world ∧ u.checkpoint = s.checkpoint ∧
    u.batchIndex = s.batchIndex ∧ ((rest = [file] ∧ done = [] ∧ u.manifest = s.manifest) ∨
      (rest = [] ∧ done = [file.path] ∧
        ∃ now, u.manifest = s.manifest.recordIndexed (recordOf plan file) now)))
  · rw [htexts]
    apply runs_imp _ _ _ (embedAll_cancelled h e.text (more.map (·.text))
      (s := s.begunBatch [file.path]) hsound)
    · rintro _ t ⟨hquiet, hcancelled, hsent⟩
      have hmanifest : t.manifest = (s.begunBatch [file.path]).manifest := core_manifest hquiet.core
      exact ⟨rfl, hquiet.since setting hbegun, hcancelled, congrArg Core.status hquiet.core, hsent,
        hquiet.checkpoint, hquiet.batchIndex, .inl ⟨rfl, rfl, hmanifest⟩⟩
    · exact fun _ _ h => h.elim
  · rintro failure _ _ _ _ _ _ hfailed _ ⟨hnone, _⟩
    rw [hnone] at hfailed
    cases hfailed
  · rintro _ done vectors next rest u _
      ⟨hnone, hsince, hcancelled, hstatus, hsent, hcheckpoint, hindex, ⟨hrest, rfl, hmanifest⟩ |
        ⟨hrest, _⟩⟩
    · cases hrest
      rw [runs_writeFile, h.memory]
      apply runs_imp _ _ _ ((World.makes_updateFile h.still file.path file.previousIds
        file.currentIds (withVectors file.fresh vectors) file.hasRecord).calm h.store)
      · intro _ w hw
        have hsince' := hsince.called hw _ (Manifest.keyed_recordIndexed _ (recordOf plan file) _)
          fun hnow hs => hs.recordIndexed _ htime _ hnow
        have hentered : ∃ now, u.manifest.recordIndexed (recordOf plan file) w.unixTime =
            s.manifest.recordIndexed (recordOf plan file) now := ⟨w.unixTime, by rw [hmanifest]⟩
        obtain ⟨store, calls, moments, rfl⟩ := hw
        exact ⟨hnone, hsince', hcancelled, hstatus, hsent, hcheckpoint, hindex,
          .inr ⟨rfl, rfl, hentered⟩⟩
      · exact fun _ _ h => h
    · cases hrest
  · rintro _ done _ u v ⟨_, hsince, hcancelled, hstatus, hsent, hcheckpoint, hindex,
      ⟨hrest, _⟩ | ⟨_, rfl, now, hmanifest⟩⟩ hcounted
    · cases hrest
    · have hsince' := hcounted.since hsince
      obtain ⟨⟨result, progress, rfl⟩, _, hstatus', _⟩ := hcounted
      apply runs_imp _ _ _ (commitBatch_committed setting h.still [file.path] _
        (hready.of_same hsince'.same))
      · intro _ x hx
        have hkept : x.manifest = u.manifest := congrArg Core.manifest hx.core
        have hended : x.result.status = result.status := congrArg Core.status hx.core
        refine ⟨hx.since hsince', hx.cancelled.trans hcancelled,
          hended.trans (hstatus'.trans hstatus), fun e' more' hfresh' => ?_,
          ⟨now, hkept.trans hmanifest⟩, ⟨u.world.clock, ?_⟩, hkept ▸ hx.manifestText,
          hx.checkpointText⟩
        · rw [hfresh] at hfresh'
          cases hfresh'
          obtain ⟨sent, heq, hmem⟩ := hsent
          exact ⟨sent, hx.requests.trans heq, hmem⟩
        · rw [hx.checkpoint, ← hcheckpoint, ← hindex]
      · exact fun _ _ h => h
  · exact fun _ _ ht hcounted => ht.counted hcounted

theorem isFull_single (s : RunState MemoryStore) (file : PreparedFile) :
    isFull setting s [file] = true := by
  have hsingle : max setting.config.filesPerBatch 1 ≤ [file].length := by
    have hone := h.single
    rw [List.length_singleton]
    omega
  unfold isFull
  rw [decide_eq_true hsingle]
  simp

/-- Of two files or more, the first is committed before the run is cancelled. -/
theorem drain_cut (plan : RunPlan) (first second : WorkItem) (rest : List WorkItem) (e : Entity)
    (more : List Entity) (hready : Ready setting.stateDir home s.world.disk)
    (hsound : s.optimizer.Sound) (hcalm : s.world.isCancelled = false)
    (hfirst : ∀ d, Same home s.world.disk d → prepare setting plan.force d first = .ready file)
    (hfresh : file.fresh = e :: more)
    (hrest : ∀ item ∈ second :: rest, ∀ d, Same home s.world.disk d →
      ∃ f, prepare setting plan.force d item = .ready f) :
    Runs (drain setting plan (rest.length + 2) { items := first :: second :: rest }) s
      (fun ending t => ending = .cancelled ∧ ∃ progress,
        Cut home plan { s with progress := progress } file t) (fun _ _ => False) := by
  have hrefl := Disk.SameBut.refl hready.leaf
  have htime := prepare_time setting (hfirst _ hrefl)
  -- the run as it began, but for its progress; and as it is once its first file is committed
  let Untouched (u : RunState MemoryStore) : Prop := ∃ progress, u = { s with progress := progress }
  let Past (u : RunState MemoryStore) : Prop := ∃ v, Untouched v ∧ Cut home plan v file u
  let Todo (ahead : List Prepared) (items : List WorkItem) : Prop :=
    (∀ next ∈ ahead, ∃ f, next = .ready f) ∧ (∀ item ∈ items, item ∈ second :: rest) ∧
      1 ≤ ahead.length + items.length
  have hread {ahead : List Prepared} {item : WorkItem} {items : List WorkItem} (d : Disk)
      (hsame : Same home s.world.disk d) (hleft : Todo ahead (item :: items)) :
      Todo (ahead ++ [prepare setting plan.force d item]) items := by
    obtain ⟨hahead, hitems, _⟩ := hleft
    refine ⟨fun next hnext => ?_, fun i hi => hitems i (List.mem_cons_of_mem _ hi), by simp; omega⟩
    rcases List.mem_append.mp hnext with hnext | hnext
    · exact hahead next hnext
    · rw [List.mem_singleton.mp hnext]
      exact hrest item (hitems item List.mem_cons_self) d hsame
  apply runs_imp _ _ _ (drain_loop setting plan
    (fun pending ahead items u => pending = [] ∧
      ((Untouched u ∧ ((ahead = [] ∧ items = first :: second :: rest) ∨
          ∃ others, ahead = .ready file :: others ∧ Todo others items)) ∨
        (Past u ∧ Todo ahead items)))
    (fun pending ahead items u => Todo ahead items ∧ Untouched u ∧ pending = [file] ∨
      (∃ f, pending = [f]) ∧ Past u)
    (fun _ _ => False) Past ?_ ?_ ?_ ?_ ?_ _ _ s ?_ ?_)
  · rintro ending t ⟨hfinished, hcancelled⟩
    cases ending with
    | finished =>
      -- there is always something left
      obtain ⟨_, ⟨_, ⟨_, hnone⟩ | ⟨others, hnone, _⟩⟩ | ⟨_, _, _, hleft⟩⟩ := hfinished rfl
      · cases hnone
      · cases hnone
      · exact absurd hleft (by decide)
    | cancelled =>
      obtain ⟨_, ⟨progress, rfl⟩, ht⟩ := hcancelled rfl
      exact ⟨rfl, progress, ht⟩
  · exact fun _ _ h => h
  · rintro pending ahead item items u ⟨hpending, ⟨⟨progress, rfl⟩, ⟨rfl, hitems⟩ |
      ⟨others, rfl, hleft⟩⟩ | ⟨⟨v, ⟨progress, rfl⟩, hu⟩, hleft⟩⟩
    · cases hitems
      rw [hfirst _ hrefl]
      exact ⟨hpending, .inl ⟨⟨progress, rfl⟩, .inr ⟨[], rfl, fun _ hn => absurd hn
        List.not_mem_nil, fun _ hi => hi, by simp⟩⟩⟩
    · exact ⟨hpending, .inl ⟨⟨progress, rfl⟩, .inr ⟨_, rfl, hread _ hrefl hleft⟩⟩⟩
    · exact ⟨hpending, .inr ⟨⟨_, ⟨progress, rfl⟩, hu⟩, hread _ hu.same hleft⟩⟩
  · rintro pending next ahead items u ⟨rfl, ⟨⟨progress, rfl⟩, ⟨hnone, _⟩ |
      ⟨others, hahead, hleft⟩⟩ | ⟨⟨v, hv, hu⟩, hready', hitems, _⟩⟩
    · cases hnone
    · cases hahead
      exact .inl ⟨hleft, ⟨_, rfl⟩, rfl⟩
    · obtain ⟨f, rfl⟩ := hready' next List.mem_cons_self
      exact .inr ⟨⟨f, rfl⟩, v, hv, hu.progressed _⟩
  · rintro pending ahead items u (⟨_, _, rfl⟩ | ⟨⟨f, rfl⟩, _⟩) hroom
    · rw [isFull_single h] at hroom
      cases hroom
    · rw [isFull_single h] at hroom
      cases hroom
  · rintro pending ahead items u hne ((⟨hleft, ⟨progress, rfl⟩, rfl⟩ | ⟨_, v, hv, hu⟩) | ⟨hnone, _⟩)
      hgoing
    · apply runs_imp _ _ _ (writeBatch_cut h plan e more hfresh htime
        (s := { s with progress := progress }) hready hsound)
      · exact fun _ t ht => ⟨rfl, .inr ⟨⟨_, ⟨progress, rfl⟩, ht⟩, hleft⟩⟩
      · exact fun _ _ h => h
    · rw [hu.cancelled] at hgoing
      cases hgoing
    · exact absurd hnone hne
  · rintro pending ahead items u ((⟨_, ⟨progress, rfl⟩, _⟩ | ⟨_, hu⟩) |
      ⟨_, ⟨⟨progress, rfl⟩, _⟩ | ⟨hu, _⟩⟩) hcancelled
    · exact absurd (hcalm.symm.trans hcancelled) (by decide)
    · exact hu
    · exact absurd (hcalm.symm.trans hcancelled) (by decide)
    · exact hu
  · simp
  · exact ⟨rfl, .inl ⟨⟨s.progress, rfl⟩, .inl ⟨rfl, rfl⟩⟩⟩

end RunState

namespace RunSetting

open RunState

variable {setting : RunSetting MemoryStore} {home : Location} {filter : FileFilter}

/-- A run over two files or more is aborted once the first of them is committed. -/
theorem execute_cut (h : setting.Cancelling) (c : RunContext) (detection : Detection) (force : Bool)
    (w : World MemoryStore) (hready : Ready setting.stateDir home w.disk)
    (hcalm : w.isCancelled = false) (hdeleted : detection.changes.deleted = [])
    (hrenamed : detection.changes.renamed = []) (first second : String) (rest : List String)
    (hpaths : sortedPaths (detection.changes.added ++ detection.changes.modified) =
      first :: second :: rest) (file : PreparedFile) (e : Entity) (more : List Entity)
    (hfirst : ∀ d, Same home w.disk d →
      prepare setting force d (WorkItem.ofPath c.manifest first) = .ready file)
    (hfresh : file.fresh = e :: more)
    (hrest : ∀ p ∈ second :: rest, ∀ d, Same home w.disk d →
      ∃ f, prepare setting force d (WorkItem.ofPath c.manifest p) = .ready f) :
    Runs (setting.execute filter c detection force) w
      (fun report w' => report.state.world = w' ∧
        (∃ res, report.outcome = .ok res ∧ res.status = .aborted) ∧
        ∃ plan s progress, Begun home c detection force w plan s ∧
          s.batchIndex = c.checkpoint.nextBatch ∧
          Cut home plan { s with progress := progress } file report.state)
      (fun _ _ => False) := by
  apply execute_rule setting home filter h.still c detection force w hready
  intro plan s flow t outcome u hbegun hstart _ hrun hend
  have hready' := hready.of_same hbegun.same
  have hcalm' : s.world.isCancelled = false := hbegun.world.2.2.trans hcalm
  have hbatches : Runs (runBatches setting plan detection.changes) s
      (fun ending t => ending = .cancelled ∧ ∃ progress,
        Cut home plan { s with progress := progress } file t) (fun _ _ => False) := by
    rw [runBatches_plain setting plan detection.changes _ _ s hdeleted hrenamed hcalm', hpaths,
      List.map_cons, List.map_cons, List.length_cons, List.length_cons,
      ← List.length_map (WorkItem.ofPath s.manifest)]
    apply drain_cut h plan _ _ _ e more hready' hbegun.sound hcalm'
    · intro d hsame
      rw [hbegun.force, hbegun.manifest]
      exact hfirst d (hbegun.same.trans hsame)
    · exact hfresh
    · intro item hitem d hsame
      rw [← List.map_cons] at hitem
      obtain ⟨p, hp, rfl⟩ := List.mem_map.mp hitem
      rw [hbegun.force, hbegun.manifest]
      exact hrest p hp d (hbegun.same.trans hsame)
  have hbatch : s.batchIndex = c.checkpoint.nextBatch := by
    rw [hstart]
    show s.checkpoint.nextBatch = c.checkpoint.nextBatch
    rw [hbegun.checkpoint]
    rfl
  cases flow with
  | error error => exact (runs_error _ _ _ hbatches hrun).elim
  | ok ending =>
    obtain ⟨rfl, progress, hcut⟩ := runs_ok _ _ _ hbatches hrun
    cases hend
    exact ⟨rfl, ⟨_, rfl, rfl⟩, plan, s, progress, hbegun, hbatch, hcut⟩

end RunSetting

end CodeIndex
