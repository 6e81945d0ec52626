import CodeIndex.Proofs.Run.Calm

namespace CodeIndex

open StateDir

def RunSetting.textsAt {σ : Type} (setting : RunSetting σ) (d : Disk) (p : String) : List String :=
  match d.readFile (Path.join setting.root p) with
  | .error _ => []
  | .ok (content, _) =>
    match setting.extractor.find p content with
    | .error _ => []
    | .ok found => (found.filter (·.isMintable)).flatMap fun item =>
        setting.config.variants.map item.rendered

theorem prepare_texts {σ : Type} (setting : RunSetting σ) {force : Bool} {d : Disk}
    {item : WorkItem} {file : PreparedFile} (h : prepare setting force d item = .ready file)
    {e : Entity} (he : e ∈ file.fresh) : e.text ∈ setting.textsAt d item.path := by
  unfold prepare at h
  split at h
  · cases h
  · rename_i content modified hread
    obtain ⟨found, hfound, rfl⟩ := prepareContent_ready h
    have hminted : e ∈ mintEntities item.path (item.lineage.getD (lineageFor item.path)) found
        setting.config.variants := ((mem_partitionNew _ _ _ e).mp he).1
    obtain ⟨d, hd, rfl⟩ := mem_minted _ _ _ _ e hminted
    obtain ⟨hitem, hvalid, hvariant⟩ := (Draft.mem_ofItems d).mp hd
    have hmintable : d.item ∈ found.filter (·.isMintable) :=
      List.mem_filter.mpr ⟨hitem, d.item.isMintable_iff.mpr hvalid⟩
    unfold RunSetting.textsAt
    rw [hread]
    dsimp only
    rw [hfound]
    exact List.mem_flatMap.mpr ⟨d.item, hmintable, List.mem_map_of_mem hvariant⟩

/-- Unless files are renamed, the later records say of the paths that are not removed what the
earlier ones said. -/
def ChangeSet.Leaves (changes : ChangeSet) (m m' : Manifest) : Prop :=
  changes.renamed = [] → ∀ p, ¬ changes.Removes p → m'.get? p = m.get? p

theorem textsAt_congr {σ : Type} (setting : RunSetting σ) {d d' : Disk} {p : String}
    (h : d'.readFile (Path.join setting.root p) = d.readFile (Path.join setting.root p)) :
    setting.textsAt d' p = setting.textsAt d p := by
  unfold RunSetting.textsAt
  rw [h]

namespace World

variable {σ : Type} {allowed : String → Prop} {w w' w'' : World σ}

def Sends (allowed : String → Prop) (w w' : World σ) : Prop :=
  ∃ sent, w'.requests = sent ++ w.requests ∧ ∀ texts ∈ sent, ∀ text ∈ texts, allowed text

theorem Sends.none (h : w'.requests = w.requests) : Sends allowed w w' :=
  ⟨[], h, fun _ ht => absurd ht List.not_mem_nil⟩

theorem Sends.trans (h : Sends allowed w w') (h' : Sends allowed w' w'') :
    Sends allowed w w'' := by
  obtain ⟨sent, hsent, hall⟩ := h
  obtain ⟨sent', hsent', hall'⟩ := h'
  refine ⟨sent' ++ sent, by rw [hsent', hsent, List.append_assoc], fun texts ht => ?_⟩
  rcases List.mem_append.mp ht with ht | ht
  · exact hall' texts ht
  · exact hall texts ht

theorem Sends.imp {more : String → Prop} (h : Sends allowed w w')
    (himp : ∀ text, allowed text → more text) : Sends more w w' := by
  obtain ⟨sent, hsent, hall⟩ := h
  exact ⟨sent, hsent, fun texts ht text htext => himp text (hall texts ht text htext)⟩

theorem Called.sends (h : w.Called w') : Sends allowed w w' := by
  obtain ⟨_, _, _, rfl⟩ := h
  exact .none rfl

def Sent (text : String) (w w' : World σ) : Prop :=
  ∃ sent, w'.requests = sent ++ w.requests ∧ ∃ texts ∈ sent, text ∈ texts

variable {text : String}

theorem Sent.later (h : Sent text w w') (h' : Sends allowed w' w'') : Sent text w w'' := by
  obtain ⟨sent, hsent, texts, htexts, htext⟩ := h
  obtain ⟨more, hmore, _⟩ := h'
  exact ⟨more ++ sent, by rw [hmore, hsent, List.append_assoc], texts,
    List.mem_append_right _ htexts, htext⟩

theorem Sent.before (h : Sends allowed w w') (h' : Sent text w' w'') : Sent text w w'' := by
  obtain ⟨sent, hsent, _⟩ := h
  obtain ⟨more, hmore, texts, htexts, htext⟩ := h'
  exact ⟨more ++ sent, by rw [hmore, hsent, List.append_assoc], texts,
    List.mem_append_left _ htexts, htext⟩

theorem Sends.allowed_of_sent (h : Sends allowed w w') (h' : Sent text w w') : allowed text := by
  obtain ⟨sent, hsent, hall⟩ := h
  obtain ⟨sent', hsent', texts, htexts, htext⟩ := h'
  have heq : sent = sent' := List.append_cancel_right (hsent.symm.trans hsent')
  exact hall texts (heq ▸ htexts) text htext

end World

namespace RunState

variable {σ : Type} (setting : RunSetting σ) {home : Location} {allowed : String → Prop}
  {s₀ s t u : RunState σ}

/-- However often a request is made again, no other texts are sent than those to be embedded. -/
theorem embedAll_sends (texts : List String) (htexts : ∀ text ∈ texts, allowed text)
    (s : RunState σ) :
    Runs (embedAll setting texts) s (fun _ t => World.Sends allowed s.world t.world)
      (fun _ t => World.Sends allowed s.world t.world) := by
  apply runs_imp _ _ _ (embedAll_rule setting (fun left w => (∀ text ∈ left, text ∈ texts) ∧
    World.Sends allowed s.world w) texts s ?_ ?_ ⟨fun _ h => h, .none rfl⟩)
  · rintro _ t ⟨_, _, _, _, _, ht⟩
    exact ht
  · rintro _ t ⟨_, _, _, _, ht⟩
    exact ht
  · exact fun _ w d hw => ⟨hw.1, hw.2.trans (.none (w.wait_requests d))⟩
  · rintro left w size _ ⟨hleft, hw⟩
    have hrequested : World.Sends allowed w (w.requested setting.env (left.take size)) := by
      refine ⟨[left.take size], rfl, fun one hone text htext => ?_⟩
      rw [List.mem_singleton.mp hone] at htext
      exact htexts text (hleft text (List.mem_of_mem_take htext))
    exact ⟨⟨hleft, hw.trans hrequested⟩,
      fun text htext => hleft text (List.mem_of_mem_drop htext), hw.trans hrequested⟩

structure Sending (home : Location) (allowed : String → Prop) (s t : RunState σ) : Prop
    extends Since home s t where
  sends : World.Sends allowed s.world t.world
  sound : s.optimizer.Sound → t.optimizer.Sound

def SendingFailed (home : Location) (allowed : String → Prop) (s : RunState σ) (e : IndexError)
    (t : RunState σ) : Prop :=
  Sending home allowed s t ∧ ∃ cause, e = .storeWrite cause

variable {setting} in
theorem Sending.quiet (h : Sending home allowed s t) (hq : Quiet setting.env t u)
    (hsends : World.Sends allowed t.world u.world) : Sending home allowed s u :=
  ⟨hq.since setting h.toSince, h.sends.trans hsends, fun hs => hq.optimizer (h.sound hs)⟩

theorem Sending.counted (h : Sending home allowed s t) (hc : Counted t u) :
    Sending home allowed s u := by
  have hsince := hc.since h.toSince
  obtain ⟨_, _, rfl⟩ := hc.rest
  exact ⟨hsince, h.sends, h.sound⟩

theorem Sending.called (h : Sending home allowed s t) {w : World σ} (hw : t.world.Called w)
    (m : Manifest) (hkeyed : t.manifest.Keyed → m.Keyed)
    (hstorable : w.unixTime.Storable → t.manifest.Storable → m.Storable) :
    Sending home allowed s { t with world := w, manifest := m } :=
  ⟨h.toSince.called hw m hkeyed hstorable, h.sends.trans hw.sends, h.sound⟩

theorem Sending.stopped (h : Sending home allowed s t) {w : World σ} (hw : t.world.Called w)
    (cause : StoreError) : SendingFailed home allowed s (.storeWrite cause) { t with world := w } :=
  ⟨h.called hw t.manifest id fun _ hs => hs, cause, rfl⟩

section Batches

variable (hstill : setting.env.Still) (plan : RunPlan)

include hstill

theorem commitBatch_sending (files : List String) (hready : Ready setting.stateDir home
    s.world.disk) (h : Sending home allowed s t) :
    Runs (commitBatch setting files) t (fun _ u => Sending home allowed s u)
      (SendingFailed home allowed s) := by
  apply runs_imp _ _ _ (commitBatch_committed setting hstill files t (hready.of_same h.same))
  · exact fun _ u hu => ⟨hu.since h.toSince, h.sends.trans (.none hu.requests),
      fun hs => hu.optimizer ▸ h.sound hs⟩
  · exact fun _ _ hu => hu.elim

theorem forget_sending (path : String) (h : Sending home allowed s t) :
    Runs (forget setting path) t (fun _ u => Sending home allowed s u)
      (SendingFailed home allowed s) := by
  rw [runs_forget]
  apply runs_imp _ _ _ (World.deleteFile_called setting.env hstill setting.store path t.world)
  · exact fun _ w hw => h.called hw _ (Manifest.keyed_removeFile _ _ _)
      fun hnow hs => hs.removeFile _ _ hnow
  · exact fun e w hw => h.stopped hw e

theorem applyStructural_sending (changes : ChangeSet)
    (hready : Ready setting.stateDir home s.world.disk) (h : Sending home allowed s s) :
    Runs (applyStructural setting plan changes) s
      (fun reindex t => Sending home allowed s t ∧ ∀ p ∈ reindex, changes.Writes p)
      (SendingFailed home allowed s) := by
  apply runs_imp _ _ _ (applyStructural_keeps setting plan changes
    (fun _ t => Sending home allowed s t) (fun t => Sending home allowed s t) _ s
    (h.called ⟨_, _, _, rfl⟩ s.manifest id fun _ hs => hs)
    (fun _ path t ht => forget_sending setting hstill path ht) ?_
    (fun _ _ _ _ t _ _ ht => ⟨since_addUnreadable ht.toSince, ht.sends, ht.sound⟩)
    (fun touched t ht => commitBatch_sending setting hstill touched hready ht)
    fun t u ht hu => ht.counted hu)
  · exact fun _ _ ht => ⟨ht.1, fun p hp => .inr (.inr (ht.2 p hp))⟩
  · exact fun _ _ ht => ht
  · intro _ source target t ht
    rw [runs_relocate]
    apply runs_imp _ _ _ (World.renameFile_called setting.env hstill setting.store source target
      (t.manifest.get? target).isSome t.world)
    · exact fun _ w hw => ht.called hw _ (relocated_keyed _ _ _ _ _)
        fun hnow hs => relocated_storable _ _ _ _ _ hs hnow
    · exact fun e w hw => ht.stopped hw e

omit hstill in
theorem applyStructural_leaves (changes : ChangeSet) :
    Runs (applyStructural setting plan changes) s
      (fun _ t => changes.Leaves s.manifest t.manifest) (fun _ _ => True) := by
  by_cases hrenamed : changes.renamed = []
  swap
  · exact runs_any _ _ _ _ (fun _ _ hnone => absurd hnone hrenamed) fun _ _ => trivial
  let Unmoved (t : RunState σ) : Prop :=
    ∀ q, ¬ changes.Removes q → t.manifest.get? q = s.manifest.get? q
  apply runs_imp _ _ _ (applyStructural_rule setting plan changes
    (fun _ rest t => rest ⊆ changes.deleted ∧ Unmoved t)
    (fun _ _ rest t => rest = [] ∧ Unmoved t) (fun _ t => Unmoved t) (fun _ _ => True) s ?_ ?_ ?_
    ?_ ?_ ?_) (fun _ _ ht _ => ht) fun _ _ h => h
  · exact ⟨List.Subset.refl _, fun _ _ => rfl⟩
  · rintro _ path rest t ⟨hrest, ht⟩
    have hpath : changes.Removes path := .inl (hrest List.mem_cons_self)
    rw [runs_forget]
    refine runs_any _ _ _ _ (fun _ w => ⟨?_, fun q hq => ?_⟩) fun _ _ => trivial
    · exact List.Subset.trans (List.subset_cons_self _ _) hrest
    · have hne : path ≠ q := by
        rintro rfl
        exact hq hpath
      rw [Manifest.get?_removeFile, if_neg hne]
      exact ht q hq
  · exact fun _ _ ht => ⟨hrenamed, ht.2⟩
  · rintro _ _ _ _ _ ⟨hnone, _⟩
    cases hnone
  · rintro touched _ t ⟨_, ht⟩
    apply runs_imp _ _ _ (commitBatch_touches setting touched t)
    · rintro _ u ⟨_, _, hm, _⟩ q hq
      rw [hm]
      exact ht q hq
    · exact fun _ _ _ => trivial
  · intro _ t u ht hcounted q hq
    rw [core_manifest (hcounted.quiet setting.env).core]
    exact ht q hq

theorem writeBatch_sending (pending : List PreparedFile)
    (hpending : ∀ file ∈ pending, file.modificationTime < Nat.pow 2 64 ∧
      ∀ e ∈ file.fresh, allowed e.text)
    (hready : Ready setting.stateDir home s.world.disk) (h : Sending home allowed s t) :
    Runs (writeBatch setting plan pending) t (fun _ u => Sending home allowed s u)
      (SendingFailed home allowed s) := by
  have hbegun : Sending home allowed s (t.begunBatch (pending.map (·.path))) :=
    h.called ⟨_, _, _, rfl⟩ t.manifest id fun _ hs => hs
  have htexts : ∀ text ∈ textsOf pending, allowed text := by
    intro text htext
    obtain ⟨file, hfile, htext⟩ := List.mem_flatMap.mp htext
    obtain ⟨e, he, rfl⟩ := List.mem_map.mp htext
    exact (hpending file hfile).2 e he
  apply writeBatch_keeps setting plan pending (fun file => file.modificationTime < Nat.pow 2 64)
    (fun _ u => Sending home allowed s u) _ _ t (fun file hfile => (hpending file hfile).1) ?_
    (fun _ path e u hu => ⟨since_addFailure hu.toSince path e, hu.sends, hu.sound⟩) ?_
    (fun done _ _ hu hcounted =>
      commitBatch_sending setting hstill done hready (hu.counted hcounted))
    fun _ _ hu hcounted => hu.counted hcounted
  · apply runs_imp _ _ _ (runs_and _ _ _ (embedAll_facts setting hstill (textsOf pending) _)
      (embedAll_sends setting (textsOf pending) htexts _))
    · exact fun _ u hu => hbegun.quiet hu.1.1 hu.2
    · exact fun _ u hu => hbegun.quiet hu.1.1 hu.2
  · intro _ vectors file u htime hu
    rw [runs_writeFile]
    apply runs_imp _ _ _ (World.updateFile_called setting.env hstill setting.store file.path
      file.previousIds file.currentIds (withVectors file.fresh vectors) file.hasRecord u.world)
    · exact fun _ w hw => hu.called hw _ (Manifest.keyed_recordIndexed _ _ _)
        fun hnow hs => hs.recordIndexed _ htime _ hnow
    · exact fun e w hw => hu.stopped hw e

/-- However the batches of a run end, they have sent only texts that are allowed for the paths that
they are to write. -/
theorem runBatches_sending (changes : ChangeSet)
    (hready : Ready setting.stateDir home s.world.disk)
    (hallowed : ∀ d m p file, Same home s.world.disk d → changes.Writes p →
      changes.Leaves s.manifest m →
      prepare setting plan.force d (WorkItem.ofPath m p) = .ready file →
      ∀ e ∈ file.fresh, allowed e.text) :
    Runs (runBatches setting plan changes) s (fun _ t => Sending home allowed s t)
      (SendingFailed home allowed s) := by
  have hstart : Sending home allowed s s := ⟨.refl hready.leaf, .none rfl, id⟩
  apply runBatches_rule setting plan changes
    (fun reindex t => (Sending home allowed s t ∧ ∀ p ∈ reindex, changes.Writes p) ∧
      changes.Leaves s.manifest t.manifest)
  · exact fun _ => hstart
  · exact fun _ _ => ⟨⟨hstart, fun _ hp => absurd hp List.not_mem_nil⟩, fun _ _ _ => rfl⟩
  · apply runs_imp _ _ _ (runs_and _ _ _
      (applyStructural_sending setting hstill plan changes hready hstart)
      (applyStructural_leaves setting plan changes))
    · exact fun _ _ ht => ht
    · exact fun _ _ ht => ht.1
  · rintro reindex t ⟨⟨ht, hreindex⟩, hleaves⟩
    apply drain_files setting plan (fun file => file.modificationTime < Nat.pow 2 64 ∧
        ∀ e ∈ file.fresh, allowed e.text) (fun u => Sending home allowed s u)
    · intro u item file hu hitem hprepared
      obtain ⟨p, hp, rfl⟩ := List.mem_map.mp hitem
      exact ⟨prepare_time setting hprepared, hallowed _ _ p file hu.same
        (ChangeSet.writes_of_left hreindex hp) hleaves hprepared⟩
    · intro u pending next hu
      have hsince := since_takePrepared hu.toSince pending next
      cases next <;> exact ⟨hsince, hu.sends, hu.sound⟩
    · exact fun u pending hu hpending =>
        writeBatch_sending setting hstill plan pending hpending hready hu
    · exact Nat.le_of_eq (List.length_map _)
    · exact ht

end Batches

end RunState

namespace RunSetting

open RunState

variable {σ : Type} (setting : RunSetting σ) {home : Location} {filter : FileFilter}
  {look : String → FileState}

/-- A run sends only texts that are allowed for the files that it is to write, whichever records it
prepares them by. -/
theorem execute_sending (hstill : setting.env.Still) (c : RunContext) (detection : Detection)
    (force : Bool) (w : World σ) (hready : Ready setting.stateDir home w.disk)
    (allowed : String → Prop)
    (hallowed : ∀ d m p file, Same home w.disk d → detection.changes.Writes p →
      detection.changes.Leaves c.manifest m →
      prepare setting force d (WorkItem.ofPath m p) = .ready file →
      ∀ e ∈ file.fresh, allowed e.text) :
    Runs (setting.execute filter c detection force) w
      (fun report w' => ∀ res, report.outcome = .ok res → World.Sends allowed w w')
      (fun _ _ => False) := by
  apply runs_imp _ _ _ (execute_batches setting home filter hstill c detection force w hready
    (fun _ t => World.Sends allowed w t.world)
    (fun e t => World.Sends allowed w t.world ∧ Ready setting.stateDir home t.world.disk ∧
      ∃ cause, e = .storeWrite cause) ?_)
  · rintro report w' ⟨hworld, hends⟩ res houtcome
    rw [← hworld]
    rcases hends res houtcome with ⟨_, hcancelled | hstopped⟩ | hfinished
    · exact hcancelled
    · obtain ⟨plan, _, t, res', ⟨hsends, hready', cause, rfl⟩, hconclude⟩ := hstopped
      obtain ⟨⟨w'', hsaved, hstate⟩, _⟩ :=
        runs_ok _ _ _ (conclude_failed hstill plan cause t hready') hconclude
      have hkept : report.state.world.requests = t.world.requests := by
        obtain ⟨disk, moments, heq⟩ := hsaved.rest
        rw [hstate, heq]
      exact hsends.trans (.none hkept)
    · obtain ⟨plan, t, hsends, hcompleted, _⟩ := hfinished
      exact hsends.trans (.none hcompleted.calls.1)
  · exact fun _ _ h => h
  · intro plan s hbegun
    have hready' := hready.of_same hbegun.same
    have hsent {t : RunState σ} (ht : Sending home allowed s t) :
        World.Sends allowed w t.world := (World.Sends.none hbegun.requests).trans ht.sends
    apply runs_imp _ _ _ (runBatches_sending setting hstill plan detection.changes hready'
      fun d m p file hsame hwrites hleaves hprepared => hallowed d m p file
        (hbegun.same.trans hsame) hwrites (hbegun.manifest ▸ hleaves) (hbegun.force ▸ hprepared))
    · exact fun _ t ht => ⟨ht.same, hsent ht⟩
    · exact fun e t ht => ⟨hsent ht.1, hready'.of_same ht.1.same, ht.2⟩

theorem execute_sends (hstill : setting.env.Still) (c : RunContext) (detection : Detection)
    (force : Bool) (w : World σ) (hready : Ready setting.stateDir home w.disk)
    (hwork : detection.changes.Workable look) (hseen : Seen setting.root home w.disk look) :
    Runs (setting.execute filter c detection force) w
      (fun report w' => ∀ res, report.outcome = .ok res → World.Sends
        (fun text => ∃ p, detection.changes.Writes p ∧ text ∈ setting.textsAt w.disk p) w w')
      (fun _ _ => False) := by
  apply execute_sending setting hstill c detection force w hready
  intro d m p file hsame hwrites _ hprepared e he
  -- a file that is prepared in the tree has the texts that it has in the tree
  obtain ⟨hash, hlook⟩ := hwork.present _ hwrites
  obtain ⟨content, modified, _, hall⟩ := hseen _ hash hlook
  refine ⟨p, hwrites, ?_⟩
  have htext := prepare_texts setting hprepared he
  rw [WorkItem.ofPath_path] at htext
  rw [← textsAt_congr setting ((hall d hsame).trans (hall _ (.refl hready.leaf)).symm)]
  exact htext

end RunSetting

end CodeIndex
