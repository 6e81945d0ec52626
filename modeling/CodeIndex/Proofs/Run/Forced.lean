import CodeIndex.Proofs.Run.Sending

namespace CodeIndex

open StateDir

/-- The texts of a file when all of it is embedded anew: those of the entities that are minted
for it, by the lineage that its record has. -/
def RunSetting.mintedTexts {σ : Type} (setting : RunSetting σ) (m : Manifest) (d : Disk)
    (p : String) : List String :=
  match prepare setting true d (WorkItem.ofPath m p) with
  | .ready file => file.fresh.map (·.text)
  | _ => []

section

variable {σ : Type} (setting : RunSetting σ) {m m' : Manifest} {d d' : Disk} {p text : String}

theorem mem_mintedTexts : text ∈ setting.mintedTexts m d p ↔
    ∃ file, prepare setting true d (WorkItem.ofPath m p) = .ready file ∧
      ∃ e ∈ file.fresh, e.text = text := by
  unfold RunSetting.mintedTexts
  cases prepare setting true d (WorkItem.ofPath m p) with
  | ready file => simp
  | unreadable path => simp
  | failed path cause => simp

theorem textsAt_of_minted (h : text ∈ setting.mintedTexts m d p) : text ∈ setting.textsAt d p := by
  obtain ⟨file, hprepared, e, he, rfl⟩ := (mem_mintedTexts setting).mp h
  have htext := prepare_texts setting hprepared he
  rwa [WorkItem.ofPath_path] at htext

theorem mintedTexts_congr
    (hread : d'.readFile (Path.join setting.root p) = d.readFile (Path.join setting.root p))
    (hrecord : m'.get? p = m.get? p) : setting.mintedTexts m' d' p = setting.mintedTexts m d p := by
  unfold RunSetting.mintedTexts prepare
  rw [WorkItem.ofPath_congr hrecord, WorkItem.ofPath_path, hread]

end

namespace RunState

variable {σ : Type} (setting : RunSetting σ) {home : Location} {look : String → FileState}
  {s t u : RunState σ}

theorem embedAll_sent (texts : List String) (hsound : s.optimizer.Sound) :
    Runs (embedAll setting texts) s
      (fun _ t => ∀ text ∈ texts, World.Sent text s.world t.world) (fun _ _ => True) := by
  -- a text that is not left was in one of the requests so far
  let Asked (left : List String) (w : World σ) : Prop :=
    World.Sends (fun _ => True) s.world w ∧
      ∀ text ∈ texts, text ∈ left ∨ World.Sent text s.world w
  apply runs_imp _ _ _ (embedAll_rule setting Asked texts s ?_ ?_ ⟨.none rfl, fun _ h => .inl h⟩)
  · rintro _ t ⟨_, _, left, hnone, _, hall⟩ text htext
    rcases hall text htext with hleft | hsent
    · rw [hnone hsound] at hleft
      exact absurd hleft List.not_mem_nil
    · exact hsent
  · exact fun _ _ _ => trivial
  · intro left w d ⟨hsends, hall⟩
    have hwait : World.Sends (fun _ => True) w (w.wait d) := .none (w.wait_requests d)
    exact ⟨hsends.trans hwait, fun text htext => (hall text htext).imp id (·.later hwait)⟩
  · intro left w size _ ⟨hsends, hall⟩
    have hrequest : World.Sends (fun _ => True) w (w.requested setting.env (left.take size)) :=
      ⟨[left.take size], rfl, fun _ _ _ _ => trivial⟩
    refine ⟨⟨hsends.trans hrequest, fun text htext => (hall text htext).imp id (·.later hrequest)⟩,
      hsends.trans hrequest, fun text htext => ?_⟩
    rcases hall text htext with hleft | hsent
    · -- it is in this request, or it is left by it
      rw [← List.take_append_drop size left, List.mem_append] at hleft
      rcases hleft with hnow | hleft
      · exact .inr (World.Sent.before hsends
          ⟨[left.take size], rfl, _, List.mem_singleton_self _, hnow⟩)
      · exact .inl hleft
    · exact .inr (hsent.later hrequest)

structure Embeds (home : Location) (s : RunState σ) (given : PreparedFile → Prop)
    (t : RunState σ) : Prop extends Sending home (fun _ => True) s t where
  sent : t.core.missed = s.core.missed → ∀ file, given file → ∀ e ∈ file.fresh,
    World.Sent e.text s.world t.world

variable {given given' : PreparedFile → Prop} {setting}

theorem Embeds.fewer (h : Embeds home s given t) (hless : ∀ file, given' file → given file) :
    Embeds home s given' t :=
  ⟨h.toSending, fun hmissed file hfile => h.sent hmissed file (hless file hfile)⟩

/-- What is sent later leaves what was sent, as long as nothing is missed. -/
theorem Embeds.later (h : Embeds home s given t) (hsending : Sending home (fun _ => True) s u)
    (hsends : World.Sends (fun _ => True) t.world u.world)
    (hmissed : u.core.missed = t.core.missed) : Embeds home s given u :=
  ⟨hsending, fun heq file hfile e he =>
    (h.sent (hmissed.symm.trans heq) file hfile e he).later hsends⟩

theorem Embeds.missing (h : Embeds home s given t) (hsending : Sending home (fun _ => True) s u)
    (hmissed : u.core.missed = t.core.missed + 1) : Embeds home s given' u := by
  refine ⟨hsending, fun heq => ?_⟩
  have hleast := h.missed
  omega

theorem Embeds.counted (h : Embeds home s given t) (hc : Counted t u) : Embeds home s given u := by
  have hsending := h.toSending.counted hc
  obtain ⟨⟨_, _, rfl⟩, hfailed, _⟩ := hc
  exact h.later hsending (.none rfl) (congrArg (· + t.unreadable) hfailed)

variable (setting) (hstill : setting.env.Still) (plan : RunPlan)

include hstill

/-- A batch that misses none of its files sends all their texts. -/
theorem writeBatch_embeds (pending : List PreparedFile)
    (hpending : ∀ file ∈ pending, file.modificationTime < Nat.pow 2 64)
    (hready : Ready setting.stateDir home s.world.disk) (hsound : s.optimizer.Sound)
    (h : Embeds home s given t) :
    Runs (writeBatch setting plan pending) t
      (fun _ u => Embeds home s (fun file => given file ∨ file ∈ pending) u) (fun _ _ => True) := by
  have hbegun : Embeds home s given (t.begunBatch (pending.map (·.path))) :=
    h.later (h.toSending.called ⟨_, _, _, rfl⟩ t.manifest id fun _ hs => hs) (.none rfl) rfl
  -- with the embedding all files are known, and without it those that have no texts
  let Known (failure : Option IndexError) (rest : List PreparedFile) (file : PreparedFile) : Prop :=
    given file ∨ file ∈ pending ∧ (failure = none ∨ file ∉ rest)
  apply writeBatch_steps setting plan pending (fun failure _ _ rest u =>
    (∀ file ∈ rest, file.modificationTime < Nat.pow 2 64) ∧ Embeds home s (Known failure rest) u)
  · apply runs_imp _ _ _ (runs_and _ _ _ (runs_and _ _ _
      (embedAll_facts setting hstill (textsOf pending) _)
      (embedAll_sends setting (textsOf pending) (fun _ _ => trivial) _))
      (embedAll_sent setting (textsOf pending) (hbegun.sound hsound)))
    · rintro _ u ⟨⟨⟨hquiet, _⟩, hsends⟩, hsent⟩
      have hold := hbegun.later (hbegun.toSending.quiet hquiet hsends) hsends
        (core_missed hquiet.core)
      refine ⟨hpending, hold.toSending, fun hmissed file hfile e he => ?_⟩
      rcases hfile with hfile | ⟨hfile, _⟩
      · exact hold.sent hmissed file hfile e he
      · have htext : e.text ∈ textsOf pending :=
          List.mem_flatMap.mpr ⟨file, hfile, List.mem_map_of_mem he⟩
        exact World.Sent.before hbegun.sends (hsent _ htext)
    · rintro error u ⟨⟨⟨hquiet, _⟩, hsends⟩, _⟩
      have hold := hbegun.later (hbegun.toSending.quiet hquiet hsends) hsends
        (core_missed hquiet.core)
      refine ⟨hpending, hold.fewer fun file hfile => ?_⟩
      rcases hfile with hfile | ⟨hfile, hnone | hout⟩
      · exact hfile
      · cases hnone
      · exact absurd hfile hout
  · rintro failure _ _ file rest u e _ _ ⟨htime, hu⟩
    exact ⟨fun f hf => htime f (List.mem_cons_of_mem _ hf),
      hu.missing ⟨since_addFailure hu.toSince _ _, hu.sends, hu.sound⟩ (by rw [core_addFailure])⟩
  · rintro failure _ vectors file rest u hcase ⟨htime, hu⟩
    rw [runs_writeFile]
    apply runs_imp _ _ _ (World.updateFile_called setting.env hstill setting.store file.path
      file.previousIds file.currentIds (withVectors file.fresh vectors) file.hasRecord u.world)
    · intro _ w hw
      have hold := hu.later (hu.toSending.called hw _
        (Manifest.keyed_recordIndexed _ (recordOf plan file) _)
        fun hnow hs => hs.recordIndexed _ (htime file List.mem_cons_self) _ hnow) hw.sends rfl
      refine ⟨fun f hf => htime f (List.mem_cons_of_mem _ hf), hold.toSending,
        fun hmissed f hf e he => ?_⟩
      rcases hf with hf | ⟨hf, hknown⟩
      · exact hold.sent hmissed f (.inl hf) e he
      · by_cases heq : f = file
        · -- a file is written without the embedding only if it has no texts
          subst heq
          rcases hcase with hnone | hfresh
          · exact hold.sent hmissed f (.inr ⟨hf, .inl hnone⟩) e he
          · rw [hfresh] at he
            exact absurd he List.not_mem_nil
        · refine hold.sent hmissed f (.inr ⟨hf, hknown.imp id fun hout hmem => ?_⟩) e he
          exact (List.mem_cons.mp hmem).elim heq hout
    · exact fun _ _ _ => trivial
  · rintro failure done _ u v ⟨_, hu⟩ hcounted
    have hv := hu.counted hcounted
    apply runs_imp _ _ _ (runs_and _ _ _
      (commitBatch_sending setting hstill done hready hv.toSending)
      (commitBatch_committed setting hstill done v (hready.of_same hv.same)))
    · rintro _ x ⟨hx, hc⟩
      have hmissed := congrArg Core.missed hc.core
      exact (hv.later hx (.none hc.requests) hmissed).fewer fun file hfile =>
        hfile.imp id fun hmem => ⟨hmem, .inr List.not_mem_nil⟩
    · exact fun _ _ _ => trivial
  · exact fun u v hu hcounted => hu.counted hcounted

/-- Files that are prepared and written, without one being missed, have all their texts sent. -/
theorem drain_embeds (items : List WorkItem) (read : WorkItem → Prepared)
    (hread : ∀ d, Same home s.world.disk d → ∀ item ∈ items,
      prepare setting plan.force d item = read item)
    (hready : Ready setting.stateDir home s.world.disk) (hsound : s.optimizer.Sound)
    (h : Sending home (fun _ => True) s t) :
    Runs (drain setting plan items.length { items := items }) t
      (fun ending u => ending = .finished →
        Embeds home s (fun file => ∃ item ∈ items, read item = .ready file) u)
      (fun _ _ => True) := by
  -- of each file that is not to come any more the texts were sent, or it is in the batch
  let Known (pending : List PreparedFile) (todo : List Prepared) (file : PreparedFile) : Prop :=
    (∃ item ∈ items, read item = .ready file) ∧ .ready file ∉ todo ∧ file ∉ pending
  let Timely (next : Prepared) : Prop :=
    ∀ file, next = .ready file → file.modificationTime < Nat.pow 2 64
  have htimely (item : WorkItem) (hitem : item ∈ items) : Timely (read item) := by
    intro file hfile
    rw [← hread _ (Disk.SameBut.refl hready.leaf) item hitem] at hfile
    exact prepare_time setting hfile
  apply runs_imp _ _ _ (drain_rule setting plan read (fun pending todo u =>
    (∀ file ∈ pending, file.modificationTime < Nat.pow 2 64) ∧ (∀ next ∈ todo, Timely next) ∧
      Embeds home s (Known pending todo) u) (fun _ _ => True) (fun _ => True) items
    (fun pending todo u hu item hitem => hread _ hu.2.2.same item hitem) ?_ ?_
    (fun _ _ _ _ _ => trivial) _ { items := items } t (fun _ hi => hi) (by simp) ?_)
  · rintro ending u ⟨hfinished, _⟩ hending
    exact (hfinished hending).2.2.fewer fun file hfile =>
      ⟨hfile, List.not_mem_nil, List.not_mem_nil⟩
  · exact fun _ _ _ => trivial
  · rintro pending next todo u ⟨hpending, htodo, hu⟩
    have hrest : ∀ next ∈ todo, Timely next := fun n hn => htodo n (List.mem_cons_of_mem _ hn)
    have hsince := since_takePrepared hu.toSince pending next
    cases next with
    | ready file =>
      refine ⟨?_, hrest, ?_⟩
      · exact List.forall_mem_append.mpr ⟨hpending,
          List.forall_mem_singleton.mpr (htodo _ List.mem_cons_self file rfl)⟩
      · refine (hu.later ⟨hsince, hu.sends, hu.sound⟩ (.none rfl) rfl).fewer
          fun f hf => ⟨hf.1, fun hmem => ?_, fun hmem => ?_⟩
        · rcases List.mem_cons.mp hmem with heq | hmem
          · cases heq
            exact hf.2.2 (List.mem_append_right _ (List.mem_singleton_self _))
          · exact hf.2.1 hmem
        · exact hf.2.2 (List.mem_append_left _ hmem)
    | unreadable path =>
      exact ⟨hpending, hrest, hu.missing ⟨hsince, hu.sends, hu.sound⟩
        (congrArg Core.missed (core_addUnreadable u))⟩
    | failed path e =>
      exact ⟨hpending, hrest, hu.missing ⟨hsince, hu.sends, hu.sound⟩
        (congrArg Core.missed (core_addFailure u path e))⟩
  · rintro pending todo u _ ⟨hpending, htodo, hu⟩ _
    apply runs_imp _ _ _ (writeBatch_embeds setting hstill plan pending hpending hready hsound hu)
    · intro _ v hv
      refine ⟨fun _ hmem => absurd hmem List.not_mem_nil, htodo, hv.fewer fun file hfile => ?_⟩
      by_cases hmem : file ∈ pending
      · exact .inr hmem
      · exact .inl ⟨hfile.1, hfile.2.1, hmem⟩
    · exact fun _ _ _ => trivial
  · refine ⟨fun _ hmem => absurd hmem List.not_mem_nil, fun next hnext => ?_, h,
      fun _ file hfile => ?_⟩
    · obtain ⟨item, hitem, rfl⟩ := List.mem_map.mp hnext
      exact htimely item hitem
    · -- at first every file is still to come
      obtain ⟨⟨item, hitem, hprepared⟩, hout, _⟩ := hfile
      exact absurd (List.mem_map.mpr ⟨item, hitem, hprepared⟩) hout

/-- Without renames, batches that miss no file send all texts of the files that they write. -/
theorem runBatches_embeds (changes : ChangeSet) (hforce : plan.force = true)
    (hrenamed : changes.renamed = []) (hwork : changes.Workable look)
    (hseen : Seen setting.root home s.world.disk look)
    (hready : Ready setting.stateDir home s.world.disk) (hsound : s.optimizer.Sound) :
    Runs (runBatches setting plan changes) s
      (fun ending t => ending = .finished → t.core.missed = s.core.missed →
        ∀ p, changes.Writes p → ∀ text ∈ setting.mintedTexts s.manifest s.world.disk p,
          World.Sent text s.world t.world)
      (fun _ _ => True) := by
  have hsame := Disk.SameBut.refl hready.leaf
  apply runBatches_rule setting plan changes
    (fun reindex t => (Sending home (fun _ => True) s t ∧ ∀ p ∈ reindex, changes.Writes p) ∧
      changes.Leaves s.manifest t.manifest)
  · exact fun _ hending => by cases hending
  · exact fun _ _ => ⟨⟨⟨.refl hready.leaf, .none rfl, id⟩, fun _ hp => absurd hp List.not_mem_nil⟩,
      fun _ _ _ => rfl⟩
  · apply runs_imp _ _ _ (runs_and _ _ _
      (applyStructural_sending setting hstill plan changes hready
        ⟨.refl hready.leaf, .none rfl, id⟩)
      (applyStructural_leaves setting plan changes))
    · exact fun _ _ ht => ht
    · exact fun _ _ _ => trivial
  · rintro reindex t ⟨⟨ht, hreindex⟩, hleaves⟩
    let paths := sortedPaths (changes.added ++ changes.modified ++ reindex)
    have hlength : paths.length = (paths.map (WorkItem.ofPath t.manifest)).length :=
      (List.length_map _).symm
    rw [hlength]
    apply runs_imp _ _ _ (drain_embeds setting hstill plan (paths.map (WorkItem.ofPath t.manifest))
      (prepare setting plan.force s.world.disk) ?_ hready hsound ht)
    · intro ending u hu hending hmissed p hp text htext
      have hmem : p ∈ paths := by
        rw [mem_sortedPaths, List.mem_append, List.mem_append]
        rcases hp with hp | hp | ⟨e, he, _⟩
        · exact .inl (.inl hp)
        · exact .inl (.inr hp)
        · rw [hrenamed] at he
          exact absurd he List.not_mem_nil
      -- the file is prepared by the record that it had before the deletions
      have hrecord := hleaves hrenamed p (hwork.apart p hp)
      rw [← mintedTexts_congr setting rfl hrecord] at htext
      obtain ⟨file, hprepared, e, he, rfl⟩ := (mem_mintedTexts setting).mp htext
      exact (hu hending).sent hmissed file
        ⟨_, List.mem_map_of_mem hmem, by rw [hforce]; exact hprepared⟩ e he
    · exact fun _ _ _ => trivial
    · -- what is to be written was seen, so that it reads the same at any time
      intro d hd item hitem
      obtain ⟨p, hp, rfl⟩ := List.mem_map.mp hitem
      obtain ⟨hash, hlook⟩ := hwork.present p (ChangeSet.writes_of_left hreindex hp)
      obtain ⟨content, modified, _, hread⟩ := hseen p hash hlook
      unfold prepare
      rw [WorkItem.ofPath_path, hread d hd, hread _ hsame]

end RunState

namespace RunSetting

open RunState

variable {σ : Type} (setting : RunSetting σ) {home : Location} {filter : FileFilter}
  {look : String → FileState}

/-- A run that embeds everything anew sends no other texts than those minted for its files. -/
theorem execute_mints (hstill : setting.env.Still) (c : RunContext) (detection : Detection)
    (w : World σ) (hready : Ready setting.stateDir home w.disk)
    (hrenamed : detection.changes.renamed = []) (hwork : detection.changes.Workable look)
    (hseen : Seen setting.root home w.disk look) :
    Runs (setting.execute filter c detection true) w
      (fun report w' => ∀ res, report.outcome = .ok res → World.Sends (fun text => ∃ p,
        detection.changes.Writes p ∧ text ∈ setting.mintedTexts c.manifest w.disk p) w w')
      (fun _ _ => False) := by
  apply execute_sending setting hstill c detection true w hready
  intro d m p file hsame hp hleaves hprepared e he
  obtain ⟨hash, hlook⟩ := hwork.present p hp
  obtain ⟨content, modified, _, hread⟩ := hseen p hash hlook
  refine ⟨p, hp, ?_⟩
  rw [← mintedTexts_congr setting ((hread d hsame).trans (hread _ (.refl hready.leaf)).symm)
    (hleaves hrenamed p (hwork.apart p hp))]
  exact (mem_mintedTexts setting).mpr ⟨file, hprepared, e, he, rfl⟩

/-- It sends all of these, if it is finished and misses no file. -/
theorem execute_forced (hstill : setting.env.Still) (c : RunContext) (detection : Detection)
    (w : World σ) (hready : Ready setting.stateDir home w.disk)
    (hrenamed : detection.changes.renamed = []) (hwork : detection.changes.Workable look)
    (hseen : Seen setting.root home w.disk look) :
    Runs (setting.execute filter c detection true) w
      (fun report w' => report.IsFinished → report.state.Clean → ∀ p, detection.changes.Writes p →
        ∀ text ∈ setting.mintedTexts c.manifest w.disk p, World.Sent text w w')
      (fun _ _ => False) := by
  apply runs_imp _ _ _ (execute_batches setting home filter hstill c detection true w hready
    (fun ending t => ending = .finished → t.core.missed = 0 → ∀ p, detection.changes.Writes p →
      ∀ text ∈ setting.mintedTexts c.manifest w.disk p, World.Sent text w t.world)
    (fun _ _ => True) ?_)
  · rintro report w' ⟨hworld, hends⟩ ⟨res, houtcome, hfinished⟩ hclean p hp text htext
    rcases hends res houtcome with ⟨haborted, _⟩ | ⟨plan, t, ht, hcompleted, _⟩
    · exact absurd haborted hfinished
    · have hzero : t.core.missed = 0 := (clean_iff t).mp (hcompleted.clean_same.mp hclean)
      have hnone : World.Sends (fun _ => True) t.world report.state.world :=
        .none hcompleted.calls.1
      rw [← hworld]
      exact (ht rfl hzero p hp text htext).later hnone
  · exact fun _ _ h => h
  · intro plan s hbegun
    have hready' := hready.of_same hbegun.same
    have hnone : World.Sends (fun _ => True) w s.world := .none hbegun.requests
    have hsending : Runs (runBatches setting plan detection.changes) s
        (fun _ t => Sending home (fun _ => True) s t) (SendingFailed home (fun _ => True) s) :=
      runBatches_sending setting hstill plan detection.changes hready'
        fun _ _ _ _ _ _ _ _ _ _ => trivial
    apply runs_imp _ _ _ (runs_and _ _ _ hsending
      (runBatches_embeds setting hstill plan detection.changes hbegun.force hrenamed hwork
        (hseen.of_same hbegun.same) hready' hbegun.sound))
    · rintro ending t ⟨ht, htold⟩
      refine ⟨ht.same, fun hending hzero p hp text htext => ?_⟩
      have hmissed : t.core.missed = s.core.missed := by
        have hleast := ht.missed
        omega
      obtain ⟨hash, hlook⟩ := hwork.present p hp
      obtain ⟨content, modified, _, hread⟩ := hseen p hash hlook
      rw [← mintedTexts_congr setting ((hread _ hbegun.same).trans
        (hread _ (.refl hready.leaf)).symm) (congrArg (·.get? p) hbegun.manifest)] at htext
      exact World.Sent.before hnone (htold hending hmissed p hp text htext)
    · exact fun _ _ _ => trivial

end RunSetting

end CodeIndex
