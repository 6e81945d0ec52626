import CodeIndex.Proofs.Run.Records
import CodeIndex.Proofs.Run.Touching

namespace CodeIndex

open StateDir

namespace RunState

variable {σ : Type} (setting : RunSetting σ) (plan : RunPlan) (home : Location)
  (s₀ : RunState σ) (m : Manifest) (paths : List String)

def Ripe (file : PreparedFile) : Prop :=
  file.path ∈ paths ∧ ∃ d, Same home s₀.world.disk d ∧
    prepare setting plan.force d (WorkItem.ofPath m file.path) = .ready file

def Gathered (next : Prepared) : Prop :=
  ∃ p ∈ paths, ∃ d, Same home s₀.world.disk d ∧
    next = prepare setting plan.force d (WorkItem.ofPath m p)

/-- `A` holds between two batches, with the paths that are left to be written, and `B` within the
batch of some paths. Each deed carries them on, or ends the run in `E`. -/
structure Carried (A : List String → RunState σ → Prop)
    (B : List String → List String → RunState σ → Prop) (E : IndexError → RunState σ → Prop) :
    Prop where
  same : ∀ left t, A left t → Same home s₀.world.disk t.world.disk
  sound : ∀ left t, A left t → t.optimizer.Sound
  fewer : ∀ left left' t, A left t → left' ⊆ left → A left' t
  quiet : ∀ left t u, A left t → Quiet setting.env t u → A left u
  take : ∀ left t pending next, Gathered setting plan home s₀ m paths next → A left t →
    A left (takePrepared t pending next).1
  start : ∀ batch left t u, A left t → Quiet setting.env (t.begunBatch batch) u → B batch left u
  fail : ∀ batch path left t e, (∀ vector, ¬ setting.Faithful vector) →
    B batch (path :: left) t → B batch left (t.addFailure path e)
  write : ∀ batch file vectors left t, Ripe setting plan home s₀ m paths file →
    file.path ∈ batch → file.path ∉ left → file.fresh.length ≤ vectors.length →
    B batch (file.path :: left) t →
    Runs (writeFile setting plan file vectors) t (fun _ u => B batch left u) E
  commit : ∀ batch done left t u, B batch left t → Quiet setting.env t u →
    Runs (commitBatch setting done) u (fun _ v => A left v) E

variable {setting plan home s₀ m paths} {A : List String → RunState σ → Prop}
  {B : List String → List String → RunState σ → Prop} {E : IndexError → RunState σ → Prop}

/-- What is asserted of the store, of the records and of the paths that are left is carried
alongside, if every file that is written carries it on. -/
theorem Carried.alongside (h : Carried setting plan home s₀ m paths A B E)
    (N : List String → σ → Manifest → Prop)
    (hfewer : ∀ left left' s n, N left s n → left' ⊆ left → N left' s n)
    (hwrite : ∀ batch file vectors left t, Ripe setting plan home s₀ m paths file →
      file.path ∉ left → file.fresh.length ≤ vectors.length → B batch (file.path :: left) t →
      N (file.path :: left) t.world.store t.manifest →
      Runs ((World.reach setting.env setting.store).updateFile file.path file.previousIds
          file.currentIds (withVectors file.fresh vectors) file.hasRecord) t.world
        (fun _ w => N left w.store (t.manifest.recordIndexed (recordOf plan file) w.unixTime))
        fun _ _ => True) :
    Carried setting plan home s₀ m paths
      (fun left t => A left t ∧ N left t.world.store t.manifest)
      (fun batch left t => B batch left t ∧ N left t.world.store t.manifest) E where
  same left t ht := h.same left t ht.1
  sound left t ht := h.sound left t ht.1
  fewer left left' t ht hsub := ⟨h.fewer left left' t ht.1 hsub, hfewer _ _ _ _ ht.2 hsub⟩
  quiet left t u ht hq := by
    have hs : u.world.store = t.world.store := congrArg Core.store hq.core
    refine ⟨h.quiet left t u ht.1 hq, ?_⟩
    rw [hs, core_manifest hq.core]
    exact ht.2
  take left t pending next hnext ht := by
    refine ⟨h.take left t pending next hnext ht.1, ?_⟩
    cases next <;> exact ht.2
  start batch left t u ht hq := by
    have hs : u.world.store = (t.begunBatch batch).world.store := congrArg Core.store hq.core
    have hm : u.manifest = (t.begunBatch batch).manifest := core_manifest hq.core
    refine ⟨h.start batch left t u ht.1 hq, ?_⟩
    rw [hs, hm]
    exact ht.2
  fail batch path left t e hnever ht :=
    ⟨h.fail batch path left t e hnever ht.1, hfewer _ _ _ _ ht.2 (List.subset_cons_self path left)⟩
  write batch file vectors left t hripe hbatch hleft hvectors ht := by
    have hwritten := h.write batch file vectors left t hripe hbatch hleft hvectors ht.1
    rw [runs_writeFile] at hwritten ⊢
    apply runs_imp _ _ _ (runs_and _ _ _ hwritten
      (hwrite batch file vectors left t hripe hleft hvectors ht.1 ht.2))
    · exact fun _ _ hw => hw
    · exact fun _ _ he => he.1
  commit batch done left t u ht hq := by
    have hs : u.world.store = t.world.store := congrArg Core.store hq.core
    apply runs_imp _ _ _ (runs_and _ _ _ (h.commit batch done left t u ht.1 hq)
      (commitBatch_touches setting done u))
    · rintro _ v ⟨hv, _, hstore, hm, _⟩
      refine ⟨hv, ?_⟩
      rw [hstore, hm, hs, core_manifest hq.core]
      exact ht.2
    · exact fun _ _ he => he.1

theorem Gathered.ripe {file : PreparedFile}
    (h : Gathered setting plan home s₀ m paths (.ready file)) :
    Ripe setting plan home s₀ m paths file := by
  obtain ⟨p, hp, d, hsame, hprepared⟩ := h
  have hpath : file.path = p := by
    have heq := prepare_path setting plan.force d (WorkItem.ofPath m p)
    rw [← hprepared, WorkItem.ofPath_path] at heq
    exact heq
  subst hpath
  exact ⟨hp, d, hsame, hprepared.symm⟩

theorem Carried.writeBatch (h : Carried setting plan home s₀ m paths A B E)
    (hstill : setting.env.Still) (files : List PreparedFile)
    (hfiles : ∀ file ∈ files, Ripe setting plan home s₀ m paths file) (left : List String)
    (hnodup : (files.map (·.path) ++ left).Nodup) (t : RunState σ)
    (ht : A (files.map (·.path) ++ left) t) :
    Runs (RunState.writeBatch setting plan files) t (fun _ u => A left u) E := by
  apply writeBatch_rule setting hstill plan files (fun failure _ vectors rest u =>
    ((∀ file ∈ rest, Ripe setting plan home s₀ m paths file ∧ file.path ∈ files.map (·.path)) ∧
      (rest.map (·.path) ++ left).Nodup ∧
      (failure = none → (textsOf rest).length ≤ vectors.length) ∧
      (failure ≠ none → ∀ vector, ¬ setting.Faithful vector)) ∧
    B (files.map (·.path)) (rest.map (·.path) ++ left) u)
  · intro failure vectors u hquiet hvectors hnever
    exact ⟨⟨fun file hfile => ⟨hfiles file hfile, List.mem_map_of_mem hfile⟩, hnodup,
      fun hnone => Nat.le_of_eq (hvectors hnone (h.sound _ t ht)).1.symm, hnever⟩,
      h.start _ _ t u ht hquiet⟩
  · -- a file that failed is done with
    rintro failure done vectors file rest u e he hfresh ⟨⟨hripe, hnodup', hvectors, hnever⟩, hu⟩
    have hsome : failure ≠ none := by
      rw [he]
      exact Option.some_ne_none e
    exact ⟨⟨fun f hf => hripe f (List.mem_cons_of_mem _ hf), (List.nodup_cons.mp hnodup').2,
      fun hnone => absurd hnone hsome, hnever⟩, h.fail _ _ _ u e (hnever hsome) hu⟩
  · rintro failure done vectors file rest u hcase ⟨⟨hripe, hnodup', hvectors, hnever⟩, hu⟩
    have htexts : (textsOf (file :: rest)).length = file.fresh.length + (textsOf rest).length := by
      unfold textsOf
      rw [List.flatMap_cons, List.length_append, List.length_map]
    have hlength : file.fresh.length ≤ vectors.length := by
      rcases hcase with hnone | hnil
      · have h := hvectors hnone
        omega
      · rw [hnil]
        exact Nat.zero_le _
    have hmine := hripe file List.mem_cons_self
    apply runs_imp _ _ _ (h.write _ file vectors (rest.map (·.path) ++ left) u hmine.1 hmine.2
      (List.nodup_cons.mp hnodup').1 hlength hu)
    · intro _ v hv
      refine ⟨⟨fun f hf => hripe f (List.mem_cons_of_mem _ hf), (List.nodup_cons.mp hnodup').2,
        fun hnone => ?_, hnever⟩, hv⟩
      have h' := hvectors hnone
      rw [List.length_drop]
      omega
    · exact fun _ _ he => he
  · rintro failure done vectors u v ⟨_, hu⟩ hquiet
    exact h.commit _ done left u v hu hquiet
  · exact fun u v hu hquiet => h.quiet left u v hu hquiet

def pathsLeft (pending : List PreparedFile) (ahead : List Prepared) (items : List WorkItem) :
    List String :=
  pending.map (·.path) ++ (ahead.map Prepared.path ++ items.map (·.path))

theorem pathsLeft_taken (pending : List PreparedFile) (file : PreparedFile) (ahead : List Prepared)
    (items : List WorkItem) :
    pathsLeft (pending ++ [file]) ahead items = pathsLeft pending (.ready file :: ahead) items := by
  simp only [pathsLeft, List.map_append, List.map_cons, List.map_nil, List.append_assoc,
    List.cons_append, List.nil_append]
  rfl

theorem pathsLeft_fewer (pending : List PreparedFile) (next : Prepared) (ahead : List Prepared)
    (items : List WorkItem) :
    (pathsLeft pending ahead items).Sublist (pathsLeft pending (next :: ahead) items) :=
  (List.Sublist.refl _).append (List.sublist_cons_self _ _)

/-- The files of a run wait in line, each of them once: those of the batch, those read ahead at some
time of the run, and those to be read. -/
structure InLine (setting : RunSetting σ) (plan : RunPlan) (home : Location) (s₀ : RunState σ)
    (m : Manifest) (paths : List String) (pending : List PreparedFile) (ahead : List Prepared)
    (items : List WorkItem) : Prop where
  batch : ∀ file ∈ pending, Ripe setting plan home s₀ m paths file
  gathered : ∀ next ∈ ahead, Gathered setting plan home s₀ m paths next
  waiting : ∀ item ∈ items, ∃ p ∈ paths, item = WorkItem.ofPath m p
  distinct : (pathsLeft pending ahead items).Nodup

variable {pending : List PreparedFile} {ahead : List Prepared} {items : List WorkItem}

theorem InLine.start (hnodup : paths.Nodup) :
    pathsLeft [] [] (paths.map (WorkItem.ofPath m)) = paths ∧
      InLine setting plan home s₀ m paths [] [] (paths.map (WorkItem.ofPath m)) := by
  have hpaths : pathsLeft [] [] (paths.map (WorkItem.ofPath m)) = paths := by
    simp only [pathsLeft, List.map_nil, List.nil_append, List.map_map]
    exact (List.map_congr_left fun p _ => WorkItem.ofPath_path m p).trans (List.map_id paths)
  refine ⟨hpaths, nofun, nofun, fun item hitem => ?_, hpaths.symm ▸ hnodup⟩
  obtain ⟨p, hp, rfl⟩ := List.mem_map.mp hitem
  exact ⟨p, hp, rfl⟩

theorem InLine.read {item : WorkItem}
    (h : InLine setting plan home s₀ m paths pending ahead (item :: items)) {d : Disk}
    (hsame : Same home s₀.world.disk d) :
    pathsLeft pending (ahead ++ [prepare setting plan.force d item]) items =
        pathsLeft pending ahead (item :: items) ∧
      InLine setting plan home s₀ m paths pending (ahead ++ [prepare setting plan.force d item])
        items := by
  have hpaths : pathsLeft pending (ahead ++ [prepare setting plan.force d item]) items =
      pathsLeft pending ahead (item :: items) := by
    simp only [pathsLeft, List.map_append, List.map_cons, List.map_nil,
      prepare_path setting plan.force d item, List.append_assoc, List.cons_append, List.nil_append]
  refine ⟨hpaths, h.batch, fun next hnext => ?_,
    fun i hi => h.waiting i (List.mem_cons_of_mem _ hi), hpaths.symm ▸ h.distinct⟩
  rcases List.mem_append.mp hnext with hnext | hnext
  · exact h.gathered next hnext
  · obtain ⟨p, hp, rfl⟩ := h.waiting item List.mem_cons_self
    rw [List.mem_singleton.mp hnext]
    exact ⟨p, hp, d, hsame, rfl⟩

/-- A file that is taken joins the batch if it is ready, and else leaves the line. -/
theorem InLine.take {next : Prepared}
    (h : InLine setting plan home s₀ m paths pending (next :: ahead) items) (t : RunState σ) :
    pathsLeft (takePrepared t pending next).2 ahead items ⊆ pathsLeft pending (next :: ahead) items ∧
      InLine setting plan home s₀ m paths (takePrepared t pending next).2 ahead items := by
  have hahead : ∀ next ∈ ahead, Gathered setting plan home s₀ m paths next :=
    fun next h' => h.gathered next (List.mem_cons_of_mem _ h')
  have hfewer := pathsLeft_fewer pending next ahead items
  cases next with
  | ready file =>
    have hpaths := pathsLeft_taken pending file ahead items
    refine ⟨hpaths ▸ List.Subset.refl _, fun f hf => ?_, hahead, h.waiting, hpaths ▸ h.distinct⟩
    rcases List.mem_append.mp hf with hf | hf
    · exact h.batch f hf
    · rw [List.mem_singleton.mp hf]
      exact (h.gathered _ List.mem_cons_self).ripe
  | unreadable path =>
    exact ⟨hfewer.subset, h.batch, hahead, h.waiting, h.distinct.sublist hfewer⟩
  | failed path e => exact ⟨hfewer.subset, h.batch, hahead, h.waiting, h.distinct.sublist hfewer⟩

/-- The files at some paths are prepared and written batch by batch. -/
theorem Carried.drain (h : Carried setting plan home s₀ m paths A B E)
    (hstill : setting.env.Still) (hnodup : paths.Nodup) (t : RunState σ) (ht : A paths t) :
    Runs (RunState.drain setting plan paths.length { items := paths.map (WorkItem.ofPath m) }) t
      (fun ending u => A [] u ∧ (ending = .cancelled → u.world.isCancelled = true)) E := by
  obtain ⟨hpaths, hstart⟩ := @InLine.start σ setting plan home s₀ m paths hnodup
  -- whatever is asserted of the paths that are left is about those in line
  apply runs_imp _ _ _ (drain_steps setting plan
    (fun pending ahead items u => InLine setting plan home s₀ m paths pending ahead items ∧
      A (pathsLeft pending ahead items) u)
    E (fun u => A [] u ∧ u.world.isCancelled = true) ?_ ?_ ?_ ?_ _ _ t ?_ ?_)
  · rintro ending u ⟨hfinished, hcancelled⟩
    cases ending with
    | finished => exact ⟨(hfinished rfl).2, nofun⟩
    | cancelled => exact ⟨(hcancelled rfl).1, fun _ => (hcancelled rfl).2⟩
  · exact fun _ _ h => h
  · rintro pending ahead item items u ⟨hline, hu⟩
    obtain ⟨hsame, hread⟩ := hline.read (h.same _ u hu)
    exact ⟨hread, hsame.symm ▸ hu⟩
  · rintro pending next ahead items u ⟨hline, hu⟩
    obtain ⟨hfewer, htaken⟩ := hline.take u
    exact ⟨htaken,
      h.fewer _ _ _ (h.take _ u pending next (hline.gathered next List.mem_cons_self) hu) hfewer⟩
  · rintro pending ahead items u _ ⟨hline, hu⟩ _
    apply runs_imp _ _ _ (h.writeBatch hstill pending hline.batch (pathsLeft [] ahead items)
      hline.distinct u hu)
    · exact fun _ v hv => ⟨⟨nofun, hline.gathered, hline.waiting,
        hline.distinct.sublist (List.sublist_append_right _ _)⟩, hv⟩
    · exact fun _ _ h => h
  · exact fun pending ahead items u hu hcancelled =>
      ⟨h.fewer _ _ u hu.2 fun _ hq => absurd hq List.not_mem_nil, hcancelled⟩
  · simp
  · exact ⟨hstart, hpaths.symm ▸ ht⟩

end RunState

end CodeIndex
