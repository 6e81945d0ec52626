import CodeIndex.Proofs.Run.Leftover
import CodeIndex.Proofs.Run.Tidied

/-!
Runs that are made again after they were stopped. What is left of the first run is a part of its
edits and the records of the files that were gathered, so that the second one finds what the first
one did not come to, makes the edits of the batch that was broken off from the start, and ends where
a run that is not stopped would have ended.
-/

namespace CodeIndex

open StateDir

namespace Contents

variable {vector : String → Embedding} {plan : RunPlan} {files : List PreparedFile}
  {a b c : Contents} {look : String → FileState}

theorem foldl_write_elsewhere {p : String} (h : ∀ file ∈ files, file.path ≠ p) :
    (files.foldl (write vector plan) c).manifest.get? p = c.manifest.get? p := by
  induction files generalizing c with
  | nil => rfl
  | cons file rest ih =>
    have hne : (RunState.recordOf plan file).path ≠ p := h file List.mem_cons_self
    calc ((file :: rest).foldl (write vector plan) c).manifest.get? p
      _ = (c.write vector plan file).manifest.get? p :=
        ih fun other hother => h other (List.mem_cons_of_mem _ hother)
      _ = c.manifest.get? p := (Manifest.get?_recordIndexed _ _ _ _).trans (if_neg hne)

/-- What is written is right afterwards, and nothing else changes. -/
theorem foldl_write_right (h : ∀ file ∈ files, look file.path = .present file.hash) :
    c.manifest.Mends look (files.foldl (write vector plan) c).manifest ∧
      ∀ file ∈ files, (files.foldl (write vector plan) c).manifest.Right look file.path := by
  induction files generalizing c with
  | nil => exact ⟨.refl _, fun _ hfile => absurd hfile List.not_mem_nil⟩
  | cons file rest ih =>
    obtain ⟨hmends, hright⟩ := Manifest.right_recordIndexed c.manifest
      (RunState.recordOf plan file) .zero (h file List.mem_cons_self)
    obtain ⟨hlater, hothers⟩ := ih (c := c.write vector plan file) fun other hother =>
      h other (List.mem_cons_of_mem _ hother)
    refine ⟨hmends.trans hlater, fun other hother => ?_⟩
    rcases List.mem_cons.mp hother with rfl | hother
    · exact hright.mends hlater
    · exact hothers other hother

/-- What is written is recorded in the same way, whatever was recorded there. -/
theorem foldl_write_congr
    (h : ∀ p, (∃ file ∈ files, file.path = p) ∨ a.manifest.get? p = b.manifest.get? p)
    (p : String) : (files.foldl (write vector plan) a).manifest.get? p =
      (files.foldl (write vector plan) b).manifest.get? p := by
  induction files generalizing a b with
  | nil => exact (h p).resolve_left fun ⟨file, hfile, _⟩ => absurd hfile List.not_mem_nil
  | cons file rest ih =>
    refine ih fun q => ?_
    have hwritten (c : Contents) : (c.write vector plan file).manifest.get? q =
        if file.path = q then some (RunState.recordOf plan file) else c.manifest.get? q :=
      Manifest.get?_recordIndexed _ _ _ _
    rw [hwritten, hwritten]
    rcases h q with ⟨other, hother, hpath⟩ | hsame
    · rcases List.mem_cons.mp hother with rfl | hother
      · exact .inr (by rw [if_pos hpath, if_pos hpath])
      · exact .inl ⟨other, hother, hpath⟩
    · exact .inr (by rw [hsame])

theorem foldl_write_recorded (hpaths : (files.map (·.path)).Nodup) {file : PreparedFile}
    (hfile : file ∈ files) : (files.foldl (write vector plan) c).manifest.get? file.path =
      some (RunState.recordOf plan file) := by
  induction files generalizing c with
  | nil => exact absurd hfile List.not_mem_nil
  | cons first rest ih =>
    obtain ⟨hfirst, hrest⟩ := List.nodup_cons.mp hpaths
    rcases List.mem_cons.mp hfile with rfl | hfile
    · calc (rest.foldl (write vector plan) (c.write vector plan file)).manifest.get? file.path
        _ = (c.write vector plan file).manifest.get? file.path :=
          foldl_write_elsewhere fun other hother heq =>
            hfirst (List.mem_map.mpr ⟨other, hother, heq⟩)
        _ = some (RunState.recordOf plan file) :=
          (Manifest.get?_recordIndexed _ _ _ _).trans (if_pos rfl)
    · exact ih hrest hfile

theorem foldl_write_missed : (files.foldl (write vector plan) c).missed = c.missed := by
  induction files generalizing c with
  | nil => rfl
  | cons file rest ih => exact ih

theorem gather_missed (prepared : List Prepared) : (c.gather vector plan prepared).missed =
    c.missed + prepared.countP fun next => next.file?.isNone := by
  show (List.foldl _ c _).missed + _ = _
  rw [foldl_write_missed]

theorem gather_alike {xs ys : List Prepared}
    (hfiles : xs.filterMap Prepared.file? = ys.filterMap Prepared.file?)
    (hstore : (a.gather vector plan xs).store = (b.gather vector plan ys).store)
    (hrecords : ∀ p, a.manifest.get? p = b.manifest.get? p)
    (hmissed : (a.gather vector plan xs).missed = (b.gather vector plan ys).missed) :
    (a.gather vector plan xs).Alike (b.gather vector plan ys) := by
  refine ⟨hstore, fun p => ?_, hmissed⟩
  show (List.foldl _ a _).manifest.get? p = (List.foldl _ b _).manifest.get? p
  rw [hfiles]
  exact foldl_write_congr (fun q => .inr (hrecords q)) p

end Contents

section Front

variable {look : String → FileState} {prepared : String → Prepared} {front rest : List String}
  {m m₀ m' : Manifest} {changes : ChangeSet}

/-- The files in front are gathered: those that were ready are recorded as they are, and nothing
else is recorded anew. -/
structure FrontDone (look : String → FileState) (prepared : String → Prepared)
    (front : List String) (m₀ m' : Manifest) : Prop where
  same : ∀ p, (p ∈ front → (prepared p).file? = none) → m'.get? p = m₀.get? p
  right : ∀ p ∈ front, (prepared p).file? ≠ none → m'.Right look p

theorem Prepared.file?_some {next : Prepared} {file : PreparedFile} :
    next.file? = some file ↔ next = .ready file := by
  cases next <;> simp [Prepared.file?]

theorem FrontDone.congr (h : FrontDone look prepared front m₀ m)
    (hm : ∀ p, m'.get? p = m.get? p) : FrontDone look prepared front m₀ m' where
  same p hp := (hm p).trans (h.same p hp)
  right p hp hready := (Manifest.right_congr (hm p)).mpr (h.right p hp hready)

def Truthful (look : String → FileState) (prepared : String → Prepared) (paths : List String) :
    Prop :=
  ∀ p ∈ paths, ∀ file, prepared p = .ready file → file.path = p ∧ look p = .present file.hash

theorem Contents.frontDone {vector : String → Embedding} {plan : RunPlan} {c : Contents}
    (h : Truthful look prepared front) :
    FrontDone look prepared front c.manifest
      (c.gather vector plan (front.map prepared)).manifest := by
  have hfile (file : PreparedFile) (hfile : file ∈ (front.map prepared).filterMap Prepared.file?) :
      file.path ∈ front ∧ prepared file.path = .ready file ∧
        look file.path = .present file.hash := by
    obtain ⟨next, hnext, hready⟩ := List.mem_filterMap.mp hfile
    obtain ⟨p, hp, rfl⟩ := List.mem_map.mp hnext
    have hready' := Prepared.file?_some.mp hready
    obtain ⟨rfl, hlook⟩ := h p hp file hready'
    exact ⟨hp, hready', hlook⟩
  constructor
  · intro p hp
    refine Contents.foldl_write_elsewhere fun file hmem => ?_
    rintro rfl
    obtain ⟨hin, hready, _⟩ := hfile file hmem
    have hnone := hp hin
    rw [hready] at hnone
    cases hnone
  · intro p hp hready
    obtain ⟨file, hsome⟩ := Option.ne_none_iff_exists'.mp hready
    obtain ⟨rfl, _⟩ := h p hp file (Prepared.file?_some.mp hsome)
    refine (Contents.foldl_write_right fun file hmem => (hfile file hmem).2.2).2 file ?_
    exact List.mem_filterMap.mpr ⟨_, List.mem_map_of_mem hp, hsome⟩

theorem FrontDone.partlyDone (h : FrontDone look prepared front m₀ m')
    (hdone : changes.PartlyDone look m m₀) (hwork : changes.Workable look)
    (hfront : ∀ p ∈ front, changes.Writes p) : changes.PartlyDone look m m' := by
  have hcase (p : String) : m'.get? p = m₀.get? p ∨ changes.Writes p ∧ m'.Right look p := by
    by_cases hp : p ∈ front → (prepared p).file? = none
    · exact .inl (h.same p hp)
    · obtain ⟨hin, hready⟩ := Classical.not_imp.mp hp
      exact .inr ⟨hfront p hin, h.right p hin hready⟩
  refine ⟨fun p hp => ?_, fun p hp hrecorded => ?_, fun p => ?_⟩
  · rcases hcase p with hsame | ⟨hwrites, _⟩
    · exact hsame.trans (hdone.removed p hp)
    · exact absurd hp (hwork.apart p hwrites)
  · rcases hcase p with hsame | ⟨hwrites, hright⟩
    · rw [hsame]
      exact hdone.kept p hp hrecorded
    · obtain ⟨hash, hlook⟩ := hwork.present p hwrites
      rw [Manifest.Right, hlook] at hright
      obtain ⟨r, hr, _⟩ := Option.map_eq_some_iff.mp hright
      rw [hr]
      rfl
  · rcases hcase p with hsame | ⟨_, hright⟩
    · refine (hdone.mended p).imp hsame.trans fun hright => ?_
      exact (Manifest.right_congr hsame).mpr hright
    · exact .inr hright

def leftOver (prepared : String → Prepared) (front rest : List String) : List String :=
  front.filter (fun p => (prepared p).file?.isNone) ++ rest

theorem FrontDone.same_leftOver (h : FrontDone look prepared front m₀ m')
    (hnodup : (front ++ rest).Nodup) {p : String} (hp : p ∈ leftOver prepared front rest) :
    m'.get? p = m₀.get? p := by
  apply h.same
  intro hfront
  rcases List.mem_append.mp hp with hp | hrest
  · exact Option.isNone_iff_eq_none.mp (List.mem_filter.mp hp).2
  · exact absurd rfl ((List.nodup_append.mp hnodup).2.2 p hfront p hrest)

/-- What is left to be written is what was not ready, and what was not come to. -/
theorem FrontDone.mem_leftOver (h : FrontDone look prepared front m₀ m')
    (hnodup : (front ++ rest).Nodup) (hwrites : ∀ p ∈ front ++ rest, changes.Writes p)
    (hwrong : ∀ p ∈ front ++ rest, ¬ m₀.Right look p)
    (hright : ∀ p, changes.Writes p → p ∈ front ++ rest ∨ m₀.Right look p) (p : String) :
    p ∈ leftOver prepared front rest ↔ changes.Writes p ∧ ¬ m'.Right look p := by
  constructor
  · intro hp
    have hlisted : p ∈ front ++ rest :=
      List.mem_append.mpr ((List.mem_append.mp hp).imp_left fun h => (List.mem_filter.mp h).1)
    rw [Manifest.right_congr (h.same_leftOver hnodup hp)]
    exact ⟨hwrites p hlisted, hwrong p hlisted⟩
  · rintro ⟨hp, hother⟩
    have hlisted : p ∈ front ++ rest := by
      refine (hright p hp).resolve_right fun hstays => hother ?_
      by_cases hfront : p ∈ front → (prepared p).file? = none
      · exact (Manifest.right_congr (h.same p hfront)).mpr hstays
      · obtain ⟨hin, hready⟩ := Classical.not_imp.mp hfront
        exact h.right p hin hready
    unfold leftOver
    rw [List.mem_append, List.mem_filter, Option.isNone_iff_eq_none]
    refine (List.mem_append.mp hlisted).imp_left fun hfront => ⟨hfront, ?_⟩
    exact Decidable.byContradiction fun hready => hother (h.right p hfront hready)

theorem leftOver_files : ((leftOver prepared front rest).map prepared).filterMap Prepared.file? =
    (rest.map prepared).filterMap Prepared.file? := by
  have hnone : ((front.filter fun p => (prepared p).file?.isNone).map prepared).filterMap
      Prepared.file? = [] := by
    rw [List.filterMap_eq_nil_iff]
    intro next hnext
    obtain ⟨p, hp, rfl⟩ := List.mem_map.mp hnext
    exact Option.isNone_iff_eq_none.mp (List.mem_filter.mp hp).2
  unfold leftOver
  rw [List.map_append, List.filterMap_append, hnone, List.nil_append]

theorem leftOver_missed :
    ((leftOver prepared front rest).map prepared).countP (fun next => next.file?.isNone) =
      ((front ++ rest).map prepared).countP fun next => next.file?.isNone := by
  unfold leftOver
  simp only [List.map_append, List.countP_append, List.countP_map, List.countP_filter,
    Function.comp_def, Bool.and_self]

end Front

theorem edits_contents (vector : String → Embedding) (file : PreparedFile) :
    ∀ edit ∈ file.edits vector, edit.IsContent := by
  intro edit hedit
  rw [file.edits_parts] at hedit
  unfold PreparedFile.filling PreparedFile.opening PreparedFile.dropping at hedit
  simp only [List.mem_append, List.mem_singleton] at hedit
  rcases hedit with (hedit | rfl) | hedit
  · split at hedit
    · exact absurd hedit List.not_mem_nil
    · rw [List.mem_singleton.mp hedit]
      trivial
  · trivial
  · split at hedit
    · exact absurd hedit List.not_mem_nil
    · rw [List.mem_singleton.mp hedit]
      trivial

theorem gathered_contents (vector : String → Embedding) (files : List PreparedFile) :
    ∀ edit ∈ files.flatMap (PreparedFile.edits vector), edit.IsContent := by
  intro edit hedit
  obtain ⟨file, _, hedit⟩ := List.mem_flatMap.mp hedit
  exact edits_contents vector file edit hedit

namespace RunSetting

open RunState

section Rest

variable (setting : RunSetting MemoryStore)

def ReadsAs (d : Disk) (look : String → FileState) : Prop :=
  ∀ p hash, look p = .present hash → ∃ content modified, Digest.contentHash content = hash ∧
    d.readFile (Path.join setting.root p) = .ok (content, modified)

def preparedIn (plan : RunPlan) (d : Disk) (shape : Shape) (p : String) : Prepared :=
  prepare setting plan.force d (WorkItem.ofPath shape.manifest p)

variable {setting} {plan : RunPlan} {vector : String → Embedding} {look : String → FileState}
  {d : Disk} {m m' : Manifest} {candidates candidates' changes changes' : ChangeSet}
  {shape : Shape}

theorem preparations_eq (h : Shape.ofChanges plan (setting.hashOf d) changes m = shape) :
    setting.preparations plan changes d m =
      (sortedPaths (changes.added ++ changes.modified ++ shape.reindex)).map
        (setting.preparedIn plan d shape) := by
  rw [← h]
  rfl

theorem replay_eq {c : Contents}
    (h : Shape.ofChanges plan (setting.hashOf d) changes c.manifest = shape) :
    setting.replay plan vector changes d c =
      (c.shaped shape).gather vector plan (setting.preparations plan changes d c.manifest) := by
  rw [← h]
  rfl

/-- Deletions and renames that settle may be begun before a replay, which does them again. -/
theorem replay_begun {s : MemoryStore} {missed : Nat} {made left : List StoreEdit}
    (hshape : Shape.ofChanges plan (setting.hashOf d) changes m = shape)
    (hsettles : StoreEdit.Settles shape.edits) (hcut : shape.edits = made ++ left) :
    (setting.replay plan vector changes d ⟨s.edited made, m, missed⟩).Alike
      (setting.replay plan vector changes d ⟨s, m, missed⟩) := by
  have hstore : (setting.replay plan vector changes d ⟨s.edited made, m, missed⟩).store =
      (setting.replay plan vector changes d ⟨s, m, missed⟩).store := by
    rw [replay_store, replay_store]
    unfold editsOf
    rw [hshape, MemoryStore.edited_append, MemoryStore.edited_append,
      s.edited_settling hsettles hcut]
  exact Contents.gather_alike rfl hstore (fun _ => rfl)
    (by rw [Contents.gather_missed, Contents.gather_missed])

variable (hreads : setting.ReadsAs d look)

include hreads

theorem ReadsAs.hashOf {p : String} {hash : ContentHash} (hlook : look p = .present hash) :
    setting.hashOf d p = some hash := by
  obtain ⟨content, modified, rfl, hread⟩ := hreads p hash hlook
  unfold RunSetting.hashOf
  rw [hread]

theorem ReadsAs.truthful {paths : List String}
    (h : ∀ p ∈ paths, ∃ hash, look p = .present hash) :
    Truthful look (setting.preparedIn plan d shape) paths := by
  intro p hp file hfile
  obtain ⟨hash, hlook⟩ := h p hp
  obtain ⟨content, modified, rfl, hread⟩ := hreads p hash hlook
  unfold preparedIn at hfile
  refine ⟨(prepare_faithful setting plan.force d shape.manifest p file hfile).1, ?_⟩
  rw [← WorkItem.ofPath_path shape.manifest p] at hread
  rw [prepare_read setting plan.force hread] at hfile
  obtain ⟨found, _, rfl⟩ := prepareContent_ready hfile
  exact hlook

theorem ReadsAs.tidied (hconfirmed : Evident m look changes) (htidy : changes.Tidy m) :
    (Shape.ofChanges plan (setting.hashOf d) changes m).Tidied m look changes.deleted
      changes.renamed := by
  refine Shape.ofChanges_tidied plan hconfirmed htidy fun e he => ?_
  obtain ⟨_, _, hash, hlook⟩ := hconfirmed.renamed e he
  exact ⟨hash, hreads.hashOf hlook, hlook⟩

variable (hchanges : changes = (confirm m look candidates).changes)

include hchanges

/-- What is left by a run that was stopped: either no records are changed, or all deletions and
renames are done and some files are gathered. -/
theorem Leaves.front {s store : MemoryStore}
    (hshape : Shape.ofChanges plan (setting.hashOf d) changes m = shape)
    (h : setting.Leaves plan vector changes d ⟨s, m, 0⟩ store m') :
    (∃ made left, shape.edits = made ++ left ∧ store = s.edited made ∧ m' = m) ∨
      ∃ fs rs made left,
        sortedPaths (changes.added ++ changes.modified ++ shape.reindex) = fs ++ rs ∧
        gatherEdits vector (rs.map (setting.preparedIn plan d shape)) = made ++ left ∧
        store = ((Contents.shaped ⟨s, m, 0⟩ shape).gather vector plan
          (fs.map (setting.preparedIn plan d shape))).store.edited made ∧
        (∀ p, m'.get? p = ((Contents.shaped ⟨s, m, 0⟩ shape).gather vector plan
          (fs.map (setting.preparedIn plan d shape))).manifest.get? p) ∧
        FrontDone look (setting.preparedIn plan d shape) fs shape.manifest m' := by
  have hconfirmed : Evident m look changes := by
    rw [hchanges]
    exact confirm_evident m look candidates
  rcases h with ⟨made, left, hcut, hmade, hsame⟩ |
    ⟨front, rest, made, left, hprepared, hcut, hmade, hrecords⟩
  · rw [hshape] at hcut
    exact .inl ⟨made, left, hcut, hmade, hsame⟩
  · rw [hshape] at hmade hrecords
    rw [preparations_eq hshape] at hprepared
    obtain ⟨fs, rs, hpaths, rfl, rfl⟩ := List.map_eq_append_iff.mp hprepared
    have hwritten (p : String) (hp : p ∈ fs) : changes.Writes p := by
      have hlisted : p ∈ fs ++ rs := List.mem_append_left _ hp
      rw [← hpaths, ← hshape] at hlisted
      exact writes_of_mem hlisted
    have htruthful : Truthful look (setting.preparedIn plan d shape) fs :=
      hreads.truthful fun p hp => hconfirmed.founded.workable.present p (hwritten p hp)
    refine .inr ⟨fs, rs, made, left, hpaths, hcut, hmade, hrecords, ?_⟩
    exact FrontDone.congr (Contents.frontDone (c := Contents.shaped ⟨s, m, 0⟩ shape) htruthful)
      hrecords

variable (htidy : changes.Tidy m)

include htidy

/-- Where all deletions and renames are done, and some files are gathered, a part is done. -/
theorem front_partlyDone {front rest : List String}
    (hshape : shape = Shape.ofChanges plan (setting.hashOf d) changes m)
    (hpaths : sortedPaths (changes.added ++ changes.modified ++ shape.reindex) = front ++ rest)
    (hfront : FrontDone look (setting.preparedIn plan d shape) front shape.manifest m') :
    changes.PartlyDone look m m' := by
  have hconfirmed : Evident m look changes := by
    rw [hchanges]
    exact confirm_evident m look candidates
  have htidied : shape.Tidied m look changes.deleted changes.renamed := by
    rw [hshape]
    exact hreads.tidied hconfirmed htidy
  refine hfront.partlyDone (htidied.partlyDone hconfirmed htidy) hconfirmed.founded.workable
    fun p hp => ?_
  have hlisted : p ∈ front ++ rest := List.mem_append_left _ hp
  rw [← hpaths, hshape] at hlisted
  exact writes_of_mem hlisted

theorem Leaves.partlyDone {s store : MemoryStore}
    (h : setting.Leaves plan vector changes d ⟨s, m, 0⟩ store m') :
    m' = m ∨ changes.PartlyDone look m m' := by
  rcases Leaves.front hreads hchanges rfl h with ⟨_, _, _, _, hsame⟩ |
    ⟨fs, rs, _, _, hpaths, _, _, _, hfront⟩
  · exact .inl hsame
  · exact .inr (front_partlyDone hreads hchanges htidy rfl hpaths hfront)

variable (hreadable : ∀ p ∈ candidates.mentioned, look p ≠ .unreadable)
  (hunhidden : candidates.Unhidden m look)
  (hchanges' : changes' = (confirm m' look candidates').changes)
  (hrecurs : changes.PartlyDone look m m' → candidates.Recurs candidates' m m')

include hreadable hunhidden hchanges' hrecurs

/-- Once all deletions and renames are done, and some files are gathered, what is found anew are the
other files. -/
theorem preparations_left {front rest : List String}
    (hshape : shape = Shape.ofChanges plan (setting.hashOf d) changes m)
    (hpaths : sortedPaths (changes.added ++ changes.modified ++ shape.reindex) = front ++ rest)
    (hfront : FrontDone look (setting.preparedIn plan d shape) front shape.manifest m') :
    Shape.ofChanges plan (setting.hashOf d) changes' m' = .start m' ∧
      setting.preparations plan changes' d m' =
        (leftOver (setting.preparedIn plan d shape) front rest).map
          (setting.preparedIn plan d shape) := by
  have hconfirmed : Evident m look changes := by
    rw [hchanges]
    exact confirm_evident m look candidates
  have htidied : shape.Tidied m look changes.deleted changes.renamed := by
    rw [hshape]
    exact hreads.tidied hconfirmed htidy
  have hlisted (p : String) : p ∈ front ++ rest ↔
      p ∈ changes.added ++ changes.modified ++ shape.reindex := by
    rw [← hpaths, mem_sortedPaths]
  have hwrites (p : String) (hp : p ∈ front ++ rest) : changes.Writes p := by
    rw [← hpaths, hshape] at hp
    exact writes_of_mem hp
  have hpartly := front_partlyDone hreads hchanges htidy hshape hpaths hfront
  have hplain := remaining_plain hreadable hunhidden (hrecurs hpartly) (hchanges ▸ hpartly)
  rw [← hchanges'] at hplain
  have hstart : Shape.ofChanges plan (setting.hashOf d) changes' m' = .start m' :=
    Shape.ofChanges_plain plan _ changes' m' hplain.1 hplain.2
  refine ⟨hstart, ?_⟩
  -- the paths are those that are left, in the order they had
  have hleft (p : String) : p ∈ leftOver (setting.preparedIn plan d shape) front rest ↔
      changes.Writes p ∧ ¬ m'.Right look p :=
    hfront.mem_leftOver (hpaths ▸ sortedPaths_nodup _) hwrites
      (fun p hp => htidied.wrong hconfirmed htidy ((hlisted p).mp hp))
      (fun p hp => (htidied.left_or_right hp).imp_left (hlisted p).mpr) p
  have hagain : sortedPaths (changes'.added ++ changes'.modified ++ []) =
      leftOver (setting.preparedIn plan d shape) front rest := by
    apply sortedPaths_of_sublist
    · rw [hpaths]
      exact List.filter_sublist.append_right rest
    · intro p
      have hwritten := remaining_writes hreadable hunhidden (hrecurs hpartly) (hchanges ▸ hpartly) p
      rw [← hchanges, ← hchanges'] at hwritten
      rw [hleft, ← hwritten, List.append_nil, List.mem_append]
      unfold ChangeSet.Writes
      rw [hplain.2]
      simp
  -- each is prepared by the record that it had when deletions and renames were done
  unfold preparations
  rw [hstart]
  show (sortedPaths (changes'.added ++ changes'.modified ++ [])).map _ = _
  rw [hagain]
  apply List.map_congr_left
  intro p hp
  have hsame : m'.get? p = shape.manifest.get? p :=
    hfront.same_leftOver (hpaths ▸ sortedPaths_nodup _) hp
  show prepare setting plan.force d (WorkItem.ofPath m' p) = _
  rw [WorkItem.ofPath_congr hsame]
  rfl

/-- **The rest of a run.** What is left by a run that was stopped, and is then worked through from
the records that it saved, comes to what the run would have come to. -/
theorem Leaves.replayed {s store : MemoryStore} (hunmoved : m' = m → candidates' = candidates)
    (h : setting.Leaves plan vector changes d ⟨s, m, 0⟩ store m') :
    (setting.replay plan vector changes' d ⟨store, m', 0⟩).Alike
      (setting.replay plan vector changes d ⟨s, m, 0⟩) := by
  have hconfirmed : Evident m look changes := by
    rw [hchanges]
    exact confirm_evident m look candidates
  generalize hshape : Shape.ofChanges plan (setting.hashOf d) changes m = shape
  have htidied : shape.Tidied m look changes.deleted changes.renamed :=
    hshape ▸ hreads.tidied hconfirmed htidy
  rcases Leaves.front hreads hchanges hshape h with ⟨made, left, hcut, hmade, rfl⟩ |
    ⟨fs, rs, made, left, hpaths, hcut, hmade, hrecords, hfront⟩
  · -- all is to be done again, and some of it has been done
    obtain rfl : changes' = changes := by rw [hchanges', hunmoved rfl, hchanges]
    rw [hmade]
    exact replay_begun hshape (htidied.settles hconfirmed) hcut
  · -- the batch that was broken off is written again, and then the files behind it
    obtain ⟨hstart, hprepared'⟩ := preparations_left hreads hchanges htidy hreadable hunhidden
      hchanges' hrecurs hshape.symm hpaths hfront
    have hprepared : setting.preparations plan changes d m =
        fs.map (setting.preparedIn plan d shape) ++ rs.map (setting.preparedIn plan d shape) := by
      rw [preparations_eq hshape, hpaths, List.map_append]
    let taken : Contents := (Contents.shaped ⟨s, m, 0⟩ shape).gather vector plan
      (fs.map (setting.preparedIn plan d shape))
    rw [replay_eq hstart, replay_eq hshape, hprepared, hprepared', Contents.gather_append]
    apply Contents.gather_alike leftOver_files
    · have hmade' : ∀ edit ∈ made, edit ∈ gatherEdits vector
          (rs.map (setting.preparedIn plan d shape)) := by
        intro edit hedit
        rw [hcut]
        exact List.mem_append_left left hedit
      rw [Contents.gather_store, Contents.gather_store, leftOver_files]
      calc store.edited (gatherEdits vector (rs.map (setting.preparedIn plan d shape)))
        _ = (taken.store.edited made).edited
            (gatherEdits vector (rs.map (setting.preparedIn plan d shape))) := by rw [hmade]
        _ = taken.store.edited (gatherEdits vector (rs.map (setting.preparedIn plan d shape))) :=
          taken.store.edited_contents (gathered_contents vector _) hmade'
    · exact hrecords
    · have hunread : shape.unread = 0 := htidied.unread
      simp only [Contents.gather_missed, leftOver_missed, List.map_append, List.countP_append]
      show 0 + 0 + _ = 0 + shape.unread + _ + _
      omega

end Rest

/-- What a stopped run leaves is recorded under the paths that it is of. -/
theorem Leaves.keyed {setting : RunSetting MemoryStore} {plan : RunPlan}
    {vector : String → Embedding} {changes : ChangeSet} {d : Disk} {c : Contents}
    {store : MemoryStore} {m' : Manifest} (h : setting.Leaves plan vector changes d c store m')
    (hkeyed : c.manifest.Keyed) : m'.Keyed := by
  have hwritten (files : List PreparedFile) (a : Contents) (ha : a.manifest.Keyed) :
      (files.foldl (Contents.write vector plan) a).manifest.Keyed := by
    induction files generalizing a with
    | nil => exact ha
    | cons file rest ih =>
      exact ih (a.write vector plan file) (Manifest.keyed_recordIndexed _ _ _ ha)
  rcases h with ⟨_, _, _, _, rfl⟩ | ⟨_, _, _, _, _, _, _, hrecords⟩
  · exact hkeyed
  · intro p r hr
    rw [hrecords] at hr
    refine hwritten _ _ ?_ p r hr
    exact Shape.ofChanges_rule plan _ Manifest.Keyed changes c.manifest hkeyed
      (fun _ path => Manifest.keyed_removeFile _ path .zero)
      fun m source target _ _ _ => relocated_keyed m plan source target .zero

end RunSetting

end CodeIndex
