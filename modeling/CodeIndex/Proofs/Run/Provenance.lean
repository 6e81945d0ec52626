import CodeIndex.Proofs.Run.Lineage
import CodeIndex.Proofs.Run.Reconcile

/-!
Where the record of a path comes from: an indexing of the file, there or at a path that it was moved
from since. A move asks the extractor nothing, so the record holds what was reported for that path.
-/

namespace CodeIndex

open StateDir

namespace Manifest

def Hands (m m' : Manifest) (q p : String) : Prop :=
  ∃ r r', m.get? q = some r ∧ m'.get? p = some r' ∧ r.essence = r'.essence

theorem hands_relocated (m : Manifest) (plan : RunPlan) (source target : String) (now : Duration)
    (r : FileRecord) (hr : m.get? source = some r) (p : String) (r' : FileRecord)
    (hr' : (RunState.relocated m plan source target now).get? p = some r') :
    ∃ q, m.Hands (RunState.relocated m plan source target now) q p := by
  by_cases hne : source = target
  · subst hne
    have hget := RunState.get?_relocated_self m plan now source (by rw [hr]; rfl) p
    refine ⟨p, r', r', ?_, hr', rfl⟩
    rw [hr'] at hget
    split at hget
    · cases hget
    · exact hget.symm
  · have hget := RunState.get?_relocated m plan source target now r hr hne p
    rw [hr'] at hget
    split at hget
    · cases hget
      exact ⟨source, r, _, hr, hr', rfl⟩
    · split at hget
      · cases hget
      · exact ⟨p, r', r', hget.symm, hr', rfl⟩

theorem hands_shape (m : Manifest) (plan : RunPlan) (hashOf : String → Option ContentHash)
    (changes : ChangeSet) (p : String) (r' : FileRecord)
    (hr' : (Shape.ofChanges plan hashOf changes m).manifest.get? p = some r') :
    ∃ q, m.Hands (Shape.ofChanges plan hashOf changes m).manifest q p := by
  refine Shape.ofChanges_rule plan hashOf
    (fun n => ∀ p r, n.get? p = some r → ∃ q, m.Hands n q p) changes m ?_ ?_ ?_ p r' hr'
  · exact fun p r hr => ⟨p, r, r, hr, hr, rfl⟩
  · intro n path hn p r hr
    have hget := hr
    rw [get?_removeFile] at hget
    split at hget
    · cases hget
    · obtain ⟨q, r₀, r₁, hr₀, hr₁, heq⟩ := hn p r hget
      rw [hget] at hr₁
      cases hr₁
      exact ⟨q, r₀, r, hr₀, hr, heq⟩
  · intro n source target r₁ hr₁ _ hn p r hr
    obtain ⟨p', s, s', hs, hs', heq⟩ := hands_relocated n plan source target .zero r₁ hr₁ p r hr
    obtain ⟨q, r₀, s₀, hr₀, hs₀, heq₀⟩ := hn p' s hs
    rw [hs] at hs₀
    cases hs₀
    exact ⟨q, r₀, s', hr₀, hs', heq₀.trans heq⟩

end Manifest

namespace TreeView

/-- Where a full detection leaves nothing out, its changes make the records those of the files that
are there. -/
theorem detectAll_current (t : TreeView) (m m' : Manifest)
    (hwork : Reworked t.look m m' (t.detectAll m).changes.Writes (t.detectAll m).changes.Removes
      fun p => p ∈ (t.detectAll m).changes.mentioned)
    (hskipped : (t.detectAll m).skipped = []) (p : String) (r : FileRecord)
    (hr : m'.get? p = some r) : t.look p = .present r.contentHash := by
  obtain ⟨_, hmodified, hdeleted, _, hleft⟩ := t.detectAll_parts m
  have hhash : m'.hashAt p = some r.contentHash := by rw [Manifest.hashAt, hr, Option.map_some]
  by_cases hin : p ∈ (t.detectAll m).changes.mentioned
  · rcases (ChangeSet.mentioned_iff _ p).mp hin with hwrites | hremoves
    · obtain ⟨hash, hlook, hkept⟩ := hwork.kept p hwrites
      rw [hhash] at hkept
      cases hkept
      exact hlook
    · rw [hwork.dropped p hremoves] at hhash
      cases hhash
  · -- a recorded path that is not mentioned would have to be deleted or modified
    exfalso
    apply hin
    rw [hwork.rest p hin] at hhash
    obtain ⟨r₀, hr₀, _⟩ := Option.map_eq_some_iff.mp hhash
    have hsome : (m.get? p).isSome := by rw [hr₀]; rfl
    rw [ChangeSet.mem_mentioned]
    by_cases hthere : p ∈ t.files ∧ ((t.look p).isPresent = true ∨ t.look p = .unreadable)
    · obtain ⟨hfile, hpresent | hunreadable⟩ := hthere
      · exact .inr (.inl ((hmodified p).mpr ⟨hfile, hpresent, hsome⟩))
      · have hmem := (hleft p).mpr ⟨hfile, hunreadable⟩
        rw [hskipped] at hmem
        exact absurd hmem List.not_mem_nil
    · exact .inr (.inr (.inl ((hdeleted p).mpr ⟨hsome, hthere⟩)))

/-- Where a scan leaves nothing out, its changes make the records those of the files that are
there. -/
theorem scan_current (t : TreeView) (m m' : Manifest)
    (hwork : Reworked t.look m m' (confirm m t.look (t.scanCandidates m)).changes.Writes
      (confirm m t.look (t.scanCandidates m)).changes.Removes
      fun p => p ∈ (confirm m t.look (t.scanCandidates m)).changes.mentioned)
    (hskipped : (confirm m t.look (t.scanCandidates m)).skipped = []) (p : String) (r : FileRecord)
    (hr : m'.get? p = some r) : t.look p = .present r.contentHash := by
  have hhash := t.scan_reconciles m m' hwork p
  rw [Manifest.hashAt, hr, Option.map_some] at hhash
  refine ((t.reconciled_iff m p r.contentHash fun hcovered hlost => ?_).mp hhash.symm).1
  have hmem := (t.scan_skipped m p).mpr ⟨hcovered, hlost⟩
  rw [hskipped] at hmem
  exact absurd hmem List.not_mem_nil

end TreeView

section Histories

open RunSetting RunState

variable {setting : RunSetting MemoryStore} {home : Location} {filter : FileFilter}
  {m m' : Manifest}

namespace Turn

def Indexes (t : Turn setting home filter m m') (p : String) : Prop :=
  (m'.get? p).isSome ∧ ¬ t.shape.manifest.Hands m' p p

theorem indexes_new (t : Turn setting home filter m m') {p : String}
    (hnone : t.shape.manifest.get? p = none) (hp : (m'.get? p).isSome) : t.Indexes p := by
  refine ⟨hp, ?_⟩
  rintro ⟨r, _, hr, _⟩
  rw [hnone] at hr
  cases hr

theorem indexes_changed (t : Turn setting home filter m m') {p : String} {r r' : FileRecord}
    (hr : t.shape.manifest.get? p = some r) (hr' : m'.get? p = some r')
    (hne : r.contentHash ≠ r'.contentHash) : t.Indexes p := by
  refine ⟨by rw [hr']; rfl, ?_⟩
  rintro ⟨s, s', hs, hs', hessence⟩
  cases hr.symm.trans hs
  cases hr'.symm.trans hs'
  exact hne (congrArg Prod.fst hessence)

/-- What a run indexes is among the files that it takes up, and its record describes it. -/
theorem Indexes.written {t : Turn setting home filter m m'} {p : String} (h : t.Indexes p)
    (hstill : setting.env.Still) (hstore : setting.store = MemoryStore.calls)
    (hfilter : setting.config.filterOf setting.root = .ok filter) {r : FileRecord}
    (hr : m'.get? p = some r) : p ∈ t.taken ∧ setting.Describes t.opened.disk p r := by
  rcases (t.grown hstill hstore hfilter).2 p r hr with hsame | hwritten
  · obtain ⟨s, hs, hessence⟩ := Option.map_eq_some_iff.mp hsame
    exact absurd ⟨s, r, hs, hr, hessence⟩ h.2
  · exact hwritten

/-- Outside version control, a run over the whole root that misses no file leaves a record only of
what is there. -/
theorem current (t : Turn setting home filter m m') (hstill : setting.env.Still)
    (hfilter : setting.config.filterOf setting.root = .ok filter) (houtside : setting.Outside)
    (mode : IndexMode) (hrequest : t.request = .repository mode) (hclean : t.report.state.Clean)
    (p : String) (r : FileRecord) (hr : m'.get? p = some r) :
    filter.inspect t.opened.disk p = .present r.contentHash := by
  obtain ⟨hm, hm', _, hfinished⟩ := t.finished hstill hfilter
  have hwork := hfinished.records hclean
  have hskipped := hfinished.skipped hclean
  rw [hm, hm'] at hwork
  unfold detected at hwork hskipped
  rw [hrequest] at hwork hskipped
  cases mode with
  | full =>
    exact (setting.treeView filter t.opened.disk).detectAll_current m m' hwork hskipped p r hr
  | auto target =>
    obtain ⟨source, hdetection⟩ := houtside.detection filter t.opened.disk m t.context.reference
      target
    rw [hdetection] at hwork hskipped
    dsimp only at hwork hskipped
    exact (setting.treeView filter t.opened.disk).scan_current m m' hwork hskipped p r hr

end Turn

namespace History

/-- The record of `p` goes back to an indexing of the file at `q`: since then it was kept, or moved
from path to path. -/
def Stems : {m : Manifest} → History setting home filter m → String → String → Prop
  | _, .start => fun _ _ => False
  | m', .turn (m := m) past last => fun p q =>
    last.Indexes p ∧ q = p ∨ ∃ p₀, m.Hands m' p₀ p ∧ past.Stems p₀ q

/-- The content is that of a file to be indexed at one of the runs. -/
def Reads : {m : Manifest} → History setting home filter m → ByteArray → Prop
  | _, .start => fun _ => False
  | _, .turn past last => fun content => past.Reads content ∨ ∃ p modified,
    (filter.inspect last.opened.disk p).isPresent = true ∧
      last.opened.disk.readFile (Path.join setting.root p) = .ok (content, modified)

/-- Every record stems from some path, and holds what the extractor reported for that path and for
some content with the recorded hash. -/
theorem stems (h : History setting home filter m) (hstill : setting.env.Still)
    (hstore : setting.store = MemoryStore.calls)
    (hfilter : setting.config.filterOf setting.root = .ok filter) (p : String) (r : FileRecord)
    (hr : m.get? p = some r) :
    (∃ q, h.Stems p q) ∧ ∀ q, h.Stems p q → ∃ content, h.Reads content ∧
      r.contentHash = Digest.contentHash content ∧
      setting.idsOf q r.lineage content = .ok r.entityIds := by
  induction h generalizing p r with
  | start =>
    rw [Manifest.get?_empty] at hr
    cases hr
  | @turn m m' past last ih =>
    constructor
    · by_cases hkept : last.shape.manifest.Hands m' p p
      · -- the record is one that deletions and renames have taken from some path
        obtain ⟨s, r', hs, hr', heq⟩ := hkept
        obtain ⟨p₀, r₀, s₀, hr₀, hs₀, heq₀⟩ := m.hands_shape _ _ _ p s hs
        obtain ⟨q, hq⟩ := (ih p₀ r₀ hr₀).1
        refine ⟨q, .inr ⟨p₀, ⟨r₀, r', hr₀, hr', ?_⟩, hq⟩⟩
        have hsame : s₀ = s := Option.some.inj (hs₀.symm.trans hs)
        rw [heq₀, hsame, heq]
      · exact ⟨p, .inl ⟨⟨by rw [hr]; rfl, hkept⟩, rfl⟩⟩
    · rintro q (⟨hindexes, rfl⟩ | ⟨p₀, ⟨r₀, r', hr₀, hr', heq⟩, hq⟩)
      · obtain ⟨htaken, content, modified, hread, hdescribes⟩ :=
          hindexes.written hstill hstore hfilter hr
        have hpresent := last.workable.present q (last.taken_writes q htaken)
        exact ⟨content, .inr ⟨q, modified, (FileState.isPresent_iff _).mpr hpresent, hread⟩,
          hdescribes⟩
      · rw [hr] at hr'
        cases hr'
        obtain ⟨content, hread, hhash, hids⟩ := (ih p₀ r₀ hr₀).2 q hq
        simp only [FileRecord.essence, Prod.mk.injEq] at heq
        obtain ⟨hhash', hlineage, hids'⟩ := heq
        exact ⟨content, .inl hread, hhash' ▸ hhash, hlineage ▸ hids' ▸ hids⟩

/-- After a run outside version control that misses no file, the record of a path describes what
stands there, exactly when the extractor reports for it what it reports for the path that the record
stems from. -/
theorem describes_iff (past : History setting home filter m) (last : Turn setting home filter m m')
    (hstill : setting.env.Still) (hstore : setting.store = MemoryStore.calls)
    (hfilter : setting.config.filterOf setting.root = .ok filter) (houtside : setting.Outside)
    (mode : IndexMode) (hrequest : last.request = .repository mode)
    (hclean : last.report.state.Clean)
    (hfree : ∀ a b, (past.turn last).Reads a → (past.turn last).Reads b →
      Digest.contentHash a = Digest.contentHash b → a = b)
    (p : String) (r : FileRecord) (hr : m'.get? p = some r) :
    setting.Describes last.after.disk p r ↔ ∀ q, (past.turn last).Stems p q →
      ∀ content modified,
        last.after.disk.readFile (Path.join setting.root p) = .ok (content, modified) →
        setting.idsOf p r.lineage content = setting.idsOf q r.lineage content := by
  obtain ⟨_, _, hperformed, hfinished⟩ := last.finished hstill hfilter
  have hsame : Same home last.opened.disk last.after.disk := by
    rw [← hperformed.world]
    exact hfinished.same
  have hlook := last.current hstill hfilter houtside mode hrequest hclean p r hr
  obtain ⟨content, modified, hhash, hall⟩ := (last.seen hfilter).2 p _ hlook
  have hready := last.ready.of_same (last.seen hfilter).1
  have hread : (past.turn last).Reads content :=
    .inr ⟨p, modified, (FileState.isPresent_iff _).mpr ⟨_, hlook⟩, hall _ hready.same_refl⟩
  obtain ⟨⟨q, hq⟩, hstems⟩ := (past.turn last).stems hstill hstore hfilter p r hr
  -- what was indexed is what stands there now
  have hids (q : String) (hq : (past.turn last).Stems p q) :
      setting.idsOf q r.lineage content = .ok r.entityIds := by
    obtain ⟨content', hread', hhash', hids⟩ := hstems q hq
    rw [hfree content content' hread hread' (hhash.trans hhash')]
    exact hids
  constructor
  · rintro ⟨content', modified', hfile, _, hmine⟩ q hq content'' modified'' hfile'
    rw [hall _ hsame] at hfile hfile'
    cases hfile
    cases hfile'
    rw [hmine, hids q hq]
  · intro hagree
    refine ⟨content, modified, hall _ hsame, hhash.symm, ?_⟩
    rw [hagree q hq content modified (hall _ hsame), hids q hq]

end History

end Histories

section Moved

open RunSetting RunState

def movedFunction (text : String) : ExtractedEntity := ⟨.function, "f", ⟨1, 1⟩, none, none, text⟩

def movedExtractor : Extractor :=
  ⟨fun path => Path.extension? path == some "py", fun _ text => .ok [movedFunction text]⟩

def movedSetting : RunSetting MemoryStore := sampleSetting movedExtractor fun _ => .outside

theorem moved_finds (path : String) (content : ByteArray) :
    ∃ found, movedExtractor.find path content = .ok found := by
  unfold Extractor.find
  split <;> exact ⟨_, rfl⟩

/-- A recorded file that is gone and a new one of its content are found to be one that is moved. -/
theorem moved_confirm (m : Manifest) (look : String → FileState) (r : FileRecord)
    (hr : m.get? "a.py" = some r) (hnone : m.get? "a.js" = none) (hsource : look "a.py" = .missing)
    (htarget : look "a.js" = .present r.contentHash) :
    confirm m look { added := ["a.js"], deleted := ["a.py"] } =
      ⟨{ renamed := [("a.py", "a.js")] }, []⟩ := by
  have hsorting : (Sorting.ofCandidates m look
      { added := ["a.js"], deleted := ["a.py"] }).paths = ["a.js", "a.py"] := by
    show sortedPaths ["a.js", "a.py"] = ["a.js", "a.py"]
    decide
  have hcompared : ["a.js", "a.py"].map
      (fun path => (path, compareRecord (m.get? path) (look path))) =
      [("a.js", .added r.contentHash), ("a.py", .deleted)] := by
    rw [List.map_cons, List.map_singleton, hnone, htarget, hr, hsource]
    rfl
  have hpartner : partnerOf m [("a.js", r.contentHash)] ["a.py"] r.contentHash = some "a.py" := by
    unfold partnerOf deletedWith
    simp [hr]
  have hpairs : pairRenames m [("a.js", r.contentHash)] ["a.py"] =
      ⟨[], [], [("a.py", "a.js")]⟩ := by
    unfold pairRenames
    simp [hpartner]
  unfold confirm
  dsimp only
  rw [hsorting, hcompared]
  show (⟨.ofLists (pairRenames m [("a.js", r.contentHash)] ["a.py"]).added []
    (pairRenames m [("a.js", r.contentHash)] ["a.py"]).deleted
    ([] ++ (pairRenames m [("a.js", r.contentHash)] ["a.py"]).renamed),
    sortedPaths ([] ++ [])⟩ : Confirmed) = _
  rw [hpairs]
  decide

/-- The candidates of a scan of the tree where the file is moved. -/
theorem moved_candidates (t : TreeView) (hfiles : t.files = ["a.js"]) (m : Manifest)
    (hm : ∀ p, (m.get? p).isSome ↔ p = "a.py") :
    t.scanCandidates m = { added := ["a.js"], deleted := ["a.py"] } := by
  have hdeleted : sortedPaths (m.deletedFrom ["a.js"]) = ["a.py"] := by
    apply sortedPaths_single
    intro p
    rw [Manifest.mem_deletedFrom, hm, List.mem_singleton]
    exact ⟨fun h => h.1, fun h => ⟨h, h ▸ by decide⟩⟩
  show ChangeSet.ofLists t.files [] (m.deletedFrom t.files) [] = _
  rw [hfiles]
  unfold ChangeSet.ofLists
  rw [hdeleted]
  decide

theorem moved_tree (name : String) (h : name = "a.py" ∨ name = "a.js") :
    Ready "/w/.sift" sampleHome (reusedDisk [name]) ∧ (reusedDisk [name]).Linkless ∧
      sampleFilter.inspect (reusedDisk [name]) name =
        .present (Digest.contentHash "x".toUTF8) ∧
      ∀ path content modified, (reusedDisk [name]).readFile path = .ok (content, modified) →
        content = "x".toUTF8 := by
  refine ⟨?_, ?_, ?_, fun path content modified hread => ?_⟩
  · rcases h with rfl | rfl <;> (apply sample_ready <;> decide)
  · rcases h with rfl | rfl <;> exact Disk.linkless_of_all _ (by decide)
  · rcases h with rfl | rfl <;> exact reused_inspect _ _ (by decide) (by decide)
  · refine of_decide_eq_true (Disk.readFile_of_all _ (fun content => decide (content = "x".toUTF8))
      ?_ path content modified hread)
    rcases h with rfl | rfl <;> decide

theorem moved_reads (name : String) (h : name = "a.py" ∨ name = "a.js") (d : Disk)
    (hsame : Same sampleHome (reusedDisk [name]) d) (p : String) (content : ByteArray)
    (modified : Nat) (hpresent : (sampleFilter.inspect d p).isPresent = true)
    (hread : d.readFile (Path.join movedSetting.root p) = .ok (content, modified)) :
    content = "x".toUTF8 := by
  obtain ⟨hready, hlinks, _, hcontent⟩ := moved_tree name h
  rw [(sample_apart _ hlinks).inspect hsame, FileState.isPresent_iff] at hpresent
  obtain ⟨hash, hlook⟩ := hpresent
  exact hcontent _ _ _ ((sample_reads hready hlinks hlook hsame).symm.trans hread)

/-- A run over the tree where the file is moved finds that it is. -/
theorem moved_detected (m : Manifest) (hm : ∀ p, (m.get? p).isSome ↔ p = "a.py") {r : FileRecord}
    (hr : m.get? "a.py" = some r) (hcontent : r.contentHash = Digest.contentHash "x".toUTF8)
    (d : Disk) (hsame : Same sampleHome (reusedDisk ["a.js"]) d) (reference : Option String) :
    ∃ source head, movedSetting.detection sampleFilter d m reference (.repository (.auto .head)) =
      ⟨{ renamed := [("a.py", "a.js")] }, source, head, []⟩ := by
  obtain ⟨_, hlinks, hpresent, _⟩ := moved_tree "a.js" (.inr rfl)
  have houtside : movedSetting.Outside := fun _ => rfl
  obtain ⟨source, hdetection⟩ := houtside.detection sampleFilter d m reference .head
  have hgone : sampleFilter.inspect (reusedDisk ["a.js"]) "a.py" = .missing := by decide
  have hscan : sampleFilter.scan (reusedDisk ["a.js"]) = ["a.js"] := by decide
  have hnone : m.get? "a.js" = none := by
    rw [← Option.not_isSome_iff_eq_none, hm]
    decide
  have hlook : (movedSetting.treeView sampleFilter d).look =
      sampleFilter.inspect (reusedDisk ["a.js"]) :=
    funext fun p => (sample_apart _ hlinks).inspect hsame p
  have hfiles : (movedSetting.treeView sampleFilter d).files = ["a.js"] :=
    ((sample_detached _ hlinks).walk d hsame).trans hscan
  have hconfirm := moved_confirm m _ r hr hnone hgone (by rw [hpresent, hcontent])
  refine ⟨source, none, ?_⟩
  show movedSetting.detection _ _ _ _ _ = _
  rw [hdetection, hlook, moved_candidates _ hfiles m hm, hconfirm]

/-- The record of the file is handed on to its new path, and is not written anew. -/
theorem moved_hands {m m' : Manifest} (t : Turn movedSetting sampleHome sampleFilter m m')
    {r r' : FileRecord} (hr : m.get? "a.py" = some r)
    (hcontent : r.contentHash = Digest.contentHash "x".toUTF8) (hr' : m'.get? "a.js" = some r')
    (hfound : t.detected.changes = { renamed := [("a.py", "a.js")] })
    (hshape : t.shape =
      movedSetting.restructured (reusedDisk ["a.js"]) { renamed := [("a.py", "a.js")] } m) :
    m.Hands m' "a.py" "a.js" := by
  have hread : movedSetting.hashOf (reusedDisk ["a.js"]) "a.js" = some r.contentHash := by
    have hfile : (reusedDisk ["a.js"]).readFile (Path.join movedSetting.root "a.js") =
        .ok ("x".toUTF8, 0) := by decide
    unfold RunSetting.hashOf
    rw [hfile, hcontent]
  have hmoved := Shape.rename_moved ⟨none, false, .noHistory, false⟩
    (movedSetting.hashOf (reusedDisk ["a.js"])) (.start m) "a.py" "a.js" r hr hread
  have hrename : t.shape = Shape.rename ⟨none, false, .noHistory, false⟩
      (movedSetting.hashOf (reusedDisk ["a.js"])) (.start m) ("a.py", "a.js") := hshape
  rw [hmoved] at hrename
  have htaken : t.taken = [] := by
    unfold Turn.taken
    rw [hfound, hrename]
    rfl
  have hget := RunState.get?_relocated m ⟨none, false, .noHistory, false⟩ "a.py" "a.js" .zero r hr
    (by decide) "a.js"
  rw [if_pos rfl] at hget
  rcases (t.grown (sample_still _ _) rfl sampleFilter_eq).2 "a.js" r' hr' with hkept | ⟨hin, _⟩
  · rw [hrename] at hkept
    dsimp only [Shape.start] at hkept
    rw [hget, Option.map_some] at hkept
    exact ⟨r, r', hr, hr', Option.some.inj hkept⟩
  · rw [htaken] at hin
    exact absurd hin List.not_mem_nil

theorem moved_history : ∃ m₁ m₂ : Manifest,
    ∃ t₁ : Turn movedSetting sampleHome sampleFilter .empty m₁,
    ∃ t₂ : Turn movedSetting sampleHome sampleFilter m₁ m₂, ∃ r,
      (t₁.before = sampleWorld (reusedDisk ["a.py"]) (sampleCheckpoint "old") .empty ∧
        t₁.request = .changeset { added := ["a.py"] }) ∧
      (t₂.before = sampleWorld (reusedDisk ["a.js"]) (sampleCheckpoint "old") m₁ ∧
        t₂.request = .repository (.auto .head) ∧ t₂.report.state.Clean) ∧
      m₂.get? "a.js" = some r ∧ ((History.start.turn t₁).turn t₂).Stems "a.js" "a.py" ∧
      ∀ content, ((History.start.turn t₁).turn t₂).Reads content → content = "x".toUTF8 := by
  obtain ⟨hready₁, hlinks₁, hlook₁, _⟩ := moved_tree "a.py" (.inl rfl)
  obtain ⟨hready₂, hlinks₂, hlook₂, _⟩ := moved_tree "a.js" (.inr rfl)
  -- the file is indexed
  obtain ⟨m₁, t₁, hbefore₁, hrequest₁, hstorable₁, hsame₁, _, hshape₁, hrecords₁⟩ :=
    sample_supplied movedExtractor moved_finds (reusedDisk ["a.py"]) .empty {} _ _ hready₁ hlinks₁
      Manifest.empty_storable (reused_added .empty _ _ _ (Manifest.get?_empty _) hlook₁)
  obtain ⟨r₁, hr₁, hpresent⟩ := hrecords₁.recorded (.inl List.mem_cons_self)
  rw [hlook₁] at hpresent
  have hcontent : r₁.contentHash = Digest.contentHash "x".toUTF8 :=
    (FileState.present.inj hpresent).symm
  have hrecorded (p : String) : (m₁.get? p).isSome ↔ p = "a.py" := by
    refine ⟨fun hsome => ?_, fun heq => by rw [heq, hr₁]; rfl⟩
    by_contra hp
    rw [hrecords₁.isSome_rest fun hmem => hp (List.mem_singleton.mp hmem),
      Manifest.get?_empty] at hsome
    cases hsome
  -- it is moved, and its record with it
  obtain ⟨m₂, t₂, hbefore₂, hrequest₂, _, hclean, hsame₂, hfound, hshape₂, hrecords₂⟩ :=
    sample_turn movedExtractor (fun _ => .outside) moved_finds (.repository (.auto .head))
      (reusedDisk ["a.js"]) (sampleCheckpoint "old") m₁ {} { renamed := [("a.py", "a.js")] } hready₂
      hlinks₂ (sampleCheckpoint_storable "old") hstorable₁ fun d hsame =>
        moved_detected m₁ hrecorded hr₁ hcontent d hsame _
  obtain ⟨r₂, hr₂, _⟩ := hrecords₂.recorded (.inr (.inr ⟨_, List.mem_cons_self, rfl⟩))
  have hhands := moved_hands t₂ hr₁ hcontent hr₂ hfound hshape₂
  have hnone : t₁.shape.manifest.get? "a.py" = none := by
    rw [hshape₁]
    exact Manifest.get?_empty _
  have hindexes : t₁.Indexes "a.py" := t₁.indexes_new hnone (by rw [hr₁]; rfl)
  refine ⟨m₁, m₂, t₁, t₂, r₂, ⟨hbefore₁, hrequest₁⟩, ⟨hbefore₂, hrequest₂, hclean⟩, hr₂,
    .inr ⟨"a.py", hhands, .inl ⟨hindexes, rfl⟩⟩, ?_⟩
  rintro content ((h | ⟨p, modified, hthere, hread⟩) | ⟨p, modified, hthere, hread⟩)
  · exact h.elim
  · exact moved_reads "a.py" (.inl rfl) _ hsame₁ p content modified hthere hread
  · exact moved_reads "a.js" (.inr rfl) _ hsame₂ p content modified hthere hread

/-- The function of the file is reported under its first name only. -/
theorem moved_ids (lineage : String) (ids : List String)
    (hids : movedSetting.idsOf "a.py" lineage "x".toUTF8 = .ok ids) (content : ByteArray) :
    movedSetting.idsOf "a.js" lineage content = .ok [] ∧ ids ≠ [] := by
  constructor
  · have hfound : movedSetting.extractor.find "a.js" content = .ok [] := by
      unfold Extractor.find
      rw [if_neg (by decide)]
    unfold RunSetting.idsOf
    rw [hfound]
    rfl
  · have hfound : movedSetting.extractor.find "a.py" "x".toUTF8 = .ok [movedFunction "x"] := by
      unfold Extractor.find
      rw [if_pos (by decide)]
      rfl
    have hmint : mintEntities "a.py" lineage [movedFunction "x"] movedSetting.config.variants =
        [(movedFunction "x").mint "a.py" lineage .metadata] := by
      have hmintable : [movedFunction "x"].filter (·.isMintable) = [movedFunction "x"] := by
        decide
      unfold mintEntities
      rw [hmintable]
      rfl
    unfold RunSetting.idsOf at hids
    rw [hfound] at hids
    injection hids with hids
    dsimp only at hids
    rw [hmint] at hids
    apply List.ne_nil_of_mem (a := ((movedFunction "x").mint "a.py" lineage .metadata).id)
    rw [← hids, Std.ExtTreeSet.mem_toList, Std.ExtTreeSet.mem_ofList]
    exact List.contains_iff_mem.mpr List.mem_cons_self

/-- After a file is moved to a language that is not understood, its record lists an id of the
language that it left. -/
theorem moved_undescribed : ∃ m₁ m₂ : Manifest,
    ∃ t₁ : Turn movedSetting sampleHome sampleFilter .empty m₁,
    ∃ t₂ : Turn movedSetting sampleHome sampleFilter m₁ m₂, ∃ r,
      (t₁.before = sampleWorld (reusedDisk ["a.py"]) (sampleCheckpoint "old") .empty ∧
        t₁.request = .changeset { added := ["a.py"] }) ∧
      (t₂.before = sampleWorld (reusedDisk ["a.js"]) (sampleCheckpoint "old") m₁ ∧
        t₂.request = .repository (.auto .head) ∧ t₂.report.state.Clean) ∧
      m₂.get? "a.js" = some r ∧ r.entityIds ≠ [] ∧
      ¬ movedSetting.Describes t₂.after.disk "a.js" r := by
  obtain ⟨m₁, m₂, t₁, t₂, r, hfirst, hsecond, hr, hstems, hreads⟩ := moved_history
  have hindexed := ((History.start.turn t₁).turn t₂).stems (sample_still _ _) rfl sampleFilter_eq
    "a.js" r hr
  obtain ⟨content, hread, _, hids⟩ := hindexed.2 "a.py" hstems
  rw [hreads content hread] at hids
  refine ⟨m₁, m₂, t₁, t₂, r, hfirst, hsecond, hr, (moved_ids _ _ hids content).2, ?_⟩
  rintro ⟨content', _, _, _, hmine⟩
  obtain ⟨hnone, hsome⟩ := moved_ids _ _ hids content'
  rw [hnone] at hmine
  exact hsome (Except.ok.inj hmine).symm

/-- The condition in that history: the extractor reports nothing under the new name. -/
theorem moved_describes : ∃ m₁ m₂ : Manifest,
    ∃ t₁ : Turn movedSetting sampleHome sampleFilter .empty m₁,
    ∃ t₂ : Turn movedSetting sampleHome sampleFilter m₁ m₂, ∃ r,
      t₂.request = .repository (.auto .head) ∧ t₂.report.state.Clean ∧
      m₂.get? "a.js" = some r ∧
      (movedSetting.Describes t₂.after.disk "a.js" r ↔
        ∀ q, ((History.start.turn t₁).turn t₂).Stems "a.js" q → ∀ content modified,
          t₂.after.disk.readFile (Path.join movedSetting.root "a.js") = .ok (content, modified) →
          movedSetting.idsOf "a.js" r.lineage content =
            movedSetting.idsOf q r.lineage content) := by
  obtain ⟨m₁, m₂, t₁, t₂, r, _, ⟨_, hrequest, hclean⟩, hr, _, hreads⟩ := moved_history
  exact ⟨m₁, m₂, t₁, t₂, r, hrequest, hclean, hr,
    (History.start.turn t₁).describes_iff t₂ (sample_still _ _) rfl sampleFilter_eq (fun _ => rfl)
      (.auto .head) hrequest hclean
      (fun a b ha hb _ => (hreads a ha).trans (hreads b hb).symm) "a.js" r hr⟩

end Moved

end CodeIndex
