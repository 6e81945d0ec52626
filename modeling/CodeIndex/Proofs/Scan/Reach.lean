import CodeIndex.Proofs.Scan.Walk

/-!
What a walk of a tree reaches, beside the judgement of single paths. A walk finds the files that
are judged fit by their paths and sizes and to which it is not barred: it enters no directory that
is hidden, or that a pattern or an ignore file names. The judgement of a path knows of none of that,
so that the two agree exactly on the trees where no fit file is barred.
-/

namespace CodeIndex

namespace Disk

inductive LeadsTo (d : Disk) : Location → List String → ByteArray → Prop where
  | file (place : Location) (name : String) (content : ByteArray) (modified : Nat)
      (here : d.lookup (place ++ [name]) = some (.file content modified)) :
      LeadsTo d place [name] content
  | enter (place : Location) (name : String) (names : List String) (content : ByteArray)
      (here : d.lookup (place ++ [name]) = some .directory)
      (next : LeadsTo d (place ++ [name]) names content) : LeadsTo d place (name :: names) content

/-- No name on the disk has a slash in it. -/
def Plain (d : Disk) : Prop :=
  ∀ (place : Location) (node : DiskNode), d.nodes[place]? = some node →
    ∀ name ∈ place, '/' ∉ name.toList

variable {d : Disk} {place : Location} {names : List String} {content : ByteArray}

theorem LeadsTo.ne_nil (h : d.LeadsTo place names content) : names ≠ [] := by
  cases h <;> exact List.cons_ne_nil _ _

theorem LeadsTo.length_le (h : d.LeadsTo place names content) :
    names.length ≤ (d.below place).length := by
  induction h with
  | file place name content modified here =>
    have hless := d.below_lt place name _ ((d.mem_children place name _).mpr here)
    exact Nat.one_le_of_lt hless
  | enter place name names content here next ih =>
    have hless := d.below_lt place name _ ((d.mem_children place name _).mpr here)
    exact Nat.succ_le_of_lt (Nat.lt_of_le_of_lt ih hless)

theorem LeadsTo.lookup (h : d.LeadsTo place names content) :
    ∃ modified, d.lookup (place ++ names) = some (.file content modified) := by
  induction h with
  | file place name content modified here => exact ⟨modified, here⟩
  | enter place name names content here next ih =>
    rw [List.append_assoc] at ih
    exact ih

theorem LeadsTo.plain (h : d.LeadsTo place names content) (hplain : d.Plain) :
    ∀ name ∈ names, '/' ∉ name.toList := by
  obtain ⟨modified, hfile⟩ := h.lookup
  have hnode : d.nodes[place ++ names]? = some (.file content modified) := by
    cases hall : place ++ names with
    | nil =>
      rw [hall] at hfile
      cases hfile
    | cons _ _ =>
      rw [hall] at hfile
      exact hfile
  intro name hname
  exact hplain _ _ hnode name (List.mem_append_right _ hname)

end Disk

theorem Path.pieces_intercalate (names : List String) (hne : names ≠ [])
    (hplain : ∀ name ∈ names, '/' ∉ name.toList) : pieces ("/".intercalate names) = names := by
  induction names with
  | nil => exact absurd rfl hne
  | cons name rest ih =>
    have hown : pieces name = [name] := by
      unfold pieces
      rw [Text.splitOn_single _ _ (hplain name List.mem_cons_self), List.map_singleton,
        String.ofList_toList]
    cases rest with
    | nil =>
      rw [String.intercalate_singleton]
      exact hown
    | cons second rest =>
      rw [String.intercalate_cons_of_ne_nil (List.cons_ne_nil _ _), pieces_append_slash, hown,
        ih (List.cons_ne_nil _ _) fun n hn => hplain n (List.mem_cons_of_mem _ hn)]
      rfl

namespace FileFilter

variable (f : FileFilter) (d : Disk)

def rulesAround (above : List DirectoryRules) (relative : List String) :
    List String → List DirectoryRules
  | [] => .load d f.config.respectGitignore (Path.join f.root ("/".intercalate relative)) :: above
  | name :: front =>
    rulesAround
      (.load d f.config.respectGitignore (Path.join f.root ("/".intercalate relative)) :: above)
      (relative ++ [name]) front

def Unskipped (above : List DirectoryRules) (relative names : List String) : Prop :=
  ∀ front name back, names = front ++ name :: back →
    f.skipsEntry (rulesAround f d above relative front)
      (Path.join f.root ("/".intercalate (relative ++ front ++ [name]))) name (!back.isEmpty) = false

theorem unskipped_cons (above : List DirectoryRules) (relative : List String) (name : String)
    (names : List String) :
    f.Unskipped d above relative (name :: names) ↔
      f.skipsEntry
        (.load d f.config.respectGitignore (Path.join f.root ("/".intercalate relative)) :: above)
        (Path.join f.root ("/".intercalate (relative ++ [name]))) name (!names.isEmpty) = false ∧
      f.Unskipped d
        (.load d f.config.respectGitignore (Path.join f.root ("/".intercalate relative)) :: above)
        (relative ++ [name]) names := by
  constructor
  · intro h
    refine ⟨?_, ?_⟩
    · have hfirst := h [] name names rfl
      rw [List.append_nil] at hfirst
      exact hfirst
    · rintro front name' back rfl
      have hlater := h (name :: front) name' back rfl
      rw [List.append_cons relative name front] at hlater
      exact hlater
  · rintro ⟨hfirst, hlater⟩ front name' back heq
    cases front with
    | nil =>
      obtain ⟨rfl, rfl⟩ := List.cons.inj heq
      rw [List.append_nil]
      exact hfirst
    | cons _ front =>
      obtain ⟨rfl, rfl⟩ := List.cons.inj heq
      rw [List.append_cons relative name front]
      exact hlater front name' back rfl

theorem unskipped_nil (above : List DirectoryRules) (relative : List String) :
    f.Unskipped d above relative [] := by
  intro front name back h
  cases front <;> cases h

/-- A walk with enough fuel finds the files that it comes to without being barred. -/
theorem mem_filesBelow (n : Nat) (above : List DirectoryRules) (place : Location)
    (relative : List String) (path : String) (size : Nat) :
    (path, size) ∈ f.filesBelow d n above place relative ↔
      ∃ names content, names.length ≤ n ∧ d.LeadsTo place names content ∧
        f.Unskipped d above relative names ∧ path = "/".intercalate (relative ++ names) ∧
        size = content.size := by
  -- on the fuel: one step goes down to the children of a place, and both ways the names are those
  -- behind the first
  induction n generalizing above place relative with
  | zero =>
    constructor
    · intro h
      exact absurd h List.not_mem_nil
    · rintro ⟨names, content, hlength, hleads, -⟩
      exact absurd (List.length_eq_zero_iff.mp (Nat.le_zero.mp hlength)) hleads.ne_nil
  | succ n ih =>
    rw [filesBelow]
    dsimp only
    rw [List.mem_flatMap]
    constructor
    · rintro ⟨⟨name, node⟩, hchild, hfound⟩
      rw [d.mem_children] at hchild
      cases node with
      -- links are not followed
      | link target => exact absurd hfound List.not_mem_nil
      | directory =>
        dsimp only at hfound
        split at hfound
        · exact absurd hfound List.not_mem_nil
        · rename_i hopen
          obtain ⟨names, content, hlength, hleads, hclear, hpath, hsize⟩ := (ih _ _ _).mp hfound
          have hmore : (!names.isEmpty) = true := by
            cases hnames : names with
            | nil => exact absurd hnames hleads.ne_nil
            | cons _ _ => rfl
          refine ⟨name :: names, content, Nat.succ_le_succ hlength,
            .enter place name names content hchild hleads, ?_, ?_, hsize⟩
          · rw [unskipped_cons, hmore]
            exact ⟨Bool.not_eq_true _ ▸ hopen, hclear⟩
          · rw [hpath, List.append_assoc, List.singleton_append]
      | file content modified =>
        dsimp only at hfound
        split at hfound
        · exact absurd hfound List.not_mem_nil
        · rename_i hopen
          obtain ⟨rfl, rfl⟩ := Prod.mk.inj (List.mem_singleton.mp hfound)
          refine ⟨[name], content, Nat.succ_le_succ (Nat.zero_le n),
            .file place name content modified hchild, ?_, rfl, rfl⟩
          rw [unskipped_cons]
          exact ⟨Bool.not_eq_true _ ▸ hopen, f.unskipped_nil d _ _⟩
    · rintro ⟨names, content, hlength, hleads, hclear, rfl, rfl⟩
      -- the way leads to a file of the place itself, or through a directory there
      cases hleads with
      | file _ name _ modified here =>
        refine ⟨(name, .file content modified), (d.mem_children _ _ _).mpr here, ?_⟩
        obtain ⟨hopen, -⟩ := (f.unskipped_cons d _ _ _ _).mp hclear
        have hlast : (!([] : List String).isEmpty) = false := rfl
        rw [hlast] at hopen
        dsimp only
        rw [if_neg (ne_true_of_eq_false hopen)]
        exact List.mem_singleton_self _
      | enter _ name names _ here next =>
        refine ⟨(name, .directory), (d.mem_children _ _ _).mpr here, ?_⟩
        obtain ⟨hopen, hrest⟩ := (f.unskipped_cons d _ _ _ _).mp hclear
        have hmore : (!names.isEmpty) = true := by
          cases hnames : names with
          | nil => exact absurd hnames next.ne_nil
          | cons _ _ => rfl
        rw [hmore] at hopen
        dsimp only
        rw [if_neg (ne_true_of_eq_false hopen), ih]
        refine ⟨names, content, Nat.le_of_succ_le_succ hlength, next, hrest, ?_, rfl⟩
        rw [List.append_assoc, List.singleton_append]

/-- The directories around an entry of a tree, the nearest first: those on the way to it from the
root, and those above. -/
def directoriesTo (place : Location) (front : List String) : List String :=
  ((List.range (front.length + 1)).map fun n =>
    Path.join f.root ("/".intercalate (front.take n))).reverse ++ directoriesAbove place

/-- The rules around an entry are those of the directories around it. -/
theorem rulesAround_eq (place : Location) (front : List String) :
    f.rulesAround d ((directoriesAbove place).map (.load d f.config.respectGitignore)) [] front =
      (f.directoriesTo place front).map (.load d f.config.respectGitignore) := by
  have hall (above : List DirectoryRules) (relative front : List String) :
      f.rulesAround d above relative front =
        ((List.range (front.length + 1)).map fun n => DirectoryRules.load d
          f.config.respectGitignore
          (Path.join f.root ("/".intercalate (relative ++ front.take n)))).reverse ++ above := by
    induction front generalizing above relative with
    | nil => simp [rulesAround]
    | cons name front ih =>
      rw [rulesAround, ih, List.length_cons, List.range_succ_eq_map (n := front.length + 1),
        List.map_cons, List.reverse_cons, List.map_map, List.append_assoc]
      simp [Function.comp_def]
  rw [hall]
  unfold directoriesTo
  simp only [List.map_append, List.map_reverse, List.map_map, List.nil_append]
  rfl

/-- The files of a scan are those of the tree that are judged fit and that the walk comes to. -/
theorem mem_scan (path : String) :
    path ∈ f.scan d ↔ ∃ place names content, d.locate f.root = .ok place ∧
      d.lookup place = some .directory ∧ d.LeadsTo place names content ∧
      f.isEligible path = true ∧ f.withinSize content.size = true ∧
      path = "/".intercalate names ∧
      f.Unskipped d ((directoriesAbove place).map (.load d f.config.respectGitignore)) [] names := by
  unfold scan
  cases hroot : d.locate f.root with
  | error e => simp
  | ok place =>
    dsimp only
    split
    · rename_i hdirectory
      rw [mem_sortedPaths, List.mem_filterMap]
      constructor
      · rintro ⟨⟨path', size⟩, hfound, hkept⟩
        dsimp only at hkept
        split at hkept
        · rename_i hfit
          cases hkept
          obtain ⟨names, content, -, hleads, hclear, hpath, rfl⟩ :=
            (f.mem_filesBelow d _ _ _ _ _ _).mp hfound
          rw [Bool.and_eq_true] at hfit
          exact ⟨place, names, content, rfl, hdirectory, hleads, hfit.1, hfit.2, hpath, hclear⟩
        · cases hkept
      · rintro ⟨place', names, content, hplace, -, hleads, hfit, hsize, rfl, hclear⟩
        cases hplace
        refine ⟨("/".intercalate names, content.size), ?_, ?_⟩
        · -- no way in the tree is longer than there are entries
          have hbelow : (d.below place).length ≤ d.nodes.size := by
            rw [← Std.ExtTreeMap.length_toList]
            exact List.length_filter_le _ _
          have hlength := Nat.le_trans hleads.length_le (Nat.le_succ_of_le hbelow)
          exact (f.mem_filesBelow d _ _ _ _ _ _).mpr
            ⟨names, content, hlength, hleads, hclear, rfl, rfl⟩
        · dsimp only
          rw [if_pos (by rw [hfit, hsize]; rfl)]
    · rename_i hother
      constructor
      · intro h
        exact absurd h List.not_mem_nil
      · rintro ⟨place', -, -, hplace, hdirectory, -⟩
        cases hplace
        exact absurd hdirectory hother

/-- A file of the tree that its path and its size judge fit to be indexed. -/
structure Fit (place : Location) (names : List String) (content : ByteArray) : Prop where
  root : d.locate f.root = .ok place
  directory : d.lookup place = some .directory
  leads : d.LeadsTo place names content
  eligible : f.isEligible ("/".intercalate names) = true
  size : f.withinSize content.size = true

/-- A walk that reads no file of git is barred from an entry: a pattern names it, or an `.ignore`
file does, or it is hidden and no such file keeps it. -/
def Bars (around : List DirectoryRules) (path name : String) (isDirectory : Bool) : Prop :=
  f.isExcluded path isDirectory = true ∨
    DirectoryRules.firstVerdict (·.own) path isDirectory around = .ignored ∨
    (DirectoryRules.firstVerdict (·.own) path isDirectory around = .silent ∧
      name.toList.head? = some '.')

theorem firstVerdict_unread (select : DirectoryRules → List IgnoreRule)
    (hselect : ∀ directory, select (.load d false directory) = []) (path : String)
    (isDirectory : Bool) (directories : List String) :
    DirectoryRules.firstVerdict select path isDirectory (directories.map (.load d false)) =
      .silent := by
  induction directories with
  | nil => rfl
  | cons directory rest ih =>
    rw [List.map_cons, DirectoryRules.firstVerdict, hselect, ih]
    rfl

theorem skipsEntry_iff (directories : List String) (path name : String) (isDirectory : Bool) :
    f.skipsEntry (directories.map (.load d false)) path name isDirectory = true ↔
      f.Bars (directories.map (.load d false)) path name isDirectory := by
  have hverdict : DirectoryRules.verdict (directories.map (.load d false)) path isDirectory =
      DirectoryRules.firstVerdict (·.own) path isDirectory (directories.map (.load d false)) := by
    unfold DirectoryRules.verdict
    rw [firstVerdict_unread d (·.tracked) (fun _ => rfl),
      firstVerdict_unread d (·.untracked) (fun _ => rfl)]
    generalize DirectoryRules.firstVerdict (·.own) path isDirectory _ = v
    cases v <;> rfl
  unfold skipsEntry Bars
  rw [hverdict, Bool.or_eq_true]
  generalize DirectoryRules.firstVerdict (·.own) path isDirectory _ = v
  cases v <;> simp

/-- In a tree whose names have no slashes, a walk that reads no file of git finds exactly the files
that are judged fit by path and size, if and only if it is barred from no entry on the way to any
of them. -/
theorem scan_exact_iff (hplain : d.Plain) (hgit : f.config.respectGitignore = false) :
    (∀ path, path ∈ f.scan d ↔
      ∃ place names content, f.Fit d place names content ∧ path = "/".intercalate names) ↔
    ∀ place names content, f.Fit d place names content →
      ∀ front name back, names = front ++ name :: back →
        ¬ f.Bars ((f.directoriesTo place front).map (.load d false))
          (Path.join f.root ("/".intercalate (front ++ [name]))) name (!back.isEmpty) := by
  have hclear (place : Location) (names : List String) :
      f.Unskipped d ((directoriesAbove place).map (.load d f.config.respectGitignore)) [] names ↔
      ∀ front name back, names = front ++ name :: back →
        ¬ f.Bars ((f.directoriesTo place front).map (.load d false))
          (Path.join f.root ("/".intercalate (front ++ [name]))) name (!back.isEmpty) := by
    have haround := f.rulesAround_eq d place
    simp only [hgit] at haround
    unfold Unskipped
    simp only [hgit, haround, ← skipsEntry_iff, Bool.not_eq_true, List.nil_append]
  constructor
  · intro hexact place names content hfit
    -- the file is found, by a way that spells the same path and is therefore the same
    obtain ⟨place', names', content', hplace, -, hleads, -, -, hpath, hopen⟩ :=
      (f.mem_scan d _).mp ((hexact _).mpr ⟨place, names, content, hfit, rfl⟩)
    rw [hfit.root] at hplace
    cases hplace
    have hnames : names = names' := by
      rw [← Path.pieces_intercalate names hfit.leads.ne_nil (hfit.leads.plain hplain), hpath,
        Path.pieces_intercalate names' hleads.ne_nil (hleads.plain hplain)]
    rw [hnames]
    exact (hclear place names').mp hopen
  · intro hopen path
    rw [mem_scan]
    constructor
    · rintro ⟨place, names, content, hroot, hdirectory, hleads, heligible, hsize, rfl, -⟩
      exact ⟨place, names, content, ⟨hroot, hdirectory, hleads, heligible, hsize⟩, rfl⟩
    · rintro ⟨place, names, content, hfit, rfl⟩
      exact ⟨place, names, content, hfit.root, hfit.directory, hfit.leads, hfit.eligible, hfit.size,
        rfl, (hclear place names).mpr (hopen place names content hfit)⟩

end FileFilter

def generatedConfig : ScanConfig := { exclude := ["generated/"], respectGitignore := false }

def generatedFilter : FileFilter :=
  (FileFilter.ofConfig "/r" generatedConfig).toOption.getD default

def generatedTree : Disk :=
  ⟨.ofList [(["r"], DiskNode.directory), (["r", "generated"], DiskNode.directory),
    (["r", "generated", "api.py"], DiskNode.file "x".toUTF8 0)]⟩

theorem generatedFilter_eq : FileFilter.ofConfig "/r" generatedConfig = .ok generatedFilter := by
  have hok : (FileFilter.ofConfig "/r" generatedConfig).toOption.isSome = true := by decide
  unfold generatedFilter
  revert hok
  cases FileFilter.ofConfig "/r" generatedConfig with
  | error e =>
    intro hok
    cases hok
  | ok f => exact fun _ => rfl

theorem generatedTree_plain : generatedTree.Plain := by
  have hkeys : ∀ place ∈ generatedTree.nodes.keys, ∀ name ∈ place, '/' ∉ name.toList := by decide
  intro place node hnode
  apply hkeys
  rw [Std.ExtTreeMap.mem_keys, Std.ExtTreeMap.mem_iff_isSome_getElem?, hnode]
  rfl

theorem generatedTree_fit :
    generatedFilter.Fit generatedTree ["r"] ["generated", "api.py"] "x".toUTF8 where
  root := by rfl
  directory := by decide
  leads := .enter ["r"] "generated" ["api.py"] _ (by decide)
    (.file ["r", "generated"] "api.py" _ 0 (by decide))
  eligible := by decide
  size := by decide

/-- The condition on a tree with a file in a directory that is left out. -/
theorem generated_exact_iff :
    generatedTree.Plain ∧ generatedFilter.config.respectGitignore = false ∧
    ((∀ path, path ∈ generatedFilter.scan generatedTree ↔ ∃ place names content,
        generatedFilter.Fit generatedTree place names content ∧ path = "/".intercalate names) ↔
      ∀ place names content, generatedFilter.Fit generatedTree place names content →
        ∀ front name back, names = front ++ name :: back →
          ¬ generatedFilter.Bars
            ((generatedFilter.directoriesTo place front).map (.load generatedTree false))
            (Path.join generatedFilter.root ("/".intercalate (front ++ [name]))) name
            (!back.isEmpty)) := by
  have hgit : generatedFilter.config.respectGitignore = false := by decide
  exact ⟨generatedTree_plain, hgit,
    generatedFilter.scan_exact_iff generatedTree generatedTree_plain hgit⟩

/-- A file in a directory that a pattern leaves out is fit by its path, and no walk finds it. -/
theorem generated_overlooked :
    FileFilter.ofConfig "/r" generatedConfig = .ok generatedFilter ∧
    generatedConfig.respectGitignore = false ∧ generatedTree.Linkless ∧
    ¬ ∀ path, path ∈ generatedFilter.scan generatedTree ↔ ∃ place names content,
      generatedFilter.Fit generatedTree place names content ∧ path = "/".intercalate names := by
  have hlinks : generatedTree.Linkless := Disk.linkless_of_all _ (by decide)
  have hscan : generatedFilter.scan generatedTree = [] := by decide +kernel
  refine ⟨generatedFilter_eq, rfl, hlinks, ?_⟩
  intro hexact
  have hfound := (hexact _).mpr ⟨_, _, _, generatedTree_fit, rfl⟩
  rw [hscan] at hfound
  exact absurd hfound List.not_mem_nil

end CodeIndex
