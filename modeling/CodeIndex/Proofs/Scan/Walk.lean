import CodeIndex.Proofs.Change.ChangeSet
import CodeIndex.Proofs.Disk.Linkless
import CodeIndex.Scan.Walk

namespace CodeIndex

namespace Disk

def isChild (place found : Location) : Bool :=
  match place.isPrefixOf found, found.drop place.length with
  | true, [_] => true
  | _, _ => false

theorem isChild_iff (place found : Location) :
    isChild place found = true ↔ ∃ name, found = place ++ [name] := by
  unfold isChild
  constructor
  · intro h
    split at h
    · rename_i name hfront hrest
      obtain ⟨rest, rfl⟩ := List.isPrefixOf_iff_prefix.mp hfront
      rw [List.drop_left] at hrest
      exact ⟨name, by rw [hrest]⟩
    · cases h
  · rintro ⟨name, rfl⟩
    rw [List.isPrefixOf_iff_prefix.mpr (List.prefix_append _ _), List.drop_left]

theorem lookup_concat (d : Disk) (place : Location) (name : String) :
    d.lookup (place ++ [name]) = d.nodes[place ++ [name]]? := by
  cases place <;> rfl

theorem mem_children (d : Disk) (place : Location) (name : String) (node : DiskNode) :
    (name, node) ∈ d.children place ↔ d.lookup (place ++ [name]) = some node := by
  unfold children
  rw [List.mem_filterMap, lookup_concat]
  constructor
  · rintro ⟨⟨found, node'⟩, hmem, hsome⟩
    dsimp only at hsome
    split at hsome
    · rename_i name' hfront hrest
      cases hsome
      obtain ⟨rest, rfl⟩ := List.isPrefixOf_iff_prefix.mp hfront
      rw [List.drop_left] at hrest
      subst hrest
      exact Std.ExtTreeMap.mem_toList_iff_getElem?_eq_some.mp hmem
    · cases hsome
  · intro h
    refine ⟨_, Std.ExtTreeMap.mem_toList_iff_getElem?_eq_some.mpr h, ?_⟩
    dsimp only
    rw [List.isPrefixOf_iff_prefix.mpr (List.prefix_append _ _), List.drop_left]

/-- The locations that are not one step below a directory contribute nothing to it. -/
theorem children_filter (d : Disk) (place : Location) : d.children place =
    (d.nodes.filter (fun found _ => isChild place found)).toList.filterMap
      fun (found, node) =>
        match place.isPrefixOf found, found.drop place.length with
        | true, [name] => some (name, node)
        | _, _ => none := by
  unfold children
  rw [Std.ExtTreeMap.toList_filter, List.filterMap_filter]
  congr 1
  funext ⟨found, node⟩
  by_cases hchild : isChild place found = true
  · exact (if_pos hchild).symm
  · rw [if_neg hchild]
    unfold isChild at hchild
    dsimp only
    split
    · rename_i hfront hrest
      rw [hfront, hrest] at hchild
      exact absurd rfl hchild
    · rfl

/-- What stands in a directory depends on the locations one step below it. -/
theorem children_congr {d d' : Disk} {place : Location}
    (h : ∀ name, d'.lookup (place ++ [name]) = d.lookup (place ++ [name])) :
    d'.children place = d.children place := by
  have hnodes : d'.nodes.filter (fun found _ => isChild place found) =
      d.nodes.filter (fun found _ => isChild place found) := by
    apply Std.ExtTreeMap.ext_getElem?
    intro found
    rw [Std.ExtTreeMap.getElem?_filter', Std.ExtTreeMap.getElem?_filter']
    cases hchild : isChild place found with
    | true =>
      obtain ⟨name, rfl⟩ := (isChild_iff place found).mp hchild
      rw [← lookup_concat, ← lookup_concat, h]
    | false =>
      have hnone (x : Option DiskNode) : x.filter (fun _ => false) = none := by cases x <;> rfl
      rw [hnone, hnone]
  rw [children_filter, children_filter, hnodes]

def below (d : Disk) (place : Location) : List (Location × DiskNode) :=
  d.nodes.toList.filter fun (found, _) => place.isPrefixOf found && found != place

/-- Less stands below a directory than below the one it is in. -/
theorem below_lt (d : Disk) (place : Location) (name : String) (node : DiskNode)
    (h : (name, node) ∈ d.children place) :
    (d.below (place ++ [name])).length < (d.below place).length := by
  have hsub : d.below (place ++ [name]) = (d.below place).filter fun (found, _) =>
      (place ++ [name]).isPrefixOf found && found != place ++ [name] := by
    unfold below
    rw [List.filter_filter]
    apply List.filter_congr
    rintro ⟨found, _⟩ _
    dsimp only
    cases hfront : (place ++ [name]).isPrefixOf found with
    | false => rfl
    | true =>
      obtain ⟨rest, rfl⟩ := List.isPrefixOf_iff_prefix.mp hfront
      have hbelow : place.isPrefixOf (place ++ [name] ++ rest) = true :=
        List.isPrefixOf_iff_prefix.mpr ⟨[name] ++ rest, by rw [List.append_assoc]⟩
      have hne : (place ++ [name] ++ rest != place) = true := by
        rw [bne_iff_ne]
        intro heq
        have hlength := congrArg List.length heq
        simp only [List.length_append, List.length_singleton] at hlength
        omega
      rw [hbelow, hne, Bool.and_self, Bool.and_true]
  -- the child itself is below the place and not below itself
  rw [hsub, List.length_filter_lt_length_iff_exists]
  rw [mem_children, lookup_concat] at h
  refine ⟨(place ++ [name], node), List.mem_filter.mpr
    ⟨Std.ExtTreeMap.mem_toList_iff_getElem?_eq_some.mpr h, ?_⟩, ?_⟩
  · dsimp only
    rw [List.isPrefixOf_iff_prefix.mpr (List.prefix_append _ _), Bool.true_and, bne_iff_ne]
    intro heq
    simpa using congrArg List.length heq
  · simp

/-- In a tree without links a walk ends at the last of the names, if it ends. -/
theorem walkSteps_last {d : Disk} (hlinks : d.Linkless)
    (follow : Location → String → List String → Except DiskError Location) (x : Location)
    (front : List String) (last : String) (hdot : last ≠ ".") (hup : last ≠ "..") (y : Location)
    (h : d.walkSteps follow x (front ++ [last]) = .ok y) : ∃ z, y = z ++ [last] := by
  -- along the names in front; whatever they lead to, the last one is entered
  induction front generalizing x with
  | nil =>
    rw [List.nil_append, walkSteps, if_neg hdot, if_neg hup] at h
    split at h
    · cases h
    · dsimp only at h
      split at h
      · cases h
        exact ⟨x, rfl⟩
      · rw [walkSteps] at h
        cases h
        exact ⟨x, rfl⟩
      · cases h
        exact ⟨x, rfl⟩
      · rename_i target hlink
        exact absurd hlink (hlinks _ target)
  | cons name rest ih =>
    have hmore : (rest ++ [last]).isEmpty = false := by cases rest <;> rfl
    rw [List.cons_append, walkSteps] at h
    split at h
    · exact ih x h
    · split at h
      · exact ih _ h
      · split at h
        · cases h
        · dsimp only at h
          rw [hmore] at h
          split at h
          · cases h
          · exact ih _ h
          · cases h
          · rename_i target hlink
            exact absurd hlink (hlinks _ target)

end Disk

theorem Text.splitOn_single {α : Type} [DecidableEq α] (sep : α) (xs : List α) (h : sep ∉ xs) :
    Text.splitOn sep xs = [xs] := by
  induction xs with
  | nil => rfl
  | cons c cs ih =>
    rw [List.mem_cons, not_or] at h
    rw [splitOn, if_neg (Ne.symm h.1), ih h.2]

/-- The last of the names on the way along a path that ends in a name. -/
theorem Disk.steps_last (path name : String) (front : List Char)
    (hpath : path.toList = front ++ name.toList)
    (hfront : front = [] ∨ ∃ before, front = before ++ ['/']) (hplain : '/' ∉ name.toList)
    (hne : name ≠ "") : ∃ names, Disk.steps path = names ++ [name] := by
  have hsplit : ∃ pieces, Text.splitOn '/' path.toList = pieces ++ [name.toList] := by
    rcases hfront with rfl | ⟨before, rfl⟩
    · exact ⟨[], by rw [hpath, List.nil_append, Text.splitOn_single _ _ hplain, List.nil_append]⟩
    · refine ⟨Text.splitOn '/' before, ?_⟩
      rw [hpath, List.append_assoc, List.singleton_append, Text.splitOn_append,
        Text.splitOn_single _ _ hplain]
  obtain ⟨pieces, hsplit⟩ := hsplit
  have hnil : name.toList ≠ [] := by
    intro h
    exact hne (String.toList_inj.mp h)
  -- the path does not end in a slash, for its name has none
  have hlast : (path.toList.getLast? == some '/') = false := by
    rw [hpath, List.getLast?_append, ← Bool.not_eq_true, beq_iff_eq]
    intro h
    rw [List.getLast?_eq_some_getLast hnil, Option.some_or] at h
    exact hplain (Option.some.inj h ▸ List.getLast_mem hnil)
  have hkept : (!name.toList.isEmpty) = true := by
    cases h : name.toList with
    | nil => exact absurd h hnil
    | cons _ _ => rfl
  refine ⟨(pieces.filter (!·.isEmpty)).map String.ofList, ?_⟩
  unfold steps
  dsimp only
  rw [hlast, hsplit, List.filter_append, List.map_append]
  simp only [Bool.false_eq_true, if_false, List.filter_cons, hkept, if_true, List.filter_nil,
    List.map_cons, List.map_nil, String.ofList_toList]

namespace DirectoryRules

def fileNames : List String := [".ignore", ".gitignore", "exclude"]

theorem join_ends (directory path : String) :
    ∃ front : List Char, (Path.join directory path).toList = front ++ path.toList ∧
      (front = [] ∨ ∃ before, front = before ++ ['/']) := by
  unfold Path.join
  split
  · exact ⟨[], rfl, .inl rfl⟩
  · split
    · exact ⟨[], rfl, .inl rfl⟩
    · split
      · rename_i hslash
        rw [beq_iff_eq, List.getLast?_eq_some_iff] at hslash
        exact ⟨directory.toList, String.toList_append, .inr hslash⟩
      · refine ⟨directory.toList ++ ['/'], ?_, .inr ⟨_, rfl⟩⟩
        rw [String.toList_append, String.toList_append]
        rfl

/-- The rules at a path are read from a file of one of the names. -/
theorem steps_rules (directory path name : String) (front : List Char)
    (hpath : path.toList = front ++ name.toList)
    (hfront : front = [] ∨ ∃ before, front = before ++ ['/']) (hplain : '/' ∉ name.toList)
    (hne : name ≠ "") : ∃ names, Disk.steps (Path.join directory path) = names ++ [name] := by
  obtain ⟨start, hjoin, hstart⟩ := join_ends directory path
  apply Disk.steps_last _ name (start ++ front) (by rw [hjoin, hpath, List.append_assoc]) _ hplain
    hne
  rcases hfront with rfl | ⟨before, rfl⟩
  · rw [List.append_nil]
    exact hstart
  · exact .inr ⟨start ++ before, (List.append_assoc ..).symm⟩

end DirectoryRules

/-- Places that a walk passes by: each is in a directory of one name, and none is a file that rules
are read from. -/
structure PassedBy (avoid : String) (places : List Location) : Prop where
  within : ∀ y ∈ places, avoid ∈ y.dropLast
  named : ∀ z name, z ++ [name] ∈ places → name ∉ DirectoryRules.fileNames

section Walk

variable {places : List Location} {d d' : Disk} {avoid : String}
  (h : Disk.SameBut places d d') (hlinks : d.Linkless) (hpassed : PassedBy avoid places)

include h hlinks hpassed

theorem DirectoryRules.rulesAt_passed (path name : String) (hname : name ∈ fileNames)
    (hsteps : ∃ names, Disk.steps path = names ++ [name]) : rulesAt d' path = rulesAt d path := by
  have hdots : name ≠ "." ∧ name ≠ ".." := by
    unfold fileNames at hname
    simp only [List.mem_cons, List.not_mem_nil, or_false] at hname
    rcases hname with rfl | rfl | rfl <;> decide
  obtain ⟨names, hsteps⟩ := hsteps
  unfold rulesAt Disk.readFile
  cases hloc : d.locate path with
  | ok y =>
    have hlast : ∃ z, y = z ++ [name] := by
      unfold Disk.locate at hloc
      split at hloc
      · cases hloc
      · rw [hsteps] at hloc
        exact Disk.walkSteps_last hlinks _ [] names name hdots.1 hdots.2 y hloc
    obtain ⟨z, rfl⟩ := hlast
    rw [Disk.stat_frame h path _ hloc fun hmem => hpassed.named z name hmem hname]
  | error e =>
    -- a path that leads nowhere leads nowhere on the other disk
    cases hloc' : d'.locate path with
    | ok y =>
      have hback := (Disk.locate_frame h.symm path y hloc').1
      rw [hloc] at hback
      cases hback
    | error e' =>
      unfold Disk.stat
      rw [hloc, hloc']
      rfl

theorem DirectoryRules.load_passed (respectGitignore : Bool) (directory : String) :
    load d' respectGitignore directory = load d respectGitignore directory := by
  unfold load
  rw [rulesAt_passed h hlinks hpassed _ ".ignore" (by decide)
      (steps_rules directory ".ignore" ".ignore" [] rfl (.inl rfl) (by decide) (by decide)),
    rulesAt_passed h hlinks hpassed _ ".gitignore" (by decide)
      (steps_rules directory ".gitignore" ".gitignore" [] rfl (.inl rfl) (by decide) (by decide)),
    rulesAt_passed h hlinks hpassed _ "exclude" (by decide)
      (steps_rules directory ".git/info/exclude" "exclude" ".git/info/".toList (by decide)
        (.inr ⟨".git/info".toList, by decide⟩) (by decide) (by decide))]

omit hlinks in
theorem Disk.children_passed (place : Location) (hplace : avoid ∉ place) :
    d'.children place = d.children place := by
  apply children_congr
  intro name
  apply h.outside
  rintro ⟨y, hy, hfront⟩
  have hwithin : y.dropLast <+: place := by
    rcases List.prefix_concat_iff.mp hfront with heq | hlt
    · refine ⟨[], ?_⟩
      rw [List.append_nil, heq, List.dropLast_concat]
    · exact (List.dropLast_prefix y).trans hlt
  exact hplace (hwithin.subset (hpassed.within y hy))

end Walk

namespace FileFilter

variable (f : FileFilter)

/-- A walk with fuel for all that stands below a directory is whole. -/
theorem filesBelow_fuel (d : Disk) (n n' : Nat) (above : List DirectoryRules) (place : Location)
    (relative : List String) (hn : (d.below place).length < n) (hn' : (d.below place).length < n') :
    f.filesBelow d n above place relative = f.filesBelow d n' above place relative := by
  induction n generalizing n' above place relative with
  | zero => exact absurd hn (Nat.not_lt_zero _)
  | succ n ih =>
    cases n' with
    | zero => exact absurd hn' (Nat.not_lt_zero _)
    | succ n' =>
      rw [filesBelow, filesBelow]
      dsimp only
      rw [List.flatMap_def, List.flatMap_def]
      congr 1
      apply List.map_congr_left
      rintro ⟨name, node⟩ hmem
      cases node with
      | link target => rfl
      | file content modified => rfl
      | directory =>
        dsimp only
        have hless := d.below_lt place name .directory hmem
        rw [ih n' _ (place ++ [name]) (relative ++ [name]) (by omega) (by omega)]

theorem filesBelow_names (d : Disk) (n : Nat) (above : List DirectoryRules) (place : Location)
    (relative : List String) (found : String × Nat)
    (h : found ∈ f.filesBelow d n above place relative) :
    ∃ more, found.1 = "/".intercalate (relative ++ more) := by
  induction n generalizing above place relative with
  | zero => exact absurd h List.not_mem_nil
  | succ n ih =>
    rw [filesBelow] at h
    obtain ⟨⟨name, node⟩, _, hfound⟩ := List.mem_flatMap.mp h
    cases node with
    | link target => exact absurd hfound List.not_mem_nil
    | directory =>
      dsimp only at hfound
      split at hfound
      · exact absurd hfound List.not_mem_nil
      · obtain ⟨more, hmore⟩ := ih _ _ _ hfound
        exact ⟨[name] ++ more, by rw [hmore, List.append_assoc]⟩
    | file content modified =>
      dsimp only at hfound
      split at hfound
      · exact absurd hfound List.not_mem_nil
      · rw [List.mem_singleton.mp hfound]
        exact ⟨[name], rfl⟩

end FileFilter

theorem Path.pieces_append_slash (a b : String) :
    pieces (a ++ "/" ++ b) = pieces a ++ pieces b := by
  have hlist : (a ++ "/" ++ b).toList = a.toList ++ '/' :: b.toList := by
    rw [String.toList_append, String.toList_append, List.append_assoc]
    rfl
  unfold pieces
  rw [hlist, Text.splitOn_append, List.map_append]

/-- The pieces of names with slashes between them are those of the names. -/
theorem Path.mem_pieces_intercalate (names : List String) (name : String) (hname : name ∈ names)
    (hplain : '/' ∉ name.toList) : name ∈ pieces ("/".intercalate names) := by
  have hown : name ∈ pieces name := by
    unfold pieces
    rw [Text.splitOn_single _ _ hplain, List.map_singleton, String.ofList_toList]
    exact List.mem_singleton_self name
  induction names with
  | nil => exact absurd hname List.not_mem_nil
  | cons first rest ih =>
    cases rest with
    | nil =>
      rw [String.intercalate_singleton, ← List.mem_singleton.mp hname]
      exact hown
    | cons second rest =>
      rw [String.intercalate_cons_of_ne_nil (List.cons_ne_nil _ _), pieces_append_slash,
        List.mem_append]
      rcases List.mem_cons.mp hname with rfl | hrest
      · exact .inl hown
      · exact .inr (ih hrest)

namespace FileFilter

variable (f : FileFilter)

structure Named : Prop where
  plain : '/' ∉ f.config.stateDir.toList
  nonempty : f.config.stateDir ≠ ""
  dot : f.config.stateDir ≠ "."
  up : f.config.stateDir ≠ ".."

theorem isEligible_within (hnamed : f.Named) (names : List String)
    (h : f.config.stateDir ∈ names) : f.isEligible ("/".intercalate names) = false := by
  have hname := Path.normalNames_pieces _ _
    (Path.mem_pieces_intercalate names f.config.stateDir h hnamed.plain) hnamed.nonempty hnamed.dot
    hnamed.up
  have hforeign : f.isForeign ("/".intercalate names) = true := by
    unfold isForeign
    rw [List.any_eq_true]
    exact ⟨_, hname, by simp⟩
  unfold isEligible
  rw [hforeign]
  simp

def keeps (found : String × Nat) : Option String :=
  if f.isEligible found.1 && f.withinSize found.2 then some found.1 else none

theorem filesBelow_within (hnamed : f.Named) (d : Disk) (n : Nat) (above : List DirectoryRules)
    (place : Location) (relative : List String) (h : f.config.stateDir ∈ relative) :
    (f.filesBelow d n above place relative).filterMap f.keeps = [] := by
  rw [List.filterMap_eq_nil_iff]
  intro found hfound
  obtain ⟨more, hmore⟩ := f.filesBelow_names d n above place relative found hfound
  unfold keeps
  rw [hmore, f.isEligible_within hnamed _ (List.mem_append_left _ h)]
  rfl

variable {places : List Location} {d d' : Disk} (h : Disk.SameBut places d d')
  (hlinks : d.Linkless) (hpassed : PassedBy f.config.stateDir places) (hnamed : f.Named)

include h hlinks hpassed hnamed

/-- A walk away from the state directory keeps the same files on both disks. -/
theorem filesBelow_passed (n : Nat) (above : List DirectoryRules) (place : Location)
    (relative : List String) (hplace : f.config.stateDir ∉ place) :
    (f.filesBelow d' n above place relative).filterMap f.keeps =
      (f.filesBelow d n above place relative).filterMap f.keeps := by
  induction n generalizing above place relative with
  | zero => rfl
  | succ n ih =>
    rw [filesBelow, filesBelow]
    dsimp only
    rw [DirectoryRules.load_passed h hlinks hpassed, Disk.children_passed h hpassed _ hplace,
      List.filterMap_flatMap, List.filterMap_flatMap, List.flatMap_def, List.flatMap_def]
    congr 1
    apply List.map_congr_left
    rintro ⟨name, node⟩ _
    cases node with
    | link target => rfl
    | file content modified => rfl
    | directory =>
      dsimp only
      split
      · rfl
      · by_cases hname : f.config.stateDir = name
        · -- nothing in the state directory is kept, whatever is there
          have hin : f.config.stateDir ∈ relative ++ [name] :=
            List.mem_append_right _ (List.mem_singleton.mpr hname)
          rw [f.filesBelow_within hnamed d' _ _ _ _ hin, f.filesBelow_within hnamed d _ _ _ _ hin]
        · apply ih
          rw [List.mem_append, List.mem_singleton, not_or]
          exact ⟨hplace, hname⟩

/-- The files of a tree that may be indexed are the same on both disks. -/
theorem scan_passed (hroot : f.config.stateDir ∉ Path.pieces f.root) : f.scan d' = f.scan d := by
  have hsteps : f.config.stateDir ∉ Disk.steps f.root := by
    intro hmem
    rcases Disk.mem_steps _ _ hmem with hdot | ⟨hpiece, _⟩
    · exact hnamed.dot hdot
    · exact hroot hpiece
  have hwithin : ∀ y ∈ places, f.config.stateDir ∈ y :=
    fun y hy => (List.dropLast_prefix y).subset (hpassed.within y hy)
  obtain ⟨hlocate, havoid⟩ := Disk.locate_avoiding f.config.stateDir h hlinks hwithin f.root hsteps
  unfold scan
  rw [hlocate]
  cases hplace : d.locate f.root with
  | error e => rfl
  | ok place =>
    have hout := havoid place hplace
    dsimp only
    rw [h.outside place (Disk.not_beneath_avoiding _ hwithin place hout)]
    split
    · have habove : (directoriesAbove place).map
          (DirectoryRules.load d' f.config.respectGitignore) =
          (directoriesAbove place).map (DirectoryRules.load d f.config.respectGitignore) :=
        List.map_congr_left fun _ _ => DirectoryRules.load_passed h hlinks hpassed _ _
      have hkept := f.filesBelow_passed h hlinks hpassed hnamed
        (max (d'.nodes.size + 1) (d.nodes.size + 1))
        ((directoriesAbove place).map (DirectoryRules.load d f.config.respectGitignore)) place []
        hout
      -- a walk has more fuel than it can use, so that on both disks it may be the same
      have hsize (e : Disk) : (e.below place).length < e.nodes.size + 1 := by
        have hle := List.length_filter_le (fun (found, _) =>
          place.isPrefixOf found && found != place) e.nodes.toList
        rw [Std.ExtTreeMap.length_toList] at hle
        exact Nat.lt_succ_of_le hle
      have hfuel (e : Disk) (he : e.nodes.size + 1 ≤ max (d'.nodes.size + 1) (d.nodes.size + 1)) :=
        f.filesBelow_fuel e (e.nodes.size + 1) (max (d'.nodes.size + 1) (d.nodes.size + 1))
          ((directoriesAbove place).map (DirectoryRules.load d f.config.respectGitignore)) place []
          (hsize e) (Nat.lt_of_lt_of_le (hsize e) he)
      rw [habove, hfuel d' (Nat.le_max_left _ _), hfuel d (Nat.le_max_right _ _)]
      exact congrArg sortedPaths hkept
    · rfl

end FileFilter

end CodeIndex
