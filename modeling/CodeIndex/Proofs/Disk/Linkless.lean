import CodeIndex.Proofs.Disk.Frame
import CodeIndex.Scan.Filter

namespace CodeIndex

namespace Disk

def Linkless (d : Disk) : Prop := ∀ x target, d.lookup x ≠ some (.link target)

theorem linkless_of_all (d : Disk)
    (h : d.nodes.toList.all (fun entry => match entry.2 with
      | .link _ => false
      | _ => true) = true) : d.Linkless := by
  intro x target hx
  cases x with
  | nil => cases hx
  | cons name rest =>
    have hmem := Std.ExtTreeMap.mem_toList_iff_getElem?_eq_some.mpr hx
    have hall := List.all_eq_true.mp h _ hmem
    cases hall

/-- What holds of all files that stand on a disk holds of every file that can be read. -/
theorem readFile_of_all (d : Disk) (P : ByteArray → Bool)
    (h : d.nodes.toList.all (fun entry => match entry.2 with
      | .file content _ => P content
      | _ => true) = true) (path : String) (content : ByteArray) (modified : Nat)
    (hread : d.readFile path = .ok (content, modified)) : P content = true := by
  obtain ⟨x, hx⟩ : ∃ x, d.lookup x = some (.file content modified) := by
    unfold readFile stat at hread
    cases hlocate : d.locate path with
    | error e =>
      rw [hlocate] at hread
      cases hread
    | ok x =>
      refine ⟨x, ?_⟩
      rw [hlocate] at hread
      cases hnode : d.lookup x with
      | none => simp [bind, Except.bind, hnode] at hread
      | some node =>
        cases node <;> simp [bind, Except.bind, hnode] at hread
        rw [hread.1, hread.2]
  cases x with
  | nil => cases hx
  | cons name rest =>
    have hmem := Std.ExtTreeMap.mem_toList_iff_getElem?_eq_some.mpr hx
    exact List.all_eq_true.mp h _ hmem

variable {places : List Location} {d d' : Disk} (avoid : String)

theorem not_beneath_avoiding (hplaces : ∀ y ∈ places, avoid ∈ y) (x : Location) (hx : avoid ∉ x) :
    ¬ Beneath places x := by
  rintro ⟨y, hy, hfront⟩
  exact hx (hfront.subset (hplaces y hy))

/-- Names other than one that all places have lead the same way on both disks, away from the
places. -/
theorem walkSteps_avoiding (h : SameBut places d d') (hlinks : d.Linkless)
    (hplaces : ∀ y ∈ places, avoid ∈ y)
    (follow follow' : Location → String → List String → Except DiskError Location)
    (x : Location) (names : List String) (hx : avoid ∉ x) (hnames : avoid ∉ names) :
    d'.walkSteps follow' x names = d.walkSteps follow x names ∧
      ∀ y, d.walkSteps follow x names = .ok y → avoid ∉ y := by
  -- the induction keeps the name out of the place that was reached
  induction names generalizing x with
  | nil =>
    rw [walkSteps, walkSteps]
    refine ⟨rfl, fun y hy => ?_⟩
    cases hy
    exact hx
  | cons name rest ih =>
    rw [List.mem_cons, not_or] at hnames
    rw [walkSteps, walkSteps]
    split
    · exact ih x hx hnames.2
    · split
      · exact ih _ (fun hmem => hx ((List.dropLast_prefix x).subset hmem)) hnames.2
      · split
        · exact ⟨rfl, fun y hy => by cases hy⟩
        · have hnext : avoid ∉ x ++ [name] := by
            rw [List.mem_append, List.mem_singleton, not_or]
            exact ⟨hx, hnames.1⟩
          dsimp only
          rw [h.outside _ (not_beneath_avoiding avoid hplaces _ hnext)]
          -- a walk that ends here has reached the place
          have hend (e : DiskError) : ∀ y, (if rest.isEmpty then Except.ok (x ++ [name])
              else .error e) = .ok y → avoid ∉ y := by
            intro y hy
            split at hy
            · cases hy
              exact hnext
            · cases hy
          split
          · exact ⟨rfl, hend _⟩
          · exact ih _ hnext hnames.2
          · exact ⟨rfl, hend _⟩
          · rename_i target hlink
            exact absurd hlink (hlinks _ target)

/-- A path without the name leads to the same place, away from the places. -/
theorem locate_avoiding (h : SameBut places d d') (hlinks : d.Linkless)
    (hplaces : ∀ y ∈ places, avoid ∈ y) (path : String) (hpath : avoid ∉ steps path) :
    d'.locate path = d.locate path ∧ ∀ y, d.locate path = .ok y → avoid ∉ y := by
  have hwalk : d'.walk linkLimit [] (steps path) = d.walk linkLimit [] (steps path) ∧
      ∀ y, d.walk linkLimit [] (steps path) = .ok y → avoid ∉ y :=
    walkSteps_avoiding avoid h hlinks hplaces _ _ [] (steps path) List.not_mem_nil hpath
  unfold locate
  split
  · exact ⟨rfl, fun y hy => by cases hy⟩
  · exact hwalk

theorem stat_avoiding (h : SameBut places d d') (hlinks : d.Linkless)
    (hplaces : ∀ y ∈ places, avoid ∈ y) (path : String) (hpath : avoid ∉ steps path) :
    d'.stat path = d.stat path := by
  obtain ⟨hlocate, havoid⟩ := locate_avoiding avoid h hlinks hplaces path hpath
  unfold stat
  rw [hlocate]
  cases hplace : d.locate path with
  | error e => rfl
  | ok y =>
    dsimp only [bind, Except.bind]
    rw [h.outside y (not_beneath_avoiding avoid hplaces y (havoid y hplace))]

end Disk

theorem Text.splitOn_append {α : Type} [DecidableEq α] (sep : α) (xs ys : List α) :
    Text.splitOn sep (xs ++ sep :: ys) = Text.splitOn sep xs ++ Text.splitOn sep ys := by
  induction xs with
  | nil => simp [splitOn]
  | cons c cs ih =>
    rw [List.cons_append, splitOn, splitOn, ih]
    split
    · rfl
    · cases hpieces : splitOn sep cs with
      | nil =>
        exfalso
        have hne : splitOn sep cs ≠ [] := by
          cases cs with
          | nil => simp [splitOn]
          | cons c cs =>
            rw [splitOn]
            split
            · simp
            · split <;> simp
        exact hne hpieces
      | cons piece more => rfl

namespace Path

def pieces (path : String) : List String := (Text.splitOn '/' path.toList).map String.ofList

/-- A path below a root has the names of the root and its own. -/
theorem pieces_join (root path name : String) (h : name ∈ pieces (join root path)) :
    name ∈ pieces root ∨ name ∈ pieces path := by
  unfold join at h
  split at h
  · exact .inr h
  · split at h
    · exact .inr h
    · split at h
      · rename_i hslash
        obtain ⟨front, hfront⟩ : ∃ front, root.toList = front ++ ['/'] := by
          rw [beq_iff_eq, List.getLast?_eq_some_iff] at hslash
          exact hslash
        unfold pieces at *
        rw [String.toList_append, hfront, List.append_assoc, List.singleton_append,
          Text.splitOn_append, List.map_append, List.mem_append] at h
        rw [hfront, Text.splitOn_append, List.map_append, List.mem_append]
        exact h.imp .inl id
      · unfold pieces at *
        have hlist : (root ++ "/" ++ path).toList = root.toList ++ '/' :: path.toList := by
          rw [String.toList_append, String.toList_append, List.append_assoc]
          rfl
        rw [hlist, Text.splitOn_append, List.map_append, List.mem_append] at h
        exact h

/-- A name of a path that is not `.` or `..` is one of its normal names. -/
theorem normalNames_pieces (path name : String) (h : name ∈ pieces path) (hempty : name ≠ "")
    (hdot : name ≠ ".") (hup : name ≠ "..") : name ∈ normalNames (components path) := by
  obtain ⟨piece, hpiece, rfl⟩ := List.mem_map.mp h
  -- the piece is none of those that mean a place
  have hsome : componentOf piece = some (.normal (String.ofList piece)) := by
    unfold componentOf
    rw [if_neg, if_neg]
    · rintro rfl
      exact hup rfl
    · rintro (rfl | rfl)
      · exact hempty rfl
      · exact hdot rfl
  have hin (ps : List (List Char)) (hmem : piece ∈ ps) (front : List Component) :
      String.ofList piece ∈ normalNames (front ++ ps.filterMap componentOf) := by
    unfold normalNames
    rw [List.filterMap_append, List.mem_append]
    exact .inr (List.mem_filterMap.mpr ⟨_, List.mem_filterMap.mpr ⟨piece, hmem, hsome⟩, rfl⟩)
  unfold components
  dsimp only
  split
  · exact hin _ hpiece [.root]
  · rename_i first rest heq _
    rw [heq] at hpiece
    split
    · rename_i hfirst
      refine hin rest ?_ [.current]
      rcases List.mem_cons.mp hpiece with rfl | hrest
      · exact absurd (by rw [hfirst]) hdot
      · exact hrest
    · exact heq ▸ hin _ hpiece []
  · rename_i heq _
    rw [heq] at hpiece
    exact absurd hpiece List.not_mem_nil

end Path

/-- The names on the way along a path are pieces of it, or the dot of a directory. -/
theorem Disk.mem_steps (path name : String) (h : name ∈ Disk.steps path) :
    name = "." ∨ (name ∈ Path.pieces path ∧ name ≠ "") := by
  have hpieces (h : name ∈ ((Text.splitOn '/' path.toList).filter (!·.isEmpty)).map
      String.ofList) : name ∈ Path.pieces path ∧ name ≠ "" := by
    obtain ⟨piece, hpiece, rfl⟩ := List.mem_map.mp h
    obtain ⟨hmem, hne⟩ := List.mem_filter.mp hpiece
    refine ⟨List.mem_map_of_mem hmem, fun heq => ?_⟩
    have hnil : piece = [] := by
      have h := congrArg String.toList heq
      rw [String.toList_ofList] at h
      exact h
    rw [hnil] at hne
    cases hne
  unfold steps at h
  dsimp only at h
  split at h
  · rcases List.mem_append.mp h with h | h
    · exact .inr (hpieces h)
    · exact .inl (List.mem_singleton.mp h)
  · exact .inr (hpieces h)

/-- The way to a file that may be indexed does not go by the name of the state directory. -/
theorem FileFilter.eligible_avoids (f : FileFilter) (p : String) (h : f.isEligible p = true)
    (hroot : f.config.stateDir ∉ Path.pieces f.root) (hdot : f.config.stateDir ≠ ".")
    (hup : f.config.stateDir ≠ "..") : f.config.stateDir ∉ Disk.steps (Path.join f.root p) := by
  intro hmem
  rcases Disk.mem_steps _ _ hmem with heq | ⟨hpiece, hne⟩
  · exact hdot heq
  · rcases Path.pieces_join _ _ _ hpiece with hr | hp
    · exact hroot hr
    · have hname := Path.normalNames_pieces p _ hp hne hdot hup
      unfold isEligible at h
      simp only [Bool.and_eq_true, Bool.not_eq_true'] at h
      have hforeign := h.1.2
      unfold isForeign at hforeign
      rw [List.any_eq_false] at hforeign
      exact hforeign _ hname (by simp)

end CodeIndex
