import CodeIndex.Disk.Change

namespace CodeIndex.Disk

def IsLeaf (d : Disk) (x : Location) : Prop :=
  d.lookup x = none ∨ ∃ content modified, d.lookup x = some (.file content modified)

def Beneath (places : List Location) (x : Location) : Prop := ∃ y ∈ places, y <+: x

structure SameBut (places : List Location) (d d' : Disk) : Prop where
  outside : ∀ x, ¬ Beneath places x → d'.lookup x = d.lookup x
  before : ∀ y ∈ places, d.IsLeaf y
  after : ∀ y ∈ places, d'.IsLeaf y

theorem SameBut.refl {places : List Location} {d : Disk} (h : ∀ y ∈ places, d.IsLeaf y) :
    SameBut places d d := ⟨fun _ _ => rfl, h, h⟩

theorem SameBut.symm {places : List Location} {d d' : Disk} (h : SameBut places d d') :
    SameBut places d' d := ⟨fun x hx => (h.outside x hx).symm, h.after, h.before⟩

theorem SameBut.trans {places : List Location} {d d' d'' : Disk} (h : SameBut places d d')
    (h' : SameBut places d' d'') : SameBut places d d'' :=
  ⟨fun x hx => (h'.outside x hx).trans (h.outside x hx), h.before, h'.after⟩

theorem isLeaf_not_directory {d : Disk} {x : Location} (h : d.IsLeaf x) :
    d.lookup x ≠ some .directory := by
  intro hd
  rcases h with h | ⟨content, modified, h⟩ <;> rw [h] at hd <;> cases hd

/-- One step down from outside the places leads outside them, or to one of them. -/
theorem beneath_concat {places : List Location} {x : Location} (name : String)
    (hx : ¬ Beneath places x) (h : Beneath places (x ++ [name])) : x ++ [name] ∈ places := by
  obtain ⟨y, hy, hprefix⟩ := h
  rcases List.prefix_concat_iff.mp hprefix with heq | hlt
  · exact heq ▸ hy
  · exact absurd ⟨y, hy, hlt⟩ hx

theorem beneath_dropLast {places : List Location} {x : Location} (hx : ¬ Beneath places x) :
    ¬ Beneath places x.dropLast := by
  rintro ⟨y, hy, hprefix⟩
  exact hx ⟨y, hy, hprefix.trans (List.dropLast_prefix x)⟩

theorem not_beneath_nil {places : List Location} {d : Disk} (h : ∀ y ∈ places, d.IsLeaf y) :
    ¬ Beneath places [] := by
  rintro ⟨y, hy, hprefix⟩
  have hnil : y = [] := List.prefix_nil.mp hprefix
  exact isLeaf_not_directory (h y hy) (by rw [hnil]; rfl)

/-- A successful walk goes the same way on the other disk, and ends at one of the places or
outside them. -/
theorem walkSteps_frame {places : List Location} {d d' : Disk} (h : SameBut places d d')
    (follow follow' : Location → String → List String → Except DiskError Location)
    (hfollow : ∀ x target rest y, ¬ Beneath places x → follow x target rest = .ok y →
      follow' x target rest = .ok y ∧ (Beneath places y → y ∈ places))
    (x : Location) (names : List String) (y : Location) (hx : ¬ Beneath places x)
    (hwalk : d.walkSteps follow x names = .ok y) :
    d'.walkSteps follow' x names = .ok y ∧ (Beneath places y → y ∈ places) := by
  induction names generalizing x with
  | nil =>
    rw [walkSteps] at hwalk ⊢
    cases hwalk
    exact ⟨rfl, fun hb => absurd hb hx⟩
  | cons name rest ih =>
    rw [walkSteps] at hwalk ⊢
    split at hwalk
    · rename_i hdot
      rw [if_pos hdot]
      exact ih x hx hwalk
    · rename_i hdot
      rw [if_neg hdot]
      split at hwalk
      · rename_i hup
        rw [if_pos hup]
        exact ih _ (beneath_dropLast hx) hwalk
      · rename_i hup
        rw [if_neg hup]
        split at hwalk
        · cases hwalk
        · rename_i hlong
          rw [if_neg hlong]
          dsimp only at hwalk ⊢
          by_cases hb : Beneath places (x ++ [name])
          · -- at one of the places the walk has to be at its end, on both disks
            have hmem := beneath_concat name hx hb
            rcases h.before _ hmem with hl | ⟨content, modified, hl⟩
            · rw [hl] at hwalk
              dsimp only at hwalk
              split at hwalk
              · rename_i hend
                cases hwalk
                refine ⟨?_, fun _ => hmem⟩
                rcases h.after _ hmem with hl' | ⟨content', modified', hl'⟩ <;>
                  rw [hl'] <;> simp only [hend, if_true]
              · cases hwalk
            · rw [hl] at hwalk
              dsimp only at hwalk
              split at hwalk
              · rename_i hend
                cases hwalk
                refine ⟨?_, fun _ => hmem⟩
                rcases h.after _ hmem with hl' | ⟨content', modified', hl'⟩ <;>
                  rw [hl'] <;> simp only [hend, if_true]
              · cases hwalk
          · rw [h.outside _ hb]
            split at hwalk
            · split at hwalk
              · rename_i hend
                cases hwalk
                simp only [hend, if_true, true_and]
                exact fun hb' => absurd hb' hb
              · cases hwalk
            · exact ih _ hb hwalk
            · split at hwalk
              · rename_i hend
                cases hwalk
                simp only [hend, if_true, true_and]
                exact fun hb' => absurd hb' hb
              · cases hwalk
            · exact hfollow _ _ _ _ hx hwalk

theorem walk_frame {places : List Location} {d d' : Disk} (h : SameBut places d d') (links : Nat)
    (x : Location) (names : List String) (y : Location) (hx : ¬ Beneath places x)
    (hwalk : d.walk links x names = .ok y) :
    d'.walk links x names = .ok y ∧ (Beneath places y → y ∈ places) := by
  induction links generalizing x names y with
  | zero =>
    rw [walk] at hwalk ⊢
    exact walkSteps_frame h _ _ (fun _ _ _ _ _ hf => by cases hf) x names y hx hwalk
  | succ links ih =>
    rw [walk] at hwalk ⊢
    refine walkSteps_frame h _ _ ?_ x names y hx hwalk
    intro x' target rest y' hx' hf
    refine ih _ _ _ ?_ hf
    split
    · exact not_beneath_nil h.before
    · exact hx'

theorem locate_frame {places : List Location} {d d' : Disk} (h : SameBut places d d')
    (path : String) (y : Location) (hloc : d.locate path = .ok y) :
    d'.locate path = .ok y ∧ (Beneath places y → y ∈ places) := by
  unfold locate at hloc ⊢
  split at hloc
  · cases hloc
  · rename_i hnul
    rw [if_neg hnul]
    exact walk_frame h linkLimit [] _ y (not_beneath_nil h.before) hloc

theorem locateEntry_frame {places : List Location} {d d' : Disk} (h : SameBut places d d')
    (path : String) (y : Location) (hloc : d.locateEntry path = .ok y) :
    d'.locateEntry path = .ok y := by
  unfold locateEntry at hloc ⊢
  split at hloc
  · cases hloc
  · rename_i hnul
    rw [if_neg hnul]
    split at hloc
    · exact hloc
    · split at hloc
      · rename_i hdots
        rw [if_pos hdots]
        exact (locate_frame h path y hloc).1
      · rename_i name before _ hdots
        rw [if_neg hdots]
        split at hloc
        · cases hloc
        · rename_i hlong
          rw [if_neg hlong]
          cases hwalk : d.walk linkLimit [] before.reverse with
          | error e =>
            rw [hwalk] at hloc
            cases hloc
          | ok parent =>
            obtain ⟨hwalk', hbeneath⟩ :=
              walk_frame h linkLimit [] _ parent (not_beneath_nil h.before) hwalk
            rw [hwalk] at hloc
            rw [hwalk']
            dsimp only [bind, Except.bind] at hloc ⊢
            -- the parent is a directory, so it is none of the places
            have hout : ¬ Beneath places parent := by
              intro hb
              have hleaf := h.before _ (hbeneath hb)
              split at hloc
              · rename_i hdir
                exact isLeaf_not_directory hleaf hdir
              · cases hloc
              · cases hloc
            rw [h.outside _ hout]
            exact hloc

/-- What stands where a path leads is the same on both disks, if it is not one of the places. -/
theorem stat_frame {places : List Location} {d d' : Disk} (h : SameBut places d d')
    (path : String) (y : Location) (hloc : d.locate path = .ok y) (hy : y ∉ places) :
    d'.stat path = d.stat path := by
  obtain ⟨hloc', hbeneath⟩ := locate_frame h path y hloc
  have hout : ¬ Beneath places y := fun hb => hy (hbeneath hb)
  unfold stat
  rw [hloc, hloc']
  dsimp only [bind, Except.bind]
  rw [h.outside y hout]

theorem stat_directory_frame {places : List Location} {d d' : Disk} (h : SameBut places d d')
    (path : String) (hstat : d.stat path = .ok .directory) : d'.stat path = .ok .directory := by
  cases hloc : d.locate path with
  | error e =>
    rw [stat, hloc] at hstat
    cases hstat
  | ok y =>
    have hy : y ∉ places := by
      intro hmem
      have hnode := hstat
      rw [stat, hloc] at hnode
      dsimp only [bind, Except.bind] at hnode
      rcases h.before y hmem with hl | ⟨content, modified, hl⟩ <;> rw [hl] at hnode <;>
        cases hnode
    rw [stat_frame h path y hloc hy]
    exact hstat

theorem lookup_put (d : Disk) (place : Location) (node : DiskNode) (x : Location)
    (hplace : place ≠ []) :
    (d.put place node).lookup x = if place = x then some node else d.lookup x := by
  cases x with
  | nil =>
    rw [if_neg hplace]
    rfl
  | cons name rest =>
    show (d.nodes.insert place node)[name :: rest]? = _
    rw [Std.ExtTreeMap.getElem?_insert]
    simp only [Std.LawfulEqCmp.compare_eq_iff_eq]
    rfl

/-- Putting a file at one of the places changes nothing outside them. -/
theorem put_sameBut {places : List Location} {d : Disk} (h : ∀ y ∈ places, d.IsLeaf y)
    (place : Location) (hplace : place ∈ places) (content : ByteArray) (modified : Nat) :
    SameBut places d (d.put place (.file content modified)) := by
  have hne : place ≠ [] := by
    intro hnil
    exact isLeaf_not_directory (h place hplace) (by rw [hnil]; rfl)
  refine ⟨?_, h, ?_⟩
  · intro x hx
    rw [lookup_put d place _ x hne, if_neg]
    intro heq
    exact hx ⟨place, hplace, heq ▸ List.prefix_refl place⟩
  · intro y hy
    unfold IsLeaf
    rw [lookup_put d place _ y hne]
    split
    · exact .inr ⟨content, modified, rfl⟩
    · exact h y hy

/-- Entries put in one after the other: the last one for a key counts. -/
theorem getElem?_foldl_insert (entries : List (Location × DiskNode))
    (nodes : Std.ExtTreeMap Location DiskNode) (x : Location) (v : Option DiskNode)
    (hall : ∀ e ∈ entries, e.1 = x → some e.2 = v)
    (hnone : (∀ e ∈ entries, e.1 ≠ x) → nodes[x]? = v) :
    (entries.foldl (fun nodes e => nodes.insert e.1 e.2) nodes)[x]? = v := by
  induction entries generalizing nodes with
  | nil => exact hnone fun e he => absurd he List.not_mem_nil
  | cons e entries ih =>
    rw [List.foldl_cons]
    apply ih
    · intro e' he'
      exact hall e' (List.mem_cons_of_mem _ he')
    · intro hnot
      rw [Std.ExtTreeMap.getElem?_insert]
      simp only [Std.LawfulEqCmp.compare_eq_iff_eq]
      split
      · rename_i heq
        exact hall e List.mem_cons_self heq
      · rename_i hneq
        apply hnone
        intro e' he'
        rcases List.mem_cons.mp he' with rfl | hmem
        · exact hneq
        · exact hnot e' hmem

theorem getElem?_drop (d : Disk) (place x : Location) :
    (d.drop place).nodes[x]? = if place <+: x then none else d.nodes[x]? := by
  unfold drop
  rw [Std.ExtTreeMap.getElem?_filter']
  cases hx : d.nodes[x]? with
  | none => split <;> rfl
  | some node =>
    by_cases hprefix : place <+: x
    · rw [if_pos hprefix]
      simp [Option.filter, List.isPrefixOf_iff_prefix.mpr hprefix]
    · rw [if_neg hprefix]
      have hfalse : place.isPrefixOf x = false := by
        rw [Bool.eq_false_iff]
        exact fun h => hprefix (List.isPrefixOf_iff_prefix.mp h)
      simp [Option.filter, hfalse]

/-- What is taken to another place stood below the one it is taken from. -/
theorem mem_taken (d : Disk) (source target : Location) (e : Location × DiskNode)
    (he : e ∈ d.nodes.toList.filterMap fun (found, node) =>
      if source.isPrefixOf found then some (target ++ found.drop source.length, node)
      else none) :
    ∃ rest, d.nodes[source ++ rest]? = some e.2 ∧ e.1 = target ++ rest := by
  obtain ⟨⟨found, node⟩, hfound, hsome⟩ := List.mem_filterMap.mp he
  dsimp only at hsome
  split at hsome
  · rename_i hpre
    obtain ⟨rest, hrest⟩ := List.isPrefixOf_iff_prefix.mp hpre
    cases hsome
    refine ⟨rest, ?_, ?_⟩
    · rw [hrest]
      exact Std.ExtTreeMap.mem_toList_iff_getElem?_eq_some.mp hfound
    · rw [← hrest, List.drop_left]
  · cases hsome

/-- Where things stand after a file was taken from one place to another beside it. -/
theorem lookup_transplant (d : Disk) (source target x : Location)
    (hlength : source.length = target.length) (hne : source ≠ target) (hnil : target ≠ []) :
    (¬ source <+: x → ¬ target <+: x → (d.transplant source target).lookup x = d.lookup x) ∧
    (d.transplant source target).lookup target = d.lookup source ∧
    (d.transplant source target).lookup source = none := by
  have hsnil : source ≠ [] := by
    intro h
    rw [h] at hlength
    exact hnil (List.length_eq_zero_iff.mp hlength.symm)
  have hapart : ¬ target <+: source := by
    intro h
    exact hne (h.eq_of_length hlength.symm).symm
  have hlookup (d : Disk) (y : Location) (hy : y ≠ []) : d.lookup y = d.nodes[y]? := by
    cases y with
    | nil => exact absurd rfl hy
    | cons name rest => rfl
  have hmem := mem_taken d source target
  refine ⟨?_, ?_, ?_⟩
  · -- outside of both places
    intro hs ht
    cases x with
    | nil => rfl
    | cons name more =>
      rw [hlookup _ _ (List.cons_ne_nil _ _), hlookup _ _ (List.cons_ne_nil _ _)]
      apply getElem?_foldl_insert
      · intro e he heq
        obtain ⟨rest, _, hrest⟩ := hmem e he
        exact absurd (heq ▸ hrest ▸ List.prefix_append target rest) ht
      · intro _
        rw [getElem?_drop, if_neg ht, getElem?_drop, if_neg hs]
  · -- at the target, where the entry of the source itself is put
    rw [hlookup _ _ hnil, hlookup _ _ hsnil]
    apply getElem?_foldl_insert
    · intro e he heq
      obtain ⟨rest, hget, hrest⟩ := hmem e he
      have hrnil : rest = [] := by
        rw [heq] at hrest
        simpa using hrest.symm
      rw [hrnil, List.append_nil] at hget
      exact hget.symm
    · intro hnot
      rw [getElem?_drop, if_pos (List.prefix_refl target)]
      cases hsource : d.nodes[source]? with
      | none => rfl
      | some node =>
        exfalso
        refine hnot (target, node) ?_ rfl
        apply List.mem_filterMap.mpr
        refine ⟨(source, node), Std.ExtTreeMap.mem_toList_iff_getElem?_eq_some.mpr hsource, ?_⟩
        simp
  · -- at the source, which is not below the target as both are as deep
    rw [hlookup _ _ hsnil]
    apply getElem?_foldl_insert
    · intro e he heq
      obtain ⟨rest, _, hrest⟩ := hmem e he
      exact absurd (heq ▸ hrest ▸ List.prefix_append target rest) hapart
    · intro _
      rw [getElem?_drop, if_neg hapart, getElem?_drop, if_pos (List.prefix_refl source)]

/-- Moving a file from one of the places to another beside it changes nothing outside them. -/
theorem transplant_sameBut {places : List Location} {d : Disk} (h : ∀ y ∈ places, d.IsLeaf y)
    (source target : Location) (hsource : source ∈ places) (htarget : target ∈ places)
    (hne : source ≠ target) (hlength : ∀ y ∈ places, y.length = source.length) :
    SameBut places d (d.transplant source target) := by
  have hnil : target ≠ [] := by
    intro hnil
    exact isLeaf_not_directory (h target htarget) (by rw [hnil]; rfl)
  have hfacts := fun x => lookup_transplant d source target x (hlength target htarget).symm hne hnil
  refine ⟨?_, h, ?_⟩
  · intro x hx
    apply (hfacts x).1
    · exact fun hpre => hx ⟨source, hsource, hpre⟩
    · exact fun hpre => hx ⟨target, htarget, hpre⟩
  · intro y hy
    unfold IsLeaf
    by_cases hys : y = source
    · rw [hys, (hfacts y).2.2]
      exact .inl rfl
    · by_cases hyt : y = target
      · rw [hyt, (hfacts y).2.1]
        exact h source hsource
      · rw [(hfacts y).1]
        · exact h y hy
        · exact fun hpre => hys (hpre.eq_of_length (hlength y hy).symm).symm
        · exact fun hpre =>
            hyt (hpre.eq_of_length ((hlength target htarget).trans (hlength y hy).symm)).symm

end CodeIndex.Disk
