import CodeIndex.Proofs.Run.Edits

/-!
Curated entries among edits of a store in memory. No edit touches a curated entry, an entry stands
under its own id, and an edit counts just the entries that it removes or moves.
-/

namespace CodeIndex

namespace MemoryStore

def lost (s t : MemoryStore) : Nat := (s.toList.filter fun entry => (t.get? entry.1).isNone).length

def derivedCount (s : MemoryStore) (path : String) : Nat :=
  (s.toList.filter fun entry => entry.2.isDerivedFor path).length

def Keyed (s : MemoryStore) : Prop := ∀ id e, s.get? id = some e → e.entity.id = id

/-- The stores that curated entries and edits lead to. -/
inductive Built : MemoryStore → Prop where
  | empty : Built {}
  | curated (s : MemoryStore) (entity : Entity) (vector : Embedding) (h : Built s) :
    Built (s.insertCurated entity vector)
  | edited (s : MemoryStore) (edit : StoreEdit) (h : Built s) : Built (edit.apply s)

end MemoryStore

namespace StoreEdit

/-- The call that makes an edit, with the number it gives back; a write gives back none. -/
def perform : StoreEdit → StoreM MemoryStore Nat
  | .clear path => MemoryStore.calls.deleteByPath path
  | .move source target => MemoryStore.calls.updatePath source target
  | .write entities => (fun _ => 0) <$> MemoryStore.calls.upsert entities
  | .drop ids => MemoryStore.calls.deleteIds ids

def count (s : MemoryStore) : StoreEdit → Nat
  | .clear path => s.lost ((clear path).apply s)
  | .move source _ => s.derivedCount source
  | .write _ => 0
  | .drop ids => s.lost ((drop ids).apply s)

/-- What some edits count, one after another. -/
def counts : List StoreEdit → MemoryStore → List Nat
  | [], _ => []
  | edit :: rest, s => edit.count s :: counts rest (edit.apply s)

end StoreEdit

namespace MemoryStore

theorem lost_eq (s t : MemoryStore) (gone : String → StoredEntity → Bool)
    (h : ∀ id e, s.get? id = some e → (t.get? id).isNone = gone id e) :
    s.lost t = (s.toList.filter fun entry => gone entry.1 entry.2).length := by
  unfold lost
  congr 1
  apply List.filter_congr
  rintro ⟨id, e⟩ hmem
  exact h id e (Std.ExtTreeMap.mem_toList_iff_getElem?_eq_some.mp hmem)

theorem lost_clear (s : MemoryStore) (path : String) :
    s.lost ((StoreEdit.clear path).apply s) = s.countForPath path := by
  apply s.lost_eq _ fun _ e => e.isDerivedFor path
  intro id e hget
  rw [StoreEdit.get?_apply, StoreEdit.onEntry, hget, Option.filter_some]
  cases e.isDerivedFor path <;> rfl

theorem lost_drop (s : MemoryStore) (ids : List String) :
    s.lost ((StoreEdit.drop ids).apply s) = (s.deleteIds ids).1 := by
  rw [s.deleteIds_count]
  apply s.lost_eq _ fun id e => ids.contains id && e.origin == .derived
  intro id e hget
  rw [StoreEdit.get?_apply, StoreEdit.onEntry, hget, Option.any_some]
  cases ids.contains id && e.origin == .derived <;> rfl

end MemoryStore

namespace StoreEdit

/-- A call succeeds, makes its edit and gives back what the edit counts. -/
theorem perform_run (edit : StoreEdit) (s : MemoryStore) :
    edit.perform.run s = (.ok (edit.count s), edit.apply s) := by
  cases edit with
  | clear path => rw [count, s.lost_clear]; rfl
  | move source target => rfl
  | write entities => rfl
  | drop ids => rw [count, s.lost_drop]; rfl

theorem perform_all (edits : List StoreEdit) (s : MemoryStore) :
    (edits.mapM perform).run s = (.ok (counts edits s), s.edited edits) := by
  induction edits generalizing s with
  | nil => rfl
  | cons edit rest ih =>
    rw [List.mapM_cons, run_bind_ok _ _ _ _ (perform_run edit s), run_bind_ok _ _ _ _ (ih _)]
    rfl

theorem onEntry_curated (edit : StoreEdit) (id : String) (e : StoredEntity)
    (h : e.origin = .curated) : edit.onEntry id (some e) = some e := by
  have hopen (path : String) : e.isDerivedFor path = false := by
    rw [StoredEntity.isDerivedFor, h]
    rfl
  cases edit with
  | clear path => rw [onEntry, Option.filter_some, hopen]; rfl
  | move source target => rw [onEntry, Option.map_some, hopen, if_neg Bool.false_ne_true]
  | write entities => rw [onEntry, Option.any_some, h]; rfl
  | drop ids => rw [onEntry, Option.any_some, h, Bool.and_comm]; rfl

end StoreEdit

namespace MemoryStore

theorem edited_curated (edits : List StoreEdit) (s : MemoryStore) (id : String) (e : StoredEntity)
    (hget : s.get? id = some e) (h : e.origin = .curated) :
    (s.edited edits).get? id = some e := by
  induction edits generalizing s with
  | nil => exact hget
  | cons edit rest ih =>
    apply ih
    rw [StoreEdit.get?_apply, hget, StoreEdit.onEntry_curated edit id e h]

theorem Keyed.insertCurated {s : MemoryStore} (h : s.Keyed) (entity : Entity)
    (vector : Embedding) : (s.insertCurated entity vector).Keyed := by
  intro id e hget
  -- the new entry stands under the id of its entity, whatever stood there
  unfold get? MemoryStore.insertCurated at hget
  rw [Std.ExtTreeMap.getElem?_insert] at hget
  split at hget
  · rename_i hid
    cases hget
    exact Std.LawfulEqCmp.compare_eq_iff_eq.mp hid
  · exact h id e hget

theorem Keyed.apply {s : MemoryStore} (h : s.Keyed) (edit : StoreEdit) :
    (edit.apply s).Keyed := by
  intro id e hget
  rw [StoreEdit.get?_apply] at hget
  cases edit with
  | clear path => exact h id e (Option.filter_eq_some_iff.mp hget).1
  | move source target =>
    obtain ⟨e', hfound, rfl⟩ := Option.map_eq_some_iff.mp hget
    have hkey := h id e' hfound
    split
    · exact hkey
    · exact hkey
  -- an entity is written under its own id, unless a curated entry has that
  | write entities =>
    unfold StoreEdit.onEntry at hget
    dsimp only at hget
    split at hget
    · exact h id e hget
    · rcases Option.or_eq_some_iff.mp hget with hwritten | ⟨_, hfound⟩
      · obtain ⟨x, _, hid, rfl⟩ := written_some entities id e hwritten
        exact hid
      · exact h id e hfound
  | drop ids =>
    unfold StoreEdit.onEntry at hget
    dsimp only at hget
    split at hget
    · cases hget
    · exact h id e hget

theorem Keyed.edited {s : MemoryStore} (h : s.Keyed) (edits : List StoreEdit) :
    (s.edited edits).Keyed := by
  induction edits generalizing s with
  | nil => exact h
  | cons edit rest ih => exact ih (h.apply edit)

theorem Built.keyed {s : MemoryStore} (h : s.Built) : s.Keyed := by
  induction h with
  | empty =>
    intro id e hget
    unfold get? at hget
    rw [Std.ExtTreeMap.getElem?_empty] at hget
    cases hget
  | curated s entity vector _ ih => exact ih.insertCurated entity vector
  | edited s edit _ ih => exact ih.apply edit

end MemoryStore

/-- An update of a store by a file. -/
inductive FileEdit where
  | delete (path : String)
  | rename (source target : String) (targetHadEntries : Bool)
  | update (path : String) (previous current : Std.ExtTreeSet String)
    (embedded : List EmbeddedEntity) (hasRecord : Bool)

namespace FileEdit

def perform : FileEdit → StoreM MemoryStore WriteStats
  | .delete path => MemoryStore.calls.deleteFile path
  | .rename source target had => MemoryStore.calls.renameFile source target had
  | .update path previous current embedded hasRecord =>
    MemoryStore.calls.updateFile path previous current embedded hasRecord

/-- The edits that an update makes. -/
def edits : FileEdit → List StoreEdit
  | .delete path => [.clear path]
  | .rename source target had => World.moveEdits source target had
  | .update path previous current embedded hasRecord =>
    World.updateEdits path previous current embedded hasRecord

def stats (s : MemoryStore) : FileEdit → WriteStats
  | .delete path => { removed := (StoreEdit.clear path).count s }
  | .rename source target had => {
    removed := if had then (StoreEdit.clear target).count s else 0
    renamed := (s.edited (if had then [.clear target] else [])).derivedCount source }
  | .update path previous current embedded hasRecord => {
    added := embedded.length
    removed := (if hasRecord then 0 else (StoreEdit.clear path).count s) +
      (StoreEdit.drop (VectorStore.staleIds previous current)).count
        (s.edited ((if hasRecord then [] else [.clear path]) ++ [.write embedded]))
    unchanged := (previous.toList.filter fun id => current.contains id).length }

theorem run_clear (path : String) (s : MemoryStore) :
    (MemoryStore.calls.deleteByPath path).run s =
      (.ok ((StoreEdit.clear path).count s), (StoreEdit.clear path).apply s) :=
  StoreEdit.perform_run (.clear path) s

theorem run_move (source target : String) (s : MemoryStore) :
    (MemoryStore.calls.updatePath source target).run s =
      (.ok (s.derivedCount source), (StoreEdit.move source target).apply s) :=
  StoreEdit.perform_run (.move source target) s

theorem run_write (entities : List EmbeddedEntity) (s : MemoryStore) :
    (MemoryStore.calls.upsert entities).run s =
      (.ok (), (StoreEdit.write entities).apply s) := rfl

theorem runs_run {α : Type} {x : StoreM MemoryStore α} {a : α} {s t : MemoryStore}
    (h : x.run s = (.ok a, t)) (Q : α → MemoryStore → Prop) (E : StoreError → MemoryStore → Prop)
    (hQ : Q a t) : Runs x s Q E := by
  unfold Runs
  rw [h]
  exact hQ

def through {τ : Type} (store : VectorStore τ) : FileEdit → StoreM τ WriteStats
  | .delete path => store.deleteFile path
  | .rename source target had => store.renameFile source target had
  | .update path previous current embedded hasRecord =>
    store.updateFile path previous current embedded hasRecord

theorem perform_eq (file : FileEdit) : file.perform = file.through MemoryStore.calls := by
  cases file <;> rfl

end FileEdit

/-- The calls of a store that has a store in memory as a part: a call that succeeds makes its edit
there and gives back what the edit counts. -/
structure VectorStore.Performs {τ : Type} (store : VectorStore τ) (part : τ → MemoryStore)
    (fails : Prop) : Prop where
  clears : ∀ path s, Runs (store.deleteByPath path) s
    (fun n t => n = (StoreEdit.clear path).count (part s) ∧
      part t = (StoreEdit.clear path).apply (part s)) fun _ _ => fails
  moves : ∀ source target s, Runs (store.updatePath source target) s
    (fun n t => n = (part s).derivedCount source ∧
      part t = (StoreEdit.move source target).apply (part s)) fun _ _ => fails
  writes : ∀ entities s, Runs (store.upsert entities) s
    (fun _ t => part t = (StoreEdit.write entities).apply (part s)) fun _ _ => fails
  drops : ∀ ids s, Runs (store.deleteIds ids) s
    (fun n t => n = (StoreEdit.drop ids).count (part s) ∧
      part t = (StoreEdit.drop ids).apply (part s)) fun _ _ => fails

section Through

variable {τ : Type} {store : VectorStore τ} {part : τ → MemoryStore} {fails : Prop}
  (h : store.Performs part fails)

include h

/-- Where nothing is listed nothing is asked for, and nothing would be removed. -/
theorem VectorStore.Performs.dropsSome (ids : List String) (s : τ) :
    Runs (if ids.isEmpty then pure 0 else store.deleteIds ids) s
      (fun n t => n = (StoreEdit.drop ids).count (part s) ∧
        part t = (part s).edited (if ids.isEmpty then [] else [.drop ids])) fun _ _ => fails := by
  cases ids with
  | nil =>
    refine ⟨?_, rfl⟩
    rw [StoreEdit.count, (part s).lost_drop]
    rfl
  | cons id rest => exact h.drops (id :: rest) s

/-- An update that succeeds has made its edits and counts what they come to. -/
theorem FileEdit.through_performs (file : FileEdit) (s : τ) :
    Runs (file.through store) s
      (fun stats t => stats = file.stats (part s) ∧ part t = (part s).edited file.edits)
      fun _ _ => fails := by
  cases file with
  | delete path =>
    unfold through
    rw [VectorStore.runs_deleteFile]
    apply runs_imp _ _ _ (h.clears path s) ?_ fun _ _ hfails => hfails
    rintro _ t ⟨rfl, ht⟩
    exact ⟨rfl, ht⟩
  | rename source target had =>
    have hfront : Runs (if had then store.deleteByPath target else pure 0) s
        (fun n t => n = (if had then (StoreEdit.clear target).count (part s) else 0) ∧
          part t = (part s).edited (if had then [.clear target] else [])) fun _ _ => fails := by
      cases had with
      | true => exact h.clears target s
      | false => exact ⟨rfl, rfl⟩
    unfold through
    rw [VectorStore.runs_renameFile]
    apply runs_imp _ _ _ hfront ?_ fun _ _ hfails => hfails
    rintro _ s₁ ⟨rfl, h₁⟩
    apply runs_imp _ _ _ (h.moves source target s₁) ?_ fun _ _ hfails => hfails
    rintro _ s₂ ⟨rfl, h₂⟩
    rw [h₂, h₁, edits, World.moveEdits, (part s).edited_append]
    exact ⟨rfl, rfl⟩
  | update path previous current embedded hasRecord =>
    have hfront : Runs (if hasRecord then pure 0 else store.deleteByPath path) s
        (fun n t => n = (if hasRecord then 0 else (StoreEdit.clear path).count (part s)) ∧
          part t = (part s).edited (if hasRecord then [] else [.clear path]))
        fun _ _ => fails := by
      cases hasRecord with
      | true => exact ⟨rfl, rfl⟩
      | false => exact h.clears path s
    unfold through
    rw [VectorStore.runs_updateFile]
    apply runs_imp _ _ _ hfront ?_ fun _ _ hfails => hfails
    rintro _ s₁ ⟨rfl, h₁⟩
    apply runs_imp _ _ _ (h.writes embedded s₁) ?_ fun _ _ hfails => hfails
    intro _ s₂ h₂
    apply runs_imp _ _ _ (h.dropsSome (VectorStore.staleIds previous current) s₂) ?_
      fun _ _ hfails => hfails
    rintro _ s₃ ⟨rfl, h₃⟩
    rw [h₃, h₂, h₁, edits, World.updateEdits, (part s).edited_append]
    refine ⟨?_, rfl⟩
    -- the counts are those in the stores on the way: before, cleared and written
    unfold stats
    dsimp only
    rw [(part s).edited_append]
    rfl

end Through

theorem MemoryStore.calls_performs : MemoryStore.calls.Performs id False where
  clears path s := FileEdit.runs_run (FileEdit.run_clear path s) _ _ ⟨rfl, rfl⟩
  moves source target s := FileEdit.runs_run (FileEdit.run_move source target s) _ _ ⟨rfl, rfl⟩
  writes entities s := FileEdit.runs_run (FileEdit.run_write entities s) _ _ rfl
  drops ids s := FileEdit.runs_run (StoreEdit.perform_run (.drop ids) s) _ _ ⟨rfl, rfl⟩

namespace FileEdit

/-- An update of a store in memory succeeds and makes its edits. -/
theorem perform_run (file : FileEdit) (s : MemoryStore) :
    file.perform.run s = (.ok (file.stats s), s.edited file.edits) := by
  rw [file.perform_eq]
  obtain ⟨_, _, hrun, rfl, rfl⟩ :=
    runs_returns _ (file.through_performs MemoryStore.calls_performs s)
  exact hrun

theorem perform_all (files : List FileEdit) (s : MemoryStore) : ∃ stats,
    (files.mapM perform).run s = (.ok stats, s.edited (files.flatMap edits)) := by
  induction files generalizing s with
  | nil => exact ⟨[], rfl⟩
  | cons file rest ih =>
    obtain ⟨stats, hrest⟩ := ih (s.edited file.edits)
    refine ⟨file.stats s :: stats, ?_⟩
    rw [List.mapM_cons, run_bind_ok _ _ _ _ (perform_run file s), run_bind_ok _ _ _ _ hrest]
    rw [List.flatMap_cons, s.edited_append]
    rfl

end FileEdit

namespace MemoryStore

/-- Each call does to a store what it is for and nothing else, and counts what it does. -/
structure Exact (s : MemoryStore) : Prop where
  clears : ∀ path, ∃ t, (calls.deleteByPath path).run s = (.ok (s.lost t), t) ∧
    ∀ id, t.get? id = (s.get? id).filter (!·.isDerivedFor path)
  moves : ∀ source target, ∃ t,
    (calls.updatePath source target).run s = (.ok (s.derivedCount source), t) ∧
      ∀ id, t.get? id = (s.get? id).map fun e =>
        if e.isDerivedFor source then { e with entity := { e.entity with filePath := target } }
        else e
  writes : ∀ entities, ∃ t, (calls.upsert entities).run s = (.ok (), t) ∧
    ∀ id, t.get? id = if s.isCurated id then s.get? id
      else (StoreEdit.written entities id).or (s.get? id)
  drops : ∀ ids, ∃ t, (calls.deleteIds ids).run s = (.ok (s.lost t), t) ∧
    ∀ id, t.get? id = if id ∈ ids ∧ s.isDerived id then none else s.get? id

theorem exact (s : MemoryStore) : s.Exact where
  clears path := ⟨_, FileEdit.run_clear path s, s.get?_deleteByPath path⟩
  moves source target := ⟨_, FileEdit.run_move source target s, s.get?_updatePath source target⟩
  writes entities := ⟨_, FileEdit.run_write entities s, s.get?_upsert entities⟩
  drops ids := by
    refine ⟨_, StoreEdit.perform_run (.drop ids) s, fun id => ?_⟩
    rw [StoreEdit.apply, s.get?_deleteIds]
    exact if_congr (by rw [Bool.and_eq_true, List.contains_iff_mem, isDerived]) rfl rfl

/-- However a store came about, and whatever edits follow: its curated entries stay as they are,
every entry stands under its own id, and every call does what it is for and counts just that. -/
theorem curated_untouched (s : MemoryStore) (h : s.Built) (edits : List StoreEdit) :
    (edits.mapM StoreEdit.perform).run s = (.ok (StoreEdit.counts edits s), s.edited edits) ∧
    (∀ files : List FileEdit, ∃ stats, (files.mapM FileEdit.perform).run s =
      (.ok stats, s.edited (files.flatMap FileEdit.edits))) ∧
    (∀ id e, s.get? id = some e → e.origin = .curated → (s.edited edits).get? id = some e) ∧
    (∀ id e, (s.edited edits).get? id = some e → e.entity.id = id) ∧
    (s.edited edits).Exact :=
  ⟨StoreEdit.perform_all edits s, fun files => FileEdit.perform_all files s,
    edited_curated edits s, h.keyed.edited edits, exact _⟩

def plainEntity (id path : String) : Entity :=
  { (default : Entity) with id := id, filePath := path }

/-- A curated entry stays when its id is written to, its path is cleared and moved, and its id is
listed twice; only the derived entry beside it is counted. -/
theorem curated_beset :
    ((insertCurated {} (plainEntity "k" "p") [1]).edited
        [.write [⟨plainEntity "k" "q", [2]⟩, ⟨plainEntity "d" "p", [3]⟩], .move "p" "q",
          .drop ["k", "k", "x"], .clear "q"]).get? "k" =
      some ⟨plainEntity "k" "p", [1], .curated⟩ ∧
    StoreEdit.counts [.write [⟨plainEntity "k" "q", [2]⟩, ⟨plainEntity "d" "p", [3]⟩],
        .move "p" "q", .drop ["k", "k", "x"], .clear "q"]
      (insertCurated {} (plainEntity "k" "p") [1]) = [0, 1, 0, 1] :=
  ⟨(curated_untouched _ (.curated {} (plainEntity "k" "p") [1] .empty) _).2.2.1 "k" _
    (by decide +kernel) rfl, by decide +kernel⟩

end MemoryStore

end CodeIndex
