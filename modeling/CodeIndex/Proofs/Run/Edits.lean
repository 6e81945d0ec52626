import CodeIndex.Proofs.Run.Rules
import CodeIndex.Proofs.Store.Memory

namespace CodeIndex

namespace World

/-- The world after an edit of its store. -/
def edited (w : World MemoryStore) (edit : StoreEdit) : World MemoryStore :=
  ({ w.counted edit.call with store := edit.apply w.store } : World MemoryStore).mark
    (.storeCall edit.call)

def performed (w : World MemoryStore) (edits : List StoreEdit) : World MemoryStore :=
  edits.foldl edited w

def Free (env : Surroundings) (w : World MemoryStore) : List StoreEdit → Prop
  | [] => True
  | edit :: rest =>
    env.atStore edit.call (w.storeCalls.count edit.call + 1) = .proceed ∧
      Free env (w.edited edit) rest

def Stopped (env : Surroundings) (w : World MemoryStore) (edits : List StoreEdit)
    (cause : StoreError) (w' : World MemoryStore) : Prop :=
  ∃ done edit rest, edits = done ++ edit :: rest ∧ Free env w done ∧
    env.atStore edit.call ((w.performed done).storeCalls.count edit.call + 1) = .fail cause ∧
    w' = (w.performed done).counted edit.call

def Makes {α : Type} (env : Surroundings) (x : StoreM (World MemoryStore) α)
    (w : World MemoryStore) (edits : List StoreEdit) : Prop :=
  Runs x w (fun _ w' => w' = w.performed edits ∧ Free env w edits) (Stopped env w edits)

variable {env : Surroundings} {α β : Type} {w : World MemoryStore}

theorem performed_append (w : World MemoryStore) (xs ys : List StoreEdit) :
    w.performed (xs ++ ys) = (w.performed xs).performed ys := List.foldl_append

theorem performed_store (w : World MemoryStore) (edits : List StoreEdit) :
    (w.performed edits).store = edits.foldl (fun s edit => edit.apply s) w.store := by
  induction edits generalizing w with
  | nil => rfl
  | cons edit rest ih => exact ih (w.edited edit)

theorem free_append (xs ys : List StoreEdit) (w : World MemoryStore) :
    Free env w (xs ++ ys) ↔ Free env w xs ∧ Free env (w.performed xs) ys := by
  induction xs generalizing w with
  | nil => exact (iff_of_eq (true_and _)).symm
  | cons edit rest ih =>
    show (_ ∧ Free env (w.edited edit) (rest ++ ys)) ↔ _
    rw [ih, ← and_assoc]
    rfl

theorem makes_pure (a : α) : Makes env (pure a) w [] := by
  unfold Makes
  rw [runs_pure]
  exact ⟨rfl, trivial⟩

theorem makes_bind (x : StoreM (World MemoryStore) α) (f : α → StoreM (World MemoryStore) β)
    (xs ys : List StoreEdit) (hx : Makes env x w xs)
    (hf : ∀ a, Makes env (f a) (w.performed xs) ys) : Makes env (x >>= f) w (xs ++ ys) := by
  unfold Makes
  rw [runs_bind]
  apply runs_imp _ _ _ hx
  · rintro a w' ⟨rfl, hfree⟩
    apply runs_imp _ _ _ (hf a)
    · rintro b w'' ⟨rfl, hfree'⟩
      exact ⟨(performed_append w xs ys).symm, (free_append xs ys w).mpr ⟨hfree, hfree'⟩⟩
    · rintro cause w'' ⟨done, edit, rest, rfl, hfree', hfail, rfl⟩
      -- the failing edit comes after all those of the first act
      refine ⟨xs ++ done, edit, rest, (List.append_assoc ..).symm,
        (free_append xs done w).mpr ⟨hfree, hfree'⟩, ?_, ?_⟩
      · rw [performed_append]
        exact hfail
      · rw [performed_append]
  · rintro cause w' ⟨done, edit, rest, rfl, hfree, hfail, rfl⟩
    exact ⟨done, edit, rest ++ ys, by rw [List.append_assoc]; rfl, hfree, hfail, rfl⟩

theorem makes_one (hstill : env.Still) (edit : StoreEdit) (x : StoreM MemoryStore α)
    (hx : ∀ s, ∃ a, x.run s = (.ok a, edit.apply s)) :
    Makes env (reachOne env edit.call x) w [edit] := by
  apply runs_reachOne_still env hstill
  · intro cause hfail
    exact ⟨[], edit, [], rfl, trivial, hfail, rfl⟩
  · intro hgo
    obtain ⟨a, ha⟩ := hx w.store
    unfold Runs
    rw [ha]
    exact ⟨rfl, hgo, trivial⟩

section Files

variable (hstill : env.Still)

include hstill

theorem makes_clear (path : String) :
    Makes env ((reach env MemoryStore.calls).deleteByPath path) w [.clear path] :=
  makes_one hstill (.clear path) _ fun _ => ⟨_, rfl⟩

theorem makes_move (source target : String) :
    Makes env ((reach env MemoryStore.calls).updatePath source target) w [.move source target] :=
  makes_one hstill (.move source target) _ fun _ => ⟨_, rfl⟩

theorem makes_write (entities : List EmbeddedEntity) :
    Makes env ((reach env MemoryStore.calls).upsert entities) w [.write entities] :=
  makes_one hstill (.write entities) _ fun _ => ⟨_, rfl⟩

theorem makes_drop (ids : List String) :
    Makes env ((reach env MemoryStore.calls).deleteIds ids) w [.drop ids] :=
  makes_one hstill (.drop ids) _ fun _ => ⟨_, rfl⟩

theorem makes_deleteFile (path : String) :
    Makes env ((reach env MemoryStore.calls).deleteFile path) w [.clear path] :=
  makes_bind _ _ _ [] (makes_clear hstill path) fun _ => makes_pure _

def moveEdits (source target : String) (had : Bool) : List StoreEdit :=
  (if had then [.clear target] else []) ++ [.move source target]

theorem makes_renameFile (source target : String) (had : Bool) :
    Makes env ((reach env MemoryStore.calls).renameFile source target had) w
      (moveEdits source target had) := by
  have hmove (removed : Nat) (w : World MemoryStore) : Makes env (do
      let renamed ← (reach env MemoryStore.calls).updatePath source target
      return ({ removed, renamed } : WriteStats)) w [.move source target] :=
    makes_bind _ _ _ [] (makes_move hstill source target) fun _ => makes_pure _
  cases had with
  | true => exact makes_bind _ _ [_] _ (makes_clear hstill target) fun _ => hmove _ _
  | false => exact makes_bind _ _ [] _ (makes_pure 0) fun _ => hmove _ _

def updateEdits (path : String) (previous current : Std.ExtTreeSet String)
    (embedded : List EmbeddedEntity) (hasRecord : Bool) : List StoreEdit :=
  (if hasRecord then [] else [.clear path]) ++ .write embedded ::
    if (VectorStore.staleIds previous current).isEmpty then []
    else [.drop (VectorStore.staleIds previous current)]

theorem makes_updateFile (path : String) (previous current : Std.ExtTreeSet String)
    (embedded : List EmbeddedEntity) (hasRecord : Bool) :
    Makes env ((reach env MemoryStore.calls).updateFile path previous current embedded hasRecord) w
      (updateEdits path previous current embedded hasRecord) := by
  -- the last call is made only if there is something to drop
  have hdrop (leftover : Nat) (w : World MemoryStore) : Makes env (do
      let dropped ← if (VectorStore.staleIds previous current).isEmpty then pure 0
        else (reach env MemoryStore.calls).deleteIds (VectorStore.staleIds previous current)
      return ({
        added := embedded.length
        removed := leftover + dropped
        unchanged := (previous.toList.filter fun id => current.contains id).length } :
          WriteStats)) w
      (if (VectorStore.staleIds previous current).isEmpty then []
        else [.drop (VectorStore.staleIds previous current)]) := by
    split
    · exact makes_bind _ _ [] [] (makes_pure 0) fun _ => makes_pure _
    · exact makes_bind _ _ [_] [] (makes_drop hstill _) fun _ => makes_pure _
  have hrest (leftover : Nat) (w : World MemoryStore) :=
    makes_bind _ _ [_] _ (makes_write (w := w) hstill embedded) fun _ => hdrop leftover _
  cases hasRecord with
  | true => exact makes_bind _ _ [] _ (makes_pure 0) fun _ => hrest _ _
  | false => exact makes_bind _ _ [_] _ (makes_clear hstill path) fun _ => hrest _ _

end Files

end World

end CodeIndex
