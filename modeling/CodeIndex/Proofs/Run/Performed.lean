import CodeIndex.Proofs.Run.Touching
import CodeIndex.Proofs.Store.Curated

namespace CodeIndex

namespace FileEdit

variable (env : Surroundings)

theorem reachOne_performs {α : Type} (call : StoreCall) (x : StoreM MemoryStore α)
    (w : World MemoryStore) {a : α} {s : MemoryStore} (h : x.run w.store = (.ok a, s)) :
    Runs (World.reachOne env call x) w (fun b w' => b = a ∧ w'.store = s) fun _ _ => True := by
  apply runs_imp _ _ _ (World.reachOne_touches env call x w) ?_ fun _ _ _ => trivial
  rintro b w' ⟨_, hran⟩
  cases h.symm.trans hran
  exact ⟨rfl, rfl⟩

theorem calls_reach : (World.reach env MemoryStore.calls).Performs (·.store) True where
  clears path w := reachOne_performs env _ _ w (run_clear path w.store)
  moves source target w := reachOne_performs env _ _ w (run_move source target w.store)
  writes entities w :=
    runs_imp _ _ _ (reachOne_performs env _ _ w (run_write entities w.store)) (fun _ _ h => h.2)
      fun _ _ h => h
  drops ids w := reachOne_performs env _ _ w (StoreEdit.perform_run (.drop ids) w.store)

theorem reach_performs (file : FileEdit) (w : World MemoryStore) :
    Runs (file.through (World.reach env MemoryStore.calls)) w
      (fun stats w' => stats = file.stats w.store ∧ w'.store = w.store.edited file.edits)
      fun _ _ => True :=
  file.through_performs (calls_reach env) w

end FileEdit

end CodeIndex
