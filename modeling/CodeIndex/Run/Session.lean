import CodeIndex.Git.Step
import CodeIndex.Run.Pipeline
import CodeIndex.Store.Memory

namespace CodeIndex

structure Session where
  tree : Git.Worktree
  store : MemoryStore := {}
  clock : Timestamp := ⟨⟨2024, 1, 1⟩, 0, 0⟩
  runsStarted : Nat := 0
  held : List Location := []

namespace Session

def start (root : String) : Session where
  tree := { disk := (({} : Disk).makeDirectoryAll root).toOption.getD {}, root := root }

def world (s : Session) (isCancelled : Bool) : World MemoryStore where
  disk := s.tree.disk
  store := s.store
  clock := s.clock
  runsStarted := s.runsStarted
  held := s.held
  isCancelled := isCancelled

def after (s : Session) (w : World MemoryStore) : Session :=
  { s with
    tree := { s.tree with disk := w.disk }
    store := w.store
    clock := w.clock.advance (.ofMillis 5)
    runsStarted := w.runsStarted }

def perform {α : Type} (s : Session) (isCancelled : Bool) (act : RunM (World MemoryStore) α) :
    Except IndexError α × World MemoryStore × Session :=
  let (outcome, w) := act.run (s.world isCancelled)
  (outcome, w, s.after w)

def step? (s : Session) (step : Git.Step) : Option Session :=
  (s.tree.step? step).map fun tree =>
    { s with tree := tree, held := s.held.filter fun place => (tree.disk.lookup place).isSome }

def hold (s : Session) (directory : String) : Session :=
  let path := Path.join directory World.lockName
  { s with held := (s.tree.disk.locate path).toOption.toList ++ s.held }

def git (s : Session) (d : Disk) : Git.View := { s.tree with disk := d }.view

end Session

end CodeIndex
