import CodeIndex.Git.Command

namespace CodeIndex.Git

inductive Step where
  | write (path : String) (content : ByteArray)
  | remove (path : String)
  | move (path target : String)
  | makeDirectory (path : String)
  | link (path target : String)
  | command (args : List String)

namespace Worktree

def step? (w : Worktree) (s : Step) : Option Worktree :=
  let full (path : String) := Path.join w.root path
  let settle (result : Except DiskError Disk) : Option Worktree :=
    result.toOption.map fun d => { w with disk := d }
  match s with
  | .write path content => settle (w.disk.writeUnder (full path) content 0)
  | .remove path => settle (w.disk.removeAll (full path))
  | .move path target => settle do
    (← w.disk.makeDirectoryAll (Disk.parentOf (full target))).rename (full path) (full target)
  | .makeDirectory path => settle (w.disk.makeDirectoryAll (full path))
  | .link path target => settle (w.disk.makeLink (full path) target)
  | .command args => (Command.ofArgs? args).bind w.run

end Worktree

end CodeIndex.Git
