import CodeIndex.Change.ChangeSet
import CodeIndex.Run.Error
import CodeIndex.Text.Line
import CodeIndex.Text.Quoted
import CodeIndex.Text.Utf8

namespace CodeIndex

inductive DiffEntry where
  | added (path : String)
  | modified (path : String)
  | deleted (path : String)
  | renamed (source target : String)
deriving DecidableEq, Repr, Inhabited

inductive DiffRecord where
  | added (path : String)
  | modified (path : String)
  | retyped (path : String)
  | unmerged (path : String)
  | deleted (path : String)
  | renamed (score : Nat) (source target : String)
  | copied (score : Nat) (source target : String)
deriving DecidableEq, Repr, Inhabited

namespace DiffRecord

def fields : DiffRecord → List String
  | .added path => ["A", path]
  | .modified path => ["M", path]
  | .retyped path => ["T", path]
  | .unmerged path => ["U", path]
  | .deleted path => ["D", path]
  | .renamed score source target => ["R" ++ toString score, source, target]
  | .copied score source target => ["C" ++ toString score, source, target]

def report (records : List DiffRecord) : ByteArray :=
  (records.flatMap fields).foldl (fun bytes field => (bytes ++ field.toUTF8).push 0) .empty

end DiffRecord

namespace DiffEntry

def fields (bytes : ByteArray) : List String :=
  ((Text.splitOn 0 bytes.toList).filter (!·.isEmpty)).map fun piece => Text.lossy ⟨piece.toArray⟩

def truncated (status : String) : IndexError :=
  .git ("truncated diff entry for status " ++ status)

def ofFields : List String → Except IndexError (List DiffEntry)
  | [] => .ok []
  | [status] =>
    match status.toList.head? with
    | some 'A' | some 'M' | some 'T' | some 'U' | some 'D' | some 'R' | some 'C' =>
      .error (truncated status)
    | _ => .error (.git ("unexpected diff status " ++ Text.quoted status))
  | status :: path :: rest =>
    match status.toList.head? with
    | some 'A' => (ofFields rest).map (added path :: ·)
    | some 'M' | some 'T' | some 'U' => (ofFields rest).map (modified path :: ·)
    | some 'D' => (ofFields rest).map (deleted path :: ·)
    | some 'R' =>
      match rest with
      | [] => .error (truncated status)
      | target :: rest => (ofFields rest).map (renamed path target :: ·)
    | some 'C' =>
      match rest with
      | [] => .error (truncated status)
      | target :: rest => (ofFields rest).map (added target :: ·)
    | _ => .error (.git ("unexpected diff status " ++ Text.quoted status))

def parse (bytes : ByteArray) : Except IndexError (List DiffEntry) := ofFields (fields bytes)

def changes (entries : List DiffEntry) : ChangeSet :=
  .ofLists
    (entries.filterMap fun | .added p => some p | _ => none)
    (entries.filterMap fun | .modified p => some p | _ => none)
    (entries.filterMap fun | .deleted p => some p | _ => none)
    (entries.filterMap fun | .renamed a b => some (a, b) | _ => none)

end DiffEntry

end CodeIndex
