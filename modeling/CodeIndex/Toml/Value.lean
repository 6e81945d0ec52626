import CodeIndex.Toml.DateTime

namespace CodeIndex

/-- How a table came to be: written in braces, named by a header, or implied by the path of a header
or of a dotted key. -/
inductive TableState where
  | braces | header | implied | dotted
deriving DecidableEq, Repr, Inhabited

/-- A value. `tables` is a list whose elements are named by headers in double brackets. -/
inductive Toml where
  | text (s : String)
  | integer (i : Int)
  | float (d : Double)
  | truth (b : Bool)
  | dateTime (m : DateTime)
  | list (items : List Toml)
  | table (state : TableState) (entries : List (String × Toml))
  | tables (elements : List (List (String × Toml)))
deriving Repr, Inhabited

namespace Toml

abbrev Entries := List (String × Toml)

def put (es : Entries) (name : String) (value : Toml) : Entries :=
  if es.any (·.1 == name) then es.map fun e => if e.1 == name then (name, value) else e
  else es ++ [(name, value)]

/-- Changes the table that a path leads to. Tables that are missing on the way are made; the path of
a dotted key may not pass through a table in braces or one that a header names. -/
def changeAt (isDotted : Bool) (change : TableState → Entries → Option Entries) :
    List String → TableState → Entries → Option Entries
  | [], state, es => change state es
  | name :: path, _, es =>
    match es.lookup name with
    | none => do
      let state := if isDotted then TableState.dotted else .implied
      let inner ← changeAt isDotted change path state []
      some (put es name (.table state inner))
    | some (.table state inner) =>
      if state = .braces || (isDotted && state = .header) then none
      else do some (put es name (.table state (← changeAt isDotted change path state inner)))
    | some (.tables elements) =>
      match elements.reverse with
      | [] => none
      | last :: before => do
        let last ← changeAt isDotted change path .header last
        some (put es name (.tables (before.reverse ++ [last])))
    | some _ => none

structure Key where
  path : List String
  name : String
deriving DecidableEq, Repr, Inhabited

/-- Adds an entry. Its name has to be new, and its path must lead through tables that dotted keys
made. -/
def define (key : Key) (value : Toml) (es : Entries) : Option Entries :=
  changeAt true (fun state inner =>
    if !key.path.isEmpty && state != .dotted then none
    else if inner.any (·.1 == key.name) then none
    else some (inner ++ [(key.name, value)])) key.path .header es

inductive Line where
  | header (key : Key)
  | element (key : Key)
  | entry (key : Key) (value : Toml)

def openTable (key : Key) (root : Entries) : Option Entries :=
  changeAt false (fun _ es =>
    match es.lookup key.name with
    | none => some (put es key.name (.table .header []))
    | some (.table .implied inner) => some (put es key.name (.table .header inner))
    | some _ => none) key.path .header root

def openElement (key : Key) (root : Entries) : Option Entries :=
  changeAt false (fun _ es =>
    match es.lookup key.name with
    | none => some (put es key.name (.tables [[]]))
    | some (.tables elements) => some (put es key.name (.tables (elements ++ [[]])))
    | some _ => none) key.path .header root

def applyLine (root : Entries) (path : List String) : Line → Option (Entries × List String)
  | .header key => (openTable key root).map (·, key.path ++ [key.name])
  | .element key => (openElement key root).map (·, key.path ++ [key.name])
  | .entry key value =>
    (changeAt false (fun _ es => define key value es) path .header root).map (·, path)

def applyLines : Entries → List String → List Line → Option Entries
  | root, _, [] => some root
  | root, path, line :: lines => do
    let (root, path) ← applyLine root path line
    applyLines root path lines

def ofLines? (lines : List Line) : Option Entries := applyLines [] [] lines

end Toml

end CodeIndex
