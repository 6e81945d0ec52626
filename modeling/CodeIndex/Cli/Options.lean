import CodeIndex.Run.Pipeline

/-!
The command line of the program. Arguments are read from left to right, and the first that is
malformed, that may not stand twice and does, or that asks for a text about the program, decides.
At most one of `--full`, `--head`, `--staged` and `--base` may stand.
-/

namespace CodeIndex.Cli

inductive Flag where
  | full | head | staged | status | detect | reset | initConfig | json | verbose
deriving DecidableEq, Repr, Inhabited

def Flag.ofName? : String → Option Flag
  | "full" => some .full
  | "head" => some .head
  | "staged" => some .staged
  | "status" => some .status
  | "detect" => some .detect
  | "reset" => some .reset
  | "init-config" => some .initConfig
  | "json" => some .json
  | "verbose" => some .verbose
  | _ => none

inductive Argument where
  | flag (flag : Flag)
  | base (branch : String)
  | config (file : String)
  | path (path : String)
  | help
  | version
deriving DecidableEq, Repr, Inhabited

structure Options where
  path : String := "."
  full : Bool := false
  head : Bool := false
  staged : Bool := false
  base : Option String := none
  status : Bool := false
  detect : Bool := false
  reset : Bool := false
  config : Option String := none
  initConfig : Bool := false
  json : Bool := false
  verbose : Bool := false
deriving DecidableEq, Repr, Inhabited

inductive Request where
  | run (options : Options)
  | help
  | version
deriving DecidableEq, Repr, Inhabited

namespace Argument

def path? (s : String) : Option Argument := if s.isEmpty then none else some (.path s)

def valued? (name value : String) : Option Argument :=
  match name with
  | "base" => some (.base value)
  | "config" => if value.isEmpty then none else some (.config value)
  | _ => none

def isValue (s : String) : Bool := s == "-" || !s.startsWith "-"

def ofLetter? : Char → Option Argument
  | 'v' => some (.flag .verbose)
  | 'h' => some .help
  | 'V' => some .version
  | _ => none

def ofName? : String → Option Argument
  | "help" => some .help
  | "version" => some .version
  | name => (Flag.ofName? name).map .flag

def ofWord (word : String) : List (Option Argument) :=
  match word.toList with
  | '-' :: '-' :: name =>
    match Text.splitFirst '=' name with
    | (name, some value) => [valued? (String.ofList name) (String.ofList value)]
    | (name, none) => [ofName? (String.ofList name)]
  | '-' :: letter :: letters => (letter :: letters).map ofLetter?
  | _ => [path? word]

/-- The arguments of words; nothing in the place of a malformed one. After `--` there are paths
only. -/
def ofWords : List String → List (Option Argument)
  | [] => []
  | "--" :: rest => rest.map path?
  | [word] => ofWord word
  | word :: next :: rest =>
    if (word == "--base" || word == "--config") && isValue next then
      valued? (String.ofList (word.toList.drop 2)) next :: ofWords rest
    else ofWord word ++ ofWords (next :: rest)

end Argument

namespace Options

/-- Takes one argument more; an option or a path that is there already is refused. -/
def add (o : Options) (before : List Argument) (a : Argument) : Option Options :=
  let isNew (same : Argument → Bool) : Bool := !before.any same
  match a with
  | .flag f =>
    if !isNew (· == .flag f) then none
    else some (match f with
      | .full => { o with full := true }
      | .head => { o with head := true }
      | .staged => { o with staged := true }
      | .status => { o with status := true }
      | .detect => { o with detect := true }
      | .reset => { o with reset := true }
      | .initConfig => { o with initConfig := true }
      | .json => { o with json := true }
      | .verbose => { o with verbose := true })
  | .base branch =>
    if o.base.isSome then none else some { o with base := some branch }
  | .config file =>
    if o.config.isSome then none else some { o with config := some file }
  | .path path =>
    if isNew fun | .path _ => true | _ => false then some { o with path := path } else none
  | .help | .version => some o

def isConsistent (o : Options) : Bool :=
  ([o.full, o.head, o.staged, o.base.isSome].filter id).length ≤ 1

def request? (o : Options) (before : List Argument) : List (Option Argument) → Option Request
  | [] => if o.isConsistent then some (.run o) else none
  | none :: _ => none
  | some .help :: _ => some .help
  | some .version :: _ => some .version
  | some a :: as => do (← o.add before a).request? (a :: before) as

def target (o : Options) : DiffTarget :=
  match o.base with
  | some branch => .branchBase branch
  | none => if o.staged then .staged else if o.head then .head else .workingTree

def mode (o : Options) : IndexMode := if o.full then .full else .auto o.target

end Options

def Request.ofList? (args : List String) : Option Request :=
  Options.request? {} [] (Argument.ofWords args)

end CodeIndex.Cli
