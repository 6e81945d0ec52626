import CodeIndex.Config.Document

/-!
Settings in layers: defaults, the user's document, the project's document, and variables of the
environment, later ones winning. Values of layers are taken for the kind that a setting has wherever
that makes sense.
-/

namespace CodeIndex

inductive LayerValue where
  | missing
  | truth (b : Bool)
  | integer (i : Int)
  | float (d : Double)
  | text (s : String)
  | list (items : List LayerValue)
  | table (entries : List (String × LayerValue))
deriving Repr, Inhabited

namespace LayerValue

def wordTruth? : String → Option Bool
  | "true" | "on" | "yes" => some true
  | "false" | "off" | "no" => some false
  | _ => none

def truth? : LayerValue → Option Bool
  | .truth b => some b
  | .integer i => some (i != 0)
  | .float d => some (d.toFloat != 0.0)
  | .text s =>
    match s.toLower with
    | "1" => some true
    | "0" => some false
    | word => wordTruth? word
  | _ => none

def unsigned64? : LayerValue → Option Nat
  | .truth b => some b.toNat
  | .integer i => if 0 ≤ i then some i.toNat else none
  | .float d => some d.toWhole
  | .text s =>
    match wordTruth? s.toLower with
    | some b => some b.toNat
    | none => Number.unsigned64? s
  | _ => none

def double? : LayerValue → Option Double
  | .truth b => some (.ofInt b.toNat)
  | .integer i => some (.ofInt i)
  | .float d => some d
  | .text s =>
    match wordTruth? s.toLower with
    | some b => some (.ofInt b.toNat)
    | none => Number.double? s
  | _ => none

def text? : LayerValue → Option String
  | .truth b => some (if b then "true" else "false")
  | .integer i => some (toString i)
  | .float d => some (Shortest.text d)
  | .text s => some s
  | _ => none

def reading : ValueReading LayerValue where
  fields?
    | .table es => some (.named es)
    | .list items => some (.ordered items)
    | _ => none
  list?
    | .list items => some items
    | _ => none
  text? := text?
  nat? bits value := value.unsigned64?.filter (· < Nat.pow 2 bits)
  double? := double?
  truth? := truth?
  isMissing
    | .missing => true
    | _ => false

mutual

def ofToml : Toml → LayerValue
  | .text s => .text s
  | .integer i => .integer i
  | .float d => .float d
  | .truth b => .truth b
  | .dateTime m => .text m.text
  | .list items => .list (ofItems items)
  | .table _ es => .table (ofEntries es)
  | .tables elements => .list (ofElements elements)

def ofItems : List Toml → List LayerValue
  | [] => []
  | item :: items => ofToml item :: ofItems items

def ofEntries : List (String × Toml) → List (String × LayerValue)
  | [] => []
  | (name, value) :: es => (name, ofToml value) :: ofEntries es

def ofElements : List (List (String × Toml)) → List LayerValue
  | [] => []
  | es :: elements => .table (ofEntries es) :: ofElements elements

end

def ofVariable (s : String) : LayerValue :=
  match s.toLower with
  | "true" => .truth true
  | "false" => .truth false
  | _ =>
    match Number.signed64? s, Number.double? s with
    | some i, _ => .integer i
    | none, some d => .float d
    | none, none => .text s

/-- A step from a value to a part of it. An index that is negative counts from the end. -/
inductive Step where
  | name (name : String)
  | index (index : Int)
deriving DecidableEq, Repr

def isNameChar (c : Char) : Bool := c.isAlphanum || c == ' ' || c == '_' || c == '-'

def name? (cs : List Char) : Option (String × List Char) :=
  let name := cs.takeWhile isNameChar
  if name.isEmpty then none else some (String.ofList name, cs.drop name.length)

def index? (cs : List Char) : Option (Int × List Char) := do
  let cs := cs.dropWhile (· == ' ')
  let (negative, cs) := match cs with
    | '-' :: rest => (true, rest)
    | rest => (false, rest)
  let (ds, rest) := Decimal.digitRun cs
  if ds.isEmpty then none
  let n : Int := Decimal.digitsValue ds
  match rest.dropWhile (· == ' ') with
  | ']' :: rest => some (if negative then -n else n, rest)
  | _ => none

def stepsFrom : Nat → List Char → Option (List Step)
  | _, [] => some []
  | 0, _ => none
  | fuel + 1, '.' :: rest => do
    let (name, rest) ← name? rest
    some (.name name :: (← stepsFrom fuel rest))
  | fuel + 1, '[' :: rest => do
    let (index, rest) ← index? rest
    some (.index index :: (← stepsFrom fuel rest))
  | _, _ => none

/-- The steps that a name stands for. One that is no path is a step by itself. -/
def path (s : String) : List Step :=
  let parsed := do
    let (name, rest) ← name? s.toList
    some (Step.name name :: (← stepsFrom rest.length rest))
  parsed.getD [.name s]

def entries : LayerValue → List (String × LayerValue)
  | .table es => es
  | _ => []

def put (es : List (String × LayerValue)) (name : String) (value : LayerValue) :
    List (String × LayerValue) :=
  if es.any (·.1 == name) then es.map fun e => if e.1 == name then (name, value) else e
  else es ++ [(name, value)]

mutual

/-- A value with a part set. A table is merged into the table that is there; any other value takes
the place of the part. Names are compared in lower case. -/
def assign (name : String) : LayerValue → LayerValue → LayerValue
  | .table incoming, root =>
    let es := root.entries
    .table (put es name.toLower
      (assignAll incoming ((es.lookup name.toLower).getD (.table []))))
  | value, root => .table (put root.entries name.toLower value)

def assignAll : List (String × LayerValue) → LayerValue → LayerValue
  | [], root => root
  | (name, value) :: es, root => assignAll es (assign name value root)

end

def items : LayerValue → List LayerValue
  | .list items => items
  | _ => []

def changeItem (index : Int) (change : LayerValue → LayerValue) (root : LayerValue) :
    LayerValue :=
  let items := root.items
  let i := if 0 ≤ index then index.toNat else items.length - index.natAbs
  let items := items ++ List.replicate (i + 1 - items.length) .missing
  .list (items.modify i change)

def assignAt (value : LayerValue) : List Step → LayerValue → LayerValue
  | [], _ => value
  | [.name name], root => assign name value root
  | .name name :: path, root =>
    let name := name.toLower
    let es := root.entries
    .table (put es name (assignAt value path ((es.lookup name).getD .missing)))
  | .index index :: path, root => changeItem index (assignAt value path) root

def addLayer (root : LayerValue) (layer : List (String × LayerValue)) : LayerValue :=
  layer.foldl (fun root (name, value) => assignAt value (path name) root) root

end LayerValue

namespace Config

/-- What a document that may be missing says. Bytes that are no text are read as U+FFFD. -/
def documentLayer (document : Option ByteArray) : Option (List (String × LayerValue)) :=
  match document with
  | none => some []
  | some bytes => (Toml.ofText? (Text.lossy bytes)).map LayerValue.ofEntries

/-- What variables say. A name counts in any case; after its beginning, two underscores stand for a
point. -/
def variableLayer (vars : Variables) : List (String × LayerValue) :=
  vars.filterMap fun (name, value) =>
    let name := name.toLower
    if name.startsWith "sift__" then
      some ((String.ofList (name.toList.drop 6)).replace "__" ".", LayerValue.ofVariable value)
    else none

def ofLayers (user project : Option ByteArray) (vars : Variables) :
    Except ConfigError Config :=
  let merged := do
    let user ← documentLayer user
    let project ← documentLayer project
    let start := LayerValue.ofEntries ((default : Config).sections.map fun (name, es) =>
      (name, Toml.table .header es))
    let root := [user, project, variableLayer vars].foldl LayerValue.addLayer (.table start)
    LayerValue.reading.config? (.named root.entries)
  match merged with
  | none => .error .load
  | some c => c.validate

end Config

end CodeIndex
