import CodeIndex.Cli.Options
import CodeIndex.Config.Layer
import CodeIndex.Config.Secret
import CodeIndex.Points.Store
import CodeIndex.Provider.Client
import CodeIndex.Text.Uri

namespace CodeIndex

def Config.writeDefault (d : Disk) (path : String) (now : Nat) : Except ConfigError Disk :=
  match d.writeUnder path (default : Config).toText.toUTF8 now with
  | .ok d => .ok d
  | .error _ => .error .read

def Config.runConfig (c : Config) (stateDir : String) : RunConfig where
  stateDir := stateDir
  scan := {
    extensions := c.index.extensions
    exclude := c.index.exclude
    respectGitignore := c.index.respectGitignore
    maxFileBytes := c.index.maxFileBytes }
  workers := c.index.workers
  filesPerBatch := c.index.filesPerBatch
  variants := c.index.variants.filterMap ChunkVariant.ofName?
  batch := {
    initialSize := c.batching.initialSize
    minSize := c.batching.minSize
    growthFactor := c.batching.growthFactor.toFloat
    shrinkFactor := c.batching.shrinkFactor.toFloat
    latencyCeiling := .ofMillis c.batching.latencyCeilingMs
    memoryCeiling := c.batching.memoryCeilingBytes }
  retry := {
    maxAttempts := c.retry.maxAttempts
    baseBackoff := .ofMillis c.retry.baseBackoffMs
    maxBackoff := .ofMillis c.retry.maxBackoffMs
    callTimeout := .ofSecs c.retry.callTimeoutSecs }
  maxAge := c.maxAgeSecs?.map .ofSecs

namespace Cli

structure Environment (σ : Type) where
  vars : Variables
  directory : String
  git : String → Disk → Git.View
  points : PointService σ
  send : Nat → HttpRequest → Duration × Option HttpResponse
  extractor : Extractor
  runId : Nat → String

inductive ProgramError where
  | noRepository (path : String)
  | config (cause : ConfigError)
  | index (cause : IndexError)
  | noApiKey
  | noClient (url : String)
  | collection (cause : PointStore.CollectionError)
deriving DecidableEq, Repr, Inhabited

def ProgramError.message : ProgramError → String
  | .noRepository path => "Repository path " ++ path ++ " not found"
  | .config cause => cause.message
  | .index cause => cause.message
  | .noApiKey => "No API key configured. Set embeddings.api_key in config or "
      ++ "OPENROUTER_API_KEY environment variable"
  | .noClient url => "cannot build Qdrant client for " ++ url
  | .collection cause => cause.message

structure Report where
  output : String
  code : Nat := 0
deriving DecidableEq, Repr, Inhabited

def Report.ofLines (lines : List String) (code : Nat := 0) : Report :=
  ⟨String.join (lines.map (· ++ "\n")), code⟩

def Report.ofJson (value : Json) (code : Nat := 0) : Report := .ofLines [value.pretty] code

def freshnessReport (isJson : Bool) (f : Freshness) : Report :=
  let code := if f.isStale then 1 else 0
  if isJson then .ofJson f.toJson code
  else if f.isStale then
    .ofLines ["stale: [" ++ ", ".intercalate (f.reasons.map (·.word)) ++ "]"] code
  else .ofLines ["fresh"] code

/-- The report of detected changes. The members of its JSON form are ordered by name. -/
def detectionReport (isJson : Bool) (d : Detection) : Report :=
  if isJson then
    let members := [("source", Json.text d.source.name), ("head", .optional .text d.head),
      ("skipped", .array (d.skipped.map .text))] ++ d.changes.jsonMembers
    .ofJson (.record (members.mergeSort fun a b => a.1 ≤ b.1))
  else
    .ofLines ([toString d.changes.size ++ " changes (" ++ d.source.word ++ ")"]
      ++ d.changes.added.map ("  A " ++ ·) ++ d.changes.modified.map ("  M " ++ ·)
      ++ d.changes.deleted.map ("  D " ++ ·)
      ++ d.changes.renamed.map fun (source, target) => "  R " ++ source ++ " -> " ++ target)

def outcomeCode : RunOutcome → Nat
  | .completed => 0
  | .completedWithErrors => 1
  | .aborted => 2

def resultReport (isJson : Bool) (r : IndexResult) : Report :=
  let code := outcomeCode r.status
  if isJson then .ofJson r.toJson code
  else
    .ofLines ([r.summary]
      ++ r.errors.map (fun f => "  failed: " ++ f.path ++ " (" ++ f.error ++ ")")
      ++ r.abortReason.toList.map ("  aborted: " ++ ·)) code

section

variable {σ : Type}

abbrev ProgramM (σ : Type) := ExceptT ProgramError (StateM (World σ))

def orStop {ε α : Type} (wrap : ε → ProgramError) (x : Except ε α) : ProgramM σ α :=
  ExceptT.mk (pure (x.mapError wrap))

def ofRun {α : Type} (act : RunM (World σ) α) : ProgramM σ α :=
  ExceptT.mk do return (← act.run).mapError .index

def home? (vars : Variables) : Option String :=
  (vars.lookup "HOME").filter fun s => !s.isEmpty

def userConfigPath? (vars : Variables) : Option String :=
  let directory := ((vars.lookup "XDG_CONFIG_HOME").filter Path.isAbsolute).or
    ((home? vars).map fun home => Path.join home ".config")
  directory.map fun d => Path.join d "sift/config.toml"

def projectConfigName : String := ".sift.toml"

def document? (d : Disk) (path : String) : Option ByteArray :=
  (d.readFile path).toOption.map (·.1)

def settings (env : Environment σ) (o : Options) (d : Disk) (root : String) :
    Except ConfigError Config :=
  match o.config with
  | some file => Config.ofBytes (document? d (Path.join env.directory file))
  | none => Config.ofLayers ((userConfigPath? env.vars).bind (document? d))
      (document? d (Path.join root projectConfigName)) env.vars

def canonical? (d : Disk) (directory path : String) : Option String :=
  let full := Path.join directory path
  match d.stat full, d.locate full with
  | .ok _, .ok place => some ("/" ++ "/".intercalate place)
  | _, _ => none

def client (c : Config) (apiKey : String) : EmbeddingClient :=
  let usual : EmbeddingClient := { apiKey := apiKey }
  { usual with
    address := c.embeddings.baseUrl.getD usual.address
    model := c.embeddings.model
    dimensions := c.embeddings.dimensions }.withMaxBatch c.embeddings.maxBatchSize

def surroundings (env : Environment σ) (root : String) (client : EmbeddingClient) :
    Surroundings where
  git := env.git root
  reply n texts :=
    let (latency, response) := env.send n (client.request texts)
    ⟨latency, some (client.embed (fun _ => response) texts)⟩
  maxBatch := client.maxBatch
  dimensions := client.dimensions
  runId := env.runId

def setting (env : Environment σ) (c : Config) (root stateDir : String)
    (client : EmbeddingClient) : RunSetting σ where
  config := c.runConfig stateDir
  root := root
  extractor := env.extractor
  store := PointStore.calls env.points
  env := surroundings env root client

def apiKey (env : Environment σ) (c : Config) : Except ProgramError String := do
  let given ← (Config.resolveSecret env.vars c.embeddings.apiKey).mapError .config
  match given.or (env.vars.lookup "OPENROUTER_API_KEY") with
  | some key => .ok key
  | none => .error .noApiKey

/-- Brings the index up to date, once the services are known to be there. -/
def index (env : Environment σ) (o : Options) (c : Config) (root stateDir : String) :
    ProgramM σ Report := do
  let key ← orStop id (apiKey env c)
  let _ ← orStop .config (Config.resolveSecret env.vars c.store.qdrantApiKey)
  if !Uri.isValid c.store.qdrantUrl then throw (.noClient c.store.qdrantUrl)
  ExceptT.mk do
    let w ← get
    let (checked, store) :=
      (PointStore.checkCollection env.points c.store.collectionName c.embeddings.dimensions).run
        w.store
    set { w with store := store }
    return checked.mapError .collection
  let report ← ofRun ((setting env c root stateDir (client c key)).indexRepository o.mode)
  let result ← orStop .index report.outcome
  return resultReport o.json result

def run (env : Environment σ) (o : Options) : ProgramM σ Report := do
  let w ← get
  let some root := canonical? w.disk env.directory o.path | throw (.noRepository o.path)
  if o.initConfig then
    let path := Path.join root projectConfigName
    let d ← orStop .config (Config.writeDefault w.disk path w.milliseconds)
    set { w with disk := d }
    return .ofLines ["Wrote " ++ path]
  let c ← orStop .config (settings env o w.disk root)
  let stateDir := Path.join root (Config.expandPath (home? env.vars) c.index.stateDir)
  let s := setting env c root stateDir (client c "")
  if o.reset then
    ofRun (World.resetCheckpoint stateDir)
    return .ofLines ["Checkpoint removed"]
  else if o.status then return freshnessReport o.json (← orStop .index (s.freshness w))
  else if o.detect then
    return detectionReport o.json (← orStop .index (s.detectChanges w o.target))
  else index env o c root stateDir

end

def usage : String :=
  "Usage: sift [OPTIONS] [PATH]\n\nOptions:\n  --full\n  --head\n  --staged\n  --base <BRANCH>\n"
    ++ "  --status\n  --detect\n  --reset\n  --config <FILE>\n  --init-config\n  --json\n"
    ++ "  -v, --verbose\n"

/-- What a start of the program prints, its error if it stops with one, and its exit code. -/
structure Outcome where
  output : String
  error : Option ProgramError := none
  code : Nat
deriving DecidableEq, Repr, Inhabited

/-- A start of the program with some arguments. A malformed command line exits with 2, an error
with 1. -/
def start {σ : Type} (env : Environment σ) (args : List String) : StateM (World σ) Outcome := do
  match Request.ofList? args with
  | none => return { output := "", code := 2 }
  | some .help => return { output := usage, code := 0 }
  | some .version => return { output := "sift 0.1.0\n", code := 0 }
  | some (.run o) =>
    match ← (run env o).run with
    | .ok report => return { output := report.output, code := report.code }
    | .error e => return { output := "", error := some e, code := 1 }

end Cli

end CodeIndex
