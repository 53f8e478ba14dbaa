/-
The preparation of a paired release: `prepare` with its registry, its recipe and its publication,
one durable write after another.

The registry is one file that is replaced whole, so a change of it is one write.  The files of a
release stand in its directory, where another party may have changed anything since the last
call.  What a call takes from outside is a `Job`: the outcome of the build and of the smoke
checks, the clock, and how each operation on the disk fails, when it does.
-/
import RatKingdom.Core.Text
import RatKingdom.Lib.Guarantee
import RatKingdom.Lib.Table

namespace RatKingdom.Release

open Lib Core Function

def schemaVersion : Nat := 1

def recipePairedRkMcp : String := "paired-rk-mcp"

def recipeRevision : Nat := 1

def buildTimeout : Nat := 20 * 60

def cargoBuildJobs : Nat := 2

def niceLevel : Int := 10

def expectedBinaryNames : List String := ["rk", "rk-mcp"]

inductive ReleaseStatus where
  | preparing | prepared | failed | unknown
  deriving DecidableEq

structure ReleaseIndexEntry where
  id : String
  repo : String
  recipe : String
  recipeRevision : Nat
  inputKey : String
  requestedSource : String
  status : ReleaseStatus
  createdAt : Int
  updatedAt : Int
  detail : Option String
  manifestDigest : Option String

structure BinaryArtifact where
  sha256 : String
  sizeBytes : Nat

structure SourceProvenance where
  requested : String
  resolvedCommit : String
  treeSha : String

structure CheckEvidence where
  name : String
  command : String
  exitCode : Option Int
  passed : Bool
  observedAt : Int

structure HostAdmissionBounds where
  recipeIdentity : String
  weight : Nat
  admissionWaitMs : Nat
  buildRunMs : Option Nat

structure RecipeBounds where
  cargoBuildJobs : Nat
  nice : Int
  timeoutSecs : Nat
  enforcementNote : String
  hostAdmission : Option HostAdmissionBounds

inductive FileObservation where
  | present (sha256 : String)
  | absent
  | unavailable (reason : String)

structure ConfigProvenance where
  cargoBuildJobsEnv : String
  cargoIncrementalEnv : String
  usedMise : Bool
  repoPolicy : FileObservation
  checksRegistry : FileObservation
  knownVerification : Option Value
  compatibilityChecked : Bool

structure ReleaseManifest where
  schemaVersion : Nat
  id : String
  repo : String
  recipe : String
  recipeRevision : Nat
  source : SourceProvenance
  toolchain : String
  binaries : Table String BinaryArtifact
  recipeBounds : RecipeBounds
  configProvenance : ConfigProvenance
  checks : List CheckEvidence
  createdAt : Int

structure PrepareParams where
  repoName : String
  requested : String
  resolvedCommit : String
  treeSha : String
  recipe : String
  knownVerification : Option Value

structure PrepareOutcome where
  entry : ReleaseIndexEntry
  manifest : ReleaseManifest
  alreadyPrepared : Bool

inductive Node where
  | file (bytes : Bytes)
  | other

/-- A release directory: the names in it. -/
abbrev Dir := String → Option Node

/-- `std::fs::read` below a directory that may be missing; it answers where `Path::is_file`
does. -/
def readFile (dir : Option Dir) (name : String) : Option Bytes :=
  match dir.bind fun d => d name with
  | some (.file bytes) => some bytes
  | _ => none

@[simp] theorem readFile_update_self (dir : Dir) (name : String) (bytes : Bytes) :
    readFile (some (update dir name (some (.file bytes)))) name = some bytes := by
  simp [readFile]

theorem readFile_update_of_ne {name n : String} (h : n ≠ name) (dir : Dir) (node : Option Node) :
    readFile (some (update dir name node)) n = readFile (some dir) n := by
  simp [readFile, update_of_ne h]

/-- `ReleaseRegistry`: its entries, each under its own id. -/
structure Registry where
  get : String → Option ReleaseIndexEntry
  keyed : ∀ id e, get id = some e → e.id = id

namespace Registry

def empty : Registry where
  get := fun _ => none
  keyed := fun _ _ h => nomatch h

def upsert (reg : Registry) (entry : ReleaseIndexEntry) : Registry where
  get := update reg.get entry.id (some entry)
  keyed := by
    intro id e h
    rcases eq_or_ne id entry.id with rfl | hne
    · rw [update_self] at h
      cases h
      rfl
    · rw [update_of_ne hne] at h
      exact reg.keyed id e h

end Registry

/-- The durable state under the daemon's home: `releases.json`, `releases/` by id, and the
directories moved to `releases-partial/`, oldest first. -/
structure Home where
  registry : Registry
  releases : String → Option Dir
  partials : List (String × Dir)

namespace Home

def setDir (id : String) (dir : Option Dir) (home : Home) : Home :=
  { home with releases := update home.releases id dir }

/-- `std::fs::rename` of a release directory to its place in quarantine. -/
def moveAside (id name : String) (home : Home) : Home :=
  match home.releases id with
  | some dir => { home.setDir id none with partials := home.partials ++ [(name, dir)] }
  | none => home

def createDir (id : String) (home : Home) : Home :=
  home.setDir id (some ((home.releases id).getD fun _ => none))

def setNode (id name : String) (node : Option Node) (home : Home) : Home :=
  home.setDir id ((home.releases id).map fun dir => update dir name node)

def upsert (entry : ReleaseIndexEntry) (home : Home) : Home :=
  { home with registry := home.registry.upsert entry }

@[simp] theorem setDir_releases_self (id : String) (dir : Option Dir) (home : Home) :
    (home.setDir id dir).releases id = dir := by
  show update home.releases id dir id = dir
  exact update_self id dir home.releases

theorem setDir_releases_of_ne {id i : String} (h : i ≠ id) (dir : Option Dir) (home : Home) :
    (home.setDir id dir).releases i = home.releases i := by
  show update home.releases id dir i = home.releases i
  exact update_of_ne h dir home.releases

theorem moveAside_none {id : String} {home : Home} (h : home.releases id = none) (name : String) :
    home.moveAside id name = home := by
  rw [moveAside, h]

theorem moveAside_some {id : String} {home : Home} {dir : Dir} (h : home.releases id = some dir)
    (name : String) : home.moveAside id name =
      { home.setDir id none with partials := home.partials ++ [(name, dir)] } := by
  rw [moveAside, h]

theorem setNode_some {id : String} {home : Home} {dir : Dir} (h : home.releases id = some dir)
    (name : String) (node : Option Node) :
    home.setNode id name node = home.setDir id (some (update dir name node)) := by
  rw [setNode, h]
  rfl

@[simp] theorem upsert_get_self (entry : ReleaseIndexEntry) (home : Home) :
    (home.upsert entry).registry.get entry.id = some entry := by
  show update home.registry.get entry.id (some entry) entry.id = some entry
  exact update_self entry.id (some entry) home.registry.get

theorem upsert_get_of_ne {entry : ReleaseIndexEntry} {i : String} (h : i ≠ entry.id) (home : Home) :
    (home.upsert entry).registry.get i = home.registry.get i := by
  show update home.registry.get entry.id (some entry) i = home.registry.get i
  exact update_of_ne h (some entry) home.registry.get

end Home

/-- The daemon's home directory, SHA-256 as lower-case hex, and the JSON codec of manifests. -/
structure Host where
  home : String
  sha256 : Bytes → String
  toVec : ReleaseManifest → Bytes
  toVecPretty : ReleaseManifest → Bytes
  fromSlice : Bytes → Except String Value
  fromValue : Value → Except String ReleaseManifest

/-- The operations of a call that can fail, in the order of the source. -/
inductive Site where
  | loadRegistry | readManifest | reuse | quarantine | intent | quarantinePartial | releaseDir
  | binary (name : String)
  | syncBinaries | smokeHome | commitDigest | manifestTmp | manifestLink | manifestUnlink
  | manifestSync | promote | markFailed

structure Job where
  pid : Nat
  now : Site → Int
  /-- The name `quarantine_dir` gives from the clock. -/
  quarantineDir : Site → String
  configProvenance : Except String ConfigProvenance
  /-- The staging worktree, the admission and the build: the toolchain's version. -/
  build : Except String String
  admission : Option HostAdmissionBounds
  target : String → Except String Bytes
  smoke : String → Except String CheckEvidence
  fault : Site → Option (Fault String)

abbrev Op := Prog Home String

def computeInputKey (host : Host) (repo resolvedCommit recipe : String) (revision : Nat) : String :=
  host.sha256 (utf8 "rat-kingdom-release-input-v1" ++ [0] ++ utf8 repo ++ [0] ++
    utf8 resolvedCommit ++ [0] ++ utf8 recipe ++ [0] ++ toLeBytes revision)

def releaseId (inputKey : String) : String := "rel-" ++ String.ofList (inputKey.toList.take 20)

def inputKeyOf (host : Host) (params : PrepareParams) : String :=
  computeInputKey host params.repoName params.resolvedCommit params.recipe recipeRevision

/-- The id `prepare` works under. -/
def idOf (host : Host) (params : PrepareParams) : String := releaseId (inputKeyOf host params)

def manifestDigest (host : Host) (manifest : ReleaseManifest) : String :=
  host.sha256 (utf8 "rat-kingdom-release-manifest-v1" ++ [0] ++ host.toVec manifest)

def manifestPath (host : Host) (id : String) : String :=
  host.home ++ "/releases/" ++ id ++ "/manifest.json"

def asU64 : Value → Option Nat
  | .number (.int i) => if 0 ≤ i ∧ i < 2 ^ 64 then some i.toNat else none
  | _ => none

def debugDeclared : Option Nat → String
  | none => "None"
  | some n => "Some(" ++ toString n ++ ")"

def loadManifest (host : Host) (path : String) (bytes : Bytes) : Except String ReleaseManifest := do
  let value ← host.fromSlice bytes
  let declared := (value.get "schema_version").bind asU64
  if declared ≠ some schemaVersion then
    throw ("release manifest at " ++ path ++ " declares unsupported schema_version " ++
      debugDeclared declared ++ " (this daemon supports " ++ toString schemaVersion ++
      "); refusing to trust its shape")
  match host.fromValue value with
  | .ok manifest => pure manifest
  | .error e =>
    throw ("release manifest at " ++ path ++ " does not match schema v" ++
      toString schemaVersion ++ ": " ++ e)

def artifactMatches (host : Host) (dir : Option Dir) (name : String) (artifact : BinaryArtifact) :
    Bool :=
  match readFile dir name with
  | none => false
  | some bytes => bytes.length = artifact.sizeBytes && host.sha256 bytes = artifact.sha256

def binariesMatchDisk (host : Host) (dir : Option Dir) (manifest : ReleaseManifest) : Bool :=
  let names := manifest.binaries.keys
  if ¬ (names ⊆ expectedBinaryNames ∧ expectedBinaryNames ⊆ names) then false
  else if names.any fun n => n.toList.any (fun c => c = '/' || c = '\\') || containsText n ".." then
    false
  else manifest.binaries.rows.all fun r => artifactMatches host dir r.1 r.2

def verifyContent (host : Host) (entry : ReleaseIndexEntry) (dir : Option Dir)
    (manifest : ReleaseManifest) : Bool :=
  match entry.manifestDigest with
  | none => false
  | some recordedDigest =>
    if manifestDigest host manifest ≠ recordedDigest then false
    else if manifest.id ≠ entry.id ∨ manifest.repo ≠ entry.repo ∨
      manifest.recipe ≠ entry.recipe then false
    else binariesMatchDisk host dir manifest

/-- The entry `upsert_entry` writes over what the registry has. -/
def entryFor (existing : Option ReleaseIndexEntry) (id : String) (params : PrepareParams)
    (inputKey : String) (status : ReleaseStatus) (detail digest : Option String) (now : Int) :
    ReleaseIndexEntry :=
  match existing with
  | some existing =>
    { existing with
      status := status
      updatedAt := now
      detail := detail
      manifestDigest := digest.or existing.manifestDigest }
  | none =>
    { id := id
      repo := params.repoName
      recipe := params.recipe
      recipeRevision := recipeRevision
      inputKey := inputKey
      requestedSource := params.requested
      status := status
      createdAt := now
      updatedAt := now
      detail := detail
      manifestDigest := digest }

def upsertEntry (job : Job) (site : Site) (id : String) (params : PrepareParams)
    (inputKey : String) (status : ReleaseStatus) (detail digest : Option String) :
    Op ReleaseIndexEntry := do
  let home ← Prog.read
  let entry := entryFor (home.registry.get id) id params inputKey status detail digest
    (job.now site)
  Prog.perform (job.fault site) (Home.upsert entry)
  pure entry

def tamperedError (id : String) : String :=
  "release " ++ id ++ " content no longer matches its recorded manifest digest " ++
    "(tampered or corrupted); refusing to treat it as valid or rebuild over it"

def missingError (id : String) : String :=
  "release " ++ id ++ " is recorded as prepared but its manifest is missing " ++
    "(deleted, or never durably published); refusing to silently rebuild " ++
    "under the same identity — this requires operator investigation"

def quarantine (job : Job) (site : Site) (id : String) : Op PUnit :=
  Prog.perform (job.fault site) (Home.moveAside id (job.quarantineDir site))

/-- What `prepare` does with a manifest it could load. -/
def adopt (host : Host) (params : PrepareParams) (job : Job) (id inputKey : String)
    (existing : Option ReleaseIndexEntry) (dir : Option Dir) (manifest : ReleaseManifest) :
    Op (Option PrepareOutcome) :=
  match existing with
  | some entry =>
    if verifyContent host entry dir manifest then do
      let entry' ← upsertEntry job .reuse id params inputKey .prepared none entry.manifestDigest
      pure (some ⟨entry', manifest, entry.status = .prepared⟩)
    else if entry.status = .prepared then Prog.fail (tamperedError id)
    else do
      quarantine job .quarantine id
      pure none
  | none => do
    quarantine job .quarantine id
    pure none

/-- The block of `prepare` under `manifest_path.is_file()`: the outcome when the manifest on the
disk is adopted. -/
def reuse (host : Host) (params : PrepareParams) (job : Job) (id inputKey : String)
    (existing : Option ReleaseIndexEntry) : Op (Option PrepareOutcome) := do
  let home ← Prog.read
  match readFile (home.releases id) "manifest.json" with
  | none => pure none
  | some bytes => do
    Prog.check (job.fault .readManifest)
    let manifest ← Prog.ofExcept (loadManifest host (manifestPath host id) bytes)
    adopt host params job id inputKey existing (home.releases id) manifest

/-- `write_binary_durably` for each expected name, with the artifact recorded for it. -/
def copyBinaries (host : Host) (job : Job) (id : String) :
    List String → Table String BinaryArtifact → Op (Table String BinaryArtifact)
  | [], binaries => pure binaries
  | name :: names, binaries => do
    let bytes ← Prog.ofExcept (job.target name)
    Prog.writeOut (job.fault (.binary name)) bytes fun bs => Home.setNode id name (some (.file bs))
    copyBinaries host job id names (binaries.set name ⟨host.sha256 bytes, bytes.length⟩)

def runSmokeChecks (job : Job) (names : List String) : Except String (List CheckEvidence) :=
  names.mapM job.smoke

def enforcementNote (admission : Option HostAdmissionBounds) : String :=
  if admission.isSome then
    "process-wide single-flight lock on release.prepare; participates in the " ++
      "HostVerificationAdmission aggregate cap (see host_admission below) at its " ++
      "own configured weight; still not a host-wide CPU quota and not an " ++
      "immutable-execution guarantee — nice/jobs bounds remain process-local only"
  else
    "process-wide single-flight lock on release.prepare; not a " ++
      "host-wide CPU quota, not the HostVerificationAdmission cap, and not an " ++
      "immutable-execution guarantee"

def manifestFor (params : PrepareParams) (job : Job) (id toolchain : String)
    (provenance : ConfigProvenance) (binaries : Table String BinaryArtifact)
    (checks : List CheckEvidence) : ReleaseManifest where
  schemaVersion := schemaVersion
  id := id
  repo := params.repoName
  recipe := recipePairedRkMcp
  recipeRevision := recipeRevision
  source := ⟨params.requested, params.resolvedCommit, params.treeSha⟩
  toolchain := toolchain
  binaries := binaries
  recipeBounds := ⟨cargoBuildJobs, niceLevel, buildTimeout, enforcementNote job.admission,
    job.admission⟩
  configProvenance := provenance
  checks := checks
  createdAt := job.now .smokeHome

def clearPartial (job : Job) (id : String) : Op PUnit := do
  let home ← Prog.read
  if (home.releases id).isSome then quarantine job .quarantinePartial id
  else pure ⟨⟩

def runRecipe (host : Host) (params : PrepareParams) (job : Job) (id : String)
    (provenance : ConfigProvenance) : Op ReleaseManifest := do
  let toolchain ← Prog.ofExcept job.build
  clearPartial job id
  Prog.perform (job.fault .releaseDir) (Home.createDir id)
  let binaries ← copyBinaries host job id expectedBinaryNames Table.empty
  Prog.check (job.fault .syncBinaries)
  Prog.check (job.fault .smokeHome)
  let checks ← Prog.ofExcept (runSmokeChecks job expectedBinaryNames)
  pure (manifestFor params job id toolchain provenance binaries checks)

def tmpName (pid : Nat) : String := ".manifest-" ++ toString pid ++ ".tmp"

theorem tmpName_not_expected (pid : Nat) : tmpName pid ∉ expectedBinaryNames := by
  have hdot : (tmpName pid).toList.head? = some '.' := by simp [tmpName]
  intro h
  rcases List.mem_pair.mp h with hrk | hmcp
  · rw [hrk] at hdot
    exact absurd hdot (by decide)
  · rw [hmcp] at hdot
    exact absurd hdot (by decide)

def publishError (host : Host) (id : String) (e : String) : String :=
  "failed to publish manifest at " ++ manifestPath host id ++ ": " ++ e

/-- `std::fs::hard_link` of the complete temporary file, which never replaces a manifest. -/
def linkManifest (host : Host) (job : Job) (id : String) (bytes : Bytes) : Op PUnit := do
  let home ← Prog.read
  if ((home.releases id).bind fun dir => dir "manifest.json").isSome then
    Prog.fail (publishError host id "File exists (os error 17)")
  else
    Prog.perform (job.fault .manifestLink) (Home.setNode id "manifest.json" (some (.file bytes)))

/-- The outcome of the link is reported after the temporary file is removed, whether or not that
could be done. -/
def writeManifestNew (host : Host) (job : Job) (id : String) (manifest : ReleaseManifest) :
    Op PUnit := do
  let bytes := host.toVecPretty manifest
  Prog.writeOut (job.fault .manifestTmp) bytes fun bs =>
    Home.setNode id (tmpName job.pid) (some (.file bs))
  let result ← (linkManifest host job id bytes).attempt
  let _ ← (Prog.perform (job.fault .manifestUnlink) (Home.setNode id (tmpName job.pid) none) :
    Op PUnit).attempt
  Prog.ofExcept result
  Prog.check (job.fault .manifestSync)

def publishPreparedRelease (host : Host) (params : PrepareParams) (job : Job)
    (id inputKey : String) (manifest : ReleaseManifest) : Op ReleaseIndexEntry := do
  let digest := manifestDigest host manifest
  let _ ← upsertEntry job .commitDigest id params inputKey .preparing none (some digest)
  writeManifestNew host job id manifest
  upsertEntry job .promote id params inputKey .prepared none (some digest)

def unsupportedRecipe (recipe : String) : String :=
  "unsupported recipe '" ++ recipe ++ "': only '" ++ recipePairedRkMcp ++ "' is available"

def rebuild (host : Host) (params : PrepareParams) (job : Job) (id inputKey : String)
    (provenance : ConfigProvenance) : Op PrepareOutcome := do
  let _ ← upsertEntry job .intent id params inputKey .preparing none none
  let built ← (runRecipe host params job id provenance).attempt
  match built with
  | .ok manifest => do
    let entry ← publishPreparedRelease host params job id inputKey manifest
    pure ⟨entry, manifest, false⟩
  | .error e => do
    let _ ← upsertEntry job .markFailed id params inputKey .failed (some e) none
    Prog.fail e

def recordedPrepared (existing : Option ReleaseIndexEntry) : Bool :=
  existing.any fun e => e.status = .prepared

def prepareUnder (host : Host) (params : PrepareParams) (job : Job) (id inputKey : String)
    (provenance : ConfigProvenance) : Op PrepareOutcome := do
  Prog.check (job.fault .loadRegistry)
  let home ← Prog.read
  let existing := home.registry.get id
  let reused ← reuse host params job id inputKey existing
  match reused with
  | some outcome => pure outcome
  | none =>
    if recordedPrepared existing then Prog.fail (missingError id)
    else rebuild host params job id inputKey provenance

def prepare (host : Host) (params : PrepareParams) (job : Job) : Op PrepareOutcome := do
  if params.recipe ≠ recipePairedRkMcp then Prog.fail (unsupportedRecipe params.recipe)
  else do
    let provenance ← Prog.ofExcept job.configProvenance
    prepareUnder host params job (idOf host params) (inputKeyOf host params)
      { provenance with knownVerification := params.knownVerification }

end RatKingdom.Release
