import SimpleSandbox.World

/-!
# The instance store

`Store` of `sandbox-core/src/state.rs`: `index.json` and the directory `policies/`
under one root.  Each operation loads the whole index, changes it by the pure part
given in `State` and saves the whole index again.
-/

namespace SimpleSandbox

open OsPath FileSystem Effect

structure Store where
  root : PathBuf

namespace Store

def indexPath (st : Store) : PathBuf := join st.root (osString "index.json")

/-- `root/policies/{name}.yaml` -/
def policyPath (st : Store) (name : String) : PathBuf :=
  join (join st.root (osString "policies")) (osString (name ++ ".yaml"))

def logPathFor (st : Store) (name : String) : PathBuf :=
  join (join st.root (osString "logs")) (osString (name ++ ".log"))

def loadIndex (st : Store) (f : Faults) : Effect World StateError SandboxState := do
  match ← (World.readFile f .loadIndex st.indexPath).mapError .io with
  | .index s => pure s
  | _ => fail .json

def writeIndex (st : Store) (f : Faults) (site : Site) (s : SandboxState) :
    Effect World StateError Unit :=
  if s.serializable then (World.writeFile f site st.indexPath (.index s)).mapError .io
  else fail .json

def saveIndex (st : Store) (f : Faults) (s : SandboxState) : Effect World StateError Unit :=
  st.writeIndex f .saveIndex s

/-- `Store::open` -/
def openAt (root : PathBuf) (f : Faults) : Effect World StateError Store := do
  (World.createDirAll f .openRoot root).mapError .io
  (World.createDirAll f .openSandboxes (join root (osString "sandboxes"))).mapError .io
  (World.createDirAll f .openLogs (join root (osString "logs"))).mapError .io
  (World.createDirAll f .openPolicies (join root (osString "policies"))).mapError .io
  let store : Store := { root }
  let w ← state
  if w.fs.pathExists store.indexPath = false then
    store.writeIndex f .openIndex {}
  pure store

def list (st : Store) (f : Faults) : Effect World StateError (List SandboxRecord) := do
  pure (← st.loadIndex f).sandboxes

def get (st : Store) (f : Faults) (name : String) : Effect World StateError SandboxRecord := do
  lift ((← st.loadIndex f).get name)

def getOrLast (st : Store) (f : Faults) (name : Option String) :
    Effect World StateError SandboxRecord := do
  lift ((← st.loadIndex f).getOrLast name)

/-- `uuid` is what `Uuid::new_v4` returns if the record has no id. -/
def insert (st : Store) (f : Faults) (record : SandboxRecord) (uuid : String) :
    Effect World StateError SandboxRecord := do
  let s ← st.loadIndex f
  let (record, s') ← lift (s.insert record uuid)
  st.saveIndex f s'
  pure record

/-- A policy error as `std::io::Error::other(e.to_string())`. -/
def policyError (e : PolicyError) : StateError := .io (.other e.text)

def savePolicy (st : Store) (ext : Externals) (f : Faults) (name : String) (p : SandboxPolicy) :
    Effect World StateError PathBuf := do
  let _ ← lift ((ext.toYaml p).mapError fun m => policyError (.yaml m))
  (World.writeFile f .savePolicy (st.policyPath name) (.policy p)).mapError .io
  pure (st.policyPath name)

/-- `Store::load_policy`: the file is parsed and validated. -/
def loadPolicy (st : Store) (f : Faults) (name : String) :
    Effect World StateError SandboxPolicy := do
  match ← (World.readFile f .loadPolicy (st.policyPath name)).mapError .io with
  | .policy p =>
    lift (p.validate.mapError policyError)
    pure p
  | _ => fail (policyError (.yaml "not a policy"))

def updatePolicy (st : Store) (ext : Externals) (f : Faults) (name : String) (p : SandboxPolicy) :
    Effect World StateError Unit := do
  let hash ← lift ((p.contentHash ext).mapError policyError)
  let _ ← st.savePolicy ext f name p
  let s ← st.loadIndex f
  let s' ← lift (s.updatePolicy name hash)
  st.saveIndex f s'

def remove (st : Store) (f : Faults) (name : String) : Effect World StateError SandboxRecord := do
  let s ← st.loadIndex f
  let (record, s') ← lift (s.remove name)
  st.saveIndex f s'
  let _ ← attempt (World.removeFile f .dropPolicy (st.policyPath record.name))
  pure record

def touchLastUsed (st : Store) (f : Faults) (name : String) : Effect World StateError Unit := do
  let s ← st.loadIndex f
  st.saveIndex f (s.touch name)

/-- `Store::new_record`; `uuid` and `now` are what the generator and the clock return. -/
def newRecord (ext : Externals) (uuid : String) (now : ℕ) (name : String)
    (mechanism : MechanismKind) (runtimeId : String) (p : SandboxPolicy) (workdir : PathBuf)
    (ephemeral : Bool) (proxyPort : Option UInt16) : Except StateError SandboxRecord := do
  let policyHash ← (p.contentHash ext).mapError policyError
  pure {
    id := uuid, name, mechanism, runtimeId, policyHash, workdir, createdAt := now,
    proxyPort, logPath := none, ephemeral }

end Store

end SimpleSandbox
