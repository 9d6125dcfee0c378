import SimpleSandbox.Secrets
import SimpleSandbox.MacMechanism
import SimpleSandbox.PodmanMechanism

/-!
# The command line

The commands of `ssbx` (`crates/ssbx/src/main.rs`) as programs over the world.  A
`Machine` holds what is the same for every process of one store: the operating
system, the configured root directory and the packages the program is linked with.
A `ProcessEnv` holds what one process finds: its directory and variables, the answers
of the engine and of spawned children, the drawn ids and the file operations that
fail.  Every command opens the store first.
-/

namespace SimpleSandbox

open RustText OsPath Effect

structure Machine where
  os : HostOs
  root : PathBuf
  ext : Externals

structure ProcessEnv where
  faults : Faults
  lookupFaults : Faults                     -- those of the lookup before the main operation
  secretDir : Except String PathBuf         -- `current_dir()` at secret resolution
  workdir : Except String PathBuf           -- `current_dir()` at the request
  secretHost : SecretHost
  inheritedPort : Option String             -- `SSBX_PROXY_PORT` as inherited
  startProxy : Except String UInt16         -- `start_allowlist_proxy`: the bound port
  canonicalize : PathBuf → Option PathBuf
  pathExists : PathBuf → Bool
  engine : Engine
  sandboxExec : Option PathBuf
  tempFile : Except String PathBuf
  dirsFallback : PathBuf
  spawn : ChildSpec → Except String ExitStatus
  uuid : String
  insertUuid : String
  now : ℕ
  runName : String                          -- `run-` and the time in hexadecimal

inductive CliError where
  | policy (e : PolicyError)
  | state (e : StateError)
  | secret (e : SecretError)
  | mechanism (e : MechanismError)
  | io (message : String)
  | proxy (message : String)
deriving DecidableEq

/-- The options that select and override a policy.  `file` is what the YAML parser
    makes of the `--policy` file. -/
structure PolicyArgs where
  file : Option (Except PolicyError SandboxPolicy) := none
  mechanism : Option MechanismKind := none
  cpus : Option F64 := none
  memory : Option String := none

inductive Command where
  | create (name : Option String) (args : PolicyArgs)
  | run (name : Option String) (args : PolicyArgs) (command : List String)
  | exec (name : Option String) (command : List String)
  | shell (name : Option String)
  | policyGet (name : Option String)
  | policySet (name : Option String) (file : Except PolicyError SandboxPolicy)
  | ls
  | rm (name : String)
  | logs (name : Option String)
  | doctor

/-! ## Preparing a request -/

/-- `SandboxPolicy::load_file` -/
def loadFile (file : Except PolicyError SandboxPolicy) : Except PolicyError SandboxPolicy := do
  let p ← file
  p.validate
  pure p

/-- `load_policy` -/
def loadPolicy (args : PolicyArgs) : Except PolicyError SandboxPolicy := do
  let base ← match args.file with
    | some file => loadFile file
    | none => pure SandboxPolicy.restrictiveDefault
  let policy := { base with
    resources := {
      cpus := args.cpus.getD base.resources.cpus
      memory := args.memory.getD base.resources.memory }
    mechanism := args.mechanism.orElse fun _ => base.mechanism }
  policy.validate
  pure policy

/-- `maybe_start_proxy`, as the value of `SSBX_PROXY_PORT` it leaves. -/
def maybeStartProxy (env : ProcessEnv) (policy : SandboxPolicy) : Except CliError (Option String) :=
  if policy.network.mode = .allowlist then
    match env.startProxy with
    | .ok port => .ok (some (decimal port.toNat))
    | .error e => .error (.proxy e)
  else .ok env.inheritedPort

/-- What `create` and `run` have settled before they call the mechanism. -/
structure Prepared where
  kind : MechanismKind
  request : CreateRequest
  proxyPort : Option String

/-- The common first half of `cmd_create` and `cmd_run`: policy, mechanism, preflight,
    secrets, proxy and request. -/
def prepare (M : Machine) (env : ProcessEnv) (name : String) (args : PolicyArgs)
    (choose : MechanismKind → MechanismKind) (ephemeral : Bool) (command : List String) :
    Except CliError Prepared := do
  let loaded ← (loadPolicy args).mapError .policy
  let kind := choose (resolveMechanism M.os loaded.mechanismOrAuto)
  let policy := { loaded with mechanism := some kind }
  (preflight M.ext policy {}).mapError .policy
  let secretDir ← env.secretDir.mapError .io
  let secrets ← (resolveSecrets env.secretHost policy.secrets secretDir).mapError .secret
  let pairs ← (secrets.toEnvPairs env.secretHost).mapError .secret
  let proxyPort ← maybeStartProxy env policy
  let workdir ← env.workdir.mapError .io
  pure { kind, proxyPort, request := { name, policy, workdir, ephemeral, command, env := pairs } }

/-! ## Mechanisms by kind -/

def ProcessEnv.mechHost (env : ProcessEnv) (M : Machine) (proxyPort : Option String) : MechHost where
  os := M.os
  toYaml := M.ext.toYaml
  faults := env.faults
  canonicalize := env.canonicalize
  pathExists := env.pathExists
  proxyPort := proxyPort
  engine := env.engine
  sandboxExec := env.sandboxExec
  tempFile := env.tempFile
  dirsFallback := env.dirsFallback
  spawn := env.spawn

def Machine.store (M : Machine) : Store := { root := M.root }

def Machine.mac (M : Machine) : MacMechanism := { stateDir := some (join M.root (osString "mac")) }

/-- `mech_box(kind, ..).create` -/
def mechCreate (M : Machine) (h : MechHost) (kind : MechanismKind) (req : CreateRequest) :
    Effect World MechanismError CreateResult :=
  match resolveMechanism M.os kind with
  | .podman | .auto => PodmanMechanism.create {} h req
  | .mac => M.mac.create h req
  | .krun => fail (.notImplemented "linux_libkrun is a stub in v1; use podman or mac")

/-- `mech_box(kind, ..).exec` -/
def mechExec (M : Machine) (h : MechHost) (kind : MechanismKind) (req : ExecRequest) :
    Effect World MechanismError ExitStatus :=
  match resolveMechanism M.os kind with
  | .podman | .auto => lift (PodmanMechanism.exec {} h req)
  | .mac => MacMechanism.exec h req
  | .krun => fail (.notImplemented "linux_libkrun is a stub in v1")

/-- `mech_box(kind, ..).remove` -/
def mechRemove (M : Machine) (h : MechHost) (kind : MechanismKind) (runtimeId : String) :
    Effect World MechanismError Unit :=
  match resolveMechanism M.os kind with
  | .podman | .auto => PodmanMechanism.remove {} h runtimeId
  | .mac => MacMechanism.remove h runtimeId
  | .krun => fail (.notImplemented "linux_libkrun is a stub in v1")

/-! ## Commands -/

/-- What `cmd_create` does with a prepared request. -/
def createPrepared (M : Machine) (env : ProcessEnv) (name : String) (p : Prepared) :
    Effect World CliError Unit := do
  let result ← (mechCreate M (env.mechHost M p.proxyPort) p.kind p.request).mapError .mechanism
  let record ← lift ((Store.newRecord M.ext env.uuid env.now name p.kind result.runtimeId
    p.request.policy p.request.workdir false result.proxyPort).mapError .state)
  let record := { record with logPath := some (M.store.logPathFor name) }
  let _ ← (M.store.savePolicy M.ext env.faults name p.request.policy).mapError .state
  let _ ← (M.store.insert env.faults record env.insertUuid).mapError .state
  pure ()

/-- The name `create` uses. -/
def createName (name : Option String) : String := name.getD "default"

def cmdCreate (M : Machine) (env : ProcessEnv) (name : Option String) (args : PolicyArgs) :
    Effect World CliError Unit := do
  let p ← lift (prepare M env (createName name) args id false [])
  createPrepared M env (createName name) p

/-- `prefer_available` -/
def preferAvailable (M : Machine) (env : ProcessEnv) (kind : MechanismKind) : MechanismKind :=
  let kind := resolveMechanism M.os kind
  let engineOk := env.engine.binary.isSome && env.engine.usable.isOk
  if kind = .podman ∧ engineOk = false ∧ M.os = .macos then .mac else kind

/-- The exit code is the low byte of the child's. -/
def cmdRun (M : Machine) (env : ProcessEnv) (name : Option String) (args : PolicyArgs)
    (command : List String) : Effect World CliError ℕ := do
  let name := name.getD env.runName
  let p ← lift (prepare M env name args (preferAvailable M env) true command)
  let result ← (mechCreate M (env.mechHost M p.proxyPort) p.kind p.request).mapError .mechanism
  pure (result.exitCode.getD 0 % 256)

def cmdExec (M : Machine) (env : ProcessEnv) (name : Option String) (command : List String) :
    Effect World CliError ℕ := do
  let record ← (M.store.getOrLast env.lookupFaults name).mapError .state
  (M.store.touchLastUsed env.faults record.name).mapError .state
  let req : ExecRequest := {
    name := record.name, runtimeId := record.runtimeId, command, env := [], tty := true
    cwd := some "/workspace" }
  let status ← (mechExec M (env.mechHost M env.inheritedPort) record.mechanism req).mapError .mechanism
  pure (status.code.getD 1 % 256)

/-- `shell` looks the record up once more, to choose the shell. -/
def cmdShell (M : Machine) (env : ProcessEnv) (name : Option String) : Effect World CliError ℕ := do
  let record ← (M.store.getOrLast env.lookupFaults name).mapError .state
  let command :=
    if record.mechanism = .podman then ["sh", "-i"]
    else if M.os = .macos then ["/bin/zsh", "-i"]
    else ["/bin/sh", "-i"]
  cmdExec M env name command

def cmdPolicyGet (M : Machine) (env : ProcessEnv) (name : Option String) :
    Effect World CliError SandboxPolicy := do
  let record ← (M.store.getOrLast env.lookupFaults name).mapError .state
  (M.store.loadPolicy env.faults record.name).mapError .state

def cmdPolicySet (M : Machine) (env : ProcessEnv) (name : Option String)
    (file : Except PolicyError SandboxPolicy) : Effect World CliError Unit := do
  let record ← (M.store.getOrLast env.lookupFaults name).mapError .state
  let p ← lift ((loadFile file).mapError .policy)
  lift ((preflight M.ext p {}).mapError .policy)
  (M.store.updatePolicy M.ext env.faults record.name p).mapError .state

def cmdRm (M : Machine) (env : ProcessEnv) (name : String) : Effect World CliError Unit := do
  let record ← (M.store.remove env.faults name).mapError .state
  (mechRemove M (env.mechHost M env.inheritedPort) record.mechanism record.runtimeId).mapError .mechanism

/-- The records `ls` prints. -/
def cmdLs (M : Machine) (env : ProcessEnv) : Effect World CliError (List SandboxRecord) :=
  (M.store.list env.faults).mapError .state

/-- `logs` reads from the engine only; the mac backend has none. -/
def cmdLogs (M : Machine) (env : ProcessEnv) (name : Option String) : Effect World CliError Unit := do
  let record ← (M.store.getOrLast env.lookupFaults name).mapError .state
  if resolveMechanism M.os record.mechanism = .podman then
    let _ ← lift ((PodmanMechanism.runtimeBin {} (env.mechHost M env.inheritedPort)).mapError
      .mechanism)
    pure ()
  else pure ()

/-- `run`, after the arguments are parsed: the process exit code or an error. -/
def execute (M : Machine) (env : ProcessEnv) : Command → Effect World CliError ℕ
  | .create name args => do cmdCreate M env name args; pure 0
  | .run name args command => cmdRun M env name args command
  | .exec name command => cmdExec M env name command
  | .shell name => cmdShell M env name
  | .policyGet name => do let _ ← cmdPolicyGet M env name; pure 0
  | .policySet name file => do cmdPolicySet M env name file; pure 0
  | .ls => do let _ ← cmdLs M env; pure 0
  | .rm name => do cmdRm M env name; pure 0
  | .logs name => do cmdLogs M env name; pure 0
  | .doctor => pure 0

/-- One process of `ssbx`. -/
def ssbx (M : Machine) (env : ProcessEnv) (cmd : Command) : Effect World CliError ℕ := do
  let _ ← (Store.openAt M.root env.faults).mapError .state
  execute M env cmd

end SimpleSandbox
