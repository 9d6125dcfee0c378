import SimpleSandbox.Mechanism
import SimpleSandbox.Seatbelt

/-!
# The mac mechanism

`MacMechanism` of `sandbox-mech-mac`: a persistent sandbox is an instance directory
with a profile, the working directory and a copy of the policy; its runtime id is
`mac:` followed by the path of the profile, which `exec` and `remove` parse back.
-/

namespace SimpleSandbox

open RustText OsPath Effect

structure MacMechanism where
  stateDir : Option PathBuf

namespace MacMechanism

/-- The environment pairs that point a child at the allowlist proxy. -/
def proxyEnv (h : MechHost) (policy : SandboxPolicy) : List (String × String) :=
  if policy.network.mode = .allowlist then
    match h.proxyPort with
    | some port =>
      let url := "http://127.0.0.1:" ++ port
      [("HTTP_PROXY", url), ("HTTPS_PROXY", url), ("http_proxy", url), ("https_proxy", url),
       ("NO_PROXY", "localhost,127.0.0.1")]
    | none => []
  else []

/-- `spawn_sandboxed`; `profile` is the text the file at `profilePath` holds. -/
def spawnSandboxed (h : MechHost) (profilePath : PathBuf) (profile : Option String)
    (policy : SandboxPolicy) (workdir : PathBuf) (command : List String)
    (env : List (String × String)) : Effect World MechanismError ExitStatus := do
  match h.sandboxExec with
  | none => fail (.unavailable "sandbox-exec not found (macOS only)")
  | some sandboxExec =>
    let argv := [display sandboxExec, "-f", display profilePath] ++
      (if command = [] then ["/bin/zsh", "-i"] else command)
    let child : ChildSpec :=
      { program := argv, profile, policy, workdir, env := env ++ proxyEnv h policy }
    update fun w => { w with children := w.children ++ [child] }
    lift ((h.spawn child).mapError fun e => .message ("sandbox-exec failed: " ++ e))

/-- `base.join("instances").join(&req.name)` -/
def instanceDir (m : MacMechanism) (h : MechHost) (name : String) : PathBuf :=
  join (join (m.stateDir.getD h.dirsFallback) (osString "instances")) (osString name)

/-- An I/O error as `MechanismError::Message(e.to_string())`. -/
def ioMessage (_ : FileSystem.IoError) : MechanismError := .message "i/o error"

/-- The copy of the policy; its failures are ignored. -/
def copyPolicy (h : MechHost) (dir : PathBuf) (policy : SandboxPolicy) :
    Effect World MechanismError Unit :=
  if (h.toYaml policy).isOk then do
    let _ ← attempt (World.writeFile h.faults .writePolicyCopy (join dir (osString "policy.yaml"))
      (.policy policy))
    pure ()
  else pure ()

def create (m : MacMechanism) (h : MechHost) (req : CreateRequest) :
    Effect World MechanismError CreateResult := do
  if h.os ≠ .macos then
    fail (.unavailable "mac_seatbelt requires macOS")
  else
    let profile := generateSeatbeltProfile h.canonicalize req.policy req.workdir
    let profileFile ← lift (h.tempFile.mapError .message)
    if req.ephemeral || !req.command.isEmpty then
      let status ← spawnSandboxed h profileFile (some profile) req.policy req.workdir
        req.command req.env
      pure {
        name := req.name, mechanism := .mac, runtimeId := "mac-ephemeral:" ++ req.name,
        proxyPort := h.reportedPort, logPath := none, exitCode := status.code }
    else
      -- persistent mac sandbox: keep profile on disk for later exec
      let dir := m.instanceDir h req.name
      let profilePath := join dir (osString "profile.sb")
      (World.createDirAll h.faults .createInstance dir).mapError ioMessage
      (World.writeFile h.faults .writeProfile profilePath (.text profile)).mapError ioMessage
      (World.writeFile h.faults .writeWorkdir (join dir (osString "workdir"))
        (.text (display req.workdir))).mapError ioMessage
      copyPolicy h dir req.policy
      pure {
        name := req.name, mechanism := .mac, runtimeId := "mac:" ++ display profilePath,
        proxyPort := h.reportedPort, logPath := none, exitCode := none }

/-- The path of the profile a runtime id names, and its directory. -/
def profileOfRuntime (runtimeId : String) : Except MechanismError (PathBuf × PathBuf) :=
  match stripPrefix runtimeId "mac:" with
  | some path =>
    match parent (osString path) with
    | some dir => .ok (osString path, dir)
    | none => .error (.message "invalid mac runtime id")
  | none => .error (.message ("not a mac runtime id: " ++ runtimeId))

/-- `parse_mac_runtime` -/
def parseMacRuntime (h : MechHost) (runtimeId : String) :
    Effect World MechanismError (PathBuf × PathBuf) := do
  let (profilePath, dir) ← lift (profileOfRuntime runtimeId)
  match ← attempt (World.readFile h.faults .readWorkdir (join dir (osString "workdir"))) with
  | .ok (.text workdir) => pure (profilePath, osString workdir)
  | _ => pure (profilePath, osString ".")

/-- The policy copy that stands beside a profile. -/
def readCopy (h : MechHost) (profilePath : PathBuf) :
    Effect World MechanismError (Except FileSystem.IoError FileData) :=
  match parent profilePath with
  | some dir => attempt (World.readFile h.faults .readPolicyCopy (join dir (osString "policy.yaml")))
  | none => pure (.error .notFound)

def exec (h : MechHost) (req : ExecRequest) : Effect World MechanismError ExitStatus := do
  let (profilePath, workdir) ← parseMacRuntime h req.runtimeId
  let copy ← readCopy h profilePath
  let policy := match copy with
    | .ok (.policy p) => p
    | _ => {}
  let w ← state
  let profile := match w.fs.read profilePath with
    | .ok (.text contents) => some contents
    | _ => none
  spawnSandboxed h profilePath profile policy workdir req.command req.env

/-- Failures of the deletion are ignored. -/
def remove (h : MechHost) (runtimeId : String) : Effect World MechanismError Unit := do
  match ← attempt (parseMacRuntime h runtimeId) with
  | .ok (profilePath, _) =>
    match parent profilePath with
    | some dir =>
      let _ ← attempt (World.removeDirAll h.faults .removeInstance dir)
      pure ()
    | none => pure ()
  | .error (_ : MechanismError) => pure ()

end MacMechanism

end SimpleSandbox
