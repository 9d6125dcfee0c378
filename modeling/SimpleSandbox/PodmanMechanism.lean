import SimpleSandbox.Mechanism

/-!
# The podman mechanism

`PodmanMechanism` of `sandbox-mech-podman`: the `run` command line of a request, its
rewriting for the allowlist mode, and the calls of the engine that create, enter and
remove a container.
-/

namespace SimpleSandbox

open RustText OsPath Effect

/-- `DEFAULT_IMAGE` -/
def defaultImage : String := "docker.io/library/alpine:3.20"

structure PodmanMechanism where
  binary : Option PathBuf := none
  image : String := defaultImage

/-- `container_name` -/
def containerName (name : String) : String := "ssbx-" ++ name

/-- `mount_spec` -/
def mountSpec (h : MechHost) (policyPath : String) (workdir : PathBuf) (readOnly : Bool) :
    Option String :=
  -- guest paths under /workspace are already mounted
  if startsWith policyPath "/workspace" then none
  else
    let p := osString policyPath
    let host := if isAbsolute p then p else join workdir p
    if !h.pathExists host then none
    else
      let mode := if readOnly then "ro" else "rw"
      (fileName host).map fun name => display host ++ ":/mnt/" ++ display name ++ ":" ++ mode

namespace PodmanMechanism

def runtimeBin (m : PodmanMechanism) (h : MechHost) : Except MechanismError PathBuf :=
  match m.binary with
  | some b => .ok b
  | none =>
    match h.engine.binary with
    | some b => .ok b
    | none => .error (.unavailable
        "neither podman nor docker found on PATH (install Podman Machine or Colima)")

/-- The workspace bind and its `-w`. -/
def workdirArgs (h : MechHost) (req : CreateRequest) : List String :=
  if req.policy.filesystem.workdir then
    ["-v", display ((h.canonicalize req.workdir).getD req.workdir) ++ ":/workspace:rw",
     "-w", "/workspace"]
  else []

/-- Extra read-only mounts, then extra read-write mounts. -/
def mountArgs (h : MechHost) (req : CreateRequest) : List String :=
  let spec (readOnly : Bool) (p : String) : List String :=
    match mountSpec h p req.workdir readOnly with
    | some s => ["-v", s]
    | none => []
  req.policy.filesystem.readOnly.flatMap (spec true) ++
  req.policy.filesystem.readWrite.flatMap (fun p =>
    if p = "/workspace" ∨ p = "/tmp" then [] else spec false p)

def envArgs (env : List (String × String)) : List String :=
  env.flatMap fun (k, v) => ["-e", k ++ "=" ++ v]

/-- The command of the container; a persistent one sleeps forever. -/
def commandArgs (req : CreateRequest) : List String :=
  if req.command = [] then ["sleep", "infinity"] else req.command

/-- The tokens of `build_run_args` that stand before the image. -/
def optionArgs (h : MechHost) (req : CreateRequest) (name : String) (detach : Bool) (mem : ℕ) :
    List String :=
  ["run", if detach then "-d" else "--rm", "--name", containerName name,
   "--cpus=" ++ req.policy.resources.cpus.display, "--memory=" ++ decimal mem] ++
  (match req.policy.network.mode with
   | .none | .allowlist => ["--network", "none"]
   | .unrestricted => []) ++
  workdirArgs h req ++
  mountArgs h req ++
  ["--tmpfs", "/tmp:rw,size=64m"] ++
  envArgs req.env ++
  (if req.policy.network.mode = .allowlist ∧ h.proxyPort.isSome then
     ["--add-host", "host.docker.internal:host-gateway"]
   else [])

/-- `build_run_args` -/
def buildRunArgs (m : PodmanMechanism) (h : MechHost) (req : CreateRequest) (name : String)
    (detach : Bool) : Except MechanismError (List String) := do
  let mem ← req.policy.resources.memoryBytes.mapError fun e => .message e.text
  pure (optionArgs h req name detach mem ++ m.image :: commandArgs req)

/-- The loop that removes `--network` and the token after it. -/
def dropNetwork : List String → List String
  | [] => []
  | a :: rest =>
    if a = "--network" then
      match rest with
      | [] => []
      | _ :: rest => dropNetwork rest
    else a :: dropNetwork rest

/-- Two `Vec::insert` calls: `-e` and its value. -/
def insertPair (pos : ℕ) (args : List String) (value : String) : List String :=
  (args.insertIdx pos "-e").insertIdx (pos + 1) value

/-- The insertions of `build_allowlist_args`: at 1 and 2, then ten times at the position of
    the image. -/
def insertAllowlist (m : PodmanMechanism) (h : MechHost) (args : List String) : List String :=
  let args := (args.insertIdx 1 "--add-host").insertIdx 2 "host.docker.internal:host-gateway"
  match h.proxyPort with
  | none => args
  | some port =>
    let url := "http://host.docker.internal:" ++ port
    let imgPos := (args.findIdx? (· == m.image)).getD args.length
    ["HTTPS_PROXY=" ++ url, "HTTP_PROXY=" ++ url, "https_proxy=" ++ url,
      "http_proxy=" ++ url, "NO_PROXY=localhost,127.0.0.1"].foldl (insertPair imgPos) args

/-- The request with its network mode replaced. -/
def unrestricted (req : CreateRequest) : CreateRequest :=
  { req with policy :=
    { req.policy with network := { req.policy.network with mode := .unrestricted } } }

/-- `build_allowlist_args` -/
def buildAllowlistArgs (m : PodmanMechanism) (h : MechHost) (req : CreateRequest) (name : String)
    (detach : Bool) : Except MechanismError (List String) := do
  let args ← m.buildRunArgs h (unrestricted req) name detach
  pure (m.insertAllowlist h (dropNetwork args))

/-- The arguments `create` hands to the engine. -/
def createArgs (m : PodmanMechanism) (h : MechHost) (req : CreateRequest) :
    Except MechanismError (List String) := do
  let args ← m.buildRunArgs h req req.name (!req.ephemeral)
  if req.policy.network.mode = .allowlist then
    m.buildAllowlistArgs h req req.name (!req.ephemeral)
  else pure args

/-- A container that exists from now on. -/
def addContainer (id name : String) (w : World) : World :=
  { w with containers := w.containers ++ [{ id, name }] }

/-- A failed `run` may leave a container behind. -/
def leaveBehind (name : String) : Option String → Effect World MechanismError Unit
  | some id => update (addContainer id (containerName name))
  | none => pure ()

/-- A detached `run`.  The engine prints the id of the container it started. -/
def runDetached (h : MechHost) (name : String) (args : List String) :
    Effect World MechanismError String := do
  match h.engine.run args with
  | .notStarted e => fail (.message e)
  | .failed stderr left =>
    leaveBehind name left
    fail (.message ("create failed: " ++ stderr))
  | .started stdout =>
    update (addContainer (trim stdout) (containerName name))
    pure (trim stdout)

/-- `runtime_ok`: the architecture of the engine.  The error is a message if `ps -q` cannot be
    executed, and `unavailable` if it fails. -/
def runtimeOk (m : PodmanMechanism) (h : MechHost) : Except MechanismError String := do
  let _ ← m.runtimeBin h
  h.engine.usable

theorem runtimeOk_of_runtimeBin {m : PodmanMechanism} {h : MechHost} {bin : PathBuf}
    (hbin : m.runtimeBin h = .ok bin) : m.runtimeOk h = h.engine.usable := by
  rw [runtimeOk, hbin]
  rfl

def create (m : PodmanMechanism) (h : MechHost) (req : CreateRequest) :
    Effect World MechanismError CreateResult := do
  let _ ← lift (m.runtimeBin h)
  let _ ← lift (m.runtimeOk h)
  let args ← lift (m.createArgs h req)
  if req.ephemeral then
    let status ← lift ((h.engine.runAttached args).mapError .message)
    pure {
      name := req.name, mechanism := .podman, runtimeId := "ephemeral:" ++ req.name,
      proxyPort := h.reportedPort, logPath := none, exitCode := status.code }
  else
    let id ← runDetached h req.name args
    pure {
      name := req.name, mechanism := .podman,
      runtimeId := if id = "" then containerName req.name else id,
      proxyPort := h.reportedPort, logPath := none, exitCode := none }

def exec (m : PodmanMechanism) (h : MechHost) (req : ExecRequest) :
    Except MechanismError ExitStatus := do
  let _ ← m.runtimeBin h
  let cname :=
    if startsWith req.runtimeId "ssbx-" || decide (12 ≤ req.runtimeId.utf8ByteSize) then
      req.runtimeId
    else containerName req.name
  let args := ["exec"] ++ (if req.tty then ["-it"] else []) ++ envArgs req.env ++
    (match req.cwd with
     | some cwd => ["-w", cwd]
     | none => []) ++
    [cname] ++ (if req.command = [] then ["sh"] else req.command)
  (h.engine.exec args).mapError .message

/-- `rm -f key` succeeded. -/
def dropContainer (key : String) (w : World) : World :=
  { w with containers := w.containers.filter fun c => !c.answersTo key }

def remove (m : PodmanMechanism) (h : MechHost) (runtimeId : String) :
    Effect World MechanismError Unit := do
  let _ ← lift (m.runtimeBin h)
  if startsWith runtimeId "ephemeral:" then pure ()
  else
    match h.engine.rm runtimeId with
    | .notStarted e => fail (.message e)
    | .removed => update (dropContainer runtimeId)
    | .failed second =>
      -- also try ssbx- prefixed; the outcome is not looked at
      if second then update (dropContainer ("ssbx-" ++ runtimeId)) else pure ()

end PodmanMechanism

end SimpleSandbox
