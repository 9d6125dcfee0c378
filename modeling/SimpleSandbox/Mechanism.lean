import SimpleSandbox.Store

/-!
# Mechanism interface

The request and result types shared by the sandbox backends
(`sandbox-core/src/lib.rs`), and what a backend asks of the host it runs on.
-/

namespace SimpleSandbox

open RustText OsPath

inductive MechanismError where
  | message (text : String)
  | unavailable (text : String)
  | notImplemented (text : String)
deriving DecidableEq

structure CreateRequest where
  name : String
  policy : SandboxPolicy
  workdir : PathBuf
  ephemeral : Bool
  command : List String
  env : List (String × String)

structure CreateResult where
  name : String
  mechanism : MechanismKind
  runtimeId : String
  proxyPort : Option UInt16
  logPath : Option PathBuf
  exitCode : Option ℕ

structure ExecRequest where
  name : String
  runtimeId : String
  command : List String
  env : List (String × String)
  tty : Bool
  cwd : Option String

/-- `std::process::ExitStatus` on Unix, where an exit code is one byte. -/
inductive ExitStatus where
  | exited (code : UInt8)
  | signaled (signal : ℕ)
deriving DecidableEq

/-- `ExitStatus::code` -/
def ExitStatus.code : ExitStatus → Option ℕ
  | .exited code => some code.toNat
  | .signaled _ => none

inductive HostOs where
  | macos
  | linux
  | other
deriving DecidableEq

/-- `resolve_mechanism` -/
def resolveMechanism (os : HostOs) : MechanismKind → MechanismKind
  | .auto =>
    match os with
    | .macos => .podman
    | .linux => .podman
    | .other => .mac
  | kind => kind

/-! ## What a backend asks of its host -/

/-- The answer of the engine to a detached `run`. -/
inductive RunReply where
  | notStarted (message : String)                        -- the engine could not be executed
  | failed (stderr : String) (left : Option String)      -- with the id of a container left behind
  | started (stdout : String)                            -- the id of the new container, or nothing

/-- The answer of the engine to `rm -f id`. -/
inductive RmReply where
  | notStarted (message : String)
  | removed
  | failed (second : Bool)     -- does `rm -f ssbx-{id}` then succeed?
deriving DecidableEq

/-- The container engine, as one process finds it. -/
structure Engine where
  binary : Option PathBuf                     -- `which podman`, else `which docker`
  usable : Except MechanismError String       -- `ps -q` and `version`: the architecture
  run : List String → RunReply
  runAttached : List String → Except String ExitStatus
  rm : String → RmReply
  exec : List String → Except String ExitStatus

/-- The host, as the backends of one process find it.  `proxyPort` is the value of
    `SSBX_PROXY_PORT`. -/
structure MechHost where
  os : HostOs
  toYaml : SandboxPolicy → Except String String   -- `serde_yaml::to_string`
  faults : Faults
  canonicalize : PathBuf → Option PathBuf
  pathExists : PathBuf → Bool
  proxyPort : Option String
  engine : Engine
  sandboxExec : Option PathBuf                -- `which_sandbox_exec`
  tempFile : Except String PathBuf            -- a new temporary file, written and flushed
  dirsFallback : PathBuf                      -- `dirs_fallback`
  spawn : ChildSpec → Except String ExitStatus

/-- `str::parse::<u16>` -/
def parseU16 (s : String) : Option UInt16 :=
  (parseU64 s.toList).bind fun n => if n < 2 ^ 16 then some (UInt16.ofNat n) else none

/-- The proxy port a result reports. -/
def MechHost.reportedPort (h : MechHost) : Option UInt16 := h.proxyPort.bind parseU16

end SimpleSandbox
