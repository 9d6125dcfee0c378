import SimpleSandbox.Policy

/-!
# Seatbelt profiles

`generate_seatbelt_profile` of the mac mechanism: the deny-by-default profile text
that `sandbox-exec` reads.  Paths are put between double quotes as they are
displayed.
-/

namespace SimpleSandbox

open RustText OsPath

/-- System paths needed to run binaries. -/
def systemPaths : List String :=
  ["/usr", "/bin", "/sbin", "/System", "/Library", "/private/var/db", "/dev", "/private/tmp",
   "/tmp", "/etc", "/private/etc", "/Applications"]

/-- The temp roots that are always writable. -/
def tempPaths : List String := ["/tmp", "/private/tmp", "/var/folders", "/private/var/folders"]

def headerLines : List String :=
  ["(version 1)", "(deny default)", "(allow process*)", "(allow sysctl*)", "(allow mach*)",
   "(allow ipc*)", "(allow signal)", "(allow file-read-metadata)"]

/-- `(allow OPERATION (FILTER "PATH"))` -/
def pathLine (operation filter path : String) : String :=
  "(allow " ++ operation ++ " (" ++ filter ++ " \"" ++ path ++ "\"))"

def readLine (path : String) : String := pathLine "file-read*" "subpath" path

def writeLine (path : String) : String := pathLine "file-write*" "subpath" path

def deviceLines : List String :=
  [pathLine "file-read*" "literal" "/", pathLine "file-ioctl" "literal" "/dev/null",
   pathLine "file-write*" "literal" "/dev/null",
   pathLine "file-write*" "literal" "/dev/dtracehelper"]

def networkLines : NetworkMode → List String
  | .none => ["(deny network*)"]
  | .allowlist =>
    -- only localhost (the userspace proxy); host allowlisting is the proxy's job
    ["(allow network* (remote ip \"localhost:*\"))",
     "(allow network-bind (local ip \"localhost:*\"))"]
  | .unrestricted => ["(allow network*)"]

/-- The working directory as the profile sees it. -/
def profileWorkdir (canonicalize : PathBuf → Option PathBuf) (workdir : PathBuf) : PathBuf :=
  (canonicalize workdir).getD workdir

/-- `resolve_path` -/
def resolvePath (p : String) (workdir : PathBuf) : PathBuf :=
  let path := osString p
  if isAbsolute path then path else join workdir path

/-- The profile resolves its paths as `resolve_host_paths` does. -/
theorem resolvePath_eq (p : String) (workdir : PathBuf) :
    resolvePath p workdir = resolveHostPath p workdir := rfl

/-- The lines of the profile, in order. -/
def seatbeltLines (policy : SandboxPolicy) (workdir : PathBuf) : List String :=
  let fsPolicy := policy.filesystem
  headerLines ++
  systemPaths.map readLine ++
  deviceLines ++
  (if fsPolicy.workdir then [readLine (display workdir), writeLine (display workdir)] else []) ++
  fsPolicy.readOnly.map (fun p => readLine (display (resolvePath p workdir))) ++
  fsPolicy.readWrite.flatMap (fun p =>
    [readLine (display (resolvePath p workdir)), writeLine (display (resolvePath p workdir))]) ++
  tempPaths.map writeLine ++
  networkLines policy.network.mode

/-- `generate_seatbelt_profile`; the source function never returns its error case. -/
def generateSeatbeltProfile (canonicalize : PathBuf → Option PathBuf) (policy : SandboxPolicy)
    (workdir : PathBuf) : String :=
  String.intercalate "\n" (seatbeltLines policy (profileWorkdir canonicalize workdir)) ++ "\n"

end SimpleSandbox
