import SimpleSandbox.Policy

/-!
# Secret injection

`sandbox-core/src/secrets.rs`: each `SecretRef` is loaded from a host variable, a file
or its literal text, kept in a locked buffer and finally handed out as environment
pairs.  The host and the buffer (`secure_memory`) are parameters; so is the order in
which the hash map is walked.
-/

namespace SimpleSandbox

open RustText OsPath

inductive SecretError where
  | unavailable (message : String)
  | secureMemory (message : String)
  | unsupported (source : String)
deriving DecidableEq

/-- What secret resolution asks of the host. -/
structure SecretHost where
  var : String → Option String                             -- `env::var(..).ok()`
  readFile : PathBuf → Except String (List UInt8)          -- `fs::read`
  lock : List UInt8 → Except String (List UInt8)           -- `LockedBuffer::from_bytes`
  unlock : List UInt8 → Except String (List UInt8)         -- `LockedBuffer::as_slice`
  iterate : List (String × List UInt8) → List (String × List UInt8)

/-- Map of env var to locked secret bytes. -/
abbrev SecretMap := List (String × List UInt8)

namespace SecretMap

/-- `HashMap::insert` -/
def insert (m : SecretMap) (env : String) (buf : List UInt8) : SecretMap :=
  if m.any (·.1 == env) then m.map fun e => if e.1 == env then (env, buf) else e
  else m ++ [(env, buf)]

def toEnvPairs (h : SecretHost) (m : SecretMap) : Except SecretError (List (String × String)) :=
  (h.iterate m).mapM fun (k, buf) => do
    let bytes ← (h.unlock buf).mapError .secureMemory
    match fromUtf8 bytes with
    | some s => pure (k, s)
    | none => throw (.unavailable ("secret " ++ k ++ " not utf-8"))   -- then the decoder's message

end SecretMap

/-- `load_secret_bytes` -/
def loadSecretBytes (h : SecretHost) (source : String) (searchRoot : PathBuf) :
    Except SecretError (List UInt8) :=
  let fromVar (name : String) : Except SecretError (List UInt8) :=
    match h.var name with
    | some val => .ok (asBytes val)
    | none => .error (.unavailable ("host env var '" ++ name ++ "' not set"))
  match stripPrefix source "env:" with
  | some name => fromVar name
  | none =>
    match stripPrefix source "file:" with
    | some path =>
      let p := osString path
      let full := if isAbsolute p then p else join searchRoot p
      match h.readFile full with
      | .ok bytes => .ok bytes
      | .error e => .error (.unavailable ("cannot read secret file " ++ display full ++ ": " ++ e))
    | none =>
      match stripPrefix source "value:" with
      | some text => .ok (asBytes text)
      | none =>
        -- also try plain env name for convenience
        if containsChar source ':' then .error (.unsupported source)
        else fromVar source

/-- `resolve_secrets` -/
def resolveSecrets (h : SecretHost) (refs : List SecretRef) (searchRoot : PathBuf) :
    Except SecretError SecretMap :=
  refs.foldlM (fun m r => do
    let bytes ← loadSecretBytes h r.source searchRoot
    let buf ← (h.lock bytes).mapError .secureMemory
    pure (m.insert r.env buf)) []

end SimpleSandbox
