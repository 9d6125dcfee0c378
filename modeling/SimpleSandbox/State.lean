import SimpleSandbox.Policy
import SimpleSandbox.FileSystem

/-!
# Records and index

The record and index types of `sandbox-core/src/state.rs` and the pure part of each
index operation: what happens between `load_index` and `save_index`.
-/

namespace SimpleSandbox

open OsPath FileSystem

/-! ## Records and index -/

structure SandboxRecord where
  id : String
  name : String
  mechanism : MechanismKind
  runtimeId : String
  policyHash : String
  workdir : PathBuf
  createdAt : ℕ
  proxyPort : Option UInt16
  logPath : Option PathBuf
  ephemeral : Bool
deriving DecidableEq

structure SandboxState where
  lastUsed : Option String := none
  sandboxes : List SandboxRecord := []
deriving DecidableEq

inductive StateError where
  | io (e : IoError)
  | json
  | yaml
  | notFound (name : String)
  | alreadyExists (name : String)
deriving DecidableEq

/-- The test of every lookup: a record answers to its name and to its id. -/
def SandboxRecord.answersTo (r : SandboxRecord) (key : String) : Bool :=
  r.name == key || r.id == key

/-- The assignment `rec.policy_hash = hash`. -/
def SandboxRecord.withHash (hash : String) (r : SandboxRecord) : SandboxRecord :=
  { r with policyHash := hash }

/-- `serde_json` refuses a path that is not UTF-8. -/
def SandboxRecord.serializable (r : SandboxRecord) : Bool :=
  isUtf8 r.workdir && r.logPath.all isUtf8

namespace SandboxState

def serializable (s : SandboxState) : Bool := s.sandboxes.all SandboxRecord.serializable

/-- `Store::get`, after `load_index` -/
def get (s : SandboxState) (name : String) : Except StateError SandboxRecord :=
  match s.sandboxes.find? (·.answersTo name) with
  | some r => .ok r
  | none => .error (.notFound name)

/-- `Store::get_or_last`, after `load_index` -/
def getOrLast (s : SandboxState) (name : Option String) : Except StateError SandboxRecord :=
  match name with
  | some n => s.get n
  | none =>
    match s.lastUsed.bind fun last => s.sandboxes.find? (·.answersTo last) with
    | some r => .ok r
    | none =>
      match s.sandboxes.getLast? with
      | some r => .ok r
      | none => .error (.notFound "(no sandboxes)")

/-- `Store::insert`, between `load_index` and `save_index`.  An empty id is replaced
    by a newly drawn one. -/
def insert (s : SandboxState) (record : SandboxRecord) (uuid : String) :
    Except StateError (SandboxRecord × SandboxState) :=
  if s.sandboxes.any (·.name == record.name) then .error (.alreadyExists record.name)
  else
    let record := if record.id = "" then { record with id := uuid } else record
    .ok (record, { lastUsed := some record.name, sandboxes := s.sandboxes ++ [record] })

/-- Change the first record of a name. -/
def modifyNamed (name : String) (f : SandboxRecord → SandboxRecord) :
    List SandboxRecord → List SandboxRecord
  | [] => []
  | r :: rest => if r.name == name then f r :: rest else r :: modifyNamed name f rest

/-- `Store::update_policy`, between `load_index` and `save_index` -/
def updatePolicy (s : SandboxState) (name hash : String) : Except StateError SandboxState :=
  if s.sandboxes.any (·.name == name) then
    .ok { lastUsed := some name,
          sandboxes := modifyNamed name (·.withHash hash) s.sandboxes }
  else .error (.notFound name)

/-- `Store::remove`, between `load_index` and `save_index` -/
def remove (s : SandboxState) (name : String) :
    Except StateError (SandboxRecord × SandboxState) :=
  match s.sandboxes.find? (·.answersTo name) with
  | none => .error (.notFound name)
  | some r =>
    let rest := s.sandboxes.eraseP (·.answersTo name)
    let lastUsed := if s.lastUsed = some r.name then rest.getLast?.map (·.name) else s.lastUsed
    .ok (r, { lastUsed, sandboxes := rest })

/-- `Store::touch_last_used`, between `load_index` and `save_index` -/
def touch (s : SandboxState) (name : String) : SandboxState := { s with lastUsed := some name }

end SandboxState

end SimpleSandbox
