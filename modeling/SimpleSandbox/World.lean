import SimpleSandbox.State
import SimpleSandbox.Effect

/-!
# The world of one host

The state the programs read and change: a file system, the containers of the engine,
the child processes that were spawned, and a journal of the changes made to the file
system.  Every file operation names the place of the source it stands for, so that a
run can be given any pattern of I/O failures and each change can be traced back.  An
operation that fails leaves the files as they were; an `fs::write` that fails after it
has truncated its file is not represented.

A file holds the value that was serialised into it.  Reading it back with the same
format gives that value, which is the behaviour assumed of `serde_json` and
`serde_yaml`; reading it as another format is a parse error.
-/

namespace SimpleSandbox

open OsPath FileSystem

/-- What a file holds. -/
inductive FileData where
  | index (state : SandboxState)     -- index.json
  | policy (policy : SandboxPolicy)  -- a YAML policy
  | text (contents : String)
deriving DecidableEq

/-- The places in the source that read or change a file. -/
inductive Site where
  | openRoot | openSandboxes | openLogs | openPolicies | openIndex
  | loadIndex | saveIndex | savePolicy | loadPolicy | dropPolicy
  | createInstance | writeProfile | writeWorkdir | writePolicyCopy
  | readWorkdir | readPolicyCopy | removeInstance
deriving DecidableEq, Repr

/-- Which of its file operations fail in one call of a program, whatever the tree
    looks like. -/
abbrev Faults := Site → Bool

def noFaults : Faults := fun _ => false

/-- One change of the file system: where in the source, and at which location. -/
structure FsEvent where
  site : Site
  location : Location
deriving DecidableEq

/-- A container of the engine that was started for a persistent sandbox. -/
structure Container where
  id : String
  name : String
deriving DecidableEq, Repr

/-- The engine finds a container by its id and by its name. -/
def Container.answersTo (c : Container) (key : String) : Bool := c.id == key || c.name == key

/-- What a spawned child process is given. -/
structure ChildSpec where
  program : List String
  profile : Option String        -- the text of the profile file it runs under
  policy : SandboxPolicy         -- the policy its resource limits are taken from
  workdir : PathBuf
  env : List (String × String)   -- added to the inherited environment

structure World where
  fs : FileSystem FileData
  containers : List Container
  children : List ChildSpec
  journal : List FsEvent

namespace World

/-- The text or value of the file at a location. -/
def fileAt (w : World) (q : Location) : Option FileData := w.fs.fileAt q

/-- A change of the file system at one place of the source. -/
def change (f : Faults) (site : Site) (p : PathBuf)
    (op : FileSystem FileData → Except IoError (FileSystem FileData)) :
    Effect World IoError Unit := fun w =>
  if f site then (.error (.other "i/o error"), w)
  else
    match op w.fs with
    | .ok fs =>
      (.ok (), { w with fs := fs, journal := w.journal ++ [⟨site, w.fs.locate p⟩] })
    | .error e => (.error e, w)

/-- `fs::read_to_string` at one place of the source. -/
def readFile (f : Faults) (site : Site) (p : PathBuf) : Effect World IoError FileData := fun w =>
  (if f site then .error (.other "i/o error") else w.fs.read p, w)

def writeFile (f : Faults) (site : Site) (p : PathBuf) (contents : FileData) :
    Effect World IoError Unit :=
  change f site p (·.write p contents)

def createDirAll (f : Faults) (site : Site) (p : PathBuf) : Effect World IoError Unit :=
  change f site p (·.createDirAll p)

def removeFile (f : Faults) (site : Site) (p : PathBuf) : Effect World IoError Unit :=
  change f site p (·.removeFile p)

def removeDirAll (f : Faults) (site : Site) (p : PathBuf) : Effect World IoError Unit :=
  change f site p (·.removeDirAll p)

end World

end SimpleSandbox
