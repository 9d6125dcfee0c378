import SimpleSandbox.CommandRuns
import SimpleSandbox.Interleave

/-!
# The commands as their file operations

The commands of `ssbx` once more, as programs whose steps are single calls of `std::fs`, of the
engine and of `Command::status`; other processes step in between.  `fs::write` is two steps: the
file is opened, which creates or empties it, and then the contents are written.  In between it is
empty, for as long as it takes, and for ever if the process is killed there.  If it is removed in
between, the contents go to a file that no path leads to any more; if somebody else has written it,
the contents go over his, and what was longer stays behind them.

Each program can do what the command of the same name does at one go.
-/

namespace SimpleSandbox

open RustText OsPath FileSystem Program

namespace FileSystem

/-- Of two contents for one place the second stays. -/
theorem set_set {F : Type} (fs : FileSystem F) (q : Location) (n n' : Node F) :
    (fs.set q n).set q n' = fs.set q n' := by
  unfold FileSystem.set
  congr 1
  funext r
  by_cases hr : r = q
  · rw [if_pos hr, if_pos hr]
  · rw [if_neg hr, if_neg hr]
    exact if_neg hr

end FileSystem

namespace World

/-- `File::create`: the file is opened for writing and empty. -/
def openFile (f : Faults) (site : Site) (p : PathBuf) : Effect World IoError Unit :=
  writeFile f site p (.text "")

/-- What a file holds after `contents` was written over `old` from the start.  Behind something
    shorter the rest of `old` stays; that much is known that it makes no JSON. -/
inductive Overlays (contents old : FileData) : FileData → Prop
  | whole : Overlays contents old contents
  | mixed {data : FileData} (hfilled : old ≠ .text "") (hother : old ≠ contents)
      (hjson : ∀ s, data ≠ .index s) : Overlays contents old data

/-- `File::write_all` on the opened file.  The contents arrive, or they are lost because the file
    has been removed since, or the call fails and has written nothing. -/
inductive Fills (p : PathBuf) (contents : FileData) (w : World) : Except IoError Unit → World → Prop
  | written {old data : FileData} (h : w.fileAt (w.fs.locate p) = some old)
      (hdata : Overlays contents old data) :
      Fills p contents w (.ok ()) { w with fs := w.fs.set (w.fs.locate p) (.file data) }
  | lost : Fills p contents w (.ok ()) w
  | failed (e : IoError) : Fills p contents w (.error e) w

/-- One entry beneath the directory is deleted, or cannot be. -/
inductive Unlinks (p : PathBuf) (q : Location) (w : World) : Except IoError Unit → World → Prop
  | gone (h : w.fs.locate p <+: q) :
      Unlinks p q w (.ok ())
        { w with fs := { w.fs with node := fun r => if r = q then none else w.fs.node r } }
  | failed (e : IoError) : Unlinks p q w (.error e) w

end World

namespace Steps

/-! ## Files -/

def writeFile (f : Faults) (site : Site) (p : PathBuf) (contents : FileData) :
    Program World IoError Unit := do
  atomic (World.openFile f site p)
  step (World.Fills p contents) done

def removeEntries (p : PathBuf) : List Location → Program World IoError Unit
  | [] => pure ()
  | q :: entries => do
    step (World.Unlinks p q) done
    removeEntries p entries

/-- `fs::remove_dir_all` deletes entries it has listed, one at a time, before the directory
    itself. -/
def removeDirAll (f : Faults) (site : Site) (p : PathBuf) : Program World IoError Unit := do
  let entries ← step (fun w (_ : Except IoError (List Location)) w' => w' = w) done
  removeEntries p entries
  atomic (World.removeDirAll f site p)

/-- Whether a file can be opened does not depend on what is written to it. -/
theorem exists_error_of_not_writable {f : Faults} {site : Site} {p : PathBuf} {w : World}
    (h : Store.writable f site p w = false) :
    ∃ e, ∀ data, World.writeFile f site p data w = (.error e, w) := by
  by_cases hf : f site = true
  · exact ⟨.other "i/o error", fun data => if_pos hf⟩
  · have hcan : w.fs.canWrite (w.fs.locate p) = false := by
      simpa [Store.writable, hf] using h
    obtain ⟨e, he⟩ := write_of_not_canWrite hcan (FileData.text "")
    refine ⟨e, fun data => ?_⟩
    have hsame : w.fs.write p data = .error e := by
      rw [← he]
      simp only [FileSystem.write, hcan, Bool.false_eq_true, ↓reduceIte]
    simp [World.writeFile, World.change, hf, hsame]

/-- What is written to a file that was just opened. -/
theorem fills_put (site : Site) (p : PathBuf) (contents : FileData) (w : World) :
    World.Fills p contents (Store.put site (w.fs.locate p) (.text "") w) (.ok ())
      (Store.put site (w.fs.locate p) contents w) := by
  have hthere : (Store.put site (w.fs.locate p) (.text "") w).fileAt
      ((Store.put site (w.fs.locate p) (.text "") w).fs.locate p) = some (.text "") := by
    change (Store.put site (w.fs.locate p) (.text "") w).fileAt (w.fs.locate p) = some (.text "")
    rw [Store.put_fileAt, if_pos rfl]
  have hfill : World.Fills p contents (Store.put site (w.fs.locate p) (.text "") w) (.ok ()) _ :=
    .written hthere .whole
  have hset : (w.fs.set (w.fs.locate p) (.file (.text ""))).set (w.fs.locate p) (.file contents) =
      w.fs.set (w.fs.locate p) (.file contents) := set_set _ _ _ _
  unfold Store.put at hfill ⊢
  unfold World.applied at hfill ⊢
  rw [← hset]
  exact hfill

theorem performs_writeFile (f : Faults) (site : Site) (p : PathBuf) (contents : FileData) :
    Performs (writeFile f site p contents) (World.writeFile f site p contents) := by
  intro w
  by_cases h : Store.writable f site p w = true
  · rw [Store.writeFile_of_writable h]
    exact .andThen (.step (Store.writeFile_of_writable h _) .done)
      (.step (fills_put site p contents w) .done)
  · obtain ⟨e, he⟩ := exists_error_of_not_writable (by simpa using h)
    rw [he contents]
    exact .andThen (.step (he _) .done) .done

/-- All may go with the directory. -/
theorem performs_removeDirAll (f : Faults) (site : Site) (p : PathBuf) :
    Performs (removeDirAll f site p) (World.removeDirAll f site p) := by
  intro w
  have hall : Runs (atomic (World.removeDirAll f site p)) w (World.removeDirAll f site p w).1
      (World.removeDirAll f site p w).2 := performs_atomic _ w
  have hnone : Runs (step (fun w (_ : Except IoError (List Location)) w' => w' = w) done) w
      (.ok []) w := .step rfl .done
  exact hnone.andThen hall

/-! ## The store -/

def writeIndex (st : Store) (f : Faults) (site : Site) (s : SandboxState) :
    Program World StateError Unit :=
  if s.serializable then (writeFile f site st.indexPath (.index s)).mapError .io
  else fail .json

/-- The shape of every operation that changes the index: load, change, save. -/
def modify {α : Type} (st : Store) (f : Faults)
    (op : SandboxState → Except StateError (α × SandboxState)) : Program World StateError α := do
  let s ← atomic (st.loadIndex f)
  let (a, s') ← lift (op s)
  writeIndex st f .saveIndex s'
  pure a

def openAt (root : PathBuf) (f : Faults) : Program World StateError Store := do
  (atomic (World.createDirAll f .openRoot root)).mapError .io
  (atomic (World.createDirAll f .openSandboxes (join root (osString "sandboxes")))).mapError .io
  (atomic (World.createDirAll f .openLogs (join root (osString "logs")))).mapError .io
  (atomic (World.createDirAll f .openPolicies (join root (osString "policies")))).mapError .io
  let store : Store := { root }
  let w ← atomic Effect.state
  if w.fs.pathExists store.indexPath = false then
    writeIndex store f .openIndex {}
  pure store

def insert (st : Store) (f : Faults) (record : SandboxRecord) (uuid : String) :
    Program World StateError SandboxRecord :=
  modify st f (·.insert record uuid)

def savePolicy (st : Store) (ext : Externals) (f : Faults) (name : String) (p : SandboxPolicy) :
    Program World StateError PathBuf := do
  let _ ← lift ((ext.toYaml p).mapError fun m => Store.policyError (.yaml m))
  (writeFile f .savePolicy (st.policyPath name) (.policy p)).mapError .io
  pure (st.policyPath name)

def updatePolicy (st : Store) (ext : Externals) (f : Faults) (name : String) (p : SandboxPolicy) :
    Program World StateError Unit := do
  let hash ← lift ((p.contentHash ext).mapError Store.policyError)
  let _ ← savePolicy st ext f name p
  modify st f fun s => (s.updatePolicy name hash).map fun s' => ((), s')

def remove (st : Store) (f : Faults) (name : String) : Program World StateError SandboxRecord := do
  let record ← modify st f (·.remove name)
  let _ ← attempt (atomic (World.removeFile f .dropPolicy (st.policyPath record.name)))
  pure record

def touchLastUsed (st : Store) (f : Faults) (name : String) : Program World StateError Unit :=
  modify st f fun s => .ok ((), s.touch name)

section Store

variable (st : Store) (f : Faults)

theorem performs_writeIndex (site : Site) (s : SandboxState) :
    Performs (writeIndex st f site s) (st.writeIndex f site s) := by
  unfold writeIndex Store.writeIndex
  split
  · exact (performs_writeFile _ _ _ _).mapError _
  · exact performs_fail _

theorem performs_modify {α : Type} (op : SandboxState → Except StateError (α × SandboxState)) :
    Performs (modify st f op) (st.modify f op) :=
  (performs_atomic _).bind fun _ => (performs_lift _).bind fun _ =>
    (performs_writeIndex st f _ _).bind fun _ => performs_pure _

theorem performs_openAt (root : PathBuf) : Performs (openAt root f) (Store.openAt root f) := by
  have hdir : ∀ site p, Performs
      ((atomic (World.createDirAll f site p)).mapError StateError.io)
      ((World.createDirAll f site p).mapError StateError.io) := fun _ _ =>
    (performs_atomic _).mapError _
  unfold openAt Store.openAt
  refine (hdir _ _).bind fun _ => (hdir _ _).bind fun _ => (hdir _ _).bind fun _ =>
    (hdir _ _).bind fun _ => (performs_atomic _).bind fun w => ?_
  split
  · exact (performs_writeIndex _ f _ _).bind fun _ => performs_pure _
  · exact performs_pure _

theorem performs_savePolicy (ext : Externals) (name : String) (p : SandboxPolicy) :
    Performs (savePolicy st ext f name p) (st.savePolicy ext f name p) :=
  (performs_lift _).bind fun _ => ((performs_writeFile _ _ _ _).mapError _).bind fun _ =>
    performs_pure _

theorem performs_updatePolicy (ext : Externals) (name : String) (p : SandboxPolicy) :
    Performs (updatePolicy st ext f name p) (st.updatePolicy ext f name p) := by
  rw [Store.updatePolicy_eq]
  exact (performs_lift _).bind fun _ => (performs_savePolicy st f ext name p).bind fun _ =>
    performs_modify st f _

theorem performs_remove (name : String) : Performs (remove st f name) (st.remove f name) := by
  rw [Store.remove_eq]
  exact (performs_modify st f _).bind fun _ => (performs_atomic _).attempt.bind fun _ =>
    performs_pure _

theorem performs_touchLastUsed (name : String) :
    Performs (touchLastUsed st f name) (st.touchLastUsed f name) := by
  rw [Store.touchLastUsed_eq_modify]
  exact performs_modify st f _

end Store

/-! ## The mac mechanism -/

/-- The copy of the policy; its failures are ignored. -/
def copyPolicy (h : MechHost) (dir : PathBuf) (policy : SandboxPolicy) :
    Program World MechanismError Unit :=
  if (h.toYaml policy).isOk then do
    let _ ← attempt (writeFile h.faults .writePolicyCopy (join dir (osString "policy.yaml"))
      (.policy policy))
    pure ()
  else pure ()

def macCreate (m : MacMechanism) (h : MechHost) (req : CreateRequest) :
    Program World MechanismError CreateResult := do
  if h.os ≠ .macos then
    fail (.unavailable "mac_seatbelt requires macOS")
  else
    let profile := generateSeatbeltProfile h.canonicalize req.policy req.workdir
    let profileFile ← lift (h.tempFile.mapError .message)
    if req.ephemeral || !req.command.isEmpty then
      let status ← atomic (MacMechanism.spawnSandboxed h profileFile (some profile) req.policy
        req.workdir req.command req.env)
      pure {
        name := req.name, mechanism := .mac, runtimeId := "mac-ephemeral:" ++ req.name,
        proxyPort := h.reportedPort, logPath := none, exitCode := status.code }
    else
      let dir := m.instanceDir h req.name
      let profilePath := join dir (osString "profile.sb")
      (atomic (World.createDirAll h.faults .createInstance dir)).mapError MacMechanism.ioMessage
      (writeFile h.faults .writeProfile profilePath (.text profile)).mapError MacMechanism.ioMessage
      (writeFile h.faults .writeWorkdir (join dir (osString "workdir"))
        (.text (display req.workdir))).mapError MacMechanism.ioMessage
      copyPolicy h dir req.policy
      pure {
        name := req.name, mechanism := .mac, runtimeId := "mac:" ++ display profilePath,
        proxyPort := h.reportedPort, logPath := none, exitCode := none }

/-- `parse_mac_runtime` -/
def parseMacRuntime (h : MechHost) (runtimeId : String) :
    Program World MechanismError (PathBuf × PathBuf) :=
  atomic (MacMechanism.parseMacRuntime h runtimeId)

/-- The child reads the profile when it starts. -/
def spawnFrom (h : MechHost) (profilePath : PathBuf) (policy : SandboxPolicy) (workdir : PathBuf)
    (req : ExecRequest) : Effect World MechanismError ExitStatus := do
  let w ← Effect.state
  let profile := match w.fs.read profilePath with
    | .ok (.text contents) => some contents
    | _ => none
  MacMechanism.spawnSandboxed h profilePath profile policy workdir req.command req.env

/-- The policy that a child takes its limits from. -/
def copiedPolicy : Except IoError FileData → SandboxPolicy
  | .ok (.policy p) => p
  | _ => {}

def macExec (h : MechHost) (req : ExecRequest) : Program World MechanismError ExitStatus := do
  let (profilePath, workdir) ← parseMacRuntime h req.runtimeId
  let copy ← atomic (MacMechanism.readCopy h profilePath)
  atomic (spawnFrom h profilePath (copiedPolicy copy) workdir req)

/-- Failures of the deletion are ignored. -/
def macRemove (h : MechHost) (runtimeId : String) : Program World MechanismError Unit := do
  match ← attempt (parseMacRuntime h runtimeId) with
  | .ok (profilePath, _) =>
    match parent profilePath with
    | some dir =>
      let _ ← attempt (removeDirAll h.faults .removeInstance dir)
      pure ()
    | none => pure ()
  | .error (_ : MechanismError) => pure ()

section Mac

variable (h : MechHost)

theorem performs_copyPolicy (dir : PathBuf) (policy : SandboxPolicy) :
    Performs (copyPolicy h dir policy) (MacMechanism.copyPolicy h dir policy) := by
  unfold copyPolicy MacMechanism.copyPolicy
  split
  · exact (performs_writeFile _ _ _ _).attempt.bind fun _ => performs_pure _
  · exact performs_pure _

theorem performs_macCreate (m : MacMechanism) (req : CreateRequest) :
    Performs (macCreate m h req) (m.create h req) := by
  unfold macCreate MacMechanism.create
  split
  · exact performs_fail _
  · refine (performs_lift _).bind fun profileFile => ?_
    split
    · exact (performs_atomic _).bind fun _ => performs_pure _
    · exact ((performs_atomic _).mapError _).bind fun _ =>
        ((performs_writeFile _ _ _ _).mapError _).bind fun _ =>
        ((performs_writeFile _ _ _ _).mapError _).bind fun _ =>
        (performs_copyPolicy h _ _).bind fun _ => performs_pure _

theorem performs_macExec (req : ExecRequest) :
    Performs (macExec h req) (MacMechanism.exec h req) :=
  (performs_atomic _).bind fun _ => (performs_atomic _).bind fun _ => performs_atomic _

theorem performs_macRemove (runtimeId : String) :
    Performs (macRemove h runtimeId) (MacMechanism.remove h runtimeId) := by
  unfold macRemove MacMechanism.remove
  refine (performs_atomic (MacMechanism.parseMacRuntime h runtimeId)).attempt.bind fun r => ?_
  rcases r with e | ⟨profilePath, workdir⟩
  · exact performs_pure _
  · dsimp only
    cases parent profilePath with
    | some dir => exact (performs_removeDirAll _ _ _).attempt.bind fun _ => performs_pure _
    | none => exact performs_pure _

end Mac

/-! ## Mechanisms by kind -/

/-- `mech_box(kind, ..).create`; with podman the engine's part is one step. -/
def mechCreate (M : Machine) (h : MechHost) (kind : MechanismKind) (req : CreateRequest) :
    Program World MechanismError CreateResult :=
  match resolveMechanism M.os kind with
  | .podman | .auto => atomic (PodmanMechanism.create {} h req)
  | .mac => macCreate M.mac h req
  | .krun => fail (.notImplemented "linux_libkrun is a stub in v1; use podman or mac")

/-- `mech_box(kind, ..).exec` -/
def mechExec (M : Machine) (h : MechHost) (kind : MechanismKind) (req : ExecRequest) :
    Program World MechanismError ExitStatus :=
  match resolveMechanism M.os kind with
  | .podman | .auto => lift (PodmanMechanism.exec {} h req)
  | .mac => macExec h req
  | .krun => fail (.notImplemented "linux_libkrun is a stub in v1")

/-- `mech_box(kind, ..).remove` -/
def mechRemove (M : Machine) (h : MechHost) (kind : MechanismKind) (runtimeId : String) :
    Program World MechanismError Unit :=
  match resolveMechanism M.os kind with
  | .podman | .auto => atomic (PodmanMechanism.remove {} h runtimeId)
  | .mac => macRemove h runtimeId
  | .krun => fail (.notImplemented "linux_libkrun is a stub in v1")

section Mech

variable (M : Machine) (h : MechHost) (kind : MechanismKind)

theorem performs_mechCreate (req : CreateRequest) :
    Performs (mechCreate M h kind req) (SimpleSandbox.mechCreate M h kind req) := by
  unfold mechCreate SimpleSandbox.mechCreate
  cases resolveMechanism M.os kind with
  | podman => exact performs_atomic _
  | auto => exact performs_atomic _
  | mac => exact performs_macCreate h _ _
  | krun => exact performs_fail _

theorem performs_mechExec (req : ExecRequest) :
    Performs (mechExec M h kind req) (SimpleSandbox.mechExec M h kind req) := by
  unfold mechExec SimpleSandbox.mechExec
  cases resolveMechanism M.os kind with
  | podman => exact performs_lift _
  | auto => exact performs_lift _
  | mac => exact performs_macExec h _
  | krun => exact performs_fail _

theorem performs_mechRemove (runtimeId : String) :
    Performs (mechRemove M h kind runtimeId) (SimpleSandbox.mechRemove M h kind runtimeId) := by
  unfold mechRemove SimpleSandbox.mechRemove
  cases resolveMechanism M.os kind with
  | podman => exact performs_atomic _
  | auto => exact performs_atomic _
  | mac => exact performs_macRemove h _
  | krun => exact performs_fail _

end Mech

/-! ## Commands -/

/-- What `cmd_create` does with a prepared request. -/
def createPrepared (M : Machine) (env : ProcessEnv) (name : String) (p : Prepared) :
    Program World CliError Unit := do
  let result ← (mechCreate M (env.mechHost M p.proxyPort) p.kind p.request).mapError .mechanism
  let record ← lift ((Store.newRecord M.ext env.uuid env.now name p.kind result.runtimeId
    p.request.policy p.request.workdir false result.proxyPort).mapError .state)
  let record := { record with logPath := some (M.store.logPathFor name) }
  let _ ← (savePolicy M.store M.ext env.faults name p.request.policy).mapError .state
  let _ ← (insert M.store env.faults record env.insertUuid).mapError .state
  pure ()

def cmdCreate (M : Machine) (env : ProcessEnv) (name : Option String) (args : PolicyArgs) :
    Program World CliError Unit := do
  let p ← lift (prepare M env (createName name) args id false [])
  createPrepared M env (createName name) p

def cmdRun (M : Machine) (env : ProcessEnv) (name : Option String) (args : PolicyArgs)
    (command : List String) : Program World CliError ℕ := do
  let name := name.getD env.runName
  let p ← lift (prepare M env name args (preferAvailable M env) true command)
  let result ← (mechCreate M (env.mechHost M p.proxyPort) p.kind p.request).mapError .mechanism
  pure (result.exitCode.getD 0 % 256)

/-- What `exec` does with the record it finds. -/
def execRecord (M : Machine) (env : ProcessEnv) (command : List String) (record : SandboxRecord) :
    Program World CliError ℕ := do
  (touchLastUsed M.store env.faults record.name).mapError .state
  let req : ExecRequest := {
    name := record.name, runtimeId := record.runtimeId, command, env := [], tty := true
    cwd := some "/workspace" }
  let status ← (mechExec M (env.mechHost M env.inheritedPort) record.mechanism req).mapError
    .mechanism
  pure (status.code.getD 1 % 256)

/-- The lookup before a command on a record. -/
def lookup (M : Machine) (env : ProcessEnv) (name : Option String) :
    Program World CliError SandboxRecord :=
  (atomic (M.store.getOrLast env.lookupFaults name)).mapError .state

def cmdExec (M : Machine) (env : ProcessEnv) (name : Option String) (command : List String) :
    Program World CliError ℕ := do
  let record ← lookup M env name
  execRecord M env command record

/-- `shell` looks the record up once more, to choose the shell. -/
def cmdShell (M : Machine) (env : ProcessEnv) (name : Option String) :
    Program World CliError ℕ := do
  let record ← lookup M env name
  let command :=
    if record.mechanism = .podman then ["sh", "-i"]
    else if M.os = .macos then ["/bin/zsh", "-i"]
    else ["/bin/sh", "-i"]
  cmdExec M env name command

def cmdPolicyGet (M : Machine) (env : ProcessEnv) (name : Option String) :
    Program World CliError SandboxPolicy := do
  let record ← lookup M env name
  (atomic (M.store.loadPolicy env.faults record.name)).mapError .state

def cmdPolicySet (M : Machine) (env : ProcessEnv) (name : Option String)
    (file : Except PolicyError SandboxPolicy) : Program World CliError Unit := do
  let record ← lookup M env name
  let p ← lift ((loadFile file).mapError .policy)
  lift ((preflight M.ext p {}).mapError .policy)
  (updatePolicy M.store M.ext env.faults record.name p).mapError .state

def cmdRm (M : Machine) (env : ProcessEnv) (name : String) : Program World CliError Unit := do
  let record ← (remove M.store env.faults name).mapError .state
  (mechRemove M (env.mechHost M env.inheritedPort) record.mechanism record.runtimeId).mapError
    .mechanism

/-- `run`, after the arguments are parsed.  `ls` and `logs` read the index and no other file. -/
def execute (M : Machine) (env : ProcessEnv) : Command → Program World CliError ℕ
  | .create name args => do cmdCreate M env name args; pure 0
  | .run name args command => cmdRun M env name args command
  | .exec name command => cmdExec M env name command
  | .shell name => cmdShell M env name
  | .policyGet name => do let _ ← cmdPolicyGet M env name; pure 0
  | .policySet name file => do cmdPolicySet M env name file; pure 0
  | .ls => do let _ ← atomic (cmdLs M env); pure 0
  | .rm name => do cmdRm M env name; pure 0
  | .logs name => do atomic (cmdLogs M env name); pure 0
  | .doctor => pure 0

/-- One process of `ssbx`. -/
def ssbx (M : Machine) (env : ProcessEnv) (cmd : Command) : Program World CliError ℕ := do
  let _ ← (openAt M.root env.faults).mapError .state
  execute M env cmd

section Commands

variable (M : Machine) (env : ProcessEnv)

theorem performs_createPrepared (name : String) (p : Prepared) :
    Performs (createPrepared M env name p) (SimpleSandbox.createPrepared M env name p) :=
  ((performs_mechCreate M _ _ _).mapError _).bind fun _ => (performs_lift _).bind fun _ =>
    ((performs_savePolicy _ _ _ _ _).mapError _).bind fun _ =>
    ((performs_modify _ _ _).mapError _).bind fun _ => performs_pure _

theorem performs_lookup (name : Option String) :
    Performs (lookup M env name)
      ((M.store.getOrLast env.lookupFaults name).mapError CliError.state) :=
  (performs_atomic _).mapError _

theorem performs_cmdExec (name : Option String) (command : List String) :
    Performs (cmdExec M env name command) (SimpleSandbox.cmdExec M env name command) :=
  (performs_lookup M env name).bind fun _ => ((performs_touchLastUsed _ _ _).mapError _).bind
    fun _ => ((performs_mechExec M _ _ _).mapError _).bind fun _ => performs_pure _

theorem performs_execute (cmd : Command) :
    Performs (execute M env cmd) (SimpleSandbox.execute M env cmd) := by
  cases cmd with
  | create name args =>
    exact Performs.bind ((performs_lift _).bind fun p => performs_createPrepared M env _ p)
      fun _ => performs_pure _
  | run name args command =>
    exact (performs_lift _).bind fun p => ((performs_mechCreate M _ _ _).mapError _).bind
      fun _ => performs_pure _
  | exec name command => exact performs_cmdExec M env name command
  | shell name =>
    exact (performs_lookup M env name).bind fun _ => performs_cmdExec M env name _
  | policyGet name =>
    exact Performs.bind ((performs_lookup M env name).bind fun _ => (performs_atomic _).mapError _)
      fun _ => performs_pure _
  | policySet name file =>
    exact Performs.bind ((performs_lookup M env name).bind fun _ => (performs_lift _).bind fun _ =>
      (performs_lift _).bind fun _ => (performs_updatePolicy _ _ _ _ _).mapError _)
      fun _ => performs_pure _
  | ls => exact (performs_atomic _).bind fun _ => performs_pure _
  | rm name =>
    exact Performs.bind (((performs_remove _ _ _).mapError _).bind fun _ =>
      (performs_mechRemove M _ _ _).mapError _) fun _ => performs_pure _
  | logs name => exact (performs_atomic _).bind fun _ => performs_pure _
  | doctor => exact performs_pure _

/-- **A process can do step by step what it does at one go.** -/
theorem performs_ssbx (cmd : Command) : Performs (ssbx M env cmd) (SimpleSandbox.ssbx M env cmd) :=
  ((performs_openAt env.faults M.root).mapError _).bind fun _ => performs_execute M env cmd

end Commands

end Steps

end SimpleSandbox
