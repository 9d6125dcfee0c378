import SimpleSandbox.FilePlan
import SimpleSandbox.CommandRuns

/-!
# The plan of a creation

What `create` does before it inserts the record, as a plan that can be run on the files
alone: the mechanism's own steps, the two uses of the serialised policy, and the policy file.
The insertion comes last; whether it goes through is decided by the files it finds.  What the
plan comes to is then said without it, as a condition on the request, on the operations that
fail and on the files before it.
-/

namespace SimpleSandbox

open RustText OsPath FileSystem Effect World

/-! ## Programs that follow a plan -/

/-- A run of `m` does to the files what the plan does, and succeeds if the plan does. -/
def Follows {ε α : Type} (f : Faults) (plan : FilePlan Site FileData) (m : Effect World ε α)
    (w : World) : Prop :=
  (m w).1.isOk = (plan.run f w.fs).1 ∧ (m w).2.fs = (plan.run f w.fs).2

section Follows

variable {ε ε' α β : Type} {f : Faults} {p q : FilePlan Site FileData} {w : World}

theorem follows_bind {m : Effect World ε α} {g : α → Effect World ε β} (hm : Follows f p m w)
    (hg : ∀ a w', m w = (.ok a, w') → Follows f q (g a) w') : Follows f (p ++ q) (m >>= g) w := by
  obtain ⟨hok, hfs⟩ := hm
  rw [Follows, FilePlan.run_append, bind_apply]
  rcases hrun : m w with ⟨r, w'⟩
  rw [hrun] at hok hfs
  rw [← hok]
  cases r with
  | error e => exact ⟨rfl, hfs⟩
  | ok a =>
    have hnext := hg a w' hrun
    rw [Follows, hfs] at hnext
    exact hnext

theorem follows_bind_cons {step : FileStep Site FileData} {m : Effect World ε α}
    {g : α → Effect World ε β} (hm : Follows f [step] m w)
    (hg : ∀ a w', m w = (.ok a, w') → Follows f q (g a) w') : Follows f (step :: q) (m >>= g) w :=
  follows_bind hm hg

theorem follows_pure (a : α) : Follows f [] (pure a : Effect World ε α) w := ⟨rfl, rfl⟩

theorem follows_mapError {m : Effect World ε α} {g : ε → ε'} (hm : Follows f p m w) :
    Follows f p (mapError g m) w := by
  obtain ⟨hok, hfs⟩ := hm
  rw [Follows, mapError_snd, ← hok, mapError]
  rcases hrun : m w with ⟨_ | _, w'⟩
  · exact ⟨rfl, by rw [hrun] at hfs; exact hfs⟩
  · exact ⟨rfl, by rw [hrun] at hfs; exact hfs⟩

/-- A program that leaves the files alone is a check. -/
theorem follows_check {m : Effect World ε α} {ok : Bool} (hok : (m w).1.isOk = ok)
    (hfs : (m w).2.fs = w.fs) : Follows f [.check ok] m w := by
  rw [Follows, hok, hfs]
  cases ok <;> exact ⟨rfl, rfl⟩

theorem follows_lift (r : Except ε α) : Follows f [.check r.isOk] (lift r) w :=
  follows_check rfl rfl

theorem follows_stop {m : Effect World ε α} {e : ε} (h : m w = (.error e, w)) :
    Follows f (.check false :: q) m w := by
  rw [Follows, h]
  exact ⟨rfl, rfl⟩

theorem follows_bind_pure {m : Effect World ε α} (hm : Follows f p m w) (g : α → β) :
    Follows f p (m >>= fun a => pure (g a)) w := by
  have hall := follows_bind (q := []) hm fun a w' _ => follows_pure (g a)
  rwa [List.append_nil] at hall

theorem follows_change {site : Site} {path : PathBuf}
    {op : FileSystem FileData → Except IoError (FileSystem FileData)}
    {step : FileStep Site FileData} (hreq : step.required = true)
    (hnext : step.next f w.fs = if f site then none else (op w.fs).toOption) :
    Follows f [step] (change f site path op) w := by
  rw [Follows, FilePlan.run, hnext, hreq, change]
  by_cases hf : f site = true
  · rw [if_pos hf, if_pos hf]
    exact ⟨rfl, rfl⟩
  · rw [if_neg hf, if_neg hf]
    cases op w.fs <;> exact ⟨rfl, rfl⟩

theorem follows_attempt_change {site : Site} {path : PathBuf}
    {op : FileSystem FileData → Except IoError (FileSystem FileData)}
    {step : FileStep Site FileData} (hreq : step.required = false)
    (hnext : step.next f w.fs = if f site then none else (op w.fs).toOption) :
    Follows f [step] (attempt (change f site path op) : Effect World ε _) w := by
  rw [Follows, FilePlan.run, hnext, hreq, attempt_apply, change]
  by_cases hf : f site = true
  · rw [if_pos hf, if_pos hf]
    exact ⟨rfl, rfl⟩
  · rw [if_neg hf, if_neg hf]
    cases op w.fs <;> exact ⟨rfl, rfl⟩

theorem follows_writeFile (site : Site) (path : PathBuf) (contents : FileData) :
    Follows f [.write site path contents true] (writeFile f site path contents) w :=
  follows_change rfl rfl

theorem follows_createDirAll (site : Site) (path : PathBuf) :
    Follows f [.makeDirs site path] (World.createDirAll f site path) w :=
  follows_change rfl rfl

end Follows

/-! ## The steps -/

/-- The engine starts a container for a request. -/
def PodmanMechanism.starts (m : PodmanMechanism) (h : MechHost) (req : CreateRequest) : Bool :=
  (m.runtimeBin h).isOk && h.engine.usable.isOk &&
    match m.createArgs h req with
    | .error _ => false
    | .ok args => h.engine.run args matches .started _

/-- The engine starts a container for a request, or fails and leaves one behind. -/
def PodmanMechanism.leaves (m : PodmanMechanism) (h : MechHost) (req : CreateRequest) : Bool :=
  (m.runtimeBin h).isOk && h.engine.usable.isOk &&
    match m.createArgs h req with
    | .error _ => false
    | .ok args =>
      match h.engine.run args with
      | .notStarted _ => false
      | .failed _ left => left.isSome
      | .started _ => true

/-- The steps that make an instance. -/
def MacMechanism.instanceSteps (m : MacMechanism) (h : MechHost) (req : CreateRequest) :
    FilePlan Site FileData :=
  let dir := m.instanceDir h req.name
  .check (decide (h.os = .macos) && h.tempFile.isOk) ::
  .makeDirs .createInstance dir ::
  .write .writeProfile (join dir (osString "profile.sb"))
    (.text (generateSeatbeltProfile h.canonicalize req.policy req.workdir)) true ::
  .write .writeWorkdir (join dir (osString "workdir")) (.text (display req.workdir)) true ::
  if (h.toYaml req.policy).isOk then
    [.write .writePolicyCopy (join dir (osString "policy.yaml")) (.policy req.policy) false]
  else []

def mechSteps (M : Machine) (h : MechHost) (kind : MechanismKind) (req : CreateRequest) :
    FilePlan Site FileData :=
  match resolveMechanism M.os kind with
  | .podman | .auto => [.check (PodmanMechanism.starts {} h req)]
  | .mac => M.mac.instanceSteps h req
  | .krun => [.check false]

/-- The steps of `create` before the insertion. -/
def createSteps (M : Machine) (env : ProcessEnv) (name : String) (p : Prepared) :
    FilePlan Site FileData :=
  mechSteps M (env.mechHost M p.proxyPort) p.kind p.request ++
  [.check (p.request.policy.contentHash M.ext).isOk,
   .check (M.ext.toYaml p.request.policy).isOk,
   .write .savePolicy (M.store.policyPath name) (.policy p.request.policy) true]

/-! ## The creation follows its plan -/

section Create

variable {M : Machine} {h : MechHost} {w : World}

theorem podmanCreate_eq {m : PodmanMechanism} {h : MechHost} {req : CreateRequest}
    (heph : req.ephemeral = false) {bin : PathBuf} (hbin : m.runtimeBin h = .ok bin) {arch : String}
    (husable : h.engine.usable = .ok arch) {args : List String}
    (hargs : m.createArgs h req = .ok args) :
    m.create h req = (do
      let id ← PodmanMechanism.runDetached h req.name args
      pure {
        name := req.name, mechanism := .podman,
        runtimeId := if id = "" then containerName req.name else id,
        proxyPort := h.reportedPort, logPath := none, exitCode := none }) := by
  rw [PodmanMechanism.create, hbin, PodmanMechanism.runtimeOk_of_runtimeBin hbin, husable, hargs,
    heph]
  rfl

/-- The engine's answers to a creation. -/
theorem podmanCreate_cases (m : PodmanMechanism) (h : MechHost) {req : CreateRequest}
    (heph : req.ephemeral = false) (w : World) :
    (m.starts h req = false ∧ m.leaves h req = false ∧ ∃ e, m.create h req w = (.error e, w)) ∨
    (m.starts h req = false ∧ m.leaves h req = true ∧ ∃ id e, m.create h req w =
      (.error e, PodmanMechanism.addContainer id (containerName req.name) w)) ∨
    (m.starts h req = true ∧ m.leaves h req = true ∧ ∃ id result,
      result.runtimeId = (if id = "" then containerName req.name else id) ∧
      m.create h req w = (.ok result, PodmanMechanism.addContainer id (containerName req.name) w)) := by
  rw [PodmanMechanism.starts, PodmanMechanism.leaves]
  cases hbin : m.runtimeBin h with
  | error e =>
    refine Or.inl ⟨rfl, rfl, e, ?_⟩
    rw [PodmanMechanism.create, hbin]
    rfl
  | ok bin =>
    cases husable : h.engine.usable with
    | error e =>
      refine Or.inl ⟨rfl, rfl, e, ?_⟩
      rw [PodmanMechanism.create, hbin, PodmanMechanism.runtimeOk_of_runtimeBin hbin, husable]
      rfl
    | ok arch =>
      cases hargs : m.createArgs h req with
      | error e =>
        refine Or.inl ⟨rfl, rfl, e, ?_⟩
        rw [PodmanMechanism.create, hbin, PodmanMechanism.runtimeOk_of_runtimeBin hbin, husable,
          hargs]
        rfl
      | ok args =>
        rw [podmanCreate_eq heph hbin husable hargs]
        dsimp only
        cases hrun : h.engine.run args with
        | notStarted e =>
          refine Or.inl ⟨rfl, rfl, .message e, bind_of_error ?_⟩
          rw [PodmanMechanism.runDetached, hrun]
          rfl
        | failed stderr left =>
          have hfail : PodmanMechanism.runDetached h req.name args w =
              (.error (.message ("create failed: " ++ stderr)),
                (PodmanMechanism.leaveBehind req.name left w).2) := by
            rw [PodmanMechanism.runDetached, hrun]
            cases left <;> rfl
          cases left with
          | none => exact Or.inl ⟨rfl, rfl, _, bind_of_error hfail⟩
          | some id => exact Or.inr (Or.inl ⟨rfl, rfl, id, _, bind_of_error hfail⟩)
        | started stdout =>
          have hstart : PodmanMechanism.runDetached h req.name args w =
              (.ok (trim stdout),
                PodmanMechanism.addContainer (trim stdout) (containerName req.name) w) := by
            rw [PodmanMechanism.runDetached, hrun]
            rfl
          exact Or.inr (Or.inr ⟨rfl, rfl, trim stdout, _, rfl, bind_of_ok hstart⟩)

theorem follows_podmanCreate (m : PodmanMechanism) (h : MechHost) {req : CreateRequest}
    (heph : req.ephemeral = false) (f : Faults) :
    Follows f [.check (m.starts h req)] (m.create h req) w := by
  rcases podmanCreate_cases m h heph w with ⟨hno, -, e, hrun⟩ | ⟨hno, -, id, e, hrun⟩ |
    ⟨hyes, -, id, result, -, hrun⟩
  · exact follows_check (by rw [hrun, hno]; rfl) (by rw [hrun])
  · exact follows_check (by rw [hrun, hno]; rfl) (by rw [hrun]; rfl)
  · exact follows_check (by rw [hrun, hyes]; rfl) (by rw [hrun]; rfl)

/-- The files of an instance, once there is a temporary one. -/
def MacMechanism.makeInstance (m : MacMechanism) (h : MechHost) (req : CreateRequest) :
    Effect World MechanismError CreateResult := do
  let dir := m.instanceDir h req.name
  let profilePath := join dir (osString "profile.sb")
  (World.createDirAll h.faults .createInstance dir).mapError ioMessage
  (World.writeFile h.faults .writeProfile profilePath
    (.text (generateSeatbeltProfile h.canonicalize req.policy req.workdir))).mapError ioMessage
  (World.writeFile h.faults .writeWorkdir (join dir (osString "workdir"))
    (.text (display req.workdir))).mapError ioMessage
  copyPolicy h dir req.policy
  pure {
    name := req.name, mechanism := .mac, runtimeId := "mac:" ++ display profilePath,
    proxyPort := h.reportedPort, logPath := none, exitCode := none }

/-- A persistent creation makes an instance, or stops before. -/
theorem macCreate_cases (m : MacMechanism) (h : MechHost) {req : CreateRequest}
    (heph : req.ephemeral = false) (hcommand : req.command = []) (w : World) :
    ((decide (h.os = .macos) && h.tempFile.isOk) = false ∧ ∃ e, m.create h req w = (.error e, w)) ∨
    ((decide (h.os = .macos) && h.tempFile.isOk) = true ∧
      m.create h req w = m.makeInstance h req w) := by
  unfold MacMechanism.create
  by_cases hos : h.os = .macos
  · rw [if_neg (by simpa using hos), decide_eq_true hos]
    cases htemp : h.tempFile with
    | error e => exact Or.inl ⟨rfl, _, rfl⟩
    | ok file =>
      refine Or.inr ⟨rfl, ?_⟩
      rw [heph, hcommand]
      rfl
  · rw [if_pos hos, decide_eq_false hos]
    exact Or.inl ⟨rfl, _, rfl⟩

theorem follows_copyPolicy (h : MechHost) (dir : PathBuf) (policy : SandboxPolicy) :
    Follows h.faults
      (if (h.toYaml policy).isOk then
        [.write .writePolicyCopy (join dir (osString "policy.yaml")) (.policy policy) false]
      else []) (MacMechanism.copyPolicy h dir policy) w := by
  unfold MacMechanism.copyPolicy
  split
  · exact follows_bind_pure (follows_attempt_change rfl rfl) _
  · exact follows_pure _

theorem follows_makeInstance (m : MacMechanism) (h : MechHost) (req : CreateRequest) :
    Follows h.faults (m.instanceSteps h req).tail (m.makeInstance h req) w := by
  unfold MacMechanism.makeInstance MacMechanism.instanceSteps
  refine follows_bind_cons (follows_mapError (follows_createDirAll _ _)) fun _ _ _ => ?_
  refine follows_bind_cons (follows_mapError (follows_writeFile _ _ _)) fun _ _ _ => ?_
  refine follows_bind_cons (follows_mapError (follows_writeFile _ _ _)) fun _ _ _ => ?_
  exact follows_bind_pure (follows_copyPolicy _ _ _) _

theorem follows_macCreate (m : MacMechanism) (h : MechHost) {req : CreateRequest}
    (heph : req.ephemeral = false) (hcommand : req.command = []) :
    Follows h.faults (m.instanceSteps h req) (m.create h req) w := by
  rcases macCreate_cases m h heph hcommand w with ⟨hno, e, hrun⟩ | ⟨hyes, hrun⟩
  · rw [MacMechanism.instanceSteps, hno]
    exact follows_stop hrun
  · have hmake := follows_makeInstance (w := w) m h req
    rw [Follows, hrun]
    rw [MacMechanism.instanceSteps, hyes]
    exact hmake

theorem follows_mechCreate {M : Machine} (h : MechHost) {kind : MechanismKind}
    {req : CreateRequest} (heph : req.ephemeral = false) (hcommand : req.command = []) :
    Follows h.faults (mechSteps M h kind req) (mechCreate M h kind req) w := by
  unfold mechCreate mechSteps
  cases resolveMechanism M.os kind with
  | podman => exact follows_podmanCreate _ _ heph _
  | auto => exact follows_podmanCreate _ _ heph _
  | mac => exact follows_macCreate _ _ heph hcommand
  | krun => exact follows_stop rfl

theorem isOk_mapError {ε ε' α : Type} (g : ε → ε') (r : Except ε α) :
    (r.mapError g).isOk = r.isOk := by
  cases r <;> rfl

theorem isOk_newRecord (ext : Externals) (uuid : String) (now : ℕ) (name : String)
    (kind : MechanismKind) (runtimeId : String) (policy : SandboxPolicy) (workdir : PathBuf)
    (ephemeral : Bool) (port : Option UInt16) :
    (Store.newRecord ext uuid now name kind runtimeId policy workdir ephemeral port).isOk =
      (policy.contentHash ext).isOk := by
  rw [Store.newRecord]
  cases policy.contentHash ext <;> rfl

theorem follows_savePolicy (st : Store) (ext : Externals) (f : Faults) (name : String)
    (policy : SandboxPolicy) :
    Follows f [.check (ext.toYaml policy).isOk,
      .write .savePolicy (st.policyPath name) (.policy policy) true]
      (st.savePolicy ext f name policy) w := by
  have hyaml : Follows f [.check (ext.toYaml policy).isOk]
      (lift ((ext.toYaml policy).mapError fun m => Store.policyError (.yaml m))) w := by
    rw [← isOk_mapError fun m => Store.policyError (.yaml m)]
    exact follows_lift _
  exact follows_bind_cons hyaml fun _ _ _ =>
    follows_bind_pure (follows_mapError (follows_writeFile _ _ _)) _

theorem follows_makeRecord {M : Machine} {name : String} {p : Prepared} (hp : p.Persistent M name)
    (env : ProcessEnv) :
    Follows env.faults (createSteps M env name p) (makeRecord M env name p) w := by
  unfold makeRecord createSteps
  refine follows_bind (follows_mapError (follows_mechCreate _ hp.ephemeral hp.command))
    fun result w₁ _ => ?_
  have hrecord : Follows env.faults [.check (p.request.policy.contentHash M.ext).isOk]
      (lift ((Store.newRecord M.ext env.uuid env.now name p.kind result.runtimeId p.request.policy
        p.request.workdir false result.proxyPort).mapError CliError.state)) w₁ := by
    rw [← isOk_newRecord M.ext env.uuid env.now name p.kind result.runtimeId _ p.request.workdir
      false result.proxyPort, ← isOk_mapError CliError.state]
    exact follows_lift _
  refine follows_bind_cons hrecord fun record w₂ _ => follows_bind_pure
    (follows_mapError (follows_savePolicy _ _ _ _ _)) _

end Create

/-! ## What the steps come to

Which steps of a creation go through, read off the files before it.  `made` are directories that
stand by then without standing in `fs`. -/

namespace Machine

section Stages

variable (M : Machine) (env : ProcessEnv) (name : String) (fs : FileSystem FileData)
  (made : List Location)

/-- The mac mechanism makes the directory of the instance. -/
def makesInstance : Bool :=
  decide (M.os = .macos) && env.tempFile.isOk &&
    FilePlan.makes env.faults fs .createInstance (M.instanceAt fs.cwd name)

/-- The write of a file in that directory goes through. -/
def writesInstance (site : Site) (file : String) : Bool :=
  FilePlan.writes env.faults fs (M.instanceAt fs.cwd name :: made) site
    (M.instanceFile fs.cwd name file)

/-- The mechanism gets to its end. -/
def mechGoes (p : Prepared) : Bool :=
  match p.kind with
  | .podman | .auto => PodmanMechanism.starts {} (env.mechHost M p.proxyPort) p.request
  | .mac =>
    M.makesInstance env name fs && M.writesInstance env name fs made .writeProfile "profile.sb" &&
      M.writesInstance env name fs made .writeWorkdir "workdir"
  | .krun => false

/-- The policy of the request is written: it has a hash and a text, and its file can be
    written. -/
def writesPolicy (p : Prepared) : Bool :=
  (p.request.policy.contentHash M.ext).isOk && (M.ext.toYaml p.request.policy).isOk &&
    FilePlan.writes env.faults fs
      (if p.kind = .mac then M.instanceAt fs.cwd name :: made else made)
      .savePolicy (M.store.policyAt fs.cwd name)

/-- Every step before the insertion goes through. -/
def stores (p : Prepared) : Bool :=
  M.mechGoes env name fs made p && M.writesPolicy env name fs made p

/-- The files of the instance hold what the creation writes there, as far as it gets. -/
def HoldsInstance (req : CreateRequest) : Prop :=
  M.makesInstance env name fs = true →
    M.writesInstance env name fs made .writeProfile "profile.sb" = true →
      fs.fileAt (M.instanceFile fs.cwd name "profile.sb") =
        some (.text (generateSeatbeltProfile env.canonicalize req.policy req.workdir)) ∧
      (M.writesInstance env name fs made .writeWorkdir "workdir" = true →
        fs.fileAt (M.instanceFile fs.cwd name "workdir") = some (.text (display req.workdir)) ∧
        ((M.ext.toYaml req.policy).isOk = true →
          M.writesInstance env name fs made .writePolicyCopy "policy.yaml" = true →
          fs.fileAt (M.instanceFile fs.cwd name "policy.yaml") = some (.policy req.policy)))

/-- The files of the sandbox hold what the creation writes there, as far as it gets. -/
def HoldsCreated (p : Prepared) : Prop :=
  (p.kind = .mac → M.HoldsInstance env name fs made p.request) ∧
  (M.stores env name fs made p = true →
    fs.fileAt (M.store.policyAt fs.cwd name) = some (.policy p.request.policy))

end Stages

variable {M : Machine} {env : ProcessEnv} {name : String} {fs : FileSystem FileData} {p : Prepared}

/-- The steps after the directory of the instance. -/
def fileSteps (M : Machine) (env : ProcessEnv) (name : String) (req : CreateRequest) :
    FilePlan Site FileData :=
  .write .writeProfile (join (M.instancePath name) (osString "profile.sb"))
    (.text (generateSeatbeltProfile env.canonicalize req.policy req.workdir)) true ::
  .write .writeWorkdir (join (M.instancePath name) (osString "workdir"))
    (.text (display req.workdir)) true ::
  (if (M.ext.toYaml req.policy).isOk then
    [.write .writePolicyCopy (join (M.instancePath name) (osString "policy.yaml"))
      (.policy req.policy) false]
  else [])

/-- The steps after the mechanism. -/
def policySteps (M : Machine) (name : String) (req : CreateRequest) : FilePlan Site FileData :=
  [.check (req.policy.contentHash M.ext).isOk, .check (M.ext.toYaml req.policy).isOk,
   .write .savePolicy (M.store.policyPath name) (.policy req.policy) true]

theorem createSteps_eq (hp : p.Persistent M name) :
    createSteps M env name p =
      match p.kind with
      | .podman | .auto =>
        .check (PodmanMechanism.starts {} (env.mechHost M p.proxyPort) p.request) ::
          policySteps M name p.request
      | .mac =>
        .check (decide (M.os = .macos) && env.tempFile.isOk) ::
        .makeDirs .createInstance (M.instancePath name) ::
        (fileSteps M env name p.request ++ policySteps M name p.request)
      | .krun => .check false :: policySteps M name p.request := by
  rw [createSteps, mechSteps, hp.resolved]
  cases p.kind with
  | podman => rfl
  | auto => rfl
  | krun => rfl
  | mac =>
    rw [MacMechanism.instanceSteps, hp.name_eq]
    rfl

theorem keepsDirs_policySteps (req : CreateRequest) :
    ∀ step ∈ policySteps M name req, step.keepsDirs = true := by
  intro step hstep
  simp only [policySteps, List.mem_cons, List.not_mem_nil, or_false] at hstep
  rcases hstep with rfl | rfl | rfl <;> rfl

/-- The policy stage of the plan, on files that have the directories `made`. -/
theorem run_policySteps (req : CreateRequest) :
    (FilePlan.run env.faults fs (policySteps M name req)).1 =
      ((req.policy.contentHash M.ext).isOk && (M.ext.toYaml req.policy).isOk &&
        FilePlan.writes env.faults fs [] .savePolicy (M.store.policyAt fs.cwd name)) := by
  rw [policySteps, FilePlan.run_check, FilePlan.run_check, FilePlan.run_write (by simp)]
  simp [FilePlan.run, Bool.and_assoc, Store.policyAt, locate]

theorem forall_performed_policySteps {req : CreateRequest} {P : Location × FileData → Prop} :
    (∀ e ∈ FilePlan.performed env.faults fs (policySteps M name req), P e) ↔
      ((req.policy.contentHash M.ext).isOk = true → (M.ext.toYaml req.policy).isOk = true →
        FilePlan.writes env.faults fs [] .savePolicy (M.store.policyAt fs.cwd name) = true →
        P (M.store.policyAt fs.cwd name, .policy req.policy)) := by
  rw [policySteps, FilePlan.forall_performed_check, FilePlan.forall_performed_check,
    FilePlan.forall_performed_write (by simp)]
  simp [FilePlan.performed, Store.policyAt, locate]

theorem locate_instanceFile {file : String} (hfile : IsName (osString file)) :
    fs.locate (join (M.instancePath name) (osString file)) = M.instanceFile fs.cwd name file :=
  M.resolve_instanceFile fs.cwd name hfile

theorem keepsDirs_copy (M : Machine) (name : String) (req : CreateRequest)
    {rest : FilePlan Site FileData} (hrest : ∀ step ∈ rest, step.keepsDirs = true) :
    ∀ step ∈ (if (M.ext.toYaml req.policy).isOk then
      [FileStep.write Site.writePolicyCopy (join (M.instancePath name) (osString "policy.yaml"))
        (FileData.policy req.policy) false]
      else []) ++ rest, step.keepsDirs = true := by
  intro step hstep
  rcases List.mem_append.mp hstep with hcopy | hlater
  · split at hcopy
    · obtain rfl := List.mem_singleton.mp hcopy
      rfl
    · exact nomatch hcopy
  · exact hrest step hlater

/-- The files of the instance: the copy of the policy may fail. -/
theorem run_fileSteps (req : CreateRequest) {rest : FilePlan Site FileData}
    (hrest : ∀ step ∈ rest, step.keepsDirs = true) :
    (FilePlan.run env.faults fs (fileSteps M env name req ++ rest)).1 =
      (FilePlan.writes env.faults fs [] .writeProfile (M.instanceFile fs.cwd name "profile.sb") &&
        FilePlan.writes env.faults fs [] .writeWorkdir (M.instanceFile fs.cwd name "workdir") &&
        (FilePlan.run env.faults fs rest).1) := by
  have hcopy := keepsDirs_copy M name req hrest
  have hlast : (FilePlan.run env.faults fs ((if (M.ext.toYaml req.policy).isOk then
      [FileStep.write Site.writePolicyCopy (join (M.instancePath name) (osString "policy.yaml"))
        (FileData.policy req.policy) false]
      else []) ++ rest)).1 = (FilePlan.run env.faults fs rest).1 := by
    split
    · rw [List.singleton_append, FilePlan.run_write hrest]
      simp
    · rfl
  rw [fileSteps, List.cons_append, List.cons_append,
    FilePlan.run_write (List.forall_mem_cons.mpr ⟨rfl, hcopy⟩), FilePlan.run_write hcopy, hlast,
    locate_instanceFile (by decide), locate_instanceFile (by decide)]
  simp [Bool.and_assoc]

theorem forall_performed_fileSteps {req : CreateRequest} {rest : FilePlan Site FileData}
    (hrest : ∀ step ∈ rest, step.keepsDirs = true) {P : Location × FileData → Prop} :
    (∀ e ∈ FilePlan.performed env.faults fs (fileSteps M env name req ++ rest), P e) ↔
      (FilePlan.writes env.faults fs [] .writeProfile (M.instanceFile fs.cwd name "profile.sb") =
          true →
        P (M.instanceFile fs.cwd name "profile.sb",
          .text (generateSeatbeltProfile env.canonicalize req.policy req.workdir)) ∧
        (FilePlan.writes env.faults fs [] .writeWorkdir (M.instanceFile fs.cwd name "workdir") =
            true →
          P (M.instanceFile fs.cwd name "workdir", .text (display req.workdir)) ∧
          ((M.ext.toYaml req.policy).isOk = true →
            FilePlan.writes env.faults fs [] .writePolicyCopy
              (M.instanceFile fs.cwd name "policy.yaml") = true →
            P (M.instanceFile fs.cwd name "policy.yaml", .policy req.policy)) ∧
          ∀ e ∈ FilePlan.performed env.faults fs rest, P e)) := by
  have hcopy := keepsDirs_copy M name req hrest
  have hlast : (∀ e ∈ FilePlan.performed env.faults fs ((if (M.ext.toYaml req.policy).isOk then
      [FileStep.write Site.writePolicyCopy (join (M.instancePath name) (osString "policy.yaml"))
        (FileData.policy req.policy) false]
      else []) ++ rest), P e) ↔
      ((M.ext.toYaml req.policy).isOk = true →
        FilePlan.writes env.faults fs [] .writePolicyCopy
          (M.instanceFile fs.cwd name "policy.yaml") = true →
        P (M.instanceFile fs.cwd name "policy.yaml", .policy req.policy)) ∧
      ∀ e ∈ FilePlan.performed env.faults fs rest, P e := by
    split
    · rename_i hyaml
      rw [List.singleton_append, FilePlan.forall_performed_optional hrest,
        locate_instanceFile (by decide)]
      simp [hyaml]
    · rename_i hyaml
      simp [hyaml]
  rw [fileSteps, List.cons_append, List.cons_append,
    FilePlan.forall_performed_write (List.forall_mem_cons.mpr ⟨rfl, hcopy⟩),
    FilePlan.forall_performed_write hcopy, hlast, locate_instanceFile (by decide),
    locate_instanceFile (by decide)]

/-- **Whether a creation gets to the insertion**, read off the files before it. -/
theorem run_createSteps (hp : p.Persistent M name) :
    (FilePlan.run env.faults fs (createSteps M env name p)).1 = M.stores env name fs [] p := by
  rw [createSteps_eq hp, stores, mechGoes, writesPolicy]
  cases hkind : p.kind with
  | krun => rfl
  | podman => simp [FilePlan.run_check, run_policySteps]
  | auto => simp [FilePlan.run_check, run_policySteps]
  | mac =>
    dsimp only
    rw [FilePlan.run_check, makesInstance]
    cases hmakes : FilePlan.makes env.faults fs .createInstance (M.instanceAt fs.cwd name) with
    | false =>
      rw [FilePlan.run_makeDirs_of_not_makes hmakes]
      simp
    | true =>
      obtain ⟨fs', hmake, hrun⟩ := FilePlan.run_makeDirs_of_makes hmakes
        (fileSteps M env name p.request ++ policySteps M name p.request)
      have hcwd : fs'.cwd = fs.cwd := by
        obtain ⟨-, rfl⟩ := createDirAll_eq_ok_iff.mp hmake
        rfl
      rw [hrun, run_fileSteps _ (keepsDirs_policySteps _), run_policySteps,
        FilePlan.writes_createDirAll hmake, FilePlan.writes_createDirAll hmake,
        FilePlan.writes_createDirAll hmake, hcwd]
      simp [writesInstance, instanceAt, locate, Bool.and_assoc]

/-- **What a creation writes**, read off the files before it. -/
theorem holdsCreated_iff (hp : p.Persistent M name) :
    (∀ e ∈ FilePlan.performed env.faults fs (createSteps M env name p),
      fs.fileAt e.1 = some e.2) ↔ M.HoldsCreated env name fs [] p := by
  rw [createSteps_eq hp, HoldsCreated, stores, mechGoes, writesPolicy]
  cases hkind : p.kind with
  | krun =>
    dsimp only
    rw [FilePlan.forall_performed_check]
    simp
  | podman =>
    dsimp only
    rw [FilePlan.forall_performed_check, forall_performed_policySteps]
    simp
  | auto =>
    dsimp only
    rw [FilePlan.forall_performed_check, forall_performed_policySteps]
    simp
  | mac =>
    dsimp only
    rw [FilePlan.forall_performed_check, FilePlan.forall_performed_makeDirs, HoldsInstance,
      makesInstance]
    cases hmakes : FilePlan.makes env.faults fs .createInstance (M.instanceAt fs.cwd name) with
    | false =>
      have hno : FilePlan.makes env.faults fs .createInstance (fs.locate (M.instancePath name)) =
          false := hmakes
      simp [hno]
    | true =>
      obtain ⟨fs', hmake, -⟩ := FilePlan.next_makeDirs_of_makes hmakes
      have hcwd : fs'.cwd = fs.cwd := by
        obtain ⟨-, rfl⟩ := createDirAll_eq_ok_iff.mp hmake
        rfl
      have hplan : (∀ fs'', fs.createDirAll (M.instancePath name) = .ok fs'' →
          ∀ e ∈ FilePlan.performed env.faults fs''
            (fileSteps M env name p.request ++ policySteps M name p.request),
            fs.fileAt e.1 = some e.2) ↔
          ∀ e ∈ FilePlan.performed env.faults fs'
            (fileSteps M env name p.request ++ policySteps M name p.request),
            fs.fileAt e.1 = some e.2 := by
        rw [hmake]
        exact ⟨fun h => h fs' rfl, fun h fs'' hsame => by rw [← Except.ok.inj hsame]; exact h⟩
      have hplace : fs.locate (M.instancePath name) = M.instanceAt fs.cwd name := rfl
      rw [hplan, forall_performed_fileSteps (keepsDirs_policySteps _), forall_performed_policySteps]
      simp only [FilePlan.writes_createDirAll hmake, hcwd, hplace, hmakes, writesInstance,
        Bool.and_eq_true, true_implies, and_true, if_true]
      constructor
      · intro h
        refine ⟨fun hready hprofile => ?_, fun ⟨⟨⟨hready, hprofile⟩, hworkdir⟩, hpolicy⟩ => ?_⟩
        · obtain ⟨hheld, hlater⟩ := h hready hprofile
          exact ⟨hheld, fun hworkdir => ⟨(hlater hworkdir).1, (hlater hworkdir).2.1⟩⟩
        · obtain ⟨⟨hhash, hyaml⟩, hwrites⟩ := hpolicy
          exact ((h hready hprofile).2 hworkdir).2.2 hhash hyaml hwrites
      · rintro ⟨hinstance, hstored⟩ hready hprofile
        obtain ⟨hheld, hlater⟩ := hinstance hready hprofile
        refine ⟨hheld, fun hworkdir => ⟨(hlater hworkdir).1, (hlater hworkdir).2, ?_⟩⟩
        exact fun hhash hyaml hwrites =>
          hstored ⟨⟨⟨hready, hprofile⟩, hworkdir⟩, ⟨hhash, hyaml⟩, hwrites⟩

/-- Directories that stand already may as well be made first. -/
theorem holdsCreated_of_madeFrom {dirs : List Location} {fs' : FileSystem FileData}
    (h : MadeFrom fs dirs fs') :
    M.HoldsCreated env name fs' [] p ↔ M.HoldsCreated env name fs dirs p := by
  simp only [HoldsCreated, HoldsInstance, stores, mechGoes, writesPolicy, makesInstance,
    writesInstance, FilePlan.writes_of_madeFrom h, FilePlan.makes_of_madeFrom h, h.cwd, h.files]
  by_cases hmac : p.kind = .mac
  · simp [hmac]
  · simp [hmac]

end Machine

end SimpleSandbox
