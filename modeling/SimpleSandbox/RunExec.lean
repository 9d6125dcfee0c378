import SimpleSandbox.FailedCreate
import SimpleSandbox.PolicyHash

/-!
# Running at once and entering later

`run` hands the mac mechanism a request and spawns the child at once; `create` writes profile,
working directory and policy into an instance, and `exec`, a process of its own, reads them back
from there.  What reaches the child agrees but for three slips: `exec` brings no secrets, `run`
takes a killed child for a success, and `create` and `exec` ignore failures of some of the files.
-/

namespace SimpleSandbox

open RustText OsPath FileSystem Effect World

/-! ## Programs that spawn no child -/

section Children

variable {ε α β : Type}

/-- No child was spawned. -/
def SameChildren (w w' : World) : Prop := w'.children = w.children

theorem sameChildren_trans {w₁ w₂ w₃ : World} (h₁ : SameChildren w₁ w₂) (h₂ : SameChildren w₂ w₃) :
    SameChildren w₁ w₃ := Eq.trans h₂ h₁

theorem childless_bind {m : Effect World ε α} {g : α → Effect World ε β}
    (hm : Preserves SameChildren m) (hg : ∀ a, Preserves SameChildren (g a)) :
    Preserves SameChildren (m >>= g) :=
  Preserves.bind (R := SameChildren) sameChildren_trans hm hg

theorem childless_change (f : Faults) (site : Site) (p : PathBuf)
    (op : FileSystem FileData → Except IoError (FileSystem FileData)) :
    Preserves SameChildren (change f site p op) := by
  intro w
  rcases change_cases f site p op w with ⟨fs, -, -, hrun⟩ | ⟨e, hrun⟩
  · rw [hrun]
    rfl
  · rw [hrun]
    rfl

theorem childless_writeIndex (st : Store) (f : Faults) (site : Site) (s : SandboxState) :
    Preserves SameChildren (st.writeIndex f site s) := by
  unfold Store.writeIndex
  split
  · exact Preserves.mapError (childless_change f site _ _) _
  · exact fun _ => rfl

theorem childless_openAt (root : PathBuf) (f : Faults) :
    Preserves SameChildren (Store.openAt root f) := by
  have hdir : ∀ site p, Preserves SameChildren
      ((World.createDirAll f site p).mapError StateError.io) :=
    fun site p => Preserves.mapError (childless_change f site _ _) _
  unfold Store.openAt
  refine childless_bind (hdir _ _) fun _ => childless_bind (hdir _ _) fun _ =>
    childless_bind (hdir _ _) fun _ => childless_bind (hdir _ _) fun _ => ?_
  refine childless_bind (fun _ => rfl) fun w => ?_
  split
  · exact childless_bind (childless_writeIndex _ f _ _) fun _ _ => rfl
  · exact fun _ => rfl

end Children

/-! ## What the child of an `exec` is given -/

namespace MacMechanism

/-- The text of the profile that `sandbox-exec` reads. -/
def profileIn (profilePath : PathBuf) (w : World) : Option String :=
  match w.fs.read profilePath with
  | .ok (.text contents) => some contents
  | _ => none

/-- The working directory that is read back from an instance. -/
def workdirIn (h : MechHost) (dir : PathBuf) (w : World) : PathBuf :=
  match (World.readFile h.faults .readWorkdir (join dir (osString "workdir")) w).1 with
  | .ok (.text workdir) => osString workdir
  | _ => osString "."

/-- The policy that is read back from an instance. -/
def policyIn (h : MechHost) (dir : PathBuf) (w : World) : SandboxPolicy :=
  match (World.readFile h.faults .readPolicyCopy (join dir (osString "policy.yaml")) w).1 with
  | .ok (.policy p) => p
  | _ => {}

theorem exec_eq (h : MechHost) (req : ExecRequest) {profilePath dir : PathBuf}
    (hid : profileOfRuntime req.runtimeId = .ok (profilePath, dir)) (w : World) :
    exec h req w =
      spawnSandboxed h profilePath (profileIn profilePath w) (policyIn h dir w) (workdirIn h dir w)
        req.command req.env w := by
  have hparse : parseMacRuntime h req.runtimeId w = (.ok (profilePath, workdirIn h dir w), w) := by
    rw [parseMacRuntime, hid, lift_ok_bind, workdirIn]
    change (attempt (readFile h.faults .readWorkdir (join dir (osString "workdir"))) >>= _) w = _
    rw [bind_of_ok (attempt_apply _ w)]
    rcases (readFile h.faults .readWorkdir (join dir (osString "workdir")) w).1 with e | data
    · rfl
    · cases data <;> rfl
  have hcopy : readCopy h profilePath w =
      (.ok (readFile h.faults .readPolicyCopy (join dir (osString "policy.yaml")) w).1, w) := by
    rw [readCopy, parent_of_profileOfRuntime hid]
    rfl
  rw [exec, bind_of_ok hparse]
  dsimp only
  rw [bind_of_ok hcopy, bind_of_ok (state_apply w)]
  rfl

/-- Spawning a child, or failing before. -/
theorem spawnSandboxed_cases (h : MechHost) (profilePath : PathBuf) (profile : Option String)
    (policy : SandboxPolicy) (workdir : PathBuf) (command : List String)
    (env : List (String × String)) (w : World) :
    (∃ e, spawnSandboxed h profilePath profile policy workdir command env w = (.error e, w)) ∨
    ∃ program, spawnSandboxed h profilePath profile policy workdir command env w =
      ((h.spawn ⟨program, profile, policy, workdir, env ++ proxyEnv h policy⟩).mapError
          fun e => .message ("sandbox-exec failed: " ++ e),
        { w with children := w.children ++
          [⟨program, profile, policy, workdir, env ++ proxyEnv h policy⟩] }) := by
  unfold spawnSandboxed
  cases h.sandboxExec with
  | none => exact Or.inl ⟨_, rfl⟩
  | some sandboxExec => exact Or.inr ⟨_, rfl⟩

theorem proxyEnv_of_ne {h : MechHost} {policy : SandboxPolicy}
    (hmode : policy.network.mode ≠ .allowlist) : proxyEnv h policy = [] := if_neg hmode

/-- An ephemeral creation fails, or spawns the child of its request. -/
theorem create_ephemeral_cases (m : MacMechanism) {h : MechHost} {req : CreateRequest}
    (heph : req.ephemeral = true) (w : World) :
    (∃ e, m.create h req w = (.error e, w)) ∨
    ∃ c : ChildSpec, c.profile = some (generateSeatbeltProfile h.canonicalize req.policy req.workdir) ∧
      c.policy = req.policy ∧ c.workdir = req.workdir ∧ c.env = req.env ++ proxyEnv h req.policy ∧
      (m.create h req w).2 = { w with children := w.children ++ [c] } ∧
      ∀ status, h.spawn c = .ok status →
        ∃ result, m.create h req w = (.ok result, { w with children := w.children ++ [c] }) ∧
          result.exitCode = status.code := by
  rw [create]
  by_cases hos : h.os = .macos
  · rw [if_neg (by simpa using hos)]
    cases htemp : h.tempFile with
    | error e => exact Or.inl ⟨.message e, rfl⟩
    | ok file =>
      have hfile : (lift ((Except.ok file : Except String PathBuf).mapError MechanismError.message) :
          Effect World MechanismError PathBuf) w = (.ok file, w) := rfl
      rw [bind_of_ok hfile, heph]
      simp only [Bool.true_or, ↓reduceIte]
      rcases spawnSandboxed_cases h file
        (some (generateSeatbeltProfile h.canonicalize req.policy req.workdir)) req.policy req.workdir
        req.command req.env w with ⟨e, hrun⟩ | ⟨program, hrun⟩
      · exact Or.inl ⟨e, bind_of_error hrun⟩
      · refine Or.inr ⟨⟨program, some (generateSeatbeltProfile h.canonicalize req.policy req.workdir),
          req.policy, req.workdir, req.env ++ proxyEnv h req.policy⟩, rfl, rfl, rfl, rfl, ?_,
          fun status hstatus => ?_⟩
        · rw [bind_pure_snd, hrun]
        · rw [hstatus] at hrun
          rw [bind_of_ok hrun]
          exact ⟨_, rfl, rfl⟩
  · rw [if_pos hos]
    exact Or.inl ⟨_, rfl⟩

end MacMechanism

/-! ## Preparing -/

/-- What a prepared request is made of. -/
theorem prepare_parts {M : Machine} {env : ProcessEnv} {name : String} {args : PolicyArgs}
    {choose : MechanismKind → MechanismKind} {ephemeral : Bool} {command : List String}
    {p : Prepared} {policy : SandboxPolicy} (hload : loadPolicy args = .ok policy)
    (hmac : policy.mechanism = some .mac) (hchoose : choose .mac = .mac)
    (h : prepare M env name args choose ephemeral command = .ok p) :
    p.kind = .mac ∧ p.request.policy = policy ∧ env.workdir = .ok p.request.workdir ∧
    ∃ secretDir secrets, env.secretDir = .ok secretDir ∧
      resolveSecrets env.secretHost policy.secrets secretDir = .ok secrets ∧
      secrets.toEnvPairs env.secretHost = .ok p.request.env := by
  obtain ⟨loaded, hloaded, hp⟩ := from_of_prepare h
  obtain rfl : policy = loaded := Except.ok.inj (hload.symm.trans hloaded)
  have hkind : p.kind = .mac := by
    rw [hp.kind, SandboxPolicy.mechanismOrAuto, hmac]
    exact hchoose
  refine ⟨hkind, ?_, hp.workdir, hp.secrets⟩
  rw [hp.policy, hkind, ← hmac]

theorem preferAvailable_mac (M : Machine) (env : ProcessEnv) :
    preferAvailable M env .mac = .mac := by
  simp [preferAvailable, resolveMechanism]

/-! ## Secrets -/

theorem SecretMap.insert_ne_nil (m : SecretMap) (env : String) (buf : List UInt8) :
    m.insert env buf ≠ [] := by
  rw [SecretMap.insert]
  split
  · rename_i hany
    intro hnil
    rw [List.map_eq_nil_iff.mp hnil] at hany
    cases hany
  · simp

theorem resolveSecrets_ne_nil {h : SecretHost} {refs : List SecretRef} {dir : PathBuf}
    {m : SecretMap} (hrefs : refs ≠ []) (hm : resolveSecrets h refs dir = .ok m) : m ≠ [] := by
  obtain ⟨before, last, rfl⟩ := (List.eq_nil_or_concat' refs).resolve_left hrefs
  rw [resolveSecrets, List.foldlM_append] at hm
  obtain ⟨m₁, -, hlast⟩ := except_bind_eq_ok hm
  obtain ⟨m₂, hone, hend⟩ := except_bind_eq_ok hlast
  obtain ⟨bytes, -, hbuf⟩ := except_bind_eq_ok hone
  obtain ⟨buf, -, hinsert⟩ := except_bind_eq_ok hbuf
  rw [← Except.ok.inj hend, ← Except.ok.inj hinsert]
  exact SecretMap.insert_ne_nil m₁ last.env buf

theorem eq_nil_of_mapM {ε α β : Type} {f : α → Except ε β} {l : List α}
    (h : l.mapM f = .ok []) : l = [] := by
  cases l with
  | nil => rfl
  | cons a rest =>
    rw [List.mapM_cons] at h
    obtain ⟨b, -, hrest⟩ := except_bind_eq_ok h
    obtain ⟨bs, -, hend⟩ := except_bind_eq_ok hrest
    cases Except.ok.inj hend

/-- Secrets reach the environment: it is empty only for a policy without any. -/
theorem env_eq_nil_iff {h : SecretHost} (hiterate : ∀ m, (h.iterate m).Perm m)
    {refs : List SecretRef} {dir : PathBuf} {m : SecretMap} {env : List (String × String)}
    (hm : resolveSecrets h refs dir = .ok m) (henv : m.toEnvPairs h = .ok env) :
    env = [] ↔ refs = [] := by
  constructor
  · rintro rfl
    by_contra hrefs
    have hnone : h.iterate m = [] := eq_nil_of_mapM henv
    have hperm := hiterate m
    rw [hnone] at hperm
    exact resolveSecrets_ne_nil hrefs hm hperm.nil_eq.symm
  · rintro rfl
    obtain rfl : [] = m := Except.ok.inj hm
    have hnone : h.iterate [] = [] := (hiterate []).eq_nil
    rw [SecretMap.toEnvPairs, hnone] at henv
    exact (Except.ok.inj henv).symm

/-- Opening spawns no child. -/
theorem ssbx_childless_cases (M : Machine) (env : ProcessEnv) (cmd : Command) (w : World) :
    ∃ w₁, SameChildren w w₁ ∧ M.Opened w w₁ ∧
      (ssbx M env cmd w = execute M env cmd w₁ ∨ ∃ e, ssbx M env cmd w = (.error e, w₁)) := by
  refine ⟨_, childless_openAt M.root env.faults w, Machine.opened_openAt env.faults w, ?_⟩
  rcases hopen : Store.openAt M.root env.faults w with ⟨e | st, w₁⟩
  · exact Or.inr ⟨.state e, Machine.ssbx_of_not_opened hopen cmd⟩
  · exact Or.inl (Machine.ssbx_of_opened hopen cmd)

/-- The request of an entry. -/
def enterRequest (r : SandboxRecord) (command : List String) : ExecRequest where
  name := r.name
  runtimeId := r.runtimeId
  command := command
  env := []
  tty := true
  cwd := some "/workspace"

/-- What an entry with the mac mechanism does once the index is touched. -/
def enterRecord (M : Machine) (env : ProcessEnv) (command : List String) (r : SandboxRecord) :
    Effect World CliError ℕ := do
  let status ← (MacMechanism.exec (env.mechHost M env.inheritedPort)
    (enterRequest r command)).mapError .mechanism
  pure (status.code.getD 1 % 256)

/-- The child of an entry into an instance. -/
def enteredChild (h : MechHost) (profilePath dir : PathBuf) (program : List String) (w : World) :
    ChildSpec where
  program := program
  profile := MacMechanism.profileIn profilePath w
  policy := MacMechanism.policyIn h dir w
  workdir := MacMechanism.workdirIn h dir w
  env := [] ++ MacMechanism.proxyEnv h (MacMechanism.policyIn h dir w)

/-- Entering a record of the mac mechanism: the index is touched, then a child is spawned. -/
theorem execRecord_cases (M : Machine) (env : ProcessEnv) (command : List String)
    {r : SandboxRecord} (hkind : r.mechanism = .mac) {profilePath dir : PathBuf}
    (hid : MacMechanism.profileOfRuntime r.runtimeId = .ok (profilePath, dir)) (w : World) :
    (∃ e, (execRecord M env command r w).1 = .error e ∧
      SameChildren w (execRecord M env command r w).2) ∨
    ∃ s program, execRecord M env command r w =
      (((env.spawn (enteredChild (env.mechHost M env.inheritedPort) profilePath dir program
            (M.store.withIndex s w))).mapError
          fun e => .mechanism (.message ("sandbox-exec failed: " ++ e))).map
            fun status => status.code.getD 1 % 256,
        { M.store.withIndex s w with children := w.children ++
          [enteredChild (env.mechHost M env.inheritedPort) profilePath dir program
            (M.store.withIndex s w)] }) := by
  rw [execRecord, Store.touchLastUsed_eq_modify]
  rcases Store.modify_cases M.store env.faults (fun s => .ok ((), s.touch r.name)) w with
    ⟨s, u, s', -, -, -, -, htouch⟩ | ⟨e, htouch⟩
  · rw [bind_of_ok (mapError_eq_ok_iff.mpr htouch), hkind]
    dsimp only
    change (∃ e, (enterRecord M env command r (M.store.withIndex s' w)).1 = .error e ∧
      SameChildren w (enterRecord M env command r (M.store.withIndex s' w)).2) ∨
      ∃ s program, enterRecord M env command r (M.store.withIndex s' w) = _
    have hexec := MacMechanism.exec_eq (env.mechHost M env.inheritedPort) (enterRequest r command)
      hid (M.store.withIndex s' w)
    rcases MacMechanism.spawnSandboxed_cases (env.mechHost M env.inheritedPort) profilePath
      (MacMechanism.profileIn profilePath (M.store.withIndex s' w))
      (MacMechanism.policyIn (env.mechHost M env.inheritedPort) dir (M.store.withIndex s' w))
      (MacMechanism.workdirIn (env.mechHost M env.inheritedPort) dir (M.store.withIndex s' w))
      command [] (M.store.withIndex s' w) with ⟨e, hspawn⟩ | ⟨program, hspawn⟩
    · have hfail := hexec.trans hspawn
      refine Or.inl ⟨.mechanism e, ?_, ?_⟩
      · rw [enterRecord, bind_of_error (mapError_eq_error_iff.mpr ⟨e, rfl, hfail⟩)]
      · rw [enterRecord, bind_of_error (mapError_eq_error_iff.mpr ⟨e, rfl, hfail⟩)]
        rfl
    · have hrun := hexec.trans hspawn
      refine Or.inr ⟨s', program, ?_⟩
      change _ =
        ((((env.mechHost M env.inheritedPort).spawn ⟨program, _, _, _, _⟩).mapError _).map _, _)
      rw [enterRecord, bind_apply, mapError, hrun]
      rcases (env.mechHost M env.inheritedPort).spawn _ with e | status
      · rfl
      · rfl
  · refine Or.inl ⟨.state e, ?_, ?_⟩
    · rw [bind_of_error (mapError_eq_error_iff.mpr ⟨e, rfl, htouch⟩)]
    · rw [bind_of_error (mapError_eq_error_iff.mpr ⟨e, rfl, htouch⟩)]
      rfl

/-! ## What a creation leaves -/

section Created

variable {M : Machine} {env : ProcessEnv} {name : String} {p : Prepared} {w w' : World}

/-- A creation that goes through has made and inserted its record. -/
theorem createPrepared_ok {u : Unit} (h : createPrepared M env name p w = (.ok u, w')) :
    ∃ r w₁ s r' s', makeRecord M env name p w = (.ok r, w₁) ∧ M.store.index w₁ = some s ∧
      s.insert r env.insertUuid = .ok (r', s') ∧ s'.serializable = true ∧
      w' = M.store.withIndex s' w₁ := by
  rw [createPrepared_eq] at h
  obtain ⟨r, w₁, hmake, hrest⟩ := bind_eq_ok_iff.mp h
  obtain ⟨r₁, w₂, hinsert, hlast⟩ := bind_eq_ok_iff.mp hrest
  obtain rfl : w₂ = w' := (Prod.mk.inj hlast).2
  have hdone := mapError_eq_ok_iff.mp hinsert
  rw [Store.insert_eq_modify] at hdone
  rcases Store.modify_cases M.store env.faults (·.insert r env.insertUuid) w₁ with
    ⟨s, r', s', -, hs, hop, hsave, hrun⟩ | ⟨e, hrun⟩
  · rw [hrun] at hdone
    exact ⟨r, w₁, s, r', s', hmake, hs, hop, Store.serializable_of_saves hsave,
      (Prod.mk.inj hdone).2.symm⟩
  · rw [hrun] at hdone
    cases hdone

/-- The files of an instance that are written before the creation can go on. -/
theorem fileAt_of_makeRecord (hp : p.Persistent M name) (hmac : p.kind = .mac) {r : SandboxRecord}
    {w₁ : World} (hmake : makeRecord M env name p w = (.ok r, w₁)) :
    w₁.fileAt (M.instanceFile w.fs.cwd name "profile.sb") = some (.text
        (generateSeatbeltProfile env.canonicalize p.request.policy p.request.workdir)) ∧
    w₁.fileAt (M.instanceFile w.fs.cwd name "workdir") =
      some (.text (display p.request.workdir)) := by
  have hfollows := follows_makeRecord (w := w) hp env
  rw [Follows, hmake] at hfollows
  obtain ⟨hok, hfs⟩ := hfollows
  have hsteps : M.mac.instanceSteps (env.mechHost M p.proxyPort) p.request ⊆
      createSteps M env name p := by
    rw [createSteps, mechSteps, hp.resolved, hmac]
    exact List.subset_append_left _ _
  have hwritten : ∀ (site : Site) (file : String) (data : FileData), IsName (osString file) →
      .write site (join (M.mac.instanceDir (env.mechHost M p.proxyPort) p.request.name)
        (osString file)) data true ∈ M.mac.instanceSteps (env.mechHost M p.proxyPort) p.request →
      w₁.fileAt (M.instanceFile w.fs.cwd name file) = some data := by
    intro site file data hfile hstep
    have hplace : resolve w.fs.cwd (join (M.mac.instanceDir (env.mechHost M p.proxyPort)
        p.request.name) (osString file)) = M.instanceFile w.fs.cwd name file := by
      rw [hp.name_eq, M.instanceDir_mac]
      exact M.resolve_instanceFile w.fs.cwd name hfile
    have hperformed := FilePlan.mem_performed_of_run hok.symm (hsteps hstep) rfl
      (e := (M.instanceFile w.fs.cwd name file, data)) (List.mem_singleton.mpr (by rw [hplace]))
    have hstands := FilePlan.fileAt_run_of_mem (Machine.consistent_createSteps hp w.fs.cwd) hperformed
    rw [← hfs] at hstands
    exact hstands
  exact ⟨hwritten .writeProfile "profile.sb" _ (by decide) (.tail _ (.tail _ (.head _))),
    hwritten .writeWorkdir "workdir" _ (by decide) (.tail _ (.tail _ (.tail _ (.head _))))⟩

/-- The steps of a creation with the mac mechanism up to the copy of the policy. -/
def stepsToCopy (M : Machine) (env : ProcessEnv) (name : String) (p : Prepared) :
    FilePlan Site FileData :=
  [.check (decide (M.os = .macos) && env.tempFile.isOk),
   .makeDirs .createInstance (M.instancePath name),
   .write .writeProfile (join (M.instancePath name) (osString "profile.sb"))
     (.text (generateSeatbeltProfile env.canonicalize p.request.policy p.request.workdir)) true,
   .write .writeWorkdir (join (M.instancePath name) (osString "workdir"))
     (.text (display p.request.workdir)) true]

/-- The steps after it. -/
def stepsFromCopy (M : Machine) (name : String) (p : Prepared) : FilePlan Site FileData :=
  [.check (p.request.policy.contentHash M.ext).isOk,
   .check (M.ext.toYaml p.request.policy).isOk,
   .write .savePolicy (M.store.policyPath name) (.policy p.request.policy) true]

theorem createSteps_mac (hp : p.Persistent M name) (hmac : p.kind = .mac)
    (hyaml : (M.ext.toYaml p.request.policy).isOk = true) :
    createSteps M env name p = stepsToCopy M env name p ++
      .write .writePolicyCopy (join (M.instancePath name) (osString "policy.yaml"))
        (.policy p.request.policy) false :: stepsFromCopy M name p := by
  have hcopied : ((env.mechHost M p.proxyPort).toYaml p.request.policy).isOk = true := hyaml
  rw [createSteps, mechSteps, hp.resolved, hmac]
  dsimp only [MacMechanism.instanceSteps]
  rw [hp.name_eq, M.instanceDir_mac, if_pos hcopied]
  rfl

/-- The copy of the policy is not waited for: it is written unless the write is made to fail or
    a directory stands in its place. -/
theorem fileAt_copy_of_makeRecord (hp : p.Persistent M name) (hmac : p.kind = .mac)
    {r : SandboxRecord} {w₁ : World} (hmake : makeRecord M env name p w = (.ok r, w₁)) :
    w₁.fileAt (M.instanceFile w.fs.cwd name "policy.yaml") =
      if env.faults .writePolicyCopy = false ∧
          w.fs.isDir (M.instanceFile w.fs.cwd name "policy.yaml") = false then
        some (.policy p.request.policy)
      else w.fileAt (M.instanceFile w.fs.cwd name "policy.yaml") := by
  have hfollows := follows_makeRecord (w := w) hp env
  rw [Follows, hmake] at hfollows
  obtain ⟨hok, hfs⟩ := hfollows
  have hyaml : (M.ext.toYaml p.request.policy).isOk = true :=
    FilePlan.check_of_run hok.symm (List.mem_append_right _ (.tail _ (.head _)))
  rw [createSteps_mac hp hmac hyaml] at hok hfs
  have hfile : ∀ {file : String}, IsName (osString file) →
      resolve w.fs.cwd (join (M.instancePath name) (osString file)) =
        M.instanceFile w.fs.cwd name file := M.resolve_instanceFile w.fs.cwd name
  have hcopy : resolve w.fs.cwd (join (M.instancePath name) (osString "policy.yaml")) =
      M.instanceFile w.fs.cwd name "policy.yaml" := hfile (by decide)
  have hother : ∀ {file : String}, IsName (osString file) → file ≠ "policy.yaml" →
      M.instanceFile w.fs.cwd name "policy.yaml" ≠
        resolve w.fs.cwd (join (M.instancePath name) (osString file)) := by
    intro file hname hne heq
    rw [hfile hname] at heq
    exact hne (Machine.instanceFile_inj heq).symm
  have hinside : ∀ file, ¬ M.instanceFile w.fs.cwd name file <+: M.instanceAt w.fs.cwd name := by
    intro file hprefix
    have hlen := hprefix.length_le
    simp [Machine.instanceFile] at hlen
  have hto : ((stepsToCopy M env name p).run env.faults w.fs).1 = true := by
    rw [FilePlan.run_append] at hok
    by_cases hto : ((stepsToCopy M env name p).run env.faults w.fs).1 = true
    · exact hto
    · rw [if_neg hto] at hok
      cases hok
  have hdir : ((stepsToCopy M env name p).run env.faults w.fs).2.node
      (M.instanceAt w.fs.cwd name) = some .dir := by
    have hwrites : ∀ {file : String}, IsName (osString file) →
        M.instanceAt w.fs.cwd name ≠
          resolve w.fs.cwd (join (M.instancePath name) (osString file)) := by
      intro file hname heq
      rw [hfile hname] at heq
      exact hinside file (heq ▸ List.prefix_rfl)
    rw [stepsToCopy] at hto ⊢
    refine FilePlan.node_run_makeDirs [_] hto fun step hstep => ?_
    simp only [List.mem_cons, List.not_mem_nil, or_false] at hstep
    rcases hstep with rfl | rfl
    · exact hwrites (by decide)
    · exact hwrites (by decide)
  refine (congrArg (·.fileAt (M.instanceFile w.fs.cwd name "policy.yaml")) hfs).trans ?_
  rw [World.fileAt, ← hcopy]
  refine FilePlan.fileAt_run_optional .writePolicyCopy (.policy p.request.policy) hto ?_ ?_ ?_ ?_
  · rw [hcopy, Machine.instanceFile, List.dropLast_concat]
    exact hdir
  · rw [hcopy, Machine.instanceFile]
    exact List.append_ne_nil_of_right_ne_nil _ (List.cons_ne_nil _ _)
  · intro step hstep
    rw [hcopy]
    simp only [stepsToCopy, List.mem_cons, List.not_mem_nil, or_false] at hstep
    rcases hstep with rfl | rfl | rfl | rfl
    · exact id
    · exact hinside _
    · exact hother (by decide) (by decide)
    · exact hother (by decide) (by decide)
  · intro step hstep
    rw [hcopy]
    simp only [stepsFromCopy, List.mem_cons, List.not_mem_nil, or_false] at hstep
    rcases hstep with rfl | rfl | rfl
    · exact id
    · exact id
    · exact fun heq => M.policyAt_ne_policyCopy w.fs.cwd name heq.symm

end Created

/-- A lookup by the new name, or without a name, finds the new record unless an older one has
    the name for its id. -/
theorem getOrLast_insert {s s' : SandboxState} {r r' : SandboxRecord} {uuid : String}
    (hop : s.insert r uuid = .ok (r', s')) (hids : ∀ x ∈ s.sandboxes, x.id ≠ r'.name)
    {key : Option String} (hkey : key = none ∨ key = some r'.name) :
    s'.getOrLast key = .ok r' := by
  have hnew := SandboxState.not_mem_of_insert hop
  obtain ⟨-, -, rfl⟩ := SandboxState.insert_eq_ok_iff.mp hop
  have hfind : (s.sandboxes ++ [r']).find? (·.answersTo r'.name) = some r' := by
    have hold : s.sandboxes.find? (·.answersTo r'.name) = none := by
      rw [List.find?_eq_none]
      intro x hx
      have hname : x.name ≠ r'.name := fun heq => hnew (heq ▸ List.mem_map_of_mem hx)
      simp [SandboxRecord.answersTo, hname, hids x hx]
    rw [List.find?_append, hold, Option.none_or]
    simp [SandboxRecord.answersTo]
  rcases hkey with rfl | rfl
  · rw [SandboxState.getOrLast]
    simp only [Option.bind_some, hfind]
  · rw [SandboxState.getOrLast, SandboxState.get]
    simp only [hfind]

/-- The copy of the policy gets into the instance, or stands there already. -/
def Machine.Copies (M : Machine) (env : ProcessEnv) (name : String) (policy : SandboxPolicy)
    (w : World) : Prop :=
  (env.faults .writePolicyCopy = false ∧
    w.fs.isDir (M.instanceFile w.fs.cwd name "policy.yaml") = false) ∨
  w.fileAt (M.instanceFile w.fs.cwd name "policy.yaml") = some (.policy policy)

/-- What a creation with the mac mechanism leaves: a record that is found, and its files. -/
structure Leaves (M : Machine) (canonicalize : PathBuf → Option PathBuf) (name : String)
    (policy : SandboxPolicy) (workdir : PathBuf) (key : Option String) (copied : Prop)
    (w : World) : Prop where
  record : ∃ s r, M.store.index w = some s ∧ s.getOrLast key = .ok r ∧ r.mechanism = .mac ∧
    r.runtimeId = M.macRuntimeId name
  logPath : isUtf8 (M.store.logPathFor name) = true
  workdirText : isUtf8 workdir = true
  profile : w.fileAt (M.instanceFile w.fs.cwd name "profile.sb") =
    some (.text (generateSeatbeltProfile canonicalize policy workdir))
  workdir : w.fileAt (M.instanceFile w.fs.cwd name "workdir") = some (.text (display workdir))
  copy : w.fileAt (M.instanceFile w.fs.cwd name "policy.yaml") = some (.policy policy) ↔ copied

theorem createPrepared_leaves {M : Machine} {env : ProcessEnv} {name : String} {p : Prepared}
    {w w' : World} {u : Unit} (hp : p.Persistent M name) (hmac : p.kind = .mac)
    (hids : ∀ s, M.store.index w = some s → ∀ r ∈ s.sandboxes, r.id ≠ name) {key : Option String}
    (hkey : key = none ∨ key = some name) (h : createPrepared M env name p w = (.ok u, w')) :
    Leaves M env.canonicalize name p.request.policy p.request.workdir key
      (M.Copies env name p.request.policy w) w' := by
  obtain ⟨r, w₁, s, r', s', hmake, hs, hop, hser, rfl⟩ := createPrepared_ok h
  have hindex := index_makeRecord hp env w
  rw [hmake, hs] at hindex
  have hcwd : w₁.fs.cwd = w.fs.cwd := by
    have hext := extends_makeRecord hp env w.fs.cwd w
    rw [hmake] at hext
    exact hext.cwd_eq rfl
  obtain ⟨hprofile, hworkdir⟩ := fileAt_of_makeRecord hp hmac hmake
  obtain ⟨result, w₂, record, hresult, hrecord, hr⟩ := makeRecord_eq_ok hmake
  obtain ⟨hname, -, hkind, hissued⟩ := issued_of_newRecord hp ⟨w, w₂, hresult⟩ hrecord
  have hwork : record.workdir = p.request.workdir := by
    obtain ⟨hash, -, hrec⟩ := except_bind_eq_ok hrecord
    rw [← Except.ok.inj hrec]
  have hserial := SandboxState.serializable_of_insert hop hser
  rw [hr, SandboxRecord.serializable, Bool.and_eq_true, hwork] at hserial
  have hsame : r'.name = name ∧ r'.mechanism = .mac ∧ r'.runtimeId = M.macRuntimeId name := by
    have hid := hissued.runtimeId (hkind.trans hmac)
    rw [hname] at hid
    obtain ⟨id, hr'⟩ := SandboxState.exists_id_of_insert hop
    rw [hr', hr]
    exact ⟨hname, hkind.trans hmac, hid⟩
  obtain ⟨hname', hkind', hid'⟩ := hsame
  -- the index is no file of the instance
  have hkept : ∀ file, file ≠ "index.json" →
      (M.store.withIndex s' w₁).fileAt (M.instanceFile w.fs.cwd name file) =
        w₁.fileAt (M.instanceFile w.fs.cwd name file) := by
    intro file hfile
    rw [Store.withIndex, Store.put_fileAt, hcwd, if_neg (M.instanceFile_ne_indexAt _ name hfile)]
  have hleft : (M.store.withIndex s' w₁).fs.cwd = w.fs.cwd := hcwd
  refine ⟨⟨s', r', M.store.index_withIndex s' w₁, ?_, hkind', hid'⟩, hserial.2, hserial.1, ?_, ?_, ?_⟩
  · refine getOrLast_insert hop (fun x hx => ?_) (by rw [hname']; exact hkey)
    rw [hname']
    exact hids s hindex.symm x hx
  · rw [hleft, hkept _ (by decide), hprofile]
  · rw [hleft, hkept _ (by decide), hworkdir]
  · rw [hleft, hkept _ (by decide), fileAt_copy_of_makeRecord hp hmac hmake, Machine.Copies]
    split
    · simp [*]
    · rename_i hnot
      rw [or_iff_right hnot]

/-! ## What an entry reads back -/

section Read

variable {M : Machine} {name : String} {profilePath d : PathBuf} {w : World}

theorem resolve_in_instance {dir : Location} (hd : resolve dir d = M.instanceAt dir name)
    {file : String} (hfile : IsName (osString file)) :
    resolve dir (join d (osString file)) = M.instanceFile dir name file := by
  rw [resolve_join, hfile.resolve, hd, Machine.instanceFile]

theorem profileIn_of_fileAt
    (hp : resolve w.fs.cwd profilePath = M.instanceFile w.fs.cwd name "profile.sb") {text : String}
    (h : w.fileAt (M.instanceFile w.fs.cwd name "profile.sb") = some (.text text)) :
    MacMechanism.profileIn profilePath w = some text := by
  have hread : w.fs.read profilePath = .ok (.text text) := by
    rw [read_eq_ok_iff, locate, hp]
    exact h
  rw [MacMechanism.profileIn, hread]

theorem workdirIn_of_fileAt (host : MechHost) (hd : resolve w.fs.cwd d = M.instanceAt w.fs.cwd name)
    {workdir : PathBuf} (hutf8 : isUtf8 workdir = true)
    (h : w.fileAt (M.instanceFile w.fs.cwd name "workdir") = some (.text (display workdir))) :
    MacMechanism.workdirIn host d w = if host.faults .readWorkdir then osString "." else workdir := by
  have hread : w.fs.read (join d (osString "workdir")) = .ok (.text (display workdir)) := by
    rw [read_eq_ok_iff, locate, resolve_in_instance hd (by decide)]
    exact h
  rw [MacMechanism.workdirIn, World.readFile, hread]
  cases host.faults .readWorkdir with
  | true => rfl
  | false => exact (osString_display_iff workdir).mpr hutf8

theorem policyIn_eq_iff (host : MechHost) (hd : resolve w.fs.cwd d = M.instanceAt w.fs.cwd name)
    {policy : SandboxPolicy} (hpolicy : policy ≠ {}) :
    MacMechanism.policyIn host d w = policy ↔ host.faults .readPolicyCopy = false ∧
      w.fileAt (M.instanceFile w.fs.cwd name "policy.yaml") = some (.policy policy) := by
  have hread : ∀ data, w.fs.read (join d (osString "policy.yaml")) = .ok data ↔
      w.fileAt (M.instanceFile w.fs.cwd name "policy.yaml") = some data := by
    intro data
    rw [read_eq_ok_iff, locate, resolve_in_instance hd (by decide)]
    rfl
  rw [MacMechanism.policyIn, World.readFile, ← hread]
  cases host.faults .readPolicyCopy with
  | true => simp [hpolicy.symm]
  | false =>
    rcases w.fs.read (join d (osString "policy.yaml")) with e | s | p | t
    · simp [hpolicy.symm]
    · simp [hpolicy.symm]
    · simp
    · simp [hpolicy.symm]

end Read

/-! ## The comparison -/

/-- A `run` and, on the same host, a `create` with an `exec` of the new sandbox, all of one policy
    and one command. -/
structure RunExec where
  args : PolicyArgs
  command : List String
  runName : Option String
  name : Option String          -- the name `create` is given
  execName : Option String
  run : ProcessEnv
  create : ProcessEnv
  exec : ProcessEnv
  dir : Location                -- the directory `create` is called in
  execDir : Location
  runWorld : World
  world : World

namespace RunExec

variable (M : Machine) (x : RunExec)

def ran : Except CliError ℕ × World :=
  ssbx M x.run (.run x.runName x.args x.command) x.runWorld

def created : Except CliError ℕ × World :=
  ssbx M x.create (.create x.name x.args) (x.world.enter x.dir)

/-- Once `create` has opened the store. -/
def opened : World := (Store.openAt M.root x.create.faults (x.world.enter x.dir)).2

def entered : Except CliError ℕ × World :=
  ssbx M x.exec (.exec x.execName x.command) ((x.created M).2.enter x.execDir)

/-- `run` with the mac mechanism spawns a child, `create` goes through, and `exec` finds the new
    sandbox and spawns a child; both children end in the same way. -/
structure Fits (policy : SandboxPolicy) (c₁ c₂ : ChildSpec) (status : ExitStatus) : Prop where
  loads : loadPolicy x.args = .ok policy
  mac : policy.mechanism = some .mac
  mode : policy.network.mode ≠ .allowlist
  canonicalize : x.create.canonicalize = x.run.canonicalize
  workdir : x.create.workdir = x.run.workdir
  iterate : ∀ m, (x.run.secretHost.iterate m).Perm m
  sees : M.Sees x.dir x.execDir
  completes : (x.created M).1 = .ok 0
  execName : x.execName = none ∨ x.execName = some (createName x.name)
  fresh : ∀ s, M.records x.dir x.world = some s → ∀ r ∈ s.sandboxes, r.id ≠ createName x.name
  runChild : (x.ran M).2.children = x.runWorld.children ++ [c₁]
  execChild : (x.entered M).2.children = (x.created M).2.children ++ [c₂]
  runEnds : x.run.spawn c₁ = .ok status
  execEnds : x.exec.spawn c₂ = .ok status

variable {M x} {policy : SandboxPolicy} {c₁ c₂ : ChildSpec} {status : ExitStatus}

theorem append_singleton_inj {α : Type} {l : List α} {a b : α} (h : l ++ [a] = l ++ [b]) : a = b :=
  List.head_eq_of_cons_eq (List.append_cancel_left h)

theorem ne_append_singleton {α : Type} (l : List α) (a : α) : l ≠ l ++ [a] := by
  intro h
  have hlen := congrArg List.length h
  simp at hlen

/-- The child of the `run`. -/
theorem ran_spec (h : x.Fits M policy c₁ c₂ status) :
    ∃ workdir, x.run.workdir = .ok workdir ∧
      c₁.profile = some (generateSeatbeltProfile x.run.canonicalize policy workdir) ∧
      c₁.policy = policy ∧ c₁.workdir = workdir ∧
      (x.ran M).1 = .ok (status.code.getD 0 % 256) ∧
      ∃ secretDir secrets, x.run.secretDir = .ok secretDir ∧
        resolveSecrets x.run.secretHost policy.secrets secretDir = .ok secrets ∧
        secrets.toEnvPairs x.run.secretHost = .ok c₁.env := by
  have hchild := h.runChild
  rw [ran] at hchild ⊢
  obtain ⟨w₁, hsame, -, hrun⟩ := ssbx_childless_cases M x.run (.run x.runName x.args x.command)
    x.runWorld
  have hbefore : w₁.children = x.runWorld.children := hsame
  rcases hrun with hrun | ⟨e, hrun⟩
  · rw [hrun, execute, cmdRun] at hchild ⊢
    cases hprep : prepare M x.run (x.runName.getD x.run.runName) x.args (preferAvailable M x.run) true
      x.command with
    | error e =>
      rw [hprep] at hchild
      exact absurd (hbefore.symm.trans hchild) (ne_append_singleton _ _)
    | ok p =>
      obtain ⟨hkind, hpolicy, hworkdir, hsecrets⟩ :=
        prepare_parts h.loads h.mac (preferAvailable_mac M x.run) hprep
      have heph := (prepare_eq_ok hprep).2.1
      have hmech := mechCreate_mac M (x.run.mechHost M p.proxyPort) p.request hkind
      rw [hprep, lift_ok_bind, hmech] at hchild
      rw [lift_ok_bind, hmech]
      rcases MacMechanism.create_ephemeral_cases M.mac (h := x.run.mechHost M p.proxyPort) heph w₁ with
        ⟨e, hstop⟩ | ⟨c, hprofile, hcpolicy, hcworkdir, henv, hafter, hends⟩
      · rw [bind_pure_snd, mapError_snd, hstop] at hchild
        exact absurd (hbefore.symm.trans hchild) (ne_append_singleton _ _)
      · rw [bind_pure_snd, mapError_snd, hafter, hbefore] at hchild
        obtain rfl := append_singleton_inj hchild
        obtain ⟨result, hresult, hcode⟩ := hends status h.runEnds
        rw [hpolicy] at hprofile hcpolicy henv
        rw [MacMechanism.proxyEnv_of_ne h.mode, List.append_nil] at henv
        refine ⟨p.request.workdir, hworkdir, hprofile, hcpolicy, hcworkdir, ?_, ?_⟩
        · rw [bind_of_ok (mapError_eq_ok_iff.mpr hresult), hcode]
          rfl
        · rw [henv]
          exact hsecrets
  · rw [hrun] at hchild
    exact absurd (hbefore.symm.trans hchild) (ne_append_singleton _ _)

/-- What `create` leaves for `exec`. -/
theorem created_spec (h : x.Fits M policy c₁ c₂ status) :
    ∃ workdir, x.run.workdir = .ok workdir ∧
      Leaves M x.run.canonicalize (createName x.name) policy workdir x.execName
        (M.Copies x.create (createName x.name) policy (x.opened M)) (x.created M).2 := by
  have hdone := h.completes
  have hbefore : M.records x.dir x.world = M.store.index (x.world.enter x.dir) := rfl
  have hopened := Machine.opened_openAt (M := M) x.create.faults (x.world.enter x.dir)
  rw [created] at hdone ⊢
  rw [opened]
  rcases hopen : Store.openAt M.root x.create.faults (x.world.enter x.dir) with ⟨e | st, w₁⟩
  · rw [Machine.ssbx_of_not_opened hopen] at hdone
    cases hdone
  · rw [hopen] at hopened
    rw [Machine.ssbx_of_opened hopen, execute] at hdone ⊢
    rw [bind_pure_snd, cmdCreate]
    rw [cmdCreate] at hdone
    cases hprep : prepare M x.create (createName x.name) x.args id false [] with
    | error e =>
      rw [hprep] at hdone
      cases hdone
    | ok p =>
      obtain ⟨hkind, hpolicy, hworkdir, -⟩ := prepare_parts h.loads h.mac rfl hprep
      rw [hprep, lift_ok_bind] at hdone
      rw [lift_ok_bind]
      rcases hcreate : createPrepared M x.create (createName x.name) p w₁ with ⟨e | u, w'⟩
      · rw [bind_of_error hcreate] at hdone
        cases hdone
      · have hids : ∀ s, M.store.index w₁ = some s → ∀ r ∈ s.sandboxes,
            r.id ≠ createName x.name := by
          intro s hs r hr
          rcases hopened.index with hsame | ⟨-, hfirst⟩
          · exact h.fresh s (hsame.symm.trans hs) r hr
          · rw [hs] at hfirst
            rw [Option.some.inj hfirst] at hr
            cases hr
        have hleaves :=
          createPrepared_leaves (persistent_of_prepare hprep) hkind hids h.execName hcreate
        rw [hpolicy, h.canonicalize] at hleaves
        rw [h.workdir] at hworkdir
        exact ⟨p.request.workdir, hworkdir, hleaves⟩

/-- The child of the `exec`, read back from what `create` left. -/
theorem entered_spec (h : x.Fits M policy c₁ c₂ status) {workdir : PathBuf} {copied : Prop}
    (hleaves : Leaves M x.run.canonicalize (createName x.name) policy workdir x.execName copied
      (x.created M).2) :
    c₂.profile = some (generateSeatbeltProfile x.run.canonicalize policy workdir) ∧
    (c₂.policy = policy ↔ x.exec.faults .readPolicyCopy = false ∧ copied) ∧
    c₂.workdir = (if x.exec.faults .readWorkdir then osString "." else workdir) ∧
    (c₂.policy = policy → c₂.env = []) ∧
    (x.entered M).1 = .ok (status.code.getD 1 % 256) := by
  obtain ⟨s, r, hs, hfound, hkind, hid⟩ := hleaves.record
  have hcwd₀ : (x.created M).2.fs.cwd = x.dir := Machine.ssbx_cwd _ _ _
  -- the second process sees the same index and the same instance
  have hindex : M.store.index ((x.created M).2.enter x.execDir) = some s := by
    have hsees : M.Sees x.dir ((x.created M).2.enter x.execDir).fs.cwd := h.sees
    rw [← Machine.records_eq_index hsees, ← hs, ← Machine.records_eq_index (Or.inr hcwd₀)]
    rfl
  obtain ⟨w₁, hsame, hopened, hrun⟩ := ssbx_childless_cases M x.exec (.exec x.execName x.command)
    ((x.created M).2.enter x.execDir)
  obtain ⟨hs₁, hcwd₁, hfiles₁⟩ := hopened.of_index hindex
  have hbefore : w₁.children = (x.created M).2.children := hsame
  have hplace : ∀ file, M.instanceFile w₁.fs.cwd (createName x.name) file =
      M.instanceFile (x.created M).2.fs.cwd (createName x.name) file := by
    intro file
    rw [hcwd₁, hcwd₀, enter_cwd, Machine.instanceFile, Machine.instanceFile, h.sees.instanceAt_eq]
  obtain ⟨p, d, hparse, hd⟩ := M.exists_profileOfRuntime (createName x.name)
  have hremoved := Machine.removedAt_of_logPath hleaves.logPath
  have hchild := h.execChild
  rw [entered] at hchild ⊢
  rcases hrun with hrun | ⟨e, hrun⟩
  · rw [hrun, execute, cmdExec_eq] at hchild ⊢
    rcases lookup_cases M.store x.exec.lookupFaults x.execName (execRecord M x.exec x.command) w₁ with
      ⟨s', r', hs', hfound', hlook⟩ | ⟨e, hlook⟩
    · obtain rfl := Option.some.inj (hs₁.symm.trans hs')
      obtain rfl := Except.ok.inj (hfound.symm.trans hfound')
      rw [hlook] at hchild ⊢
      rw [← hid] at hparse
      rcases execRecord_cases M x.exec x.command hkind hparse w₁ with
        ⟨e, -, hchildren⟩ | ⟨s₂, program, hexec⟩
      · exact absurd (hbefore.symm.trans (hchildren.symm.trans hchild)) (ne_append_singleton _ _)
      · rw [hexec, hbefore] at hchild
        obtain rfl := append_singleton_inj hchild
        have hcwd₂ : (M.store.withIndex s₂ w₁).fs.cwd = w₁.fs.cwd := rfl
        have hkept : ∀ file, file ≠ "index.json" →
            (M.store.withIndex s₂ w₁).fileAt
                (M.instanceFile (M.store.withIndex s₂ w₁).fs.cwd (createName x.name) file) =
              (x.created M).2.fileAt
                (M.instanceFile (x.created M).2.fs.cwd (createName x.name) file) := by
          intro file hfile
          rw [hcwd₂, Store.withIndex, Store.put_fileAt,
            if_neg (M.instanceFile_ne_indexAt _ _ hfile), hfiles₁, enter_fileAt, hplace]
        have hprofile : ∀ dir,
            resolve dir p = M.instanceFile dir (createName x.name) "profile.sb" := by
          intro dir
          rw [hid] at hparse
          rw [Machine.resolve_profileOfRuntime hparse, hremoved, Machine.instanceFile]
        have hdir : ∀ dir, resolve dir d = M.instanceAt dir (createName x.name) := by
          intro dir
          rw [hd, hremoved]
        have hpolicy : policy ≠ {} := by
          rintro rfl
          exact absurd h.mac (by decide)
        refine ⟨?_, ?_, ?_, ?_, ?_⟩
        · exact profileIn_of_fileAt (hprofile _) ((hkept _ (by decide)).trans hleaves.profile)
        · refine (policyIn_eq_iff _ (hdir _) hpolicy).trans ?_
          rw [hkept _ (by decide), hleaves.copy]
          rfl
        · exact workdirIn_of_fileAt _ (hdir _) hleaves.workdirText
            ((hkept _ (by decide)).trans hleaves.workdir)
        · intro hsamePolicy
          have hmode := h.mode
          rw [← hsamePolicy] at hmode
          exact MacMechanism.proxyEnv_of_ne hmode
        · rw [hexec, h.execEnds]
          rfl
    · rw [hlook] at hchild
      exact absurd (hbefore.symm.trans hchild) (ne_append_singleton _ _)
  · rw [hrun] at hchild
    exact absurd (hbefore.symm.trans hchild) (ne_append_singleton _ _)

/-! ## Agreement -/

/-- Both children are given the same, the secrets of the policy among it, and both commands
    return the same code, a zero for a success only. -/
structure Agree (M : Machine) (x : RunExec) (policy : SandboxPolicy) (c₁ c₂ : ChildSpec)
    (status : ExitStatus) : Prop where
  profile : c₂.profile = c₁.profile
  limits : c₂.policy = c₁.policy
  workdir : c₂.workdir = c₁.workdir
  env : c₂.env = c₁.env
  secrets : ∃ secretDir secrets, x.run.secretDir = .ok secretDir ∧
    resolveSecrets x.run.secretHost policy.secrets secretDir = .ok secrets ∧
    secrets.toEnvPairs x.run.secretHost = .ok c₁.env
  code : ∃ code, (x.ran M).1 = .ok code ∧ (x.entered M).1 = .ok code ∧
    (code = 0 → status = .exited 0)

/-- There is nothing for `exec` to lose: no secret and no signal, and the copies of the policy
    and of the working directory can be written and read. -/
structure NothingLost (M : Machine) (x : RunExec) (policy : SandboxPolicy) (status : ExitStatus) :
    Prop where
  secrets : policy.secrets = []
  exits : ∃ code, status = .exited code
  copied : M.Copies x.create (createName x.name) policy (x.opened M)
  readPolicy : x.exec.faults .readPolicyCopy = false
  readWorkdir : x.exec.faults .readWorkdir = false ∨ x.run.workdir = .ok (osString ".")

/-- A killed child is a success for `run` and a failure for `exec`. -/
theorem codes_agree_iff (status : ExitStatus) :
    (∃ code, (.ok (status.code.getD 0 % 256) : Except CliError ℕ) = .ok code ∧
      (.ok (status.code.getD 1 % 256) : Except CliError ℕ) = .ok code ∧
      (code = 0 → status = .exited 0)) ↔ ∃ code, status = .exited code := by
  cases status with
  | exited code =>
    have hbyte : code.toNat % 256 = code.toNat := Nat.mod_eq_of_lt code.toNat_lt
    refine ⟨fun _ => ⟨code, rfl⟩, fun _ => ⟨code.toNat, ?_, ?_, ?_⟩⟩
    · rw [ExitStatus.code, Option.getD_some, hbyte]
    · rw [ExitStatus.code, Option.getD_some, hbyte]
    · intro hzero
      rw [show code = 0 from UInt8.toNat_inj.mp hzero]
  | signaled signal =>
    constructor
    · rintro ⟨code, hrun, hexec, -⟩
      have hcodes := hrun.trans hexec.symm
      cases Except.ok.inj hcodes
    · rintro ⟨code, hcode⟩
      cases hcode

/-- **`run`, and `create` then `exec`,** give their children the same and return the same, exactly
    if there is nothing to lose on the way. -/
theorem run_exec_agree (h : x.Fits M policy c₁ c₂ status) :
    Agree M x policy c₁ c₂ status ↔ NothingLost M x policy status := by
  obtain ⟨workdir, hworkdir, hprofile₁, hpolicy₁, hworkdir₁, hcode₁, hsecrets⟩ := ran_spec h
  obtain ⟨workdir', hsame, hleaves⟩ := created_spec h
  obtain rfl := Except.ok.inj (hworkdir.symm.trans hsame)
  obtain ⟨hprofile₂, hpolicy₂, hworkdir₂, henv₂, hcode₂⟩ := entered_spec h hleaves
  obtain ⟨secretDir, secrets, hdir, hresolved, hpairs⟩ := hsecrets
  have hempty := env_eq_nil_iff h.iterate hresolved hpairs
  constructor
  · intro hagree
    have hpolicy := hagree.limits.trans hpolicy₁
    obtain ⟨hread, hcopied⟩ := hpolicy₂.mp hpolicy
    have hcode := hagree.code
    rw [hcode₁, hcode₂] at hcode
    refine ⟨?_, (codes_agree_iff status).mp hcode, hcopied, hread, ?_⟩
    · exact hempty.mp (hagree.env.symm.trans (henv₂ hpolicy))
    · have hdirs := hagree.workdir.trans hworkdir₁
      rw [hworkdir₂] at hdirs
      cases hfault : x.exec.faults .readWorkdir with
      | false => exact Or.inl rfl
      | true =>
        rw [hfault, if_pos rfl] at hdirs
        rw [hworkdir, ← hdirs]
        exact Or.inr rfl
  · intro hclear
    have hpolicy := hpolicy₂.mpr ⟨hclear.readPolicy, hclear.copied⟩
    refine ⟨hprofile₂.trans hprofile₁.symm, hpolicy.trans hpolicy₁.symm, ?_, ?_,
      ⟨secretDir, secrets, hdir, hresolved, hpairs⟩, ?_⟩
    · rw [hworkdir₁, hworkdir₂]
      rcases hclear.readWorkdir with hread | hdot
      · rw [hread]
        rfl
      · rw [Except.ok.inj (hworkdir.symm.trans hdot)]
        split <;> rfl
    · rw [henv₂ hpolicy, hempty.mpr hclear.secrets]
    · rw [hcode₁, hcode₂]
      exact (codes_agree_iff status).mpr hclear.exits

/-- `run` and then `create` and `exec` on a host that has not run `ssbx` yet. -/
def small (policy : SandboxPolicy) (status : ExitStatus) : RunExec where
  args := { file := some (.ok policy) }
  command := ["true"]
  runName := none
  name := some "a"
  execName := none
  run := { smallEnv "r" with spawn := fun _ => .ok status }
  create := smallEnv "u"
  exec := { smallEnv "e" with spawn := fun _ => .ok status }
  dir := []
  execDir := []
  runWorld := emptyWorld
  world := emptyWorld

/-- A policy for the mac mechanism. -/
def macPolicy (secrets : List SecretRef) : SandboxPolicy :=
  { mechanism := some .mac, secrets := secrets }

/-- One child was spawned, with this environment. -/
theorem exists_child {l : List ChildSpec} {env : List (String × String)}
    (h : l.map (·.env) = [env]) : ∃ c, l = [] ++ [c] ∧ c.env = env := by
  cases l with
  | nil => cases h
  | cons c rest =>
    obtain ⟨henv, hrest⟩ := List.cons.inj h
    rw [List.map_eq_nil_iff.mp hrest]
    exact ⟨c, rfl, henv⟩

theorem fits_small {secrets : List SecretRef} {status : ExitStatus}
    {env₁ env₂ : List (String × String)}
    (hload : loadPolicy { file := some (.ok (macPolicy secrets)) } = .ok (macPolicy secrets))
    (hran : ((small (macPolicy secrets) status).ran smallMachine).2.children.map (·.env) = [env₁])
    (hcreated : ((small (macPolicy secrets) status).created smallMachine).1 = .ok 0)
    (hnone : ((small (macPolicy secrets) status).created smallMachine).2.children.map (·.env) = [])
    (hentered : ((small (macPolicy secrets) status).entered smallMachine).2.children.map (·.env) =
      [env₂]) :
    ∃ c₁ c₂, (small (macPolicy secrets) status).Fits smallMachine (macPolicy secrets) c₁ c₂ status ∧
      c₁.env = env₁ ∧ c₂.env = env₂ := by
  obtain ⟨c₁, hc₁, henv₁⟩ := exists_child hran
  obtain ⟨c₂, hc₂, henv₂⟩ := exists_child hentered
  refine ⟨c₁, c₂, ?_, henv₁, henv₂⟩
  exact {
    loads := hload
    mac := rfl
    mode := by
      intro hmode
      cases hmode
    canonicalize := rfl
    workdir := rfl
    iterate := fun m => List.Perm.refl m
    sees := Or.inr rfl
    completes := hcreated
    execName := Or.inl rfl
    fresh := by
      intro s hs
      cases (Machine.records_of_fresh smallMachine [] fresh_emptyWorld).symm.trans hs
    runChild := hc₁
    execChild := by
      rw [List.map_eq_nil_iff.mp hnone]
      exact hc₂
    runEnds := rfl
    execEnds := rfl }

theorem run_exec_agree_small :
    ∃ c₁ c₂,
      Agree smallMachine (small (macPolicy []) (.exited 3)) (macPolicy []) c₁ c₂ (.exited 3) := by
  have hload : loadPolicy { file := some (.ok (macPolicy [])) } = .ok (macPolicy []) := by decide
  obtain ⟨c₁, c₂, hfits, -, -⟩ := fits_small hload (by decide : _ = [[]]) (by decide) (by decide)
    (by decide :
      ((small (macPolicy []) (.exited 3)).entered smallMachine).2.children.map (·.env) = [[]])
  exact ⟨c₁, c₂, (run_exec_agree hfits).mpr ⟨rfl, ⟨3, rfl⟩, Or.inl (by decide), rfl, Or.inl rfl⟩⟩

/-- A secret does not get to the child of `exec`, and a killed child is a success for `run`. -/
theorem run_exec_disagree :
    (∃ c₁ c₂, (small (macPolicy [⟨"TOKEN", "value:t"⟩]) (.exited 0)).Fits smallMachine
        (macPolicy [⟨"TOKEN", "value:t"⟩]) c₁ c₂ (.exited 0) ∧
      c₁.env = [("TOKEN", "t")] ∧ c₂.env = [] ∧
      ¬ Agree smallMachine (small (macPolicy [⟨"TOKEN", "value:t"⟩]) (.exited 0))
        (macPolicy [⟨"TOKEN", "value:t"⟩]) c₁ c₂ (.exited 0)) ∧
    (∃ c₁ c₂, (small (macPolicy []) (.signaled 9)).Fits smallMachine (macPolicy []) c₁ c₂
        (.signaled 9) ∧
      ((small (macPolicy []) (.signaled 9)).ran smallMachine).1 = .ok 0 ∧
      ((small (macPolicy []) (.signaled 9)).entered smallMachine).1 = .ok 1 ∧
      ¬ Agree smallMachine (small (macPolicy []) (.signaled 9)) (macPolicy []) c₁ c₂
        (.signaled 9)) := by
  constructor
  · obtain ⟨c₁, c₂, hfits, henv₁, henv₂⟩ :=
      fits_small (by decide : loadPolicy { file := some (.ok (macPolicy [⟨"TOKEN", "value:t"⟩])) } = _)
        (by decide :
          ((small _ (.exited 0)).ran smallMachine).2.children.map (·.env) = [[("TOKEN", "t")]])
        (by decide) (by decide)
        (by decide : ((small _ (.exited 0)).entered smallMachine).2.children.map (·.env) = [[]])
    refine ⟨c₁, c₂, hfits, henv₁, henv₂, fun hagree => ?_⟩
    have henv := hagree.env
    rw [henv₁, henv₂] at henv
    cases henv
  · have hload : loadPolicy { file := some (.ok (macPolicy [])) } = .ok (macPolicy []) := by decide
    have hran : ((small (macPolicy []) (.signaled 9)).ran smallMachine).1 = .ok 0 := by decide
    have hentered : ((small (macPolicy []) (.signaled 9)).entered smallMachine).1 = .ok 1 := by decide
    obtain ⟨c₁, c₂, hfits, -, -⟩ := fits_small hload (by decide : _ = [[]]) (by decide) (by decide)
      (by decide : ((small (macPolicy []) (.signaled 9)).entered smallMachine).2.children.map (·.env) =
        [[]])
    refine ⟨c₁, c₂, hfits, hran, hentered, fun hagree => ?_⟩
    obtain ⟨code, hcode₁, hcode₂, -⟩ := hagree.code
    rw [hran] at hcode₁
    rw [hentered, ← hcode₁] at hcode₂
    cases hcode₂

end RunExec

end SimpleSandbox
