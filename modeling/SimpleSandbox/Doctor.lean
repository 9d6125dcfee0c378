import SimpleSandbox.Environment
import SimpleSandbox.PolicyHash

/-!
# The doctor

`ssbx doctor` asks each mechanism for health checks and prefixes their names with its own
(`cmd_doctor`).  `run` looks at the checks of podman itself before it chooses a mechanism.  What the
report says of a mechanism is what happens to a `run` that has chosen it: its program starts, or
the run fails before.
-/

namespace SimpleSandbox

open RustText OsPath Effect

structure DoctorItem where
  name : String
  ok : Bool
  detail : String
deriving DecidableEq

/-- `std::env::consts` -/
structure HostConsts where
  arch : String
  os : String

/-- The texts of the errors. -/
def MechanismError.text : MechanismError → String
  | .message text => text
  | .unavailable text => "mechanism not available: " ++ text
  | .notImplemented text => "not implemented: " ++ text

namespace PodmanMechanism

def name : String := "linux_podman"

def doctor (m : PodmanMechanism) (h : MechHost) (consts : HostConsts) : List DoctorItem :=
  (match m.runtimeBin h with
    | .ok bin =>
      [{ name := "runtime-binary", ok := true, detail := display bin },
       match m.runtimeOk h with
       | .ok arch => { name := "runtime-engine", ok := true, detail := "reachable, arch=" ++ arch }
       | .error e => { name := "runtime-engine", ok := false, detail := e.text }]
    | .error e => [{ name := "runtime-binary", ok := false, detail := e.text }]) ++
  [{ name := "host-arch", ok := consts.arch == "aarch64"
     detail := consts.arch ++ " (arm64 Mac preferred for linux arm64 guests)" },
   { name := "default-image", ok := true, detail := m.image }]

end PodmanMechanism

namespace MacMechanism

def name : String := "mac_seatbelt"

def doctor (h : MechHost) (consts : HostConsts) : List DoctorItem :=
  [{ name := "sandbox-exec", ok := h.sandboxExec.isSome
     detail := match h.sandboxExec with
      | some p => display p
      | none => "not found — macOS host required" },
   { name := "platform", ok := decide (h.os = .macos), detail := consts.os },
   { name := "rlimits", ok := true
     detail := "setrlimit AS/DATA/CPU (soft; weaker than Linux cgroups)" }]

end MacMechanism

namespace KrunMechanism

def name : String := "linux_libkrun"

def doctor : List DoctorItem :=
  [{ name := "libkrun", ok := false
     detail := "not built yet — planned Hypervisor.framework Linux arm64 microVM" },
   { name := "status", ok := false, detail := "use --mechanism podman (or mac) for now" }]

end KrunMechanism

/-- `mech_box(kind, ..)`, as its name and its checks. -/
def mechDoctor (M : Machine) (h : MechHost) (consts : HostConsts) (kind : MechanismKind) :
    String × List DoctorItem :=
  match resolveMechanism M.os kind with
  | .podman | .auto => (PodmanMechanism.name, PodmanMechanism.doctor {} h consts)
  | .mac => (MacMechanism.name, MacMechanism.doctor h consts)
  | .krun => (KrunMechanism.name, KrunMechanism.doctor)

/-- The items that `cmd_doctor` prints. -/
def cmdDoctor (M : Machine) (env : ProcessEnv) (consts : HostConsts)
    (mechanism : Option MechanismKind) : List DoctorItem :=
  let kinds := match mechanism with
    | some kind => [resolveMechanism M.os kind]
    | none => [.podman, .mac, .krun]
  kinds.flatMap (fun kind =>
    let checks := mechDoctor M (env.mechHost M env.inheritedPort) consts kind
    checks.2.map fun item => { item with name := checks.1 ++ "/" ++ item.name }) ++
  [{ name := "future/linux-bwrap", ok := true
     detail := "planned: linux host with rootless podman + bubblewrap (not in mac-first v1)" }]

/-- A check of this name is in the report, and it is good. -/
def Reports (items : List DoctorItem) (name : String) : Bool :=
  items.any fun item => item.name == name && item.ok

/-- What the report says of a mechanism. -/
def Healthy (items : List DoctorItem) : MechanismKind → Bool
  | .podman | .auto => Reports items "linux_podman/runtime-engine"
  | .mac => Reports items "mac_seatbelt/sandbox-exec" && Reports items "mac_seatbelt/platform"
  | .krun => Reports items "linux_libkrun/libkrun"

/-! ## What the checks say -/

/-- The engine can be found and used. -/
def ProcessEnv.engineOk (env : ProcessEnv) : Bool :=
  env.engine.binary.isSome && env.engine.usable.isOk

theorem runtimeBin_eq (M : Machine) (env : ProcessEnv) (port : Option String) :
    (PodmanMechanism.runtimeBin {} (env.mechHost M port)).isOk = env.engine.binary.isSome := by
  unfold PodmanMechanism.runtimeBin
  change Except.isOk (match env.engine.binary with
    | some b => _
    | none => _) = _
  cases env.engine.binary with
  | none => rfl
  | some bin => rfl

/-- The check of the engine, under any prefix. -/
theorem reports_podman (M : Machine) (env : ProcessEnv) (consts : HostConsts) (start : String) :
    Reports ((PodmanMechanism.doctor {} (env.mechHost M env.inheritedPort) consts).map
      fun item => { item with name := start ++ item.name }) (start ++ "runtime-engine") =
      env.engineOk := by
  have hname : ∀ name : String, (start ++ name == start ++ "runtime-engine") =
      (name == "runtime-engine") := by
    intro name
    rw [Bool.eq_iff_iff, beq_iff_eq, beq_iff_eq]
    refine ⟨fun h => ?_, fun h => by rw [h]⟩
    have hlists := congrArg String.toList h
    rw [String.toList_append, String.toList_append] at hlists
    exact String.toList_injective (List.append_cancel_left hlists)
  have hbin := runtimeBin_eq M env env.inheritedPort
  unfold PodmanMechanism.doctor ProcessEnv.engineOk Reports
  rw [← hbin]
  cases hb : PodmanMechanism.runtimeBin {} (env.mechHost M env.inheritedPort) with
  | error e => simp [hname, Except.isOk, Except.toBool]
  | ok bin =>
    have hengine : (env.mechHost M env.inheritedPort).engine = env.engine := rfl
    rw [PodmanMechanism.runtimeOk_of_runtimeBin hb, hengine]
    cases env.engine.usable with
    | error e => simp [hname, Except.isOk, Except.toBool]
    | ok arch => simp [hname, Except.isOk, Except.toBool]

/-- `prefer_available` reads the check of the engine among those of podman. -/
theorem preferAvailable_eq (M : Machine) (env : ProcessEnv) (consts : HostConsts)
    (kind : MechanismKind) :
    preferAvailable M env kind =
      if resolveMechanism M.os kind = .podman ∧
          Reports (PodmanMechanism.doctor {} (env.mechHost M env.inheritedPort) consts)
            "runtime-engine" = false ∧ M.os = .macos
      then .mac else resolveMechanism M.os kind := by
  have hreports := reports_podman M env consts ""
  simp only [String.empty_append, List.map_id'] at hreports
  rw [hreports]
  rfl

theorem reports_append (items items' : List DoctorItem) (name : String) :
    Reports (items ++ items') name = (Reports items name || Reports items' name) := List.any_append

/-- The checks of a mechanism as they stand in the report. -/
def prefixed (start : String) (items : List DoctorItem) : List DoctorItem :=
  items.map fun item => { item with name := start ++ item.name }

/-- The checks of other mechanisms have other names. -/
theorem reports_prefixed {start name : String} (h : ¬ start.toList <+: name.toList)
    (items : List DoctorItem) : Reports (prefixed start items) name = false := by
  rw [Reports, prefixed, List.any_map, List.any_eq_false]
  intro item _ hreports
  have hname : start ++ item.name = name := by
    simpa using (Bool.and_eq_true_iff.mp hreports).1
  apply h
  rw [← hname, String.toList_append]
  exact List.prefix_append _ _

/-- The full report. -/
def report (M : Machine) (env : ProcessEnv) (consts : HostConsts) : List DoctorItem :=
  cmdDoctor M env consts none

theorem report_eq (M : Machine) (env : ProcessEnv) (consts : HostConsts) :
    report M env consts =
      prefixed "linux_podman/"
        (PodmanMechanism.doctor {} (env.mechHost M env.inheritedPort) consts) ++
      (prefixed "mac_seatbelt/" (MacMechanism.doctor (env.mechHost M env.inheritedPort) consts) ++
      (prefixed "linux_libkrun/" KrunMechanism.doctor ++
      [{ name := "future/linux-bwrap", ok := true
         detail := "planned: linux host with rootless podman + bubblewrap (not in mac-first v1)" }])) := by
  have hpodman : PodmanMechanism.name ++ "/" = "linux_podman/" := by decide
  have hmac : MacMechanism.name ++ "/" = "mac_seatbelt/" := by decide
  have hkrun : KrunMechanism.name ++ "/" = "linux_libkrun/" := by decide
  simp only [report, cmdDoctor, List.flatMap_cons, List.flatMap_nil, mechDoctor, resolveMechanism,
    hpodman, hmac, hkrun, List.append_nil, List.append_assoc]
  rfl

/-- **What the report says of a mechanism.** -/
theorem healthy_report (M : Machine) (env : ProcessEnv) (consts : HostConsts)
    (kind : MechanismKind) : Healthy (report M env consts) kind =
      match kind with
      | .podman | .auto => env.engineOk
      | .mac => env.sandboxExec.isSome && decide (M.os = .macos)
      | .krun => false := by
  have hengine : Reports (report M env consts) "linux_podman/runtime-engine" = env.engineOk := by
    have hpodman := reports_podman M env consts "linux_podman/"
    rw [show ("linux_podman/" ++ "runtime-engine" : String) = "linux_podman/runtime-engine" by
      decide] at hpodman
    rw [report_eq, reports_append, reports_append, reports_append, prefixed, hpodman,
      reports_prefixed (by decide), reports_prefixed (by decide)]
    simp [Reports]
  have hmac : Reports (report M env consts) "mac_seatbelt/sandbox-exec" = env.sandboxExec.isSome ∧
      Reports (report M env consts) "mac_seatbelt/platform" = decide (M.os = .macos) := by
    have hother : ∀ name, name = "mac_seatbelt/sandbox-exec" ∨ name = "mac_seatbelt/platform" →
        Reports (report M env consts) name = Reports (prefixed "mac_seatbelt/"
          (MacMechanism.doctor (env.mechHost M env.inheritedPort) consts)) name := by
      rintro name (rfl | rfl)
      · rw [report_eq, reports_append, reports_append, reports_append,
          @reports_prefixed "linux_podman/" _ (by decide),
          @reports_prefixed "linux_libkrun/" _ (by decide)]
        simp [Reports]
      · rw [report_eq, reports_append, reports_append, reports_append,
          @reports_prefixed "linux_podman/" _ (by decide),
          @reports_prefixed "linux_libkrun/" _ (by decide)]
        simp [Reports]
    rw [hother _ (Or.inl rfl), hother _ (Or.inr rfl)]
    constructor
    · simp [Reports, prefixed, MacMechanism.doctor]
      rfl
    · simp [Reports, prefixed, MacMechanism.doctor]
      rfl
  cases kind with
  | podman => exact hengine
  | auto => exact hengine
  | mac => rw [Healthy, hmac.1, hmac.2]
  | krun =>
    rw [Healthy, report_eq, reports_append, reports_append, reports_append,
      reports_prefixed (by decide), reports_prefixed (by decide)]
    simp [Reports, prefixed, KrunMechanism.doctor]

/-! ## What a run does -/

/-- The process, if every program it starts ends with this status. -/
def ProcessEnv.exiting (env : ProcessEnv) (status : ExitStatus) : ProcessEnv :=
  { env with
    engine := { env.engine with runAttached := fun _ => .ok status }
    spawn := fun _ => .ok status }

theorem podmanCreate_exiting {M : Machine} {env : ProcessEnv} {port : Option String}
    {req : CreateRequest} (heph : req.ephemeral = true) {mem : ℕ}
    (hmem : req.policy.resources.memoryBytes = .ok mem) (w : World) :
    if env.engineOk then
      ∀ status, ∃ result, PodmanMechanism.create {} ((env.exiting status).mechHost M port) req w =
        (.ok result, w) ∧ result.exitCode = status.code
    else ∃ e, ∀ status,
      PodmanMechanism.create {} ((env.exiting status).mechHost M port) req w = (.error e, w) := by
  have hok := runtimeBin_eq M env port
  cases hbin : PodmanMechanism.runtimeBin {} (env.mechHost M port) with
  | error e =>
    rw [hbin] at hok
    have hnone : env.engineOk = false := by rw [ProcessEnv.engineOk, ← hok]; rfl
    rw [hnone, if_neg Bool.false_ne_true]
    refine ⟨e, fun status => ?_⟩
    have hbin' : PodmanMechanism.runtimeBin {} ((env.exiting status).mechHost M port) = .error e :=
      hbin
    rw [PodmanMechanism.create, hbin']
    rfl
  | ok bin =>
    rw [hbin] at hok
    have hengine : env.engineOk = env.engine.usable.isOk := by
      rw [ProcessEnv.engineOk, ← hok]
      rfl
    have hbin' : ∀ status, PodmanMechanism.runtimeBin {} ((env.exiting status).mechHost M port) =
        .ok bin := fun _ => hbin
    have husable' : ∀ status, ((env.exiting status).mechHost M port).engine.usable =
        env.engine.usable := fun _ => rfl
    rw [hengine]
    cases husable : env.engine.usable with
    | error e =>
      refine ⟨e, fun status => ?_⟩
      rw [PodmanMechanism.create, hbin', PodmanMechanism.runtimeOk_of_runtimeBin (hbin' _),
        husable', husable]
      rfl
    | ok arch =>
      intro status
      obtain ⟨argv, hargv⟩ :=
        PodmanMechanism.exists_createArgs ((env.exiting status).mechHost M port) hmem
      rw [PodmanMechanism.create, hbin', PodmanMechanism.runtimeOk_of_runtimeBin (hbin' _),
        husable', husable, hargv, heph]
      exact ⟨_, rfl, rfl⟩

theorem macCreate_exiting {M : Machine} {env : ProcessEnv} {port : Option String}
    {req : CreateRequest} (heph : req.ephemeral = true) (htemp : env.tempFile.isOk = true)
    (w : World) :
    if env.sandboxExec.isSome && decide (M.os = .macos) then
      ∀ status, ∃ result w', M.mac.create ((env.exiting status).mechHost M port) req w =
        (.ok result, w') ∧ result.exitCode = status.code
    else ∃ e, ∀ status,
      M.mac.create ((env.exiting status).mechHost M port) req w = (.error e, w) := by
  cases hfile : env.tempFile with
  | error e =>
    rw [hfile] at htemp
    cases htemp
  | ok file =>
    have hos : ∀ status, ((env.exiting status).mechHost M port).os = M.os := fun _ => rfl
    have htemp' : ∀ status, ((env.exiting status).mechHost M port).tempFile = .ok file :=
      fun _ => hfile
    have hexec : ∀ status, ((env.exiting status).mechHost M port).sandboxExec = env.sandboxExec :=
      fun _ => rfl
    by_cases hmac : M.os = .macos
    · rw [decide_eq_true hmac, Bool.and_true]
      cases hbin : env.sandboxExec with
      | none =>
        refine ⟨.unavailable "sandbox-exec not found (macOS only)", fun status => ?_⟩
        rw [MacMechanism.create, hos, if_neg (not_not_intro hmac), htemp', heph]
        simp only [MacMechanism.spawnSandboxed, hexec, hbin]
        rfl
      | some bin =>
        intro status
        rw [MacMechanism.create, hos, if_neg (not_not_intro hmac), htemp', heph]
        simp only [MacMechanism.spawnSandboxed, hexec, hbin]
        exact ⟨_, _, rfl, rfl⟩
    · rw [decide_eq_false hmac, Bool.and_false]
      refine ⟨.unavailable "mac_seatbelt requires macOS", fun status => ?_⟩
      rw [MacMechanism.create, hos, if_pos hmac]
      rfl

/-- A mechanism that starts programs, or fails before, as its checks say. -/
theorem mechCreate_exiting {M : Machine} {env : ProcessEnv} {kind : MechanismKind}
    (hkind : resolveMechanism M.os kind = kind) {port : Option String} {req : CreateRequest}
    (heph : req.ephemeral = true) {mem : ℕ} (hmem : req.policy.resources.memoryBytes = .ok mem)
    (htemp : env.tempFile.isOk = true) (consts : HostConsts) (w : World) :
    if Healthy (report M env consts) kind then
      ∀ status, ∃ result w', mechCreate M ((env.exiting status).mechHost M port) kind req w =
        (.ok result, w') ∧ result.exitCode = status.code
    else ∃ e, ∀ status, mechCreate M ((env.exiting status).mechHost M port) kind req w =
      (.error e, w) := by
  have hauto := resolveMechanism_ne_auto M.os kind
  rw [hkind] at hauto
  rw [healthy_report]
  cases kind with
  | auto => exact absurd rfl hauto
  | krun => exact ⟨_, fun _ => rfl⟩
  | mac => exact macCreate_exiting heph htemp w
  | podman =>
    have hpodman := @podmanCreate_exiting M env port req heph mem hmem w
    dsimp only
    split
    · rename_i hok
      rw [if_pos hok] at hpodman
      intro status
      obtain ⟨result, hrun, hcode⟩ := hpodman status
      exact ⟨result, w, hrun, hcode⟩
    · rename_i hok
      rw [if_neg hok] at hpodman
      exact hpodman

/-- A process on a Mac without a container engine. -/
def engineless : ProcessEnv :=
  { smallEnv "u" with engine := { readyEngine with binary := none } }

/-- What `run -- true` prepares there. -/
def fallbackRun : Prepared where
  kind := .mac
  proxyPort := none
  request := {
    name := "run-0", policy := { SandboxPolicy.restrictiveDefault with mechanism := some .mac }
    workdir := osString "/w", ephemeral := true, command := ["true"], env := [] }

end SimpleSandbox
