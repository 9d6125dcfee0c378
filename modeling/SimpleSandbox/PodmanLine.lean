import SimpleSandbox.PodmanArgs

/-!
# The command line of a creation

`create` makes its command line by `build_run_args`, and in the allowlist mode once more by
`build_allowlist_args`.  In every mode it is read back as one `run` line, and that line is the
request's own; in the allowlist mode the gateway and the proxy settings stand in the place of the
network, and the filter that takes `--network` out has also gone over the command.
-/

namespace SimpleSandbox

open RustText OsPath

namespace PodmanMechanism

/-- The proxy settings of the allowlist mode, as values of `-e`. -/
def proxyValues (h : MechHost) : List String :=
  match h.proxyPort with
  | none => []
  | some port =>
    let url := "http://host.docker.internal:" ++ port
    ["NO_PROXY=localhost,127.0.0.1", "http_proxy=" ++ url, "https_proxy=" ++ url,
      "HTTP_PROXY=" ++ url, "HTTPS_PROXY=" ++ url]

/-- What a request asks of `run` in the allowlist mode. -/
def allowlistLine (h : MechHost) (req : CreateRequest) (name : String) (detach : Bool)
    (mem : ℕ) : RunLine :=
  { requestLine {} h (unrestricted req) name detach mem with
    addHosts := ["host.docker.internal:host-gateway"]
    env := envValues req ++ proxyValues h
    command := dropNetwork (commandArgs req) }

/-- What a creation asks of `run`. -/
def createLine (h : MechHost) (req : CreateRequest) (mem : ℕ) : RunLine :=
  if req.policy.network.mode = .allowlist then allowlistLine h req req.name (!req.ephemeral) mem
  else requestLine {} h req req.name (!req.ephemeral) mem

theorem proxyOptions_eq (h : MechHost) : proxyOptions h = (proxyValues h).map (.valued "-e") := by
  unfold proxyOptions proxyValues
  cases h.proxyPort with
  | none => rfl
  | some port => rfl

theorem ofOptions_allowlistOptions (h : MechHost) (req : CreateRequest) (name : String)
    (detach : Bool) (mem : ℕ) :
    RunLine.ofOptions (allowlistOptions h req name detach mem) defaultImage
        (dropNetwork (commandArgs req)) = allowlistLine h req name detach mem := by
  have hrun := ofOptions_runOptions {} h (unrestricted req) name detach mem
  have hnetwork : addHosts h (unrestricted req) = [] := by
    rw [addHosts, if_neg]
    rintro ⟨hmode, -⟩
    cases hmode
  simp only [RunLine.ofOptions, requestLine, RunLine.mk.injEq, hnetwork] at hrun
  obtain ⟨hdetach, hrm, hnames, hcpus, hmemory, hnetworks, hvolumes, hworkdirs, htmpfs, henv,
    hhosts, -, -⟩ := hrun
  simp only [RunLine.ofOptions, allowlistLine, requestLine, RunLine.mk.injEq, allowlistOptions,
    proxyOptions_eq, List.filterMap_append, List.any_append, ArgOption.filterMap_valueFor_map,
    ArgOption.any_isFlag_map, hdetach, hrm, hnames, hcpus, hmemory, hnetworks, hvolumes, hworkdirs,
    htmpfs, henv, hhosts]
  simp [ArgOption.valueFor, ArgOption.isFlag, envValues, unrestricted]

/-- **Every command line of a creation is read back**, in every network mode. -/
theorem decode_createArgs {h : MechHost} {req : CreateRequest} {args : List String}
    (hargs : createArgs {} h req = .ok args) :
    ∃ mem, req.policy.resources.memoryBytes = .ok mem ∧
      RunLine.decode allowlistGrammar args = some (createLine h req mem) := by
  cases hmem : req.policy.resources.memoryBytes with
  | error e =>
    rw [createArgs, buildRunArgs_of_error hmem] at hargs
    cases hargs
  | ok mem =>
    refine ⟨mem, rfl, ?_⟩
    obtain ⟨plain, hplain, hline⟩ :=
      decode_buildRunArgs {} h req req.name (!req.ephemeral) defaultImage_head hmem
    rw [createArgs, hplain] at hargs
    rw [createLine]
    by_cases hmode : req.policy.network.mode = .allowlist
    · have hallow : buildAllowlistArgs {} h req req.name (!req.ephemeral) = .ok args := by
        simpa [bind, Except.bind, hmode] using hargs
      rw [buildAllowlistArgs_eq hmem] at hallow
      rw [if_pos hmode, ← Except.ok.inj hallow,
        decode_tokens (knows_allowlistOptions h req req.name (!req.ephemeral) mem)
          defaultImage_head, ofOptions_allowlistOptions]
    · have hsame : plain = args := by
        simpa [bind, Except.bind, hmode, pure, Except.pure] using hargs
      rw [if_neg hmode, ← hsame, hline]

theorem createArgs_of_error (h : MechHost) {req : CreateRequest} {e : PolicyError}
    (hmem : req.policy.resources.memoryBytes = .error e) :
    createArgs {} h req = .error (.message e.text) := by
  rw [createArgs, buildRunArgs_of_error hmem]
  rfl

theorem exists_createArgs (h : MechHost) {req : CreateRequest} {mem : ℕ}
    (hmem : req.policy.resources.memoryBytes = .ok mem) :
    ∃ args, createArgs {} h req = .ok args := by
  have hplain : buildRunArgs {} h req req.name (!req.ephemeral) = .ok _ :=
    buildRunArgs_of_memoryBytes hmem
  rw [createArgs, hplain]
  by_cases hmode : req.policy.network.mode = .allowlist
  · refine ⟨_, (if_pos hmode).trans (buildAllowlistArgs_eq hmem)⟩
  · exact ⟨_, if_neg hmode⟩

/-- A creation gives its container one name. -/
theorem names_createLine (h : MechHost) (req : CreateRequest) (mem : ℕ) :
    (createLine h req mem).names = [containerName req.name] := by
  unfold createLine
  split
  · rfl
  · rfl

end PodmanMechanism

end SimpleSandbox
