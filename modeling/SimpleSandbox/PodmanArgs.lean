import SimpleSandbox.ArgGrammar
import SimpleSandbox.PodmanAllowlist

/-!
# Reading the podman command line

The token list of `build_run_args` is what its options spell, followed by the image and the
command.  Reading it by the grammar of `run` therefore gives back the request, and no text of
the request is taken for an option.
-/

namespace SimpleSandbox

open RustText OsPath

/-- The options of `run` that the tool uses. -/
def runGrammar : ArgGrammar where
  flags := ["-d", "--rm"]
  joined := ["--cpus=", "--memory="]
  valued := ["--name", "--network", "-v", "-w", "--tmpfs", "-e"]
  valued_apart := by decide
  joined_apart := by decide
  joined_unique := by decide
  dashed := by decide

/-- As `runGrammar`, with the host entries of the allowlist mode. -/
def allowlistGrammar : ArgGrammar where
  flags := ["-d", "--rm"]
  joined := ["--cpus=", "--memory="]
  valued := ["--name", "--network", "-v", "-w", "--tmpfs", "-e", "--add-host"]
  valued_apart := by decide
  joined_apart := by decide
  joined_unique := by decide
  dashed := by decide

/-- What a `run` command line asks for: the values of each option in their order, the image
    and the command. -/
structure RunLine where
  detach : Bool
  rm : Bool
  names : List String
  cpus : List String
  memory : List String
  networks : List String
  volumes : List String
  workdirs : List String
  tmpfs : List String
  env : List String
  addHosts : List String
  image : String
  command : List String
deriving DecidableEq

namespace RunLine

def ofOptions (options : List ArgOption) (image : String) (command : List String) : RunLine where
  detach := options.any (·.isFlag "-d")
  rm := options.any (·.isFlag "--rm")
  names := options.filterMap (·.valueFor "--name")
  cpus := options.filterMap (·.valueFor "--cpus=")
  memory := options.filterMap (·.valueFor "--memory=")
  networks := options.filterMap (·.valueFor "--network")
  volumes := options.filterMap (·.valueFor "-v")
  workdirs := options.filterMap (·.valueFor "-w")
  tmpfs := options.filterMap (·.valueFor "--tmpfs")
  env := options.filterMap (·.valueFor "-e")
  addHosts := options.filterMap (·.valueFor "--add-host")
  image := image
  command := command

@[simp] theorem volumes_ofOptions (options : List ArgOption) (image : String)
    (command : List String) :
    (ofOptions options image command).volumes = options.filterMap (·.valueFor "-v") := rfl

/-- Read a command line: the first token that is not an option is the image. -/
def decode (g : ArgGrammar) : List String → Option RunLine
  | "run" :: args =>
    match g.read args with
    | some (options, image :: command) => some (ofOptions options image command)
    | _ => none
  | _ => none

end RunLine

namespace PodmanMechanism

/-- The mounts of the policy's lists, in their order. -/
def extraMounts (h : MechHost) (req : CreateRequest) : List String :=
  req.policy.filesystem.readOnly.filterMap (mountSpec h · req.workdir true) ++
  (req.policy.filesystem.readWrite.filter fun p => p ≠ "/workspace" ∧ p ≠ "/tmp").filterMap
    (mountSpec h · req.workdir false)

/-- The mount of the working directory. -/
def workdirMounts (h : MechHost) (req : CreateRequest) : List String :=
  if req.policy.filesystem.workdir then
    [display ((h.canonicalize req.workdir).getD req.workdir) ++ ":/workspace:rw"]
  else []

def workdirs (req : CreateRequest) : List String :=
  if req.policy.filesystem.workdir then ["/workspace"] else []

def networks (req : CreateRequest) : List String :=
  if req.policy.network.mode = .unrestricted then [] else ["none"]

def addHosts (h : MechHost) (req : CreateRequest) : List String :=
  if req.policy.network.mode = .allowlist ∧ h.proxyPort.isSome then
    ["host.docker.internal:host-gateway"]
  else []

def envValues (req : CreateRequest) : List String := req.env.map fun kv => kv.1 ++ "=" ++ kv.2

/-- What the request asks of `run`. -/
def requestLine (m : PodmanMechanism) (h : MechHost) (req : CreateRequest) (name : String)
    (detach : Bool) (mem : ℕ) : RunLine where
  detach := detach
  rm := !detach
  names := [containerName name]
  cpus := [req.policy.resources.cpus.display]
  memory := [decimal mem]
  networks := networks req
  volumes := workdirMounts h req ++ extraMounts h req
  workdirs := workdirs req
  tmpfs := ["/tmp:rw,size=64m"]
  env := envValues req
  addHosts := addHosts h req
  image := m.image
  command := commandArgs req

/-- The options `build_run_args` spells. -/
def runOptions (h : MechHost) (req : CreateRequest) (name : String) (detach : Bool) (mem : ℕ) :
    List ArgOption :=
  [.flag (if detach then "-d" else "--rm"), .valued "--name" (containerName name),
   .joined "--cpus=" req.policy.resources.cpus.display, .joined "--memory=" (decimal mem)] ++
  (networks req).map (.valued "--network") ++
  (workdirMounts h req).map (.valued "-v") ++
  (workdirs req).map (.valued "-w") ++
  (extraMounts h req).map (.valued "-v") ++
  [.valued "--tmpfs" "/tmp:rw,size=64m"] ++
  (envValues req).map (.valued "-e") ++
  (addHosts h req).map (.valued "--add-host")

/-! ## The tokens are the spelled options -/

theorem flatMap_tokens_valued (name : String) (values : List String) :
    (values.map (ArgOption.valued name)).flatMap ArgOption.tokens =
      values.flatMap fun v => [name, v] := by
  rw [List.flatMap_map]
  rfl

/-- The loop over one list spells `-v` for each mount it finds. -/
theorem flatMap_filterMap {α β γ : Type} (f : α → Option β) (g : β → List γ) (l : List α) :
    (l.filterMap f).flatMap g = l.flatMap fun a => (f a).toList.flatMap g := by
  rw [List.filterMap_eq_flatMap_toList, List.flatMap_assoc]

theorem mountArgs_eq (h : MechHost) (req : CreateRequest) :
    mountArgs h req = (extraMounts h req).flatMap fun s => ["-v", s] := by
  rw [mountArgs, extraMounts, List.filterMap_filter, List.flatMap_append, flatMap_filterMap,
    flatMap_filterMap]
  congr 1
  · refine List.flatMap_congr fun p _ => ?_
    dsimp only
    split
    · rename_i spec hspec
      rw [hspec]
      rfl
    · rename_i hspec
      rw [hspec]
      rfl
  · refine List.flatMap_congr fun p _ => ?_
    by_cases hp : p = "/workspace" ∨ p = "/tmp"
    · have hdrop : ¬ (p ≠ "/workspace" ∧ p ≠ "/tmp") := fun hne => hp.elim hne.1 hne.2
      simp [hp, hdrop]
    · have hkeep : p ≠ "/workspace" ∧ p ≠ "/tmp" := not_or.mp hp
      rw [if_neg hp, if_pos (decide_eq_true hkeep)]
      dsimp only
      split
      · rename_i spec hspec
        rw [hspec]
        rfl
      · rename_i hspec
        rw [hspec]
        rfl

theorem workdirArgs_eq (h : MechHost) (req : CreateRequest) :
    workdirArgs h req = ((workdirMounts h req).flatMap fun v => ["-v", v]) ++
      (workdirs req).flatMap fun v => ["-w", v] := by
  rw [workdirArgs, workdirMounts, workdirs]
  split <;> rfl

theorem envArgs_eq (req : CreateRequest) :
    envArgs req.env = (envValues req).flatMap fun v => ["-e", v] := by
  rw [envValues, List.flatMap_map]
  rfl

theorem optionArgs_eq (h : MechHost) (req : CreateRequest) (name : String) (detach : Bool)
    (mem : ℕ) :
    optionArgs h req name detach mem =
      "run" :: (runOptions h req name detach mem).flatMap ArgOption.tokens := by
  have hhosts : (if req.policy.network.mode = .allowlist ∧ h.proxyPort.isSome then
        ["--add-host", "host.docker.internal:host-gateway"] else []) =
      (addHosts h req).flatMap fun v => ["--add-host", v] := by
    rw [addHosts]
    split <;> rfl
  rw [optionArgs, workdirArgs_eq, mountArgs_eq, envArgs_eq, hhosts]
  simp only [runOptions, List.flatMap_append, flatMap_tokens_valued, List.append_assoc, networks]
  cases req.policy.network.mode <;> rfl

/-- Every option is spelled as a grammar knows it. -/
theorem knows_runOptions {g : ArgGrammar} (h : MechHost) (req : CreateRequest) (name : String)
    (detach : Bool) (mem : ℕ) (hflags : g.flags = ["-d", "--rm"])
    (hjoined : g.joined = ["--cpus=", "--memory="]) (hvalued : runGrammar.valued ⊆ g.valued)
    (hhosts : addHosts h req ≠ [] → "--add-host" ∈ g.valued) :
    ∀ o ∈ runOptions h req name detach mem, g.Knows o := by
  have hmap : ∀ {n : String} {values : List String}, (values ≠ [] → n ∈ g.valued) →
      ∀ o ∈ values.map (ArgOption.valued n), g.Knows o := by
    intro n values hn o ho
    obtain ⟨v, hv, rfl⟩ := List.mem_map.mp ho
    exact hn (List.ne_nil_of_mem hv)
  have hfirst : ∀ o ∈ [ArgOption.flag (if detach then "-d" else "--rm"),
      .valued "--name" (containerName name), .joined "--cpus=" req.policy.resources.cpus.display,
      .joined "--memory=" (decimal mem)], g.Knows o := by
    intro o ho
    simp only [List.mem_cons, List.not_mem_nil, or_false] at ho
    rcases ho with rfl | rfl | rfl | rfl
    · rw [ArgGrammar.Knows, hflags]
      cases detach <;> decide
    · exact hvalued (by decide)
    · rw [ArgGrammar.Knows, hjoined]
      decide
    · rw [ArgGrammar.Knows, hjoined]
      decide
  simp only [runOptions, List.forall_mem_append]
  refine ⟨⟨⟨⟨⟨⟨⟨hfirst, hmap fun _ => hvalued (by decide)⟩, hmap fun _ => hvalued (by decide)⟩,
    hmap fun _ => hvalued (by decide)⟩, hmap fun _ => hvalued (by decide)⟩, ?_⟩,
    hmap fun _ => hvalued (by decide)⟩, hmap hhosts⟩
  intro o ho
  rw [List.mem_singleton.mp ho]
  exact hvalued (by decide)

/-! ## Collecting the values -/

theorem ofOptions_runOptions (m : PodmanMechanism) (h : MechHost) (req : CreateRequest)
    (name : String) (detach : Bool) (mem : ℕ) :
    RunLine.ofOptions (runOptions h req name detach mem) m.image (commandArgs req) =
      m.requestLine h req name detach mem := by
  have htmpfs : [ArgOption.valued "--tmpfs" "/tmp:rw,size=64m"] =
      ["/tmp:rw,size=64m"].map (ArgOption.valued "--tmpfs") := rfl
  simp only [RunLine.ofOptions, requestLine, runOptions, htmpfs, List.filterMap_append,
    List.any_append, ArgOption.filterMap_valueFor_map, ArgOption.any_isFlag_map]
  cases detach <;> simp [ArgOption.valueFor, ArgOption.isFlag]

/-- A spelled command line is read as its options. -/
theorem decode_tokens {g : ArgGrammar} {options : List ArgOption} {image : String}
    (hknows : ∀ o ∈ options, g.Knows o) (himage : image.toList.head? ≠ some '-')
    (command : List String) :
    RunLine.decode g ("run" :: (options.flatMap ArgOption.tokens ++ image :: command)) =
      some (RunLine.ofOptions options image command) := by
  have hpositional : ArgGrammar.Positional (image :: command) := by
    intro t ht
    rw [← Option.some.inj ht]
    exact himage
  rw [RunLine.decode, ArgGrammar.read_append hknows hpositional]

/-- **Reading the command line back**, in every network mode. -/
theorem decode_optionArgs {g : ArgGrammar} (m : PodmanMechanism) (h : MechHost)
    (req : CreateRequest) (name : String) (detach : Bool) (mem : ℕ)
    (hknows : ∀ o ∈ runOptions h req name detach mem, g.Knows o)
    (himage : m.image.toList.head? ≠ some '-') :
    RunLine.decode g (optionArgs h req name detach mem ++ m.image :: commandArgs req) =
      some (m.requestLine h req name detach mem) := by
  rw [optionArgs_eq, List.cons_append, decode_tokens hknows himage, ofOptions_runOptions]

theorem buildRunArgs_of_memoryBytes {m : PodmanMechanism} {h : MechHost} {req : CreateRequest}
    {name : String} {detach : Bool} {mem : ℕ} (hmem : req.policy.resources.memoryBytes = .ok mem) :
    m.buildRunArgs h req name detach =
      .ok (optionArgs h req name detach mem ++ m.image :: commandArgs req) := by
  rw [buildRunArgs, hmem]
  rfl

theorem buildRunArgs_of_error {m : PodmanMechanism} {h : MechHost} {req : CreateRequest}
    {name : String} {detach : Bool} {e : PolicyError}
    (hmem : req.policy.resources.memoryBytes = .error e) :
    m.buildRunArgs h req name detach = .error (.message e.text) := by
  rw [buildRunArgs, hmem]
  rfl

/-- Every command line of `build_run_args` is read as its request. -/
theorem decode_buildRunArgs (m : PodmanMechanism) (h : MechHost) (req : CreateRequest)
    (name : String) (detach : Bool) {mem : ℕ} (himage : m.image.toList.head? ≠ some '-')
    (hmem : req.policy.resources.memoryBytes = .ok mem) :
    ∃ args, m.buildRunArgs h req name detach = .ok args ∧
      RunLine.decode allowlistGrammar args = some (m.requestLine h req name detach mem) := by
  refine ⟨_, buildRunArgs_of_memoryBytes hmem, m.decode_optionArgs h req name detach mem ?_ himage⟩
  apply knows_runOptions h req name detach mem rfl rfl
  · decide
  · intro _
    decide

/-- The proxy settings of the allowlist mode as options. -/
def proxyOptions (h : MechHost) : List ArgOption :=
  match h.proxyPort with
  | none => []
  | some port =>
    let url := "http://host.docker.internal:" ++ port
    ["NO_PROXY=localhost,127.0.0.1", "http_proxy=" ++ url, "https_proxy=" ++ url,
      "HTTP_PROXY=" ++ url, "HTTPS_PROXY=" ++ url].map (.valued "-e")

theorem proxyTokens_eq (h : MechHost) :
    proxyTokens h = (proxyOptions h).flatMap ArgOption.tokens := by
  rw [proxyTokens, proxyOptions]
  cases h.proxyPort <;> rfl

theorem defaultImage_head : defaultImage.toList.head? ≠ some '-' := by decide

/-- The options of an allowlist command line. -/
def allowlistOptions (h : MechHost) (req : CreateRequest) (name : String) (detach : Bool)
    (mem : ℕ) : List ArgOption :=
  [.valued "--add-host" "host.docker.internal:host-gateway"] ++
  runOptions h (unrestricted req) name detach mem ++ proxyOptions h

theorem knows_allowlistOptions (h : MechHost) (req : CreateRequest) (name : String)
    (detach : Bool) (mem : ℕ) :
    ∀ o ∈ allowlistOptions h req name detach mem, allowlistGrammar.Knows o := by
  intro o ho
  rcases List.mem_append.mp ho with ho | ho
  · rcases List.mem_append.mp ho with ho | ho
    · rw [List.mem_singleton.mp ho, ArgGrammar.Knows]
      decide
    · refine knows_runOptions h (unrestricted req) name detach mem rfl rfl ?_ ?_ o ho
      · decide
      · intro _
        decide
  · rw [proxyOptions] at ho
    split at ho
    · cases ho
    · obtain ⟨v, -, rfl⟩ := List.mem_map.mp ho
      rw [ArgGrammar.Knows]
      decide

/-- Whatever the filter does to the command, it leaves the options before the image alone. -/
theorem buildAllowlistArgs_eq {binary : Option PathBuf} {h : MechHost} {req : CreateRequest}
    {name : String} {detach : Bool} {mem : ℕ} (hmem : req.policy.resources.memoryBytes = .ok mem) :
    buildAllowlistArgs { binary } h req name detach =
      .ok ("run" :: ((allowlistOptions h req name detach mem).flatMap ArgOption.tokens ++
        defaultImage :: dropNetwork (commandArgs req))) := by
  have hplain := isPlain_plainOptions h req name detach mem
  have hoptions : "--network" ∉ "run" :: plainOptions h req name detach mem := by
    intro hin
    rcases List.mem_cons.mp hin with hin | hin
    · exact absurd hin (by decide)
    · exact (hplain _ hin).1 rfl
  have himage : defaultImage ∉ "run" :: "--add-host" :: "host.docker.internal:host-gateway" ::
      plainOptions h req name detach mem := by
    simp only [List.mem_cons, not_or]
    exact ⟨by decide, by decide, by decide, fun hin => (hplain _ hin).2 rfl⟩
  have htokens : plainOptions h req name detach mem =
      (runOptions h (unrestricted req) name detach mem).flatMap ArgOption.tokens := by
    rw [plainOptions, optionArgs_eq, List.tail_cons]
  have hmem' : (unrestricted req).policy.resources.memoryBytes = .ok mem := hmem
  have hrun : buildRunArgs { binary } h (unrestricted req) name detach =
      .ok ("run" :: plainOptions h req name detach mem ++ defaultImage :: commandArgs req) :=
    buildRunArgs_of_memoryBytes hmem'
  have hdrop : dropNetwork
      ("run" :: plainOptions h req name detach mem ++ defaultImage :: commandArgs req) =
      "run" :: plainOptions h req name detach mem ++
        defaultImage :: dropNetwork (commandArgs req) := by
    rw [dropNetwork_append hoptions, dropNetwork_cons_of_ne (by decide)]
  have hinsert := insertAllowlist_eq { binary } h himage (dropNetwork (commandArgs req))
  have hallow : buildAllowlistArgs { binary } h req name detach =
      .ok (insertAllowlist { binary } h (dropNetwork
        ("run" :: plainOptions h req name detach mem ++ defaultImage :: commandArgs req))) := by
    rw [buildAllowlistArgs, hrun]
    rfl
  rw [hallow, hdrop, hinsert, htokens, proxyTokens_eq, allowlistOptions]
  simp [ArgOption.tokens]

/-- The volumes of a command line, in the mode with an allowlist and without. -/
theorem volumes_of_argv {binary : Option PathBuf} {h : MechHost} {req : CreateRequest}
    {name : String} {detach : Bool} {args : List String}
    (hargs : buildRunArgs { binary } h req name detach = .ok args ∨
      buildAllowlistArgs { binary } h req name detach = .ok args) :
    ∃ line, RunLine.decode allowlistGrammar args = some line ∧
      line.volumes = workdirMounts h req ++ extraMounts h req := by
  cases hmem : req.policy.resources.memoryBytes with
  | error e =>
    have hmem' : (unrestricted req).policy.resources.memoryBytes = .error e := hmem
    rcases hargs with hargs | hargs
    · rw [buildRunArgs_of_error hmem] at hargs
      cases hargs
    · rw [buildAllowlistArgs, buildRunArgs_of_error hmem'] at hargs
      cases hargs
  | ok mem =>
    rcases hargs with hargs | hargs
    · obtain ⟨args', hargs', hline⟩ :=
        decode_buildRunArgs { binary } h req name detach defaultImage_head hmem
      rw [hargs] at hargs'
      obtain rfl := Except.ok.inj hargs'
      exact ⟨_, hline, rfl⟩
    · rw [buildAllowlistArgs_eq hmem] at hargs
      obtain rfl := Except.ok.inj hargs
      refine ⟨_, decode_tokens (knows_allowlistOptions h req name detach mem) defaultImage_head _, ?_⟩
      have hproxy : (proxyOptions h).filterMap (·.valueFor "-v") = [] := by
        rw [proxyOptions]
        cases h.proxyPort with
        | none => rfl
        | some port => exact ArgOption.filterMap_valueFor_map "-v" "-e" _
      have hrequest := congrArg RunLine.volumes
        (ofOptions_runOptions { binary } h (unrestricted req) name detach mem)
      rw [RunLine.volumes_ofOptions] at hrequest
      rw [RunLine.volumes_ofOptions, allowlistOptions, List.filterMap_append, hproxy,
        List.append_nil, List.filterMap_append]
      exact hrequest

end PodmanMechanism

/-- **The command line says what was asked.**  Without the allowlist mode the tokens are read as
    the request and as nothing else, whatever the name, the paths, the environment and the
    command are; the `cpus` text is read as the number it was made from.  A memory size that
    cannot be read gives no command line. -/
theorem podman_argv_decodes (m : PodmanMechanism) (h : MechHost) (req : CreateRequest)
    (name : String) (detach : Bool) (himage : m.image.toList.head? ≠ some '-')
    (hmode : req.policy.network.mode = .none ∨ req.policy.network.mode = .unrestricted) :
    (∀ e, req.policy.resources.memoryBytes = .error e →
      m.buildRunArgs h req name detach = .error (.message e.text)) ∧
    (req.policy.resources.cpus.IsBinary64 →
      F64.ofText req.policy.resources.cpus.display = some req.policy.resources.cpus) ∧
    ∀ mem, req.policy.resources.memoryBytes = .ok mem →
      ∃ args, m.buildRunArgs h req name detach = .ok args ∧
      RunLine.decode runGrammar args = some {
        detach := detach
        rm := !detach
        names := ["ssbx-" ++ name]
        cpus := [req.policy.resources.cpus.display]
        memory := [decimal mem]
        networks := if req.policy.network.mode = .none then ["none"] else []
        volumes :=
          (if req.policy.filesystem.workdir then
            [display ((h.canonicalize req.workdir).getD req.workdir) ++ ":/workspace:rw"]
          else []) ++
          (req.policy.filesystem.readOnly.filterMap (mountSpec h · req.workdir true) ++
          (req.policy.filesystem.readWrite.filter
            fun p => p ≠ "/workspace" ∧ p ≠ "/tmp").filterMap (mountSpec h · req.workdir false))
        workdirs := if req.policy.filesystem.workdir then ["/workspace"] else []
        tmpfs := ["/tmp:rw,size=64m"]
        env := req.env.map fun kv => kv.1 ++ "=" ++ kv.2
        addHosts := []
        image := m.image
        command := if req.command = [] then ["sleep", "infinity"] else req.command } := by
  refine ⟨fun e hmem => PodmanMechanism.buildRunArgs_of_error hmem, F64.ofText_display,
    fun mem hmem => ?_⟩
  have hhosts : PodmanMechanism.addHosts h req = [] := by
    rw [PodmanMechanism.addHosts, if_neg]
    rintro ⟨hallow, -⟩
    rw [hallow] at hmode
    rcases hmode with hmode | hmode <;> cases hmode
  have hknows : ∀ o ∈ PodmanMechanism.runOptions h req name detach mem, runGrammar.Knows o :=
    PodmanMechanism.knows_runOptions h req name detach mem rfl rfl (List.Subset.refl _)
      fun hne => absurd hhosts hne
  have hnetworks : PodmanMechanism.networks req =
      if req.policy.network.mode = .none then ["none"] else [] := by
    rw [PodmanMechanism.networks]
    rcases hmode with hmode | hmode <;> rw [hmode] <;> rfl
  refine ⟨_, PodmanMechanism.buildRunArgs_of_memoryBytes hmem, ?_⟩
  rw [m.decode_optionArgs h req name detach mem hknows himage, PodmanMechanism.requestLine,
    hhosts, hnetworks]
  rfl

/-- A name, an environment and a command that look like options. -/
def dashRequest : CreateRequest where
  name := "--rm"
  policy := {}
  workdir := osString "/w"
  ephemeral := false
  command := ["--network", "host"]
  env := [("-v", "/:/host")]

theorem display_two : (F64.finite 2).display = "2" := by decide +kernel

theorem podman_argv_decodes_dashes :
    F64.ofText "2" = some (.finite 2) ∧
    ∃ args, ({} : PodmanMechanism).buildRunArgs quietHost dashRequest "--rm" true = .ok args ∧
      RunLine.decode runGrammar args = some {
        detach := true, rm := false, names := ["ssbx---rm"], cpus := ["2"],
        memory := ["2147483648"], networks := ["none"], volumes := ["/w:/workspace:rw"],
        workdirs := ["/workspace"], tmpfs := ["/tmp:rw,size=64m"], env := ["-v=/:/host"],
        addHosts := [], image := "docker.io/library/alpine:3.20",
        command := ["--network", "host"] } := by
  have h := (podman_argv_decodes {} quietHost dashRequest "--rm" true (by decide) (Or.inl rfl)).2
  rw [show dashRequest.policy.resources.cpus = .finite 2 from rfl, display_two] at h
  exact ⟨h.1 (by decide +kernel), h.2 2147483648 (by decide)⟩

end SimpleSandbox
