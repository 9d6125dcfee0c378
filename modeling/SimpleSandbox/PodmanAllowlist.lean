import SimpleSandbox.PodmanMechanism

/-!
# The two argument lists of an allowlist sandbox

`build_allowlist_args` builds the argument list of the unrestricted mode and rewrites it:
a filter drops `--network` with the token after it, and the insertions look for the text of
the image.  Both work on the flattened list, so a token of the user's command counts as an
option.  This module states when the rewriting is the intended one.
-/

namespace SimpleSandbox

open RustText OsPath

namespace PodmanMechanism

/-! ## Rewriting a token list -/

theorem dropNetwork_cons_of_ne {a : String} (h : a ≠ "--network") (rest : List String) :
    dropNetwork (a :: rest) = a :: dropNetwork rest := by
  cases rest <;> simp [dropNetwork, h]

theorem dropNetwork_append {options : List String} (h : "--network" ∉ options)
    (rest : List String) : dropNetwork (options ++ rest) = options ++ dropNetwork rest := by
  induction options with
  | nil => rfl
  | cons a options ih =>
    have ha : a ≠ "--network" := fun e => h (by simp [e])
    have htail : "--network" ∉ options := fun e => h (by simp [e])
    rw [List.cons_append, dropNetwork_cons_of_ne ha, ih htail, List.cons_append]

theorem dropNetwork_of_not_mem {args : List String} (h : "--network" ∉ args) :
    dropNetwork args = args := by
  have happ := dropNetwork_append h []
  simpa [dropNetwork] using happ

theorem length_dropNetwork_le (args : List String) :
    (dropNetwork args).length ≤ args.length := by
  fun_induction dropNetwork args with
  | case1 => exact Nat.le_refl _
  | case2 => exact Nat.zero_le _
  | case3 b rest ih =>
    rw [List.length_cons, List.length_cons]
    omega
  | case4 a rest hne ih => simpa using ih

/-- An occurrence of the text is always dropped. -/
theorem length_dropNetwork_lt {args : List String} (h : "--network" ∈ args) :
    (dropNetwork args).length < args.length := by
  obtain ⟨before, after, rfl, hbefore⟩ := List.eq_append_cons_of_mem h
  have hcut : (dropNetwork ("--network" :: after)).length ≤ after.length := by
    cases after with
    | nil => exact Nat.le_refl _
    | cons b after =>
      have hle := length_dropNetwork_le after
      simp only [dropNetwork, ↓reduceIte, List.length_cons]
      omega
  rw [dropNetwork_append hbefore, List.length_append, List.length_append, List.length_cons]
  omega

theorem insertIdx_length_append (before after : List String) (a : String) :
    (before ++ after).insertIdx before.length a = before ++ a :: after := by
  induction before with
  | nil => simp
  | cons b before ih => simp [List.insertIdx_succ_cons, ih]

theorem findIdx?_append_cons {options : List String} {image : String} (h : image ∉ options)
    (rest : List String) :
    (options ++ image :: rest).findIdx? (· == image) = some options.length := by
  have hnone : options.findIdx? (· == image) = none := by
    rw [List.findIdx?_eq_none_iff]
    intro a ha
    have hne : a ≠ image := fun e => h (e ▸ ha)
    simpa using hne
  rw [List.findIdx?_append, hnone, List.findIdx?_cons]
  simp

/-! ## The tokens before the image -/

/-- The option tokens of the unrestricted mode, after `run`. -/
def plainOptions (h : MechHost) (req : CreateRequest) (name : String) (detach : Bool) (mem : ℕ) :
    List String :=
  (optionArgs h (unrestricted req) name detach mem).tail

theorem ne_of_getLast? {s t : String} (h : s.toList.getLast? ≠ t.toList.getLast?) : s ≠ t :=
  fun e => h (by rw [e])

theorem ne_of_mem_char {s t : String} {c : Char} (hs : c ∈ s.toList) (ht : c ∉ t.toList) :
    s ≠ t := fun e => ht (e ▸ hs)

theorem ne_of_head? {s t : String} (h : s.toList.head? ≠ t.toList.head?) : s ≠ t :=
  fun e => h (by rw [e])

/-- The last character of a mount is that of its mode. -/
theorem getLast?_mountSpec {h : MechHost} {p : String} {workdir : PathBuf} {readOnly : Bool}
    {spec : String} (hspec : mountSpec h p workdir readOnly = some spec) :
    spec.toList.getLast? = some (if readOnly then 'o' else 'w') := by
  simp only [mountSpec] at hspec
  generalize (if isAbsolute (osString p) = true then osString p
    else join workdir (osString p)) = host at hspec
  split at hspec
  · simp at hspec
  · split at hspec
    · simp at hspec
    · obtain ⟨file, -, rfl⟩ := Option.map_eq_some_iff.mp hspec
      cases readOnly <;> simp [List.getLast?_cons, List.getLast?_append]

/-- The token is neither of the two texts the rewriting looks for. -/
def IsPlain (t : String) : Prop := t ≠ "--network" ∧ t ≠ defaultImage

theorem isPlain_of_getLast? {t : String} {c : Char} (h : t.toList.getLast? = some c)
    (hc : c = 'o' ∨ c = 'w') : IsPlain t := by
  constructor
  · apply ne_of_getLast?
    rw [h]
    rcases hc with rfl | rfl <;> decide
  · apply ne_of_getLast?
    rw [h]
    rcases hc with rfl | rfl <;> decide

theorem isPlain_workdirArgs (h : MechHost) (req : CreateRequest) :
    ∀ t ∈ workdirArgs h req, IsPlain t := by
  intro t ht
  unfold workdirArgs at ht
  split at ht
  · simp only [List.mem_cons, List.not_mem_nil, or_false] at ht
    rcases ht with rfl | rfl | rfl | rfl
    · exact ⟨by decide, by decide⟩
    · exact isPlain_of_getLast? (c := 'w') (by simp) (Or.inr rfl)
    · exact ⟨by decide, by decide⟩
    · exact ⟨by decide, by decide⟩
  · simp at ht

theorem isPlain_mountArgs (h : MechHost) (req : CreateRequest) :
    ∀ t ∈ mountArgs h req, IsPlain t := by
  intro t ht
  have hmount : ∀ {readOnly : Bool} {p s : String},
      mountSpec h p req.workdir readOnly = some s → t ∈ ["-v", s] → IsPlain t := by
    intro readOnly p s hs hmem
    simp only [List.mem_cons, List.not_mem_nil, or_false] at hmem
    rcases hmem with rfl | rfl
    · exact ⟨by decide, by decide⟩
    · apply isPlain_of_getLast? (getLast?_mountSpec hs)
      cases readOnly <;> simp
  simp only [mountArgs, List.mem_append, List.mem_flatMap] at ht
  rcases ht with ⟨p, -, hmem⟩ | ⟨p, -, hmem⟩
  · split at hmem
    · rename_i s hs
      exact hmount hs hmem
    · simp at hmem
  · split at hmem
    · simp at hmem
    · split at hmem
      · rename_i s hs
        exact hmount hs hmem
      · simp at hmem

theorem isPlain_envArgs (env : List (String × String)) : ∀ t ∈ envArgs env, IsPlain t := by
  intro t ht
  simp only [envArgs, List.mem_flatMap, List.mem_cons, List.not_mem_nil, or_false] at ht
  obtain ⟨⟨k, v⟩, -, rfl | rfl⟩ := ht
  · exact ⟨by decide, by decide⟩
  · have heq : '=' ∈ (k ++ "=" ++ v).toList := by simp
    exact ⟨ne_of_mem_char heq (by decide), ne_of_mem_char heq (by decide)⟩

/-- No option of the plain list is one of the two texts, whatever the request holds. -/
theorem isPlain_plainOptions (h : MechHost) (req : CreateRequest) (name : String)
    (detach : Bool) (mem : ℕ) : ∀ t ∈ plainOptions h req name detach mem, IsPlain t := by
  intro t ht
  simp only [plainOptions, optionArgs, unrestricted, List.cons_append, List.nil_append,
    List.append_nil, List.tail_cons, List.mem_cons, List.mem_append, reduceCtorEq, false_and,
    ↓reduceIte, List.not_mem_nil, or_false] at ht
  rcases ht with rfl | rfl | rfl | rfl | rfl | ((ht | ht) | rfl | rfl) | ht
  · cases detach <;> exact ⟨by decide, by decide⟩
  · exact ⟨by decide, by decide⟩
  · constructor
    · apply ne_of_head?
      simp [containerName]
    · apply ne_of_head?
      simp [containerName, defaultImage]
  · have heq : ∀ x : String, '=' ∈ ("--cpus=" ++ x).toList := fun x => by simp
    exact ⟨ne_of_mem_char (heq _) (by decide), ne_of_mem_char (heq _) (by decide)⟩
  · have heq : ∀ x : String, '=' ∈ ("--memory=" ++ x).toList := fun x => by simp
    exact ⟨ne_of_mem_char (heq _) (by decide), ne_of_mem_char (heq _) (by decide)⟩
  · exact isPlain_workdirArgs h _ t ht
  · exact isPlain_mountArgs h _ t ht
  · exact ⟨by decide, by decide⟩
  · exact ⟨by decide, by decide⟩
  · exact isPlain_envArgs _ t ht

/-! ## Agreement of the two lists -/

/-- The proxy settings of the allowlist mode, in the order in which the repeated insertions
    at one position leave them. -/
def proxyTokens (h : MechHost) : List String :=
  match h.proxyPort with
  | none => []
  | some port =>
    let url := "http://host.docker.internal:" ++ port
    ["-e", "NO_PROXY=localhost,127.0.0.1", "-e", "http_proxy=" ++ url, "-e", "https_proxy=" ++ url,
     "-e", "HTTP_PROXY=" ++ url, "-e", "HTTPS_PROXY=" ++ url]

/-- `allow` is `plain` with the `--add-host` pair put after `run` and the proxy tokens put
    before the image; the command follows the image in both. -/
def ArgvAgrees (image : String) (command proxy plain allow : List String) : Prop :=
  ∃ options,
    plain = "run" :: options ++ image :: command ∧
    allow = "run" :: "--add-host" :: "host.docker.internal:host-gateway" :: options ++ proxy ++
      image :: command

/-- `build_allowlist_args` agrees with `build_run_args` in the unrestricted mode. -/
def AllowlistAgrees (m : PodmanMechanism) (h : MechHost) (req : CreateRequest) (name : String)
    (detach : Bool) : Prop :=
  match m.buildRunArgs h (unrestricted req) name detach, m.buildAllowlistArgs h req name detach with
  | .ok plain, .ok allow => ArgvAgrees m.image (commandArgs req) (proxyTokens h) plain allow
  | .error _, .error _ => True
  | _, _ => False

theorem insertPair_length_append (before after : List String) (value : String) :
    insertPair before.length (before ++ after) value = before ++ "-e" :: value :: after := by
  have hvalue := insertIdx_length_append (before ++ ["-e"]) after value
  rw [insertPair, insertIdx_length_append]
  simpa using hvalue

/-- The insertions on a list in which the image stands nowhere before its place. -/
theorem insertAllowlist_eq (m : PodmanMechanism) (h : MechHost) {options : List String}
    (himage : m.image ∉
      "run" :: "--add-host" :: "host.docker.internal:host-gateway" :: options)
    (rest : List String) :
    m.insertAllowlist h ("run" :: options ++ m.image :: rest) =
      "run" :: "--add-host" :: "host.docker.internal:host-gateway" :: options ++ proxyTokens h ++
        m.image :: rest := by
  have hgateway :
      (("run" :: options ++ m.image :: rest).insertIdx 1 "--add-host").insertIdx 2
          "host.docker.internal:host-gateway" =
        ("run" :: "--add-host" :: "host.docker.internal:host-gateway" :: options) ++
          m.image :: rest := by
    simp [List.insertIdx_succ_cons]
  simp only [insertAllowlist, hgateway, proxyTokens]
  cases h.proxyPort with
  | none => simp
  | some port =>
    simp only [findIdx?_append_cons himage, Option.getD_some, List.foldl_cons, List.foldl_nil,
      insertPair_length_append]
    simp

theorem length_insertPair {pos : ℕ} {args : List String} (hpos : pos ≤ args.length)
    (value : String) : (insertPair pos args value).length = args.length + 2 := by
  have hfirst : (args.insertIdx pos "-e").length = args.length + 1 :=
    List.length_insertIdx_of_le_length hpos _
  rw [insertPair, List.length_insertIdx_of_le_length (by omega), hfirst]

theorem length_insertAllowlist (m : PodmanMechanism) (h : MechHost) {args : List String}
    (hargs : args ≠ []) :
    (m.insertAllowlist h args).length = args.length + 2 + (proxyTokens h).length := by
  obtain ⟨a, args, rfl⟩ := List.exists_cons_of_ne_nil hargs
  have hgateway :
      (((a :: args).insertIdx 1 "--add-host").insertIdx 2
        "host.docker.internal:host-gateway").length = (a :: args).length + 2 := by
    simp [List.insertIdx_succ_cons]
  simp only [insertAllowlist, proxyTokens]
  generalize ((a :: args).insertIdx 1 "--add-host").insertIdx 2
    "host.docker.internal:host-gateway" = argv at hgateway ⊢
  cases h.proxyPort with
  | none => simpa using hgateway
  | some port =>
    have hpos : (argv.findIdx? (· == m.image)).getD argv.length ≤ argv.length := by
      cases hfind : argv.findIdx? (· == m.image) with
      | none => exact Nat.le_refl _
      | some i =>
        have hi := (List.findIdx?_eq_some_iff_getElem.mp hfind).1
        exact Nat.le_of_lt hi
    generalize (argv.findIdx? (· == m.image)).getD argv.length = pos at hpos ⊢
    have hfold : ∀ (values argv : List String), pos ≤ argv.length →
        (values.foldl (insertPair pos) argv).length = argv.length + 2 * values.length := by
      intro values
      induction values with
      | nil => intro argv _; rfl
      | cons v values ih =>
        intro argv hle
        have hlen := length_insertPair hle v
        rw [List.foldl_cons, ih _ (by omega), hlen, List.length_cons]
        omega
    rw [hfold _ _ hpos, hgateway]
    simp

/-- A refused memory size stops both functions. -/
theorem allowlistAgrees_of_error (m : PodmanMechanism) (h : MechHost) {req : CreateRequest}
    (name : String) (detach : Bool) {e : PolicyError}
    (hmem : req.policy.resources.memoryBytes = .error e) : AllowlistAgrees m h req name detach := by
  have hmem' : (unrestricted req).policy.resources.memoryBytes = .error e := hmem
  have hplain : m.buildRunArgs h (unrestricted req) name detach = .error (.message e.text) := by
    rw [buildRunArgs, hmem']
    rfl
  have hallow : m.buildAllowlistArgs h req name detach = .error (.message e.text) := by
    rw [buildAllowlistArgs, hplain]
    rfl
  rw [AllowlistAgrees, hplain, hallow]
  trivial

/-- With a readable memory size both functions give a list. -/
theorem allowlistAgrees_of_ok (m : PodmanMechanism) (h : MechHost) {req : CreateRequest}
    (name : String) (detach : Bool) {mem : ℕ}
    (hmem : req.policy.resources.memoryBytes = .ok mem) :
    AllowlistAgrees m h req name detach ↔
      ArgvAgrees m.image (commandArgs req) (proxyTokens h)
        ("run" :: plainOptions h req name detach mem ++ m.image :: commandArgs req)
        (m.insertAllowlist h (dropNetwork
          ("run" :: plainOptions h req name detach mem ++ m.image :: commandArgs req))) := by
  have hmem' : (unrestricted req).policy.resources.memoryBytes = .ok mem := hmem
  have hplain : m.buildRunArgs h (unrestricted req) name detach =
      .ok ("run" :: plainOptions h req name detach mem ++ m.image :: commandArgs req) := by
    rw [buildRunArgs, hmem']
    rfl
  have hallow : m.buildAllowlistArgs h req name detach = .ok (m.insertAllowlist h (dropNetwork
      ("run" :: plainOptions h req name detach mem ++ m.image :: commandArgs req))) := by
    rw [buildAllowlistArgs, hplain]
    rfl
  rw [AllowlistAgrees, hplain, hallow]

theorem network_not_mem_commandArgs {req : CreateRequest} (h : "--network" ∉ req.command) :
    "--network" ∉ commandArgs req := by
  unfold commandArgs
  split
  · decide
  · exact h

/-- The rewriting is right for any image that no earlier token repeats, as long as the
    filter meets no `--network`. -/
theorem allowlistAgrees_of_not_mem (m : PodmanMechanism) (h : MechHost) (req : CreateRequest)
    (name : String) (detach : Bool) (hflag : m.image ≠ "--network")
    (himage : ∀ mem, m.image ∉ "run" :: "--add-host" :: "host.docker.internal:host-gateway" ::
      plainOptions h req name detach mem)
    (hcommand : "--network" ∉ req.command) : AllowlistAgrees m h req name detach := by
  cases hmem : req.policy.resources.memoryBytes with
  | error e => exact allowlistAgrees_of_error m h name detach hmem
  | ok mem =>
    -- no token is `--network`, so the filter keeps the whole list
    have hoptions : "--network" ∉ plainOptions h req name detach mem := fun hin =>
      (isPlain_plainOptions h req name detach mem _ hin).1 rfl
    have hkeep : "--network" ∉
        "run" :: plainOptions h req name detach mem ++ m.image :: commandArgs req := by
      simp only [List.cons_append, List.mem_cons, List.mem_append, not_or]
      exact ⟨by decide, hoptions, hflag.symm, network_not_mem_commandArgs hcommand⟩
    rw [allowlistAgrees_of_ok m h name detach hmem, dropNetwork_of_not_mem hkeep,
      insertAllowlist_eq m h (himage mem)]
    exact ⟨_, rfl, rfl⟩

/-- A `--network` in the command is removed from it. -/
theorem not_allowlistAgrees_of_mem (m : PodmanMechanism) (h : MechHost) (req : CreateRequest)
    (name : String) (detach : Bool) {mem : ℕ}
    (hmem : req.policy.resources.memoryBytes = .ok mem) (hcommand : "--network" ∈ req.command) :
    ¬ AllowlistAgrees m h req name detach := by
  have hnonempty : req.command ≠ [] := List.ne_nil_of_mem hcommand
  have hflag : "--network" ∈
      "run" :: plainOptions h req name detach mem ++ m.image :: commandArgs req := by
    simp [commandArgs, hnonempty, hcommand]
  have hshort := length_dropNetwork_lt hflag
  have hcleaned :
      dropNetwork ("run" :: plainOptions h req name detach mem ++ m.image :: commandArgs req) ≠
        [] := by
    rw [List.cons_append, dropNetwork_cons_of_ne (by decide)]
    exact List.cons_ne_nil _ _
  have hlen := m.length_insertAllowlist h hcleaned
  rw [allowlistAgrees_of_ok m h name detach hmem]
  rintro ⟨options, hsplit, hallow⟩
  -- the intended list is longer than the plain one by what is inserted; the real one is not
  have hsplit' := congrArg List.length hsplit
  have hallow' := congrArg List.length hallow
  simp only [List.length_append, List.length_cons] at hshort hlen hsplit' hallow'
  omega

end PodmanMechanism

/-- **Agreement of the two lists.**  For the image every caller uses, the allowlist argument
    list is the intended one exactly when the memory size is refused or the command does not
    hold the token `--network`. -/
theorem allowlistAgrees_iff (binary : Option PathBuf) (h : MechHost) (req : CreateRequest)
    (name : String) (detach : Bool) :
    PodmanMechanism.AllowlistAgrees { binary } h req name detach ↔
      (∃ e, req.policy.resources.memoryBytes = .error e) ∨ "--network" ∉ req.command := by
  constructor
  · intro hagrees
    cases hmem : req.policy.resources.memoryBytes with
    | error e => exact Or.inl ⟨e, rfl⟩
    | ok mem =>
      refine Or.inr fun hcommand => ?_
      exact PodmanMechanism.not_allowlistAgrees_of_mem _ h req name detach hmem hcommand hagrees
  · rintro (⟨e, hmem⟩ | hcommand)
    · exact PodmanMechanism.allowlistAgrees_of_error _ h name detach hmem
    · apply PodmanMechanism.allowlistAgrees_of_not_mem _ h req name detach
      · change defaultImage ≠ "--network"
        decide
      · intro mem hin
        simp only [List.mem_cons] at hin
        rcases hin with hin | hin | hin | hin
        · exact absurd hin (by decide)
        · exact absurd hin (by decide)
        · exact absurd hin (by decide)
        · exact (PodmanMechanism.isPlain_plainOptions h req name detach mem _ hin).2 rfl
      · exact hcommand

/-! ## A command that speaks of networks -/

/-- A host whose engine does nothing. -/
def quietEngine : Engine where
  binary := none
  usable := .ok ""
  run := fun _ => .started ""
  runAttached := fun _ => .ok (.exited 0)
  rm := fun _ => .removed
  exec := fun _ => .ok (.exited 0)

def quietHost : MechHost where
  os := .macos
  toYaml := fun _ => .ok ""
  faults := noFaults
  canonicalize := some
  pathExists := fun _ => false
  proxyPort := none
  engine := quietEngine
  sandboxExec := none
  tempFile := .ok []
  dirsFallback := []
  spawn := fun _ => .ok (.exited 0)

/-- `ssbx run --policy allow.yaml -- podman run --network host img` -/
def networkRequest : CreateRequest where
  name := "r"
  policy := { network := { mode := .allowlist, endpoints := [{ host := "example.org" }] } }
  workdir := osString "/w"
  ephemeral := true
  command := ["podman", "run", "--network", "host", "img"]
  env := []

/-- The guest command loses its `--network host`. -/
theorem allowlist_not_always_agrees :
    ¬ ∀ (h : MechHost) (req : CreateRequest) (name : String) (detach : Bool),
      PodmanMechanism.AllowlistAgrees {} h req name detach := by
  intro hall
  have hmem : networkRequest.policy.resources.memoryBytes = .ok 2147483648 := by decide
  exact PodmanMechanism.not_allowlistAgrees_of_mem {} quietHost networkRequest "r" false hmem
    (by decide) (hall quietHost networkRequest "r" false)

end SimpleSandbox
