import SimpleSandbox.Containers

/-!
# Entering containers

`exec` and `shell` of a podman sandbox end in one call of the engine.  Its command line is read
back as the request, and the container it names is the one the sandbox owns, in every state that
any processes with honest engines lead to.
-/

namespace SimpleSandbox

open RustText OsPath FileSystem Effect World

/-! ## The command line of an entry -/

/-- The options of the engine's `exec` that the tool uses. -/
def execGrammar : ArgGrammar where
  flags := ["-it"]
  joined := []
  valued := ["-e", "-w"]
  valued_apart := by decide
  joined_apart := by decide
  joined_unique := by decide
  dashed := by decide

/-- What an `exec` command line asks for. -/
structure ExecLine where
  tty : Bool
  env : List String
  workdirs : List String
  container : String
  command : List String
deriving DecidableEq

/-- Read a command line: the first token that is not an option is the container. -/
def ExecLine.decode : List String → Option ExecLine
  | "exec" :: args =>
    match execGrammar.read args with
    | some (options, container :: command) => some {
        tty := options.any (·.isFlag "-it")
        env := options.filterMap (·.valueFor "-e")
        workdirs := options.filterMap (·.valueFor "-w")
        container, command }
    | _ => none
  | _ => none

namespace PodmanMechanism

/-- The key of the container that `exec` gives to the engine. -/
def execKey (req : ExecRequest) : String :=
  if startsWith req.runtimeId "ssbx-" || decide (12 ≤ req.runtimeId.utf8ByteSize) then
    req.runtimeId
  else containerName req.name

/-- The arguments that `exec` gives to the engine. -/
def execArgs (req : ExecRequest) : List String :=
  ["exec"] ++ (if req.tty then ["-it"] else []) ++ envArgs req.env ++
    (match req.cwd with
     | some cwd => ["-w", cwd]
     | none => []) ++
    [execKey req] ++ (if req.command = [] then ["sh"] else req.command)

theorem exec_eq (m : PodmanMechanism) (h : MechHost) (req : ExecRequest) :
    m.exec h req = (do
      let _ ← m.runtimeBin h
      (h.engine.exec (execArgs req)).mapError .message) := rfl

/-- The options `exec` spells. -/
def execOptions (req : ExecRequest) : List ArgOption :=
  (if req.tty then [.flag "-it"] else []) ++
  (req.env.map fun kv => kv.1 ++ "=" ++ kv.2).map (.valued "-e") ++
  req.cwd.toList.map (.valued "-w")

theorem execArgs_eq (req : ExecRequest) :
    execArgs req = "exec" :: ((execOptions req).flatMap ArgOption.tokens ++
      execKey req :: (if req.command = [] then ["sh"] else req.command)) := by
  have henv : envArgs req.env =
      ((req.env.map fun kv => kv.1 ++ "=" ++ kv.2).map (ArgOption.valued "-e")).flatMap
        ArgOption.tokens := by
    rw [flatMap_tokens_valued, List.flatMap_map]
    rfl
  rw [execArgs, execOptions, henv]
  cases req.tty <;> cases req.cwd <;> simp [ArgOption.tokens]

theorem knows_execOptions (req : ExecRequest) : ∀ o ∈ execOptions req, execGrammar.Knows o := by
  intro o ho
  rcases List.mem_append.mp ho with ho | ho
  · rcases List.mem_append.mp ho with ho | ho
    · cases htty : req.tty with
      | false => simp [htty] at ho
      | true =>
        rw [htty, if_pos rfl, List.mem_singleton] at ho
        rw [ho, ArgGrammar.Knows]
        decide
    · obtain ⟨v, -, rfl⟩ := List.mem_map.mp ho
      rw [ArgGrammar.Knows]
      decide
  · obtain ⟨v, -, rfl⟩ := List.mem_map.mp ho
    rw [ArgGrammar.Knows]
    decide

/-- **The command line of an entry says what was asked**, whatever the environment and the command
    are, if the key of the container is no option. -/
theorem decode_execArgs (req : ExecRequest) (hkey : (execKey req).toList.head? ≠ some '-') :
    ExecLine.decode (execArgs req) = some {
      tty := req.tty
      env := req.env.map fun kv => kv.1 ++ "=" ++ kv.2
      workdirs := req.cwd.toList
      container := execKey req
      command := if req.command = [] then ["sh"] else req.command } := by
  have hpositional : ArgGrammar.Positional
      (execKey req :: (if req.command = [] then ["sh"] else req.command)) := by
    intro t ht
    rw [← Option.some.inj ht]
    exact hkey
  rw [execArgs_eq, ExecLine.decode, ArgGrammar.read_append (knows_execOptions req) hpositional]
  simp only [execOptions, List.any_append, List.filterMap_append, ArgOption.filterMap_valueFor_map,
    ArgOption.any_isFlag_map]
  cases req.tty <;> simp [ArgOption.valueFor, ArgOption.isFlag]

end PodmanMechanism

/-! ## The engine is asked once -/

/-- The process with other answers of its engine to `exec`. -/
def ProcessEnv.answering (env : ProcessEnv) (answer : List String → Except String ExitStatus) :
    ProcessEnv :=
  { env with engine := { env.engine with exec := answer } }

/-- The outcome of an entry, from the answer of the engine. -/
def entryOutcome (answer : Except String ExitStatus) : Except CliError ℕ :=
  (answer.mapError fun e => .mechanism (.message e)).map fun status => status.code.getD 1 % 256

/-- The outcome of a process is what the engine answers to these arguments, or an error that no
    answer has a part in. -/
def AsksEngine (outcome : (List String → Except String ExitStatus) → Except CliError ℕ)
    (argv : List String) : Prop :=
  (∃ e, ∀ answer, outcome answer = .error e) ∨ ∀ answer, outcome answer = entryOutcome (answer argv)

namespace Machine

variable {M : Machine} {dir : Location}

/-- Once the index is touched, the mechanism is asked. -/
theorem execRecord_of_touched (env : ProcessEnv) (command : List String) {r : SandboxRecord}
    (hpodman : r.mechanism = .podman) {w w₁ : World} {u : Unit}
    (htouch : M.store.touchLastUsed env.faults r.name w = (.ok u, w₁)) :
    (execRecord M env command r w).1 =
      ((PodmanMechanism.exec {} (env.mechHost M env.inheritedPort)
        (enterRequest r command)).mapError CliError.mechanism).map
          fun status => status.code.getD 1 % 256 := by
  rw [execRecord, bind_of_ok (mapError_eq_ok_iff.mpr htouch), hpodman]
  change (((lift (PodmanMechanism.exec {} (env.mechHost M env.inheritedPort)
    (enterRequest r command)) : Effect World MechanismError ExitStatus).mapError
      CliError.mechanism >>= fun status => pure (status.code.getD 1 % 256)) w₁).1 = _
  rw [bind_apply]
  cases PodmanMechanism.exec {} (env.mechHost M env.inheritedPort) (enterRequest r command) with
  | error e => rfl
  | ok status => rfl

theorem asksEngine_execRecord (env : ProcessEnv) (command : List String) {r : SandboxRecord}
    (hpodman : r.mechanism = .podman) (w : World) :
    AsksEngine (fun answer => (execRecord M (env.answering answer) command r w).1)
      (PodmanMechanism.execArgs (enterRequest r command)) := by
  rcases htouch : M.store.touchLastUsed env.faults r.name w with ⟨e | u, w₁⟩
  · refine Or.inl ⟨.state e, fun answer => ?_⟩
    have hstop : (M.store.touchLastUsed (env.answering answer).faults r.name).mapError
        CliError.state w = (.error (.state e), w₁) := mapError_eq_error_iff.mpr ⟨e, rfl, htouch⟩
    exact congrArg Prod.fst (bind_of_error hstop)
  · -- the binary is found before the engine is asked
    cases hbin : PodmanMechanism.runtimeBin {} (env.mechHost M env.inheritedPort) with
    | error e =>
      refine Or.inl ⟨.mechanism e, fun answer => ?_⟩
      have hbin' : PodmanMechanism.runtimeBin {} ((env.answering answer).mechHost M
          (env.answering answer).inheritedPort) = .error e := hbin
      dsimp only
      rw [execRecord_of_touched (env.answering answer) command hpodman htouch,
        PodmanMechanism.exec_eq, hbin']
      rfl
    | ok bin =>
      refine Or.inr fun answer => ?_
      have hbin' : PodmanMechanism.runtimeBin {} ((env.answering answer).mechHost M
          (env.answering answer).inheritedPort) = .ok bin := hbin
      dsimp only
      rw [execRecord_of_touched (env.answering answer) command hpodman htouch,
        PodmanMechanism.exec_eq, hbin']
      change (((answer _).mapError MechanismError.message).mapError CliError.mechanism).map _ = _
      rw [entryOutcome]
      cases answer (PodmanMechanism.execArgs (enterRequest r command)) with
      | error e => rfl
      | ok status => rfl

/-- The command that an entry runs in a container. -/
def entered : Command → List String
  | .exec _ command => if command = [] then ["sh"] else command
  | .shell _ => ["sh", "-i"]
  | _ => []

theorem asksEngine_cmdExec (env : ProcessEnv) {name : Option String} (command : List String)
    {w : World} {s : SandboxState} {r : SandboxRecord} (hs : M.store.index w = some s)
    (hget : s.getOrLast name = .ok r) (hpodman : r.mechanism = .podman) :
    AsksEngine (fun answer => (cmdExec M (env.answering answer) name command w).1)
      (PodmanMechanism.execArgs (enterRequest r command)) := by
  rcases getOrLast_cases M.store env.lookupFaults name w with
    ⟨s₁, r₁, hs₁, hget₁, hrun⟩ | ⟨e, hrun⟩
  · obtain rfl := Option.some.inj (hs.symm.trans hs₁)
    obtain rfl := Except.ok.inj (hget.symm.trans hget₁)
    have hsame : (fun answer => (cmdExec M (env.answering answer) name command w).1) =
        fun answer => (execRecord M (env.answering answer) command r w).1 := by
      funext answer
      rw [cmdExec_eq]
      exact congrArg Prod.fst (bind_of_ok (mapError_eq_ok_iff.mpr hrun))
    rw [hsame]
    exact asksEngine_execRecord env command hpodman w
  · refine Or.inl ⟨.state e, fun answer => ?_⟩
    dsimp only
    rw [cmdExec_eq]
    exact congrArg Prod.fst (bind_of_error (mapError_eq_error_iff.mpr ⟨e, rfl, hrun⟩))

/-- An entry asks the engine for the command it is for. -/
theorem asksEngine_execute (env : ProcessEnv) {name : Option String} {cmd : Command}
    (hcmd : cmd.Enters name) {w : World} {s : SandboxState} {r : SandboxRecord}
    (hs : M.store.index w = some s) (hget : s.getOrLast name = .ok r)
    (hpodman : r.mechanism = .podman) :
    ∃ command, (if command = [] then ["sh"] else command) = entered cmd ∧
      AsksEngine (fun answer => (execute M (env.answering answer) cmd w).1)
        (PodmanMechanism.execArgs (enterRequest r command)) := by
  rcases hcmd with ⟨command, rfl⟩ | rfl
  · exact ⟨command, rfl, asksEngine_cmdExec env command hs hget hpodman⟩
  · refine ⟨["sh", "-i"], rfl, ?_⟩
    rcases getOrLast_cases M.store env.lookupFaults name w with
      ⟨s₁, r₁, hs₁, hget₁, hrun⟩ | ⟨e, hrun⟩
    · obtain rfl := Option.some.inj (hs.symm.trans hs₁)
      obtain rfl := Except.ok.inj (hget.symm.trans hget₁)
      have hsame : (fun answer => (execute M (env.answering answer) (.shell name) w).1) =
          fun answer => (cmdExec M (env.answering answer) name ["sh", "-i"] w).1 := by
        funext answer
        have hshell : cmdShell M (env.answering answer) name w =
            cmdExec M (env.answering answer) name (if r.mechanism = .podman then ["sh", "-i"]
              else if M.os = .macos then ["/bin/zsh", "-i"] else ["/bin/sh", "-i"]) w :=
          bind_of_ok (mapError_eq_ok_iff.mpr hrun)
        rw [execute, hshell, if_pos hpodman]
      rw [hsame]
      exact asksEngine_cmdExec env ["sh", "-i"] hs hget hpodman
    · refine Or.inl ⟨.state e, fun answer => ?_⟩
      exact congrArg Prod.fst (bind_of_error (mapError_eq_error_iff.mpr ⟨e, rfl, hrun⟩))

theorem asksEngine_ssbx (env : ProcessEnv) {name : Option String} {cmd : Command}
    (hcmd : cmd.Enters name) {w : World} {s : SandboxState} {r : SandboxRecord}
    (hs : M.store.index w = some s) (hget : s.getOrLast name = .ok r)
    (hpodman : r.mechanism = .podman) :
    ∃ command, (if command = [] then ["sh"] else command) = entered cmd ∧
      AsksEngine (fun answer => (ssbx M (env.answering answer) cmd w).1)
        (PodmanMechanism.execArgs (enterRequest r command)) := by
  have hopened := opened_openAt (M := M) env.faults w
  rcases hopen : Store.openAt M.root env.faults w with ⟨e | st, w₁⟩
  · obtain ⟨command, hentered⟩ : ∃ command,
        (if command = [] then ["sh"] else command) = entered cmd := by
      rcases hcmd with ⟨command, rfl⟩ | rfl
      · exact ⟨command, rfl⟩
      · exact ⟨["sh", "-i"], rfl⟩
    refine ⟨command, hentered, Or.inl ⟨.state e, fun answer => ?_⟩⟩
    have hopen' : Store.openAt M.root (env.answering answer).faults w = (.error e, w₁) := hopen
    dsimp only
    rw [ssbx_of_not_opened hopen']
  · rw [hopen] at hopened
    obtain ⟨hs₁, -, -⟩ := hopened.of_index hs
    obtain ⟨command, hentered, hasks⟩ := asksEngine_execute env hcmd hs₁ hget hpodman
    refine ⟨command, hentered, ?_⟩
    have hsame : (fun answer => (ssbx M (env.answering answer) cmd w).1) =
        fun answer => (execute M (env.answering answer) cmd w₁).1 := by
      funext answer
      have hopen' : Store.openAt M.root (env.answering answer).faults w = (.ok st, w₁) := hopen
      rw [ssbx_of_opened hopen']
    rw [hsame]
    exact hasks

/-! ## Entries find their containers -/

theorem execKey_of_belongsTo {c : Container} {r : SandboxRecord} (h : c.BelongsTo r)
    (command : List String) :
    c.answersTo (PodmanMechanism.execKey (enterRequest r command)) = true ∧
      PodmanMechanism.execKey (enterRequest r command) ≠ "" ∧
      (PodmanMechanism.execKey (enterRequest r command)).toList.head? ≠ some '-' := by
  have hdash : (containerName r.name).toList.head? ≠ some '-' := by
    rw [containerName, String.toList_append]
    simp
  unfold PodmanMechanism.execKey
  split
  · refine ⟨h.answersTo.1, h.answersTo.2, ?_⟩
    change r.runtimeId.toList.head? ≠ some '-'
    rw [h.runtimeId]
    split
    · rw [h.name]
      exact hdash
    · exact h.undashed
  · exact ⟨Container.answersTo_iff.mpr (Or.inr h.name), containerName_ne_empty r.name, hdash⟩

end Machine

/-- What an entry does with a container: the engine is asked once, for this container and no
    other, with a terminal, in `/workspace`, without further variables. -/
structure EntersContainer (M : Machine) (w : World) (b : Invocation) (c : Container) : Prop where
  asks : ∃ argv line,
    AsksEngine (fun answer => (ssbx M (b.env.answering answer) b.command (w.enter b.cwd)).1) argv ∧
    ExecLine.decode argv = some line ∧
    line = { tty := true, env := [], workdirs := ["/workspace"], container := line.container,
             command := Machine.entered b.command } ∧
    w.containers.filter (·.answersTo line.container) = [c]

/-- **Entries reach their own containers.**  In every state that any processes with honest engines
    lead to, an `exec` or `shell` of a live podman sandbox asks the engine once, for the one
    container that belongs to the sandbox, or fails before. -/
theorem entries_reach_container (M : Machine) (dir : Location) (w : World)
    (h : Reach (M.Fresh dir) (M.Runs dir) (M.EngineHonest dir) w) (b : Invocation)
    (hsees : M.Sees dir b.cwd) (name : Option String) (hcmd : b.command.Enters name)
    (s : SandboxState) (hs : M.records dir w = some s) (r : SandboxRecord)
    (hget : s.getOrLast name = .ok r) (hpodman : r.mechanism = .podman) :
    ∃ c, c.BelongsTo r ∧ EntersContainer M w b c := by
  obtain ⟨-, hapart, howned⟩ := Machine.containersKept_of_reach h
  obtain ⟨c, hc, hbelongs⟩ := howned s hs r (SandboxState.mem_of_getOrLast hget) hpodman
  rw [hsees.records_enter w] at hs
  obtain ⟨command, hentered, hasks⟩ := Machine.asksEngine_ssbx b.env hcmd hs hget hpodman
  obtain ⟨hanswers, hne, hdash⟩ := Machine.execKey_of_belongsTo hbelongs command
  refine ⟨c, hbelongs, ⟨_, _, hasks, PodmanMechanism.decode_execArgs _ hdash, ?_,
    Container.filter_answersTo hapart hc hne hanswers⟩⟩
  rw [← hentered]
  rfl

/-- The record of a podman sandbox on the small host. -/
def containerRecord (name id runtimeId : String) : SandboxRecord :=
  { smallRecord name id with mechanism := .podman, runtimeId := runtimeId }

/-- `exec a -- true` asks for the container of `a`, though `b` was created after it. -/
theorem entries_reach_container_two :
    ∃ c, c.BelongsTo (containerRecord "a" "u" "c0ffee") ∧
      EntersContainer smallMachine twoContainersWorld (smallExec "a") c := by
  have hrecords : smallMachine.records [] twoContainersWorld =
      some ⟨some "b", [containerRecord "a" "u" "c0ffee", containerRecord "b" "v" "decaf"]⟩ := by
    decide +kernel
  exact entries_reach_container smallMachine [] twoContainersWorld reach_twoContainersWorld
    (smallExec "a") (Or.inl rfl) (some "a") (Or.inl ⟨_, rfl⟩) _ hrecords
    (containerRecord "a" "u" "c0ffee") rfl rfl

end SimpleSandbox
