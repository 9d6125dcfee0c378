import SimpleSandbox.Coupling
import SimpleSandbox.PodmanLine
import SimpleSandbox.RunExec
import SimpleSandbox.SecretEnv

/-!
# Where secrets do not go

The values of secrets are loaded for one request and handed to the environment of what it starts.
Two runs of the same processes on hosts that differ in these values are coupled: they leave the
same files, index and containers, spawn the same children but for their environments, and end
alike.  Assumed is that what is started does not answer differently; the command line given to
the engine holds the values in the place of `-e`.
-/

namespace SimpleSandbox

open RustText OsPath FileSystem Effect World

/-! ## Alike but for the environment -/

/-- Two children that differ in their environments only. -/
def ChildSpec.SameButEnv (c c' : ChildSpec) : Prop := { c with env := [] } = { c' with env := [] }

/-- Two command lines of `run` that differ in their variables only. -/
def SameButVars (args args' : List String) : Prop :=
  ∃ l l', RunLine.decode allowlistGrammar args = some l ∧
    RunLine.decode allowlistGrammar args' = some l' ∧ { l with env := [] } = { l' with env := [] }

/-- Two worlds that differ in the environments of children only. -/
structure World.SameButEnv (w w' : World) : Prop where
  fs : w.fs = w'.fs
  containers : w.containers = w'.containers
  journal : w.journal = w'.journal
  children : List.Forall₂ ChildSpec.SameButEnv w.children w'.children

/-- What is started answers alike whatever the variables it is given. -/
structure MechHost.Discreet (h : MechHost) : Prop where
  run : ∀ args args', SameButVars args args' → h.engine.run args = h.engine.run args'
  runAttached : ∀ args args', SameButVars args args' →
    h.engine.runAttached args = h.engine.runAttached args'
  spawn : ∀ c c', ChildSpec.SameButEnv c c' → h.spawn c = h.spawn c'

theorem World.SameButEnv.refl (w : World) : w.SameButEnv w :=
  ⟨rfl, rfl, rfl, List.forall₂_same.mpr fun _ _ => rfl⟩

theorem World.SameButEnv.enter {w w' : World} (h : w.SameButEnv w') (cwd : Location) :
    (w.enter cwd).SameButEnv (w'.enter cwd) where
  fs := by rw [World.enter, World.enter, h.fs]
  containers := h.containers
  journal := h.journal
  children := h.children

/-! ## Programs that do not look at children -/

section Programs

/-- A program that cannot tell such worlds apart. -/
abbrev Unaware {ε α : Type} (m : Effect World ε α) : Prop := Blind World.SameButEnv m

theorem unaware_change (f : Faults) (site : Site) (p : PathBuf)
    (op : FileSystem FileData → Except IoError (FileSystem FileData)) :
    Unaware (change f site p op) := by
  intro w w' h
  rcases hop : op w.fs with e | fs
  · have hop' : op w'.fs = .error e := h.fs ▸ hop
    unfold change
    rw [hop, hop']
    split
    · exact ⟨.error rfl, h⟩
    · exact ⟨.error rfl, h⟩
  · have hop' : op w'.fs = .ok fs := h.fs ▸ hop
    unfold change
    rw [hop, hop', h.fs]
    split
    · exact ⟨.error rfl, h⟩
    · exact ⟨.ok rfl, rfl, h.containers, congrArg (· ++ _) h.journal, h.children⟩

theorem unaware_readFile (f : Faults) (site : Site) (p : PathBuf) :
    Unaware (readFile f site p) := by
  intro w w' h
  unfold readFile
  rw [h.fs]
  exact ⟨Alike.of_eq rfl, h⟩

variable (st : Store) (f : Faults)

theorem unaware_loadIndex : Unaware (st.loadIndex f) := by
  unfold Store.loadIndex
  refine Blind.bind (Blind.mapError (unaware_readFile f _ _) _) fun data => ?_
  split
  · exact Blind.pure _
  · exact Blind.fail _

theorem unaware_writeIndex (site : Site) (s : SandboxState) : Unaware (st.writeIndex f site s) := by
  unfold Store.writeIndex
  split
  · exact Blind.mapError (unaware_change f site _ _) _
  · exact Blind.fail _

theorem unaware_modify {α : Type} (op : SandboxState → Except StateError (α × SandboxState)) :
    Unaware (st.modify f op) := by
  unfold Store.modify
  refine Blind.bind (unaware_loadIndex st f) fun s => Blind.bind (Blind.lift _) ?_
  rintro ⟨a, s'⟩
  exact Blind.bind (unaware_writeIndex st f _ s') fun _ => Blind.pure a

theorem unaware_getOrLast (name : Option String) : Unaware (st.getOrLast f name) :=
  Blind.bind (unaware_loadIndex st f) fun _ => Blind.lift _

theorem unaware_savePolicy (ext : Externals) (name : String) (p : SandboxPolicy) :
    Unaware (st.savePolicy ext f name p) :=
  Blind.bind (Blind.lift _) fun _ =>
    Blind.bind (Blind.mapError (unaware_change f _ _ _) _) fun _ => Blind.pure _

theorem unaware_loadPolicy (name : String) : Unaware (st.loadPolicy f name) := by
  unfold Store.loadPolicy
  refine Blind.bind (Blind.mapError (unaware_readFile f _ _) _) fun data => ?_
  split
  · exact Blind.bind (Blind.lift _) fun _ => Blind.pure _
  · exact Blind.fail _

theorem unaware_updatePolicy (ext : Externals) (name : String) (p : SandboxPolicy) :
    Unaware (st.updatePolicy ext f name p) :=
  Blind.bind (Blind.lift _) fun _ => Blind.bind (unaware_savePolicy st f ext name p) fun _ =>
    Blind.bind (unaware_loadIndex st f) fun _ => Blind.bind (Blind.lift _) fun s =>
      unaware_writeIndex st f _ s

theorem unaware_remove (key : String) : Unaware (st.remove f key) := by
  rw [Store.remove_eq]
  exact Blind.bind (unaware_modify st f _) fun r =>
    Blind.bind (Blind.attempt (unaware_change f _ _ _)) fun _ => Blind.pure r

theorem unaware_openAt (root : PathBuf) : Unaware (Store.openAt root f) := by
  have hdir : ∀ site p, Unaware ((World.createDirAll f site p).mapError StateError.io) :=
    fun site p => Blind.mapError (unaware_change f site p _) _
  unfold Store.openAt
  refine Blind.bind (hdir _ _) fun _ => Blind.bind (hdir _ _) fun _ => Blind.bind (hdir _ _) fun _ =>
    Blind.bind (hdir _ _) fun _ => ?_
  refine Coupled.bind Coupled.state fun w w' h => ?_
  rw [h.fs]
  split
  · exact Blind.bind (unaware_writeIndex _ f _ _) fun _ => Blind.pure _
  · exact Blind.pure _

end Programs

/-! ## Mechanisms -/

section Mechanisms

variable {h : MechHost}

theorem coupled_spawnSandboxed (hh : h.Discreet) (profilePath : PathBuf) (profile : Option String)
    (policy : SandboxPolicy) (workdir : PathBuf) (command : List String)
    (env env' : List (String × String)) :
    Coupled World.SameButEnv Eq Eq
      (MacMechanism.spawnSandboxed h profilePath profile policy workdir command env)
      (MacMechanism.spawnSandboxed h profilePath profile policy workdir command env') := by
  unfold MacMechanism.spawnSandboxed
  cases h.sandboxExec with
  | none => exact Blind.fail _
  | some sandboxExec =>
    refine Coupled.bind (Coupled.update fun w w' hw => ?_) fun _ _ _ => Coupled.lift ?_
    · refine ⟨hw.fs, hw.containers, hw.journal, List.rel_append hw.children ?_⟩
      exact .cons rfl .nil
    · exact Alike.of_eq (congrArg (Except.mapError _) (hh.spawn _ _ rfl))

theorem coupled_macCreate (hh : h.Discreet) (m : MacMechanism) (req : CreateRequest)
    (env : List (String × String)) :
    Coupled World.SameButEnv Eq Eq (m.create h req) (m.create h { req with env := env }) := by
  unfold MacMechanism.create
  split
  · exact Blind.fail _
  · refine Coupled.bind (Blind.lift _) fun file file' hfile => ?_
    rw [← hfile]
    dsimp only
    split
    · refine Coupled.bind (coupled_spawnSandboxed hh _ _ _ _ _ _ _) fun status status' hs => ?_
      rw [hs]
      exact Blind.pure _
    · refine Blind.bind (Blind.mapError (unaware_change _ _ _ _) _) fun _ =>
        Blind.bind (Blind.mapError (unaware_change _ _ _ _) _) fun _ =>
        Blind.bind (Blind.mapError (unaware_change _ _ _ _) _) fun _ =>
        Blind.bind ?_ fun _ => Blind.pure _
      unfold MacMechanism.copyPolicy
      split
      · exact Blind.bind (Blind.attempt (unaware_change _ _ _ _)) fun _ => Blind.pure _
      · exact Blind.pure _

theorem unaware_parseMacRuntime (h : MechHost) (runtimeId : String) :
    Unaware (MacMechanism.parseMacRuntime h runtimeId) := by
  unfold MacMechanism.parseMacRuntime
  refine Blind.bind (Blind.lift _) ?_
  rintro ⟨profilePath, dir⟩
  refine Blind.bind (Blind.attempt (unaware_readFile _ _ _)) fun contents => ?_
  split
  · exact Blind.pure _
  · exact Blind.pure _

theorem unaware_macExec (hh : h.Discreet) (req : ExecRequest) : Unaware (MacMechanism.exec h req) := by
  unfold MacMechanism.exec
  refine Blind.bind (unaware_parseMacRuntime h req.runtimeId) ?_
  rintro ⟨profilePath, workdir⟩
  refine Blind.bind ?_ fun copy => Coupled.bind Coupled.state fun w w' hw => ?_
  · unfold MacMechanism.readCopy
    split
    · exact Blind.attempt (unaware_readFile _ _ _)
    · exact Blind.pure _
  · rw [hw.fs]
    exact coupled_spawnSandboxed hh _ _ _ _ _ _ _

theorem unaware_macRemove (h : MechHost) (runtimeId : String) :
    Unaware (MacMechanism.remove h runtimeId) := by
  unfold MacMechanism.remove
  refine Blind.bind (Blind.attempt (unaware_parseMacRuntime h runtimeId)) fun parsed => ?_
  split
  · split
    · exact Blind.bind (Blind.attempt (unaware_change _ _ _ _)) fun _ => Blind.pure _
    · exact Blind.pure _
  · exact Blind.pure _

/-- A change of the containers. -/
theorem unaware_updateContainers {ε : Type} (g : List Container → List Container) :
    Unaware (update fun w => { w with containers := g w.containers } : Effect World ε Unit) :=
  Coupled.update fun _ _ hw => ⟨hw.fs, congrArg g hw.containers, hw.journal, hw.children⟩

theorem unaware_podmanRemove (m : PodmanMechanism) (h : MechHost) (runtimeId : String) :
    Unaware (m.remove h runtimeId) := by
  unfold PodmanMechanism.remove
  refine Blind.bind (Blind.lift _) fun _ => ?_
  split
  · exact Blind.pure _
  · split
    · exact Blind.fail _
    · exact unaware_updateContainers (·.filter fun c => !c.answersTo runtimeId)
    · split
      · exact unaware_updateContainers (·.filter fun c => !c.answersTo ("ssbx-" ++ runtimeId))
      · exact Blind.pure _

theorem alike_createArgs (h : MechHost) (req : CreateRequest) (env : List (String × String)) :
    Alike Eq SameButVars (PodmanMechanism.createArgs {} h req)
      (PodmanMechanism.createArgs {} h { req with env := env }) := by
  cases hmem : req.policy.resources.memoryBytes with
  | error e =>
    rw [PodmanMechanism.createArgs_of_error h hmem,
      @PodmanMechanism.createArgs_of_error h { req with env := env } e hmem]
    exact .error rfl
  | ok mem =>
    obtain ⟨args, hargs⟩ := PodmanMechanism.exists_createArgs h hmem
    obtain ⟨args', hargs'⟩ :=
      @PodmanMechanism.exists_createArgs h { req with env := env } mem hmem
    obtain ⟨mem₁, hmem₁, hline⟩ := PodmanMechanism.decode_createArgs hargs
    obtain ⟨mem₂, hmem₂, hline'⟩ := PodmanMechanism.decode_createArgs hargs'
    obtain rfl : mem₁ = mem₂ := Except.ok.inj (hmem₁.symm.trans hmem₂)
    rw [hargs, hargs']
    refine .ok ⟨_, _, hline, hline', ?_⟩
    unfold PodmanMechanism.createLine
    dsimp only
    split
    · rfl
    · rfl

theorem coupled_runDetached (hh : h.Discreet) (name : String) {args args' : List String}
    (hargs : SameButVars args args') :
    Coupled World.SameButEnv Eq Eq (PodmanMechanism.runDetached h name args)
      (PodmanMechanism.runDetached h name args') := by
  unfold PodmanMechanism.runDetached
  rw [hh.run args args' hargs]
  have hadd : ∀ id, Unaware (update (PodmanMechanism.addContainer id (containerName name)) :
      Effect World MechanismError Unit) :=
    fun id => unaware_updateContainers (· ++ [⟨id, containerName name⟩])
  split
  · exact Blind.fail _
  · rename_i left _
    refine Blind.bind ?_ fun _ => Blind.fail _
    cases left with
    | none => exact Blind.pure _
    | some id => exact hadd id
  · exact Blind.bind (hadd _) fun _ => Blind.pure _

theorem coupled_podmanCreate (hh : h.Discreet) (req : CreateRequest)
    (env : List (String × String)) :
    Coupled World.SameButEnv Eq Eq (PodmanMechanism.create {} h req)
      (PodmanMechanism.create {} h { req with env := env }) := by
  unfold PodmanMechanism.create
  refine Coupled.bind (Blind.lift _) fun _ _ _ => Coupled.bind (Blind.lift _) fun _ _ _ =>
    Coupled.bind (Coupled.lift (alike_createArgs h req env)) fun args args' hargs => ?_
  dsimp only
  split
  · rw [hh.runAttached args args' hargs]
    exact Blind.bind (Blind.lift _) fun status => Blind.pure _
  · refine Coupled.bind (coupled_runDetached hh req.name hargs) fun id id' hid => ?_
    rw [← hid]
    exact Blind.pure _

/-! ### By kind -/

theorem coupled_mechCreate (hh : h.Discreet) (M : Machine) (kind : MechanismKind)
    (req : CreateRequest) (env : List (String × String)) :
    Coupled World.SameButEnv Eq Eq (mechCreate M h kind req)
      (mechCreate M h kind { req with env := env }) := by
  unfold mechCreate
  cases resolveMechanism M.os kind with
  | podman => exact coupled_podmanCreate hh req env
  | auto => exact coupled_podmanCreate hh req env
  | mac => exact coupled_macCreate hh M.mac req env
  | krun => exact Blind.fail _

theorem unaware_mechExec (hh : h.Discreet) (M : Machine) (kind : MechanismKind)
    (req : ExecRequest) : Unaware (mechExec M h kind req) := by
  unfold mechExec
  cases resolveMechanism M.os kind with
  | podman => exact Blind.lift _
  | auto => exact Blind.lift _
  | mac => exact unaware_macExec hh req
  | krun => exact Blind.fail _

theorem unaware_mechRemove (M : Machine) (h : MechHost) (kind : MechanismKind)
    (runtimeId : String) : Unaware (mechRemove M h kind runtimeId) := by
  unfold mechRemove
  cases resolveMechanism M.os kind with
  | podman => exact unaware_podmanRemove _ h runtimeId
  | auto => exact unaware_podmanRemove _ h runtimeId
  | mac => exact unaware_macRemove h runtimeId
  | krun => exact Blind.fail _

end Mechanisms

/-! ## Preparing -/

/-- Two errors that are the same, or both about a secret. -/
def SameFailure (e e' : CliError) : Prop :=
  e = e' ∨ (∃ x, e = .secret x) ∧ ∃ x', e' = .secret x'

/-- Two prepared requests that differ in the secrets only. -/
def Prepared.SameButEnv (p p' : Prepared) : Prop :=
  ∃ env, p' = { p with request := { p.request with env := env } }

/-- What `prepare` makes of the loaded policy and the secrets. -/
def finishRequest (M : Machine) (env : ProcessEnv) (name : String)
    (choose : MechanismKind → MechanismKind) (ephemeral : Bool) (command : List String)
    (loaded : SandboxPolicy) (pairs : List (String × String)) : Except CliError Prepared := do
  let kind := choose (resolveMechanism M.os loaded.mechanismOrAuto)
  let policy := { loaded with mechanism := some kind }
  let proxyPort ← maybeStartProxy env policy
  let workdir ← env.workdir.mapError .io
  pure { kind, proxyPort, request := { name, policy, workdir, ephemeral, command, env := pairs } }

theorem bind_secretPairs {γ : Type} (h : SecretHost) (refs : List SecretRef) (dir : PathBuf)
    (k : List (String × String) → Except CliError γ) :
    ((resolveSecrets h refs dir).mapError .secret >>= fun secrets =>
      (secrets.toEnvPairs h).mapError .secret >>= k) =
      (secretPairs h refs dir).mapError .secret >>= k := by
  unfold secretPairs
  cases resolveSecrets h refs dir with
  | error e => rfl
  | ok secrets => rfl

theorem prepare_eq (M : Machine) (env : ProcessEnv) (name : String) (args : PolicyArgs)
    (choose : MechanismKind → MechanismKind) (ephemeral : Bool) (command : List String) :
    prepare M env name args choose ephemeral command = (do
      let loaded ← (loadPolicy args).mapError .policy
      (preflight M.ext { loaded with
        mechanism := some (choose (resolveMechanism M.os loaded.mechanismOrAuto)) } {}).mapError
          .policy
      let dir ← env.secretDir.mapError .io
      let pairs ← (secretPairs env.secretHost loaded.secrets dir).mapError .secret
      finishRequest M env name choose ephemeral command loaded pairs) := by
  rw [prepare]
  congr 1
  funext loaded
  refine congrArg _ (funext fun _ => congrArg _ (funext fun dir => ?_))
  exact bind_secretPairs env.secretHost loaded.secrets dir _

/-- The secrets that a command line asks for resolve on both hosts or on neither. -/
def ResolvesAlike (env : ProcessEnv) (host : SecretHost) (args : PolicyArgs) : Prop :=
  ∀ policy dir, loadPolicy args = .ok policy → env.secretDir = .ok dir →
    (secretPairs env.secretHost policy.secrets dir).isOk =
      (secretPairs host policy.secrets dir).isOk

/-- **A request is prepared alike**, but for the secrets in it. -/
theorem alike_prepare {M : Machine} {env : ProcessEnv} {host : SecretHost} {args : PolicyArgs}
    (hresolves : ResolvesAlike env host args) (name : String)
    (choose : MechanismKind → MechanismKind) (ephemeral : Bool) (command : List String) :
    Alike SameFailure Prepared.SameButEnv (prepare M env name args choose ephemeral command)
      (prepare M { env with secretHost := host } name args choose ephemeral command) := by
  have hrefl : ∀ e, SameFailure e e := fun _ => Or.inl rfl
  rw [prepare_eq, prepare_eq]
  refine Alike.bind_same hrefl fun loaded hloaded => Alike.bind_same hrefl fun _ _ =>
    Alike.bind_same hrefl fun dir hdir => ?_
  have hboth := hresolves loaded dir (except_mapError_eq_ok hloaded) (except_mapError_eq_ok hdir)
  dsimp only
  rcases hpairs : secretPairs env.secretHost loaded.secrets dir with e | pairs
  · rcases hpairs' : secretPairs host loaded.secrets dir with e' | pairs'
    · exact .error (Or.inr ⟨⟨e, rfl⟩, ⟨e', rfl⟩⟩)
    · rw [hpairs, hpairs'] at hboth
      cases hboth
  · rcases hpairs' : secretPairs host loaded.secrets dir with e' | pairs'
    · rw [hpairs, hpairs'] at hboth
      cases hboth
    · exact Alike.bind_same hrefl fun _ _ => Alike.bind_same hrefl fun _ _ => .ok ⟨pairs', rfl⟩

/-! ## Commands -/

/-- The options of a command that loads secrets. -/
def Command.policyArgs : Command → Option PolicyArgs
  | .create _ args => some args
  | .run _ args _ => some args
  | _ => none

section Commands

variable {M : Machine} {env : ProcessEnv} {host : SecretHost}

theorem MechHost.Discreet.withPort (hh : (env.mechHost M none).Discreet) (port : Option String) :
    (env.mechHost M port).Discreet := ⟨hh.run, hh.runAttached, hh.spawn⟩

theorem coupled_createPrepared (hh : (env.mechHost M none).Discreet) (name : String) (p : Prepared)
    (pairs : List (String × String)) :
    Coupled World.SameButEnv Eq Eq (createPrepared M env name p)
      (createPrepared M { env with secretHost := host } name
        { p with request := { p.request with env := pairs } }) := by
  unfold createPrepared
  refine Coupled.bind (Coupled.mapError (coupled_mechCreate (hh.withPort p.proxyPort) M p.kind
    p.request pairs) fun _ _ h => congrArg _ h) fun result result' hresult => ?_
  rw [← hresult]
  exact Blind.bind (Blind.lift _) fun record =>
    Blind.bind (Blind.mapError (unaware_savePolicy _ _ _ _ _) _) fun _ =>
    Blind.bind (Blind.mapError (unaware_modify _ _ _) _) fun _ => Blind.pure _

theorem coupled_cmdCreate (hh : (env.mechHost M none).Discreet) {args : PolicyArgs}
    (hresolves : ResolvesAlike env host args) (name : Option String) :
    Coupled World.SameButEnv SameFailure Eq (cmdCreate M env name args)
      (cmdCreate M { env with secretHost := host } name args) := by
  refine Coupled.bind (Coupled.lift (alike_prepare hresolves _ _ _ _)) ?_
  rintro p p' ⟨pairs, rfl⟩
  exact Coupled.mono (fun _ _ h => Or.inl h) (fun _ _ h => h)
    (coupled_createPrepared hh (createName name) p pairs)

theorem coupled_cmdRun (hh : (env.mechHost M none).Discreet) {args : PolicyArgs}
    (hresolves : ResolvesAlike env host args) (name : Option String) (command : List String) :
    Coupled World.SameButEnv SameFailure Eq (cmdRun M env name args command)
      (cmdRun M { env with secretHost := host } name args command) := by
  refine Coupled.bind (Coupled.lift (alike_prepare hresolves _ _ _ _)) ?_
  rintro p p' ⟨pairs, rfl⟩
  refine Coupled.bind (Coupled.mapError (coupled_mechCreate (hh.withPort p.proxyPort) M p.kind
    p.request pairs) fun _ _ h => Or.inl (congrArg _ h)) fun result result' hresult => ?_
  rw [← hresult]
  exact Coupled.pure rfl

theorem unaware_cmdExec (hh : (env.mechHost M none).Discreet) (name : Option String)
    (command : List String) : Unaware (cmdExec M env name command) :=
  Blind.bind (Blind.mapError (unaware_getOrLast _ _ name) _) fun r =>
    Blind.bind (Blind.mapError (by rw [Store.touchLastUsed_eq_modify]; exact unaware_modify _ _ _) _)
      fun _ => Blind.bind (Blind.mapError (unaware_mechExec (hh.withPort _) M r.mechanism _) _)
        fun _ => Blind.pure _

/-- The commands that load no secrets. -/
theorem unaware_execute (hh : (env.mechHost M none).Discreet) {cmd : Command}
    (hcmd : cmd.policyArgs = none) : Unaware (execute M env cmd) := by
  cases cmd with
  | create name args => cases hcmd
  | run name args command => cases hcmd
  | exec name command => exact unaware_cmdExec hh name command
  | shell name =>
    exact Blind.bind (Blind.mapError (unaware_getOrLast _ _ name) _) fun _ => unaware_cmdExec hh name _
  | policyGet name =>
    exact Blind.bind (Blind.bind (Blind.mapError (unaware_getOrLast _ _ name) _) fun r =>
      Blind.mapError (unaware_loadPolicy _ _ _) _) fun _ => Blind.pure _
  | policySet name file =>
    exact Blind.bind (Blind.bind (Blind.mapError (unaware_getOrLast _ _ name) _) fun r =>
      Blind.bind (Blind.lift _) fun p => Blind.bind (Blind.lift _) fun _ =>
        Blind.mapError (unaware_updatePolicy _ _ _ _ _) _) fun _ => Blind.pure _
  | ls =>
    exact Blind.bind (Blind.mapError (Blind.bind (unaware_loadIndex _ _) fun _ => Blind.pure _) _)
      fun _ => Blind.pure _
  | rm key =>
    exact Blind.bind (Blind.bind (Blind.mapError (unaware_remove _ _ key) _) fun r =>
      Blind.mapError (unaware_mechRemove M _ _ _) _) fun _ => Blind.pure _
  | logs name =>
    refine Blind.bind (Blind.bind (Blind.mapError (unaware_getOrLast _ _ name) _) fun r => ?_)
      fun _ => Blind.pure _
    split
    · exact Blind.bind (Blind.lift _) fun _ => Blind.pure _
    · exact Blind.pure _
  | doctor => exact Blind.pure _

theorem execute_secretHost (M : Machine) (env : ProcessEnv) (host : SecretHost) {cmd : Command}
    (hcmd : cmd.policyArgs = none) :
    execute M { env with secretHost := host } cmd = execute M env cmd := by
  cases cmd with
  | create name args => cases hcmd
  | run name args command => cases hcmd
  | _ => rfl

theorem coupled_execute (hh : (env.mechHost M none).Discreet) {cmd : Command}
    (hresolves : ∀ args, cmd.policyArgs = some args → ResolvesAlike env host args) :
    Coupled World.SameButEnv SameFailure Eq (execute M env cmd)
      (execute M { env with secretHost := host } cmd) := by
  cases hargs : cmd.policyArgs with
  | none =>
    rw [execute_secretHost M env host hargs]
    exact Coupled.mono (fun _ _ h => Or.inl h) (fun _ _ h => h) (unaware_execute hh hargs)
  | some args =>
    have hargs' := hresolves args hargs
    cases cmd with
    | create name args' =>
      obtain rfl : args' = args := Option.some.inj hargs
      exact Coupled.bind (coupled_cmdCreate hh hargs' name) fun _ _ _ => Coupled.pure rfl
    | run name args' command =>
      obtain rfl : args' = args := Option.some.inj hargs
      exact coupled_cmdRun hh hargs' name command
    | _ => cases hargs

/-- **One process.** -/
theorem coupled_ssbx (hh : (env.mechHost M none).Discreet) {cmd : Command}
    (hresolves : ∀ args, cmd.policyArgs = some args → ResolvesAlike env host args) :
    Coupled World.SameButEnv SameFailure Eq (ssbx M env cmd)
      (ssbx M { env with secretHost := host } cmd) := by
  have hopen : Coupled World.SameButEnv SameFailure Eq
      ((Store.openAt M.root env.faults).mapError CliError.state)
      ((Store.openAt M.root env.faults).mapError CliError.state) :=
    Coupled.mapError (unaware_openAt env.faults M.root) fun _ _ h => Or.inl (congrArg _ h)
  exact Coupled.bind hopen fun _ _ _ => coupled_execute hh hresolves

end Commands

/-! ## Runs -/

/-- Two processes that differ in the values of their secrets only, and start nothing that answers
    to them. -/
structure Invocation.SameButSecrets (M : Machine) (a a' : Invocation) : Prop where
  command : a'.command = a.command
  cwd : a'.cwd = a.cwd
  env : ∃ host, a'.env = { a.env with secretHost := host } ∧
    ∀ args, a.command.policyArgs = some args → ResolvesAlike a.env host args
  discreet : (a.env.mechHost M none).Discreet

namespace Machine

/-- How processes end that run one after another, and what they leave. -/
def play (M : Machine) : List Invocation → World → List (Except CliError ℕ) × World
  | [], w => ([], w)
  | a :: rest, w =>
    let first := ssbx M a.env a.command (w.enter a.cwd)
    let others := play M rest first.2
    (first.1 :: others.1, others.2)

end Machine

/-- **Secrets leave no trace.**  Two runs of processes that differ in the values of the secrets
    only, and whose children and engine do not answer to these, end alike: each process with the
    same exit code or error, or both with an error about a secret, and all of them with the same
    files, index and containers and the same children but for their environments. -/
theorem secrets_leave_no_trace (M : Machine) (as as' : List Invocation) (w w' : World)
    (has : List.Forall₂ (Invocation.SameButSecrets M) as as') (hw : w.SameButEnv w') :
    List.Forall₂ (Alike SameFailure Eq) (M.play as w).1 (M.play as' w').1 ∧
      (M.play as w).2.SameButEnv (M.play as' w').2 := by
  induction has generalizing w w' with
  | nil => exact ⟨.nil, hw⟩
  | @cons a a' rest rest' ha _ ih =>
    obtain ⟨host, henv, hresolves⟩ := ha.env
    obtain ⟨hend, hworld⟩ := coupled_ssbx ha.discreet hresolves (w.enter a.cwd) (w'.enter a.cwd)
      (hw.enter a.cwd)
    obtain ⟨hends, hlast⟩ := ih _ _ hworld
    rw [Machine.play, Machine.play, henv, ha.command, ha.cwd]
    exact ⟨.cons hend hends, hlast⟩

/-- A host on which the variable `TOKEN` has a value. -/
def tokenHost (value : String) : SecretHost :=
  { (smallEnv "u").secretHost with var := fun name => if name = "TOKEN" then some value else none }

def tokenPolicy : SandboxPolicy where
  secrets := [⟨"TOKEN", "env:TOKEN"⟩]
  mechanism := some .mac

/-- A process that asks for the secret on such a host. -/
def tokenInvocation (command : PolicyArgs → Command) (value : String) : Invocation where
  command := command { file := some (.ok tokenPolicy) }
  env := { smallEnv "u" with secretHost := tokenHost value }
  cwd := []

/-- `create`, then `run`. -/
def tokenRun (value : String) : List Invocation :=
  [tokenInvocation (.create (some "a")) value, tokenInvocation (.run none · ["env"]) value]

theorem resolvesAlike_token :
    ResolvesAlike { smallEnv "u" with secretHost := tokenHost "one" } (tokenHost "two")
      { file := some (.ok tokenPolicy) } := by
  intro policy dir hload hdir
  have hloaded : loadPolicy { file := some (.ok tokenPolicy) } = .ok tokenPolicy := by rfl
  obtain rfl := Except.ok.inj (hloaded.symm.trans hload)
  obtain rfl := Except.ok.inj hdir
  rfl

theorem sameButSecrets_token (command : PolicyArgs → Command)
    (hcommand : ∀ args, (command args).policyArgs = some args) :
    (tokenInvocation command "one").SameButSecrets smallMachine (tokenInvocation command "two") where
  command := rfl
  cwd := rfl
  env := by
    refine ⟨tokenHost "two", rfl, fun args hargs => ?_⟩
    obtain rfl := Option.some.inj ((hcommand _).symm.trans hargs)
    exact resolvesAlike_token
  discreet := ⟨fun _ _ _ => rfl, fun _ _ _ => rfl, fun _ _ _ => rfl⟩

/-- The same files after two values of the secret, which the children have been given. -/
theorem secrets_leave_no_trace_token :
    (smallMachine.play (tokenRun "one") emptyWorld).2.SameButEnv
        (smallMachine.play (tokenRun "two") emptyWorld).2 ∧
      (smallMachine.play (tokenRun "one") emptyWorld).2.children.map (·.env) =
        [[("TOKEN", "one")]] ∧
      (smallMachine.play (tokenRun "two") emptyWorld).2.children.map (·.env) =
        [[("TOKEN", "two")]] :=
  ⟨(secrets_leave_no_trace smallMachine (tokenRun "one") (tokenRun "two") emptyWorld emptyWorld
      (.cons (sameButSecrets_token _ fun _ => rfl) (.cons (sameButSecrets_token _ fun _ => rfl) .nil))
      (World.SameButEnv.refl emptyWorld)).2,
    by decide +kernel, by decide +kernel⟩

end SimpleSandbox
