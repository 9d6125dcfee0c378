import SimpleSandbox.CommandSpec
import SimpleSandbox.Runs

/-!
# Runs of the command line

A run is a sequence of `ssbx` processes on one configured root.  Each process has its own
command, environment, faults and working directory; a relative root names one place only if
all of them run in one directory.  The file locations and the index are therefore read from
a fixed directory `dir`.
-/

namespace SimpleSandbox

open RustText OsPath FileSystem Effect World

/-- One process. -/
structure Invocation where
  command : Command
  env : ProcessEnv
  cwd : Location

namespace World

/-- The world as a process in a directory finds it. -/
def enter (dir : Location) (w : World) : World := { w with fs := { w.fs with cwd := dir } }

@[simp] theorem enter_cwd (dir : Location) (w : World) : (w.enter dir).fs.cwd = dir := rfl

@[simp] theorem enter_fileAt (dir : Location) (w : World) (r : Location) :
    (w.enter dir).fileAt r = w.fileAt r := rfl

@[simp] theorem enter_journal (dir : Location) (w : World) : (w.enter dir).journal = w.journal := rfl

@[simp] theorem enter_containers (dir : Location) (w : World) :
    (w.enter dir).containers = w.containers := rfl

end World

namespace Machine

variable (M : Machine) (dir : Location)

/-- A process in `cwd` means the same root as one in `dir`. -/
def Sees (cwd : Location) : Prop := isAbsolute M.root = true ∨ cwd = dir

/-- One process of a run. -/
def Runs (w : World) (a : Invocation) (w' : World) : Prop :=
  M.Sees dir a.cwd ∧ w' = (ssbx M a.env a.command (w.enter a.cwd)).2

/-- The index, as a process of the run finds it. -/
def records (w : World) : Option SandboxState := M.store.index (w.enter dir)

/-- A host that has not run `ssbx` yet. -/
structure Fresh (w : World) : Prop where
  index : w.fileAt (M.store.indexAt dir) = none
  containers : w.containers = []
  journal : w.journal = []

theorem records_of_fresh {w : World} (h : M.Fresh dir w) : M.records dir w = none := by
  rw [records, Store.index, enter_fileAt, enter_cwd, h.index]

variable {M dir}

/-- A path under the root is read alike. -/
theorem Sees.resolve_eq {cwd : Location} (h : M.Sees dir cwd) {p : PathBuf}
    (hp : isAbsolute M.root = true → isAbsolute p = true) : resolve cwd p = resolve dir p := by
  rcases h with habs | rfl
  · exact resolve_of_isAbsolute (hp habs) _ _
  · rfl

theorem Sees.root_eq {cwd : Location} (h : M.Sees dir cwd) :
    resolve cwd M.root = resolve dir M.root := h.resolve_eq id

theorem Sees.indexAt_eq {cwd : Location} (h : M.Sees dir cwd) :
    M.store.indexAt cwd = M.store.indexAt dir := by
  rw [Store.indexAt_eq, Store.indexAt_eq]
  exact congrArg (· ++ _) h.root_eq

theorem Sees.policyAt_eq {cwd : Location} (h : M.Sees dir cwd) (name : String) :
    M.store.policyAt cwd name = M.store.policyAt dir name := by
  rw [Store.policyAt_eq, Store.policyAt_eq, Store.policiesAt, Store.policiesAt]
  exact congrArg (fun q => resolve (q ++ _) _) h.root_eq

theorem Sees.instanceAt_eq {cwd : Location} (h : M.Sees dir cwd) (name : String) :
    M.instanceAt cwd name = M.instanceAt dir name := by
  rw [Machine.instanceAt_eq, Machine.instanceAt_eq, instancesAt, instancesAt, h.root_eq]

theorem Sees.instanceEvents_iff {cwd : Location} (h : M.Sees dir cwd) (name : String)
    (ev : FsEvent) : M.instanceEvents cwd name ev ↔ M.instanceEvents dir name ev := by
  simp only [instanceEvents, instanceFile, h.instanceAt_eq]

theorem records_eq_index {w : World} (h : M.Sees dir w.fs.cwd) :
    M.records dir w = M.store.index w := by
  rw [records, Store.index, Store.index, enter_fileAt, enter_cwd, h.indexAt_eq]

/-- The index that a process of the run finds. -/
theorem Sees.records_enter {cwd : Location} (h : M.Sees dir cwd) (w : World) :
    M.records dir w = M.store.index (w.enter cwd) := records_eq_index (w := w.enter cwd) h

/-! ## Opening, then the command -/

variable (M)

/-- What the opening of the store may do to the files. -/
def openingEvents (dir : Location) (ev : FsEvent) : Prop :=
  M.store.openEvents dir ev ∨ ev = ⟨.openIndex, M.store.indexAt dir⟩

/-- Opening keeps the index or makes the first one. -/
def Opens (c c₁ : Option SandboxState) : Prop := c₁ = c ∨ (c = none ∧ c₁ = some {})

/-- The world after the store is opened. -/
structure Opened (w w₁ : World) : Prop where
  events : Extends w.fs.cwd (M.openingEvents w.fs.cwd) w w₁
  index : Opens (M.store.index w) (M.store.index w₁)
  files : w.fileAt (M.store.indexAt w.fs.cwd) ≠ none → ∀ r, w₁.fileAt r = w.fileAt r

variable {M}

theorem opened_openAt (f : Faults) (w : World) : M.Opened w (Store.openAt M.root f w).2 := by
  obtain ⟨w₁, hext, hcases⟩ := Store.openAt_cases M.root f w
  have hdirs : Extends w.fs.cwd (M.openingEvents w.fs.cwd) w w₁ :=
    Extends.mono (fun ev hev => Or.inl hev) hext
  have hkeep : ∀ r, w₁.fileAt r = w.fileAt r := fun r =>
    hext.fileAt_eq rfl fun ev hev => Store.not_touches_of_openEvents hev r
  have hcwd : w₁.fs.cwd = w.fs.cwd := hext.cwd_eq rfl
  have hindex : M.store.index w₁ = M.store.index w := Store.index_congr hcwd (hkeep _)
  rcases hcases with hrun | ⟨hnone, hrun⟩ | ⟨e, hrun⟩
  · rw [hrun]
    exact ⟨hdirs, Or.inl hindex, fun _ => hkeep⟩
  · rw [hrun]
    rw [hcwd, hkeep] at hnone
    refine ⟨hdirs.trans ?_, Or.inr ⟨?_, Store.index_put_index _ _ _ _⟩, fun h => absurd hnone h⟩
    · intro _
      rw [hcwd]
      refine ⟨by rw [Store.put_cwd, hcwd], [⟨.openIndex, M.store.indexAt w.fs.cwd⟩], rfl, ?_, ?_⟩
      · intro ev hev
        exact Or.inr (List.mem_singleton.mp hev)
      · intro r hr
        rw [Store.put_fileAt, if_neg]
        exact hr _ (List.mem_singleton.mpr rfl)
    · have hfile : w.fileAt (M.store.indexAt w.fs.cwd) = none := hnone
      rw [Store.index, hfile]
  · rw [hrun]
    exact ⟨hdirs, Or.inl hindex, fun _ => hkeep⟩

theorem ssbx_of_opened {env : ProcessEnv} {w w₁ : World} {st : Store}
    (hopen : Store.openAt M.root env.faults w = (.ok st, w₁)) (cmd : Command) :
    ssbx M env cmd w = execute M env cmd w₁ := bind_of_ok (mapError_eq_ok_iff.mpr hopen)

theorem ssbx_of_not_opened {env : ProcessEnv} {w w₁ : World} {e : StateError}
    (hopen : Store.openAt M.root env.faults w = (.error e, w₁)) (cmd : Command) :
    ssbx M env cmd w = (.error (.state e), w₁) :=
  bind_of_error (mapError_eq_error_iff.mpr ⟨e, rfl, hopen⟩)

/-- A process opens the store and runs its command, or stops. -/
theorem ssbx_cases (env : ProcessEnv) (cmd : Command) (w : World) :
    ∃ w₁, M.Opened w w₁ ∧
      (ssbx M env cmd w = execute M env cmd w₁ ∨ ∃ e, ssbx M env cmd w = (.error e, w₁)) := by
  refine ⟨_, opened_openAt env.faults w, ?_⟩
  rcases hopen : Store.openAt M.root env.faults w with ⟨e | st, w₁⟩
  · exact Or.inr ⟨.state e, ssbx_of_not_opened hopen cmd⟩
  · exact Or.inl (ssbx_of_opened hopen cmd)

theorem indexStep_ssbx (env : ProcessEnv) (cmd : Command) (w : World) :
    ∃ c, Opens (M.store.index w) c ∧
      IndexStep M env w.fs.cwd cmd c (M.store.index (ssbx M env cmd w).2) := by
  obtain ⟨w₁, hopened, hrun | ⟨e, hrun⟩⟩ := ssbx_cases (M := M) env cmd w
  · rw [hrun, ← hopened.events.cwd_eq rfl]
    exact ⟨_, hopened.index, indexStep_execute M env cmd w₁⟩
  · rw [hrun]
    exact ⟨_, hopened.index, .keep _ _⟩

/-- The directory of a process does not change. -/
theorem ssbx_cwd (env : ProcessEnv) (cmd : Command) (w : World) :
    (ssbx M env cmd w).2.fs.cwd = w.fs.cwd := by
  obtain ⟨w₁, hopened, hrun | ⟨e, hrun⟩⟩ := ssbx_cases (M := M) env cmd w
  · rw [hrun]
    exact (extends_execute M env cmd w₁ w.fs.cwd).cwd_eq (hopened.events.cwd_eq rfl)
  · rw [hrun]
    exact hopened.events.cwd_eq rfl

/-- The index that a process of the run leaves. -/
theorem Sees.records_ssbx {w : World} (h : M.Sees dir w.fs.cwd) (env : ProcessEnv) (cmd : Command) :
    M.records dir (ssbx M env cmd w).2 = M.store.index (ssbx M env cmd w).2 := by
  apply records_eq_index
  rw [ssbx_cwd]
  exact h

/-- **A process of a run moves the index by the operation of its command.** -/
theorem Runs.indexStep {w w' : World} {a : Invocation} (h : M.Runs dir w a w') :
    ∃ c, Opens (M.records dir w) c ∧ IndexStep M a.env a.cwd a.command c (M.records dir w') := by
  obtain ⟨hsees, rfl⟩ := h
  rw [Sees.records_ssbx (w := w.enter a.cwd) hsees, hsees.records_enter w]
  exact indexStep_ssbx a.env a.command (w.enter a.cwd)

/-! ### Issued records -/

/-- Every record of an index was written by `create`. -/
def AllIssued (M : Machine) (c : Option SandboxState) : Prop :=
  ∀ s, c = some s → ∀ r ∈ s.sandboxes, M.Issued r

/-- **Records come from `create`.**  A property of records that a change of the policy hash
    keeps holds after a command if it holds before and of the record a `create` inserts. -/
theorem records_of_indexStep {env : ProcessEnv} {cwd : Location} {cmd : Command} {c c' : Option SandboxState}
    (P : SandboxRecord → Prop) (hhash : ∀ r hash, P r → P (r.withHash hash))
    (hc : ∀ s, c = some s → ∀ r ∈ s.sandboxes, P r)
    (hnew : ∀ name args p r, cmd = .create name args →
      prepare M env (createName name) args id false [] = .ok p →
      r.name = createName name → r.mechanism = p.kind →
      isUtf8 (M.store.logPathFor (createName name)) = true → M.Issued r → P r)
    (h : IndexStep M env cwd cmd c c') : ∀ s, c' = some s → ∀ r ∈ s.sandboxes, P r := by
  rintro s' rfl r hr
  cases h with
  | keep => exact hc s' rfl r hr
  | @create name args p s _ hp hcreated =>
    obtain ⟨r', hmem, hname, hkind, hlog, hissued⟩ := hcreated.mem_iff
    rcases (hmem r).mp hr with hold | rfl
    · exact hc s rfl r hold
    · exact hnew name args p r rfl hp hname hkind hlog hissued
  | touch => exact hc _ rfl r hr
  | update _ h =>
    obtain ⟨-, rfl⟩ := SandboxState.updatePolicy_eq_ok_iff.mp h
    rcases SandboxState.mem_modifyNamed hr with hold | ⟨r₀, hr₀, rfl⟩
    · exact hc _ rfl r hold
    · exact hhash r₀ _ (hc _ rfl r₀ hr₀)
  | remove h => exact hc _ rfl r ((SandboxState.sandboxes_of_remove h).subset hr)

theorem Opens.all {c c₁ : Option SandboxState} (h : Opens c c₁) {P : SandboxRecord → Prop}
    (hc : ∀ s, c = some s → ∀ r ∈ s.sandboxes, P r) :
    ∀ s, c₁ = some s → ∀ r ∈ s.sandboxes, P r := by
  rintro s rfl r hr
  rcases h with hsame | ⟨-, hfirst⟩
  · exact hc s hsame.symm r hr
  · rw [Option.some.inj hfirst] at hr
    exact nomatch hr

theorem Opens.of_records {c c₁ : Option SandboxState} (h : Opens c c₁) {s : SandboxState}
    (hs : c = some s) : c₁ = some s := by
  rcases h with hsame | ⟨hnone, -⟩
  · rw [hsame, hs]
  · rw [hs] at hnone
    exact nomatch hnone

theorem allIssued_runs {w w' : World} {a : Invocation} (h : M.AllIssued (M.records dir w))
    (hstep : M.Runs dir w a w') : M.AllIssued (M.records dir w') := by
  obtain ⟨c, hopens, hindex⟩ := hstep.indexStep
  exact records_of_indexStep M.Issued (fun r hash hr => hr.withHash hash) (hopens.all h)
    (fun _ _ _ _ _ _ _ _ _ hissued => hissued) hindex

theorem allIssued_of_fresh {w : World} (hw : M.Fresh dir w) : M.AllIssued (M.records dir w) := by
  intro s hs
  rw [M.records_of_fresh dir hw] at hs
  exact nomatch hs

/-- **The invariant rule for the index.**  A fresh host has none. -/
theorem index_of_reach {step : World → Invocation → World → Prop} {ok : World → Invocation → Prop}
    (P : SandboxState → Prop)
    (hnext : ∀ w a w', (∀ s, M.records dir w = some s → P s) → ok w a → step w a w' →
      ∀ s, M.records dir w' = some s → P s)
    {w : World} (h : Reach (M.Fresh dir) step ok w) : ∀ s, M.records dir w = some s → P s := by
  refine Reach.invariant (fun w => ∀ s, M.records dir w = some s → P s) ?_ hnext h
  intro w hw s hs
  rw [M.records_of_fresh dir hw] at hs
  exact nomatch hs

theorem allIssued_of_reach {ok : World → Invocation → Prop} {w : World}
    (h : Reach (M.Fresh dir) (M.Runs dir) ok w) : M.AllIssued (M.records dir w) :=
  index_of_reach (fun s => ∀ r ∈ s.sandboxes, M.Issued r)
    (fun _ _ _ hissued _ hstep => allIssued_runs hissued hstep) h

/-! ### The files -/

/-- The files a process leaves: the changes are recorded, and the rest is kept. -/
def Changes (P : FsEvent → Prop) (w w' : World) : Prop :=
  ∃ evs, w'.journal = w.journal ++ evs ∧ (∀ ev ∈ evs, P ev) ∧
    ∀ r, (∀ ev ∈ evs, ¬ ev.touches r) → w'.fileAt r = w.fileAt r

theorem Changes.mono {P Q : FsEvent → Prop} {w w' : World} (h : Changes P w w')
    (hPQ : ∀ ev, P ev → Q ev) : Changes Q w w' := by
  obtain ⟨evs, hj, hP, hkeep⟩ := h
  exact ⟨evs, hj, fun ev hev => hPQ ev (hP ev hev), hkeep⟩

/-- The new events of the journal. -/
theorem Changes.of_mem {P : FsEvent → Prop} {w w' : World} (h : Changes P w w') {ev : FsEvent}
    (hev : ev ∈ w'.journal.drop w.journal.length) : P ev := by
  obtain ⟨evs, hj, hP, -⟩ := h
  rw [hj, List.drop_left] at hev
  exact hP ev hev

theorem Sees.openingEvents {cwd : Location} (h : M.Sees dir cwd) {ev : FsEvent}
    (hev : M.openingEvents cwd ev) : M.openingEvents dir ev := by
  have hjoin : ∀ s : String, isAbsolute (osString s) = false →
      resolve cwd (join M.root (osString s)) = resolve dir (join M.root (osString s)) := by
    intro s hs
    apply h.resolve_eq
    rw [isAbsolute_join, hs, Bool.or_false]
    exact id
  unfold Machine.openingEvents Store.openEvents at *
  rw [h.indexAt_eq] at hev
  have hroot : resolve cwd M.store.root = resolve dir M.store.root := h.root_eq
  rw [hroot, show M.store.root = M.root from rfl, hjoin "sandboxes" (by decide),
    hjoin "logs" (by decide), hjoin "policies" (by decide)] at hev
  exact hev

theorem Sees.removedAt_eq {cwd : Location} (h : M.Sees dir cwd) (name : String) :
    M.removedAt cwd name = M.removedAt dir name := by
  apply h.resolve_eq
  intro hroot
  simp only [isAbsolute_lossy, instancePath, instancesPath, isAbsolute_join, hroot, Bool.true_or]

theorem Issued.mac_of_resolve {r : SandboxRecord} (hr : M.Issued r)
    (h : resolveMechanism M.os r.mechanism = .mac) : r.mechanism = .mac := by
  rcases hr.kind with hpodman | hmac
  · rw [hpodman] at h
    exact nomatch h
  · exact hmac

/-- The removal of an issued instance. -/
theorem removalEvents_of_issued {r : SandboxRecord} (hr : M.Issued r)
    (hmac : resolveMechanism M.os r.mechanism = .mac) {cwd : Location} {ev : FsEvent}
    (h : removalEvents cwd r.runtimeId ev) : ev = ⟨.removeInstance, M.removedAt cwd r.name⟩ := by
  obtain ⟨p, d, hid, rfl⟩ := h
  rw [hr.runtimeId (hr.mac_of_resolve hmac)] at hid
  obtain ⟨p', d', hid', hres⟩ := M.exists_profileOfRuntime r.name
  rw [hid'] at hid
  obtain ⟨-, rfl⟩ := Prod.mk.inj (Except.ok.inj hid)
  rw [hres]

theorem removalEvents_issued {r : SandboxRecord} (hr : M.Issued r)
    (hkind : r.mechanism = .mac) (cwd : Location) :
    removalEvents cwd r.runtimeId ⟨.removeInstance, M.removedAt cwd r.name⟩ := by
  obtain ⟨p, d, hid, hres⟩ := M.exists_profileOfRuntime r.name
  exact ⟨p, d, by rw [hr.runtimeId hkind, hid], by rw [hres]⟩

theorem Sees.commandEvents {cwd : Location} (h : M.Sees dir cwd) {env : ProcessEnv}
    {c : Option SandboxState} (hc : M.AllIssued c) {cmd : Command} {ev : FsEvent}
    (hev : M.commandEvents env cwd c cmd ev) : M.commandEvents env dir c cmd ev := by
  cases cmd with
  | create name args =>
    obtain ⟨p, hp, hev⟩ := hev
    refine ⟨p, hp, ?_⟩
    unfold createEvents at *
    rw [h.indexAt_eq, h.policyAt_eq, h.instanceEvents_iff] at hev
    exact hev
  | exec name command =>
    unfold Machine.commandEvents at *
    rw [h.indexAt_eq] at hev
    exact hev
  | shell name =>
    unfold Machine.commandEvents at *
    rw [h.indexAt_eq] at hev
    exact hev
  | policySet name file =>
    obtain ⟨s, r, hs, hr, hev⟩ := hev
    rw [h.indexAt_eq, h.policyAt_eq] at hev
    exact ⟨s, r, hs, hr, hev⟩
  | rm key =>
    obtain ⟨s, r, s', hs, hremove, hev⟩ := hev
    have hissued := hc s hs r (SandboxState.mem_of_remove hremove)
    refine ⟨s, r, s', hs, hremove, ?_⟩
    unfold removeEvents at *
    rw [h.indexAt_eq, h.policyAt_eq] at hev
    rcases hev with hev | hev | ⟨hmac, hev⟩
    · exact Or.inl hev
    · exact Or.inr (Or.inl hev)
    · refine Or.inr (Or.inr ⟨hmac, ?_⟩)
      rw [removalEvents_of_issued hissued hmac hev, h.removedAt_eq]
      exact removalEvents_issued hissued (hissued.mac_of_resolve hmac) dir
  | run name args command => exact hev
  | policyGet name => exact hev
  | ls => exact hev
  | logs name => exact hev
  | doctor => exact hev

theorem Sees.indexStep {cwd : Location} (h : M.Sees dir cwd) {env : ProcessEnv}
    {c c' : Option SandboxState} (hc : M.AllIssued c) {cmd : Command}
    (hstep : IndexStep M env cwd cmd c c') : IndexStep M env dir cmd c c' := by
  cases hstep with
  | keep => exact .keep _ _
  | create hp hcreated => exact .create hp hcreated
  | touch hget => exact .touch hget
  | update hr hupdate => exact .update hr hupdate
  | remove hremove => exact .remove hremove
  | @lose key s s' r hremove hkind hlost =>
    have hissued := hc s rfl r (SandboxState.mem_of_remove hremove)
    obtain ⟨ev, hev, htouch⟩ := hlost
    refine .lose hremove hkind ⟨⟨.removeInstance, M.removedAt dir r.name⟩,
      removalEvents_issued hissued (hissued.mac_of_resolve hkind) dir, ?_⟩
    rw [removalEvents_of_issued hissued hkind hev, h.removedAt_eq, h.indexAt_eq] at htouch
    exact htouch

/-- **A process of a run changes the files by the events of its command.** -/
theorem Runs.changes {w w' : World} {a : Invocation} (h : M.Runs dir w a w')
    (hissued : M.AllIssued (M.records dir w)) :
    ∃ c, Opens (M.records dir w) c ∧ IndexStep M a.env dir a.command c (M.records dir w') ∧
      Changes (fun ev => M.openingEvents dir ev ∨ M.commandEvents a.env dir c a.command ev) w w' := by
  obtain ⟨hsees, rfl⟩ := h
  have hbefore := hsees.records_enter w
  have hafter := Sees.records_ssbx (w := w.enter a.cwd) hsees a.env a.command
  obtain ⟨w₁, hopened, hrun⟩ := ssbx_cases (M := M) a.env a.command (w.enter a.cwd)
  have hopens : Opens (M.records dir w) (M.store.index w₁) := by
    rw [hbefore]
    exact hopened.index
  have hc : M.AllIssued (M.store.index w₁) := hopens.all hissued
  refine ⟨M.store.index w₁, hopens, ?_, ?_⟩
  · rw [hafter]
    apply hsees.indexStep hc
    rcases hrun with hrun | ⟨e, hrun⟩
    · rw [hrun, ← show w₁.fs.cwd = a.cwd from hopened.events.cwd_eq rfl]
      exact indexStep_execute M a.env a.command w₁
    · rw [hrun]
      exact .keep _ _
  · have hcommand : Extends a.cwd (M.commandEvents a.env a.cwd (M.store.index w₁) a.command) w₁
        (ssbx M a.env a.command (w.enter a.cwd)).2 := by
      rcases hrun with hrun | ⟨e, hrun⟩
      · rw [hrun]
        exact extends_execute M a.env a.command w₁ a.cwd
      · rw [hrun]
        exact Extends.refl w₁
    have hall := Extends.trans (Extends.mono (fun ev hev => Or.inl (hsees.openingEvents hev))
      hopened.events) (Extends.mono (fun ev hev => Or.inr (hsees.commandEvents hc hev)) hcommand)
    exact (hall rfl).2

end Machine

/-! ## A small host -/

/-- An engine that does what it is asked. -/
def readyEngine : Engine where
  binary := some (osString "/usr/bin/podman")
  usable := .ok "arm64"
  run := fun _ => .started "c0ffee"
  runAttached := fun _ => .ok (.exited 0)
  rm := fun _ => .removed
  exec := fun _ => .ok (.exited 0)

/-- A macOS host with its state under `/s`. -/
def smallMachine : Machine where
  os := .macos
  root := osString "/s"
  ext := {
    toYaml := fun _ => .ok "version: 1"
    sha256Hex := fun _ => "00"
    allocate := fun _ _ _ => .ok () }

/-- A process in `/w` that draws the given id and meets no fault. -/
def smallEnv (uuid : String) : ProcessEnv where
  faults := noFaults
  lookupFaults := noFaults
  secretDir := .ok (osString "/w")
  workdir := .ok (osString "/w")
  secretHost := {
    var := fun _ => none, readFile := fun _ => .error "no such file", lock := .ok, unlock := .ok,
    iterate := id }
  inheritedPort := none
  startProxy := .ok 40000
  canonicalize := some
  pathExists := fun _ => true
  engine := readyEngine
  sandboxExec := some (osString "/usr/bin/sandbox-exec")
  tempFile := .ok (osString "/tmp/profile")
  dirsFallback := osString "/h/.config/simple-sandbox"
  spawn := fun _ => .ok (.exited 0)
  uuid := uuid
  insertUuid := uuid
  now := 0
  runName := "run-0"

/-- A file system with a root directory only. -/
def emptyWorld : World where
  fs := { cwd := [], node := fun q => if q = [] then some .dir else none }
  containers := []
  children := []
  journal := []

theorem fresh_emptyWorld : smallMachine.Fresh [] emptyWorld where
  index := by decide
  containers := rfl
  journal := rfl

/-- `ssbx create --name {name} --mechanism {kind}` -/
def smallCreate (kind : MechanismKind) (name uuid : String) : Invocation where
  command := .create (some name) { mechanism := some kind }
  env := smallEnv uuid
  cwd := []

/-- `ssbx rm {key}` -/
def smallRm (key : String) : Invocation where
  command := .rm key
  env := smallEnv ""
  cwd := []

/-- The world after a process. -/
def Machine.after (M : Machine) (w : World) (a : Invocation) : World :=
  (ssbx M a.env a.command (w.enter a.cwd)).2

theorem runs_after {a : Invocation} (w : World) :
    smallMachine.Runs [] w a (smallMachine.after w a) := ⟨Or.inl rfl, rfl⟩

/-- The record `smallCreate` makes with the mac mechanism. -/
def smallRecord (name id : String) : SandboxRecord where
  id := id
  name := name
  mechanism := .mac
  runtimeId := "mac:/s/mac/instances/" ++ name ++ "/profile.sb"
  policyHash := "00"
  workdir := osString "/w"
  createdAt := 0
  proxyPort := none
  logPath := some (osString ("/s/logs/" ++ name ++ ".log"))
  ephemeral := false

theorem records_first :
    smallMachine.records [] (smallMachine.after emptyWorld (smallCreate .mac "a" "u")) =
      some ⟨some "a", [smallRecord "a" "u"]⟩ := by decide

end SimpleSandbox
