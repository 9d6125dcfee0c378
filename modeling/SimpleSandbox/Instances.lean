import SimpleSandbox.Interference
import SimpleSandbox.LastUsed
import SimpleSandbox.Provenance

/-!
# Instances over whole runs

The mac mechanism keeps what a sandbox is in files: `create` writes them, and `exec` reads them
back in a process of its own, any number of processes later.  Where sandboxes are created apart
and under names that are free, a live sandbox stays what the last `create` of its name has made
it, and every entry finds it so.
-/

namespace SimpleSandbox

open RustText OsPath FileSystem Effect World

/-! ## The last creation of a name -/

/-- The process is a `create` of this name. -/
def Invocation.creates (a : Invocation) (name : String) : Bool :=
  match a.command with
  | .create n _ => createName n == name
  | _ => false

/-- The last process of a run that is a `create` of this name. -/
def lastCreate (name : String) (as : List Invocation) : Option Invocation :=
  as.reverse.find? (·.creates name)

theorem lastCreate_append (name : String) (as : List Invocation) (a : Invocation) :
    lastCreate name (as ++ [a]) = if a.creates name then some a else lastCreate name as := by
  rw [lastCreate, List.reverse_append, List.reverse_singleton, List.singleton_append,
    List.find?_cons]
  cases a.creates name <;> rfl

theorem creates_eq_true_iff {a : Invocation} {name : String} :
    a.creates name = true ↔ ∃ n args, a.command = .create n args ∧ createName n = name := by
  unfold Invocation.creates
  split
  · rename_i n args hcmd
    rw [hcmd]
    simp
  · rename_i hcmd
    simp only [Bool.false_eq_true, false_iff]
    rintro ⟨n, args, hcreate, -⟩
    exact hcmd n args hcreate

/-- The request a `create` of this name has prepared for the mac mechanism. -/
structure Asked (M : Machine) (a : Invocation) (name : String) (p : Prepared) : Prop where
  command : ∃ n args, a.command = .create n args ∧ createName n = name ∧
    prepare M a.env name args id false [] = .ok p
  kind : p.kind = .mac

namespace Machine

variable (M : Machine) (dir : Location)

/-- The files of an instance hold what the creation was asked for.  A failure to copy the policy
    is ignored, and the copy is left out where a directory stands in its place. -/
structure Holding (w : World) (name : String) (a : Invocation) (p : Prepared) : Prop where
  profile : w.fileAt (M.instanceFile dir name "profile.sb") = some (.text
    (generateSeatbeltProfile a.env.canonicalize p.request.policy p.request.workdir))
  workdir : w.fileAt (M.instanceFile dir name "workdir") = some (.text (display p.request.workdir))
  displays : isUtf8 p.request.workdir = true
  copy : a.env.faults .writePolicyCopy = false →
    w.fileAt (M.instanceFile dir name "policy.yaml") = some (.policy p.request.policy) ∨
    w.fileAt (M.instanceFile dir name "policy.yaml") = none

/-- What the last `create` of the name was asked for is in the files. -/
def MadeByLast (as : List Invocation) (w : World) (name : String) : Prop :=
  ∃ a p, lastCreate name as = some a ∧ Asked M a name p ∧ M.Holding dir w name a p

/-- Every live sandbox of the mac mechanism is what its last `create` has made it. -/
def InstancesKept (as : List Invocation) (w : World) : Prop :=
  ∀ s, M.records dir w = some s → ∀ r ∈ s.sandboxes, r.mechanism = .mac →
    M.MadeByLast dir as w r.name

/-- A sandbox is created under a free name. -/
def CreatesFree (w : World) (a : Invocation) : Prop :=
  ∀ s, M.records dir w = some s → ∀ name ∈ s.names, a.creates name = false

/-- One process of a run in which sandboxes are created apart and under free names. -/
def CarefulRuns (w : World) (a : Invocation) (w' : World) : Prop :=
  M.Runs dir w a w' ∧ M.CreatedApart dir w a ∧ M.CreatesFree dir w a

variable {M dir}

/-- On a fresh host every process is careful. -/
theorem careful_of_fresh {w w' : World} {a : Invocation} (hw : M.Fresh dir w)
    (h : M.Runs dir w a w') : M.CarefulRuns dir w a w' := by
  have hnone := M.records_of_fresh dir hw
  refine ⟨h, fun name args p _ _ s hs => ?_, fun s hs => ?_⟩
  · rw [hnone] at hs
    cases hs
  · rw [hnone] at hs
    cases hs

/-! ## What other processes leave alone -/

/-- The three files of an instance. -/
theorem owns_instanceFile {r : SandboxRecord} (hmac : r.mechanism = .mac) {file : String}
    (hfile : file = "profile.sb" ∨ file = "workdir" ∨ file = "policy.yaml") :
    M.Owns dir r (M.instanceFile dir r.name file) := by
  refine Or.inr ⟨hmac, ?_⟩
  rcases hfile with rfl | rfl | rfl
  · exact Or.inl rfl
  · exact Or.inr (Or.inl rfl)
  · exact Or.inr (Or.inr rfl)

theorem instanceFile_ne_policyAt {name file : String}
    (hfile : file = "profile.sb" ∨ file = "workdir" ∨ file = "policy.yaml") :
    M.instanceFile dir name file ≠ M.store.policyAt dir name := by
  rcases hfile with rfl | rfl | rfl
  · exact (policyAt_ne_instanceFile name (by decide)).symm
  · exact (policyAt_ne_instanceFile name (by decide)).symm
  · exact (M.policyAt_ne_policyCopy dir name).symm

/-- A process that neither creates nor removes a sandbox leaves the files of its instance alone;
    setting its policy is no exception. -/
theorem not_touches_instance {s : SandboxState} {r : SandboxRecord} (hs : LiveApart M dir s)
    (hr : r ∈ s.sandboxes) (hmac : r.mechanism = .mac) {a : Invocation} {w : World}
    (hw : M.records dir w = some s) (hok : M.CreatedApart dir w a)
    (hcreates : a.creates r.name = false)
    (hremoves : ∀ key r₀ s', a.command = .rm key → s.remove key = .ok (r₀, s') → r.name ≠ r₀.name)
    {file : String} (hfile : file = "profile.sb" ∨ file = "workdir" ∨ file = "policy.yaml")
    {ev : FsEvent} (hev : M.commandEvents a.env dir (some s) a.command ev) :
    ¬ ev.touches (M.instanceFile dir r.name file) := by
  have hq : M.Owns dir r (M.instanceFile dir r.name file) := owns_instanceFile hmac hfile
  by_cases hmeans : a.command.Means s r
  · generalize hcmd : a.command = cmd at hmeans hev
    cases cmd with
    | create name args =>
      have hcreate := creates_eq_true_iff.mpr ⟨name, args, hcmd, (hmeans : r.name = _).symm⟩
      rw [hcreates] at hcreate
      cases hcreate
    | policySet name file' =>
      obtain ⟨s₁, r₁, hs₁, hget₁, hev⟩ := hev
      obtain ⟨r₀, hget, hname⟩ := hmeans
      obtain rfl := Option.some.inj hs₁
      obtain rfl := Except.ok.inj (hget.symm.trans hget₁)
      rcases hev with rfl | rfl
      · exact hq.ne_indexAt
      · rw [← hname]
        exact instanceFile_ne_policyAt hfile
    | rm key =>
      obtain ⟨r₀, s', hremove, hname⟩ := hmeans
      exact absurd hname (hremoves key r₀ s' hcmd hremove)
    | _ => exact hmeans.elim
  · exact not_touches_of_commandEvents hs hr hw hok hmeans hq hev

theorem Holding.of_fileAt {dir dir' : Location} {w w' : World} {name : String} {a : Invocation}
    {p : Prepared} (h : M.Holding dir w name a p)
    (hkeep : ∀ file, file = "profile.sb" ∨ file = "workdir" ∨ file = "policy.yaml" →
      w'.fileAt (M.instanceFile dir' name file) = w.fileAt (M.instanceFile dir name file)) :
    M.Holding dir' w' name a p where
  profile := by rw [hkeep _ (Or.inl rfl), h.profile]
  workdir := by rw [hkeep _ (Or.inr (Or.inl rfl)), h.workdir]
  displays := h.displays
  copy := by
    rw [hkeep _ (Or.inr (Or.inr rfl))]
    exact h.copy

/-! ## What a creation writes -/

/-- A creation that fails leaves the index as it was. -/
theorem index_of_createPrepared_error {env : ProcessEnv} {name : String} {p : Prepared}
    (hp : p.Persistent M name) {w w' : World} {e : CliError}
    (h : createPrepared M env name p w = (.error e, w')) : M.store.index w' = M.store.index w := by
  have hindex := index_makeRecord hp env w
  rw [createPrepared_eq] at h
  rcases hmake : makeRecord M env name p w with ⟨e' | r, w₁⟩
  · rw [hmake] at hindex
    rw [bind_of_error hmake] at h
    rw [← (Prod.mk.inj h).2]
    exact hindex
  · rw [hmake] at hindex
    rw [bind_of_ok hmake] at h
    rw [Store.insert_eq_modify] at h
    rcases Store.modify_cases M.store env.faults (·.insert r env.insertUuid) w₁ with
      ⟨s, r', s', -, -, -, -, hrun⟩ | ⟨e', hrun⟩
    · rw [bind_of_ok (mapError_eq_ok_iff.mpr hrun)] at h
      cases (Prod.mk.inj h).1
    · rw [bind_of_error (mapError_eq_error_iff.mpr ⟨e', rfl, hrun⟩)] at h
      rw [← (Prod.mk.inj h).2]
      exact hindex

/-- A creation that goes through leaves its request in the instance. -/
theorem holding_of_createPrepared {a : Invocation} {name : String} {p : Prepared}
    (hp : p.Persistent M name) (hmac : p.kind = .mac) {w w' : World} {u : Unit}
    (h : createPrepared M a.env name p w = (.ok u, w')) : M.Holding w.fs.cwd w' name a p := by
  obtain ⟨r, w₁, s, r', s', hmake, -, hop, hser, rfl⟩ := createPrepared_ok h
  have hcwd : w₁.fs.cwd = w.fs.cwd := by
    have hext := extends_makeRecord hp a.env w.fs.cwd w
    rw [hmake] at hext
    exact hext.cwd_eq rfl
  obtain ⟨hprofile, hworkdir⟩ := fileAt_of_makeRecord hp hmac hmake
  have hcopy := fileAt_copy_of_makeRecord hp hmac hmake
  -- the index is no file of the instance
  have hkept : ∀ file, file ≠ "index.json" →
      (M.store.withIndex s' w₁).fileAt (M.instanceFile w.fs.cwd name file) =
        w₁.fileAt (M.instanceFile w.fs.cwd name file) := by
    intro file hfile
    rw [Store.withIndex, Store.put_fileAt, hcwd, if_neg (M.instanceFile_ne_indexAt _ name hfile)]
  constructor
  · rw [hkept _ (by decide), hprofile]
  · rw [hkept _ (by decide), hworkdir]
  · obtain ⟨result, w₂, record, -, hrecord, hr⟩ := makeRecord_eq_ok hmake
    have hwork : record.workdir = p.request.workdir := by
      obtain ⟨hash, -, hrec⟩ := except_bind_eq_ok hrecord
      rw [← Except.ok.inj hrec]
    have hserial := SandboxState.serializable_of_insert hop hser
    rw [hr, SandboxRecord.serializable, Bool.and_eq_true, hwork] at hserial
    exact hserial.1
  · intro hfault
    rw [hkept _ (by decide), hcopy]
    by_cases hdir : w.fs.isDir (M.instanceFile w.fs.cwd name "policy.yaml") = false
    · rw [if_pos ⟨hfault, hdir⟩]
      exact Or.inl rfl
    · rw [if_neg fun hboth => hdir hboth.2]
      refine Or.inr ?_
      rw [World.fileAt, FileSystem.fileAt]
      unfold FileSystem.isDir at hdir
      rcases hnode : w.fs.node (M.instanceFile w.fs.cwd name "policy.yaml") with _ | _ | contents
      · rfl
      · rfl
      · rw [hnode] at hdir
        exact absurd rfl hdir

/-- A new record of the index belongs to a creation that went through. -/
theorem holding_of_created {w w' : World} {a : Invocation} {name : Option String}
    {args : PolicyArgs} {p : Prepared} (hcmd : a.command = .create name args)
    (hprep : prepare M a.env (createName name) args id false [] = .ok p) (hmac : p.kind = .mac)
    (hstep : M.Runs dir w a w')
    (hbefore : ∀ s, M.records dir w = some s → createName name ∉ s.names) {s' : SandboxState}
    (hs' : M.records dir w' = some s') (hafter : createName name ∈ s'.names) :
    M.Holding dir w' (createName name) a p := by
  have hp := persistent_of_prepare hprep
  obtain ⟨hsees, rfl⟩ := hstep
  have hafter' := Sees.records_ssbx (w := w.enter a.cwd) hsees a.env a.command
  have hopened := opened_openAt (M := M) a.env.faults (w.enter a.cwd)
  rw [hafter'] at hs'
  rw [hsees.records_enter] at hbefore
  have hfresh : ∀ w₁, M.Opened (w.enter a.cwd) w₁ → M.store.index w₁ ≠ some s' := by
    intro w₁ h₁ hs₁
    rcases h₁.index with hsame | ⟨-, hfirst⟩
    · exact hbefore s' (hsame ▸ hs₁) hafter
    · rw [hs₁] at hfirst
      rw [Option.some.inj hfirst] at hafter
      cases hafter
  rcases hopen : Store.openAt M.root a.env.faults (w.enter a.cwd) with ⟨e | st, w₁⟩
  · rw [hopen] at hopened
    rw [ssbx_of_not_opened hopen] at hs'
    exact absurd hs' (hfresh w₁ hopened)
  · rw [hopen] at hopened
    have hcwd : w₁.fs.cwd = a.cwd := hopened.events.cwd_eq rfl
    rw [ssbx_of_opened hopen, hcmd, execute, bind_pure_snd, cmdCreate, hprep, lift_ok_bind] at hs' ⊢
    rcases hcreate : createPrepared M a.env (createName name) p w₁ with ⟨e | u, w'⟩
    · rw [hcreate] at hs'
      rw [index_of_createPrepared_error hp hcreate] at hs'
      exact absurd hs' (hfresh w₁ hopened)
    · have hholding := holding_of_createPrepared (a := a) hp hmac hcreate
      rw [hcwd] at hholding
      refine hholding.of_fileAt fun file _ => ?_
      rw [instanceFile, instanceFile, hsees.instanceAt_eq]

/-! ## Runs -/

/-- A record of the new index was there before, or is the one of a creation. -/
theorem origin_of_indexStep {env : ProcessEnv} {cwd : Location} {cmd : Command}
    {c c' : Option SandboxState} (h : IndexStep M env cwd cmd c c') {s' : SandboxState}
    (hs' : c' = some s') {r : SandboxRecord} (hr : r ∈ s'.sandboxes) :
    (∃ s, c = some s ∧ ∃ r₀ ∈ s.sandboxes, r₀.name = r.name ∧ r₀.mechanism = r.mechanism) ∨
    ∃ name args p, cmd = .create name args ∧
      prepare M env (createName name) args id false [] = .ok p ∧ r.name = createName name ∧
      r.mechanism = p.kind :=
  records_of_indexStep (fun r =>
      (∃ s, c = some s ∧ ∃ r₀ ∈ s.sandboxes, r₀.name = r.name ∧ r₀.mechanism = r.mechanism) ∨
      ∃ name args p, cmd = .create name args ∧
        prepare M env (createName name) args id false [] = .ok p ∧ r.name = createName name ∧
        r.mechanism = p.kind)
    (fun _ _ h => h) (fun s hs r hr => Or.inl ⟨s, hs, r, hr, rfl, rfl⟩)
    (fun name args p _ hcmd hp hname hkind _ _ => Or.inr ⟨name, args, p, hcmd, hp, hname, hkind⟩)
    h s' hs' r hr

/-- An `rm` takes the record of its name out of the index, or changes nothing. -/
theorem execute_rm_cases (env : ProcessEnv) (key : String) (w : World) :
    (execute M env (.rm key) w).2 = w ∨
    ∃ s r s', M.store.index w = some s ∧ s.remove key = .ok (r, s') ∧
      (M.store.index (execute M env (.rm key) w).2 = some s' ∨
        M.store.index (execute M env (.rm key) w).2 = none) := by
  rw [execute, bind_pure_snd]
  rcases cmdRm_cases M env key w with ⟨s, r, s', -, hs, hremove, -, hrun⟩ | ⟨e, hrun⟩
  · refine Or.inr ⟨s, r, s', hs, hremove, ?_⟩
    rw [hrun, mapError_snd]
    rcases index_mechRemove M (env.mechHost M env.inheritedPort) r.mechanism r.runtimeId
      (M.store.dropPolicy env.faults r.name (M.store.withIndex s' w)) with hkeep | ⟨-, -, hgone⟩
    · rw [hkeep, Store.index_dropPolicy, Store.index_withIndex]
      exact Or.inl rfl
    · exact Or.inr hgone
  · rw [hrun]
    exact Or.inl rfl

/-- A sandbox that is still live after an `rm` of its name has all its files. -/
theorem fileAt_of_rm {w w' : World} {a : Invocation} {key : String} (hcmd : a.command = .rm key)
    (hstep : M.Runs dir w a w') {s s' : SandboxState} (hs : M.records dir w = some s)
    (hnodup : s.names.Nodup) (hs' : M.records dir w' = some s') {r : SandboxRecord}
    (hr : r.name ∈ s'.names) {r₀ : SandboxRecord} {s₁ : SandboxState}
    (hremove : s.remove key = .ok (r₀, s₁)) (hname : r.name = r₀.name) (q : Location) :
    w'.fileAt q = w.fileAt q := by
  obtain ⟨hsees, rfl⟩ := hstep
  have hafter := Sees.records_ssbx (w := w.enter a.cwd) hsees a.env a.command
  rw [hsees.records_enter] at hs
  rw [hafter] at hs'
  obtain ⟨w₁, hopened, hrun⟩ := ssbx_cases (M := M) a.env a.command (w.enter a.cwd)
  obtain ⟨hs₁, -, hfiles⟩ := hopened.of_index hs
  rcases hrun with hrun | ⟨e, hrun⟩
  · rw [hrun, hcmd] at hs' ⊢
    rcases execute_rm_cases (M := M) a.env key w₁ with hsame | ⟨s₂, r₂, s₃, hs₂, hremove₂, hindex⟩
    · rw [hsame]
      exact hfiles q
    · -- the index has lost the name
      obtain rfl := Option.some.inj (hs₁.symm.trans hs₂)
      obtain ⟨rfl, rfl⟩ := Prod.mk.inj (Except.ok.inj (hremove.symm.trans hremove₂))
      have hgone : r.name ∉ s₁.names := by
        rw [← SandboxState.named_eq_none_iff, SandboxState.named_remove hnodup hremove, if_pos hname]
      rcases hindex with hsome | hnone
      · rw [hs'] at hsome
        rw [Option.some.inj hsome] at hr
        exact absurd hr hgone
      · rw [hs'] at hnone
        cases hnone
  · rw [hrun]
    exact hfiles q

/-- **One process keeps the instances.** -/
theorem instancesKept_runs {w w' : World} {a : Invocation} {as : List Invocation}
    (h : M.InstancesKept dir as w) (hlive : ∀ s, M.records dir w = some s → LiveApart M dir s)
    (hnodup : ∀ s, M.records dir w = some s → s.names.Nodup) (hstep : M.CarefulRuns dir w a w') :
    M.InstancesKept dir (as ++ [a]) w' := by
  obtain ⟨hrun, hapart, hfree⟩ := hstep
  have hissued : M.AllIssued (M.records dir w) := fun s hs r hr => (hlive s hs).issued r hr
  obtain ⟨c, hopens, hindex, evs, -, hevs, hkeep⟩ := hrun.changes hissued
  intro s' hs' r hr hmac
  have hnames : r.name ∈ s'.names := List.mem_map_of_mem hr
  by_cases hold : ∃ s, M.records dir w = some s ∧
      ∃ r₀ ∈ s.sandboxes, r₀.name = r.name ∧ r₀.mechanism = .mac
  · obtain ⟨s, hs, r₀, hr₀, hname₀, hmac₀⟩ := hold
    obtain rfl := hopens.of_records hs
    have hcreates : a.creates r.name = false :=
      hfree s hs r.name (hname₀ ▸ List.mem_map_of_mem hr₀)
    obtain ⟨b, p, hlast, hasked, hholding⟩ := h s hs r₀ hr₀ hmac₀
    rw [hname₀] at hlast hasked hholding
    refine ⟨b, p, by rw [lastCreate_append, hcreates]; exact hlast, hasked, ?_⟩
    refine hholding.of_fileAt fun file hfile => ?_
    by_cases hremoves : ∃ key r₁ s₁, a.command = .rm key ∧ s.remove key = .ok (r₁, s₁) ∧
        r.name = r₁.name
    · obtain ⟨key, r₁, s₁, hcmd, hremove, hname⟩ := hremoves
      exact fileAt_of_rm hcmd hrun hs (hnodup s hs) hs' hnames hremove hname _
    · refine hkeep _ fun ev hev => ?_
      have hplace := @owns_instanceFile M dir _ hmac₀ _ hfile
      rw [← hname₀]
      rcases hevs ev hev with hopening | hcommand
      · exact not_touches_of_openingEvents hplace hopening
      · refine not_touches_instance (hlive s hs) hr₀ hmac₀ hs hapart (by rw [hname₀]; exact hcreates)
          (fun key r₁ s₁ hcmd hremove hname => ?_) hfile hcommand
        exact hremoves ⟨key, r₁, s₁, hcmd, hremove, by rw [← hname₀]; exact hname⟩
  · rcases origin_of_indexStep hindex hs' hr with
      ⟨s, hs, r₀, hr₀, hname₀, hmac₀⟩ | ⟨name, args, p, hcmd, hprep, hname, hkind⟩
    · have hsome : M.records dir w = some s := by
        rcases hopens with hsame | ⟨-, hfirst⟩
        · rw [← hsame, hs]
        · rw [hs] at hfirst
          rw [Option.some.inj hfirst] at hr₀
          cases hr₀
      exact absurd ⟨s, hsome, r₀, hr₀, hname₀, hmac₀.trans hmac⟩ hold
    · have hcreates : a.creates r.name = true := creates_eq_true_iff.mpr ⟨name, args, hcmd, hname.symm⟩
      rw [hname] at hnames hcreates ⊢
      refine ⟨a, p, by rw [lastCreate_append, if_pos hcreates],
        ⟨⟨name, args, hcmd, rfl, hprep⟩, hkind.symm.trans hmac⟩, ?_⟩
      refine holding_of_created hcmd hprep (hkind.symm.trans hmac) hrun (fun s hs hmem => ?_) hs' hnames
      rw [hfree s hs _ hmem] at hcreates
      cases hcreates

theorem instancesKept_of_trace {w₀ w : World} {as : List Invocation} (hw₀ : M.Fresh dir w₀)
    (h : Trace (M.CarefulRuns dir) w₀ as w) : M.InstancesKept dir as w := by
  refine h.invariant (M.InstancesKept dir) ?_ fun as w a w' hrun hkept hstep => ?_
  · intro s hs
    rw [M.records_of_fresh dir hw₀] at hs
    cases hs
  · have hapart : Reach (M.Fresh dir) (M.Runs dir) (M.CreatedApart dir) w :=
      hrun.reach hw₀ fun _ _ _ hlast => ⟨hlast.2.1, hlast.1⟩
    have hwell : Reach (M.EmptyIndex dir) (M.Runs dir) (fun _ _ => True) w :=
      hrun.reach (Or.inl (M.records_of_fresh dir hw₀)) fun _ _ _ hlast => ⟨trivial, hlast.1⟩
    exact instancesKept_runs hkept (liveApart_of_reach hapart)
      (fun s hs => (wellKept_of_reach hwell s hs).distinct) hstep

/-! ## Entering -/

/-- The child of an entry is made of the files the entry finds. -/
theorem child_of_cmdExec {env : ProcessEnv} {name : Option String} {command : List String}
    {w : World} {s : SandboxState} {r : SandboxRecord} (hs : M.store.index w = some s)
    (hget : s.getOrLast name = .ok r) (hmac : r.mechanism = .mac) {profilePath d : PathBuf}
    (hid : MacMechanism.profileOfRuntime r.runtimeId = .ok (profilePath, d)) {c : ChildSpec}
    (hchild : (cmdExec M env name command w).2.children = w.children ++ [c]) :
    ∃ program s', c = enteredChild (env.mechHost M env.inheritedPort) profilePath d program
      (M.store.withIndex s' w) := by
  rw [cmdExec_eq] at hchild
  rcases lookup_cases M.store env.lookupFaults name (execRecord M env command) w with
    ⟨s₁, r₁, hs₁, hget₁, hrun⟩ | ⟨e, hrun⟩
  · obtain rfl := Option.some.inj (hs.symm.trans hs₁)
    obtain rfl := Except.ok.inj (hget.symm.trans hget₁)
    rw [hrun] at hchild
    rcases execRecord_cases M env command hmac hid w with ⟨e, -, hsame⟩ | ⟨s', program, hexec⟩
    · exact absurd (hsame.symm.trans hchild) (RunExec.ne_append_singleton _ _)
    · rw [hexec] at hchild
      exact ⟨program, s', (RunExec.append_singleton_inj hchild).symm⟩
  · rw [hrun] at hchild
    exact absurd hchild (RunExec.ne_append_singleton _ _)

end Machine

/-- The command is an `exec` or a `shell`. -/
def Command.Enters (name : Option String) (cmd : Command) : Prop :=
  (∃ command, cmd = .exec name command) ∨ cmd = .shell name

namespace Machine

variable {M : Machine} {dir : Location}

theorem child_of_entry {env : ProcessEnv} {name : Option String} {cmd : Command}
    (hcmd : cmd.Enters name) {w : World} {s : SandboxState} {r : SandboxRecord}
    (hs : M.store.index w = some s) (hget : s.getOrLast name = .ok r) (hmac : r.mechanism = .mac)
    {profilePath d : PathBuf}
    (hid : MacMechanism.profileOfRuntime r.runtimeId = .ok (profilePath, d)) {c : ChildSpec}
    (hchild : (execute M env cmd w).2.children = w.children ++ [c]) :
    ∃ program s', c = enteredChild (env.mechHost M env.inheritedPort) profilePath d program
      (M.store.withIndex s' w) := by
  rcases hcmd with ⟨command, rfl⟩ | rfl
  · exact child_of_cmdExec hs hget hmac hid hchild
  · rw [execute] at hchild
    rcases cmdShell_cases M env name w with ⟨command, hrun⟩ | ⟨e, hrun⟩
    · rw [hrun] at hchild
      exact child_of_cmdExec hs hget hmac hid hchild
    · rw [hrun] at hchild
      exact absurd hchild (RunExec.ne_append_singleton _ _)

end Machine

/-- The child of an entry `b` into what `a` was asked for: the profile is the one generated
    then, the working directory is that of the request or, where it cannot be read, the
    directory of the entry, and the limits are those of the policy or the default ones. -/
structure EntersRequest (M : Machine) (a b : Invocation) (p : Prepared) (c : ChildSpec) : Prop where
  profile : c.profile =
    some (generateSeatbeltProfile a.env.canonicalize p.request.policy p.request.workdir)
  workdir : c.workdir = if b.env.faults .readWorkdir then osString "." else p.request.workdir
  policy : a.env.faults .writePolicyCopy = false → c.policy = p.request.policy ∨ c.policy = {}
  env : c.env = MacMechanism.proxyEnv (b.env.mechHost M b.env.inheritedPort) c.policy

namespace Machine

variable {M : Machine} {dir : Location}

/-- What the files of an instance give to a child. -/
theorem entersRequest_of_holding {a b : Invocation} {p : Prepared} {name : String} {w : World}
    (h : M.Holding w.fs.cwd w name a p) (hlog : isUtf8 (M.store.logPathFor name) = true)
    {profilePath d : PathBuf}
    (hid : MacMechanism.profileOfRuntime (M.macRuntimeId name) = .ok (profilePath, d))
    (program : List String) :
    EntersRequest M a b p
      (enteredChild (b.env.mechHost M b.env.inheritedPort) profilePath d program w) := by
  have hd : resolve w.fs.cwd d = M.instanceAt w.fs.cwd name := by
    obtain ⟨p', d', hid', hres⟩ := M.exists_profileOfRuntime name
    obtain ⟨-, rfl⟩ := Prod.mk.inj (Except.ok.inj (hid.symm.trans hid'))
    rw [hres, removedAt_of_logPath hlog]
  have hprofile : resolve w.fs.cwd profilePath = M.instanceFile w.fs.cwd name "profile.sb" := by
    rw [resolve_profileOfRuntime hid, removedAt_of_logPath hlog, instanceFile]
  have hcopyAt : resolve w.fs.cwd (join d (osString "policy.yaml")) =
      M.instanceFile w.fs.cwd name "policy.yaml" := resolve_in_instance hd (by decide)
  refine ⟨profileIn_of_fileAt hprofile h.profile, ?_, fun hfault => ?_, List.nil_append _⟩
  · exact workdirIn_of_fileAt _ hd h.displays h.workdir
  · change MacMechanism.policyIn _ d w = _ ∨ MacMechanism.policyIn _ d w = _
    rw [MacMechanism.policyIn, World.readFile]
    split
    · rename_i q hread
      split at hread
      · cases hread
      · have hfile := read_eq_ok_iff.mp hread
        rw [locate, hcopyAt] at hfile
        rcases h.copy hfault with hsame | hnone
        · rw [World.fileAt, hfile] at hsame
          exact Or.inl (FileData.policy.inj (Option.some.inj hsame))
        · rw [World.fileAt, hfile] at hnone
          cases hnone
    · exact Or.inr rfl

end Machine

/-- The processes that lead to `smallRmWorld`. -/
def smallRmRun : List Invocation :=
  [smallCreate .mac "a" "u", smallCreate .mac "b" "v", smallRm "b"]

theorem trace_smallRmWorld :
    Trace (smallMachine.CarefulRuns []) emptyWorld smallRmRun smallRmWorld := by
  have hfirst : smallMachine.CarefulRuns [] emptyWorld (smallCreate .mac "a" "u")
      (smallMachine.after emptyWorld (smallCreate .mac "a" "u")) :=
    Machine.careful_of_fresh fresh_emptyWorld (runs_after _)
  have hsecond : smallMachine.CarefulRuns [] (smallMachine.after emptyWorld
      (smallCreate .mac "a" "u")) (smallCreate .mac "b" "v") (smallMachine.after
      (smallMachine.after emptyWorld (smallCreate .mac "a" "u")) (smallCreate .mac "b" "v")) := by
    refine ⟨runs_after _, fun name args p hcmd _ s hs r hr _ => ?_, fun s hs name hname => ?_⟩
    · injection hcmd with hname _
      rw [records_first] at hs
      obtain rfl := Option.some.inj hs
      rw [← hname, List.mem_singleton.mp hr]
      exact Machine.apart_of_isName (by decide) (by decide) (by decide) _ _
    · rw [records_first] at hs
      obtain rfl := Option.some.inj hs
      rw [List.mem_singleton.mp hname]
      decide
  have hthird : smallMachine.CarefulRuns [] (smallMachine.after (smallMachine.after
      emptyWorld (smallCreate .mac "a" "u")) (smallCreate .mac "b" "v")) (smallRm "b") smallRmWorld := by
    refine ⟨runs_after _, fun name args p hcmd => ?_, fun _ _ _ _ => rfl⟩
    cases hcmd
  exact .next (.next (.next .start hfirst) hsecond) hthird

end SimpleSandbox
