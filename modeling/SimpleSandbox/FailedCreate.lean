import SimpleSandbox.CreatePlan

/-!
# A failed creation of a live name

Only the insertion, the last step of `create`, looks at the live names.  On a live name the
command therefore ends in an error after it has written its files: the sandbox that bears the
name keeps its files exactly if those it gets to write hold what it writes already.
-/

namespace SimpleSandbox

open RustText OsPath FileSystem Effect World

/-! ## The error -/

theorem insert_of_live {st : Store} {w : World} {s : SandboxState} (hs : st.index w = some s)
    {r : SandboxRecord} (hlive : r.name ∈ s.names) (f : Faults) (uuid : String) :
    ∃ e, st.insert f r uuid w = (.error e, w) := by
  rw [Store.insert_eq_modify]
  rcases Store.modify_cases st f (·.insert r uuid) w with ⟨s', r', t, -, hs', hop, -, -⟩ | herror
  · rw [hs] at hs'
    obtain rfl := Option.some.inj hs'
    exact absurd hlive (SandboxState.insert_eq_ok_iff.mp hop).1
  · exact herror

theorem name_of_makeRecord {M : Machine} {env : ProcessEnv} {name : String} {p : Prepared}
    {r : SandboxRecord} {w w' : World} (h : makeRecord M env name p w = (.ok r, w')) :
    r.name = name := by
  obtain ⟨result, w₁, record, -, hrecord, rfl⟩ := makeRecord_eq_ok h
  obtain ⟨hash, -, hrecord⟩ := except_bind_eq_ok hrecord
  rw [← Except.ok.inj hrecord]

/-- On a live name the insertion undoes nothing and adds nothing. -/
theorem createPrepared_of_live {M : Machine} {w : World} {s : SandboxState}
    (hs : M.store.index w = some s) {name : String} (hlive : name ∈ s.names) {p : Prepared}
    (hp : p.Persistent M name) (env : ProcessEnv) :
    ∃ e, createPrepared M env name p w = (.error e, (makeRecord M env name p w).2) := by
  have hindex := index_makeRecord hp env w
  rw [createPrepared_eq]
  rcases hmake : makeRecord M env name p w with ⟨e | r, w₁⟩
  · exact ⟨e, bind_of_error hmake⟩
  · rw [hmake, hs] at hindex
    rw [← name_of_makeRecord hmake] at hlive
    obtain ⟨e, herror⟩ := insert_of_live hindex hlive env.faults env.insertUuid
    refine ⟨.state e, ?_⟩
    rw [bind_of_ok hmake]
    exact bind_of_error (mapError_eq_error_iff.mpr ⟨e, rfl, herror⟩)

/-! ## The files -/

namespace Machine

variable (M : Machine) (dir : Location)

/-- Everything `exec` and `policy get` read of a sandbox is as it was. -/
structure Intact (name : String) (w w' : World) : Prop where
  index : M.records dir w' = M.records dir w
  policy : w'.fileAt (M.store.policyAt dir name) = w.fileAt (M.store.policyAt dir name)
  files : ∀ file ∈ ["profile.sb", "workdir", "policy.yaml"],
    w'.fileAt (M.instanceFile dir name file) = w.fileAt (M.instanceFile dir name file)

/-- The files `create` may write, with what it writes. -/
def createFiles (env : ProcessEnv) (name : String) (req : CreateRequest) :
    List (Location × FileData) :=
  [(M.store.policyAt dir name, .policy req.policy),
   (M.instanceFile dir name "profile.sb",
    .text (generateSeatbeltProfile env.canonicalize req.policy req.workdir)),
   (M.instanceFile dir name "workdir", .text (display req.workdir)),
   (M.instanceFile dir name "policy.yaml", .policy req.policy)]

/-- The directories that opening the state makes. -/
def stateDirs : List (Site × PathBuf) :=
  [(.openRoot, M.root), (.openSandboxes, join M.root (osString "sandboxes")),
   (.openLogs, join M.root (osString "logs")), (.openPolicies, join M.root (osString "policies"))]

/-- Where they are. -/
def dirsAt : List Location := M.stateDirs.map fun d => resolve dir d.2

/-- Each of them can be made, so that a state with an index is opened. -/
def CanOpen (f : Faults) (fs : FileSystem FileData) : Prop :=
  ∀ d ∈ M.stateDirs, FilePlan.makes f fs d.1 (fs.locate d.2) = true

variable {M dir}

theorem mem_createFiles {env : ProcessEnv} {name : String} {p : Prepared} (hp : p.Persistent M name)
    {step : FileStep Site FileData} (hstep : step ∈ createSteps M env name p)
    {e : Location × FileData} (he : e ∈ step.written dir) :
    e ∈ M.createFiles dir env name p.request := by
  have hfile : ∀ {file : String}, IsName (osString file) →
      resolve dir (join (M.mac.instanceDir (env.mechHost M p.proxyPort) p.request.name)
        (osString file)) = M.instanceFile dir name file := by
    intro file hname
    rw [hp.name_eq, M.instanceDir_mac]
    exact M.resolve_instanceFile dir name hname
  have hsingle : ∀ {q : Location} {contents : FileData} {site : Site} {path : PathBuf}
      {required : Bool}, resolve dir path = q →
      e ∈ (FileStep.write site path contents required).written dir → e = (q, contents) := by
    rintro q contents site path required rfl he
    exact List.mem_singleton.mp he
  rcases List.mem_append.mp hstep with hmech | hpolicy
  · unfold mechSteps at hmech
    split at hmech
    · obtain rfl := List.mem_singleton.mp hmech
      exact absurd he List.not_mem_nil
    · obtain rfl := List.mem_singleton.mp hmech
      exact absurd he List.not_mem_nil
    · simp only [MacMechanism.instanceSteps, List.mem_cons] at hmech
      rcases hmech with rfl | rfl | rfl | rfl | hcopy
      · exact absurd he List.not_mem_nil
      · exact absurd he List.not_mem_nil
      · rw [hsingle (hfile (by decide)) he]
        exact .tail _ (.head _)
      · rw [hsingle (hfile (by decide)) he]
        exact .tail _ (.tail _ (.head _))
      · split at hcopy
        · obtain rfl := List.mem_singleton.mp hcopy
          rw [hsingle (hfile (by decide)) he]
          exact .tail _ (.tail _ (.tail _ (.head _)))
        · exact absurd hcopy List.not_mem_nil
    · obtain rfl := List.mem_singleton.mp hmech
      exact absurd he List.not_mem_nil
  · simp only [List.mem_cons, List.not_mem_nil, or_false] at hpolicy
    rcases hpolicy with rfl | rfl | rfl
    · exact absurd he List.not_mem_nil
    · exact absurd he List.not_mem_nil
    · rw [hsingle rfl he]
      exact .head _

theorem policyAt_ne_instanceFile (name : String) {file : String}
    (hfile : (osString file).getLast? ≠ some (.char 'l')) :
    M.store.policyAt dir name ≠ M.instanceFile dir name file := by
  obtain ⟨d, t, hpolicy⟩ := M.store.exists_policyAt dir name
  rw [hpolicy, Machine.instanceFile]
  intro h
  have hlast : t ++ osString ".yaml" = osString file :=
    List.head_eq_of_cons_eq (List.append_inj' h rfl).2
  apply hfile
  rw [← hlast, List.getLast?_append_of_ne_nil _ (by decide)]
  rfl

theorem instanceFile_inj {name file file' : String}
    (h : M.instanceFile dir name file = M.instanceFile dir name file') : file = file' :=
  osString_injective (List.head_eq_of_cons_eq (List.append_inj' h rfl).2)

/-- The two copies of the policy have their own names. -/
theorem eq_of_mem_createFiles {env : ProcessEnv} {name : String} {req : CreateRequest}
    {e e' : Location × FileData} (he : e ∈ M.createFiles dir env name req)
    (he' : e' ∈ M.createFiles dir env name req) (h : e.1 = e'.1) : e.2 = e'.2 := by
  have hprofile : M.store.policyAt dir name ≠ M.instanceFile dir name "profile.sb" :=
    policyAt_ne_instanceFile name (by decide)
  have hworkdir : M.store.policyAt dir name ≠ M.instanceFile dir name "workdir" :=
    policyAt_ne_instanceFile name (by decide)
  simp only [createFiles, List.mem_cons, List.not_mem_nil, or_false] at he he'
  rcases he with rfl | rfl | rfl | rfl
  · rcases he' with rfl | rfl | rfl | rfl
    · rfl
    · exact absurd h hprofile
    · exact absurd h hworkdir
    · rfl
  · rcases he' with rfl | rfl | rfl | rfl
    · exact absurd h.symm hprofile
    · rfl
    · exact absurd (instanceFile_inj h) (by decide)
    · exact absurd (instanceFile_inj h) (by decide)
  · rcases he' with rfl | rfl | rfl | rfl
    · exact absurd h.symm hworkdir
    · exact absurd (instanceFile_inj h) (by decide)
    · rfl
    · exact absurd (instanceFile_inj h) (by decide)
  · rcases he' with rfl | rfl | rfl | rfl
    · rfl
    · exact absurd (instanceFile_inj h) (by decide)
    · exact absurd (instanceFile_inj h) (by decide)
    · rfl

/-- No two steps of a creation write different contents to one place. -/
theorem consistent_createSteps {env : ProcessEnv} {name : String} {p : Prepared}
    (hp : p.Persistent M name) (dir : Location) :
    FilePlan.Consistent dir (createSteps M env name p) :=
  fun _ hstep _ hstep' _ he _ he' =>
    eq_of_mem_createFiles (mem_createFiles hp hstep he) (mem_createFiles hp hstep' he')

/-- Where the files of a creation are. -/
theorem intact_iff {name : String} {w w' : World} (hindex : M.records dir w' = M.records dir w)
    (env : ProcessEnv) (req : CreateRequest) :
    M.Intact dir name w w' ↔
      ∀ r ∈ (M.createFiles dir env name req).map (·.1), w'.fileAt r = w.fileAt r := by
  simp only [createFiles, List.map_cons, List.map_nil, List.mem_cons, List.not_mem_nil, or_false,
    forall_eq_or_imp, forall_eq]
  constructor
  · intro h
    exact ⟨h.policy, h.files _ (by simp), h.files _ (by simp), h.files _ (by simp)⟩
  · rintro ⟨hpolicy, hprofile, hworkdir, hcopy⟩
    refine ⟨hindex, hpolicy, fun file hfile => ?_⟩
    simp only [List.mem_cons, List.not_mem_nil, or_false] at hfile
    rcases hfile with rfl | rfl | rfl
    · exact hprofile
    · exact hworkdir
    · exact hcopy

/-- The files of the sandbox stay as they are exactly if the plan of the creation finds its own
    contents wherever it gets to write. -/
theorem intact_makeRecord_iff {env : ProcessEnv} {name : String} {p : Prepared}
    (hp : p.Persistent M name) {w : World} (hsees : M.Sees dir w.fs.cwd) :
    M.Intact dir name w (makeRecord M env name p w).2 ↔
      ∀ e ∈ FilePlan.performed env.faults w.fs (createSteps M env name p),
        w.fileAt e.1 = some e.2 := by
  have hfs := (follows_makeRecord (w := w) hp env).2
  have hindex : M.records dir (makeRecord M env name p w).2 = M.records dir w := by
    have hcwd : (makeRecord M env name p w).2.fs.cwd = w.fs.cwd := by
      rw [hfs, FilePlan.run_cwd]
    rw [records_eq_index hsees, records_eq_index (by rw [hcwd]; exact hsees), index_makeRecord hp]
  have hfiles : M.createFiles dir env name p.request =
      M.createFiles w.fs.cwd env name p.request := by
    simp only [createFiles, instanceFile, hsees.policyAt_eq, hsees.instanceAt_eq]
  have hmem : ∀ step ∈ createSteps M env name p, ∀ e ∈ step.written w.fs.cwd,
      e ∈ M.createFiles dir env name p.request := by
    intro step hstep e he
    rw [hfiles]
    exact mem_createFiles hp hstep he
  have hlocs : ∀ e ∈ FilePlan.performed env.faults w.fs (createSteps M env name p),
      e.1 ∈ (M.createFiles dir env name p.request).map (·.1) := by
    intro e he
    obtain ⟨step, hstep, hwritten⟩ := FilePlan.exists_of_mem_performed he
    exact List.mem_map_of_mem (hmem step hstep e hwritten)
  rw [intact_iff hindex env p.request]
  simp only [World.fileAt, hfs]
  exact FilePlan.unchanged_iff (consistent_createSteps hp w.fs.cwd) hlocs

theorem Intact.of_fileAt {name : String} {w w₁ w' : World} (hfiles : ∀ r, w₁.fileAt r = w.fileAt r)
    (hindex : M.records dir w₁ = M.records dir w) :
    M.Intact dir name w w' ↔ M.Intact dir name w₁ w' := by
  constructor
  · intro h
    exact ⟨h.index.trans hindex.symm, by rw [h.policy, hfiles],
      fun file hfile => by rw [h.files file hfile, hfiles]⟩
  · intro h
    exact ⟨h.index.trans hindex, by rw [h.policy, hfiles],
      fun file hfile => by rw [h.files file hfile, hfiles]⟩

/-- Opening a root that has an index changes no file. -/
theorem Opened.of_index {w w₁ : World} {s : SandboxState} (h : M.Opened w w₁)
    (hs : M.store.index w = some s) :
    M.store.index w₁ = some s ∧ w₁.fs.cwd = w.fs.cwd ∧ ∀ q, w₁.fileAt q = w.fileAt q := by
  refine ⟨h.index.of_records hs, h.events.cwd_eq rfl, h.files ?_⟩
  intro hnone
  rw [Store.index_of_fileAt_none hnone] at hs
  cases hs

/-- A directory is made on top of others, or cannot be. -/
theorem createDirAll_cases {f : Faults} {fs : FileSystem FileData} {dirs : List Location}
    {w : World} (h : MadeFrom fs dirs w.fs) (site : Site) (p : PathBuf) :
    (FilePlan.makes f fs site (fs.locate p) = true ∧ ∃ w₁,
      (World.createDirAll f site p).mapError StateError.io w = (.ok (), w₁) ∧
      MadeFrom fs (dirs ++ [fs.locate p]) w₁.fs) ∨
    (FilePlan.makes f fs site (fs.locate p) = false ∧ ∃ e,
      (World.createDirAll f site p).mapError StateError.io w = (.error e, w)) := by
  have hlocate : w.fs.locate p = fs.locate p := by rw [locate, locate, h.cwd]
  have hmakes := FilePlan.makes_of_madeFrom (f := f) h site (fs.locate p)
  cases hcase : FilePlan.makes f fs site (fs.locate p) with
  | true =>
    rw [hcase, FilePlan.makes, Bool.and_eq_true, Bool.not_eq_true', Bool.not_eq_true'] at hmakes
    obtain ⟨fs₁, hmake⟩ : ∃ fs₁, w.fs.createDirAll p = .ok fs₁ :=
      ⟨_, createDirAll_eq_ok_iff.mpr ⟨hlocate.symm ▸ hmakes.2, rfl⟩⟩
    refine Or.inl ⟨rfl, { w with fs := fs₁, journal := w.journal ++ [⟨site, w.fs.locate p⟩] },
      mapError_eq_ok_iff.mpr ?_, h.createDirAll hmake⟩
    rw [World.createDirAll, change, if_neg (by rw [hmakes.1]; decide), hmake]
  | false =>
    rw [hcase, FilePlan.makes, Bool.and_eq_false_iff, Bool.not_eq_false', Bool.not_eq_false']
      at hmakes
    have hfails : ∃ e, World.createDirAll f site p w = (.error e, w) := by
      rw [World.createDirAll, change]
      rcases hmakes with hfault | hblocked
      · exact ⟨_, if_pos hfault⟩
      · have hstop : w.fs.createDirAll p = .error .notADirectory := by
          rw [FileSystem.createDirAll, hlocate, hblocked]
          rfl
        split
        · exact ⟨_, rfl⟩
        · exact ⟨_, by rw [hstop]⟩
    obtain ⟨e, he⟩ := hfails
    exact Or.inr ⟨rfl, _, mapError_eq_error_iff.mpr ⟨e, rfl, he⟩⟩

/-- The directories are made in turn, or one of them cannot be. -/
theorem openDirs_cases (M : Machine) (f : Faults) (w : World) :
    (M.CanOpen f w.fs ∧ ∃ w₁, M.store.openDirs f w = (.ok (), w₁) ∧
      MadeFrom w.fs (M.dirsAt w.fs.cwd) w₁.fs) ∨
    (¬ M.CanOpen f w.fs ∧ ∃ e w₁, M.store.openDirs f w = (.error e, w₁)) := by
  have hcannot : ∀ d ∈ M.stateDirs, FilePlan.makes f w.fs d.1 (w.fs.locate d.2) = false →
      ¬ M.CanOpen f w.fs := by
    intro d hd hno hcan
    rw [hcan d hd] at hno
    cases hno
  rw [Store.openDirs]
  rcases createDirAll_cases (f := f) (MadeFrom.refl w.fs) .openRoot M.store.root with
    ⟨hroot, w₁, hrun₁, hmade⟩ | ⟨hno, e, hrun⟩
  swap
  · exact Or.inr ⟨hcannot (.openRoot, M.root) (.head _) hno, e, w, bind_of_error hrun⟩
  rw [bind_of_ok hrun₁]
  rcases createDirAll_cases (f := f) hmade .openSandboxes
    (join M.store.root (osString "sandboxes")) with ⟨hsandboxes, w₂, hrun₂, hmade⟩ | ⟨hno, e, hrun⟩
  swap
  · exact Or.inr ⟨hcannot _ (.tail _ (.head _)) hno, e, w₁, bind_of_error hrun⟩
  rw [bind_of_ok hrun₂]
  rcases createDirAll_cases (f := f) hmade .openLogs (join M.store.root (osString "logs")) with
    ⟨hlogs, w₃, hrun₃, hmade⟩ | ⟨hno, e, hrun⟩
  swap
  · exact Or.inr ⟨hcannot _ (.tail _ (.tail _ (.head _))) hno, e, w₂, bind_of_error hrun⟩
  rw [bind_of_ok hrun₃]
  rcases createDirAll_cases (f := f) hmade .openPolicies
    (join M.store.root (osString "policies")) with ⟨hpolicies, w₄, hrun₄, hmade⟩ | ⟨hno, e, hrun⟩
  swap
  · exact Or.inr ⟨hcannot _ (.tail _ (.tail _ (.tail _ (.head _)))) hno, e, w₃, hrun⟩
  refine Or.inl ⟨?_, w₄, hrun₄, hmade⟩
  simp only [CanOpen, stateDirs, List.forall_mem_cons]
  exact ⟨hroot, hsandboxes, hlogs, hpolicies, List.forall_mem_nil _⟩

/-- Opening a root that has an index does no more. -/
theorem openAt_of_index {f : Faults} {w : World} {s : SandboxState}
    (hs : M.store.index w = some s) :
    (M.CanOpen f w.fs ∧ ∃ w₁, Store.openAt M.root f w = (.ok M.store, w₁) ∧
      MadeFrom w.fs (M.dirsAt w.fs.cwd) w₁.fs) ∨
    (¬ M.CanOpen f w.fs ∧ ∃ e w₁, Store.openAt M.root f w = (.error e, w₁)) := by
  rw [Store.openAt_eq]
  rcases M.openDirs_cases f w with ⟨hcan, w₁, hdirs, hmade⟩ | ⟨hcannot, e, w₁, hdirs⟩
  · refine Or.inl ⟨hcan, w₁, ?_, hmade⟩
    have hindex : M.store.index w₁ = some s :=
      (Store.index_congr hmade.cwd (hmade.files _)).trans hs
    have hthere : w₁.fs.pathExists M.store.indexPath = true := by
      rw [pathExists]
      cases hnode : w₁.fs.node (w₁.fs.locate M.store.indexPath) with
      | some n => rfl
      | none =>
        have hnone : w₁.fileAt (M.store.indexAt w₁.fs.cwd) = none := by
          rw [World.fileAt, FileSystem.fileAt, show w₁.fs.node (M.store.indexAt w₁.fs.cwd) = none
            from hnode]
        rw [Store.index_of_fileAt_none hnone] at hindex
        cases hindex
    have hno : ¬ w₁.fs.pathExists M.store.indexPath = false := by
      rw [hthere]
      decide
    refine (bind_of_ok hdirs).trans ((bind_of_ok (state_apply w₁)).trans ?_)
    rw [show M.store = ⟨M.root⟩ from rfl] at hno
    rw [if_neg hno]
    rfl
  · exact Or.inr ⟨hcannot, e, w₁, bind_of_error hdirs⟩

/-- Once the state is open. -/
theorem cmdCreate_of_live (env : ProcessEnv) {name : Option String} (args : PolicyArgs)
    {w : World} {s : SandboxState} (hsees : M.Sees dir w.fs.cwd) (hs : M.store.index w = some s)
    (hlive : createName name ∈ s.names) :
    (∃ e, (execute M env (.create name args) w).1 = .error e) ∧
    (M.Intact dir (createName name) w (execute M env (.create name args) w).2 ↔
      ∀ p, prepare M env (createName name) args id false [] = .ok p →
        M.HoldsCreated env (createName name) w.fs [] p) := by
  cases hprep : prepare M env (createName name) args id false [] with
  | error e =>
    have hstop : execute M env (.create name args) w = (.error e, w) := by
      rw [execute, cmdCreate, hprep]
      rfl
    rw [hstop]
    refine ⟨⟨_, rfl⟩, fun _ p hno => ?_, fun _ => ⟨rfl, rfl, fun _ _ => rfl⟩⟩
    cases hno
  | ok p =>
    have hp := persistent_of_prepare hprep
    obtain ⟨e, hlast⟩ := createPrepared_of_live hs hlive hp env
    have hstop : execute M env (.create name args) w =
        (.error e, (makeRecord M env (createName name) p w).2) := by
      rw [execute, cmdCreate, hprep]
      exact bind_of_error hlast
    rw [hstop, intact_makeRecord_iff hp hsees]
    have hholds : (∀ e ∈ FilePlan.performed env.faults w.fs (createSteps M env (createName name) p),
        w.fs.fileAt e.1 = some e.2) ↔ M.HoldsCreated env (createName name) w.fs [] p :=
      holdsCreated_iff hp
    simp only [World.fileAt, hholds]
    exact ⟨⟨_, rfl⟩, fun h p' hsame => by rw [← Except.ok.inj hsame]; exact h, fun h => h p rfl⟩

end Machine

/-- **A create of a live name.**  It ends in an error, and the sandbox of that name is intact
    exactly if the command does not get to its files or they hold what it writes: where the
    state can be opened and the request prepared, the files of the instance and then the policy
    file hold the profile, the directory and the policy of the request, as far as the steps
    before them go through. -/
theorem create_live_intact_iff (M : Machine) (dir : Location) (w : World) (s : SandboxState)
    (a : Invocation) (name : Option String) (args : PolicyArgs)
    (hcommand : a.command = .create name args) (hsees : M.Sees dir a.cwd)
    (hs : M.records dir w = some s) (hlive : createName name ∈ s.names) :
    (∃ e, (ssbx M a.env a.command (w.enter a.cwd)).1 = .error e) ∧
    (M.Intact dir (createName name) w (ssbx M a.env a.command (w.enter a.cwd)).2 ↔
      (M.CanOpen a.env.faults (w.enter a.cwd).fs →
        ∀ p, prepare M a.env (createName name) args id false [] = .ok p →
          M.HoldsCreated a.env (createName name) (w.enter a.cwd).fs (M.dirsAt a.cwd) p)) := by
  rw [hcommand]
  have hs₀ : M.store.index (w.enter a.cwd) = some s :=
    (hsees.records_enter w).symm.trans hs
  have hopened := Machine.opened_openAt (M := M) a.env.faults (w.enter a.cwd)
  rcases hopen : Store.openAt M.root a.env.faults (w.enter a.cwd) with ⟨r, w₁⟩
  have hcases := Machine.openAt_of_index (f := a.env.faults) hs₀
  rw [hopen] at hopened hcases
  obtain ⟨hs₁, hcwd, hsame⟩ := hopened.of_index hs₀
  have hfiles : ∀ q, w₁.fileAt q = w.fileAt q := by
    intro q
    rw [hsame, enter_fileAt]
  have hsees₁ : M.Sees dir w₁.fs.cwd := by
    rw [hcwd]
    exact hsees
  have hindex : M.records dir w₁ = M.records dir w := by
    rw [Machine.records_eq_index hsees₁, hs₁, hs]
  rw [Machine.Intact.of_fileAt hfiles hindex]
  rcases hcases with ⟨hcan, w₁', heq, hmade⟩ | ⟨hcannot, e, w₁', heq⟩
  · obtain ⟨rfl, rfl⟩ := Prod.mk.inj heq
    rw [Machine.ssbx_of_opened hopen]
    obtain ⟨herror, hintact⟩ := Machine.cmdCreate_of_live a.env args hsees₁ hs₁ hlive
    refine ⟨herror, hintact.trans ⟨fun h _ p hprep => ?_, fun h p hprep => ?_⟩⟩
    · exact (Machine.holdsCreated_of_madeFrom hmade).mp (h p hprep)
    · exact (Machine.holdsCreated_of_madeFrom hmade).mpr (h hcan p hprep)
  · obtain ⟨rfl, rfl⟩ := Prod.mk.inj heq
    rw [Machine.ssbx_of_not_opened hopen]
    exact ⟨⟨_, rfl⟩, fun _ hcan => absurd hcan hcannot, fun _ => ⟨rfl, rfl, fun _ _ => rfl⟩⟩

/-- The host after `create --name a --mechanism mac`. -/
def firstWorld : World := smallMachine.after emptyWorld (smallCreate .mac "a" "u")

/-- The request of `create --name a --mechanism mac`. -/
def macPrepared : Prepared where
  kind := .mac
  request := {
    name := "a", policy := { mechanism := some .mac }, workdir := osString "/w", ephemeral := false
    command := [], env := [] }
  proxyPort := none

theorem holdsCreated_firstWorld : smallMachine.HoldsCreated (smallEnv "v") "a"
    (firstWorld.enter []).fs (smallMachine.dirsAt []) macPrepared :=
  ⟨fun _ _ _ => ⟨rfl, fun _ => ⟨rfl, fun _ _ => rfl⟩⟩, fun _ => rfl⟩

/-- The same creation once more writes what is there. -/
theorem create_again_intact :
    smallMachine.Intact [] "a" firstWorld
      (smallMachine.after firstWorld (smallCreate .mac "a" "v")) := by
  refine (create_live_intact_iff smallMachine [] firstWorld _ (smallCreate .mac "a" "v") (some "a")
    { mechanism := some .mac } rfl (Or.inl rfl) records_first (by decide)).2.mpr fun _ p hprep => ?_
  have hrequest : prepare smallMachine (smallEnv "v") "a" { mechanism := some .mac } id false [] =
      .ok macPrepared := rfl
  obtain rfl : p = macPrepared := Except.ok.inj (hprep.symm.trans hrequest)
  exact holdsCreated_firstWorld

/-- `ssbx create --name a --mechanism mac --memory 1G` -/
def createSmaller : Invocation where
  command := .create (some "a") { mechanism := some .mac, memory := some "1G" }
  env := smallEnv "v"
  cwd := []

/-- A create that is refused because the name is live has replaced the policy of the sandbox. -/
theorem refused_create_replaces_policy :
    Reach (smallMachine.Fresh []) (smallMachine.Runs []) (fun _ _ => True) firstWorld ∧
    (ssbx smallMachine createSmaller.env createSmaller.command (firstWorld.enter [])).1 =
      .error (.state (.alreadyExists "a")) ∧
    ¬ smallMachine.Intact [] "a" firstWorld (smallMachine.after firstWorld createSmaller) := by
  refine ⟨.next (.start fresh_emptyWorld) trivial (runs_after _), by decide, fun h => ?_⟩
  exact absurd h.policy (by decide)

end SimpleSandbox
