import SimpleSandbox.Runtimes

/-!
# Orphaned runtimes

`create` makes the runtime before it writes the policy and the record, and `rm` takes the
record out before it deletes the runtime; neither undoes its first half when the second
fails.  Where no create stops between the two, and every `rm` that takes a record out also
deletes what the record names, every runtime is named by a record at all times.
-/

namespace SimpleSandbox

open RustText OsPath FileSystem Effect World

namespace Machine

variable (M : Machine) (dir : Location)

/-- Some record names the runtime. -/
def Referenced (dir : Location) (s : SandboxState) (x : Runtime) : Prop :=
  ∃ r ∈ s.sandboxes, x.namedBy dir r.mechanism r.runtimeId

/-- Every one of the runtimes is named by a record of the index. -/
def AllReferenced (dir : Location) (xs : List Runtime) (c : Option SandboxState) : Prop :=
  ∀ x ∈ xs, ∃ s, c = some s ∧ Referenced dir s x

/-- No runtime of the host is out of the reach of `rm`. -/
def NoOrphans (w : World) : Prop := AllReferenced dir w.runtimes (M.records dir w)

/-- A creation makes nothing, or makes an instance that stands already, or completes. -/
def CreationKept (env : ProcessEnv) (name : String) (p : Prepared) (w : World) : Prop :=
  M.makesRuntime env p w = false ∨
  (p.kind = .mac ∧ M.instanceAt w.fs.cwd name ∈ w.instances) ∨
  M.completes env name p w = true

/-- The removal of a runtime id deletes what it names, or another record names it too. -/
def RemovalKept (env : ProcessEnv) (r : SandboxRecord) (s' : SandboxState) (w : World) : Prop :=
  if r.mechanism = .mac then
    ∀ p d, MacMechanism.profileOfRuntime r.runtimeId = .ok (p, d) →
      ¬ resolve dir d <+: M.store.indexAt dir ∧
      ((env.faults .removeInstance = false ∧ w.fs.node (resolve dir d) = some .dir) ∨
        resolve dir d ∉ w.instances ∨ Referenced dir s' (.inst (resolve dir d)))
  else
    PodmanMechanism.answers {} (env.mechHost M env.inheritedPort) r.runtimeId = true ∧
    ∀ c ∈ w.containers, c.answersTo r.runtimeId = true →
      PodmanMechanism.deletes (env.mechHost M env.inheritedPort) r.runtimeId c = true ∨
      Referenced dir s' (.container c)

/-- The condition on one process: what it makes is recorded, what it unlists is deleted. -/
def KeepsRuntimes (w : World) (a : Invocation) : Prop :=
  ∀ st w₁, Store.openAt M.root a.env.faults (w.enter a.cwd) = (.ok st, w₁) →
    (∀ name args p, a.command = .create name args →
      prepare M a.env (createName name) args id false [] = .ok p →
      M.CreationKept a.env (createName name) p w₁) ∧
    (∀ key s r s', a.command = .rm key → a.env.faults .loadIndex = false →
      M.store.index w₁ = some s → s.remove key = .ok (r, s') →
      M.store.saves a.env.faults s' w₁ = true → M.RemovalKept dir a.env r s' w₁)

variable {M dir}

/-! ## Records that stay -/

/-- A host without an index has no runtime that is referenced. -/
theorem AllReferenced.opens {xs : List Runtime} {c c₁ : Option SandboxState}
    (h : AllReferenced dir xs c) (hopens : Opens c c₁) : AllReferenced dir xs c₁ := by
  intro x hx
  obtain ⟨s, hs, href⟩ := h x hx
  exact ⟨s, hopens.of_records hs, href⟩

theorem AllReferenced.created {xs : List Runtime} {s s' : SandboxState}
    (h : AllReferenced dir xs (some s)) {env : ProcessEnv} {name : String} {p : Prepared}
    (hcreated : Created M env name p s s') : AllReferenced dir xs (some s') := by
  obtain ⟨r', hmem, -⟩ := hcreated.mem_iff
  intro x hx
  obtain ⟨t, ht, r, hr, hnamed⟩ := h x hx
  obtain rfl := Option.some.inj ht
  exact ⟨_, rfl, r, (hmem r).mpr (Or.inl hr), hnamed⟩

/-- Only `rm` takes a runtime id out of the index. -/
theorem AllReferenced.indexStep {xs : List Runtime} {c c' : Option SandboxState}
    (h : AllReferenced dir xs c) {env : ProcessEnv} {cwd : Location} {cmd : Command}
    (hstep : IndexStep M env cwd cmd c c') (hrm : ∀ key, cmd ≠ .rm key) :
    AllReferenced dir xs c' := by
  cases hstep with
  | keep => exact h
  | create hp hcreated => exact h.created hcreated
  | touch =>
    intro x hx
    obtain ⟨s, hs, href⟩ := h x hx
    obtain rfl := Option.some.inj hs
    exact ⟨_, rfl, href⟩
  | update _ hupdate =>
    obtain ⟨-, rfl⟩ := SandboxState.updatePolicy_eq_ok_iff.mp hupdate
    intro x hx
    obtain ⟨s, hs, r, hr, hnamed⟩ := h x hx
    obtain rfl := Option.some.inj hs
    rcases SandboxState.mem_modifyNamed_of_mem hr with hkeep | hhash
    · exact ⟨_, rfl, r, hkeep, hnamed⟩
    · exact ⟨_, rfl, _, hhash, hnamed⟩
  | remove => exact absurd rfl (hrm _)
  | lose => exact absurd rfl (hrm _)

/-! ## Creating -/

/-- The runtime of a creation that completes is named by the record it inserts. -/
theorem referenced_of_completes {env : ProcessEnv} {name : String} {p : Prepared} {w : World}
    (hp : p.Persistent M name) (hsees : M.Sees dir w.fs.cwd)
    (hdone : M.completes env name p w = true) {x : Runtime}
    (hx : (p.kind = .mac ∧ x = .inst (M.instanceAt w.fs.cwd name)) ∨
      (p.kind = .podman ∧ ∀ result w',
        mechCreate M (env.mechHost M p.proxyPort) p.kind p.request w = (.ok result, w') →
        x.namedBy dir p.kind result.runtimeId)) :
    ∃ s, M.store.index (createPrepared M env name p w).2 = some s ∧ Referenced dir s x := by
  obtain ⟨result, w', s, r, hresult, -, hs, hr, hkind, hid, hlog⟩ := createPrepared_of_completes hp hdone
  refine ⟨s, hs, r, hr, ?_⟩
  rw [hkind, hid]
  rcases hx with ⟨hmac, rfl⟩ | ⟨-, hnamed⟩
  · obtain ⟨path, d, hprofile, hres⟩ := M.exists_profileOfRuntime name
    rw [runtimeId_of_mechCreate hp hmac ⟨w, w', hresult⟩]
    refine ⟨hmac, path, d, hprofile, ?_⟩
    rw [hres, removedAt_of_logPath hlog, hsees.instanceAt_eq]
  · exact hnamed result w' hresult

theorem allReferenced_createPrepared {env : ProcessEnv} {name : String} {p : Prepared} {w : World}
    (hp : p.Persistent M name) (hsees : M.Sees dir w.fs.cwd)
    (hkept : M.CreationKept env name p w) (h : AllReferenced dir w.runtimes (M.store.index w)) :
    AllReferenced dir (createPrepared M env name p w).2.runtimes
      (M.store.index (createPrepared M env name p w).2) ∧
    ∀ e, (createPrepared M env name p w).1 = .error e →
      ∀ x ∈ (createPrepared M env name p w).2.runtimes, x ∈ w.runtimes := by
  have hcarried : AllReferenced dir w.runtimes (M.store.index (createPrepared M env name p w).2) := by
    rcases moves_createPrepared hp env w with hsame | ⟨s, s', hs, hcreated, hs'⟩
    · rw [hsame]
      exact h
    · rw [hs] at h
      rw [hs']
      exact h.created hcreated
  -- a runtime that was not there is the one the mechanism made, and the creation completes
  have hcases : ∀ x ∈ (createPrepared M env name p w).2.runtimes, x ∈ w.runtimes ∨
      (M.completes env name p w = true ∧
        ((p.kind = .mac ∧ x = .inst (M.instanceAt w.fs.cwd name)) ∨
         (p.kind = .podman ∧ ∀ result w',
          mechCreate M (env.mechHost M p.proxyPort) p.kind p.request w = (.ok result, w') →
          x.namedBy dir p.kind result.runtimeId))) := by
    intro x hx
    rw [runtimes_createPrepared] at hx
    rcases mem_runtimes_mechCreate hp dir hx with hold | ⟨hmakes, hnew⟩
    · exact Or.inl hold
    · rcases hkept with hnone | ⟨hmac, hstands⟩ | hdone
      · rw [hmakes] at hnone
        exact nomatch hnone
      · rcases hnew with ⟨-, rfl⟩ | ⟨hpodman, -⟩
        · exact Or.inl (inst_mem_runtimes.mpr hstands)
        · rw [hmac] at hpodman
          exact nomatch hpodman
      · exact Or.inr ⟨hdone, hnew⟩
  constructor
  · intro x hx
    rcases hcases x hx with hold | ⟨hdone, hnew⟩
    · exact hcarried x hold
    · exact referenced_of_completes hp hsees hdone hnew
  · intro e herror x hx
    rcases hcases x hx with hold | ⟨hdone, -⟩
    · exact hold
    · obtain ⟨-, -, -, -, -, hok, -⟩ := createPrepared_of_completes hp hdone
      rw [hok] at herror
      exact nomatch herror

/-! ## Removing -/

/-- The store has no runtimes of its own. -/
theorem runtimes_unlisted (f : Faults) (name : String) (s : SandboxState) (w : World) :
    (M.store.dropPolicy f name (M.store.withIndex s w)).runtimes = w.runtimes := by
  have hindex : SameRuntimes w (M.store.withIndex s w) := by
    rw [SameRuntimes, runtimes, Store.withIndex, Store.put, instances_applied]
    rfl
  exact sameRuntimes_trans hindex (quiet_change f rfl _ _ _)

/-- The condition holds when `rm` calls the mechanism if it held before. -/
theorem RemovalKept.unlisted {env : ProcessEnv} {r : SandboxRecord} {s' : SandboxState} {w : World}
    (hkept : M.RemovalKept dir env r s' w) (hsees : M.Sees dir w.fs.cwd) (f : Faults) (name : String)
    (s : SandboxState) :
    M.RemovalKept dir env r s' (M.store.dropPolicy f name (M.store.withIndex s w)) := by
  have hsame := M.runtimes_unlisted f name s w
  unfold RemovalKept at *
  split
  · rename_i hmac
    rw [if_pos hmac] at hkept
    intro p d hid
    obtain ⟨hout, hcases⟩ := hkept p d hid
    refine ⟨hout, hcases.imp (fun ⟨hoff, hdir⟩ => ⟨hoff, ?_⟩) (Or.imp_left fun hno hin => hno ?_)⟩
    · apply node_dropPolicy_withIndex hdir
      rw [hsees.indexAt_eq]
      intro heq
      exact hout (heq ▸ List.prefix_refl _)
    · rw [← inst_mem_runtimes, hsame] at hin
      exact inst_mem_runtimes.mp hin
  · rename_i hpodman
    rw [if_neg hpodman] at hkept
    refine ⟨hkept.1, fun c hc => hkept.2 c ?_⟩
    rw [← container_mem_runtimes, hsame] at hc
    exact container_mem_runtimes.mp hc

/-- The mechanism deletes what the record names. -/
theorem mechRemove_of_kept {env : ProcessEnv} {r : SandboxRecord} {s' : SandboxState} {w : World}
    (hissued : M.Issued r) (hsees : M.Sees dir w.fs.cwd) (hkept : M.RemovalKept dir env r s' w) :
    ∃ w', mechRemove M (env.mechHost M env.inheritedPort) r.mechanism r.runtimeId w = (.ok (), w') ∧
      M.store.index w' = M.store.index w ∧
      ∀ x ∈ w'.runtimes, x ∈ w.runtimes ∧
        (x.namedBy dir r.mechanism r.runtimeId → Referenced dir s' x) := by
  unfold RemovalKept at hkept
  rcases hissued.kind with hpodman | hmac
  · rw [if_neg (by rw [hpodman]; decide)] at hkept
    have hrun : mechRemove M (env.mechHost M env.inheritedPort) r.mechanism r.runtimeId w =
        PodmanMechanism.remove {} (env.mechHost M env.inheritedPort) r.runtimeId w := by
      rw [mechRemove, hpodman]
      rfl
    rw [hrun, podmanRemove_of_answers hkept.1]
    refine ⟨_, rfl, rfl, fun x hx => ?_⟩
    cases x with
    | container c =>
      obtain ⟨hc, hstays⟩ := List.mem_filter.mp (container_mem_runtimes.mp hx)
      refine ⟨container_mem_runtimes.mpr hc, fun ⟨_, hanswers⟩ => ?_⟩
      rcases hkept.2 c hc hanswers with hdeleted | href
      · rw [hdeleted] at hstays
        exact nomatch hstays
      · exact href
    | inst q =>
      have hq := inst_mem_runtimes.mp hx
      refine ⟨inst_mem_runtimes.mpr hq, fun ⟨hkind, _⟩ => ?_⟩
      rw [hpodman] at hkind
      exact nomatch hkind
  · rw [if_pos hmac] at hkept
    obtain ⟨p, d, hid, hres⟩ := M.exists_profileOfRuntime r.name
    rw [← hissued.runtimeId hmac] at hid
    obtain ⟨hout, hcases⟩ := hkept p d hid
    have hplace : resolve w.fs.cwd d = resolve dir d := by
      rw [hres, hres, hsees.removedAt_eq]
    have hrun : mechRemove M (env.mechHost M env.inheritedPort) r.mechanism r.runtimeId w =
        MacMechanism.remove (env.mechHost M env.inheritedPort) r.runtimeId w := by
      rw [mechRemove, hmac]
      rfl
    rw [hrun]
    refine ⟨(MacMechanism.remove (env.mechHost M env.inheritedPort) r.runtimeId w).2, ?_, ?_, ?_⟩
    · rw [macRemove_of_ok _ hid]
    · rcases index_macRemove M.store (env.mechHost M env.inheritedPort) r.runtimeId w with
        hsame | ⟨⟨ev, ⟨p', d', hid', rfl⟩, htouch⟩, -⟩
      · exact hsame
      · rw [hid] at hid'
        obtain ⟨-, rfl⟩ := Prod.mk.inj (Except.ok.inj hid')
        refine absurd ?_ hout
        rw [← hplace, ← hsees.indexAt_eq]
        exact htouch
    · intro x hx
      obtain ⟨hold, hgone⟩ := macRemove_runtimes _ hid hx
      refine ⟨hold, fun hnamed => ?_⟩
      cases x with
      | container c =>
        rw [hmac] at hnamed
        exact nomatch hnamed.1
      | inst q =>
        obtain ⟨-, p', d', hid', rfl⟩ := hnamed
        rw [hid] at hid'
        obtain ⟨-, rfl⟩ := Prod.mk.inj (Except.ok.inj hid')
        rw [hplace] at hgone
        rcases hcases with ⟨hoff, hdir⟩ | hno | href
        · exact absurd rfl (hgone hoff hdir)
        · exact absurd (inst_mem_runtimes.mp hold) hno
        · exact href

theorem allReferenced_cmdRm {env : ProcessEnv} {key : String} {w : World}
    (hsees : M.Sees dir w.fs.cwd) (hissued : M.AllIssued (M.store.index w))
    (hkept : ∀ s r s', env.faults .loadIndex = false → M.store.index w = some s →
      s.remove key = .ok (r, s') → M.store.saves env.faults s' w = true →
      M.RemovalKept dir env r s' w)
    (h : AllReferenced dir w.runtimes (M.store.index w)) :
    AllReferenced dir (cmdRm M env key w).2.runtimes (M.store.index (cmdRm M env key w).2) ∧
    ∀ e, (cmdRm M env key w).1 = .error e →
      M.store.index (cmdRm M env key w).2 = M.store.index w := by
  rcases cmdRm_cases M env key w with ⟨s, r, s', hf, hs, hremove, hsave, hrun⟩ | ⟨e, hrun⟩
  · have hr := hissued s hs r (SandboxState.mem_of_remove hremove)
    have hkept₁ := (hkept s r s' hf hs hremove hsave).unlisted hsees env.faults r.name s'
    have hsame := M.runtimes_unlisted env.faults r.name s' w
    generalize hw₁ : M.store.dropPolicy env.faults r.name (M.store.withIndex s' w) = w₁ at *
    have hcwd : w₁.fs.cwd = w.fs.cwd := by
      rw [← hw₁]
      exact (M.store.extends_dropPolicy env.faults r.name _ w.fs.cwd).cwd_eq rfl
    have hindex : M.store.index w₁ = some s' := by
      rw [← hw₁, Store.index_dropPolicy, Store.index_withIndex]
    obtain ⟨w', hmech, hindex', hruntimes⟩ := mechRemove_of_kept hr (by rw [hcwd]; exact hsees) hkept₁
    rw [hrun, mapError_eq_ok_iff.mpr hmech]
    refine ⟨fun x hx => ?_, fun e herror => nomatch herror⟩
    obtain ⟨hold, hnamed⟩ := hruntimes x hx
    rw [hsame] at hold
    obtain ⟨t, ht, r₀, hr₀, hr₀named⟩ := h x hold
    obtain rfl : s = t := Option.some.inj (hs.symm.trans ht)
    refine ⟨s', by rw [hindex', hindex], ?_⟩
    by_cases heq : r₀ = r
    · rw [heq] at hr₀named
      exact hnamed hr₀named
    · exact ⟨r₀, SandboxState.mem_of_remove_of_ne hremove hr₀ heq, hr₀named⟩
  · rw [hrun]
    exact ⟨h, fun _ _ => rfl⟩

/-! ## Runs -/

/-- What a command is to keep: the references, and its own promise if it fails. -/
structure Keeps (dir : Location) (cmd : Command) (w : World) (result : Except CliError ℕ × World) :
    Prop where
  referenced : AllReferenced dir result.2.runtimes (M.store.index result.2)
  removing : ∀ key e, cmd = .rm key → result.1 = .error e →
    M.store.index result.2 = M.store.index w
  creating : ∀ name args e, cmd = .create name args → result.1 = .error e →
    ∀ x ∈ result.2.runtimes, x ∈ w.runtimes

theorem keeps_execute {env : ProcessEnv} {cmd : Command} {w : World} (hsees : M.Sees dir w.fs.cwd)
    (hissued : M.AllIssued (M.store.index w))
    (hcreate : ∀ name args p, cmd = .create name args →
      prepare M env (createName name) args id false [] = .ok p →
      M.CreationKept env (createName name) p w)
    (hrm : ∀ key s r s', cmd = .rm key → env.faults .loadIndex = false →
      M.store.index w = some s → s.remove key = .ok (r, s') →
      M.store.saves env.faults s' w = true → M.RemovalKept dir env r s' w)
    (h : AllReferenced dir w.runtimes (M.store.index w)) :
    M.Keeps dir cmd w (execute M env cmd w) := by
  by_cases hquiet : cmd.quiet = true
  · have hsame : (execute M env cmd w).2.runtimes = w.runtimes := quiet_execute M env hquiet w
    refine ⟨?_, fun key e hcmd => ?_, fun name args e hcmd => ?_⟩
    · rw [hsame]
      apply h.indexStep (indexStep_execute M env cmd w)
      rintro key rfl
      exact absurd hquiet Bool.false_ne_true
    · rw [hcmd] at hquiet
      exact absurd hquiet Bool.false_ne_true
    · rw [hcmd] at hquiet
      exact absurd hquiet Bool.false_ne_true
  cases cmd with
  | create name args =>
    have hcmd : M.Keeps dir (.create name args) w
        ((cmdCreate M env name args >>= fun _ => pure 0) w) := by
      cases hprep : prepare M env (createName name) args id false [] with
      | error e =>
        have hstop : cmdCreate M env name args w = (.error e, w) := by
          rw [cmdCreate, hprep]
          rfl
        rw [bind_of_error hstop]
        exact ⟨h, fun _ _ hno => (by cases hno), fun _ _ _ _ _ _ hx => hx⟩
      | ok p =>
        obtain ⟨hall, hfail⟩ := allReferenced_createPrepared (persistent_of_prepare hprep) hsees
          (hcreate name args p rfl hprep) h
        have hrun : cmdCreate M env name args = createPrepared M env (createName name) p := by
          rw [cmdCreate, hprep]
          rfl
        rw [hrun]
        refine ⟨?_, fun _ _ hno => (by cases hno), fun _ _ e _ herror => ?_⟩
        · rw [bind_pure_snd]
          exact hall
        · rw [bind_pure_snd]
          exact hfail e (error_of_bind_pure herror)
    exact hcmd
  | rm key =>
    obtain ⟨hall, hfail⟩ := allReferenced_cmdRm hsees hissued (fun s r s' => hrm key s r s' rfl) h
    rw [execute]
    refine ⟨?_, fun _ e _ herror => ?_, fun _ _ _ hno => by cases hno⟩
    · rw [bind_pure_snd]
      exact hall
    · rw [bind_pure_snd]
      exact hfail e (error_of_bind_pure herror)
  | _ => exact absurd rfl hquiet

/-- One process of a run. -/
theorem noOrphans_runs {w w' : World} {a : Invocation} (hissued : M.AllIssued (M.records dir w))
    (hok : M.KeepsRuntimes dir w a) (h : M.NoOrphans dir w) (hstep : M.Runs dir w a w') :
    M.NoOrphans dir w' ∧ ∀ e, (ssbx M a.env a.command (w.enter a.cwd)).1 = .error e →
      (∀ key s, a.command = .rm key → M.records dir w = some s → M.records dir w' = some s) ∧
      ∀ name args, a.command = .create name args → ∀ x ∈ w'.runtimes, x ∈ w.runtimes := by
  obtain ⟨hsees, rfl⟩ := hstep
  have hbefore := hsees.records_enter w
  have hafter := Sees.records_ssbx (w := w.enter a.cwd) hsees a.env a.command
  rw [NoOrphans, hafter]
  have hopened := opened_openAt (M := M) a.env.faults (w.enter a.cwd)
  have hruntimes : (Store.openAt M.root a.env.faults (w.enter a.cwd)).2.runtimes = w.runtimes :=
    quiet_openAt M.root a.env.faults (w.enter a.cwd)
  rcases hopen : Store.openAt M.root a.env.faults (w.enter a.cwd) with ⟨r, w₁⟩
  rw [hopen] at hopened hruntimes
  have hopens : Opens (M.records dir w) (M.store.index w₁) := by
    rw [hbefore]
    exact hopened.index
  have hfirst : AllReferenced dir w₁.runtimes (M.store.index w₁) := by
    rw [hruntimes]
    exact AllReferenced.opens h hopens
  cases r with
  | error e =>
    rw [ssbx_of_not_opened hopen]
    refine ⟨hfirst, fun _ _ => ⟨fun _ s _ hs => hopens.of_records hs, fun _ _ _ x hx => ?_⟩⟩
    rw [← hruntimes]
    exact hx
  | ok st =>
    obtain ⟨hcreate, hrm⟩ := hok st w₁ hopen
    have hsees₁ : M.Sees dir w₁.fs.cwd := by
      rw [hopened.events.cwd_eq rfl]
      exact hsees
    have hkeeps : M.Keeps dir a.command w₁ (execute M a.env a.command w₁) :=
      keeps_execute hsees₁ (hopens.all hissued) hcreate hrm hfirst
    rw [ssbx_of_opened hopen]
    refine ⟨hkeeps.referenced, fun e herror => ⟨fun key s hcmd hs => ?_, fun name args hcmd x hx => ?_⟩⟩
    · rw [hkeeps.removing key e hcmd herror]
      exact hopens.of_records hs
    · rw [← hruntimes]
      exact hkeeps.creating name args e hcmd herror x hx

end Machine

/-- **No orphans.**  Where every create that makes a runtime records it and every rm that takes
    a record out deletes what it names, every runtime is named by a record.  A failing rm then
    leaves its record listed, and a failing create leaves no runtime that was not there. -/
theorem no_orphans (M : Machine) (dir : Location) (w : World)
    (h : Reach (M.Fresh dir) (M.Runs dir) (M.KeepsRuntimes dir) w) :
    M.NoOrphans dir w ∧ ∀ a w', M.KeepsRuntimes dir w a → M.Runs dir w a w' →
      ∀ e, (ssbx M a.env a.command (w.enter a.cwd)).1 = .error e →
        (∀ key s, a.command = .rm key → M.records dir w = some s → M.records dir w' = some s) ∧
        ∀ name args, a.command = .create name args → ∀ x ∈ w'.runtimes, x ∈ w.runtimes := by
  have hinv : M.AllIssued (M.records dir w) ∧ M.NoOrphans dir w := by
    refine Reach.invariant (fun w => M.AllIssued (M.records dir w) ∧ M.NoOrphans dir w) ?_ ?_ h
    · intro w hw
      refine ⟨Machine.allIssued_of_fresh hw, fun x hx => ?_⟩
      rw [runtimes, instances, hw.containers, hw.journal] at hx
      exact absurd hx List.not_mem_nil
    · rintro w a w' ⟨hissued, hnone⟩ hok hstep
      exact ⟨Machine.allIssued_runs hissued hstep,
        (Machine.noOrphans_runs hissued hok hnone hstep).1⟩
  exact ⟨hinv.2, fun a w' hok hstep => (Machine.noOrphans_runs hinv.1 hok hinv.2 hstep).2⟩

/-- A create whose every step goes through. -/
theorem keepsRuntimes_smallCreate {kind : MechanismKind} {name uuid : String} {w : World}
    (h : smallCompletes kind name uuid w = true) :
    smallMachine.KeepsRuntimes [] w (smallCreate kind name uuid) := by
  intro st w₁ hopen
  refine ⟨fun name' args p hcmd hprep => ?_, fun _ _ _ _ hno => nomatch hno⟩
  exact Or.inr (Or.inr (completes_of_small h hcmd hprep hopen))

/-- An rm that deletes what its record names. -/
theorem keepsRuntimes_smallRm {key : String} {w : World} {s s' : SandboxState} {r : SandboxRecord}
    (hs : smallMachine.store.index
      (Store.openAt smallMachine.root noFaults (w.enter [])).2 = some s)
    (hremove : s.remove key = .ok (r, s'))
    (hkept : smallMachine.RemovalKept [] (smallEnv "") r s'
      (Store.openAt smallMachine.root noFaults (w.enter [])).2) :
    smallMachine.KeepsRuntimes [] w (smallRm key) := by
  intro st w₁ hopen
  refine ⟨fun _ _ _ hno => (nomatch hno), fun key' s₁ r₁ s₁' hcmd _ hs₁ hremove₁ _ => ?_⟩
  obtain rfl := Command.rm.inj hcmd
  have hw₁ : (Store.openAt smallMachine.root noFaults (w.enter [])).2 = w₁ := congrArg Prod.snd hopen
  rw [hw₁] at hs hkept
  obtain rfl := Option.some.inj (hs.symm.trans hs₁)
  obtain ⟨rfl, rfl⟩ := Prod.mk.inj (Except.ok.inj (hremove.symm.trans hremove₁))
  exact hkept

/-- `create --name a --mechanism mac`, `create --name b --mechanism podman` and `rm b` -/
def removedWorld : World :=
  smallMachine.after (smallMachine.after (smallMachine.after emptyWorld (smallCreate .mac "a" "u"))
    (smallCreate .podman "b" "v")) (smallRm "b")

/-- The rm takes the container of `b` away with its record. -/
theorem keepsRuntimes_removed :
    smallMachine.KeepsRuntimes [] (smallMachine.after
      (smallMachine.after emptyWorld (smallCreate .mac "a" "u")) (smallCreate .podman "b" "v"))
      (smallRm "b") := by
  refine keepsRuntimes_smallRm rfl rfl ⟨rfl, fun c hc _ => Or.inl ?_⟩
  have hcontainers : ∀ c ∈ (Store.openAt smallMachine.root noFaults ((smallMachine.after
      (smallMachine.after emptyWorld (smallCreate .mac "a" "u"))
      (smallCreate .podman "b" "v")).enter [])).2.containers,
      PodmanMechanism.deletes ((smallEnv "").mechHost smallMachine none) "c0ffee" c = true := by
    decide
  exact hcontainers c hc

theorem two_runtimes_referenced : smallMachine.NoOrphans [] removedWorld :=
  (no_orphans smallMachine [] _
    (.next (.next (.next (.start fresh_emptyWorld)
      (keepsRuntimes_smallCreate (by decide)) (runs_after _))
      (keepsRuntimes_smallCreate (by decide)) (runs_after _))
      keepsRuntimes_removed (runs_after _))).1

/-- `ssbx rm b`, while the engine cannot be started -/
def rmWithoutEngine : Invocation where
  command := .rm "b"
  env := { smallEnv "" with engine := { readyEngine with rm := fun _ => .notStarted "no engine" } }
  cwd := []

def orphanWorld : World :=
  smallMachine.after (smallMachine.after emptyWorld (smallCreate .podman "b" "v")) rmWithoutEngine

/-- An `rm` that fails has unlisted the record of a container that goes on running. -/
theorem rm_leaves_orphan :
    Reach (smallMachine.Fresh []) (smallMachine.Runs []) (fun _ _ => True) orphanWorld ∧
    ¬ smallMachine.NoOrphans [] orphanWorld := by
  refine ⟨.next (.next (.start fresh_emptyWorld) trivial (runs_after _)) trivial
    ⟨Or.inl rfl, rfl⟩, fun h => ?_⟩
  have hstays : Runtime.container ⟨"c0ffee", "ssbx-b"⟩ ∈ orphanWorld.runtimes := by decide
  have hrecords : smallMachine.records [] orphanWorld = some ⟨none, []⟩ := by decide
  obtain ⟨s, hs, r, hr, -⟩ := h _ hstays
  rw [hrecords] at hs
  rw [← Option.some.inj hs] at hr
  exact nomatch hr

end SimpleSandbox
