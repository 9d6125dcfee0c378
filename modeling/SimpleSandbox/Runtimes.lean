import SimpleSandbox.CreatePlan

/-!
# Runtimes

A persistent sandbox leaves a runtime on the host: a container, or an instance directory of
the mac mechanism.  The containers of a world are listed in it; the instance directories that
were made and not deleted since are read from the journal.  Only the creation and the removal
by a mechanism change either.
-/

namespace SimpleSandbox

open RustText OsPath FileSystem Effect World

/-- What a persistent creation leaves on the host. -/
inductive Runtime where
  | container (c : Container)
  | inst (q : Location)
deriving DecidableEq

/-- The instance directories after an event. -/
def FsEvent.stand (qs : List Location) (ev : FsEvent) : List Location :=
  match ev.site with
  | .createInstance => qs ++ [ev.location]
  | .removeInstance => qs.filter fun q => !decide (ev.location <+: q)
  | _ => qs

namespace World

/-- The instance directories that were made and not deleted since. -/
def instances (w : World) : List Location := w.journal.foldl FsEvent.stand []

def runtimes (w : World) : List Runtime :=
  w.containers.map .container ++ w.instances.map .inst

@[simp] theorem runtimes_enter (dir : Location) (w : World) :
    (w.enter dir).runtimes = w.runtimes := rfl

theorem container_mem_runtimes {w : World} {c : Container} :
    .container c ∈ w.runtimes ↔ c ∈ w.containers := by
  simp [runtimes]

theorem inst_mem_runtimes {w : World} {q : Location} : .inst q ∈ w.runtimes ↔ q ∈ w.instances := by
  simp [runtimes]

theorem instances_applied (w : World) (site : Site) (q : Location) (fs : FileSystem FileData) :
    (w.applied site q fs).instances = FsEvent.stand w.instances ⟨site, q⟩ := by
  simp only [instances, applied, List.foldl_append, List.foldl_cons, List.foldl_nil]

/-- No runtime was made or deleted. -/
def SameRuntimes (w w' : World) : Prop := w'.runtimes = w.runtimes

theorem sameRuntimes_trans {w₁ w₂ w₃ : World} (h₁ : SameRuntimes w₁ w₂) (h₂ : SameRuntimes w₂ w₃) :
    SameRuntimes w₁ w₃ := Eq.trans h₂ h₁

/-- A change at a place that neither makes nor deletes an instance. -/
def Site.quiet : Site → Bool
  | .createInstance | .removeInstance => false
  | _ => true

theorem stand_of_quiet {site : Site} (h : Site.quiet site = true) (qs : List Location)
    (q : Location) : FsEvent.stand qs ⟨site, q⟩ = qs := by
  cases site <;> first | rfl | exact nomatch h

end World

/-! ## Programs without a runtime -/

section Quiet

variable {ε α β : Type}

theorem quiet_bind {m : Effect World ε α} {g : α → Effect World ε β} (hm : Preserves SameRuntimes m)
    (hg : ∀ a, Preserves SameRuntimes (g a)) : Preserves SameRuntimes (m >>= g) :=
  Preserves.bind (R := SameRuntimes) sameRuntimes_trans hm hg

/-- What comes after the first part leaves its runtimes alone. -/
theorem quiet_after {m : Effect World ε α} {g : α → Effect World ε β}
    (hg : ∀ a, Preserves SameRuntimes (g a)) (w : World) :
    SameRuntimes (m w).2 ((m >>= g) w).2 := by
  rw [bind_apply]
  rcases m w with ⟨e | a, w'⟩
  · rfl
  · exact hg a w'

theorem quiet_lift (r : Except ε α) : Preserves SameRuntimes (lift r : Effect World ε α) :=
  fun _ => rfl

theorem quiet_of_reads {m : Effect World ε α} (hm : Reads m) : Preserves SameRuntimes m := by
  intro w
  rw [← hm w]
  rfl

theorem quiet_change (f : Faults) {site : Site} (hsite : Site.quiet site = true) (p : PathBuf)
    (op : FileSystem FileData → Except IoError (FileSystem FileData)) :
    Preserves SameRuntimes (change f site p op) := by
  intro w
  rcases change_cases f site p op w with ⟨fs, -, -, hrun⟩ | ⟨e, hrun⟩
  · rw [hrun, SameRuntimes, runtimes, instances_applied, stand_of_quiet hsite]
    rfl
  · rw [hrun]
    rfl

theorem quiet_writeIndex (st : Store) (f : Faults) {site : Site} (hsite : Site.quiet site = true)
    (s : SandboxState) : Preserves SameRuntimes (st.writeIndex f site s) := by
  unfold Store.writeIndex
  split
  · exact Preserves.mapError (quiet_change f hsite _ _) _
  · exact fun _ => rfl

theorem quiet_openAt (root : PathBuf) (f : Faults) : Preserves SameRuntimes (Store.openAt root f) := by
  have hdir : ∀ {site} p, Site.quiet site = true →
      Preserves SameRuntimes ((World.createDirAll f site p).mapError StateError.io) :=
    fun p hsite => Preserves.mapError (quiet_change f hsite _ _) _
  unfold Store.openAt
  refine quiet_bind (hdir _ rfl) fun _ => quiet_bind (hdir _ rfl) fun _ =>
    quiet_bind (hdir _ rfl) fun _ => quiet_bind (hdir _ rfl) fun _ => ?_
  refine quiet_bind (fun _ => rfl) fun w => ?_
  split
  · exact quiet_bind (quiet_writeIndex _ f rfl _) fun _ _ => rfl
  · exact fun _ => rfl

theorem quiet_modify (st : Store) (f : Faults)
    (op : SandboxState → Except StateError (α × SandboxState)) :
    Preserves SameRuntimes (st.modify f op) := by
  unfold Store.modify
  have hload : Reads (st.loadIndex f) := fun w => (Store.loadIndex_snd st f w).symm
  exact quiet_bind (quiet_of_reads hload) fun s => quiet_bind (quiet_lift _) fun p =>
    quiet_bind (quiet_writeIndex st f rfl _) fun _ _ => rfl

theorem quiet_savePolicy (st : Store) (ext : Externals) (f : Faults) (name : String)
    (p : SandboxPolicy) : Preserves SameRuntimes (st.savePolicy ext f name p) :=
  quiet_bind (quiet_lift _) fun _ =>
    quiet_bind (Preserves.mapError (quiet_change f rfl _ _) _) fun _ _ => rfl

theorem quiet_spawnSandboxed (h : MechHost) (profilePath : PathBuf) (profile : Option String)
    (policy : SandboxPolicy) (workdir : PathBuf) (command : List String)
    (env : List (String × String)) :
    Preserves SameRuntimes
      (MacMechanism.spawnSandboxed h profilePath profile policy workdir command env) := by
  unfold MacMechanism.spawnSandboxed
  split
  · exact fun _ => rfl
  · exact quiet_bind (fun _ => rfl) fun _ => quiet_lift _

theorem quiet_mechExec (M : Machine) (h : MechHost) (kind : MechanismKind) (req : ExecRequest) :
    Preserves SameRuntimes (mechExec M h kind req) := by
  have hread : ∀ site p, Reads (attempt (readFile h.faults site p) : Effect World MechanismError _) :=
    fun _ _ _ => rfl
  unfold mechExec
  split
  · exact quiet_lift _
  · exact quiet_lift _
  · unfold MacMechanism.exec MacMechanism.parseMacRuntime MacMechanism.readCopy
    refine quiet_bind (quiet_bind (quiet_lift _) fun _ => quiet_bind
      (quiet_of_reads (hread _ _)) fun r => ?_) ?_
    · split <;> exact fun _ => rfl
    · rintro ⟨profilePath, workdir⟩
      refine quiet_bind ?_ fun copy => quiet_bind (fun _ => rfl) fun w =>
        quiet_spawnSandboxed h _ _ _ _ _ _
      split
      · exact quiet_of_reads (hread _ _)
      · exact fun _ => rfl
  · exact fun _ => rfl

/-- An ephemeral sandbox leaves no runtime behind. -/
theorem quiet_mechCreate (M : Machine) (h : MechHost) (kind : MechanismKind) {req : CreateRequest}
    (heph : req.ephemeral = true) : Preserves SameRuntimes (mechCreate M h kind req) := by
  have hpodman : Preserves SameRuntimes (PodmanMechanism.create {} h req) := by
    unfold PodmanMechanism.create
    rw [heph]
    exact quiet_bind (quiet_lift _) fun _ => quiet_bind (quiet_lift _) fun _ =>
      quiet_bind (quiet_lift _) fun _ => quiet_bind (quiet_lift _) fun _ _ => rfl
  unfold mechCreate
  split
  · exact hpodman
  · exact hpodman
  · unfold MacMechanism.create
    split
    · exact fun _ => rfl
    · refine quiet_bind (quiet_lift _) fun file => ?_
      rw [heph]
      exact quiet_bind (quiet_spawnSandboxed h _ _ _ _ _ _) fun _ _ => rfl
  · exact fun _ => rfl

theorem quiet_execRecord (M : Machine) (env : ProcessEnv) (command : List String)
    (record : SandboxRecord) : Preserves SameRuntimes (execRecord M env command record) := by
  unfold execRecord
  rw [Store.touchLastUsed_eq_modify]
  exact quiet_bind (Preserves.mapError (quiet_modify _ _ _) _) fun _ =>
    quiet_bind (Preserves.mapError (quiet_mechExec M _ _ _) _) fun _ _ => rfl

theorem quiet_setPolicy (M : Machine) (env : ProcessEnv) (file : Except PolicyError SandboxPolicy)
    (record : SandboxRecord) : Preserves SameRuntimes (setPolicy M env file record) := by
  unfold setPolicy
  refine quiet_bind (quiet_lift _) fun p => quiet_bind (quiet_lift _) fun _ => ?_
  rw [Store.updatePolicy_eq]
  exact Preserves.mapError (quiet_bind (quiet_lift _) fun _ =>
    quiet_bind (quiet_savePolicy _ _ _ _ _) fun _ => quiet_modify _ _ _) _

/-- A command that is neither `create` nor `rm`. -/
def Command.quiet : Command → Bool
  | .create _ _ | .rm _ => false
  | _ => true

theorem quiet_execute (M : Machine) (env : ProcessEnv) {cmd : Command} (hcmd : cmd.quiet = true) :
    Preserves SameRuntimes (execute M env cmd) := by
  have hlookup : ∀ {β : Type} (name : Option String) (g : SandboxRecord → Effect World CliError β),
      (∀ r, Preserves SameRuntimes (g r)) →
      Preserves SameRuntimes ((M.store.getOrLast env.lookupFaults name).mapError CliError.state >>= g) :=
    fun name g hg =>
      quiet_bind (Preserves.mapError (quiet_of_reads (reads_getOrLast _ _ _)) _) hg
  have hexec : ∀ name command, Preserves SameRuntimes (cmdExec M env name command) :=
    fun name command => hlookup name _ fun r => quiet_execRecord M env command r
  cases cmd with
  | create name args => exact nomatch hcmd
  | rm key => exact nomatch hcmd
  | run name args command =>
    refine Preserves.seq (quiet_lift _) (fun p hp => ?_) (fun h => h) sameRuntimes_trans
    obtain ⟨-, heph, -, -⟩ := prepare_eq_ok (returns_lift hp)
    exact quiet_bind (Preserves.mapError (quiet_mechCreate M _ p.kind heph) _) fun _ _ => rfl
  | exec name command => exact hexec name command
  | shell name => exact hlookup name _ fun r => hexec name _
  | policyGet name => exact quiet_of_reads ((reads_cmdPolicyGet M env name).bind_pure _)
  | policySet name file =>
    exact quiet_bind (hlookup name _ fun r => quiet_setPolicy M env file r) fun _ _ => rfl
  | ls => exact quiet_of_reads ((reads_cmdLs M env).bind_pure _)
  | logs name => exact quiet_of_reads ((reads_cmdLogs M env name).bind_pure _)
  | doctor => exact fun _ => rfl

end Quiet

/-! ## Runtimes and runtime ids -/

/-- A removal by the runtime id reaches the runtime. -/
def Runtime.namedBy (dir : Location) (kind : MechanismKind) (runtimeId : String) : Runtime → Prop
  | .container c => kind = .podman ∧ c.answersTo runtimeId = true
  | .inst q => kind = .mac ∧
      ∃ p d, MacMechanism.profileOfRuntime runtimeId = .ok (p, d) ∧ resolve dir d = q

namespace Machine

/-- The mechanism of a prepared request makes a runtime. -/
def makesRuntime (M : Machine) (env : ProcessEnv) (p : Prepared) (w : World) : Bool :=
  let h := env.mechHost M p.proxyPort
  match resolveMechanism M.os p.kind with
  | .podman | .auto => PodmanMechanism.leaves {} h p.request
  | .mac =>
    M.makesInstance env p.request.name w.fs
  | .krun => false

end Machine

section Create

variable {M : Machine} {env : ProcessEnv} {name : String} {p : Prepared} {w : World}

theorem mem_runtimes_addContainer {id n : String} {x : Runtime}
    (hx : x ∈ (PodmanMechanism.addContainer id n w).runtimes) :
    x ∈ w.runtimes ∨ x = .container ⟨id, n⟩ := by
  rcases List.mem_append.mp hx with hcontainer | hinst
  · obtain ⟨c, hc, heq⟩ := List.mem_map.mp hcontainer
    rcases List.mem_append.mp hc with hold | hnew
    · exact Or.inl (heq ▸ container_mem_runtimes.mpr hold)
    · exact Or.inr (by rw [← heq, List.mem_singleton.mp hnew])
  · exact Or.inl (List.mem_append_right _ hinst)

theorem quiet_copyPolicy (h : MechHost) (dir : PathBuf) (policy : SandboxPolicy) :
    Preserves SameRuntimes (MacMechanism.copyPolicy h dir policy) := by
  unfold MacMechanism.copyPolicy
  split
  · exact quiet_bind (Preserves.attempt (quiet_change _ rfl _ _)) fun _ _ => rfl
  · exact fun _ => rfl

/-- An instance is made by its first step; the others only write into it. -/
theorem mem_runtimes_makeInstance {m : MacMechanism} {h : MechHost} {req : CreateRequest}
    {x : Runtime} (hx : x ∈ (m.makeInstance h req w).2.runtimes) :
    x ∈ w.runtimes ∨ (h.faults .createInstance = false ∧
      (w.fs.createDirAll (m.instanceDir h req.name)).isOk = true ∧
      x = .inst (resolve w.fs.cwd (m.instanceDir h req.name))) := by
  have hfirst : SameRuntimes
      ((World.createDirAll h.faults .createInstance (m.instanceDir h req.name)).mapError
        MacMechanism.ioMessage w).2 (m.makeInstance h req w).2 := by
    apply quiet_after
    intro _
    exact quiet_bind (Preserves.mapError (quiet_change _ rfl _ _) _) fun _ =>
      quiet_bind (Preserves.mapError (quiet_change _ rfl _ _) _) fun _ =>
        quiet_bind (quiet_copyPolicy _ _ _) fun _ _ => rfl
  rw [show (m.makeInstance h req w).2.runtimes = _ from hfirst, mapError_snd] at hx
  rcases change_cases h.faults .createInstance (m.instanceDir h req.name)
    (·.createDirAll (m.instanceDir h req.name)) w with ⟨fs, hoff, hfs, hrun⟩ | ⟨e, hrun⟩
  · rw [World.createDirAll, hrun, runtimes, instances_applied] at hx
    rcases List.mem_append.mp hx with hcontainer | hinst
    · exact Or.inl (List.mem_append_left _ hcontainer)
    · obtain ⟨q, hq, heq⟩ := List.mem_map.mp hinst
      rcases List.mem_append.mp hq with hold | hnew
      · exact Or.inl (heq ▸ inst_mem_runtimes.mpr hold)
      · refine Or.inr ⟨hoff, by rw [hfs]; rfl, ?_⟩
        rw [← heq, List.mem_singleton.mp hnew]
        rfl
  · rw [World.createDirAll, hrun] at hx
    exact Or.inl hx

theorem answersTo_created (id n : String) :
    Container.answersTo ⟨id, n⟩ (if id = "" then n else id) = true := by
  unfold Container.answersTo
  split <;> simp

/-- **What a creation makes.**  At most one runtime, and only if the mechanism makes one. -/
theorem mem_runtimes_mechCreate (hp : p.Persistent M name) (dir : Location) {x : Runtime}
    (hx : x ∈ (mechCreate M (env.mechHost M p.proxyPort) p.kind p.request w).2.runtimes) :
    x ∈ w.runtimes ∨ (M.makesRuntime env p w = true ∧
      ((p.kind = .mac ∧ x = .inst (M.instanceAt w.fs.cwd name)) ∨
       (p.kind = .podman ∧ ∀ result w',
         mechCreate M (env.mechHost M p.proxyPort) p.kind p.request w = (.ok result, w') →
         x.namedBy dir p.kind result.runtimeId))) := by
  have hauto := resolveMechanism_ne_auto M.os p.kind
  unfold mechCreate at hx ⊢
  unfold Machine.makesRuntime
  rw [hp.resolved] at hx hauto ⊢
  cases hkind : p.kind with
  | auto => exact absurd hkind hauto
  | krun =>
    rw [hkind] at hx
    exact Or.inl hx
  | podman =>
    rw [hkind] at hx
    rcases podmanCreate_cases {} (env.mechHost M p.proxyPort) hp.ephemeral w with
      ⟨-, -, e, hrun⟩ | ⟨-, hleaves, id, e, hrun⟩ | ⟨-, hleaves, id, result, hid, hrun⟩
    · dsimp only at hx
      rw [hrun] at hx
      exact Or.inl hx
    · dsimp only at hx ⊢
      rw [hrun] at hx ⊢
      refine (mem_runtimes_addContainer hx).imp_right fun hnew => ⟨hleaves, Or.inr ⟨rfl, ?_⟩⟩
      intro result w' h
      exact nomatch h
    · dsimp only at hx ⊢
      rw [hrun] at hx ⊢
      refine (mem_runtimes_addContainer hx).imp_right fun hnew => ⟨hleaves, Or.inr ⟨rfl, ?_⟩⟩
      intro result' w' h
      rw [← Except.ok.inj (Prod.mk.inj h).1, hid, hnew]
      exact ⟨rfl, answersTo_created id _⟩
  | mac =>
    rw [hkind] at hx
    dsimp only at hx ⊢
    rcases macCreate_cases M.mac (env.mechHost M p.proxyPort) hp.ephemeral hp.command w with
      ⟨-, e, hrun⟩ | ⟨hready, hrun⟩
    · rw [hrun] at hx
      exact Or.inl hx
    · rw [hrun] at hx
      refine (mem_runtimes_makeInstance hx).imp_right fun ⟨hoff, hdir, hnew⟩ => ⟨?_, Or.inl ⟨rfl, ?_⟩⟩
      · have hfault : env.faults .createInstance = false := hoff
        have hfree : w.fs.blocked (M.instanceAt w.fs.cwd p.request.name) = false := by
          cases hmake : w.fs.createDirAll (M.instancePath p.request.name) with
          | error e =>
            rw [M.instanceDir_mac, hmake] at hdir
            cases hdir
          | ok fs => exact (createDirAll_eq_ok_iff.mp hmake).1
        rw [Machine.makesInstance, FilePlan.makes, hfault, hfree, Bool.not_false, Bool.and_true,
          Bool.and_true]
        exact hready
      · rw [hnew, hp.name_eq]
        rfl

/-- Nothing after the mechanism makes a runtime. -/
theorem runtimes_createPrepared (M : Machine) (env : ProcessEnv) (name : String) (p : Prepared)
    (w : World) : (createPrepared M env name p w).2.runtimes =
      (mechCreate M (env.mechHost M p.proxyPort) p.kind p.request w).2.runtimes := by
  have hrest := quiet_after (m := (mechCreate M (env.mechHost M p.proxyPort) p.kind
    p.request).mapError CliError.mechanism) (w := w) fun result =>
      quiet_bind (quiet_lift ((Store.newRecord M.ext env.uuid env.now name p.kind result.runtimeId
        p.request.policy p.request.workdir false result.proxyPort).mapError CliError.state)) fun r =>
        quiet_bind (Preserves.mapError (quiet_savePolicy M.store M.ext env.faults name
          p.request.policy) CliError.state) fun _ =>
          (Preserves.mapError (quiet_modify M.store env.faults
            (·.insert { r with logPath := some (M.store.logPathFor name) } env.insertUuid))
            CliError.state).bind_pure fun _ => ()
  rw [mapError_snd] at hrest
  exact hrest

/-! ### A creation that completes -/

/-- The insertion goes through: the index does not have the name and can be written again. -/
def Machine.recordable (M : Machine) (env : ProcessEnv) (name : String) (p : Prepared)
    (w : World) : Bool :=
  !env.faults .loadIndex && !env.faults .saveIndex && isUtf8 p.request.workdir &&
    isUtf8 (M.store.logPathFor name) &&
    match M.store.index w with
    | some s => !decide (name ∈ s.names) && s.serializable
    | none => false

/-- Every step of the creation goes through, as the files and the index before it decide. -/
def Machine.completes (M : Machine) (env : ProcessEnv) (name : String) (p : Prepared) (w : World) :
    Bool :=
  M.stores env name w.fs [] p && M.recordable env name p w

/-- The steps before the insertion do not decide whether it goes through. -/
theorem recordable_congr {w' : World} (h : M.store.index w' = M.store.index w) :
    M.recordable env name p w' = M.recordable env name p w := by
  rw [Machine.recordable, Machine.recordable, h]

theorem insert_of_recordable {r : SandboxRecord} (hname : r.name = name)
    (hworkdir : r.workdir = p.request.workdir) (hlog : r.logPath = some (M.store.logPathFor name))
    (h : M.recordable env name p w = true) :
    ∃ s r', M.store.insert env.faults r env.insertUuid w = (.ok r', M.store.withIndex s w) ∧
      r' ∈ s.sandboxes ∧ r'.mechanism = r.mechanism ∧ r'.runtimeId = r.runtimeId := by
  simp only [Machine.recordable, Bool.and_eq_true, Bool.not_eq_true'] at h
  obtain ⟨⟨⟨⟨hload, hsave⟩, hwork⟩, hpath⟩, hfile⟩ := h
  split at hfile
  · rename_i s hs
    rw [Bool.and_eq_true, Bool.not_eq_true', decide_eq_false_iff_not] at hfile
    have hnew : r.name ∉ s.names := by
      rw [hname]
      exact hfile.1
    generalize hr' : (if r.id = "" then { r with id := env.insertUuid } else r) = r'
    have hop : s.insert r env.insertUuid = .ok (r', ⟨some r'.name, s.sandboxes ++ [r']⟩) :=
      SandboxState.insert_eq_ok_iff.mpr ⟨hnew, hr'.symm, rfl⟩
    obtain ⟨id, hsame⟩ := SandboxState.exists_id_of_insert hop
    have hserial : r'.serializable = true := by
      rw [hsame, SandboxRecord.serializable, hworkdir, hlog, hwork]
      exact hpath
    have hsaves : M.store.saves env.faults ⟨some r'.name, s.sandboxes ++ [r']⟩ w = true := by
      have hall : s.sandboxes.all SandboxRecord.serializable = true := hfile.2
      have hcan : w.fs.canWrite (w.fs.locate M.store.indexPath) = true :=
        canWrite_of_fileAt (Store.fileAt_of_index hs)
      rw [Store.saves, SandboxState.serializable, List.all_append, hall, Store.writable, hsave, hcan]
      simp [hserial]
    exact ⟨⟨some r'.name, s.sandboxes ++ [r']⟩, r', Store.modify_eq_ok hload hs hop hsaves,
      SandboxState.mem_of_insert hop, by rw [hsame], by rw [hsame]⟩
  · exact absurd hfile Bool.false_ne_true

theorem createPrepared_of_completes (hp : p.Persistent M name)
    (h : M.completes env name p w = true) :
    ∃ result w' s r, mechCreate M (env.mechHost M p.proxyPort) p.kind p.request w = (.ok result, w') ∧
      (createPrepared M env name p w).1 = .ok () ∧
      M.store.index (createPrepared M env name p w).2 = some s ∧ r ∈ s.sandboxes ∧
      r.mechanism = p.kind ∧ r.runtimeId = result.runtimeId ∧
      isUtf8 (M.store.logPathFor name) = true := by
  have hfollows := follows_makeRecord (w := w) hp env
  rw [Machine.completes, Bool.and_eq_true, ← Machine.run_createSteps hp, ← hfollows.1,
    ← recordable_congr (index_makeRecord hp env w)] at h
  obtain ⟨hok, hrecordable⟩ := h
  rcases hmake : makeRecord M env name p w with ⟨e | r, w₁⟩
  · rw [hmake] at hok
    exact nomatch hok
  · rw [hmake] at hrecordable
    obtain ⟨result, w', record, hresult, hrecord, hr⟩ := makeRecord_eq_ok hmake
    obtain ⟨hash, -, hrecord⟩ := except_bind_eq_ok hrecord
    obtain rfl := Except.ok.inj hrecord
    obtain ⟨s, r', hinsert, hmem, hkind, hid⟩ :=
      insert_of_recordable (r := r) (by rw [hr]) (by rw [hr]) (by rw [hr]) hrecordable
    have hrun : createPrepared M env name p w = (.ok (), M.store.withIndex s w₁) := by
      rw [createPrepared_eq, bind_of_ok hmake]
      exact bind_of_ok (mapError_eq_ok_iff.mpr hinsert)
    rw [hrun]
    refine ⟨result, w', s, r', hresult, rfl, M.store.index_withIndex s w₁, hmem, ?_, ?_, ?_⟩
    · rw [hkind, hr]
    · rw [hid, hr]
    · simp only [Machine.recordable, Bool.and_eq_true] at hrecordable
      exact hrecordable.1.2

end Create

/-- Every step of a small creation goes through, or it stops before the first. -/
def smallCompletes (kind : MechanismKind) (name uuid : String) (w : World) : Bool :=
  match prepare smallMachine (smallEnv uuid) name { mechanism := some kind } id false [] with
  | .error _ => true
  | .ok p => smallMachine.completes (smallEnv uuid) name p
      (Store.openAt smallMachine.root noFaults (w.enter [])).2

theorem completes_of_small {kind : MechanismKind} {name uuid : String} {w : World}
    (h : smallCompletes kind name uuid w = true) {name' : Option String} {args : PolicyArgs}
    {p : Prepared} {st : Store} {w₁ : World}
    (hcmd : (smallCreate kind name uuid).command = .create name' args)
    (hprep : prepare smallMachine (smallEnv uuid) (createName name') args id false [] = .ok p)
    (hopen : Store.openAt smallMachine.root noFaults (w.enter []) = (.ok st, w₁)) :
    smallMachine.completes (smallEnv uuid) (createName name') p w₁ = true := by
  have hw₁ : (Store.openAt smallMachine.root noFaults (w.enter [])).2 = w₁ := congrArg Prod.snd hopen
  obtain ⟨rfl, rfl⟩ := Command.create.inj hcmd
  change prepare smallMachine (smallEnv uuid) name { mechanism := some kind } id false [] = .ok p
    at hprep
  rw [smallCompletes, hprep, hw₁] at h
  exact h

/-! ## Removals -/

section Remove

variable {M : Machine} {w : World}

/-- The engine answers to a removal. -/
def PodmanMechanism.answers (m : PodmanMechanism) (h : MechHost) (runtimeId : String) : Bool :=
  (m.runtimeBin h).isOk &&
    (startsWith runtimeId "ephemeral:" || !(h.engine.rm runtimeId matches .notStarted _))

/-- A removal deletes the container. -/
def PodmanMechanism.deletes (h : MechHost) (runtimeId : String) (c : Container) : Bool :=
  !startsWith runtimeId "ephemeral:" &&
    match h.engine.rm runtimeId with
    | .notStarted _ => false
    | .removed => c.answersTo runtimeId
    | .failed second => second && c.answersTo ("ssbx-" ++ runtimeId)

theorem podmanRemove_of_answers {m : PodmanMechanism} {h : MechHost} {runtimeId : String}
    (hanswers : m.answers h runtimeId = true) (w : World) :
    m.remove h runtimeId w = (.ok (), { w with
      containers := w.containers.filter fun c => !PodmanMechanism.deletes h runtimeId c }) := by
  rw [PodmanMechanism.answers, Bool.and_eq_true] at hanswers
  obtain ⟨hbin, hrm⟩ := hanswers
  cases hb : m.runtimeBin h with
  | error e =>
    rw [hb] at hbin
    exact nomatch hbin
  | ok bin =>
    rw [PodmanMechanism.remove, hb, lift_ok_bind]
    unfold PodmanMechanism.deletes
    by_cases heph : startsWith runtimeId "ephemeral:" = true
    · rw [if_pos heph, heph]
      simp
    · have hno : startsWith runtimeId "ephemeral:" = false := by simpa using heph
      rw [if_neg heph, hno]
      rw [hno] at hrm
      cases hrun : h.engine.rm runtimeId with
      | notStarted e => simp [hrun] at hrm
      | removed => rfl
      | failed second =>
        cases second with
        | true => rfl
        | false => simp

theorem macRemove_runtimes (h : MechHost) {runtimeId : String} {p d : PathBuf}
    (hid : MacMechanism.profileOfRuntime runtimeId = .ok (p, d)) {x : Runtime}
    (hx : x ∈ (MacMechanism.remove h runtimeId w).2.runtimes) :
    x ∈ w.runtimes ∧ (h.faults .removeInstance = false →
      w.fs.node (resolve w.fs.cwd d) = some .dir → x ≠ .inst (resolve w.fs.cwd d)) := by
  rw [macRemove_of_ok h hid] at hx
  rcases change_cases h.faults .removeInstance d (·.removeDirAll d) w with
    ⟨fs, -, -, hrun⟩ | ⟨e, hrun⟩
  · rw [World.removeDirAll, hrun, runtimes, instances_applied] at hx
    rcases List.mem_append.mp hx with hcontainer | hinst
    · refine ⟨List.mem_append_left _ hcontainer, fun _ _ heq => ?_⟩
      obtain ⟨c, -, rfl⟩ := List.mem_map.mp hcontainer
      cases heq
    · obtain ⟨q, hq, rfl⟩ := List.mem_map.mp hinst
      obtain ⟨hold, hout⟩ := List.mem_filter.mp hq
      refine ⟨inst_mem_runtimes.mpr hold, fun _ _ heq => ?_⟩
      rw [Runtime.inst.inj heq] at hout
      simp [locate] at hout
  · rw [World.removeDirAll, hrun] at hx
    refine ⟨hx, fun hoff hdir _ => ?_⟩
    have hgo : w.fs.removeDirAll d = .ok { w.fs with
        node := fun r => if w.fs.locate d <+: r then none else w.fs.node r } :=
      removeDirAll_eq_ok_iff.mpr ⟨hdir, rfl⟩
    simp [change, hoff, hgo] at hrun

/-- What `rm` does to the store leaves the directories where they are. -/
theorem node_dropPolicy_withIndex {st : Store} {q : Location} (hdir : w.fs.node q = some .dir)
    (hne : q ≠ st.indexAt w.fs.cwd) (f : Faults) (name : String) (s : SandboxState) :
    (st.dropPolicy f name (st.withIndex s w)).fs.node q = some .dir := by
  have hindex : (st.withIndex s w).fs.node q = some .dir := by
    rw [Store.withIndex, Store.put, applied, FileSystem.set]
    simp only [hne, ↓reduceIte]
    exact hdir
  rw [Store.dropPolicy, World.removeFile]
  rcases change_cases f .dropPolicy (st.policyPath name) (·.removeFile (st.policyPath name))
    (st.withIndex s w) with ⟨fs, -, hfs, hrun⟩ | ⟨e, hrun⟩
  · obtain ⟨hfile, rfl⟩ := removeFile_eq_ok_iff.mp hfs
    rw [hrun, applied]
    have hother : q ≠ (st.withIndex s w).fs.locate (st.policyPath name) := by
      rintro rfl
      rw [FileSystem.fileAt, hindex] at hfile
      exact hfile rfl
    simp only [hother, ↓reduceIte]
    exact hindex
  · rw [hrun]
    exact hindex

end Remove

end SimpleSandbox
