import SimpleSandbox.Cli
import SimpleSandbox.StoreSpec

/-!
# What the mechanisms do to the files

The file events that the creation, use and removal of a sandbox may cause, by kind of
mechanism, and the runtime ids that creation gives out.  Containers and children are not
files: what the podman mechanism does extends the journal by nothing.
-/

namespace SimpleSandbox

open RustText OsPath FileSystem Effect World

/-! ## Instances of the mac mechanism -/

namespace Machine

/-- `root/mac/instances` -/
def instancesPath (M : Machine) : PathBuf :=
  join (join M.root (osString "mac")) (osString "instances")

/-- `root/mac/instances/{name}` -/
def instancePath (M : Machine) (name : String) : PathBuf := join M.instancesPath (osString name)

theorem instanceDir_mac (M : Machine) (h : MechHost) (name : String) :
    M.mac.instanceDir h name = M.instancePath name := rfl

/-- The directory of the instances, for processes with working directory `dir`. -/
def instancesAt (M : Machine) (dir : Location) : Location :=
  resolve dir M.root ++ [osString "mac", osString "instances"]

def instanceAt (M : Machine) (dir : Location) (name : String) : Location :=
  resolve dir (M.instancePath name)

theorem resolve_instancesPath (M : Machine) (dir : Location) :
    resolve dir M.instancesPath = M.instancesAt dir := by
  have hmac : IsName (osString "mac") := by decide
  have hinstances : IsName (osString "instances") := by decide
  rw [instancesPath, resolve_join, resolve_join, hmac.resolve, hinstances.resolve,
    List.append_assoc]
  rfl

theorem instanceAt_eq (M : Machine) (dir : Location) (name : String) :
    M.instanceAt dir name = resolve (M.instancesAt dir) (osString name) := by
  rw [instanceAt, instancePath, resolve_join, resolve_instancesPath]

/-- A file of the instance. -/
def instanceFile (M : Machine) (dir : Location) (name file : String) : Location :=
  M.instanceAt dir name ++ [osString file]

theorem resolve_instanceFile (M : Machine) (dir : Location) (name : String) {file : String}
    (hfile : IsName (osString file)) :
    resolve dir (join (M.instancePath name) (osString file)) = M.instanceFile dir name file := by
  rw [resolve_join, hfile.resolve, instanceFile, instanceAt]

theorem instanceFile_ne_indexAt (M : Machine) (dir : Location) (name : String) {file : String}
    (hfile : file ≠ "index.json") : M.instanceFile dir name file ≠ M.store.indexAt dir := by
  rw [Store.indexAt_eq, instanceFile]
  intro h
  have hlast := List.head_eq_of_cons_eq (List.append_inj' h rfl).2
  exact hfile (osString_injective hlast)

/-- The store and the mechanism keep their copies of the policy apart. -/
theorem policyAt_ne_policyCopy (M : Machine) (dir : Location) (name : String) :
    M.store.policyAt dir name ≠ M.instanceFile dir name "policy.yaml" := by
  rw [Store.policyAt_eq, osString_append, instanceFile, instanceAt_eq]
  have hdepth : (M.store.policiesAt dir).length ≤ (M.instancesAt dir).length := by
    simp [Store.policiesAt, instancesAt, store]
  have hpolicy : IsName (osString "policy") := by decide
  exact resolve_append_ne hdepth (osString name) (by decide) (by decide) hpolicy

/-- The runtime id of a sandbox of the mac mechanism. -/
def macRuntimeId (M : Machine) (name : String) : String :=
  "mac:" ++ display (join (M.instancePath name) (osString "profile.sb"))

/-- The directory the runtime id leads back to: displaying loses what is not UTF-8. -/
def removedAt (M : Machine) (dir : Location) (name : String) : Location :=
  resolve dir (lossy (M.instancePath name))

/-- The root survives being displayed. -/
def RootDisplays (M : Machine) (dir : Location) : Prop :=
  resolve dir (lossy M.root) = resolve dir M.root

theorem rootDisplays_of_isUtf8 {M : Machine} (h : isUtf8 M.root = true) (dir : Location) :
    M.RootDisplays dir := by
  rw [RootDisplays, lossy, (osString_display_iff M.root).mpr h]

theorem removedAt_eq {M : Machine} {dir : Location} (h : M.RootDisplays dir) (name : String) :
    M.removedAt dir name = M.instanceAt dir name := by
  simp only [removedAt, instanceAt, instancePath, instancesPath, lossy_join, lossy_osString,
    resolve_join]
  rw [show resolve dir (lossy M.root) = resolve dir M.root from h]

/-- Where the log path of a sandbox can be written down, its runtime id leads back. -/
theorem removedAt_of_logPath {M : Machine} {name : String}
    (h : isUtf8 (M.store.logPathFor name) = true) (dir : Location) :
    M.removedAt dir name = M.instanceAt dir name := by
  by_cases habs : isAbsolute (osString name) = true
  · have hpath : M.instancePath name = osString name := by
      rw [instancePath, join, if_pos habs]
    rw [removedAt, instanceAt, hpath, lossy_osString]
  · have hname : isAbsolute (osString (name ++ ".log")) = false := by
      rw [osString_append]
      cases hs : osString name with
      | nil => rfl
      | cons c rest =>
        rw [isAbsolute_append_of_ne_nil (List.cons_ne_nil c rest), ← hs]
        simpa using habs
    exact removedAt_eq (rootDisplays_of_isUtf8 (isUtf8_of_join rfl (isUtf8_of_join hname h)) dir) name

/-- The profile in the runtime id, as it is read back. -/
theorem lossy_profilePath (M : Machine) (name : String) :
    osString (display (join (M.instancePath name) (osString "profile.sb"))) =
      join (lossy (M.instancePath name)) (osString "profile.sb") := by
  rw [← lossy_osString "profile.sb", ← lossy_join, lossy_osString]
  rfl

/-- **The runtime id read back.** -/
theorem exists_profileOfRuntime (M : Machine) (name : String) :
    ∃ p d, MacMechanism.profileOfRuntime (M.macRuntimeId name) = .ok (p, d) ∧
      ∀ dir, resolve dir d = M.removedAt dir name := by
  have hprofile : IsName (osString "profile.sb") := by decide
  obtain ⟨d, hparent, hres⟩ := resolve_parent_join_name (lossy (M.instancePath name)) hprofile
  refine ⟨join (lossy (M.instancePath name)) (osString "profile.sb"), d, ?_, hres⟩
  rw [MacMechanism.profileOfRuntime, macRuntimeId, stripPrefix_append]
  simp only [M.lossy_profilePath, hparent]

/-- The profile the runtime id leads to. -/
theorem resolve_profileOfRuntime {M : Machine} {name : String} {p d : PathBuf}
    (h : MacMechanism.profileOfRuntime (M.macRuntimeId name) = .ok (p, d)) (dir : Location) :
    resolve dir p = M.removedAt dir name ++ [osString "profile.sb"] := by
  have hprofile : IsName (osString "profile.sb") := by decide
  rw [MacMechanism.profileOfRuntime, macRuntimeId, stripPrefix_append] at h
  dsimp only at h
  rw [M.lossy_profilePath] at h
  split at h
  · obtain ⟨rfl, -⟩ := Prod.mk.inj (Except.ok.inj h)
    rw [resolve_join, hprofile.resolve, removedAt]
  · cases h

/-- What the creation of an instance does to the files. -/
def instanceEvents (M : Machine) (dir : Location) (name : String) (ev : FsEvent) : Prop :=
  ev = ⟨.createInstance, M.instanceAt dir name⟩ ∨
  ev = ⟨.writeProfile, M.instanceFile dir name "profile.sb"⟩ ∨
  ev = ⟨.writeWorkdir, M.instanceFile dir name "workdir"⟩ ∨
  ev = ⟨.writePolicyCopy, M.instanceFile dir name "policy.yaml"⟩

theorem not_touches_index_of_instanceEvents {M : Machine} {dir : Location} {name : String}
    {ev : FsEvent} (h : M.instanceEvents dir name ev) : ¬ ev.touches (M.store.indexAt dir) := by
  rcases h with rfl | rfl | rfl | rfl
  · exact id
  · exact fun h => M.instanceFile_ne_indexAt dir name (by decide) h.symm
  · exact fun h => M.instanceFile_ne_indexAt dir name (by decide) h.symm
  · exact fun h => M.instanceFile_ne_indexAt dir name (by decide) h.symm

end Machine

/-! ## Mechanisms -/

section Mechanisms

variable {dir : Location} {P : FsEvent → Prop} {ε : Type}

/-- A change of the world outside its files. -/
theorem extends_update {g : World → World}
    (hg : ∀ w, (g w).fs = w.fs ∧ (g w).journal = w.journal) :
    Preserves (Extends dir P) (update g : Effect World ε Unit) := by
  intro w hdir
  obtain ⟨hfs, hjournal⟩ := hg w
  refine ⟨by rw [update_apply, hfs, hdir], [], ?_, fun _ h => (nomatch h), ?_⟩
  · rw [update_apply, hjournal, List.append_nil]
  · intro r _
    rw [update_apply, World.fileAt, hfs, World.fileAt]

theorem extends_spawnSandboxed (h : MechHost) (profilePath : PathBuf) (profile : Option String)
    (policy : SandboxPolicy) (workdir : PathBuf) (command : List String)
    (env : List (String × String)) :
    Preserves (Extends dir P)
      (MacMechanism.spawnSandboxed h profilePath profile policy workdir command env) := by
  unfold MacMechanism.spawnSandboxed
  split
  · exact extends_fail _
  · exact extends_bind (extends_update fun w => ⟨rfl, rfl⟩) fun _ => extends_lift _

theorem extends_macExec (h : MechHost) (req : ExecRequest) :
    Preserves (Extends dir P) (MacMechanism.exec h req) := by
  have hread : ∀ site p, Preserves (Extends dir P)
      (attempt (readFile h.faults site p) : Effect World MechanismError _) := fun site p =>
    Preserves.attempt (preserves_readFile dir P h.faults site p)
  have hcopy : ∀ p, Preserves (Extends dir P) (MacMechanism.readCopy h p) := by
    intro p
    unfold MacMechanism.readCopy
    split
    · exact hread _ _
    · exact extends_pure _
  unfold MacMechanism.exec MacMechanism.parseMacRuntime
  refine extends_bind (extends_bind (extends_lift _) fun _ => extends_bind (hread _ _) ?_) ?_
  · intro r
    split <;> exact extends_pure _
  · rintro ⟨profilePath, workdir⟩
    exact extends_bind (hcopy _) fun copy => extends_bind extends_state fun w =>
      extends_spawnSandboxed h _ _ _ _ _ _

theorem extends_macCreate (M : Machine) (h : MechHost) (req : CreateRequest) :
    Preserves (Extends dir fun ev => req.ephemeral = false ∧ M.instanceEvents dir req.name ev)
      (M.mac.create h req) := by
  unfold MacMechanism.create
  split
  · exact extends_fail _
  · refine extends_bind (extends_lift _) fun profileFile => ?_
    split
    · exact extends_bind (extends_spawnSandboxed h _ _ _ _ _ _) fun _ => extends_pure _
    · rename_i hpersistent
      have heph : req.ephemeral = false := by
        cases hreq : req.ephemeral with
        | false => rfl
        | true => simp [hreq] at hpersistent
      have hwrite : ∀ {site} (file : String) data, site.makesDirs = false →
          IsName (osString file) →
          M.instanceEvents dir req.name ⟨site, M.instanceFile dir req.name file⟩ →
          Preserves (Extends dir fun ev => req.ephemeral = false ∧ M.instanceEvents dir req.name ev)
            (writeFile h.faults site (join (M.mac.instanceDir h req.name) (osString file)) data) := by
        intro site file data hsite hfile hev
        apply extends_mono _ (preserves_writeFile dir h.faults hsite _ data)
        rintro ev rfl
        rw [M.instanceDir_mac, M.resolve_instanceFile dir req.name hfile]
        exact ⟨heph, hev⟩
      refine extends_bind ?_ fun _ => extends_bind ?_ fun _ => extends_bind ?_ fun _ =>
        extends_bind ?_ fun _ => extends_pure _
      · apply Preserves.mapError
        apply extends_mono _ (preserves_createDirAll dir h.faults _ _)
        rintro ev rfl
        exact ⟨heph, Or.inl rfl⟩
      · exact Preserves.mapError
          (hwrite "profile.sb" _ rfl (by decide) (Or.inr (Or.inl rfl))) _
      · exact Preserves.mapError
          (hwrite "workdir" _ rfl (by decide) (Or.inr (Or.inr (Or.inl rfl)))) _
      · unfold MacMechanism.copyPolicy
        split
        · exact extends_bind (Preserves.attempt
            (hwrite "policy.yaml" _ rfl (by decide) (Or.inr (Or.inr (Or.inr rfl))))) fun _ =>
            extends_pure _
        · exact extends_pure _

theorem extends_podmanCreate (m : PodmanMechanism) (h : MechHost) (req : CreateRequest) :
    Preserves (Extends dir P) (m.create h req) := by
  have hadd : ∀ id name, Preserves (Extends dir P)
      (update (PodmanMechanism.addContainer id name) : Effect World MechanismError Unit) :=
    fun id name => extends_update fun w => ⟨rfl, rfl⟩
  unfold PodmanMechanism.create
  refine extends_bind (extends_lift _) fun _ => extends_bind (extends_lift _) fun _ =>
    extends_bind (extends_lift _) fun args => ?_
  split
  · exact extends_bind (extends_lift _) fun _ => extends_pure _
  · refine extends_bind ?_ fun _ => extends_pure _
    unfold PodmanMechanism.runDetached
    split
    · exact extends_fail _
    · refine extends_bind ?_ fun _ => extends_fail _
      unfold PodmanMechanism.leaveBehind
      split
      · exact hadd _ _
      · exact extends_pure _
    · exact extends_bind (hadd _ _) fun _ => extends_pure _

theorem extends_podmanRemove (m : PodmanMechanism) (h : MechHost) (runtimeId : String) :
    Preserves (Extends dir P) (m.remove h runtimeId) := by
  have hdrop : ∀ key, Preserves (Extends dir P)
      (update (PodmanMechanism.dropContainer key) : Effect World MechanismError Unit) :=
    fun key => extends_update fun w => ⟨rfl, rfl⟩
  unfold PodmanMechanism.remove
  refine extends_bind (extends_lift _) fun _ => ?_
  split
  · exact extends_pure _
  · split
    · exact extends_fail _
    · exact hdrop _
    · split
      · exact hdrop _
      · exact extends_pure _

theorem parent_of_profileOfRuntime {runtimeId : String} {p d : PathBuf}
    (h : MacMechanism.profileOfRuntime runtimeId = .ok (p, d)) : parent p = some d := by
  unfold MacMechanism.profileOfRuntime at h
  split at h
  · split at h
    · rename_i hparent
      obtain ⟨rfl, rfl⟩ := Prod.mk.inj (Except.ok.inj h)
      exact hparent
    · simp at h
  · simp at h

/-- Parsing a runtime id changes nothing, and finds the profile the id names. -/
theorem parseMacRuntime_eq (h : MechHost) {runtimeId : String} {p d : PathBuf}
    (hid : MacMechanism.profileOfRuntime runtimeId = .ok (p, d)) (w : World) :
    ∃ workdir, MacMechanism.parseMacRuntime h runtimeId w = (.ok (p, workdir), w) := by
  rw [MacMechanism.parseMacRuntime, hid, lift_ok_bind]
  change ∃ workdir, (attempt (readFile h.faults .readWorkdir (join d (osString "workdir"))) >>= _) w
    = _
  rw [bind_of_ok (attempt_apply _ w)]
  rcases (readFile h.faults .readWorkdir (join d (osString "workdir")) w).1 with e | data
  · exact ⟨_, rfl⟩
  · cases data <;> exact ⟨_, rfl⟩

/-- Removing an instance is one attempt to delete the directory of its profile. -/
theorem macRemove_of_ok (h : MechHost) {runtimeId : String} {p d : PathBuf}
    (hid : MacMechanism.profileOfRuntime runtimeId = .ok (p, d)) (w : World) :
    MacMechanism.remove h runtimeId w =
      (.ok (), (removeDirAll h.faults .removeInstance d w).2) := by
  obtain ⟨workdir, hparse⟩ := parseMacRuntime_eq h hid w
  rw [MacMechanism.remove, bind_of_ok (attempt_apply _ w), hparse]
  simp only [parent_of_profileOfRuntime hid]
  rfl

theorem macRemove_of_error (h : MechHost) {runtimeId : String} {e : MechanismError}
    (hid : MacMechanism.profileOfRuntime runtimeId = .error e) (w : World) :
    MacMechanism.remove h runtimeId w = (.ok (), w) := by
  have hparse : MacMechanism.parseMacRuntime h runtimeId w = (.error e, w) := by
    rw [MacMechanism.parseMacRuntime, hid]
    rfl
  rw [MacMechanism.remove, bind_of_ok (attempt_apply _ w), hparse]
  rfl

/-- What the removal of an instance does to the files. -/
def removalEvents (dir : Location) (runtimeId : String) (ev : FsEvent) : Prop :=
  ∃ p d, MacMechanism.profileOfRuntime runtimeId = .ok (p, d) ∧
    ev = ⟨.removeInstance, resolve dir d⟩

theorem extends_macRemove (h : MechHost) (runtimeId : String) :
    Preserves (Extends dir (removalEvents dir runtimeId)) (MacMechanism.remove h runtimeId) := by
  intro w
  cases hid : MacMechanism.profileOfRuntime runtimeId with
  | ok pd =>
    obtain ⟨p, d⟩ := pd
    rw [macRemove_of_ok h hid]
    apply Extends.mono _ (preserves_removeDirAll dir h.faults d w)
    rintro ev rfl
    exact ⟨p, d, hid, rfl⟩
  | error e =>
    rw [macRemove_of_error h hid]
    exact Extends.refl w

/-! ### By kind -/

theorem extends_mechCreate (M : Machine) (h : MechHost) (kind : MechanismKind) (req : CreateRequest) :
    Preserves (Extends dir fun ev => req.ephemeral = false ∧ resolveMechanism M.os kind = .mac ∧
      M.instanceEvents dir req.name ev) (mechCreate M h kind req) := by
  unfold mechCreate
  split
  · exact extends_podmanCreate {} h req
  · exact extends_podmanCreate {} h req
  · rename_i hkind
    apply extends_mono _ (extends_macCreate M h req)
    rintro ev ⟨heph, hev⟩
    exact ⟨heph, hkind, hev⟩
  · exact extends_fail _

theorem extends_mechExec (M : Machine) (h : MechHost) (kind : MechanismKind) (req : ExecRequest) :
    Preserves (Extends dir P) (mechExec M h kind req) := by
  unfold mechExec
  split
  · exact extends_lift _
  · exact extends_lift _
  · exact extends_macExec h req
  · exact extends_fail _

theorem index_mechExec (M : Machine) (h : MechHost) (kind : MechanismKind) (req : ExecRequest)
    (w : World) : M.store.index (mechExec M h kind req w).2 = M.store.index w :=
  Store.index_of_preserves (fun _ => extends_mechExec (P := fun _ => False) M h kind req)
    (fun _ _ h => h.elim) w

theorem extends_mechRemove (M : Machine) (h : MechHost) (kind : MechanismKind) (runtimeId : String) :
    Preserves (Extends dir fun ev => resolveMechanism M.os kind = .mac ∧
      removalEvents dir runtimeId ev) (mechRemove M h kind runtimeId) := by
  unfold mechRemove
  split
  · exact extends_podmanRemove {} h runtimeId
  · exact extends_podmanRemove {} h runtimeId
  · rename_i hkind
    apply extends_mono _ (extends_macRemove h runtimeId)
    intro ev hev
    exact ⟨hkind, hev⟩
  · exact extends_fail _

/-- The removal of a runtime deletes the file of the index. -/
def LosesIndex (st : Store) (dir : Location) (runtimeId : String) : Prop :=
  ∃ ev, removalEvents dir runtimeId ev ∧ ev.touches (st.indexAt dir)

/-- The deletion of an instance keeps the index or deletes it too. -/
theorem index_macRemove (st : Store) (h : MechHost) (runtimeId : String) (w : World) :
    st.index (MacMechanism.remove h runtimeId w).2 = st.index w ∨
    (LosesIndex st w.fs.cwd runtimeId ∧ st.index (MacMechanism.remove h runtimeId w).2 = none) := by
  cases hid : MacMechanism.profileOfRuntime runtimeId with
  | error e =>
    rw [macRemove_of_error h hid]
    exact Or.inl rfl
  | ok pd =>
    obtain ⟨p, d⟩ := pd
    rw [macRemove_of_ok h hid]
    rcases change_cases h.faults .removeInstance d (·.removeDirAll d) w with
      ⟨fs, -, hfs, hrun⟩ | ⟨e, hrun⟩
    · obtain ⟨-, rfl⟩ := removeDirAll_eq_ok_iff.mp hfs
      rw [World.removeDirAll, hrun]
      by_cases hin : w.fs.locate d <+: st.indexAt w.fs.cwd
      · refine Or.inr ⟨⟨_, ⟨p, d, hid, rfl⟩, hin⟩, ?_⟩
        apply Store.index_of_fileAt_none
        simp [World.fileAt, World.applied, FileSystem.fileAt, hin]
      · refine Or.inl (Store.index_congr rfl ?_)
        simp [World.fileAt, World.applied, FileSystem.fileAt, hin]
    · rw [World.removeDirAll, hrun]
      exact Or.inl rfl

theorem index_mechRemove (M : Machine) (h : MechHost) (kind : MechanismKind) (runtimeId : String) :
    Preserves (fun w w' => M.store.index w' = M.store.index w ∨
      (resolveMechanism M.os kind = .mac ∧ LosesIndex M.store w.fs.cwd runtimeId ∧
        M.store.index w' = none)) (mechRemove M h kind runtimeId) := by
  have hpodman : ∀ w,
      M.store.index (PodmanMechanism.remove {} h runtimeId w).2 = M.store.index w :=
    Store.index_of_preserves (fun _ => extends_podmanRemove (P := fun _ => False) {} h runtimeId)
      (fun _ _ h => h.elim)
  unfold mechRemove
  split
  · exact fun w => Or.inl (hpodman w)
  · exact fun w => Or.inl (hpodman w)
  · rename_i hkind
    intro w
    rcases index_macRemove M.store h runtimeId w with hkeep | hlost
    · exact Or.inl hkeep
    · exact Or.inr ⟨hkind, hlost⟩
  · exact fun w => Or.inl rfl

theorem mechCreate_mac (M : Machine) (h : MechHost) {kind : MechanismKind} (req : CreateRequest)
    (hkind : kind = .mac) : mechCreate M h kind req = M.mac.create h req := by
  subst hkind
  rfl

theorem mechCreate_podman (M : Machine) (h : MechHost) {kind : MechanismKind}
    (req : CreateRequest) (hkind : kind = .podman) :
    mechCreate M h kind req = PodmanMechanism.create {} h req := by
  subst hkind
  rfl

theorem not_krun_of_mechCreate {M : Machine} {h : MechHost} {kind : MechanismKind}
    {req : CreateRequest} {result : CreateResult} (hres : Returns (mechCreate M h kind req) result) :
    resolveMechanism M.os kind ≠ .krun := by
  obtain ⟨w, w', hrun⟩ := hres
  intro hkind
  rw [mechCreate, hkind] at hrun
  simp at hrun

/-- A persistent sandbox of the mac mechanism gets the path of its profile as runtime id. -/
theorem runtimeId_of_macCreate {M : Machine} {h : MechHost} {req : CreateRequest}
    {result : CreateResult} (heph : req.ephemeral = false) (hcommand : req.command = [])
    (hres : Returns (M.mac.create h req) result) : result.runtimeId = M.macRuntimeId req.name := by
  obtain ⟨w, w', hrun⟩ := hres
  unfold MacMechanism.create at hrun
  split at hrun
  · simp at hrun
  · obtain ⟨file, w₁, -, hrun⟩ := bind_eq_ok_iff.mp hrun
    have hpersistent : (req.ephemeral || !req.command.isEmpty) = false := by simp [heph, hcommand]
    rw [if_neg (by simp [hpersistent])] at hrun
    obtain ⟨-, w₂, -, hrun⟩ := bind_eq_ok_iff.mp hrun
    obtain ⟨-, w₃, -, hrun⟩ := bind_eq_ok_iff.mp hrun
    obtain ⟨-, w₄, -, hrun⟩ := bind_eq_ok_iff.mp hrun
    obtain ⟨-, w₅, -, hrun⟩ := bind_eq_ok_iff.mp hrun
    obtain ⟨hresult, -⟩ := Prod.mk.inj hrun
    rw [← Except.ok.inj hresult]
    rfl

end Mechanisms

end SimpleSandbox
