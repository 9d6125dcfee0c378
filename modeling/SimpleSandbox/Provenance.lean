import SimpleSandbox.Preflight
import SimpleSandbox.RunExec

/-!
# Where the profiles and the limits of children come from

A child of the mac mechanism runs under a profile and takes its limits from a policy.  Both may
have passed through files that other processes left.  In every run of processes they lead back
to a policy that one of the processes has validated and preflighted, to a file that stood there
before the first of them, or, for the limits, to the default policy.
-/

namespace SimpleSandbox

open RustText OsPath FileSystem Effect World

/-! ## What a program adds -/

/-- What a program leaves beyond what it found: files and children of these kinds. -/
structure Adds (W : Location → FileData → Prop) (C : ChildSpec → Prop) (w w' : World) : Prop where
  files : ∀ q d, w'.fileAt q = some d → w.fileAt q = some d ∨ W q d
  children : ∀ c ∈ w'.children, c ∈ w.children ∨ C c

namespace Adds

variable {W W' : Location → FileData → Prop} {C C' : ChildSpec → Prop} {w w₁ w₂ : World}

theorem refl (w : World) : Adds W C w w := ⟨fun _ _ h => Or.inl h, fun _ h => Or.inl h⟩

theorem trans (h₁ : Adds W C w w₁) (h₂ : Adds W C w₁ w₂) : Adds W C w w₂ where
  files q d h := (h₂.files q d h).elim (h₁.files q d) Or.inr
  children c h := (h₂.children c h).elim (h₁.children c) Or.inr

theorem mono (hW : ∀ q d, W q d → W' q d) (hC : ∀ c, C c → C' c) (h : Adds W C w w₁) :
    Adds W' C' w w₁ where
  files q d hd := (h.files q d hd).imp_right (hW q d)
  children c hc := (h.children c hc).imp_right (hC c)

theorem of_eq (hfs : w₁.fs = w.fs) (hchildren : w₁.children = w.children) : Adds W C w w₁ where
  files q d hd := by
    rw [World.fileAt, hfs] at hd
    exact Or.inl hd
  children c hc := by
    rw [hchildren] at hc
    exact Or.inl hc

end Adds

section Programs

variable {W : Location → FileData → Prop} {C : ChildSpec → Prop} {ε ε' α β : Type}

theorem adds_bind {m : Effect World ε α} {g : α → Effect World ε β}
    (hm : Preserves (Adds W C) m) (hg : ∀ a, Preserves (Adds W C) (g a)) :
    Preserves (Adds W C) (m >>= g) := Preserves.bind (R := Adds W C) Adds.trans hm hg

/-- The second part only runs on what the first returns. -/
theorem adds_seq {m : Effect World ε α} {g : α → Effect World ε β}
    (hm : Preserves (Adds W C) m) (hg : ∀ a, Returns m a → Preserves (Adds W C) (g a)) :
    Preserves (Adds W C) (m >>= g) := Preserves.seq hm hg id Adds.trans

theorem adds_of_reads {m : Effect World ε α} (hm : Reads m) : Preserves (Adds W C) m := by
  intro w
  rw [← hm w]
  exact Adds.refl w

theorem adds_lift (r : Except ε α) : Preserves (Adds W C) (lift r : Effect World ε α) := Adds.refl

theorem adds_pure (a : α) : Preserves (Adds W C) (pure a : Effect World ε α) := Adds.refl

theorem adds_fail (e : ε) : Preserves (Adds W C) (fail e : Effect World ε α) := Adds.refl

theorem adds_change {f : Faults} {site : Site} {p : PathBuf}
    {op : FileSystem FileData → Except IoError (FileSystem FileData)}
    (hop : ∀ fs fs', op fs = .ok fs' →
      ∀ q d, fs'.fileAt q = some d → fs.fileAt q = some d ∨ W q d) :
    Preserves (Adds W C) (change f site p op) := by
  intro w
  rcases change_cases f site p op w with ⟨fs, -, hfs, hrun⟩ | ⟨e, hrun⟩
  · rw [hrun]
    exact ⟨hop w.fs fs hfs, fun _ h => Or.inl h⟩
  · rw [hrun]
    exact Adds.refl w

theorem adds_writeFile (f : Faults) (site : Site) {p : PathBuf} {contents : FileData}
    (h : ∀ cwd, W (resolve cwd p) contents) :
    Preserves (Adds W C) (World.writeFile f site p contents) := by
  refine adds_change fun fs fs' hwrite q d hd => ?_
  obtain ⟨-, rfl⟩ := write_eq_ok_iff.mp hwrite
  rw [fileAt_set] at hd
  split at hd
  · rename_i hq
    obtain rfl := Option.some.inj hd
    rw [hq]
    exact Or.inr (h fs.cwd)
  · exact Or.inl hd

theorem adds_createDirAll (f : Faults) (site : Site) (p : PathBuf) :
    Preserves (Adds W C) (World.createDirAll f site p) := by
  refine adds_change fun fs fs' hmake q d hd => ?_
  rw [fileAt_createDirAll hmake] at hd
  exact Or.inl hd

/-- A file system with nodes taken away holds no new file. -/
theorem fileAt_of_dropped {fs : FileSystem FileData} {gone : Location → Prop} [DecidablePred gone]
    {q : Location} {d : FileData}
    (h : ({ fs with node := fun r => if gone r then none else fs.node r } :
      FileSystem FileData).fileAt q = some d) : fs.fileAt q = some d := by
  unfold FileSystem.fileAt at *
  by_cases hq : gone q
  · simp [hq] at h
  · simpa [hq] using h

theorem adds_removeFile (f : Faults) (site : Site) (p : PathBuf) :
    Preserves (Adds W C) (World.removeFile f site p) := by
  refine adds_change fun fs fs' hremove q d hd => Or.inl ?_
  obtain ⟨-, rfl⟩ := removeFile_eq_ok_iff.mp hremove
  exact fileAt_of_dropped hd

theorem adds_removeDirAll (f : Faults) (site : Site) (p : PathBuf) :
    Preserves (Adds W C) (World.removeDirAll f site p) := by
  refine adds_change fun fs fs' hremove q d hd => Or.inl ?_
  obtain ⟨-, rfl⟩ := removeDirAll_eq_ok_iff.mp hremove
  exact fileAt_of_dropped hd

/-- A change of the containers. -/
theorem adds_update {g : World → World}
    (hg : ∀ w, (g w).fs = w.fs ∧ (g w).children = w.children) :
    Preserves (Adds W C) (update g : Effect World ε Unit) := fun w => .of_eq (hg w).1 (hg w).2

end Programs

/-! ## What the programs of the command line add -/

/-- What the files of a zone may hold: policies that meet `A` and, in the place of a profile,
    texts that meet `G`. -/
def Holds (Z : Location → Prop) (A : SandboxPolicy → Prop) (G : String → Prop) (q : Location) :
    FileData → Prop
  | .index _ => True
  | .policy p => Z q → A p
  | .text t => Z q → q.getLast? = some (osString "profile.sb") → G t

/-- The profile and the limits of a child come from what `A` and `G` allow, or from the files of
    a first world. -/
structure Vouched (w₀ : World) (A : SandboxPolicy → Prop) (G : String → Prop) (c : ChildSpec) :
    Prop where
  profile : ∀ t, c.profile = some t → G t ∨ ∃ q, w₀.fileAt q = some (.text t)
  policy : c.policy = {} ∨ A c.policy ∨ ∃ q, w₀.fileAt q = some (.policy c.policy)

theorem Holds.mono {Z : Location → Prop} {A A' : SandboxPolicy → Prop} {G G' : String → Prop}
    (hA : ∀ p, A p → A' p) (hG : ∀ t, G t → G' t) {q : Location} {d : FileData}
    (h : Holds Z A G q d) : Holds Z A' G' q d := by
  cases d with
  | index s => trivial
  | policy p => exact fun hz => hA p (h hz)
  | text t => exact fun hz hq => hG t (h hz hq)

theorem Vouched.mono {w₀ : World} {A A' : SandboxPolicy → Prop} {G G' : String → Prop}
    (hA : ∀ p, A p → A' p) (hG : ∀ t, G t → G' t) {c : ChildSpec} (h : Vouched w₀ A G c) :
    Vouched w₀ A' G' c :=
  ⟨fun t ht => (h.profile t ht).imp_left (hG t), h.policy.imp_right (Or.imp_left (hA _))⟩

section Commands

variable {Z : Location → Prop} {A : SandboxPolicy → Prop} {G : String → Prop}
  {C : ChildSpec → Prop} {ε α : Type}

/-! ### The store -/

theorem adds_put (site : Site) (q : Location) (s : SandboxState) (w : World) :
    Adds (Holds Z A G) C w (Store.put site q (.index s) w) := by
  refine ⟨fun r d hd => ?_, fun _ h => Or.inl h⟩
  rw [Store.put_fileAt] at hd
  split at hd
  · obtain rfl := Option.some.inj hd
    exact Or.inr trivial
  · exact Or.inl hd

theorem adds_modify (st : Store) (f : Faults)
    (op : SandboxState → Except StateError (α × SandboxState)) :
    Preserves (Adds (Holds Z A G) C) (st.modify f op) := by
  intro w
  rcases Store.modify_cases st f op w with ⟨s, a, s', -, -, -, -, hrun⟩ | ⟨e, hrun⟩
  · rw [hrun]
    exact adds_put _ _ s' w
  · rw [hrun]
    exact Adds.refl w

theorem adds_openAt (root : PathBuf) (f : Faults) :
    Preserves (Adds (Holds Z A G) C) (Store.openAt root f) := by
  have hdir : ∀ site p, Preserves (Adds (Holds Z A G) C)
      ((World.createDirAll f site p).mapError StateError.io) :=
    fun site p => Preserves.mapError (adds_createDirAll f site p) _
  unfold Store.openAt
  refine adds_bind (hdir _ _) fun _ => adds_bind (hdir _ _) fun _ => adds_bind (hdir _ _) fun _ =>
    adds_bind (hdir _ _) fun _ => adds_bind (Preserves.state Adds.refl) fun w => ?_
  split
  · refine adds_bind ?_ fun _ => adds_pure _
    unfold Store.writeIndex
    split
    · exact Preserves.mapError (adds_writeFile f _ fun cwd => trivial) _
    · exact adds_fail _
  · exact adds_pure _

theorem adds_savePolicy (st : Store) (ext : Externals) (f : Faults) (name : String)
    {p : SandboxPolicy} (hp : A p) :
    Preserves (Adds (Holds Z A G) C) (st.savePolicy ext f name p) := by
  unfold Store.savePolicy
  refine adds_bind (adds_lift _) fun _ => adds_bind ?_ fun _ => adds_pure _
  exact Preserves.mapError (adds_writeFile f _ fun _ _ => hp) _

theorem adds_updatePolicy (st : Store) (ext : Externals) (f : Faults) (name : String)
    {p : SandboxPolicy} (hp : A p) :
    Preserves (Adds (Holds Z A G) C) (st.updatePolicy ext f name p) := by
  rw [Store.updatePolicy_eq]
  exact adds_bind (adds_lift _) fun _ => adds_bind (adds_savePolicy st ext f name hp) fun _ =>
    adds_modify st f _

/-! ### The mechanisms -/

/-- A file joined to a directory lies under its own name. -/
theorem getLast?_resolve_join (cwd : Location) (p : PathBuf) {file : String}
    (hfile : IsName (osString file)) :
    (resolve cwd (join p (osString file))).getLast? = some (osString file) := by
  rw [resolve_join, hfile.resolve, List.getLast?_append]
  rfl

theorem adds_spawnSandboxed (h : MechHost) (profilePath : PathBuf) (profile : Option String)
    (policy : SandboxPolicy) (workdir : PathBuf) (command : List String)
    (env : List (String × String)) {w₀ w : World} (hw : Adds (Holds Z A G) C w₀ w)
    (hC : ∀ program, C ⟨program, profile, policy, workdir, env ++ MacMechanism.proxyEnv h policy⟩) :
    Adds (Holds Z A G) C w₀
      (MacMechanism.spawnSandboxed h profilePath profile policy workdir command env w).2 := by
  rcases MacMechanism.spawnSandboxed_cases h profilePath profile policy workdir command env w with
    ⟨e, hrun⟩ | ⟨program, hrun⟩
  · rw [hrun]
    exact hw
  · rw [hrun]
    refine hw.trans ⟨fun _ _ h => Or.inl h, fun c hc => ?_⟩
    rcases List.mem_append.mp hc with hold | hnew
    · exact Or.inl hold
    · rw [List.mem_singleton.mp hnew]
      exact Or.inr (hC program)

/-- The creation of an instance, or of a child at once. -/
theorem adds_macCreate (M : Machine) (h : MechHost) (req : CreateRequest) (hA : A req.policy)
    (hG : G (generateSeatbeltProfile h.canonicalize req.policy req.workdir))
    (hC : ∀ c : ChildSpec,
      c.profile = some (generateSeatbeltProfile h.canonicalize req.policy req.workdir) →
      c.policy = req.policy → C c) :
    Preserves (Adds (Holds Z A G) C) (M.mac.create h req) := by
  have hwrite : ∀ site (file : String) data dir, IsName (osString file) →
      (∀ q : Location, q.getLast? = some (osString file) → Holds Z A G q data) →
      Preserves (Adds (Holds Z A G) C) (World.writeFile h.faults site (join dir (osString file)) data) :=
    fun site file data dir hfile hdata => adds_writeFile h.faults site fun cwd =>
      hdata _ (getLast?_resolve_join cwd dir hfile)
  unfold MacMechanism.create
  split
  · exact adds_fail _
  · refine adds_bind (adds_lift _) fun file => ?_
    split
    · refine adds_bind (fun w => ?_) fun _ => adds_pure _
      exact adds_spawnSandboxed h _ _ _ _ _ _ (Adds.refl w) fun program => hC _ rfl rfl
    · refine adds_bind (Preserves.mapError (adds_createDirAll _ _ _) _) fun _ =>
        adds_bind ?_ fun _ => adds_bind ?_ fun _ => adds_bind ?_ fun _ => adds_pure _
      · exact Preserves.mapError
          (hwrite _ "profile.sb" (.text _) _ (by decide) fun q _ _ _ => hG) _
      · refine Preserves.mapError
          (hwrite _ "workdir" (.text _) _ (by decide) fun q hq _ hprofile => ?_) _
        rw [hq] at hprofile
        exact absurd hprofile (by decide)
      · unfold MacMechanism.copyPolicy
        split
        · exact adds_bind (Preserves.attempt
            (hwrite _ "policy.yaml" (.policy _) _ (by decide) fun q _ _ => hA)) fun _ => adds_pure _
        · exact adds_pure _

theorem adds_macRemove (h : MechHost) (runtimeId : String) :
    Preserves (Adds (Holds Z A G) C) (MacMechanism.remove h runtimeId) := by
  intro w
  cases hid : MacMechanism.profileOfRuntime runtimeId with
  | ok pd =>
    rw [macRemove_of_ok h hid]
    exact adds_removeDirAll _ _ _ w
  | error e =>
    rw [macRemove_of_error h hid]
    exact Adds.refl w

theorem adds_podmanCreate (m : PodmanMechanism) (h : MechHost) (req : CreateRequest) :
    Preserves (Adds (Holds Z A G) C) (m.create h req) := by
  have hadd : ∀ id name, Preserves (Adds (Holds Z A G) C)
      (update (PodmanMechanism.addContainer id name) : Effect World MechanismError Unit) :=
    fun id name => adds_update fun w => ⟨rfl, rfl⟩
  unfold PodmanMechanism.create
  refine adds_bind (adds_lift _) fun _ => adds_bind (adds_lift _) fun _ =>
    adds_bind (adds_lift _) fun args => ?_
  split
  · exact adds_bind (adds_lift _) fun _ => adds_pure _
  · refine adds_bind ?_ fun _ => adds_pure _
    unfold PodmanMechanism.runDetached
    split
    · exact adds_fail _
    · refine adds_bind ?_ fun _ => adds_fail _
      unfold PodmanMechanism.leaveBehind
      split
      · exact hadd _ _
      · exact adds_pure _
    · exact adds_bind (hadd _ _) fun _ => adds_pure _

theorem adds_podmanRemove (m : PodmanMechanism) (h : MechHost) (runtimeId : String) :
    Preserves (Adds (Holds Z A G) C) (m.remove h runtimeId) := by
  have hdrop : ∀ key, Preserves (Adds (Holds Z A G) C)
      (update (PodmanMechanism.dropContainer key) : Effect World MechanismError Unit) :=
    fun key => adds_update fun w => ⟨rfl, rfl⟩
  unfold PodmanMechanism.remove
  refine adds_bind (adds_lift _) fun _ => ?_
  split
  · exact adds_pure _
  · split
    · exact adds_fail _
    · exact hdrop _
    · split
      · exact hdrop _
      · exact adds_pure _

theorem adds_mechCreate (M : Machine) (h : MechHost) (kind : MechanismKind) (req : CreateRequest)
    (hA : A req.policy) (hG : G (generateSeatbeltProfile h.canonicalize req.policy req.workdir))
    (hC : ∀ c : ChildSpec,
      c.profile = some (generateSeatbeltProfile h.canonicalize req.policy req.workdir) →
      c.policy = req.policy → C c) :
    Preserves (Adds (Holds Z A G) C) (mechCreate M h kind req) := by
  unfold mechCreate
  split
  · exact adds_podmanCreate {} h req
  · exact adds_podmanCreate {} h req
  · exact adds_macCreate M h req hA hG hC
  · exact adds_fail _

theorem adds_mechRemove (M : Machine) (h : MechHost) (kind : MechanismKind) (runtimeId : String) :
    Preserves (Adds (Holds Z A G) C) (mechRemove M h kind runtimeId) := by
  unfold mechRemove
  split
  · exact adds_podmanRemove {} h runtimeId
  · exact adds_podmanRemove {} h runtimeId
  · exact adds_macRemove h runtimeId
  · exact adds_fail _

/-! ### Entering -/

theorem fileAt_of_profileIn {profilePath : PathBuf} {w : World} {t : String}
    (h : MacMechanism.profileIn profilePath w = some t) :
    w.fileAt (resolve w.fs.cwd profilePath) = some (.text t) := by
  unfold MacMechanism.profileIn at h
  split at h
  · rename_i contents hread
    obtain rfl := Option.some.inj h
    exact read_eq_ok_iff.mp hread
  · exact nomatch h

theorem policyIn_cases (h : MechHost) (dir : PathBuf) (w : World) :
    MacMechanism.policyIn h dir w = {} ∨
    w.fileAt (resolve w.fs.cwd (join dir (osString "policy.yaml"))) =
      some (.policy (MacMechanism.policyIn h dir w)) := by
  unfold MacMechanism.policyIn
  split
  · rename_i p hread
    unfold World.readFile at hread
    split at hread
    · exact nomatch hread
    · exact Or.inr (read_eq_ok_iff.mp hread)
  · exact Or.inl rfl

/-- The files of an instance that an entry reads lie in the zone. -/
def ReadsWithin (M : Machine) (Z : Location → Prop) (cwd : Location) (name : String) : Prop :=
  Z (M.removedAt cwd name ++ [osString "profile.sb"]) ∧
  Z (M.removedAt cwd name ++ [osString "policy.yaml"])

/-- The child of an entry takes its profile and its limits from files. -/
theorem vouched_of_entry {M : Machine} {w₀ w : World}
    (hw : Adds (Holds Z A G) (Vouched w₀ A G) w₀ w) (h : MechHost) {name : String}
    (hzone : ReadsWithin M Z w.fs.cwd name) {profilePath dir : PathBuf} {c : ChildSpec}
    (hat : resolve w.fs.cwd profilePath = M.removedAt w.fs.cwd name ++ [osString "profile.sb"])
    (hdir : resolve w.fs.cwd dir = M.removedAt w.fs.cwd name)
    (hprofile : c.profile = MacMechanism.profileIn profilePath w)
    (hpolicy : c.policy = MacMechanism.policyIn h dir w) : Vouched w₀ A G c := by
  constructor
  · intro t ht
    rw [hprofile] at ht
    have hfile := fileAt_of_profileIn ht
    rw [hat] at hfile
    rcases hw.files _ _ hfile with hstood | hheld
    · exact Or.inr ⟨_, hstood⟩
    · exact Or.inl (hheld hzone.1 (by rw [List.getLast?_append]; rfl))
  · rw [hpolicy]
    have hyaml : IsName (osString "policy.yaml") := by decide
    rcases policyIn_cases h dir w with hdefault | hfile
    · exact Or.inl hdefault
    · rw [resolve_join, hdir, hyaml.resolve] at hfile
      rcases hw.files _ _ hfile with hstood | hheld
      · exact Or.inr (Or.inr ⟨_, hstood⟩)
      · exact Or.inr (Or.inl (hheld hzone.2))

theorem adds_mechExec {M : Machine} (h : MechHost) {r : SandboxRecord} (hr : M.Issued r)
    (command : List String) {w₀ w : World} (hzone : ReadsWithin M Z w.fs.cwd r.name)
    (hw : Adds (Holds Z A G) (Vouched w₀ A G) w₀ w) :
    Adds (Holds Z A G) (Vouched w₀ A G) w₀
      (mechExec M h r.mechanism (enterRequest r command) w).2 := by
  rcases hr.kind with hpodman | hmac
  · rw [hpodman]
    exact hw
  · obtain ⟨profilePath, dir, hid, hdir⟩ := M.exists_profileOfRuntime r.name
    have hat := Machine.resolve_profileOfRuntime hid w.fs.cwd
    rw [← hr.runtimeId hmac] at hid
    rw [hmac]
    change Adds _ _ w₀ (MacMechanism.exec h (enterRequest r command) w).2
    rw [MacMechanism.exec_eq h (enterRequest r command) hid w]
    exact adds_spawnSandboxed h _ _ _ _ _ _ hw fun program =>
      vouched_of_entry hw h hzone hat (hdir w.fs.cwd) rfl rfl

theorem adds_execRecord {M : Machine} (env : ProcessEnv) (command : List String)
    {r : SandboxRecord} (hr : M.Issued r) {w₀ w : World} (hzone : ReadsWithin M Z w.fs.cwd r.name)
    (hw : Adds (Holds Z A G) (Vouched w₀ A G) w₀ w) :
    Adds (Holds Z A G) (Vouched w₀ A G) w₀ (execRecord M env command r w).2 := by
  rw [execRecord, Store.touchLastUsed_eq_modify]
  have htouched := hw.trans (adds_modify M.store env.faults (fun s => .ok ((), s.touch r.name)) w)
  rcases Store.modify_cases M.store env.faults (fun s => .ok ((), s.touch r.name)) w with
    ⟨s, u, s', -, -, -, -, htouch⟩ | ⟨e, htouch⟩
  · rw [htouch] at htouched
    rw [bind_of_ok (mapError_eq_ok_iff.mpr htouch), bind_pure_snd, mapError_snd]
    exact adds_mechExec _ hr command hzone htouched
  · rw [htouch] at htouched
    rw [bind_of_error (mapError_eq_error_iff.mpr ⟨e, rfl, htouch⟩)]
    exact htouched

/-- The records of a world whose files lie in the zone. -/
def AllWithin (M : Machine) (Z : Location → Prop) (cwd : Location) (c : Option SandboxState) : Prop :=
  ∀ s, c = some s → ∀ r ∈ s.sandboxes, ReadsWithin M Z cwd r.name

theorem adds_cmdExec {M : Machine} (env : ProcessEnv) (name : Option String)
    (command : List String) {w₀ w : World} (hissued : M.AllIssued (M.store.index w))
    (hzone : AllWithin M Z w.fs.cwd (M.store.index w))
    (hw : Adds (Holds Z A G) (Vouched w₀ A G) w₀ w) :
    Adds (Holds Z A G) (Vouched w₀ A G) w₀ (cmdExec M env name command w).2 := by
  rw [cmdExec_eq]
  rcases lookup_cases M.store env.lookupFaults name (execRecord M env command) w with
    ⟨s, r, hs, hget, hrun⟩ | ⟨e, hrun⟩
  · rw [hrun]
    have hr := SandboxState.mem_of_getOrLast hget
    exact adds_execRecord env command (hissued s hs r hr) (hzone s hs r hr) hw
  · rw [hrun]
    exact hw

end Commands

/-! ## What a process vouches for -/

/-- The request a process hands to its mechanism, if it gets so far. -/
inductive Prepares (M : Machine) (a : Invocation) : Prepared → Prop
  | create {name : Option String} {args : PolicyArgs} {p : Prepared}
      (hcommand : a.command = .create name args)
      (hp : prepare M a.env (createName name) args id false [] = .ok p) : Prepares M a p
  | run {name : Option String} {args : PolicyArgs} {command : List String} {p : Prepared}
      (hcommand : a.command = .run name args command)
      (hp : prepare M a.env (name.getD a.env.runName) args (preferAvailable M a.env) true command =
        .ok p) : Prepares M a p

/-- A process has validated and preflighted the policy. -/
inductive Admits (M : Machine) (a : Invocation) (policy : SandboxPolicy) : Prop
  | request {p : Prepared} (hp : Prepares M a p) (hpolicy : p.request.policy = policy)
      (hpreflight : preflight M.ext policy {} = .ok ())
  | set {name : Option String} {file : Except PolicyError SandboxPolicy}
      (hcommand : a.command = .policySet name file) (hload : loadFile file = .ok policy)
      (hpreflight : preflight M.ext policy {} = .ok ())

/-- A process has made the profile from the policy and the working directory of its request. -/
def Generates (M : Machine) (a : Invocation) (profile : String) : Prop :=
  ∃ p, Prepares M a p ∧ preflight M.ext p.request.policy {} = .ok () ∧
    profile = generateSeatbeltProfile a.env.canonicalize p.request.policy p.request.workdir

theorem Prepares.preflight {M : Machine} {a : Invocation} {p : Prepared} (h : Prepares M a p) :
    preflight M.ext p.request.policy {} = .ok () := by
  cases h with
  | create hcommand hp =>
    obtain ⟨loaded, -, hfrom⟩ := from_of_prepare hp
    exact hfrom.preflight
  | run hcommand hp =>
    obtain ⟨loaded, -, hfrom⟩ := from_of_prepare hp
    exact hfrom.preflight

theorem Admits.preflight {M : Machine} {a : Invocation} {policy : SandboxPolicy}
    (h : Admits M a policy) : preflight M.ext policy {} = .ok () := by
  cases h with
  | request _ _ h => exact h
  | set _ _ h => exact h

section Process

variable {M : Machine} {a : Invocation} {Z : Location → Prop} {A : SandboxPolicy → Prop}
  {G : String → Prop} {w₀ : World}

theorem adds_prepared (hA : ∀ p, Admits M a p → A p) (hG : ∀ t, Generates M a t → G t)
    {p : Prepared} (hp : Prepares M a p) :
    Preserves (Adds (Holds Z A G) (Vouched w₀ A G))
      (mechCreate M (a.env.mechHost M p.proxyPort) p.kind p.request) := by
  have hadmitted : A p.request.policy := hA _ (.request hp rfl hp.preflight)
  have hgenerated := hG _ ⟨p, hp, hp.preflight, rfl⟩
  refine adds_mechCreate M _ p.kind p.request hadmitted hgenerated fun c hprofile hpolicy => ?_
  refine ⟨fun t ht => Or.inl ?_, Or.inr (Or.inl (by rw [hpolicy]; exact hadmitted))⟩
  obtain rfl := Option.some.inj (hprofile.symm.trans ht)
  exact hgenerated

theorem adds_createPrepared (hA : ∀ p, Admits M a p → A p) (hG : ∀ t, Generates M a t → G t)
    {p : Prepared} (hp : Prepares M a p) (name : String) :
    Preserves (Adds (Holds Z A G) (Vouched w₀ A G)) (createPrepared M a.env name p) := by
  unfold createPrepared
  refine adds_bind (Preserves.mapError (adds_prepared hA hG hp) _) fun result =>
    adds_bind (adds_lift _) fun record => adds_bind (Preserves.mapError ?_ _) fun _ =>
    adds_bind (Preserves.mapError ?_ _) fun _ => adds_pure _
  · exact adds_savePolicy _ _ _ _ (hA _ (.request hp rfl hp.preflight))
  · rw [Store.insert_eq_modify]
    exact adds_modify _ _ _

/-- **One command.** -/
theorem adds_execute (hA : ∀ p, Admits M a p → A p) (hG : ∀ t, Generates M a t → G t) {w : World}
    (hissued : M.AllIssued (M.store.index w)) (hzone : AllWithin M Z w.fs.cwd (M.store.index w))
    (hw : Adds (Holds Z A G) (Vouched w₀ A G) w₀ w) :
    Adds (Holds Z A G) (Vouched w₀ A G) w₀ (execute M a.env a.command w).2 := by
  have hread : ∀ {α : Type} {m : Effect World CliError α}, Reads m →
      Adds (Holds Z A G) (Vouched w₀ A G) w₀ (m w).2 := fun hm => hw.trans (adds_of_reads hm w)
  cases hcommand : a.command with
  | create name args =>
    rw [execute, bind_pure_snd, cmdCreate]
    refine hw.trans (adds_seq (adds_lift _) (fun p hp => ?_) w)
    exact adds_createPrepared hA hG (.create hcommand (returns_lift hp)) _
  | run name args command =>
    rw [execute, cmdRun]
    refine hw.trans (adds_seq (adds_lift _) (fun p hp => ?_) w)
    exact adds_bind (Preserves.mapError
      (adds_prepared hA hG (.run hcommand (returns_lift hp))) _) fun _ => adds_pure _
  | exec name command => exact adds_cmdExec a.env name command hissued hzone hw
  | shell name =>
    rw [execute]
    rcases cmdShell_cases M a.env name w with ⟨command, hrun⟩ | ⟨e, hrun⟩
    · rw [hrun]
      exact adds_cmdExec a.env name command hissued hzone hw
    · rw [hrun]
      exact hw
  | policyGet name => exact hread ((reads_cmdPolicyGet M a.env name).bind_pure _)
  | policySet name file =>
    rw [execute, bind_pure_snd, cmdPolicySet]
    refine hw.trans (adds_bind (adds_of_reads (Preserves.mapError
      (reads_getOrLast M.store a.env.lookupFaults name) _)) (fun r => ?_) w)
    refine adds_seq (adds_lift _) fun p hp => adds_seq (adds_lift _) fun u hu => ?_
    have hload : loadFile file = .ok p := except_mapError_eq_ok (returns_lift hp)
    have hpreflight : preflight M.ext p {} = .ok u := except_mapError_eq_ok (returns_lift hu)
    exact Preserves.mapError
      (adds_updatePolicy M.store M.ext a.env.faults r.name (hA p (.set hcommand hload hpreflight))) _
  | ls => exact hread ((reads_cmdLs M a.env).bind_pure _)
  | rm key =>
    rw [execute, bind_pure_snd, cmdRm]
    refine hw.trans (adds_bind (Preserves.mapError ?_ _) (fun r => Preserves.mapError ?_ _) w)
    · rw [Store.remove_eq]
      exact adds_bind (adds_modify _ _ _) fun r =>
        adds_bind (Preserves.attempt (adds_removeFile _ _ _)) fun _ => adds_pure _
    · exact adds_mechRemove M _ _ _
  | logs name => exact hread ((reads_cmdLogs M a.env name).bind_pure _)
  | doctor => exact hw

/-- **One process**, from the opening of the store on. -/
theorem adds_ssbx (hA : ∀ p, Admits M a p → A p) (hG : ∀ t, Generates M a t → G t) {w : World}
    (hissued : M.AllIssued (M.store.index w)) (hzone : AllWithin M Z w.fs.cwd (M.store.index w))
    (hw : Adds (Holds Z A G) (Vouched w₀ A G) w₀ w) :
    Adds (Holds Z A G) (Vouched w₀ A G) w₀ (ssbx M a.env a.command w).2 := by
  have hopened := hw.trans (adds_openAt M.root a.env.faults w)
  have hindex := (Machine.opened_openAt (M := M) a.env.faults w).index
  have hcwd := (Machine.opened_openAt (M := M) a.env.faults w).events.cwd_eq rfl
  rcases hopen : Store.openAt M.root a.env.faults w with ⟨e | st, w₁⟩
  · rw [hopen] at hopened
    rw [Machine.ssbx_of_not_opened hopen]
    exact hopened
  · rw [hopen] at hopened hindex hcwd
    rw [Machine.ssbx_of_opened hopen]
    refine adds_execute hA hG (hindex.all hissued) (hindex.all fun s hs r hr => ?_) hopened
    rw [hcwd]
    exact hzone s hs r hr

end Process

/-! ## Runs -/

/-- Some process of the run has admitted the policy. -/
def AdmittedBy (M : Machine) (as : List Invocation) (policy : SandboxPolicy) : Prop :=
  ∃ a ∈ as, Admits M a policy

/-- Some process of the run has generated the profile. -/
def GeneratedBy (M : Machine) (as : List Invocation) (profile : String) : Prop :=
  ∃ a ∈ as, Generates M a profile

/-- What the files and the children of a run lead back to. -/
def Traced (M : Machine) (w₀ : World) (as : List Invocation) (w : World) : Prop :=
  Adds (Holds (fun _ => True) (AdmittedBy M as) (GeneratedBy M as))
    (Vouched w₀ (AdmittedBy M as) (GeneratedBy M as)) w₀ w

/-- A further process only adds to what has been admitted and generated. -/
theorem Traced.append {M : Machine} {w₀ w : World} {as : List Invocation} (h : Traced M w₀ as w)
    (a : Invocation) : Traced M w₀ (as ++ [a]) w := by
  have hA : ∀ p, AdmittedBy M as p → AdmittedBy M (as ++ [a]) p := fun p ⟨b, hb, hp⟩ =>
    ⟨b, List.mem_append_left _ hb, hp⟩
  have hG : ∀ t, GeneratedBy M as t → GeneratedBy M (as ++ [a]) t := fun t ⟨b, hb, ht⟩ =>
    ⟨b, List.mem_append_left _ hb, ht⟩
  exact Adds.mono (fun _ _ => Holds.mono hA hG) (fun _ => Vouched.mono hA hG) h

theorem traced_runs {M : Machine} {dir : Location} {w₀ w w' : World} {as : List Invocation}
    {a : Invocation} (h : Traced M w₀ as w) (hissued : M.AllIssued (M.records dir w))
    (hstep : M.Runs dir w a w') : Traced M w₀ (as ++ [a]) w' := by
  obtain ⟨hsees, rfl⟩ := hstep
  rw [hsees.records_enter] at hissued
  have hlast : a ∈ as ++ [a] := List.mem_append_right _ (List.mem_singleton.mpr rfl)
  have hentered : Traced M w₀ (as ++ [a]) (w.enter a.cwd) := ⟨(h.append a).files, (h.append a).children⟩
  exact adds_ssbx (fun p hp => ⟨a, hlast, hp⟩) (fun t ht => ⟨a, hlast, ht⟩) hissued
    (fun _ _ _ _ => ⟨trivial, trivial⟩) hentered

theorem traced_of_trace {M : Machine} {dir : Location} {w₀ w : World} {as : List Invocation}
    (hw₀ : M.Fresh dir w₀) (h : Trace (M.Runs dir) w₀ as w) : Traced M w₀ as w := by
  refine h.invariant (Traced M w₀) (Adds.refl w₀) fun as w a w' hrun htraced hstep => ?_
  have hreach : Reach (M.Fresh dir) (M.Runs dir) (fun _ _ => True) w :=
    hrun.reach hw₀ fun _ _ _ hrun => ⟨trivial, hrun⟩
  exact traced_runs htraced (Machine.allIssued_of_reach hreach) hstep

/-- **Every child is vouched for.**  In a run of any processes from a fresh host, the profile of
    a child is one that a process of the run has generated from its own preflighted policy, and
    the policy of its limits is the default or one that a process has preflighted, unless they
    stood in a file before the run. -/
theorem children_vouched (M : Machine) (dir : Location) (w₀ w : World) (as : List Invocation)
    (hw₀ : M.Fresh dir w₀) (h : Trace (M.Runs dir) w₀ as w) (c : ChildSpec) (hc : c ∈ w.children) :
    c ∈ w₀.children ∨ Vouched w₀ (AdmittedBy M as) (GeneratedBy M as) c :=
  (traced_of_trace hw₀ h).children c hc

/-- `ssbx exec {name} -- true` -/
def smallExec (name : String) : Invocation where
  command := .exec (some name) ["true"]
  env := smallEnv ""
  cwd := []

/-- The small host with pools that give what they have. -/
def fittingMachine : Machine := { smallMachine with ext := fittingExternals }

/-- The world after a creation with the mac mechanism and an entry. -/
def enteredWorld : World :=
  fittingMachine.after (fittingMachine.after emptyWorld (smallCreate .mac "a" "u")) (smallExec "a")

theorem trace_enteredWorld : Trace (fittingMachine.Runs []) emptyWorld
    [smallCreate .mac "a" "u", smallExec "a"] enteredWorld :=
  .next (.next .start ⟨Or.inl rfl, rfl⟩) ⟨Or.inl rfl, rfl⟩

theorem emptyWorld_fileAt (q : Location) : emptyWorld.fileAt q = none := by
  cases q with
  | nil => rfl
  | cons name q => rfl

theorem fresh_fittingMachine : fittingMachine.Fresh [] emptyWorld := ⟨by decide, rfl, rfl⟩

theorem children_vouched_entry :
    enteredWorld.children.length = 1 ∧ ∀ c ∈ enteredWorld.children, c ∈ emptyWorld.children ∨
      Vouched emptyWorld (AdmittedBy fittingMachine [smallCreate .mac "a" "u", smallExec "a"])
        (GeneratedBy fittingMachine [smallCreate .mac "a" "u", smallExec "a"]) c :=
  ⟨by decide +kernel, fun c hc => children_vouched fittingMachine [] emptyWorld enteredWorld _
    fresh_fittingMachine trace_enteredWorld c hc⟩

end SimpleSandbox
