import SimpleSandbox.Orphans
import SimpleSandbox.Instances
import SimpleSandbox.PodmanLine

/-!
# Containers over whole runs

A podman record and its container find each other by text only: by the id that the engine has
printed, or by the name `ssbx-` and the name of the sandbox.  With an engine that refuses a name
in use and draws fresh ids, every live podman sandbox has one container to itself, in every state
that any processes lead to.
-/

namespace SimpleSandbox

open RustText OsPath FileSystem Effect World

/-! ## Keys of containers -/

namespace Container

/-- No key finds both. -/
def Apart (c c' : Container) : Prop :=
  ∀ key, key ≠ "" → ¬ (c.answersTo key = true ∧ c'.answersTo key = true)

/-- The container of a record: it has the name of the sandbox, and the record has its id, or its
    name if the engine has printed no id. -/
structure BelongsTo (c : Container) (r : SandboxRecord) : Prop where
  name : c.name = containerName r.name
  runtimeId : r.runtimeId = if c.id = "" then c.name else c.id
  undashed : c.id.toList.head? ≠ some '-'

theorem answersTo_iff {c : Container} {key : String} :
    c.answersTo key = true ↔ c.id = key ∨ c.name = key := by
  rw [answersTo, Bool.or_eq_true, beq_iff_eq, beq_iff_eq]

/-- One container of a list answers to each of its keys. -/
theorem filter_answersTo {cs : List Container} (hcs : cs.Pairwise Apart) {c : Container}
    (hc : c ∈ cs) {key : String} (hkey : key ≠ "") (hanswers : c.answersTo key = true) :
    cs.filter (·.answersTo key) = [c] := by
  induction cs with
  | nil => exact absurd hc List.not_mem_nil
  | cons d cs ih =>
    obtain ⟨hd, hcs⟩ := List.pairwise_cons.mp hcs
    rcases List.mem_cons.mp hc with rfl | hc
    · have hnone : cs.filter (·.answersTo key) = [] := by
        apply List.filter_eq_nil_iff.mpr
        intro c' hc' hboth
        exact hd c' hc' key hkey ⟨hanswers, hboth⟩
      simp only [List.filter_cons, hanswers, if_true, hnone]
    · have hno : d.answersTo key = false := by
        by_contra hboth
        exact hd c hc key hkey ⟨by simpa using hboth, hanswers⟩
      simp only [List.filter_cons, hno, Bool.false_eq_true, if_false]
      exact ih hcs hc

/-- Two containers that answer to one key are the same. -/
theorem eq_of_answersTo {cs : List Container} (hcs : cs.Pairwise Apart) {c c' : Container}
    (hc : c ∈ cs) (hc' : c' ∈ cs) {key : String} (hkey : key ≠ "")
    (h : c.answersTo key = true) (h' : c'.answersTo key = true) : c = c' := by
  have hone := filter_answersTo hcs hc hkey h
  have hmem : c' ∈ cs.filter (·.answersTo key) := List.mem_filter.mpr ⟨hc', h'⟩
  rw [hone] at hmem
  exact (List.mem_singleton.mp hmem).symm

end Container

theorem containerName_ne_empty (name : String) : containerName name ≠ "" := by
  intro h
  have hlen := congrArg String.length h
  rw [containerName, String.length_append] at hlen
  exact absurd hlen (by simp)

theorem containerName_injective {name name' : String}
    (h : containerName name = containerName name') : name = name' := by
  have hlists := congrArg String.toList h
  rw [containerName, containerName, String.toList_append, String.toList_append] at hlists
  exact String.toList_injective (List.append_cancel_left hlists)

/-- A record names its container. -/
theorem Container.BelongsTo.answersTo {c : Container} {r : SandboxRecord} (h : c.BelongsTo r) :
    c.answersTo r.runtimeId = true ∧ r.runtimeId ≠ "" := by
  rw [h.runtimeId, answersTo_iff]
  by_cases hid : c.id = ""
  · rw [if_pos hid, h.name]
    exact ⟨Or.inr rfl, containerName_ne_empty r.name⟩
  · rw [if_neg hid]
    exact ⟨Or.inl rfl, hid⟩

/-! ## Honest engines -/

/-- No container is found by the key. -/
def World.Unused (w : World) (key : String) : Prop := ∀ c ∈ w.containers, c.answersTo key = false

/-- The id of the container that a `run` with these arguments brings into being. -/
def Engine.brings (e : Engine) (args : List String) : Option String :=
  match e.run args with
  | .notStarted _ => none
  | .failed _ left => left
  | .started stdout => some (trim stdout)

/-- What an engine promises of the containers it brings into being: the name that the command line
    gives is not in use, and the id is new and is no option. -/
structure Engine.Honest (e : Engine) (w : World) : Prop where
  name : ∀ args id line, e.brings args = some id → RunLine.decode allowlistGrammar args = some line →
    ∀ n ∈ line.names, w.Unused n
  id : ∀ args id, e.brings args = some id → id ≠ "" → w.Unused id
  undashed : ∀ args id, e.brings args = some id → id.toList.head? ≠ some '-'

namespace Machine

variable (M : Machine) (dir : Location)

/-- The engine of a process is honest, and its second try to remove a container, under the key
    `ssbx-` and the runtime id, finds no other sandbox that has this key for its container. -/
structure EngineHonest (w : World) (a : Invocation) : Prop where
  starts : a.env.engine.Honest w
  removes : ∀ key s r s', a.command = .rm key → M.records dir w = some s →
    s.remove key = .ok (r, s') → a.env.engine.rm r.runtimeId = .failed true →
    ∀ c ∈ w.containers, c.answersTo ("ssbx-" ++ r.runtimeId) = true → c.name = containerName r.name

/-- The containers of a world and the records of an index. -/
structure ContainersKept (cs : List Container) (c : Option SandboxState) : Prop where
  apart : cs.Pairwise Container.Apart
  owned : ∀ s, c = some s → ∀ r ∈ s.sandboxes, r.mechanism = .podman →
    ∃ c ∈ cs, c.BelongsTo r

variable {M dir}

/-! ## What a creation brings -/

/-- The container among the runtimes, if it is one. -/
def containerOf : Runtime → Option Container
  | .container c => some c
  | .inst _ => none

theorem containers_of_runtimes {w w' : World} (h : w'.runtimes = w.runtimes) :
    w'.containers = w.containers := by
  have hmap : ∀ w : World, w.runtimes.filterMap containerOf = w.containers := by
    intro w
    have hinst : w.instances.filterMap (containerOf ∘ Runtime.inst) = [] :=
      List.filterMap_eq_nil_iff.mpr fun _ _ => rfl
    rw [runtimes, List.filterMap_append, List.filterMap_map, List.filterMap_map, hinst,
      List.append_nil]
    exact List.filterMap_some
  rw [← hmap w', ← hmap w, h]

/-- A detached run brings a container into being, or does nothing. -/
theorem runDetached_cases (h : MechHost) (name : String) (args : List String) (w : World) :
    (∃ e, PodmanMechanism.runDetached h name args w = (.error e, w)) ∨
    ∃ id, h.engine.brings args = some id ∧
      ((∃ e, PodmanMechanism.runDetached h name args w =
        (.error e, PodmanMechanism.addContainer id (containerName name) w)) ∨
       PodmanMechanism.runDetached h name args w =
        (.ok id, PodmanMechanism.addContainer id (containerName name) w)) := by
  unfold PodmanMechanism.runDetached Engine.brings
  cases h.engine.run args with
  | notStarted e => exact Or.inl ⟨_, rfl⟩
  | failed stderr left =>
    cases left with
    | none => exact Or.inl ⟨_, rfl⟩
    | some id => exact Or.inr ⟨id, rfl, Or.inl ⟨_, rfl⟩⟩
  | started stdout => exact Or.inr ⟨_, rfl, Or.inr rfl⟩

/-- A creation of the podman mechanism does nothing, or brings one container into being. -/
theorem podmanCreate_brings (m : PodmanMechanism) (h : MechHost) {req : CreateRequest}
    (heph : req.ephemeral = false) (w : World) :
    (∃ e, m.create h req w = (.error e, w)) ∨
    ∃ args id, m.createArgs h req = .ok args ∧ h.engine.brings args = some id ∧
      ∃ res, m.create h req w = (res, PodmanMechanism.addContainer id (containerName req.name) w) ∧
        ∀ result, res = .ok result →
          result.runtimeId = if id = "" then containerName req.name else id := by
  cases hbin : m.runtimeBin h with
  | error e => exact Or.inl ⟨e, by rw [PodmanMechanism.create, hbin]; rfl⟩
  | ok bin =>
    cases husable : h.engine.usable with
    | error e =>
      refine Or.inl ⟨e, ?_⟩
      rw [PodmanMechanism.create, hbin, PodmanMechanism.runtimeOk_of_runtimeBin hbin, husable]
      rfl
    | ok arch =>
      cases hargs : m.createArgs h req with
      | error e =>
        refine Or.inl ⟨e, ?_⟩
        rw [PodmanMechanism.create, hbin, PodmanMechanism.runtimeOk_of_runtimeBin hbin, husable,
          hargs]
        rfl
      | ok args =>
        rw [podmanCreate_eq heph hbin husable hargs]
        rcases runDetached_cases h req.name args w with
          ⟨e, hrun⟩ | ⟨id, hid, ⟨e, hrun⟩ | hrun⟩
        · exact Or.inl ⟨e, bind_of_error hrun⟩
        · refine Or.inr ⟨args, id, rfl, hid, _, bind_of_error hrun, ?_⟩
          intro result hres
          cases hres
        · refine Or.inr ⟨args, id, rfl, hid, _, bind_of_ok hrun, ?_⟩
          intro result hres
          rw [← Except.ok.inj hres]

/-- A container whose keys are free stands apart from the others. -/
theorem apart_append {w : World} {id name : String} (hcs : w.containers.Pairwise Container.Apart)
    (hname : w.Unused name) (hid : id ≠ "" → w.Unused id) :
    (w.containers ++ [(⟨id, name⟩ : Container)]).Pairwise Container.Apart := by
  refine List.pairwise_append.mpr ⟨hcs, List.pairwise_singleton _ _, fun c hc c' hc' => ?_⟩
  obtain rfl := List.mem_singleton.mp hc'
  rintro key hkey ⟨hold, hnew⟩
  rcases Container.answersTo_iff.mp hnew with rfl | rfl
  · rw [hid hkey c hc] at hold
    cases hold
  · rw [hname c hc] at hold
    cases hold

/-- A prepared creation has brought the container with this id into being. -/
structure Brings (name : String) (p : Prepared) (w : World)
    (res : Except MechanismError CreateResult × World) (id : String) : Prop where
  kind : p.kind = .podman
  containers : res.2.containers = w.containers ++ [⟨id, containerName name⟩]
  named : w.Unused (containerName name)
  fresh : id ≠ "" → w.Unused id
  undashed : id.toList.head? ≠ some '-'
  result : ∀ result, res.1 = .ok result →
    result.runtimeId = if id = "" then containerName name else id

/-- No container was brought into being or taken away. -/
def SameContainers (w w' : World) : Prop := w'.containers = w.containers

/-- The mac mechanism has no containers. -/
theorem containers_makeInstance (m : MacMechanism) (h : MechHost) (req : CreateRequest) :
    Preserves SameContainers (m.makeInstance h req) := by
  have hbind : ∀ {α β : Type} {m : Effect World MechanismError α}
      {f : α → Effect World MechanismError β}, Preserves SameContainers m →
      (∀ a, Preserves SameContainers (f a)) → Preserves SameContainers (m >>= f) := fun hm hf =>
    Preserves.bind (R := SameContainers) (fun h₁ h₂ => Eq.trans h₂ h₁) hm hf
  have hchange : ∀ site p op, Preserves SameContainers (change h.faults site p op) := by
    intro site p op w
    rcases change_cases h.faults site p op w with ⟨fs, -, -, hrun⟩ | ⟨e, hrun⟩
    · rw [hrun]
      rfl
    · rw [hrun]
      rfl
  unfold MacMechanism.makeInstance MacMechanism.copyPolicy
  refine hbind (Preserves.mapError (hchange _ _ _) _) fun _ =>
    hbind (Preserves.mapError (hchange _ _ _) _) fun _ =>
      hbind (Preserves.mapError (hchange _ _ _) _) fun _ => hbind ?_ fun _ _ => rfl
  split
  · exact hbind (Preserves.attempt (hchange _ _ _)) fun _ _ => rfl
  · exact fun _ => rfl

/-- **A creation brings at most one container into being**, under keys that were free. -/
theorem brings_mechCreate {env : ProcessEnv} {name : String} {p : Prepared} {w : World}
    (hp : p.Persistent M name) (hhonest : env.engine.Honest w) :
    ((mechCreate M (env.mechHost M p.proxyPort) p.kind p.request w).2.containers = w.containers ∧
      ∀ result, (mechCreate M (env.mechHost M p.proxyPort) p.kind p.request w).1 = .ok result →
        p.kind ≠ .podman) ∨
    ∃ id, Brings name p w (mechCreate M (env.mechHost M p.proxyPort) p.kind p.request w) id := by
  have hauto := resolveMechanism_ne_auto M.os p.kind
  rw [hp.resolved] at hauto
  cases hkind : p.kind with
  | auto => exact absurd hkind hauto
  | krun => exact Or.inl ⟨rfl, fun _ _ => nofun⟩
  | mac =>
    rw [mechCreate_mac M _ _ rfl]
    refine Or.inl ⟨?_, fun _ _ => nofun⟩
    rcases macCreate_cases M.mac (env.mechHost M p.proxyPort) hp.ephemeral hp.command w with
      ⟨-, e, hrun⟩ | ⟨-, hrun⟩
    · rw [hrun]
    · rw [hrun]
      exact containers_makeInstance M.mac (env.mechHost M p.proxyPort) p.request w
  | podman =>
    rw [mechCreate_podman M _ _ rfl]
    rcases podmanCreate_brings {} (env.mechHost M p.proxyPort) hp.ephemeral w with
      ⟨e, hrun⟩ | ⟨args, id, hargs, hid, res, hrun, hres⟩
    · rw [hrun]
      exact Or.inl ⟨rfl, fun _ hno => nomatch hno⟩
    · obtain ⟨mem, -, hline⟩ := PodmanMechanism.decode_createArgs hargs
      rw [hrun]
      refine Or.inr ⟨id, hkind, ?_, ?_, hhonest.id args id hid, hhonest.undashed args id hid, ?_⟩
      · rw [PodmanMechanism.addContainer, hp.name_eq]
      · apply hhonest.name args id _ hid hline
        rw [PodmanMechanism.names_createLine, hp.name_eq]
        exact List.mem_singleton_self _
      · intro result hresult
        have hgiven := hres result hresult
        rw [hp.name_eq] at hgiven
        exact hgiven

/-! ## One process -/

theorem ContainersKept.of_subset {cs : List Container} {c c' : Option SandboxState}
    (h : ContainersKept cs c)
    (hc : ∀ s', c' = some s' → ∀ r ∈ s'.sandboxes,
      ∃ s, c = some s ∧ ∃ r₀ ∈ s.sandboxes, r₀.name = r.name ∧ r₀.mechanism = r.mechanism ∧
        r₀.runtimeId = r.runtimeId) : ContainersKept cs c' where
  apart := h.apart
  owned := by
    intro s' hs' r hr hpodman
    obtain ⟨s, hs, r₀, hr₀, hname, hkind, hid⟩ := hc s' hs' r hr
    obtain ⟨c, hcs, hc⟩ := h.owned s hs r₀ hr₀ (hkind.trans hpodman)
    exact ⟨c, hcs, by rw [hc.name, hname], by rw [← hid]; exact hc.runtimeId, hc.undashed⟩

theorem containers_createPrepared (env : ProcessEnv) (name : String) (p : Prepared) (w : World) :
    (createPrepared M env name p w).2.containers =
      (mechCreate M (env.mechHost M p.proxyPort) p.kind p.request w).2.containers :=
  containers_of_runtimes (runtimes_createPrepared M env name p w)

/-- **A creation keeps the containers.** -/
theorem containersKept_createPrepared {env : ProcessEnv} {name : String} {p : Prepared} {w : World}
    (hp : p.Persistent M name) (hhonest : env.engine.Honest w)
    (h : ContainersKept w.containers (M.store.index w)) :
    ContainersKept (createPrepared M env name p w).2.containers
      (M.store.index (createPrepared M env name p w).2) ∧
    ∀ c ∈ w.containers, c ∈ (createPrepared M env name p w).2.containers := by
  have hcontainers := containers_createPrepared (M := M) env name p w
  have hbrings := brings_mechCreate (M := M) (p := p) hp hhonest
  -- the containers that were there stay, and so do their records
  have hgrows : ContainersKept (createPrepared M env name p w).2.containers (M.store.index w) ∧
      ∀ c ∈ w.containers, c ∈ (createPrepared M env name p w).2.containers := by
    rw [hcontainers]
    rcases hbrings with ⟨hsame, -⟩ | ⟨id, hid⟩
    · rw [hsame]
      exact ⟨h, fun c hc => hc⟩
    · rw [hid.containers]
      refine ⟨⟨apart_append h.apart hid.named hid.fresh, fun s hs r hr hpodman => ?_⟩,
        fun c hc => List.mem_append_left _ hc⟩
      obtain ⟨c, hc, hbelongs⟩ := h.owned s hs r hr hpodman
      exact ⟨c, List.mem_append_left _ hc, hbelongs⟩
  refine ⟨?_, hgrows.2⟩
  rcases hrun : createPrepared M env name p w with ⟨e | u, w'⟩
  · rw [hrun] at hgrows
    rw [index_of_createPrepared_error hp hrun]
    exact hgrows.1
  · obtain ⟨r, w₁, s, r', s', hmake, hs, hinsert, -, rfl⟩ := createPrepared_ok hrun
    obtain ⟨result, w₂, record, hmech, hrecord, rfl⟩ := makeRecord_eq_ok hmake
    rw [hrun] at hgrows hcontainers
    rw [hmech] at hbrings hcontainers
    refine ⟨hgrows.1.apart, fun s₁ hs₁ r₁ hr₁ hpodman => ?_⟩
    rw [Store.index_withIndex] at hs₁
    obtain rfl := Option.some.inj hs₁
    rw [SandboxState.sandboxes_of_insert hinsert] at hr₁
    have hindex : M.store.index w = some s := by
      have hsame := index_makeRecord hp env w
      rw [hmake] at hsame
      rw [← hsame, hs]
    rcases List.mem_append.mp hr₁ with hold | hnew
    · exact hgrows.1.owned s hindex r₁ hold hpodman
    · -- the new record has the id of the new container
      obtain rfl := List.mem_singleton.mp hnew
      obtain ⟨id', rfl⟩ := SandboxState.exists_id_of_insert hinsert
      obtain ⟨hash, -, hrecord⟩ := except_bind_eq_ok hrecord
      obtain rfl := Except.ok.inj hrecord
      rcases hbrings with ⟨-, hother⟩ | ⟨id, hid⟩
      · exact absurd hpodman (hother result rfl)
      · refine ⟨⟨id, containerName name⟩, ?_, rfl, hid.result result rfl, hid.undashed⟩
        rw [hcontainers, hid.containers]
        exact List.mem_append_right _ (List.mem_singleton_self _)

/-- A removal of the podman mechanism leaves the containers it does not delete. -/
theorem containers_podmanRemove (m : PodmanMechanism) (h : MechHost) (runtimeId : String)
    (w : World) :
    (m.remove h runtimeId w).2.containers = w.containers ∨
    (m.remove h runtimeId w).2.containers =
      w.containers.filter fun c => !PodmanMechanism.deletes h runtimeId c := by
  by_cases hanswers : m.answers h runtimeId = true
  · rw [podmanRemove_of_answers hanswers]
    exact Or.inr rfl
  · refine Or.inl ?_
    unfold PodmanMechanism.remove
    cases hbin : m.runtimeBin h with
    | error e => rfl
    | ok bin =>
      rw [PodmanMechanism.answers, hbin] at hanswers
      rw [lift_ok_bind]
      by_cases heph : startsWith runtimeId "ephemeral:" = true
      · rw [if_pos heph]
        rfl
      · rw [if_neg heph]
        cases hrm : h.engine.rm runtimeId with
        | notStarted e => rfl
        | removed => simp [Except.isOk, Except.toBool, hrm] at hanswers
        | failed second => simp [Except.isOk, Except.toBool, hrm] at hanswers

theorem containers_macRemove (h : MechHost) {runtimeId : String} {p d : PathBuf}
    (hid : MacMechanism.profileOfRuntime runtimeId = .ok (p, d)) (w : World) :
    (MacMechanism.remove h runtimeId w).2.containers = w.containers := by
  rw [macRemove_of_ok h hid]
  rcases change_cases h.faults .removeInstance d (·.removeDirAll d) w with
    ⟨fs, -, -, hrun⟩ | ⟨e, hrun⟩
  · rw [World.removeDirAll, hrun]
    rfl
  · rw [World.removeDirAll, hrun]

/-- What is deleted for a record is its own container. -/
theorem belongsTo_of_deletes {h : MechHost} {r : SandboxRecord} {w : World}
    (hcs : w.containers.Pairwise Container.Apart) {c₀ : Container} (hc₀ : c₀ ∈ w.containers)
    (hbelongs : c₀.BelongsTo r)
    (hsecond : h.engine.rm r.runtimeId = .failed true → ∀ c ∈ w.containers,
      c.answersTo ("ssbx-" ++ r.runtimeId) = true → c.name = containerName r.name)
    {c : Container} (hc : c ∈ w.containers)
    (hdeletes : PodmanMechanism.deletes h r.runtimeId c = true) : c = c₀ := by
  rw [PodmanMechanism.deletes, Bool.and_eq_true] at hdeletes
  obtain ⟨-, hdeletes⟩ := hdeletes
  cases hrm : h.engine.rm r.runtimeId with
  | notStarted e =>
    rw [hrm] at hdeletes
    cases hdeletes
  | removed =>
    rw [hrm] at hdeletes
    exact Container.eq_of_answersTo hcs hc hc₀ hbelongs.answersTo.2 hdeletes hbelongs.answersTo.1
  | failed second =>
    rw [hrm] at hdeletes
    obtain ⟨rfl, hanswers⟩ := Bool.and_eq_true_iff.mp hdeletes
    have hname := hsecond hrm c hc hanswers
    apply Container.eq_of_answersTo hcs hc hc₀ (containerName_ne_empty r.name)
    · exact Container.answersTo_iff.mpr (Or.inr hname)
    · exact Container.answersTo_iff.mpr (Or.inr hbelongs.name)

/-- **A removal keeps the containers** of the other records, and takes away no other. -/
theorem containersKept_cmdRm {env : ProcessEnv} {key : String} {w : World}
    (hissued : M.AllIssued (M.store.index w))
    (hnodup : ∀ s, M.store.index w = some s → s.names.Nodup)
    (hsecond : ∀ s r s', M.store.index w = some s → s.remove key = .ok (r, s') →
      env.engine.rm r.runtimeId = .failed true → ∀ c ∈ w.containers,
        c.answersTo ("ssbx-" ++ r.runtimeId) = true → c.name = containerName r.name)
    (h : ContainersKept w.containers (M.store.index w)) :
    ContainersKept (cmdRm M env key w).2.containers (M.store.index (cmdRm M env key w).2) ∧
    ∀ c ∈ w.containers, c ∉ (cmdRm M env key w).2.containers → ∃ s r s',
      M.store.index w = some s ∧ s.remove key = .ok (r, s') ∧ r.mechanism = .podman ∧
      c.BelongsTo r := by
  rcases cmdRm_cases M env key w with ⟨s, r, s', -, hs, hremove, -, hrun⟩ | ⟨e, hrun⟩
  · have hr := SandboxState.mem_of_remove hremove
    have hcs₁ := containers_of_runtimes (M.runtimes_unlisted env.faults r.name s' w)
    have hindex₁ : M.store.index (M.store.dropPolicy env.faults r.name (M.store.withIndex s' w)) =
        some s' := by
      rw [Store.index_dropPolicy, Store.index_withIndex]
    rw [hrun, mapError_snd]
    generalize M.store.dropPolicy env.faults r.name (M.store.withIndex s' w) = w₁ at hcs₁ hindex₁ ⊢
    -- the records that stay
    have hstay : ∀ s₁, M.store.index (mechRemove M (env.mechHost M env.inheritedPort) r.mechanism
        r.runtimeId w₁).2 = some s₁ → ∀ r₁ ∈ s₁.sandboxes, r₁ ∈ s.sandboxes ∧ r₁.name ≠ r.name := by
      intro s₁ hs₁ r₁ hr₁
      have hkept : s₁ = s' := by
        rcases index_mechRemove M (env.mechHost M env.inheritedPort) r.mechanism r.runtimeId w₁ with
          hkeep | ⟨-, -, hgone⟩
        · rw [hs₁, hindex₁] at hkeep
          exact Option.some.inj hkeep
        · rw [hs₁] at hgone
          cases hgone
      subst hkept
      refine ⟨(SandboxState.sandboxes_of_remove hremove).subset hr₁, fun hname => ?_⟩
      have hgone := SandboxState.named_remove (hnodup s hs) hremove r₁.name
      rw [if_pos hname, SandboxState.named_eq_none_iff] at hgone
      exact hgone (List.mem_map_of_mem hr₁)
    rcases (hissued s hs r hr).kind with hpodman | hmac
    · obtain ⟨c₀, hc₀, hbelongs⟩ := h.owned s hs r hr hpodman
      have hown : ∀ c ∈ w.containers, PodmanMechanism.deletes (env.mechHost M env.inheritedPort)
          r.runtimeId c = true → c = c₀ := fun c hc hdeletes =>
        belongsTo_of_deletes h.apart hc₀ hbelongs (hsecond s r s' hs hremove) hc hdeletes
      have hrun' : mechRemove M (env.mechHost M env.inheritedPort) r.mechanism r.runtimeId w₁ =
          PodmanMechanism.remove {} (env.mechHost M env.inheritedPort) r.runtimeId w₁ := by
        rw [mechRemove, hpodman]
        rfl
      have hcases := containers_podmanRemove {} (env.mechHost M env.inheritedPort) r.runtimeId w₁
      rw [← hrun', hcs₁] at hcases
      constructor
      · refine ⟨?_, fun s₁ hs₁ r₁ hr₁ hpodman₁ => ?_⟩
        · rcases hcases with hsame | hfilter
          · rw [hsame]
            exact h.apart
          · rw [hfilter]
            exact h.apart.filter _
        · obtain ⟨hold, hne⟩ := hstay s₁ hs₁ r₁ hr₁
          obtain ⟨c, hc, hbelongs₁⟩ := h.owned s hs r₁ hold hpodman₁
          refine ⟨c, ?_, hbelongs₁⟩
          rcases hcases with hsame | hfilter
          · rw [hsame]
            exact hc
          · rw [hfilter, List.mem_filter]
            refine ⟨hc, ?_⟩
            rw [Bool.not_eq_true', Bool.eq_false_iff]
            intro hdeletes
            obtain rfl := hown c hc hdeletes
            exact hne (containerName_injective (hbelongs₁.name.symm.trans hbelongs.name))
      · intro c hc hgone
        rcases hcases with hsame | hfilter
        · rw [hsame] at hgone
          exact absurd hc hgone
        · rw [hfilter, List.mem_filter] at hgone
          have hdeletes : PodmanMechanism.deletes (env.mechHost M env.inheritedPort) r.runtimeId c =
              true := by
            by_contra hno
            exact hgone ⟨hc, by simpa using hno⟩
          rw [hown c hc hdeletes]
          exact ⟨s, r, s', hs, hremove, hpodman, hbelongs⟩
    · obtain ⟨p, d, hid, -⟩ := M.exists_profileOfRuntime r.name
      rw [← (hissued s hs r hr).runtimeId hmac] at hid
      have hsame : (mechRemove M (env.mechHost M env.inheritedPort) r.mechanism r.runtimeId
          w₁).2.containers = w.containers := by
        rw [mechRemove, hmac, ← hcs₁]
        exact containers_macRemove _ hid w₁
      rw [hsame]
      refine ⟨h.of_subset fun s₁ hs₁ r₁ hr₁ => ?_, fun c hc hgone => absurd hc hgone⟩
      exact ⟨s, hs, r₁, (hstay s₁ hs₁ r₁ hr₁).1, rfl, rfl, rfl⟩
  · rw [hrun]
    exact ⟨h, fun c hc hgone => absurd hc hgone⟩

/-- What a command does to the containers: it keeps those of the records, and takes away no other
    than that of the record it removes. -/
structure KeepsContainers (cmd : Command) (w : World) (w' : World) : Prop where
  kept : ContainersKept w'.containers (M.store.index w')
  taken : ∀ c ∈ w.containers, c ∉ w'.containers → ∃ key s r s', cmd = .rm key ∧
    M.store.index w = some s ∧ s.remove key = .ok (r, s') ∧ r.mechanism = .podman ∧ c.BelongsTo r

/-- A command that leaves all containers alone. -/
theorem keepsContainers_of_same {env : ProcessEnv} {cmd : Command} {w : World}
    (h : ContainersKept w.containers (M.store.index w)) (hcreate : ∀ name args, cmd ≠ .create name args)
    (hsame : (execute M env cmd w).2.containers = w.containers) :
    KeepsContainers (M := M) cmd w (execute M env cmd w).2 := by
  refine ⟨?_, fun c hc hgone => absurd (hsame ▸ hc) hgone⟩
  rw [hsame]
  refine h.of_subset fun s' hs' r hr => ?_
  exact records_of_indexStep (fun r => ∃ s, M.store.index w = some s ∧ ∃ r₀ ∈ s.sandboxes,
      r₀.name = r.name ∧ r₀.mechanism = r.mechanism ∧ r₀.runtimeId = r.runtimeId)
    (fun _ _ hr => hr) (fun s hs r hr => ⟨s, hs, r, hr, rfl, rfl, rfl⟩)
    (fun name args _ _ hcmd => absurd hcmd (hcreate name args))
    (indexStep_execute M env cmd w) s' hs' r hr

/-- **Every command keeps the containers.** -/
theorem keepsContainers_execute {env : ProcessEnv} {cmd : Command} {w : World}
    (hissued : M.AllIssued (M.store.index w))
    (hnodup : ∀ s, M.store.index w = some s → s.names.Nodup) (hhonest : env.engine.Honest w)
    (hsecond : ∀ key s r s', cmd = .rm key → M.store.index w = some s →
      s.remove key = .ok (r, s') → env.engine.rm r.runtimeId = .failed true →
      ∀ c ∈ w.containers, c.answersTo ("ssbx-" ++ r.runtimeId) = true →
        c.name = containerName r.name)
    (h : ContainersKept w.containers (M.store.index w)) :
    KeepsContainers (M := M) cmd w (execute M env cmd w).2 := by
  by_cases hquiet : cmd.quiet = true
  · refine keepsContainers_of_same h ?_ (containers_of_runtimes (quiet_execute M env hquiet w))
    rintro name args rfl
    cases hquiet
  cases cmd with
  | create name args =>
    rw [execute, bind_pure_snd, cmdCreate]
    cases hprep : prepare M env (createName name) args id false [] with
    | error e => exact ⟨h, fun c hc hgone => absurd hc hgone⟩
    | ok p =>
      obtain ⟨hkept, hgrows⟩ := containersKept_createPrepared (persistent_of_prepare hprep) hhonest h
      exact ⟨hkept, fun c hc hgone => absurd (hgrows c hc) hgone⟩
  | rm key =>
    rw [execute, bind_pure_snd]
    obtain ⟨hkept, htaken⟩ := containersKept_cmdRm hissued hnodup
      (fun s r s' => hsecond key s r s' rfl) h
    refine ⟨hkept, fun c hc hgone => ?_⟩
    obtain ⟨s, r, s', hs, hremove, hpodman, hbelongs⟩ := htaken c hc hgone
    exact ⟨key, s, r, s', rfl, hs, hremove, hpodman, hbelongs⟩
  | _ => exact absurd rfl hquiet

/-! ## Runs -/

/-- What a process takes away is the container of the record that its `rm` removes. -/
def TakesOwn (M : Machine) (dir : Location) (w : World) (a : Invocation) (w' : World) : Prop :=
  ∀ c ∈ w.containers, c ∉ w'.containers → ∃ key s r s', a.command = .rm key ∧
    M.records dir w = some s ∧ s.remove key = .ok (r, s') ∧ r.mechanism = .podman ∧ c.BelongsTo r

theorem containersKept_runs {w w' : World} {a : Invocation}
    (hissued : M.AllIssued (M.records dir w))
    (hkept : ∀ s, M.records dir w = some s → WellKept s)
    (h : ContainersKept w.containers (M.records dir w)) (hok : M.EngineHonest dir w a)
    (hstep : M.Runs dir w a w') :
    ContainersKept w'.containers (M.records dir w') ∧ TakesOwn M dir w a w' := by
  obtain ⟨hsees, rfl⟩ := hstep
  have hafter := Sees.records_ssbx (w := w.enter a.cwd) hsees a.env a.command
  rw [hafter]
  have hopened := opened_openAt (M := M) a.env.faults (w.enter a.cwd)
  have hcs : (Store.openAt M.root a.env.faults (w.enter a.cwd)).2.containers = w.containers :=
    containers_of_runtimes (quiet_openAt M.root a.env.faults (w.enter a.cwd))
  rcases hopen : Store.openAt M.root a.env.faults (w.enter a.cwd) with ⟨r, w₁⟩
  rw [hopen] at hopened hcs
  have hopens : Opens (M.records dir w) (M.store.index w₁) := by
    rw [hsees.records_enter w]
    exact hopened.index
  have hfirst : ContainersKept w₁.containers (M.store.index w₁) := by
    rw [show w₁.containers = w.containers from hcs]
    refine h.of_subset fun s hs r hr => ?_
    exact hopens.all (P := fun r => ∃ s, M.records dir w = some s ∧ ∃ r₀ ∈ s.sandboxes,
      r₀.name = r.name ∧ r₀.mechanism = r.mechanism ∧ r₀.runtimeId = r.runtimeId)
      (fun s hs r hr => ⟨s, hs, r, hr, rfl, rfl, rfl⟩) s hs r hr
  cases r with
  | error e =>
    rw [ssbx_of_not_opened hopen]
    exact ⟨hfirst, fun c hc hgone => absurd (show c ∈ w₁.containers from hcs ▸ hc) hgone⟩
  | ok st =>
    -- a record that is removed was there before the index was opened
    have hold : ∀ key s r s', M.store.index w₁ = some s → s.remove key = .ok (r, s') →
        M.records dir w = some s := by
      intro key s r s' hs hremove
      rcases hopens with hsame | ⟨-, hempty⟩
      · rw [← hsame, hs]
      · rw [hs] at hempty
        have hr := SandboxState.mem_of_remove hremove
        rw [Option.some.inj hempty] at hr
        cases hr
    have hhonest : a.env.engine.Honest w₁ :=
      ⟨fun args id line hid hline n hn c hc => hok.starts.name args id line hid hline n hn c (hcs ▸ hc),
        fun args id hid hne c hc => hok.starts.id args id hid hne c (hcs ▸ hc), hok.starts.undashed⟩
    have hcommand : KeepsContainers (M := M) a.command w₁ (execute M a.env a.command w₁).2 :=
      keepsContainers_execute (hopens.all hissued)
      (fun s hs => (wellKept_opens hopens hkept s hs).distinct) hhonest
      (fun key s r s' hcmd hs hremove hrm c hc => hok.removes key s r s' hcmd
        (hold key s r s' hs hremove) hremove hrm c (hcs ▸ hc)) hfirst
    rw [ssbx_of_opened hopen]
    refine ⟨hcommand.kept, fun c hc hgone => ?_⟩
    obtain ⟨key, s, r, s', hcmd, hs, hremove, hpodman, hbelongs⟩ :=
      hcommand.taken c (show c ∈ w₁.containers from hcs ▸ hc) hgone
    exact ⟨key, s, r, s', hcmd, hold key s r s' hs hremove, hremove, hpodman, hbelongs⟩

theorem containersKept_of_reach {w : World}
    (h : Reach (M.Fresh dir) (M.Runs dir) (M.EngineHonest dir) w) :
    (∀ s, M.records dir w = some s → WellKept s) ∧
      ContainersKept w.containers (M.records dir w) := by
  have hinv : M.AllIssued (M.records dir w) ∧ (∀ s, M.records dir w = some s → WellKept s) ∧
      ContainersKept w.containers (M.records dir w) := by
    refine Reach.invariant (fun w => M.AllIssued (M.records dir w) ∧
      (∀ s, M.records dir w = some s → WellKept s) ∧
      ContainersKept w.containers (M.records dir w)) ?_ ?_ h
    · intro w hw
      have hnone := M.records_of_fresh dir hw
      refine ⟨allIssued_of_fresh hw, fun s hs => ?_, ?_, fun s hs => ?_⟩
      · rw [hnone] at hs
        cases hs
      · rw [hw.containers]
        exact List.Pairwise.nil
      · rw [hnone] at hs
        cases hs
    · rintro w a w' ⟨hissued, hwell, hkept⟩ hok hstep
      obtain ⟨c, hopens, hindex⟩ := hstep.indexStep
      exact ⟨allIssued_runs hissued hstep, wellKept_indexStep hindex (wellKept_opens hopens hwell),
        (containersKept_runs hissued hwell hkept hok hstep).1⟩
  exact hinv.2

/-- Every live podman sandbox has one container to itself, and processes take away no others'. -/
structure ContainersOwned (M : Machine) (dir : Location) (w : World) : Prop where
  owned : ∀ s, M.records dir w = some s → ∀ r ∈ s.sandboxes, r.mechanism = .podman →
    ∃ c, c.BelongsTo r ∧ w.containers.filter (·.answersTo r.runtimeId) = [c]
  taken : ∀ a w', M.EngineHonest dir w a → M.Runs dir w a w' → TakesOwn M dir w a w'

end Machine

/-- **Each sandbox has its own container.**  In every state that any processes with honest engines
    lead to, exactly one container answers to the runtime id of a live podman record, the one with
    its name; and the only container a process takes away is that of the record its `rm` removes. -/
theorem containers_owned (M : Machine) (dir : Location) (w : World)
    (h : Reach (M.Fresh dir) (M.Runs dir) (M.EngineHonest dir) w) : M.ContainersOwned dir w where
  owned := by
    intro s hs r hr hpodman
    obtain ⟨-, hapart, howned⟩ := Machine.containersKept_of_reach h
    obtain ⟨c, hc, hbelongs⟩ := howned s hs r hr hpodman
    obtain ⟨hanswers, hne⟩ := hbelongs.answersTo
    exact ⟨c, hbelongs, Container.filter_answersTo hapart hc hne hanswers⟩
  taken := by
    intro a w' hok hstep
    obtain ⟨hwell, hkept⟩ := Machine.containersKept_of_reach h
    exact (Machine.containersKept_runs (Machine.allIssued_of_reach h) hwell hkept hok hstep).2

/-- An engine that starts containers with this id, under names that are not among the used ones. -/
def checkingEngine (used : List String) (id : String) : Engine :=
  { readyEngine with
    run := fun args =>
      match RunLine.decode allowlistGrammar args with
      | some line =>
        if line.names.any (used.contains ·) then .failed "the name is in use" none
        else .started id
      | none => .failed "unknown option" none }

theorem brings_checkingEngine {used : List String} {id id' : String} {args : List String}
    (h : (checkingEngine used id).brings args = some id') :
    id' = trim id ∧ ∃ line, RunLine.decode allowlistGrammar args = some line ∧
      ∀ n ∈ line.names, n ∉ used := by
  unfold Engine.brings checkingEngine at h
  cases hline : RunLine.decode allowlistGrammar args with
  | none =>
    simp only [hline] at h
    cases h
  | some line =>
    simp only [hline] at h
    by_cases hused : line.names.any (used.contains ·) = true
    · rw [if_pos hused] at h
      cases h
    · rw [if_neg hused] at h
      refine ⟨(Option.some.inj h).symm, line, rfl, fun n hn hin => hused ?_⟩
      exact List.any_eq_true.mpr ⟨n, hn, List.contains_iff_mem.mpr hin⟩

theorem honest_checkingEngine {used : List String} {id : String} {w : World}
    (hused : ∀ c ∈ w.containers, c.id ∈ used ∧ c.name ∈ used) (hid : trim id ∉ used)
    (hdash : (trim id).toList.head? ≠ some '-') : (checkingEngine used id).Honest w := by
  have hunused : ∀ n, n ∉ used → w.Unused n := by
    intro n hn c hc
    rw [Bool.eq_false_iff]
    intro hanswers
    rcases Container.answersTo_iff.mp hanswers with rfl | rfl
    · exact hn (hused c hc).1
    · exact hn (hused c hc).2
  refine ⟨fun args id' line hbrings hline n hn => ?_, fun args id' hbrings _ => ?_, fun args id' hbrings => ?_⟩
  · obtain ⟨-, line', hline', hfree⟩ := brings_checkingEngine hbrings
    obtain rfl := Option.some.inj (hline.symm.trans hline')
    exact hunused n (hfree n hn)
  · rw [(brings_checkingEngine hbrings).1]
    exact hunused _ hid
  · rw [(brings_checkingEngine hbrings).1]
    exact hdash

/-- A creation of a podman sandbox, while these texts are in use. -/
def checkedCreate (used : List String) (id name uuid : String) : Invocation :=
  { smallCreate .podman name uuid with
    env := { smallEnv uuid with engine := checkingEngine used id } }

def checkedRm (used : List String) (key : String) : Invocation :=
  { smallRm key with env := { smallEnv "" with engine := checkingEngine used "f00d" } }

/-- `create --name a`, then `create --name b`, both podman. -/
def twoContainersWorld : World :=
  smallMachine.after (smallMachine.after emptyWorld (checkedCreate [] "c0ffee" "a" "u"))
    (checkedCreate ["c0ffee", "ssbx-a"] "decaf" "b" "v")

theorem engineHonest_checking {w : World} {a : Invocation} {used : List String} {id : String}
    (hengine : a.env.engine = checkingEngine used id)
    (hused : ∀ c ∈ w.containers, c.id ∈ used ∧ c.name ∈ used) (hid : trim id ∉ used)
    (hdash : (trim id).toList.head? ≠ some '-') : smallMachine.EngineHonest [] w a where
  starts := by
    rw [hengine]
    exact honest_checkingEngine hused hid hdash
  removes := by
    intro key s r s' _ _ _ hrm
    rw [hengine] at hrm
    cases hrm

theorem reach_twoContainersWorld :
    Reach (smallMachine.Fresh []) (smallMachine.Runs []) (smallMachine.EngineHonest [])
      twoContainersWorld := by
  refine .next (.next (.start fresh_emptyWorld) ?_ (runs_after _)) ?_ (runs_after _)
  · exact engineHonest_checking rfl (by decide) (by decide) (by decide)
  · exact engineHonest_checking rfl (by decide +kernel) (by decide) (by decide)

/-- `rm a` takes away the one of the two containers that is its own. -/
theorem containers_owned_two :
    smallMachine.ContainersOwned [] twoContainersWorld ∧
    twoContainersWorld.containers = [⟨"c0ffee", "ssbx-a"⟩, ⟨"decaf", "ssbx-b"⟩] ∧
    (smallMachine.after twoContainersWorld (checkedRm ["c0ffee", "ssbx-a", "decaf", "ssbx-b"]
      "a")).containers = [⟨"decaf", "ssbx-b"⟩] :=
  ⟨containers_owned smallMachine [] twoContainersWorld reach_twoContainersWorld, by decide +kernel,
    by decide +kernel⟩

end SimpleSandbox
