import SimpleSandbox.MechanismSpec

/-!
# What the commands do to the files and to the index

For each command of `ssbx`, given the index it finds: the file events it may cause and the
way it moves the index.  A command that fails half way has made some of its moves; none of
them is undone.
-/

namespace SimpleSandbox

open RustText OsPath FileSystem Effect World

/-! ## Prepared requests -/

theorem except_bind_eq_ok {ε α β : Type} {x : Except ε α} {f : α → Except ε β} {b : β}
    (h : (x >>= f) = .ok b) : ∃ a, x = .ok a ∧ f a = .ok b := by
  cases x with
  | error e => exact nomatch h
  | ok a => exact ⟨a, rfl, h⟩

theorem except_mapError_eq_ok {ε ε' α : Type} {f : ε → ε'} {x : Except ε α} {a : α}
    (h : x.mapError f = .ok a) : x = .ok a := by
  cases x with
  | error e => exact nomatch h
  | ok b =>
    obtain rfl := Except.ok.inj h
    rfl

/-- A request made of a loaded policy; every check and lookup on the way went well. -/
structure Prepared.From (p : Prepared) (M : Machine) (env : ProcessEnv) (name : String)
    (loaded : SandboxPolicy) (choose : MechanismKind → MechanismKind) (ephemeral : Bool)
    (command : List String) : Prop where
  name_eq : p.request.name = name
  ephemeral_eq : p.request.ephemeral = ephemeral
  command_eq : p.request.command = command
  kind : p.kind = choose (resolveMechanism M.os loaded.mechanismOrAuto)
  policy : p.request.policy = { loaded with mechanism := some p.kind }
  preflight : preflight M.ext p.request.policy {} = .ok ()
  secrets : ∃ secretDir secrets, env.secretDir = .ok secretDir ∧
    resolveSecrets env.secretHost loaded.secrets secretDir = .ok secrets ∧
    secrets.toEnvPairs env.secretHost = .ok p.request.env
  proxyPort : maybeStartProxy env p.request.policy = .ok p.proxyPort
  workdir : env.workdir = .ok p.request.workdir

theorem from_of_prepare {M : Machine} {env : ProcessEnv} {name : String} {args : PolicyArgs}
    {choose : MechanismKind → MechanismKind} {ephemeral : Bool} {command : List String}
    {p : Prepared} (h : prepare M env name args choose ephemeral command = .ok p) :
    ∃ loaded, loadPolicy args = .ok loaded ∧
      p.From M env name loaded choose ephemeral command := by
  obtain ⟨loaded, hloaded, h⟩ := except_bind_eq_ok h
  obtain ⟨u, hpreflight, h⟩ := except_bind_eq_ok h
  obtain ⟨secretDir, hdir, h⟩ := except_bind_eq_ok h
  obtain ⟨secrets, hsecrets, h⟩ := except_bind_eq_ok h
  obtain ⟨pairs, hpairs, h⟩ := except_bind_eq_ok h
  obtain ⟨proxyPort, hproxy, h⟩ := except_bind_eq_ok h
  obtain ⟨workdir, hworkdir, h⟩ := except_bind_eq_ok h
  obtain rfl := Except.ok.inj h
  exact ⟨loaded, except_mapError_eq_ok hloaded, {
    name_eq := rfl
    ephemeral_eq := rfl
    command_eq := rfl
    kind := rfl
    policy := rfl
    preflight := except_mapError_eq_ok hpreflight
    secrets := ⟨secretDir, secrets, except_mapError_eq_ok hdir, except_mapError_eq_ok hsecrets,
      except_mapError_eq_ok hpairs⟩
    proxyPort := hproxy
    workdir := except_mapError_eq_ok hworkdir }⟩

/-- What a prepared request has from its command line. -/
theorem prepare_eq_ok {M : Machine} {env : ProcessEnv} {name : String} {args : PolicyArgs}
    {choose : MechanismKind → MechanismKind} {ephemeral : Bool} {command : List String}
    {p : Prepared} (h : prepare M env name args choose ephemeral command = .ok p) :
    p.request.name = name ∧ p.request.ephemeral = ephemeral ∧ p.request.command = command ∧
    ∃ kind, p.kind = choose (resolveMechanism M.os kind) := by
  obtain ⟨loaded, -, hp⟩ := from_of_prepare h
  exact ⟨hp.name_eq, hp.ephemeral_eq, hp.command_eq, loaded.mechanismOrAuto, hp.kind⟩

/-- Kinds are resolved once and for all. -/
theorem resolveMechanism_idem (os : HostOs) (kind : MechanismKind) :
    resolveMechanism os (resolveMechanism os kind) = resolveMechanism os kind := by
  cases kind <;> cases os <;> rfl

theorem resolveMechanism_ne_auto (os : HostOs) (kind : MechanismKind) :
    resolveMechanism os kind ≠ .auto := by
  cases kind <;> cases os <;> simp [resolveMechanism]

/-- A record that `create` has written. -/
structure Machine.Issued (M : Machine) (r : SandboxRecord) : Prop where
  kind : r.mechanism = .podman ∨ r.mechanism = .mac
  runtimeId : r.mechanism = .mac → r.runtimeId = M.macRuntimeId r.name

theorem Machine.Issued.withHash {M : Machine} {r : SandboxRecord} (h : M.Issued r) (hash : String) :
    M.Issued (r.withHash hash) := ⟨h.kind, h.runtimeId⟩

/-! ## Creating -/

namespace Machine

/-- What `create` does to the files. -/
def createEvents (M : Machine) (dir : Location) (kind : MechanismKind) (name : String)
    (ev : FsEvent) : Prop :=
  ev = ⟨.saveIndex, M.store.indexAt dir⟩ ∨ ev = ⟨.savePolicy, M.store.policyAt dir name⟩ ∨
  (kind = .mac ∧ M.instanceEvents dir name ev)

end Machine

/-- A prepared request of `create`. -/
structure Prepared.Persistent (p : Prepared) (M : Machine) (name : String) : Prop where
  name_eq : p.request.name = name
  ephemeral : p.request.ephemeral = false
  command : p.request.command = []
  resolved : resolveMechanism M.os p.kind = p.kind

theorem persistent_of_prepare {M : Machine} {env : ProcessEnv} {name : String} {args : PolicyArgs}
    {p : Prepared} (h : prepare M env name args id false [] = .ok p) : p.Persistent M name := by
  obtain ⟨hname, heph, hcommand, kind, hkind⟩ := prepare_eq_ok h
  exact ⟨hname, heph, hcommand, by rw [hkind]; exact resolveMechanism_idem M.os kind⟩

/-- What `create` does before it inserts the record. -/
def makeRecord (M : Machine) (env : ProcessEnv) (name : String) (p : Prepared) :
    Effect World CliError SandboxRecord := do
  let result ← (mechCreate M (env.mechHost M p.proxyPort) p.kind p.request).mapError .mechanism
  let record ← lift ((Store.newRecord M.ext env.uuid env.now name p.kind result.runtimeId
    p.request.policy p.request.workdir false result.proxyPort).mapError .state)
  let _ ← (M.store.savePolicy M.ext env.faults name p.request.policy).mapError .state
  pure { record with logPath := some (M.store.logPathFor name) }

theorem createPrepared_eq (M : Machine) (env : ProcessEnv) (name : String) (p : Prepared) :
    createPrepared M env name p = (do
      let record ← makeRecord M env name p
      let _ ← (M.store.insert env.faults record env.insertUuid).mapError .state
      pure ()) := by
  simp only [createPrepared, makeRecord, bind_assoc, pure_bind]

theorem extends_makeRecord {M : Machine} {name : String} {p : Prepared}
    (hp : p.Persistent M name) (env : ProcessEnv) (dir : Location) :
    Preserves (Extends dir fun ev => ev = ⟨.savePolicy, M.store.policyAt dir name⟩ ∨
      (p.kind = .mac ∧ M.instanceEvents dir name ev)) (makeRecord M env name p) := by
  unfold makeRecord
  refine extends_bind ?_ fun result => extends_bind (extends_lift _) fun record =>
    extends_bind ?_ fun _ => extends_pure _
  · apply Preserves.mapError
    apply extends_mono _ (extends_mechCreate M _ p.kind p.request)
    rintro ev ⟨-, hkind, hev⟩
    rw [hp.resolved] at hkind
    rw [hp.name_eq] at hev
    exact Or.inr ⟨hkind, hev⟩
  · apply Preserves.mapError
    apply extends_mono _ (M.store.extends_savePolicy M.ext env.faults name _ dir)
    rintro ev rfl
    exact Or.inl rfl

theorem index_makeRecord {M : Machine} {name : String} {p : Prepared} (hp : p.Persistent M name)
    (env : ProcessEnv) (w : World) :
    M.store.index (makeRecord M env name p w).2 = M.store.index w := by
  apply Store.index_of_preserves fun dir => extends_makeRecord hp env dir
  rintro dir ev (rfl | ⟨-, hev⟩)
  · exact fun h => M.store.policyAt_ne_indexAt dir name h.symm
  · exact Machine.not_touches_index_of_instanceEvents hev

theorem extends_createPrepared {M : Machine} {name : String} {p : Prepared}
    (hp : p.Persistent M name) (env : ProcessEnv) (dir : Location) :
    Preserves (Extends dir (M.createEvents dir p.kind name)) (createPrepared M env name p) := by
  rw [createPrepared_eq]
  refine extends_bind (extends_mono (fun ev hev => Or.inr hev) (extends_makeRecord hp env dir))
    fun record => extends_bind ?_ fun _ => extends_pure _
  apply Preserves.mapError
  rw [Store.insert_eq_modify]
  apply extends_mono _ (M.store.extends_modify env.faults _ dir)
  rintro ev rfl
  exact Or.inl rfl

/-- The record `create` inserts. -/
def Created (M : Machine) (env : ProcessEnv) (name : String) (p : Prepared) (s s' : SandboxState) :
    Prop :=
  ∃ r r', s.insert r env.insertUuid = .ok (r', s') ∧ r.name = name ∧ r.id = env.uuid ∧
    r'.mechanism = p.kind ∧ isUtf8 (M.store.logPathFor name) = true ∧ M.Issued r'

/-- The index gets one record, the new one. -/
theorem Created.mem_iff {M : Machine} {env : ProcessEnv} {name : String} {p : Prepared}
    {s s' : SandboxState} (h : Created M env name p s s') :
    ∃ r', (∀ x, x ∈ s'.sandboxes ↔ x ∈ s.sandboxes ∨ x = r') ∧ r'.name = name ∧
      r'.mechanism = p.kind ∧ isUtf8 (M.store.logPathFor name) = true ∧ M.Issued r' := by
  obtain ⟨r, r', hinsert, hname, -, hkind, hlog, hissued⟩ := h
  refine ⟨r', fun x => SandboxState.mem_insert_iff hinsert, ?_, hkind, hlog, hissued⟩
  rw [SandboxState.name_of_insert hinsert, hname]

theorem runtimeId_of_mechCreate {M : Machine} {h : MechHost} {name : String} {p : Prepared}
    (hp : p.Persistent M name) (hmac : p.kind = .mac) {result : CreateResult}
    (hres : Returns (mechCreate M h p.kind p.request) result) :
    result.runtimeId = M.macRuntimeId name := by
  rw [mechCreate_mac M h p.request hmac] at hres
  rw [← hp.name_eq]
  exact runtimeId_of_macCreate hp.ephemeral hp.command hres

theorem issued_of_newRecord {M : Machine} {env : ProcessEnv} {h : MechHost} {name : String}
    {p : Prepared} (hp : p.Persistent M name) {result : CreateResult} {record : SandboxRecord}
    (hres : Returns (mechCreate M h p.kind p.request) result)
    (hrec : Store.newRecord M.ext env.uuid env.now name p.kind result.runtimeId p.request.policy
      p.request.workdir false result.proxyPort = .ok record) :
    record.name = name ∧ record.id = env.uuid ∧ record.mechanism = p.kind ∧ M.Issued record := by
  obtain ⟨hash, -, hrec⟩ := except_bind_eq_ok hrec
  obtain rfl := Except.ok.inj hrec
  refine ⟨rfl, rfl, rfl, ?_, ?_⟩
  · have hkrun := not_krun_of_mechCreate hres
    have hauto := resolveMechanism_ne_auto M.os p.kind
    rw [hp.resolved] at hkrun hauto
    change p.kind = .podman ∨ p.kind = .mac
    cases hkind : p.kind with
    | podman => exact Or.inl rfl
    | mac => exact Or.inr rfl
    | krun => exact absurd hkind hkrun
    | auto => exact absurd hkind hauto
  · exact fun hkind => runtimeId_of_mechCreate hp hkind hres

theorem makeRecord_eq_ok {M : Machine} {env : ProcessEnv} {name : String} {p : Prepared}
    {r : SandboxRecord} {w w' : World} (h : makeRecord M env name p w = (.ok r, w')) :
    ∃ result w₁ record,
      mechCreate M (env.mechHost M p.proxyPort) p.kind p.request w = (.ok result, w₁) ∧
      Store.newRecord M.ext env.uuid env.now name p.kind result.runtimeId p.request.policy
        p.request.workdir false result.proxyPort = .ok record ∧
      r = { record with logPath := some (M.store.logPathFor name) } := by
  obtain ⟨result, w₁, hresult, h⟩ := bind_eq_ok_iff.mp h
  obtain ⟨record, w₂, hrecord, h⟩ := bind_eq_ok_iff.mp h
  obtain ⟨path, w₃, -, h⟩ := bind_eq_ok_iff.mp h
  exact ⟨result, w₁, record, mapError_eq_ok_iff.mp hresult,
    except_mapError_eq_ok (Prod.mk.inj hrecord).1, (Except.ok.inj (Prod.mk.inj h).1).symm⟩

/-- The record `create` inserts, with what the mechanism gave it. -/
def Inserted (M : Machine) (env : ProcessEnv) (name : String) (p : Prepared)
    (s s' : SandboxState) : Prop :=
  ∃ result record r',
    Returns (mechCreate M (env.mechHost M p.proxyPort) p.kind p.request) result ∧
    Store.newRecord M.ext env.uuid env.now name p.kind result.runtimeId p.request.policy
      p.request.workdir false result.proxyPort = .ok record ∧
    s.insert { record with logPath := some (M.store.logPathFor name) } env.insertUuid =
      .ok (r', s') ∧
    s'.serializable = true

theorem inserts_createPrepared {M : Machine} {name : String} {p : Prepared}
    (hp : p.Persistent M name) (env : ProcessEnv) :
    Preserves (M.store.IndexMoves (Inserted M env name p)) (createPrepared M env name p) := by
  rw [createPrepared_eq]
  refine Store.moves_bind (index_makeRecord hp env) fun r ⟨w, w', hr⟩ => ?_
  obtain ⟨result, w₁, record, hresult, hrecord, rfl⟩ := makeRecord_eq_ok hr
  apply Preserves.bind_pure
  apply Preserves.mapError
  rw [Store.insert_eq_modify]
  refine Preserves.mono (fun h => h.mono ?_) (M.store.moves_modify env.faults _)
  rintro s s' ⟨⟨r', hinsert⟩, hser⟩
  exact ⟨result, record, r', ⟨w, w₁, hresult⟩, hrecord, hinsert, hser⟩

theorem Inserted.created {M : Machine} {env : ProcessEnv} {name : String} {p : Prepared}
    {s s' : SandboxState} (hp : p.Persistent M name) (h : Inserted M env name p s s') :
    Created M env name p s s' := by
  obtain ⟨result, record, r', hresult, hrecord, hinsert, hser⟩ := h
  obtain ⟨hname, hid, hkind, hissued⟩ := issued_of_newRecord hp hresult hrecord
  refine ⟨_, r', hinsert, hname, hid, ?_⟩
  have hlog : isUtf8 (M.store.logPathFor name) = true := by
    have hserial := SandboxState.serializable_of_insert hinsert hser
    rw [SandboxRecord.serializable, Bool.and_eq_true] at hserial
    exact hserial.2
  obtain ⟨id, hr'⟩ := SandboxState.exists_id_of_insert hinsert
  rw [hr']
  exact ⟨hkind, hlog, hissued.kind, hissued.runtimeId⟩

theorem moves_createPrepared {M : Machine} {name : String} {p : Prepared}
    (hp : p.Persistent M name) (env : ProcessEnv) :
    Preserves (M.store.IndexMoves (Created M env name p)) (createPrepared M env name p) :=
  Preserves.mono (fun h => h.mono fun _ _ hinserted => hinserted.created hp)
    (inserts_createPrepared hp env)

/-- The new record has a free name and the runtime id the mechanism returned. -/
theorem Inserted.records {M : Machine} {env : ProcessEnv} {name : String} {p : Prepared}
    {s s' : SandboxState} (h : Inserted M env name p s s') :
    ∃ result r', Returns (mechCreate M (env.mechHost M p.proxyPort) p.kind p.request) result ∧
      name ∉ s.names ∧ r'.runtimeId = result.runtimeId ∧ s'.sandboxes = s.sandboxes ++ [r'] := by
  obtain ⟨result, record, r', hresult, hrecord, hinsert, -⟩ := h
  obtain ⟨hash, -, hrecord⟩ := except_bind_eq_ok hrecord
  obtain rfl := Except.ok.inj hrecord
  obtain ⟨id, hr'⟩ := SandboxState.exists_id_of_insert hinsert
  have hfree := (SandboxState.insert_eq_ok_iff.mp hinsert).1
  exact ⟨result, r', hresult, hfree, by rw [hr'], SandboxState.sandboxes_of_insert hinsert⟩

/-! ## Looking up -/

theorem getOrLast_cases (st : Store) (f : Faults) (name : Option String) (w : World) :
    (∃ s r, st.index w = some s ∧ s.getOrLast name = .ok r ∧ st.getOrLast f name w = (.ok r, w)) ∨
    ∃ e, st.getOrLast f name w = (.error e, w) := by
  rcases Store.loadIndex_cases st f w with ⟨s, -, hs, hload⟩ | ⟨-, e, hload⟩
  · have hrun : st.getOrLast f name w = (s.getOrLast name, w) := bind_of_ok hload
    cases hget : s.getOrLast name with
    | ok r => exact Or.inl ⟨s, r, hs, hget, by rw [hrun, hget]⟩
    | error e => exact Or.inr ⟨e, by rw [hrun, hget]⟩
  · exact Or.inr ⟨e, bind_of_error hload⟩

/-- A lookup and then a command on the record it finds. -/
theorem lookup_cases {β : Type} (st : Store) (f : Faults) (name : Option String)
    (g : SandboxRecord → Effect World CliError β) (w : World) :
    (∃ s r, st.index w = some s ∧ s.getOrLast name = .ok r ∧
      ((st.getOrLast f name).mapError CliError.state >>= g) w = g r w) ∨
    ∃ e, ((st.getOrLast f name).mapError CliError.state >>= g) w = (.error e, w) := by
  rcases getOrLast_cases st f name w with ⟨s, r, hs, hget, hrun⟩ | ⟨e, hrun⟩
  · exact Or.inl ⟨s, r, hs, hget, bind_of_ok (mapError_eq_ok_iff.mpr hrun)⟩
  · exact Or.inr ⟨.state e, bind_of_error (mapError_eq_error_iff.mpr ⟨e, rfl, hrun⟩)⟩

/-! ## Entering -/

/-- What `exec` does with the record it finds. -/
def execRecord (M : Machine) (env : ProcessEnv) (command : List String) (record : SandboxRecord) :
    Effect World CliError ℕ := do
  (M.store.touchLastUsed env.faults record.name).mapError .state
  let req : ExecRequest := {
    name := record.name, runtimeId := record.runtimeId, command, env := [], tty := true
    cwd := some "/workspace" }
  let status ← (mechExec M (env.mechHost M env.inheritedPort) record.mechanism req).mapError .mechanism
  pure (status.code.getD 1 % 256)

theorem cmdExec_eq (M : Machine) (env : ProcessEnv) (name : Option String) (command : List String) :
    cmdExec M env name command =
      (M.store.getOrLast env.lookupFaults name).mapError .state >>= execRecord M env command := rfl

theorem extends_execRecord (M : Machine) (env : ProcessEnv) (command : List String)
    (record : SandboxRecord) (dir : Location) :
    Preserves (Extends dir (· = ⟨.saveIndex, M.store.indexAt dir⟩))
      (execRecord M env command record) := by
  unfold execRecord
  refine extends_bind (Preserves.mapError ?_ _) fun _ => extends_bind
    (Preserves.mapError (extends_mechExec M _ _ _) _) fun _ => extends_pure _
  rw [Store.touchLastUsed_eq_modify]
  exact M.store.extends_modify env.faults _ dir

theorem moves_execRecord (M : Machine) (env : ProcessEnv) (command : List String)
    (record : SandboxRecord) :
    Preserves (M.store.IndexMoves fun s s' => s' = s.touch record.name)
      (execRecord M env command record) := by
  unfold execRecord
  have htouch : Preserves (M.store.IndexMoves fun s s' => s' = s.touch record.name)
      ((M.store.touchLastUsed env.faults record.name).mapError CliError.state) := by
    apply Preserves.mapError
    rw [Store.touchLastUsed_eq_modify]
    refine Preserves.mono (fun h => h.mono ?_) (M.store.moves_modify env.faults _)
    rintro s s' ⟨⟨_, hok⟩, -⟩
    exact (Prod.mk.inj (Except.ok.inj hok)).2.symm
  refine Store.moves_bind_keep htouch fun _ w => ?_
  rw [bind_pure_snd, mapError_snd]
  exact index_mechExec M _ _ _ w

/-! ## Setting a policy -/

/-- What `policy set` does with the record it finds. -/
def setPolicy (M : Machine) (env : ProcessEnv) (file : Except PolicyError SandboxPolicy)
    (record : SandboxRecord) : Effect World CliError Unit := do
  let p ← lift ((loadFile file).mapError .policy)
  lift ((preflight M.ext p {}).mapError .policy)
  (M.store.updatePolicy M.ext env.faults record.name p).mapError .state

theorem cmdPolicySet_eq (M : Machine) (env : ProcessEnv) (name : Option String)
    (file : Except PolicyError SandboxPolicy) :
    cmdPolicySet M env name file =
      (M.store.getOrLast env.lookupFaults name).mapError .state >>= setPolicy M env file := rfl

theorem extends_setPolicy (M : Machine) (env : ProcessEnv)
    (file : Except PolicyError SandboxPolicy) (record : SandboxRecord) (dir : Location) :
    Preserves (Extends dir fun ev => ev = ⟨.saveIndex, M.store.indexAt dir⟩ ∨
      ev = ⟨.savePolicy, M.store.policyAt dir record.name⟩) (setPolicy M env file record) := by
  unfold setPolicy
  refine extends_bind (extends_lift _) fun p => extends_bind (extends_lift _) fun _ => ?_
  apply Preserves.mapError
  rw [Store.updatePolicy_eq]
  refine extends_bind (extends_lift _) fun hash => extends_bind ?_ fun _ => ?_
  · exact extends_mono (fun ev h => Or.inr h) (M.store.extends_savePolicy M.ext env.faults _ p dir)
  · exact extends_mono (fun ev h => Or.inl h) (M.store.extends_modify env.faults _ dir)

theorem moves_setPolicy (M : Machine) (env : ProcessEnv)
    (file : Except PolicyError SandboxPolicy) (record : SandboxRecord) :
    Preserves (M.store.IndexMoves fun s s' => ∃ hash, s.updatePolicy record.name hash = .ok s')
      (setPolicy M env file record) := by
  unfold setPolicy
  refine Store.moves_bind (fun _ => rfl) fun p _ => Store.moves_bind (fun _ => rfl) fun _ _ => ?_
  apply Preserves.mapError
  rw [Store.updatePolicy_eq]
  refine Store.moves_bind (fun _ => rfl) fun hash _ => Store.moves_bind ?_ fun _ _ => ?_
  · exact M.store.index_savePolicy M.ext env.faults record.name p
  · refine Preserves.mono (fun h => h.mono ?_) (M.store.moves_modify env.faults _)
    rintro s s' ⟨⟨u, hmap⟩, -⟩
    exact ⟨hash, SandboxState.map_updatePolicy_eq_ok_iff.mp hmap⟩

/-! ## Removing -/

/-- `rm` removes the record before the runtime. -/
theorem cmdRm_cases (M : Machine) (env : ProcessEnv) (key : String) (w : World) :
    (∃ s r s', env.faults .loadIndex = false ∧ M.store.index w = some s ∧
      s.remove key = .ok (r, s') ∧ M.store.saves env.faults s' w = true ∧
      cmdRm M env key w =
        ((mechRemove M (env.mechHost M env.inheritedPort) r.mechanism r.runtimeId).mapError
          CliError.mechanism) (M.store.dropPolicy env.faults r.name (M.store.withIndex s' w))) ∨
    ∃ e, cmdRm M env key w = (.error (.state e), w) := by
  unfold cmdRm
  rcases Store.remove_cases M.store env.faults key w with
    ⟨s, r, s', hf, hs, hremove, hsave, hrun⟩ | ⟨e, hrun⟩
  · exact Or.inl ⟨s, r, s', hf, hs, hremove, hsave, bind_of_ok (mapError_eq_ok_iff.mpr hrun)⟩
  · exact Or.inr ⟨e, bind_of_error (mapError_eq_error_iff.mpr ⟨e, rfl, hrun⟩)⟩

/-- What the removal of a record does to the files. -/
def Machine.removeEvents (M : Machine) (dir : Location) (r : SandboxRecord) (ev : FsEvent) : Prop :=
  ev = ⟨.saveIndex, M.store.indexAt dir⟩ ∨ ev = ⟨.dropPolicy, M.store.policyAt dir r.name⟩ ∨
  (resolveMechanism M.os r.mechanism = .mac ∧ removalEvents dir r.runtimeId ev)

theorem extends_cmdRm (M : Machine) (env : ProcessEnv) (key : String) (w : World) (dir : Location) :
    Extends dir (fun ev => ∃ s r s', M.store.index w = some s ∧ s.remove key = .ok (r, s') ∧
      M.removeEvents dir r ev) w (cmdRm M env key w).2 := by
  rcases cmdRm_cases M env key w with ⟨s, r, s', -, hs, hremove, -, hrun⟩ | ⟨e, hrun⟩
  · rw [hrun, mapError_snd]
    have hall : ∀ ev, M.removeEvents dir r ev → ∃ s r s', M.store.index w = some s ∧
        s.remove key = .ok (r, s') ∧ M.removeEvents dir r ev := fun ev hev =>
      ⟨s, r, s', hs, hremove, hev⟩
    apply Extends.mono hall
    refine Extends.trans (Extends.mono ?_ (M.store.extends_withIndex s' w dir))
      (Extends.trans (Extends.mono ?_ (M.store.extends_dropPolicy env.faults r.name _ dir))
        (Extends.mono ?_ (extends_mechRemove M _ r.mechanism r.runtimeId _)))
    · exact fun ev hev => Or.inl hev
    · exact fun ev hev => Or.inr (Or.inl hev)
    · exact fun ev hev => Or.inr (Or.inr hev)
  · rw [hrun]
    exact Extends.refl w

/-! ## Reading -/

theorem reads_getOrLast (st : Store) (f : Faults) (name : Option String) :
    Reads (st.getOrLast f name) := by
  intro w
  rcases getOrLast_cases st f name w with ⟨s, r, -, -, hrun⟩ | ⟨e, hrun⟩ <;> rw [hrun]

theorem reads_loadPolicy (st : Store) (f : Faults) (name : String) :
    Reads (st.loadPolicy f name) := by
  have hfile : Reads (readFile f .loadPolicy (st.policyPath name)) := fun _ => rfl
  refine Reads.bind (Preserves.mapError hfile _) fun data => ?_
  split
  · exact Reads.bind (Reads.lift _) fun _ => Reads.pure _
  · exact Reads.fail _

theorem reads_cmdPolicyGet (M : Machine) (env : ProcessEnv) (name : Option String) :
    Reads (cmdPolicyGet M env name) :=
  Reads.bind (Preserves.mapError (reads_getOrLast M.store env.lookupFaults name) _)
    fun r => Preserves.mapError (reads_loadPolicy M.store env.faults r.name) _

theorem reads_cmdLs (M : Machine) (env : ProcessEnv) : Reads (cmdLs M env) := by
  have hload : Reads (M.store.loadIndex env.faults) := fun w =>
    (Store.loadIndex_snd M.store env.faults w).symm
  exact Preserves.mapError (hload.bind_pure _) _

theorem reads_cmdLogs (M : Machine) (env : ProcessEnv) (name : Option String) :
    Reads (cmdLogs M env name) := by
  refine Reads.bind (Preserves.mapError (reads_getOrLast M.store env.lookupFaults name) _) fun r => ?_
  split
  · exact Reads.bind (Reads.lift _) fun _ => Reads.pure _
  · exact Reads.pure _

/-! ## Every command -/

/-- The file events of a command that finds the index `c`. -/
def Machine.commandEvents (M : Machine) (env : ProcessEnv) (dir : Location)
    (c : Option SandboxState) : Command → FsEvent → Prop
  | .create name args, ev =>
    ∃ p, prepare M env (createName name) args id false [] = .ok p ∧
      M.createEvents dir p.kind (createName name) ev
  | .exec _ _, ev | .shell _, ev => ev = ⟨.saveIndex, M.store.indexAt dir⟩
  | .policySet name _, ev =>
    ∃ s r, c = some s ∧ s.getOrLast name = .ok r ∧
      (ev = ⟨.saveIndex, M.store.indexAt dir⟩ ∨ ev = ⟨.savePolicy, M.store.policyAt dir r.name⟩)
  | .rm key, ev => ∃ s r s', c = some s ∧ s.remove key = .ok (r, s') ∧ M.removeEvents dir r ev
  | .run _ _ _, _ | .policyGet _, _ | .ls, _ | .logs _, _ | .doctor, _ => False

/-- How a command of a process in `dir` moves the index it finds. -/
inductive IndexStep (M : Machine) (env : ProcessEnv) (dir : Location) :
    Command → Option SandboxState → Option SandboxState → Prop
  | keep (cmd : Command) (c : Option SandboxState) : IndexStep M env dir cmd c c
  | create {name : Option String} {args : PolicyArgs} {p : Prepared} {s s' : SandboxState}
      (hp : prepare M env (createName name) args id false [] = .ok p)
      (h : Created M env (createName name) p s s') :
      IndexStep M env dir (.create name args) (some s) (some s')
  | touch {cmd : Command} {name : Option String} {s : SandboxState} {r : SandboxRecord}
      (hr : s.getOrLast name = .ok r) : IndexStep M env dir cmd (some s) (some (s.touch r.name))
  | update {name : Option String} {file : Except PolicyError SandboxPolicy} {s s' : SandboxState}
      {r : SandboxRecord} {hash : String} (hr : s.getOrLast name = .ok r)
      (h : s.updatePolicy r.name hash = .ok s') :
      IndexStep M env dir (.policySet name file) (some s) (some s')
  | remove {key : String} {s s' : SandboxState} {r : SandboxRecord}
      (h : s.remove key = .ok (r, s')) : IndexStep M env dir (.rm key) (some s) (some s')
  | lose {key : String} {s s' : SandboxState} {r : SandboxRecord}
      (h : s.remove key = .ok (r, s')) (hkind : resolveMechanism M.os r.mechanism = .mac)
      (hlost : LosesIndex M.store dir r.runtimeId) : IndexStep M env dir (.rm key) (some s) none

section Execute

variable (M : Machine) (env : ProcessEnv)

theorem extends_cmdCreate (name : Option String) (args : PolicyArgs) (dir : Location)
    (c : Option SandboxState) :
    Preserves (Extends dir (M.commandEvents env dir c (.create name args)))
      (cmdCreate M env name args) := by
  unfold cmdCreate
  refine extends_seq (extends_lift _) fun p hp => ?_
  have hprep := returns_lift hp
  apply extends_mono _ (extends_createPrepared (persistent_of_prepare hprep) env dir)
  intro ev hev
  exact ⟨p, hprep, hev⟩

theorem moves_cmdCreate (name : Option String) (args : PolicyArgs) :
    Preserves (M.store.IndexMoves fun s s' =>
      ∃ p, prepare M env (createName name) args id false [] = .ok p ∧
        Inserted M env (createName name) p s s') (cmdCreate M env name args) := by
  unfold cmdCreate
  refine Store.moves_bind (fun _ => rfl) fun p hp => ?_
  have hprep := returns_lift hp
  refine Preserves.mono (fun h => h.mono ?_)
    (inserts_createPrepared (persistent_of_prepare hprep) env)
  exact fun s s' hinserted => ⟨p, hprep, hinserted⟩

/-- An ephemeral sandbox leaves no file behind. -/
theorem extends_cmdRun (name : Option String) (args : PolicyArgs) (command : List String)
    (dir : Location) : Preserves (Extends dir fun _ => False) (cmdRun M env name args command) := by
  unfold cmdRun
  refine extends_seq (extends_lift _) fun p hp => extends_bind ?_ fun _ => extends_pure _
  obtain ⟨-, heph, -, -⟩ := prepare_eq_ok (returns_lift hp)
  apply Preserves.mapError
  apply extends_mono _ (extends_mechCreate M _ p.kind p.request)
  rintro ev ⟨hpersistent, -⟩
  rw [heph] at hpersistent
  exact nomatch hpersistent

theorem extends_cmdExec (name : Option String) (command : List String) (dir : Location) :
    Preserves (Extends dir (· = ⟨.saveIndex, M.store.indexAt dir⟩))
      (cmdExec M env name command) := by
  rw [cmdExec_eq]
  intro w
  rcases lookup_cases M.store env.lookupFaults name (execRecord M env command) w with
    ⟨s, r, -, -, hrun⟩ | ⟨e, hrun⟩
  · rw [hrun]
    exact extends_execRecord M env command r dir w
  · rw [hrun]
    exact Extends.refl w

theorem indexStep_cmdExec (cmd : Command) (name : Option String) (command : List String) (w : World) :
    IndexStep M env w.fs.cwd cmd (M.store.index w) (M.store.index (cmdExec M env name command w).2) := by
  rw [cmdExec_eq]
  rcases lookup_cases M.store env.lookupFaults name (execRecord M env command) w with
    ⟨s, r, hs, hget, hrun⟩ | ⟨e, hrun⟩
  · rw [hrun]
    rcases moves_execRecord M env command r w with hsame | ⟨s₁, s₂, hs₁, rfl, hs₂⟩
    · rw [hsame]
      exact .keep _ _
    · obtain rfl : s = s₁ := Option.some.inj (hs.symm.trans hs₁)
      rw [hs, hs₂]
      exact .touch hget
  · rw [hrun]
    exact .keep _ _

/-- `shell` is a lookup and an `exec`. -/
theorem cmdShell_cases (name : Option String) (w : World) :
    (∃ command, cmdShell M env name w = cmdExec M env name command w) ∨
    ∃ e, cmdShell M env name w = (.error e, w) := by
  unfold cmdShell
  rcases lookup_cases M.store env.lookupFaults name
    (fun record => cmdExec M env name
      (if record.mechanism = .podman then ["sh", "-i"]
       else if M.os = .macos then ["/bin/zsh", "-i"]
       else ["/bin/sh", "-i"])) w with ⟨s, r, -, -, hrun⟩ | ⟨e, hrun⟩
  · exact Or.inl ⟨_, hrun⟩
  · exact Or.inr ⟨e, hrun⟩

theorem extends_cmdPolicySet (name : Option String) (file : Except PolicyError SandboxPolicy)
    (w : World) (dir : Location) :
    Extends dir (M.commandEvents env dir (M.store.index w) (.policySet name file)) w
      (cmdPolicySet M env name file w).2 := by
  rw [cmdPolicySet_eq]
  rcases lookup_cases M.store env.lookupFaults name (setPolicy M env file) w with
    ⟨s, r, hs, hget, hrun⟩ | ⟨e, hrun⟩
  · rw [hrun]
    apply Extends.mono _ (extends_setPolicy M env file r dir w)
    intro ev hev
    exact ⟨s, r, hs, hget, hev⟩
  · rw [hrun]
    exact Extends.refl w

/-- **The files.**  A command causes no other file event than its own. -/
theorem extends_execute (cmd : Command) (w : World) (dir : Location) :
    Extends dir (M.commandEvents env dir (M.store.index w) cmd) w (execute M env cmd w).2 := by
  have hread : ∀ {α : Type} {m : Effect World CliError α} {P : FsEvent → Prop},
      Reads m → Extends dir P w (m w).2 := by
    intro α m P hm
    rw [← hm w]
    exact Extends.refl w
  cases cmd with
  | create name args => exact Preserves.bind_pure (extends_cmdCreate M env name args dir _) _ w
  | run name args command => exact extends_cmdRun M env name args command dir w
  | exec name command => exact extends_cmdExec M env name command dir w
  | shell name =>
    rcases cmdShell_cases M env name w with ⟨command, hrun⟩ | ⟨e, hrun⟩
    · rw [execute, hrun]
      exact extends_cmdExec M env name command dir w
    · rw [execute, hrun]
      exact Extends.refl w
  | policyGet name => exact hread ((reads_cmdPolicyGet M env name).bind_pure _)
  | policySet name file =>
    rw [execute, bind_pure_snd]
    exact extends_cmdPolicySet M env name file w dir
  | ls => exact hread ((reads_cmdLs M env).bind_pure _)
  | rm key =>
    rw [execute, bind_pure_snd]
    exact extends_cmdRm M env key w dir
  | logs name => exact hread ((reads_cmdLogs M env name).bind_pure _)
  | doctor => exact Extends.refl w

/-- **The index.**  A command moves the index by its own operation. -/
theorem indexStep_execute (cmd : Command) (w : World) :
    IndexStep M env w.fs.cwd cmd (M.store.index w) (M.store.index (execute M env cmd w).2) := by
  have hsame : M.store.index (execute M env cmd w).2 = M.store.index w →
      IndexStep M env w.fs.cwd cmd (M.store.index w) (M.store.index (execute M env cmd w).2) := by
    intro h
    rw [h]
    exact .keep _ _
  have hquiet : Extends w.fs.cwd (fun _ => False) w (execute M env cmd w).2 →
      IndexStep M env w.fs.cwd cmd (M.store.index w) (M.store.index (execute M env cmd w).2) := fun h =>
    hsame (Store.index_of_extends h fun _ hev => hev.elim)
  cases cmd with
  | create name args =>
    rw [execute, bind_pure_snd]
    rcases moves_cmdCreate M env name args w with hkeep | ⟨s, s', hs, ⟨p, hp, hinserted⟩, hs'⟩
    · rw [hkeep]
      exact .keep _ _
    · rw [hs, hs']
      exact .create hp (hinserted.created (persistent_of_prepare hp))
  | run name args command => exact hquiet (extends_execute M env (.run name args command) w _)
  | exec name command => exact indexStep_cmdExec M env _ name command w
  | shell name =>
    rcases cmdShell_cases M env name w with ⟨command, hrun⟩ | ⟨e, hrun⟩
    · rw [execute, hrun]
      exact indexStep_cmdExec M env _ name command w
    · rw [execute, hrun]
      exact .keep _ _
  | policyGet name => exact hquiet (extends_execute M env (.policyGet name) w _)
  | policySet name file =>
    rw [execute, bind_pure_snd, cmdPolicySet_eq]
    rcases lookup_cases M.store env.lookupFaults name (setPolicy M env file) w with
      ⟨s, r, hs, hget, hrun⟩ | ⟨e, hrun⟩
    · rw [hrun]
      rcases moves_setPolicy M env file r w with hkeep | ⟨s₁, s₂, hs₁, ⟨hash, hupdate⟩, hs₂⟩
      · rw [hkeep]
        exact .keep _ _
      · obtain rfl : s = s₁ := Option.some.inj (hs.symm.trans hs₁)
        rw [hs, hs₂]
        exact .update hget hupdate
    · rw [hrun]
      exact .keep _ _
  | ls => exact hquiet (extends_execute M env .ls w _)
  | rm key =>
    rw [execute, bind_pure_snd]
    rcases cmdRm_cases M env key w with ⟨s, r, s', -, hs, hremove, -, hrun⟩ | ⟨e, hrun⟩
    · rw [hrun, mapError_snd, hs]
      generalize hw₁ : M.store.dropPolicy env.faults r.name (M.store.withIndex s' w) = w₁
      have hs' : M.store.index w₁ = some s' := by
        rw [← hw₁, Store.index_dropPolicy, Store.index_withIndex]
      have hcwd : w₁.fs.cwd = w.fs.cwd := by
        rw [← hw₁]
        exact (M.store.extends_dropPolicy env.faults r.name _ w.fs.cwd).cwd_eq rfl
      rcases index_mechRemove M (env.mechHost M env.inheritedPort) r.mechanism r.runtimeId w₁ with
        hkeep | ⟨hkind, hlost, hgone⟩
      · rw [hkeep, hs']
        exact .remove hremove
      · rw [hgone]
        rw [hcwd] at hlost
        exact .lose hremove hkind hlost
    · rw [hrun]
      exact .keep _ _
  | logs name => exact hquiet (extends_execute M env (.logs name) w _)
  | doctor => exact .keep _ _

end Execute

end SimpleSandbox
