import SimpleSandbox.Interference
import SimpleSandbox.LastUsed
import SimpleSandbox.Runtimes
import SimpleSandbox.StoreAtomic

/-!
# Stored policies and recorded hashes

The hash of a policy stands in the index and the policy in a file of its own.  `policy set`
writes the file before the index, `create` writes the file before it inserts the record, and
`rm` drops the file after the record.  Where the second half of a `create` goes through, or
finds the same hash recorded for the name, the two agree over whole runs and no policy file
outlives its record.
-/

namespace SimpleSandbox

open RustText OsPath FileSystem Effect World

namespace Machine

/-! ## What lies beneath the policies -/

section Places

variable {M : Machine} {dir : Location} {q : Location}

/-- Nothing that branches off beside `policies` is above a policy file. -/
theorem not_prefix_policies (hq : StrictlyBeneath (M.store.policiesAt dir) q) {x : OsString}
    (hx : x ≠ osString "policies") (rest : Location) : ¬ resolve dir M.root ++ x :: rest <+: q := by
  obtain ⟨⟨below, rfl⟩, -⟩ := hq
  intro h
  have hroot : M.store.root = M.root := rfl
  rw [Store.policiesAt, hroot, List.append_assoc] at h
  have hrest := (List.prefix_append_right_inj _).mp h
  rw [List.singleton_append, List.cons_prefix_cons] at hrest
  exact hx hrest.1

theorem ne_indexAt_of_policies (hq : StrictlyBeneath (M.store.policiesAt dir) q) :
    q ≠ M.store.indexAt dir := by
  rintro rfl
  refine not_prefix_policies hq (x := osString "index.json") (by decide) [] ?_
  rw [Store.indexAt_eq]
  exact List.prefix_refl _

theorem not_prefix_instanceAt {name : String} (hname : IsName (osString name))
    (hq : StrictlyBeneath (M.store.policiesAt dir) q) : ¬ M.instanceAt dir name <+: q := by
  rw [instanceAt_of_isName hname, instancesAt, List.append_assoc]
  exact not_prefix_policies hq (by decide) _

theorem strictlyBeneath_policyAt {name : String} (hname : IsName (osString name)) :
    StrictlyBeneath (M.store.policiesAt dir) (M.store.policyAt dir name) := by
  rw [policyAt_of_isName (isName_yaml hname)]
  exact strictlyBeneath_append (List.cons_ne_nil _ _)

theorem policyAt_inj {name name' : String} (hname : IsName (osString name))
    (hname' : IsName (osString name')) :
    M.store.policyAt dir name = M.store.policyAt dir name' ↔ name = name' := by
  constructor
  · intro h
    by_contra hne
    exact (spares_of_isName hname hname' hne .mac .mac).policy h
  · rintro rfl
    rfl

theorem not_touches_policies_of_openingEvents {ev : FsEvent} (hev : M.openingEvents dir ev)
    (hq : StrictlyBeneath (M.store.policiesAt dir) q) : ¬ ev.touches q := by
  rcases hev with hev | rfl
  · exact Store.not_touches_of_openEvents hev q
  · exact ne_indexAt_of_policies hq

/-- The files of an instance are elsewhere. -/
theorem not_touches_policies_of_instanceEvents {name : String} (hname : IsName (osString name))
    {ev : FsEvent} (hev : M.instanceEvents dir name ev)
    (hq : StrictlyBeneath (M.store.policiesAt dir) q) : ¬ ev.touches q := by
  have hfile : ∀ file, q ≠ M.instanceFile dir name file := by
    rintro file rfl
    exact not_prefix_instanceAt hname hq (List.prefix_append _ _)
  rcases hev with rfl | rfl | rfl | rfl
  · exact id
  · exact hfile _
  · exact hfile _
  · exact hfile _

end Places

/-! ## The agreement -/

variable (M : Machine) (dir : Location)

/-- The file of a record's policy can be loaded, and the policy has the recorded hash. -/
def Stored (files : Location → Option FileData) (r : SandboxRecord) : Prop :=
  ∃ p, files (M.store.policyAt dir r.name) = some (.policy p) ∧ p.validate = .ok () ∧
    p.contentHash M.ext = .ok r.policyHash

/-- A record of a plain name that `create` has written. -/
structure PlainRecord (r : SandboxRecord) : Prop where
  issued : M.Issued r
  name : IsName (osString r.name)
  logPath : isUtf8 (M.store.logPathFor r.name) = true

/-- The policy files are those of the records. -/
structure Kept (s : SandboxState) (files : Location → Option FileData) : Prop where
  distinct : s.names.Nodup
  serializable : s.serializable = true
  plain : ∀ r ∈ s.sandboxes, M.PlainRecord r
  stored : ∀ r ∈ s.sandboxes, M.Stored dir files r
  owned : ∀ q, StrictlyBeneath (M.store.policiesAt dir) q → files q ≠ none →
    ∃ r ∈ s.sandboxes, q = M.store.policyAt dir r.name

variable {M dir}

theorem PlainRecord.withHash {r : SandboxRecord} (h : M.PlainRecord r) (hash : String) :
    M.PlainRecord (r.withHash hash) := ⟨h.issued.withHash hash, h.name, h.logPath⟩

namespace Kept

variable {s s' : SandboxState} {files files' : Location → Option FileData}

/-- The same records over the same policy files. -/
theorem congr (h : M.Kept dir s files) (hs : s'.sandboxes = s.sandboxes)
    (hfiles : ∀ q, StrictlyBeneath (M.store.policiesAt dir) q → files' q = files q) :
    M.Kept dir s' files' where
  distinct := by
    rw [SandboxState.names, hs]
    exact h.distinct
  serializable := by
    rw [SandboxState.serializable, hs]
    exact h.serializable
  plain := by
    rw [hs]
    exact h.plain
  stored := by
    intro r hr
    rw [hs] at hr
    rw [Stored, hfiles _ (strictlyBeneath_policyAt (h.plain r hr).name)]
    exact h.stored r hr
  owned := by
    intro q hq hfile
    rw [hfiles q hq] at hfile
    rw [hs]
    exact h.owned q hq hfile

/-- A policy is written for a name, and its records have the hash of that policy. -/
theorem put (h : M.Kept dir s files) {name : String} {p : SandboxPolicy}
    (hvalid : p.validate = .ok ())
    (hfiles : ∀ q, StrictlyBeneath (M.store.policiesAt dir) q →
      files' q = if q = M.store.policyAt dir name then some (.policy p) else files q)
    (hdistinct : s'.names.Nodup) (hser : s'.serializable = true)
    (hplain : ∀ r ∈ s'.sandboxes, M.PlainRecord r) (hlive : name ∈ s'.names)
    (hnew : ∀ r ∈ s'.sandboxes, r.name = name → p.contentHash M.ext = .ok r.policyHash)
    (hold : ∀ r ∈ s'.sandboxes, r.name ≠ name → r ∈ s.sandboxes)
    (hnames : ∀ n ∈ s.names, n ∈ s'.names) : M.Kept dir s' files' where
  distinct := hdistinct
  serializable := hser
  plain := hplain
  stored := by
    obtain ⟨r₀, hr₀, hname⟩ := List.mem_map.mp hlive
    have hplain₀ := (hplain r₀ hr₀).name
    rw [hname] at hplain₀
    intro r hr
    have hr' := (hplain r hr).name
    have hin : StrictlyBeneath (M.store.policiesAt dir) (M.store.policyAt dir r.name) :=
      strictlyBeneath_policyAt hr'
    have hplace := hfiles _ hin
    by_cases heq : r.name = name
    · rw [if_pos ((policyAt_inj hr' hplain₀).mpr heq)] at hplace
      exact ⟨p, hplace, hvalid, hnew r hr heq⟩
    · rw [if_neg fun hsame => heq ((policyAt_inj hr' hplain₀).mp hsame)] at hplace
      rw [Stored, hplace]
      exact h.stored r (hold r hr heq)
  owned := by
    intro q hq hfile
    rw [hfiles q hq] at hfile
    obtain ⟨n, hn, rfl⟩ : ∃ n ∈ s'.names, q = M.store.policyAt dir n := by
      by_cases heq : q = M.store.policyAt dir name
      · exact ⟨name, hlive, heq⟩
      · rw [if_neg heq] at hfile
        obtain ⟨r, hr, rfl⟩ := h.owned q hq hfile
        exact ⟨r.name, hnames _ (List.mem_map_of_mem hr), rfl⟩
    obtain ⟨r, hr, rfl⟩ := List.mem_map.mp hn
    exact ⟨r, hr, rfl⟩

/-- `policy set` on a live name. -/
theorem updatePolicy (h : M.Kept dir s files) {name hash : String} {p : SandboxPolicy}
    (hvalid : p.validate = .ok ()) (hhash : p.contentHash M.ext = .ok hash)
    (hop : s.updatePolicy name hash = .ok s')
    (hfiles : ∀ q, StrictlyBeneath (M.store.policiesAt dir) q →
      files' q = if q = M.store.policyAt dir name then some (.policy p) else files q) :
    M.Kept dir s' files' := by
  have hnames := SandboxState.names_updatePolicy hop
  have hnamed := SandboxState.named_updatePolicy hop
  have hdistinct : s'.names.Nodup := by
    rw [hnames]
    exact h.distinct
  have hser : s'.serializable = true := by
    rw [SandboxState.serializable_updatePolicy hop]
    exact h.serializable
  have hlive := (SandboxState.updatePolicy_eq_ok_iff.mp hop).1
  refine h.put hvalid hfiles hdistinct hser ?_ (hnames ▸ hlive) ?_ ?_ (hnames ▸ fun _ hn => hn)
  · intro r hr
    obtain ⟨-, rfl⟩ := SandboxState.updatePolicy_eq_ok_iff.mp hop
    rcases SandboxState.mem_modifyNamed hr with hold | ⟨r₀, hr₀, rfl⟩
    · exact h.plain r hold
    · exact (h.plain r₀ hr₀).withHash hash
  · intro r hr heq
    have hfound := SandboxState.named_of_mem hdistinct hr
    rw [hnamed, if_pos heq] at hfound
    obtain ⟨r₀, -, rfl⟩ := Option.map_eq_some_iff.mp hfound
    exact hhash
  · intro r hr hne
    have hfound := SandboxState.named_of_mem hdistinct hr
    rw [hnamed, if_neg hne] at hfound
    exact SandboxState.mem_of_named hfound

/-- `create` of a new name. -/
theorem insert (h : M.Kept dir s files) {r r' : SandboxRecord} {uuid : String} {p : SandboxPolicy}
    (hop : s.insert r uuid = .ok (r', s')) (hser : s'.serializable = true)
    (hplain : M.PlainRecord r') (hvalid : p.validate = .ok ())
    (hhash : p.contentHash M.ext = .ok r'.policyHash)
    (hfiles : ∀ q, StrictlyBeneath (M.store.policiesAt dir) q →
      files' q = if q = M.store.policyAt dir r'.name then some (.policy p) else files q) :
    M.Kept dir s' files' := by
  have hnames := SandboxState.names_of_insert hop
  have hdistinct := SandboxState.nodup_insert h.distinct hop
  have hmem : ∀ x ∈ s'.sandboxes, x ∈ s.sandboxes ∨ x = r' :=
    fun x => (SandboxState.mem_insert_iff hop).mp
  have hlive : r'.name ∈ s'.names := by
    rw [hnames]
    exact List.mem_append_right _ (List.mem_singleton.mpr rfl)
  refine h.put hvalid hfiles hdistinct hser ?_ hlive ?_ ?_ ?_
  · intro x hx
    rcases hmem x hx with hx | rfl
    · exact h.plain x hx
    · exact hplain
  · intro x hx heq
    rcases hmem x hx with hx | rfl
    · exact absurd (heq ▸ List.mem_map_of_mem hx) (SandboxState.not_mem_of_insert hop)
    · exact hhash
  · intro x hx hne
    rcases hmem x hx with hx | rfl
    · exact hx
    · exact absurd rfl hne
  · intro n hn
    rw [hnames]
    exact List.mem_append_left _ hn

/-- A refused `create` of a live name has written a policy with the hash on record. -/
theorem rewrite (h : M.Kept dir s files) {r : SandboxRecord} {p : SandboxPolicy}
    (hr : r ∈ s.sandboxes) (hvalid : p.validate = .ok ())
    (hhash : p.contentHash M.ext = .ok r.policyHash)
    (hfiles : ∀ q, StrictlyBeneath (M.store.policiesAt dir) q →
      files' q = if q = M.store.policyAt dir r.name then some (.policy p) else files q) :
    M.Kept dir s files' := by
  have hnamed := SandboxState.named_of_mem h.distinct hr
  refine h.put hvalid hfiles h.distinct h.serializable h.plain (List.mem_map_of_mem hr) ?_
    (fun x hx _ => hx) fun n hn => hn
  intro x hx heq
  have hsame := SandboxState.named_of_mem h.distinct hx
  rw [heq, hnamed] at hsame
  rw [← Option.some.inj hsame]
  exact hhash

/-- `rm`. -/
theorem remove (h : M.Kept dir s files) {key : String} {r : SandboxRecord}
    (hop : s.remove key = .ok (r, s')) (hser : s'.serializable = true)
    (hfiles : ∀ q, StrictlyBeneath (M.store.policiesAt dir) q →
      files' q = if q = M.store.policyAt dir r.name then none else files q) :
    M.Kept dir s' files' := by
  have hdistinct := SandboxState.nodup_remove h.distinct hop
  have hnamed := SandboxState.named_remove h.distinct hop
  have hsub := (SandboxState.sandboxes_of_remove hop).subset
  have hr := h.plain r (SandboxState.mem_of_remove hop)
  refine ⟨hdistinct, hser, fun x hx => h.plain x (hsub hx), fun x hx => ?_, fun q hq hfile => ?_⟩
  · have hx' := h.plain x (hsub hx)
    have hne : x.name ≠ r.name := by
      intro heq
      have hfound := SandboxState.named_of_mem hdistinct hx
      rw [hnamed, if_pos heq] at hfound
      cases hfound
    rw [Stored, hfiles _ (strictlyBeneath_policyAt hx'.name),
      if_neg fun hsame => hne ((policyAt_inj hx'.name hr.name).mp hsame)]
    exact h.stored x (hsub hx)
  · rw [hfiles q hq] at hfile
    by_cases heq : q = M.store.policyAt dir r.name
    · rw [if_pos heq] at hfile
      exact absurd rfl hfile
    · rw [if_neg heq] at hfile
      obtain ⟨x, hx, rfl⟩ := h.owned q hq hfile
      refine ⟨x, SandboxState.mem_of_remove_of_ne hop hx ?_, rfl⟩
      rintro rfl
      exact heq rfl

end Kept

/-! ## What the commands write -/

section Files

variable {M : Machine} {w w' : World}

theorem policies_withIndex (s : SandboxState) {q : Location}
    (hq : StrictlyBeneath (M.store.policiesAt w.fs.cwd) q) :
    (M.store.withIndex s w).fileAt q = w.fileAt q := by
  rw [Store.withIndex, Store.put_fileAt, if_neg (ne_indexAt_of_policies hq)]

/-- Dropping a policy file that is there. -/
theorem fileAt_dropPolicy {st : Store} {f : Faults} {name : String} {w : World}
    (hf : f .dropPolicy = false) (hfile : w.fileAt (st.policyAt w.fs.cwd name) ≠ none)
    (q : Location) :
    (st.dropPolicy f name w).fileAt q =
      if q = st.policyAt w.fs.cwd name then none else w.fileAt q := by
  have hgo : w.fs.removeFile (st.policyPath name) = .ok { w.fs with
      node := fun r => if r = w.fs.locate (st.policyPath name) then none else w.fs.node r } :=
    removeFile_eq_ok_iff.mpr ⟨hfile, rfl⟩
  have hrun : st.dropPolicy f name w = w.applied .dropPolicy (w.fs.locate (st.policyPath name))
      { w.fs with
        node := fun r => if r = w.fs.locate (st.policyPath name) then none else w.fs.node r } := by
    rw [Store.dropPolicy, World.removeFile, change, if_neg (by simp [hf]), hgo]
    rfl
  have hplace : st.policyAt w.fs.cwd name = w.fs.locate (st.policyPath name) := rfl
  rw [hrun, hplace]
  by_cases hq : q = w.fs.locate (st.policyPath name)
  · simp [World.fileAt, World.applied, FileSystem.fileAt, hq]
  · simp [World.fileAt, World.applied, FileSystem.fileAt, hq]

/-- Events that leave the policy files alone. -/
theorem policies_of_extends {P : FsEvent → Prop} (h : Extends w.fs.cwd P w w')
    (hP : ∀ ev, P ev → ∀ q, StrictlyBeneath (M.store.policiesAt w.fs.cwd) q → ¬ ev.touches q) :
    ∀ q, StrictlyBeneath (M.store.policiesAt w.fs.cwd) q → w'.fileAt q = w.fileAt q := by
  intro q hq
  exact h.fileAt_eq rfl fun ev hev => hP ev hev q hq

theorem updatePolicy_ok {st : Store} {ext : Externals} {f : Faults} {name : String}
    {p : SandboxPolicy} (h : st.updatePolicy ext f name p w = (.ok (), w')) :
    ∃ hash s s', p.contentHash ext = .ok hash ∧ st.index w = some s ∧
      s.updatePolicy name hash = .ok s' ∧ w' = st.withIndex s' (st.withPolicy name p w) := by
  rw [Store.updatePolicy_eq] at h
  obtain ⟨hash, w₀, hlift, hrest⟩ := bind_eq_ok_iff.mp h
  obtain ⟨path, w₁, hsaved, hmodify⟩ := bind_eq_ok_iff.mp hrest
  obtain ⟨hhash, rfl⟩ := Prod.mk.inj hlift
  have hw₁ : w₁ = st.withPolicy name p w := by
    cases hsaves : st.savesPolicy ext f name p w with
    | false =>
      obtain ⟨e, he⟩ := Store.savePolicy_of_not_savesPolicy hsaves
      rw [he] at hsaved
      cases hsaved
    | true =>
      rw [Store.savePolicy_of_savesPolicy hsaves] at hsaved
      exact (Prod.mk.inj hsaved).2.symm
  rw [hw₁] at hmodify
  rcases Store.modify_cases st f (fun s => (s.updatePolicy name hash).map fun s' => ((), s'))
    (st.withPolicy name p w) with ⟨s, a, s', -, hs, hop, -, hrun⟩ | ⟨e, hrun⟩
  · rw [hrun] at hmodify
    rw [Store.index_withPolicy] at hs
    exact ⟨hash, s, s', except_mapError_eq_ok hhash, hs,
      SandboxState.map_updatePolicy_eq_ok_iff.mp hop, (Prod.mk.inj hmodify).2.symm⟩
  · rw [hrun] at hmodify
    cases hmodify

/-- `create` stops before the policy is written, or has written it. -/
theorem makeRecord_cases {name : String} {p : Prepared} (hp : p.Persistent M name)
    (env : ProcessEnv) (w : World) :
    (∃ e w₁, makeRecord M env name p w = (.error e, w₁) ∧
      Extends w.fs.cwd (M.instanceEvents w.fs.cwd name) w w₁) ∨
    ∃ r w₁, makeRecord M env name p w = (.ok r, M.store.withPolicy name p.request.policy w₁) ∧
      Extends w.fs.cwd (M.instanceEvents w.fs.cwd name) w w₁ ∧
      p.request.policy.contentHash M.ext = .ok r.policyHash ∧ r.name = name ∧
      r.workdir = p.request.workdir ∧ r.logPath = some (M.store.logPathFor name) ∧
      M.Issued r := by
  have hext : Extends w.fs.cwd (M.instanceEvents w.fs.cwd name) w
      (mechCreate M (env.mechHost M p.proxyPort) p.kind p.request w).2 := by
    refine Extends.mono ?_ (extends_mechCreate M (env.mechHost M p.proxyPort) p.kind p.request w)
    rintro ev ⟨-, -, hev⟩
    rw [hp.name_eq] at hev
    exact hev
  rw [makeRecord]
  rcases hmech : mechCreate M (env.mechHost M p.proxyPort) p.kind p.request w with ⟨e | result, w₁⟩
  · rw [hmech] at hext
    exact Or.inl ⟨_, w₁, bind_of_error (mapError_eq_error_iff.mpr ⟨e, rfl, hmech⟩), hext⟩
  · rw [hmech] at hext
    rw [bind_of_ok (mapError_eq_ok_iff.mpr hmech)]
    cases hrecord : Store.newRecord M.ext env.uuid env.now name p.kind result.runtimeId
      p.request.policy p.request.workdir false result.proxyPort with
    | error e => exact Or.inl ⟨.state e, w₁, rfl, hext⟩
    | ok record =>
      obtain ⟨-, -, -, hissued⟩ := issued_of_newRecord hp ⟨w, w₁, hmech⟩ hrecord
      obtain ⟨hash, hhash, hrec⟩ := except_bind_eq_ok hrecord
      obtain rfl := Except.ok.inj hrec
      cases hsaves : M.store.savesPolicy M.ext env.faults name p.request.policy w₁ with
      | false =>
        obtain ⟨e, he⟩ := Store.savePolicy_of_not_savesPolicy hsaves
        exact Or.inl ⟨.state e, w₁, (bind_of_ok rfl).trans
          (bind_of_error (mapError_eq_error_iff.mpr ⟨e, rfl, he⟩)), hext⟩
      | true =>
        have hsaved := Store.savePolicy_of_savesPolicy hsaves
        exact Or.inr ⟨_, w₁, (bind_of_ok rfl).trans (bind_of_ok (mapError_eq_ok_iff.mpr hsaved)), hext,
          except_mapError_eq_ok hhash, rfl, rfl, rfl, hissued.kind, hissued.runtimeId⟩

end Files

/-! ## The commands -/

/-- The file operations of the store succeed. -/
structure FilesSucceed (f : Faults) : Prop where
  loads : f .loadIndex = false
  saves : f .saveIndex = false
  drops : f .dropPolicy = false

/-- A creation does not get to write the policy, or completes, or writes a policy with the hash
    that is on record for its name. -/
def CreationStored (M : Machine) (env : ProcessEnv) (name : String) (p : Prepared) (w : World) :
    Prop :=
  M.stores env name w.fs [] p = false ∨
  M.completes env name p w = true ∨
  ∃ s r, M.store.index w = some s ∧ r ∈ s.sandboxes ∧ r.name = name ∧
    p.request.policy.contentHash M.ext = .ok r.policyHash

/-- The records a process in the directory of the world finds agree with the policy files. -/
def KeptIn (M : Machine) (w : World) : Prop :=
  M.Kept w.fs.cwd ((M.store.index w).getD {}) w.fileAt

section Commands

variable {M : Machine} {env : ProcessEnv} {w w' : World}

theorem validate_of_loadFile {file : Except PolicyError SandboxPolicy} {p : SandboxPolicy}
    (h : loadFile file = .ok p) : p.validate = .ok () := by
  obtain ⟨p', -, h⟩ := except_bind_eq_ok h
  obtain ⟨u, hvalid, h⟩ := except_bind_eq_ok h
  rw [← Except.ok.inj h]
  exact hvalid

theorem validate_of_loadPolicy {args : PolicyArgs} {p : SandboxPolicy}
    (h : loadPolicy args = .ok p) : p.validate = .ok () := by
  unfold loadPolicy at h
  dsimp only at h
  split at h
  · obtain ⟨base, -, h⟩ := except_bind_eq_ok h
    obtain ⟨u, hvalid, h⟩ := except_bind_eq_ok h
    rw [← Except.ok.inj h]
    exact hvalid
  · obtain ⟨base, -, h⟩ := except_bind_eq_ok h
    obtain ⟨u, hvalid, h⟩ := except_bind_eq_ok h
    rw [← Except.ok.inj h]
    exact hvalid

theorem validate_of_prepare {name : String} {args : PolicyArgs}
    {choose : MechanismKind → MechanismKind} {ephemeral : Bool} {command : List String}
    {p : Prepared} (h : prepare M env name args choose ephemeral command = .ok p) :
    p.request.policy.validate = .ok () := by
  obtain ⟨loaded, hloaded, hp⟩ := from_of_prepare h
  have hvalid := validate_of_loadPolicy hloaded
  rw [hp.policy]
  -- the check does not look at the mechanism
  exact hvalid

/-- A command that leaves the policy files and the records alone. -/
theorem KeptIn.quiet {P : FsEvent → Prop} (h : M.KeptIn w) (hext : Extends w.fs.cwd P w w')
    (hP : ∀ ev, P ev → ∀ q, StrictlyBeneath (M.store.policiesAt w.fs.cwd) q → ¬ ev.touches q)
    (hindex : ((M.store.index w').getD {}).sandboxes = ((M.store.index w).getD {}).sandboxes) :
    M.KeptIn w' := by
  have hcwd := hext.cwd_eq rfl
  rw [KeptIn, hcwd]
  exact Kept.congr h hindex (policies_of_extends hext hP)

/-- `policy set` refuses the file or hands its policy to the store. -/
theorem setPolicy_cases (M : Machine) (env : ProcessEnv)
    (file : Except PolicyError SandboxPolicy) (r : SandboxRecord) (w : World) :
    (∃ e, setPolicy M env file r w = (.error e, w)) ∨
    ∃ p, loadFile file = .ok p ∧ (setPolicy M env file r w).2 =
      (M.store.updatePolicy M.ext env.faults r.name p w).2 := by
  unfold setPolicy
  cases hload : loadFile file with
  | error e => exact Or.inl ⟨.policy e, rfl⟩
  | ok p =>
    have hfile : (lift ((Except.ok p : Except PolicyError SandboxPolicy).mapError CliError.policy) :
        Effect World CliError SandboxPolicy) w = (.ok p, w) := rfl
    rw [bind_of_ok hfile]
    cases hpre : preflight M.ext p {} with
    | error e => exact Or.inl ⟨.policy e, rfl⟩
    | ok u =>
      refine Or.inr ⟨p, rfl, ?_⟩
      have hfits : (lift ((Except.ok u : Except PolicyError Unit).mapError CliError.policy) :
          Effect World CliError Unit) w = (.ok u, w) := rfl
      rw [bind_of_ok hfits, mapError_snd]

theorem kept_updatePolicy {f : Faults} (hf : FilesSucceed f) (h : M.KeptIn w) {s : SandboxState}
    (hs : M.store.index w = some s) {r : SandboxRecord} (hr : r ∈ s.sandboxes)
    {p : SandboxPolicy} (hvalid : p.validate = .ok ()) :
    M.KeptIn (M.store.updatePolicy M.ext f r.name p w).2 := by
  have hkept := h
  rw [KeptIn, hs] at hkept
  have hupdates : M.store.Updates f r.name w :=
    ⟨hf.loads, hf.saves, s, hs, List.mem_map_of_mem hr, hkept.serializable⟩
  rcases M.store.updatePolicy_cases M.ext f r.name p w with
    ⟨-, e, hstop⟩ | ⟨-, hok⟩ | ⟨-, hnot, -⟩
  · rw [hstop]
    exact h
  · rcases hrun : M.store.updatePolicy M.ext f r.name p w with ⟨result, w'⟩
    rw [hrun] at hok
    obtain rfl : result = .ok () := hok
    obtain ⟨hash, s₁, s', hhash, hs₁, hop, rfl⟩ := updatePolicy_ok hrun
    obtain rfl := Option.some.inj (hs.symm.trans hs₁)
    rw [KeptIn, Store.index_withIndex]
    refine Kept.updatePolicy hkept hvalid hhash hop fun q hq => ?_
    have hplace : StrictlyBeneath (M.store.policiesAt (M.store.withPolicy r.name p w).fs.cwd) q := hq
    rw [policies_withIndex s' hplace]
    exact M.store.fileAt_withPolicy r.name p w q
  · exact absurd hupdates hnot

theorem kept_cmdPolicySet (hf : FilesSucceed env.faults) (h : M.KeptIn w) (name : Option String)
    (file : Except PolicyError SandboxPolicy) : M.KeptIn (cmdPolicySet M env name file w).2 := by
  rw [cmdPolicySet_eq]
  rcases lookup_cases M.store env.lookupFaults name (setPolicy M env file) w with
    ⟨s, r, hs, hget, hrun⟩ | ⟨e, hrun⟩
  · rw [hrun]
    rcases setPolicy_cases M env file r w with ⟨e, hstop⟩ | ⟨p, hload, hset⟩
    · rw [hstop]
      exact h
    · rw [hset]
      exact kept_updatePolicy hf h hs (SandboxState.mem_of_getOrLast hget)
        (validate_of_loadFile hload)
  · rw [hrun]
    exact h

/-- The record that an insertion writes: its log path could be written down. -/
theorem plainRecord_of_insert {s s' : SandboxState} {r r' : SandboxRecord} {uuid : String}
    (hop : s.insert r uuid = .ok (r', s')) (hser : s'.serializable = true) (hissued : M.Issued r)
    (hname : IsName (osString r.name)) (hlog : r.logPath = some (M.store.logPathFor r.name)) :
    M.PlainRecord r' ∧ r'.name = r.name ∧ r'.policyHash = r.policyHash := by
  have hserial := SandboxState.serializable_of_insert hop hser
  rw [SandboxRecord.serializable, Bool.and_eq_true, hlog] at hserial
  obtain ⟨id, rfl⟩ := SandboxState.exists_id_of_insert hop
  exact ⟨⟨⟨hissued.kind, hissued.runtimeId⟩, hname, hserial.2⟩, rfl, rfl⟩

/-- The files of the policies once the policy of a new sandbox is written. -/
theorem policies_of_written {name : String} {p : SandboxPolicy} {w₁ : World}
    (hname : IsName (osString name)) (hext : Extends w.fs.cwd (M.instanceEvents w.fs.cwd name) w w₁)
    {q : Location} (hq : StrictlyBeneath (M.store.policiesAt w.fs.cwd) q) :
    (M.store.withPolicy name p w₁).fileAt q =
      if q = M.store.policyAt w.fs.cwd name then some (.policy p) else w.fileAt q := by
  have hkeep := policies_of_extends hext
    (fun ev hev q hq => not_touches_policies_of_instanceEvents hname hev hq) q hq
  rw [Store.fileAt_withPolicy, hext.cwd_eq rfl, hkeep]

/-- The insertion after the policy is written. -/
theorem kept_insert {name : String} {p : Prepared} {r : SandboxRecord} {w₁ : World}
    (hext : Extends w.fs.cwd (M.instanceEvents w.fs.cwd name) w w₁) (hrname : r.name = name)
    (hname : IsName (osString name)) (hissued : M.Issued r)
    (hworkdir : r.workdir = p.request.workdir) (hlog : r.logPath = some (M.store.logPathFor name))
    (hvalid : p.request.policy.validate = .ok ())
    (hhash : p.request.policy.contentHash M.ext = .ok r.policyHash)
    (hindex : M.store.index (M.store.withPolicy name p.request.policy w₁) = M.store.index w)
    (hstored : M.recordable env name p (M.store.withPolicy name p.request.policy w₁) = true ∨
      ∃ s r₀, M.store.index w = some s ∧ r₀ ∈ s.sandboxes ∧ r₀.name = name ∧
        p.request.policy.contentHash M.ext = .ok r₀.policyHash)
    (h : M.KeptIn w) :
    M.KeptIn (M.store.insert env.faults r env.insertUuid
      (M.store.withPolicy name p.request.policy w₁)).2 := by
  have hcwd : w₁.fs.cwd = w.fs.cwd := hext.cwd_eq rfl
  have hplace : ∀ q, StrictlyBeneath (M.store.policiesAt w.fs.cwd) q → StrictlyBeneath
      (M.store.policiesAt (M.store.withPolicy name p.request.policy w₁).fs.cwd) q := by
    intro q hq
    rw [Store.withPolicy_cwd, hcwd]
    exact hq
  rw [Store.insert_eq_modify]
  rcases Store.modify_cases M.store env.faults (·.insert r env.insertUuid)
    (M.store.withPolicy name p.request.policy w₁) with ⟨s, r', s', -, hs, hop, hsave, hrun⟩ | ⟨e, hrun⟩
  · have hser := Store.serializable_of_saves hsave
    obtain ⟨hplain, hname', hhash'⟩ := plainRecord_of_insert hop hser hissued
      (by rw [hrname]; exact hname) (by rw [hrname]; exact hlog)
    have hcwd' : (M.store.withIndex s' (M.store.withPolicy name p.request.policy w₁)).fs.cwd =
        w.fs.cwd := hcwd
    rw [KeptIn, ← hindex, hs] at h
    rw [hrun, KeptIn, Store.index_withIndex, hcwd']
    refine Kept.insert h hop hser hplain hvalid (by rw [hhash', hhash]) fun q hq => ?_
    rw [policies_withIndex s' (hplace q hq), hname', hrname]
    exact policies_of_written hname hext hq
  · rcases hstored with hdone | ⟨s, r₀, hs, hr₀, rfl, hr₀hash⟩
    · obtain ⟨s', r', hgo, -⟩ := insert_of_recordable hrname hworkdir hlog hdone
      rw [Store.insert_eq_modify, hrun] at hgo
      cases hgo
    · rw [KeptIn, hs] at h
      rw [hrun, KeptIn, hindex, hs, Store.withPolicy_cwd, hcwd]
      exact Kept.rewrite h hr₀ hvalid hr₀hash fun q hq => policies_of_written hname hext hq

theorem kept_createPrepared {name : String} {p : Prepared} (hp : p.Persistent M name)
    (hname : IsName (osString name)) (hvalid : p.request.policy.validate = .ok ())
    (hstored : M.CreationStored env name p w) (h : M.KeptIn w) :
    M.KeptIn (createPrepared M env name p w).2 := by
  have hindex := index_makeRecord hp env w
  have hplan := follows_makeRecord (w := w) hp env
  rw [Follows] at hplan
  rw [createPrepared_eq]
  rcases makeRecord_cases hp env w with ⟨e, w₁, hmake, hext⟩ |
    ⟨r, w₁, hmake, hext, hhash, hrname, hworkdir, hlog, hissued⟩
  · rw [hmake] at hindex
    rw [bind_of_error hmake]
    refine h.quiet hext (fun ev hev q hq => not_touches_policies_of_instanceEvents hname hev hq) ?_
    rw [hindex]
  · rw [hmake] at hindex hplan
    rw [bind_of_ok hmake, bind_pure_snd, mapError_snd]
    refine kept_insert hext hrname hname hissued hworkdir hlog hvalid hhash hindex ?_ h
    rcases hstored with hstops | hdone | hsame
    · rw [← run_createSteps hp, ← hplan.1] at hstops
      cases hstops
    · rw [completes, Bool.and_eq_true, ← recordable_congr hindex] at hdone
      exact Or.inl hdone.2
    · exact Or.inr hsame

/-- The deletion of an instance of a plain name spares the store. -/
theorem not_touches_of_removalEvents {r : SandboxRecord} (hr : M.PlainRecord r) {dir : Location}
    {ev : FsEvent} (hkind : resolveMechanism M.os r.mechanism = .mac)
    (hev : removalEvents dir r.runtimeId ev) :
    ¬ ev.touches (M.store.indexAt dir) ∧
      ∀ q, StrictlyBeneath (M.store.policiesAt dir) q → ¬ ev.touches q := by
  rw [removalEvents_of_issued hr.issued hkind hev, removedAt_of_logPath hr.logPath]
  refine ⟨fun h => ?_, fun q hq => not_prefix_instanceAt hr.name hq⟩
  have habove : M.instanceAt dir r.name <+: M.store.indexAt dir := h
  have hroot : M.store.root = M.root := rfl
  rw [instanceAt_of_isName hr.name, instancesAt, Store.indexAt_eq, hroot, List.append_assoc] at habove
  have hrest := (List.prefix_append_right_inj _).mp habove
  rw [List.cons_append, List.cons_prefix_cons] at hrest
  exact absurd hrest.1 (by decide)

theorem kept_cmdRm (hf : FilesSucceed env.faults) (h : M.KeptIn w) (key : String) :
    M.KeptIn (cmdRm M env key w).2 := by
  rcases cmdRm_cases M env key w with ⟨s, r, s', -, hs, hop, hsave, hrun⟩ | ⟨e, hrun⟩
  · have hkept := h
    rw [KeptIn, hs] at hkept
    have hmem := SandboxState.mem_of_remove hop
    have hr := hkept.plain r hmem
    have hin : StrictlyBeneath (M.store.policiesAt w.fs.cwd) (M.store.policyAt w.fs.cwd r.name) :=
      strictlyBeneath_policyAt hr.name
    -- the policy is there to be dropped
    have hthere : (M.store.withIndex s' w).fileAt (M.store.policyAt w.fs.cwd r.name) ≠ none := by
      obtain ⟨p, hp, -⟩ := hkept.stored r hmem
      rw [policies_withIndex s' hin, hp]
      exact Option.some_ne_none _
    have hdropped : M.KeptIn (M.store.dropPolicy env.faults r.name (M.store.withIndex s' w)) := by
      have hcwd : (M.store.dropPolicy env.faults r.name (M.store.withIndex s' w)).fs.cwd = w.fs.cwd :=
        (M.store.extends_dropPolicy env.faults r.name _ w.fs.cwd).cwd_eq rfl
      rw [KeptIn, Store.index_dropPolicy, Store.index_withIndex, hcwd]
      refine Kept.remove hkept hop (Store.serializable_of_saves hsave) fun q hq => ?_
      rw [fileAt_dropPolicy hf.drops hthere, policies_withIndex s' hq]
      rfl
    rw [hrun, mapError_snd]
    generalize M.store.dropPolicy env.faults r.name (M.store.withIndex s' w) = w₁ at hdropped ⊢
    have hext : Extends w₁.fs.cwd (fun ev => resolveMechanism M.os r.mechanism = .mac ∧
        removalEvents w₁.fs.cwd r.runtimeId ev) w₁
        (mechRemove M (env.mechHost M env.inheritedPort) r.mechanism r.runtimeId w₁).2 :=
      extends_mechRemove M (env.mechHost M env.inheritedPort) r.mechanism r.runtimeId w₁
    have hspared := fun ev (hev : resolveMechanism M.os r.mechanism = .mac ∧
      removalEvents w₁.fs.cwd r.runtimeId ev) => not_touches_of_removalEvents hr hev.1 hev.2
    refine hdropped.quiet hext (fun ev hev => (hspared ev hev).2) ?_
    rw [Store.index_of_extends hext fun ev hev => (hspared ev hev).1]
  · rw [hrun]
    exact h

/-- Every other command leaves the records and the policies alone. -/
theorem kept_execute_of_ne {cmd : Command} (hcreate : ∀ name args, cmd ≠ .create name args)
    (hset : ∀ name file, cmd ≠ .policySet name file) (hrm : ∀ key, cmd ≠ .rm key)
    (h : M.KeptIn w) : M.KeptIn (execute M env cmd w).2 := by
  have hsave : ∀ ev : FsEvent, ev = ⟨.saveIndex, M.store.indexAt w.fs.cwd⟩ →
      ∀ q, StrictlyBeneath (M.store.policiesAt w.fs.cwd) q → ¬ ev.touches q := by
    rintro ev rfl q hq
    exact ne_indexAt_of_policies hq
  refine h.quiet (extends_execute M env cmd w w.fs.cwd) ?_ ?_
  · intro ev hev
    cases cmd with
    | create name args => exact absurd rfl (hcreate name args)
    | policySet name file => exact absurd rfl (hset name file)
    | rm key => exact absurd rfl (hrm key)
    | exec name command => exact hsave ev hev
    | shell name => exact hsave ev hev
    | run name args command => exact hev.elim
    | policyGet name => exact hev.elim
    | ls => exact hev.elim
    | logs name => exact hev.elim
    | doctor => exact hev.elim
  · have hstep := indexStep_execute M env cmd w
    generalize M.store.index (execute M env cmd w).2 = c' at hstep ⊢
    generalize M.store.index w = c at hstep ⊢
    cases hstep with
    | keep => rfl
    | touch => rfl
    | create => exact absurd rfl (hcreate _ _)
    | update => exact absurd rfl (hset _ _)
    | remove => exact absurd rfl (hrm _)
    | lose => exact absurd rfl (hrm _)

/-- **One command keeps the policies with their records.** -/
theorem kept_execute {cmd : Command} (hf : FilesSucceed env.faults)
    (hcreate : ∀ name args, cmd = .create name args → IsName (osString (createName name)) ∧
      ∀ p, prepare M env (createName name) args id false [] = .ok p →
        M.CreationStored env (createName name) p w)
    (h : M.KeptIn w) : M.KeptIn (execute M env cmd w).2 := by
  cases cmd with
  | create name args =>
    obtain ⟨hname, hstored⟩ := hcreate name args rfl
    rw [execute, bind_pure_snd, cmdCreate]
    cases hprep : prepare M env (createName name) args id false [] with
    | error e => exact h
    | ok p =>
      exact kept_createPrepared (persistent_of_prepare hprep) hname (validate_of_prepare hprep)
        (hstored p hprep) h
  | policySet name file =>
    rw [execute, bind_pure_snd]
    exact kept_cmdPolicySet hf h name file
  | rm key =>
    rw [execute, bind_pure_snd]
    exact kept_cmdRm hf h key
  | _ => exact kept_execute_of_ne (by simp) (by simp) (by simp) h

end Commands

/-! ## Runs -/

variable (M : Machine) (dir : Location)

/-- A store without sandboxes and without policy files. -/
structure EmptyStore (w : World) : Prop where
  index : M.EmptyIndex dir w
  policies : ∀ q, StrictlyBeneath (M.store.policiesAt dir) q → w.fileAt q = none

/-- The file operations succeed and sandboxes get plain names. -/
def PlainUse (_ : World) (a : Invocation) : Prop :=
  FilesSucceed a.env.faults ∧
  ∀ name args, a.command = .create name args → IsName (osString (createName name))

/-- Every creation that gets to write a policy completes, or finds the hash on record. -/
def StoresPolicy (w : World) (a : Invocation) : Prop :=
  ∀ name args p st w₁, a.command = .create name args →
    prepare M a.env (createName name) args id false [] = .ok p →
    Store.openAt M.root a.env.faults (w.enter a.cwd) = (.ok st, w₁) →
    M.CreationStored a.env (createName name) p w₁

/-- Every live record has a policy that can be loaded and has the recorded hash, and every
    file beneath `policies` belongs to a live record. -/
structure PoliciesAgree (w : World) : Prop where
  loaded : ∀ s, M.records dir w = some s → ∀ r ∈ s.sandboxes, ∀ f, f .loadPolicy = false →
    ∃ p, (M.store.loadPolicy f r.name (w.enter dir)).1 = .ok p ∧
      p.contentHash M.ext = .ok r.policyHash
  owned : ∀ q, StrictlyBeneath (M.store.policiesAt dir) q → w.fileAt q ≠ none →
    ∃ s, M.records dir w = some s ∧ ∃ r ∈ s.sandboxes, q = M.store.policyAt dir r.name

variable {M dir}

/-- A stored policy is loaded. -/
theorem loadPolicy_of_stored {r : SandboxRecord} {w : World} {f : Faults}
    (h : M.Stored w.fs.cwd w.fileAt r) (hf : f .loadPolicy = false) :
    ∃ p, (M.store.loadPolicy f r.name w).1 = .ok p ∧ p.contentHash M.ext = .ok r.policyHash := by
  obtain ⟨p, hfile, hvalid, hhash⟩ := h
  refine ⟨p, ?_, hhash⟩
  have hread : (World.readFile f .loadPolicy (M.store.policyPath r.name)).mapError StateError.io w =
      (.ok (.policy p), w) := by
    have hok : w.fs.read (M.store.policyPath r.name) = .ok (.policy p) := read_eq_ok_iff.mpr hfile
    simp [World.readFile, hf, hok, mapError]
  rw [Store.loadPolicy, bind_of_ok hread]
  simp only [hvalid]
  rfl

theorem policiesAgree_of_kept {w : World}
    (h : M.Kept dir ((M.records dir w).getD {}) w.fileAt) : M.PoliciesAgree dir w := by
  refine ⟨fun s hs r hr f hf => ?_, fun q hq hfile => ?_⟩
  · rw [hs] at h
    exact loadPolicy_of_stored (w := w.enter dir) (h.stored r hr) hf
  · obtain ⟨r, hr, hplace⟩ := h.owned q hq hfile
    cases hs : M.records dir w with
    | none =>
      rw [hs] at hr
      cases hr
    | some s =>
      rw [hs] at hr
      exact ⟨s, rfl, r, hr, hplace⟩

theorem kept_of_emptyStore {w : World} (h : M.EmptyStore dir w) :
    M.Kept dir ((M.records dir w).getD {}) w.fileAt := by
  have hnone : (M.records dir w).getD {} = {} := by
    rcases h.index with hs | hs
    · rw [hs]
      rfl
    · rw [hs]
      rfl
  rw [hnone]
  refine ⟨List.nodup_nil, rfl, ?_, ?_, ?_⟩
  · intro r hr
    cases hr
  · intro r hr
    cases hr
  · intro q hq hfile
    exact absurd (h.policies q hq) hfile

/-- Processes that mean one root mean one set of policies. -/
theorem Sees.kept_iff {cwd : Location} (h : M.Sees dir cwd) (s : SandboxState)
    (files : Location → Option FileData) : M.Kept cwd s files ↔ M.Kept dir s files := by
  have hpolicies : M.store.policiesAt cwd = M.store.policiesAt dir := congrArg (· ++ _) h.root_eq
  have hstored : ∀ r, M.Stored cwd files r ↔ M.Stored dir files r := fun r => by
    rw [Stored, Stored, h.policyAt_eq]
  constructor
  · intro hk
    refine ⟨hk.distinct, hk.serializable, hk.plain, fun r hr => (hstored r).mp (hk.stored r hr), ?_⟩
    have howned := hk.owned
    simp only [hpolicies, h.policyAt_eq] at howned
    exact howned
  · intro hk
    refine ⟨hk.distinct, hk.serializable, hk.plain, fun r hr => (hstored r).mpr (hk.stored r hr), ?_⟩
    simp only [hpolicies, h.policyAt_eq]
    exact hk.owned

theorem kept_opened {w w₁ : World} (hopened : M.Opened w w₁) (h : M.KeptIn w) : M.KeptIn w₁ := by
  refine h.quiet hopened.events
    (fun ev hev q hq => not_touches_policies_of_openingEvents hev hq) ?_
  rcases hopened.index with hsame | ⟨hnone, hfirst⟩
  · rw [hsame]
  · rw [hnone, hfirst]
    rfl

/-- One process of a run. -/
theorem kept_runs {w w' : World} {a : Invocation} (hplain : PlainUse w a)
    (hstored : M.StoresPolicy w a) (hstep : M.Runs dir w a w')
    (h : M.Kept dir ((M.records dir w).getD {}) w.fileAt) :
    M.Kept dir ((M.records dir w').getD {}) w'.fileAt := by
  obtain ⟨hsees, rfl⟩ := hstep
  have hbefore := hsees.records_enter w
  have hcwd := ssbx_cwd (M := M) a.env a.command (w.enter a.cwd)
  have hafter := Sees.records_ssbx (w := w.enter a.cwd) hsees a.env a.command
  have hentered : M.KeptIn (w.enter a.cwd) := by
    rw [KeptIn, ← hbefore]
    exact (hsees.kept_iff _ _).mpr h
  have hopened := opened_openAt (M := M) a.env.faults (w.enter a.cwd)
  have hleft : M.KeptIn (ssbx M a.env a.command (w.enter a.cwd)).2 := by
    rcases hopen : Store.openAt M.root a.env.faults (w.enter a.cwd) with ⟨r, w₁⟩
    rw [hopen] at hopened
    have hkept : M.KeptIn w₁ := kept_opened hopened hentered
    cases r with
    | error e =>
      rw [ssbx_of_not_opened hopen]
      exact hkept
    | ok st =>
      rw [ssbx_of_opened hopen]
      refine kept_execute hplain.1 (fun name args hcmd => ⟨hplain.2 name args hcmd, ?_⟩) hkept
      exact fun p hprep => hstored name args p st w₁ hcmd hprep hopen
  rw [KeptIn, hcwd] at hleft
  rw [hafter]
  exact (hsees.kept_iff _ _).mp hleft

end Machine

/-- **Stored policies and recorded hashes agree.**  In a run from an empty store, with plain names
    and working file operations, in which every creation that writes a policy completes or finds
    the hash of that policy on record, every live record has a policy that loads and has the
    recorded hash, and every policy file belongs to a live record. -/
theorem policies_agree (M : Machine) (dir : Location) (w : World)
    (h : Reach (M.EmptyStore dir) (M.Runs dir)
      (fun w a => Machine.PlainUse w a ∧ M.StoresPolicy w a) w) : M.PoliciesAgree dir w := by
  apply Machine.policiesAgree_of_kept
  refine Reach.invariant (fun w => M.Kept dir ((M.records dir w).getD {}) w.fileAt) ?_ ?_ h
  · intro w hw
    exact Machine.kept_of_emptyStore hw
  · rintro w a w' hkept ⟨hplain, hstored⟩ hstep
    exact Machine.kept_runs hplain hstored hstep hkept

theorem filesSucceed_noFaults : Machine.FilesSucceed noFaults := ⟨rfl, rfl, rfl⟩

theorem plainUse_create {name uuid : String} {args : PolicyArgs} (hname : IsName (osString name))
    (w : World) : Machine.PlainUse w
      { command := .create (some name) args, env := smallEnv uuid, cwd := [] } := by
  refine ⟨filesSucceed_noFaults, fun name' args' hcmd => ?_⟩
  injection hcmd with hsame
  rw [← hsame]
  exact hname

theorem plainUse_rm (key : String) (w : World) : Machine.PlainUse w (smallRm key) := by
  refine ⟨filesSucceed_noFaults, fun name args hcmd => ?_⟩
  cases hcmd

theorem emptyStore_emptyWorld : smallMachine.EmptyStore [] emptyWorld where
  index := Or.inl (smallMachine.records_of_fresh [] fresh_emptyWorld)
  policies := by
    rintro q ⟨⟨rest, rfl⟩, -⟩
    have hplace : smallMachine.store.policiesAt [] = [osString "s", osString "policies"] := by decide
    rw [hplace]
    simp [World.fileAt, FileSystem.fileAt, emptyWorld]

/-- A creation whose every step goes through. -/
theorem storesPolicy_smallCreate {kind : MechanismKind} {name uuid : String} {w : World}
    (h : smallCompletes kind name uuid w = true) :
    smallMachine.StoresPolicy w (smallCreate kind name uuid) := by
  intro name' args p st w₁ hcmd hprep hopen
  exact Or.inr (Or.inl (completes_of_small h hcmd hprep hopen))

/-- `create --name a`, `create --name b`, then `rm b`. -/
theorem policies_agree_smallRm : smallMachine.PoliciesAgree [] smallRmWorld := by
  have hfirst : smallMachine.StoresPolicy emptyWorld (smallCreate .mac "a" "u") :=
    storesPolicy_smallCreate (by decide)
  have hsecond : smallMachine.StoresPolicy
      (smallMachine.after emptyWorld (smallCreate .mac "a" "u")) (smallCreate .mac "b" "v") :=
    storesPolicy_smallCreate (by decide)
  refine policies_agree smallMachine [] smallRmWorld (.next (.next (.next
    (.start emptyStore_emptyWorld) ⟨plainUse_create (by decide) _, hfirst⟩ (runs_after _))
    ⟨plainUse_create (by decide) _, hsecond⟩ (runs_after _)) ⟨plainUse_rm "b" _, ?_⟩ (runs_after _))
  intro name args p st w₁ hcmd
  cases hcmd

/-- The small host with a serialisation that shows the memory limit, and a hash without
    collisions. -/
def hashingMachine : Machine :=
  { smallMachine with
    ext := {
      toYaml := fun p => .ok ("version: 1\nresources:\n  memory: " ++ p.resources.memory ++ "\n")
      sha256Hex := id
      allocate := fun _ _ _ => .ok () } }

/-- `create --name a --memory 1G` -/
def createWithLess : Invocation where
  command := .create (some "a") { mechanism := some .mac, memory := some "1G" }
  env := smallEnv "v"
  cwd := []

/-- `create --name a` and then `create --name a --memory 1G` -/
def twiceCreated : World :=
  hashingMachine.after (hashingMachine.after emptyWorld (smallCreate .mac "a" "u")) createWithLess

/-- `create --name a` in a directory whose name is not UTF-8 -/
def createElsewhere : Invocation where
  command := .create (some "a") { mechanism := some .mac }
  env := { smallEnv "u" with workdir := .ok (osString "/w" ++ [.invalid [255]]) }
  cwd := []

theorem records_twiceCreated :
    hashingMachine.records [] twiceCreated = some ⟨some "a", [{ smallRecord "a" "u" with
      policyHash := "version: 1\nresources:\n  memory: 2G\n" }]⟩ := by decide

theorem loadPolicy_twiceCreated :
    (hashingMachine.store.loadPolicy noFaults "a" (twiceCreated.enter [])).1 =
      .ok { resources := { memory := "1G" }, mechanism := some .mac } := by decide

/-- A create that is refused leaves its policy: in place of that of the live sandbox, or without
    a sandbox. -/
theorem policies_disagree :
    (Reach (hashingMachine.EmptyStore []) (hashingMachine.Runs []) Machine.PlainUse twiceCreated ∧
      ¬ hashingMachine.PoliciesAgree [] twiceCreated) ∧
    Reach (smallMachine.EmptyStore []) (smallMachine.Runs []) Machine.PlainUse
        (smallMachine.after emptyWorld createElsewhere) ∧
      ¬ smallMachine.PoliciesAgree [] (smallMachine.after emptyWorld createElsewhere) := by
  have hempty : hashingMachine.EmptyStore [] emptyWorld :=
    ⟨emptyStore_emptyWorld.index, emptyStore_emptyWorld.policies⟩
  refine ⟨⟨?_, fun h => ?_⟩, ?_, fun h => ?_⟩
  · exact .next (.next (.start hempty) (plainUse_create (by decide) _) ⟨Or.inl rfl, rfl⟩)
      (plainUse_create (by decide) _) ⟨Or.inl rfl, rfl⟩
  · obtain ⟨p, hload, hhash⟩ := h.loaded _ records_twiceCreated _ List.mem_cons_self noFaults rfl
    change (hashingMachine.store.loadPolicy noFaults "a" (twiceCreated.enter [])).1 = .ok p at hload
    rw [loadPolicy_twiceCreated] at hload
    rw [← Except.ok.inj hload] at hhash
    exact absurd (Except.ok.inj hhash) (by decide)
  · refine .next (.start emptyStore_emptyWorld) ⟨filesSucceed_noFaults, ?_⟩ (runs_after _)
    intro name args hcmd
    injection hcmd with hname
    rw [← hname]
    decide
  · obtain ⟨s, hs, r, hr, -⟩ := h.owned (smallMachine.store.policyAt [] "a") (by decide) (by decide)
    have hrecords : smallMachine.records [] (smallMachine.after emptyWorld createElsewhere) =
        some {} := by decide
    rw [hrecords] at hs
    rw [← Option.some.inj hs] at hr
    cases hr

end SimpleSandbox
