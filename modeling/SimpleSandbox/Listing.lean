import SimpleSandbox.CommandRuns

/-!
# Listing the sandboxes

`ssbx ls` prints one line for each record, with the first 16 bytes of its runtime id.  A runtime
id holds the configured root, a name or what the engine printed, and the cut is made at a byte:
where a character crosses it, the program panics in the middle of the list.
-/

namespace SimpleSandbox

open RustText OsPath FileSystem Effect World

/-! ## The printed text -/

/-- `Display` of a mechanism. -/
def MechanismKind.display : MechanismKind → String
  | .podman => "podman"
  | .mac => "mac"
  | .krun => "krun"
  | .auto => "auto"

/-- `&runtime_id[..runtime_id.len().min(16)]`; `none` is a panic. -/
def cutId (runtimeId : String) : Option String :=
  (Utf8Slice.cut runtimeId.toList (min (asBytes runtimeId).length 16)).map String.ofList

/-- One line; the text of a time is `to_rfc3339`. -/
def lsLine (rfc3339 : ℕ → String) (r : SandboxRecord) : Option String :=
  (cutId r.runtimeId).map fun short =>
    r.name ++ "\t" ++ r.mechanism.display ++ "\t" ++ short ++ "\t" ++ rfc3339 r.createdAt

/-- What a command has printed, and whether it panicked then. -/
structure Printed where
  lines : List String
  panicked : Bool
deriving DecidableEq

/-- The loop of `cmd_ls`. -/
def printRecords (rfc3339 : ℕ → String) : List SandboxRecord → Printed
  | [] => { lines := [], panicked := false }
  | r :: rest =>
    match lsLine rfc3339 r with
    | none => { lines := [], panicked := true }
    | some line =>
      { lines := line :: (printRecords rfc3339 rest).lines
        panicked := (printRecords rfc3339 rest).panicked }

/-- `cmd_ls` without `--json`, after the list is read. -/
def printList (rfc3339 : ℕ → String) (list : List SandboxRecord) : Printed :=
  if list = [] then { lines := ["(no sandboxes)"], panicked := false }
  else printRecords rfc3339 list

/-- A process that runs `ls`. -/
def lsText (M : Machine) (env : ProcessEnv) (rfc3339 : ℕ → String) :
    Effect World CliError Printed := do
  let _ ← (Store.openAt M.root env.faults).mapError .state
  let list ← cmdLs M env
  pure (printList rfc3339 list)

/-- It reads and changes what the command `ls` does. -/
theorem ssbx_ls (M : Machine) (env : ProcessEnv) (rfc3339 : ℕ → String) :
    ssbx M env .ls = (do let _ ← lsText M env rfc3339; pure 0) := by
  simp only [ssbx, execute, lsText, bind_assoc, pure_bind]

/-! ## Cuts -/

/-- The text is the beginning of the id up to byte 16, and ends with a whole character. -/
def CutsTo (runtimeId short : String) : Prop :=
  short.toList <+: runtimeId.toList ∧
    (asBytes short).length = min (asBytes runtimeId).length 16

theorem cutId_eq_some_iff {runtimeId short : String} :
    cutId runtimeId = some short ↔ CutsTo runtimeId short := by
  rw [cutId, CutsTo, asBytes_eq_encode short, Option.map_eq_some_iff]
  constructor
  · rintro ⟨pre, hcut, rfl⟩
    rw [String.toList_ofList]
    exact Utf8Slice.cut_eq_some_iff.mp hcut
  · intro h
    exact ⟨short.toList, Utf8Slice.cut_eq_some_iff.mpr h, String.ofList_toList⟩

/-- The record has its line. -/
def LineOf (rfc3339 : ℕ → String) (r : SandboxRecord) (line : String) : Prop :=
  ∃ short, CutsTo r.runtimeId short ∧
    line = r.name ++ "\t" ++ r.mechanism.display ++ "\t" ++ short ++ "\t" ++ rfc3339 r.createdAt

theorem lsLine_eq_some_iff {rfc3339 : ℕ → String} {r : SandboxRecord} {line : String} :
    lsLine rfc3339 r = some line ↔ LineOf rfc3339 r line := by
  rw [lsLine, LineOf, Option.map_eq_some_iff]
  refine exists_congr fun short => ?_
  rw [cutId_eq_some_iff, eq_comm]

/-- One line for each record, in order; a line of its own for an empty list. -/
structure Prints (rfc3339 : ℕ → String) (list : List SandboxRecord) (printed : Printed) : Prop where
  returns : printed.panicked = false
  lines : list ≠ [] → List.Forall₂ (LineOf rfc3339) list printed.lines
  empty : list = [] → printed.lines = ["(no sandboxes)"]

/-- The loop gets to the end when every id can be cut. -/
theorem printRecords_returns_iff {rfc3339 : ℕ → String} {list : List SandboxRecord} :
    (printRecords rfc3339 list).panicked = false ↔
      ∀ r ∈ list, ∃ short, CutsTo r.runtimeId short := by
  induction list with
  | nil => simp [printRecords]
  | cons r rest ih =>
    rw [List.forall_mem_cons, ← ih, printRecords]
    cases hline : lsLine rfc3339 r with
    | none =>
      refine iff_of_false (by simp) fun h => ?_
      obtain ⟨short, hshort⟩ := h.1
      rw [lsLine_eq_some_iff.mpr ⟨short, hshort, rfl⟩] at hline
      cases hline
    | some line =>
      obtain ⟨short, hshort, -⟩ := lsLine_eq_some_iff.mp hline
      simp only [show ∃ short, CutsTo r.runtimeId short from ⟨short, hshort⟩, true_and]

theorem printRecords_lines {rfc3339 : ℕ → String} {list : List SandboxRecord}
    (h : (printRecords rfc3339 list).panicked = false) :
    List.Forall₂ (LineOf rfc3339) list (printRecords rfc3339 list).lines := by
  induction list with
  | nil => exact .nil
  | cons r rest ih =>
    rw [printRecords] at h ⊢
    cases hline : lsLine rfc3339 r with
    | none =>
      rw [hline] at h
      cases h
    | some line =>
      rw [hline] at h
      exact .cons (lsLine_eq_some_iff.mp hline) (ih h)

/-- **When a list is printed**: every runtime id has a character boundary where it is cut. -/
theorem prints_iff {rfc3339 : ℕ → String} {list : List SandboxRecord} :
    Prints rfc3339 list (printList rfc3339 list) ↔
      ∀ r ∈ list, ∃ short, CutsTo r.runtimeId short := by
  rw [printList]
  by_cases hnil : list = []
  · subst hnil
    rw [if_pos rfl]
    exact iff_of_true ⟨rfl, fun hne => absurd rfl hne, fun _ => rfl⟩
      fun r hr => absurd hr List.not_mem_nil
  · rw [if_neg hnil, ← printRecords_returns_iff]
    constructor
    · intro h
      exact h.returns
    · intro h
      exact ⟨h, fun _ => printRecords_lines h, fun he => absurd he hnil⟩

/-! ## What a creation records -/

/-- The runtime ids a prepared creation can record: on macOS the path of its profile; otherwise what
    the engine prints, or the name of the container when it prints nothing. -/
def Machine.RecordsId (M : Machine) (env : ProcessEnv) (name : String) (p : Prepared)
    (runtimeId : String) : Prop :=
  (p.kind = .mac ∧ M.os = .macos ∧ runtimeId = M.macRuntimeId name) ∨
  (p.kind = .podman ∧ ∃ args stdout,
    PodmanMechanism.createArgs {} (env.mechHost M p.proxyPort) p.request = .ok args ∧
    env.engine.run args = .started stdout ∧
    runtimeId = if trim stdout = "" then containerName name else trim stdout)

theorem macos_of_macCreate {m : MacMechanism} {h : MechHost} {req : CreateRequest}
    {result : CreateResult} (hres : Returns (m.create h req) result) : h.os = .macos := by
  obtain ⟨w, w', hrun⟩ := hres
  by_contra hos
  rw [MacMechanism.create, if_pos hos] at hrun
  cases (Prod.mk.inj hrun).1

theorem runtimeId_of_podmanCreate {m : PodmanMechanism} {h : MechHost} {req : CreateRequest}
    (heph : req.ephemeral = false) {result : CreateResult}
    (hres : Returns (m.create h req) result) :
    ∃ args stdout, m.createArgs h req = .ok args ∧ h.engine.run args = .started stdout ∧
      result.runtimeId = if trim stdout = "" then containerName req.name else trim stdout := by
  obtain ⟨w, w', hrun⟩ := hres
  rw [PodmanMechanism.create, heph] at hrun
  obtain ⟨bin, w₁, -, hrun⟩ := bind_eq_ok_iff.mp hrun
  obtain ⟨arch, w₂, -, hrun⟩ := bind_eq_ok_iff.mp hrun
  obtain ⟨args, w₃, hargs, hrun⟩ := bind_eq_ok_iff.mp hrun
  obtain ⟨id, w₄, hid, hrun⟩ := bind_eq_ok_iff.mp hrun
  rw [PodmanMechanism.runDetached] at hid
  cases hstart : h.engine.run args with
  | notStarted e =>
    rw [hstart] at hid
    cases (Prod.mk.inj hid).1
  | failed stderr left =>
    rw [hstart] at hid
    obtain ⟨u, w₅, -, hfail⟩ := bind_eq_ok_iff.mp hid
    cases (Prod.mk.inj hfail).1
  | started stdout =>
    rw [hstart] at hid
    obtain ⟨u, w₅, -, hpure⟩ := bind_eq_ok_iff.mp hid
    obtain rfl := Except.ok.inj (Prod.mk.inj hpure).1
    refine ⟨args, stdout, (Prod.mk.inj hargs).1, hstart, ?_⟩
    rw [← Except.ok.inj (Prod.mk.inj hrun).1]

theorem recordsId_of_mechCreate {M : Machine} {env : ProcessEnv} {name : String} {p : Prepared}
    (hp : p.Persistent M name) {result : CreateResult}
    (hres : Returns (mechCreate M (env.mechHost M p.proxyPort) p.kind p.request) result) :
    M.RecordsId env name p result.runtimeId := by
  have hkrun := not_krun_of_mechCreate hres
  have hauto := resolveMechanism_ne_auto M.os p.kind
  rw [hp.resolved] at hkrun hauto
  cases hkind : p.kind with
  | mac =>
    have hid := runtimeId_of_mechCreate hp hkind hres
    rw [mechCreate_mac _ _ _ hkind] at hres
    exact Or.inl ⟨hkind, macos_of_macCreate hres, hid⟩
  | podman =>
    rw [mechCreate_podman _ _ _ hkind] at hres
    obtain ⟨args, stdout, hargs, hstart, hid⟩ := runtimeId_of_podmanCreate hp.ephemeral hres
    rw [hp.name_eq] at hid
    exact Or.inr ⟨hkind, args, stdout, hargs, hstart, hid⟩
  | krun => exact absurd hkind hkrun
  | auto => exact absurd hkind hauto

namespace Machine

variable {M : Machine} {dir : Location}

/-- Every runtime id of an index has a property. -/
def AllIds (P : String → Prop) (c : Option SandboxState) : Prop :=
  ∀ s, c = some s → ∀ r ∈ s.sandboxes, P r.runtimeId

/-- No record has the name. -/
def Free (name : String) (c : Option SandboxState) : Prop := ∀ s, c = some s → name ∉ s.names

theorem free_of_opens {name : String} {c : Option SandboxState} {s : SandboxState}
    (h : Opens c (some s)) (hfree : name ∉ s.names) : Free name c := by
  rintro s₀ rfl
  obtain rfl := Option.some.inj (h.of_records rfl)
  exact hfree

/-- **Runtime ids come from `create`.**  A property of runtime ids holds after a process if it
    holds before and of what a creation records. -/
theorem allIds_of_runs {P : String → Prop} {w w' : World} {a : Invocation}
    (hstep : M.Runs dir w a w') (h : AllIds P (M.records dir w))
    (hnew : ∀ name args p runtimeId, a.command = .create name args →
      prepare M a.env (createName name) args id false [] = .ok p →
      Free (createName name) (M.records dir w) →
      M.RecordsId a.env (createName name) p runtimeId → P runtimeId) :
    AllIds P (M.records dir w') := by
  by_cases hcreate : ∃ name args, a.command = .create name args
  · obtain ⟨name, args, hcommand⟩ := hcreate
    obtain ⟨hsees, rfl⟩ := hstep
    rw [hsees.records_enter w] at h hnew
    rw [Sees.records_ssbx (w := w.enter a.cwd) hsees, hcommand]
    obtain ⟨w₁, hopened, hrun | ⟨e, hrun⟩⟩ :=
      ssbx_cases (M := M) a.env (.create name args) (w.enter a.cwd)
    · have hopen : AllIds P (M.store.index w₁) := hopened.index.all h
      rw [hrun, execute, bind_pure_snd]
      rcases moves_cmdCreate M a.env name args w₁ with hkeep | ⟨s, s', hs, ⟨p, hp, hinserted⟩, hs'⟩
      · rw [hkeep]
        exact hopen
      · obtain ⟨result, r', hresult, hname, hid, hrecords⟩ := hinserted.records
        have hfree := free_of_opens (hs ▸ hopened.index) hname
        intro s₁ hs₁ r hr
        obtain rfl : s' = s₁ := Option.some.inj (hs'.symm.trans hs₁)
        rw [hrecords, List.mem_append, List.mem_singleton] at hr
        rcases hr with hold | rfl
        · exact hopen s hs r hold
        · rw [hid]
          exact hnew name args p _ hcommand hp hfree
            (recordsId_of_mechCreate (persistent_of_prepare hp) hresult)
    · rw [hrun]
      exact hopened.index.all h
  · obtain ⟨c, hopens, hindex⟩ := hstep.indexStep
    exact records_of_indexStep (fun r => P r.runtimeId) (fun _ _ hr => hr) (hopens.all h)
      (fun name args _ _ hcommand => absurd ⟨name, args, hcommand⟩ hcreate) hindex

/-! ## Listing never aborts -/

/-- Every id the step can record has a character boundary where `ls` cuts it.  A `create` whose
    name is taken records none. -/
def CreatesCut (M : Machine) (dir : Location) (w : World) (a : Invocation) : Prop :=
  ∀ name args p runtimeId, a.command = .create name args →
    prepare M a.env (createName name) args id false [] = .ok p →
    Free (createName name) (M.records dir w) →
    M.RecordsId a.env (createName name) p runtimeId → ∃ short, CutsTo runtimeId short

/-- `ls` in any process: once it has read the index it prints all records, one line each, and
    does not stop in between; and every id is cut at a character boundary. -/
structure ListsAll (M : Machine) (dir : Location) (w : World) : Prop where
  boundary : AllIds (fun runtimeId => ∃ short, CutsTo runtimeId short) (M.records dir w)
  returns : ∀ (rfc3339 : ℕ → String) (env : ProcessEnv) (cwd : Location) (st : Store) (w₁ : World)
    (s : SandboxState), M.Sees dir cwd →
    Store.openAt M.root env.faults (w.enter cwd) = (.ok st, w₁) →
    env.faults .loadIndex = false → M.store.index w₁ = some s →
    ∃ printed, lsText M env rfc3339 (w.enter cwd) = (.ok printed, w₁) ∧
      ssbx M env .ls (w.enter cwd) = (.ok 0, w₁)
  prints : ∀ (rfc3339 : ℕ → String) (env : ProcessEnv) (cwd : Location) (printed : Printed)
    (w' : World), M.Sees dir cwd → lsText M env rfc3339 (w.enter cwd) = (.ok printed, w') →
    ∃ s, Opens (M.records dir w) (some s) ∧ Prints rfc3339 s.sandboxes printed

theorem cmdLs_of_index {env : ProcessEnv} {w : World} {s : SandboxState}
    (hread : env.faults .loadIndex = false) (hs : M.store.index w = some s) :
    cmdLs M env w = (.ok s.sandboxes, w) := by
  rcases Store.loadIndex_cases M.store env.faults w with ⟨s', -, hs', hload⟩ | ⟨hbad | hbad, -⟩
  · rw [hs] at hs'
    rw [Option.some.inj hs']
    exact mapError_eq_ok_iff.mpr (bind_of_ok hload)
  · rw [hread] at hbad
    cases hbad
  · rw [hs] at hbad
    cases hbad

/-- A process that can open the store and read the index prints it. -/
theorem lsText_of_opened {rfc3339 : ℕ → String} {env : ProcessEnv} {st : Store} {w w₁ : World}
    {s : SandboxState} (hopen : Store.openAt M.root env.faults w = (.ok st, w₁))
    (hread : env.faults .loadIndex = false) (hs : M.store.index w₁ = some s) :
    lsText M env rfc3339 w = (.ok (printList rfc3339 s.sandboxes), w₁) := by
  rw [lsText, bind_of_ok (mapError_eq_ok_iff.mpr hopen), bind_of_ok (cmdLs_of_index hread hs)]
  rfl

/-- What `ls` prints is the index as opening leaves it. -/
theorem printed_of_lsText {rfc3339 : ℕ → String} {env : ProcessEnv} {w w' : World}
    {printed : Printed} (h : lsText M env rfc3339 w = (.ok printed, w')) :
    ∃ s, Opens (M.store.index w) (some s) ∧ printed = printList rfc3339 s.sandboxes := by
  obtain ⟨st, w₁, hopen, h⟩ := bind_eq_ok_iff.mp h
  obtain ⟨list, w₂, hlist, h⟩ := bind_eq_ok_iff.mp h
  have hopened := opened_openAt (M := M) env.faults w
  rw [mapError_eq_ok_iff.mp hopen] at hopened
  rcases Store.loadIndex_cases M.store env.faults w₁ with ⟨s, -, hs, hload⟩ | ⟨-, e, hload⟩
  · rw [show cmdLs M env w₁ = (.ok s.sandboxes, w₁) from
      mapError_eq_ok_iff.mpr (bind_of_ok hload)] at hlist
    obtain rfl := Except.ok.inj (Prod.mk.inj hlist).1
    refine ⟨s, ?_, (Except.ok.inj (Prod.mk.inj h).1).symm⟩
    rw [← hs]
    exact hopened.index
  · have hrun : cmdLs M env w₁ = (.error (.state e), w₁) :=
      mapError_eq_error_iff.mpr ⟨e, rfl, bind_of_error hload⟩
    rw [hrun] at hlist
    cases (Prod.mk.inj hlist).1

theorem listsAll_of_boundary {w : World}
    (h : AllIds (fun runtimeId => ∃ short, CutsTo runtimeId short) (M.records dir w)) :
    M.ListsAll dir w where
  boundary := h
  returns := by
    intro rfc3339 env cwd st w₁ s _ hopen hread hs
    have hrun : lsText M env rfc3339 (w.enter cwd) = (.ok (printList rfc3339 s.sandboxes), w₁) :=
      lsText_of_opened hopen hread hs
    refine ⟨_, hrun, ?_⟩
    rw [ssbx_ls M env rfc3339, bind_of_ok hrun]
    rfl
  prints := by
    intro rfc3339 env cwd printed w' hsees hrun
    obtain ⟨s, hopens, rfl⟩ := printed_of_lsText hrun
    rw [← hsees.records_enter w] at hopens
    exact ⟨s, hopens, prints_iff.mpr (hopens.all h s rfl)⟩

/-- **Listing never aborts** in a run whose creations record ids with a character boundary at
    byte 16, or with 16 bytes at most. -/
theorem listsAll_of_reach {w : World}
    (h : Reach (M.Fresh dir) (M.Runs dir) (M.CreatesCut dir) w) : M.ListsAll dir w := by
  apply listsAll_of_boundary
  refine index_of_reach (fun s => ∀ r ∈ s.sandboxes, ∃ short, CutsTo r.runtimeId short) ?_ h
  intro w a w' hall hok hstep
  exact allIds_of_runs (P := fun runtimeId => ∃ short, CutsTo runtimeId short) hstep hall hok

end Machine

theorem createsCut_smallCreate {kind : MechanismKind} {name uuid short : String} (w : World)
    (hcut : CutsTo (smallMachine.macRuntimeId name) short) :
    smallMachine.CreatesCut [] w (smallCreate kind name uuid) := by
  intro name' args p runtimeId hcommand _ _ hid
  obtain ⟨rfl, -⟩ := Command.create.inj hcommand
  rcases hid with ⟨-, -, rfl⟩ | ⟨-, args, stdout, -, hstart, rfl⟩
  · exact ⟨short, hcut⟩
  · obtain rfl : "c0ffee" = stdout := RunReply.started.inj hstart
    have hkept : trim "c0ffee" = "c0ffee" := by decide
    rw [hkept, if_neg (by decide)]
    exact ⟨"c0ffee", by decide, by decide⟩

theorem cutsTo_small :
    CutsTo (smallMachine.macRuntimeId "a") "mac:/s/mac/insta" ∧
      CutsTo (smallMachine.macRuntimeId "b") "mac:/s/mac/insta" := by
  unfold CutsTo
  decide

/-- `a` has the path of its profile for an id and `b` what the engine printed. -/
theorem listsAll_small :
    smallMachine.ListsAll [] (smallMachine.after
      (smallMachine.after emptyWorld (smallCreate .mac "a" "u")) (smallCreate .podman "b" "v")) :=
  Machine.listsAll_of_reach
    (.next (.next (.start fresh_emptyWorld)
      (createsCut_smallCreate _ cutsTo_small.1) (runs_after _))
      (createsCut_smallCreate _ cutsTo_small.2) (runs_after _))

/-- A macOS host with its state under `/opt/entrepôt`. -/
def accentedMachine : Machine := { smallMachine with root := osString "/opt/entrepôt" }

/-- Byte 16 of the runtime id is the second byte of the `ô`: after one `create` every `ls` panics
    before it has printed a line. -/
theorem ls_can_abort :
    ¬ ∀ (M : Machine) (dir : Location) (w : World),
      Reach (M.Fresh dir) (M.Runs dir) (fun _ _ => True) w → M.ListsAll dir w := by
  intro hall
  have hfresh : accentedMachine.Fresh [] emptyWorld := ⟨by decide, rfl, rfl⟩
  have hstep : accentedMachine.Runs [] emptyWorld (smallCreate .mac "a" "u")
      (accentedMachine.after emptyWorld (smallCreate .mac "a" "u")) := ⟨Or.inl rfl, rfl⟩
  have hlists := hall _ _ _ (.next (.start hfresh) trivial hstep)
  have hls : (lsText accentedMachine (smallEnv "") (fun _ => "1970-01-01T00:00:00+00:00")
      ((accentedMachine.after emptyWorld (smallCreate .mac "a" "u")).enter [])).1 =
      .ok { lines := [], panicked := true } := by decide
  obtain ⟨s, -, hprints⟩ := hlists.prints _ (smallEnv "") [] _ _ (Or.inr rfl) (Prod.ext hls rfl)
  cases hprints.returns

end SimpleSandbox
