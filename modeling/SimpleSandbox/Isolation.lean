import SimpleSandbox.Containment
import SimpleSandbox.FileSteps
import SimpleSandbox.Instances

/-!
# Isolation under interleaving

Processes and sandboxed children share one file system, and nothing orders their file operations:
a process loads the index while another has just emptied it, a profile is read while it is being
written, a process is killed between any two operations.  Whatever happens, the processes keep to
the root and the children keep out of it, and no child gets beyond what the policy of a request
grants.  The invariant says what the files under the root may hold; it speaks of no process, so
that each step is checked by itself.

Two processes that create one name at once may write over each other's profile, and what is then
in the file is the work of neither.  So those that create the same name are to write the same.
-/

namespace SimpleSandbox

open RustText OsPath FileSystem Effect World Program

/-! ## What the files under the root may hold -/

section Trust

variable (M : Machine) (dir : Location) (as : List Invocation)

/-- A generated profile, or what its file holds until it is written. -/
def Drafted (t : String) : Prop := t = "" ∨ GeneratedBy M as t

/-- The files of an instance. -/
inductive DraftFile
  | profile | workdir | policy

/-- The last component of the path. -/
def DraftFile.name : DraftFile → String
  | profile => "profile.sb"
  | workdir => "workdir"
  | policy => "policy.yaml"

/-- What `create` writes into the file. -/
def DraftFile.contents (canonicalize : PathBuf → Option PathBuf) (req : CreateRequest) :
    DraftFile → FileData
  | profile => .text (generateSeatbeltProfile canonicalize req.policy req.workdir)
  | workdir => .text (display req.workdir)
  | policy => .policy req.policy

/-- What a file of the instance may hold: nothing yet, or what a creation of the name writes. -/
def HoldsDraft (name : String) (file : DraftFile) (data : FileData) : Prop :=
  data = .text "" ∨
    ∃ a ∈ as, ∃ p, Asked M a name p ∧ data = file.contents a.env.canonicalize p.request

/-- What a place under the root may hold. -/
structure Trusted (q : Location) (data : FileData) : Prop where
  index : ∀ s, data = .index s → ∀ r ∈ s.sandboxes, Rooted M dir r
  draft : ∀ name file, IsName (osString name) → q = M.instanceFile dir name (DraftFile.name file) →
    HoldsDraft M as name file data

/-- The creations of one name write the same files. -/
def CreateAlike : Prop :=
  ∀ a ∈ as, ∀ b ∈ as, ∀ name p p', Asked M a name p → Asked M b name p' → ∀ file : DraftFile,
    file.contents a.env.canonicalize p.request = file.contents b.env.canonicalize p'.request

/-- Every creation of the name writes what this request asks for. -/
structure SoleCreate (canonicalize : PathBuf → Option PathBuf) (req : CreateRequest) : Prop where
  name : IsName (osString req.name)
  draft : ∀ file data, HoldsDraft M as req.name file data ↔
    data = .text "" ∨ data = file.contents canonicalize req

structure TrustedChild (c : ChildSpec) : Prop where
  profile : ∀ t, c.profile = some t → Drafted M as t
  policy : c.policy = {} ∨ AdmittedBy M as c.policy

/-- The files under the root and the children are the work of the processes. -/
structure Guarded (w : World) : Prop where
  files : ∀ q data, M.Under dir q → w.fileAt q = some data → Trusted M dir as q data
  children : ∀ c ∈ w.children, TrustedChild M as c

/-- The same, as a process in `cwd` finds it. -/
def GuardedFrom (cwd : Location) (w : World) : Prop := Guarded M dir as w ∧ w.fs.cwd = cwd

/-- A change of the file system that only puts trusted files under the root. -/
structure TrustedChange (fs fs' : FileSystem FileData) : Prop where
  cwd : fs'.cwd = fs.cwd
  files : ∀ q data, fs'.fileAt q = some data → fs.fileAt q = some data ∨ Trusted M dir as q data
  outside : ∀ q, ¬ M.Under dir q → fs'.fileAt q = fs.fileAt q

/-- Outside of the root no file is changed. -/
def KeepsOutside (w w' : World) : Prop := ∀ q, ¬ M.Under dir q → w'.fileAt q = w.fileAt q

/-- Each step keeps the files under the root trusted and those outside of it as they are. -/
abbrev Guards {ε α : Type} (cwd : Location) (post : α → Prop) (p : Program World ε α) : Prop :=
  p.Safe (GuardedFrom M dir as cwd) (KeepsOutside M dir) post

end Trust

section Steps

variable {M : Machine} {dir cwd : Location} {as : List Invocation} {ε α : Type}

/-! ## What creations draft -/

theorem trusted_empty (q : Location) : Trusted M dir as q (.text "") where
  index _ h := nomatch h
  draft _ _ _ _ := Or.inl rfl

theorem DraftFile.isName (file : DraftFile) : IsName (osString file.name) := by
  cases file <;> decide

theorem DraftFile.name_injective : Function.Injective DraftFile.name := by
  intro file file' h
  cases file <;> cases file' <;> first | rfl | exact absurd h (by decide)

/-- Each file of each instance has a place of its own. -/
theorem draftFile_inj {name name' : String} (hname : IsName (osString name))
    (hname' : IsName (osString name')) {file file' : DraftFile}
    (h : M.instanceFile dir name file.name = M.instanceFile dir name' file'.name) :
    name = name' ∧ file = file' := by
  obtain ⟨hat, hlast⟩ := List.append_inj' h rfl
  refine ⟨?_, DraftFile.name_injective (osString_injective (List.head_eq_of_cons_eq hlast))⟩
  rw [Machine.instanceAt_of_isName hname, Machine.instanceAt_of_isName hname'] at hat
  exact osString_injective (List.head_eq_of_cons_eq (List.append_inj' hat rfl).2)

/-- Whatever is written over a file that is none of an instance. -/
theorem trusted_of_overlays {q : Location} {contents old data : FileData}
    (hindex : ∀ s, contents = .index s → ∀ r ∈ s.sandboxes, Rooted M dir r)
    (hq : ∀ name file, IsName (osString name) → q ≠ M.instanceFile dir name (DraftFile.name file))
    (h : World.Overlays contents old data) : Trusted M dir as q data := by
  refine ⟨fun s hs => ?_, fun name file hname hat => absurd hat (hq name file hname)⟩
  cases h with
  | whole => exact hindex s hs
  | mixed _ _ hjson => exact absurd hs (hjson s)

/-- What the one creation of a name writes over a file of its instance. -/
theorem SoleCreate.trusted {canonicalize : PathBuf → Option PathBuf} {req : CreateRequest}
    (hsole : SoleCreate M as canonicalize req) {file : DraftFile} {old data : FileData}
    (hold : Trusted M dir as (M.instanceFile dir req.name file.name) old)
    (h : World.Overlays (file.contents canonicalize req) old data) :
    Trusted M dir as (M.instanceFile dir req.name file.name) data := by
  have hdata : data = file.contents canonicalize req := by
    have hbefore := (hsole.draft file old).mp (hold.draft req.name file hsole.name rfl)
    cases h with
    | whole => rfl
    | mixed hfilled hother _ => exact (hbefore.elim hfilled hother).elim
  rw [hdata]
  refine ⟨fun s hs => ?_, fun name file' hname hat => ?_⟩
  · cases file <;> cases hs
  · obtain ⟨rfl, rfl⟩ := draftFile_inj hsole.name hname hat
    exact (hsole.draft file _).mpr (Or.inr rfl)

theorem Asked.prepares {a : Invocation} {name : String} {p : Prepared} (h : Asked M a name p) :
    Prepares M a p := by
  obtain ⟨n, args, hcommand, rfl, hp⟩ := h.command
  exact .create hcommand hp

theorem Asked.creates {a : Invocation} {name : String} {p : Prepared} (h : Asked M a name p) :
    a.creates name = true := by
  obtain ⟨n, args, hcommand, hn, -⟩ := h.command
  exact creates_eq_true_iff.mpr ⟨n, args, hcommand, hn⟩

theorem Asked.eq {a : Invocation} {name : String} {p p' : Prepared} (h : Asked M a name p)
    (h' : Asked M a name p') : p = p' := by
  obtain ⟨n, args, hcommand, -, hp⟩ := h.command
  obtain ⟨n', args', hcommand', -, hp'⟩ := h'.command
  rw [hcommand] at hcommand'
  obtain ⟨rfl, rfl⟩ := Command.create.inj hcommand'
  rw [hp] at hp'
  exact Except.ok.inj hp'

/-- It is enough that one process at most creates a name. -/
theorem createAlike_of_apart (hapart : ∀ a ∈ as, ∀ b ∈ as, ∀ name,
    a.creates name = true → b.creates name = true → a = b) : CreateAlike M as := by
  intro a ha b hb name p p' hp hp' file
  obtain rfl := hapart a ha b hb name hp.creates hp'.creates
  rw [hp.eq hp']

theorem HoldsDraft.drafted {name : String} {t : String}
    (h : HoldsDraft M as name .profile (.text t)) : Drafted M as t := by
  rcases h with hempty | ⟨a, ha, p, hp, hdata⟩
  · exact Or.inl (FileData.text.inj hempty)
  · exact Or.inr ⟨a, ha, p, hp.prepares, hp.prepares.preflight, FileData.text.inj hdata⟩

theorem HoldsDraft.admitted {name : String} {p : SandboxPolicy}
    (h : HoldsDraft M as name .policy (.policy p)) : AdmittedBy M as p := by
  rcases h with hempty | ⟨a, ha, p', hp, hdata⟩
  · cases hempty
  · exact ⟨a, ha, .request hp.prepares (FileData.policy.inj hdata).symm
      (FileData.policy.inj hdata ▸ hp.prepares.preflight)⟩

theorem soleCreate_of_asked (halike : CreateAlike M as) {a : Invocation} (ha : a ∈ as)
    {p : Prepared} (hp : Asked M a p.request.name p) (hname : IsName (osString p.request.name)) :
    SoleCreate M as a.env.canonicalize p.request := by
  refine ⟨hname, fun file data => ?_⟩
  constructor
  · rintro (hempty | ⟨b, hb, p', hp', hdata⟩)
    · exact Or.inl hempty
    · rw [halike b hb a ha _ p' p hp' hp file] at hdata
      exact Or.inr hdata
  · rintro (hempty | hdata)
    · exact Or.inl hempty
    · exact Or.inr ⟨a, ha, p, hp, hdata⟩

/-! ## Single steps -/

theorem guards_reads {m : Effect World ε α} {post : α → Prop} (hm : Reads m)
    (hpost : ∀ w a, GuardedFrom M dir as cwd w → (m w).1 = .ok a → post a) :
    Guards M dir as cwd post (atomic m) := by
  refine safe_atomic fun w hw => ?_
  rw [← hm w]
  exact ⟨hw, fun _ _ => rfl, fun a => hpost w a hw⟩

/-- A step that touches no file and spawns nobody. -/
theorem guards_elsewhere {m : Effect World ε α}
    (hfiles : Preserves (Extends cwd fun _ => False) m)
    (hchildren : Preserves (Adds (Holds (M.Under dir) (AdmittedBy M as) (GeneratedBy M as))
      fun _ => False) m) {post : α → Prop} (hpost : ∀ a, Returns m a → post a) :
    Guards M dir as cwd post (atomic m) := by
  refine safe_atomic fun w hw => ?_
  have hfile : ∀ q, (m w).2.fileAt q = w.fileAt q := fun q =>
    (hfiles w).fileAt_eq hw.2 fun _ hev => hev.elim
  refine ⟨⟨⟨fun q data hq hdata => ?_, fun c hc => ?_⟩, (hfiles w).cwd_eq hw.2⟩,
    fun q _ => hfile q, fun a ha => hpost a ⟨w, (m w).2, by rw [← ha]⟩⟩
  · rw [hfile] at hdata
    exact hw.1.files q data hq hdata
  · exact hw.1.children c (((hchildren w).children c hc).resolve_right id)

theorem TrustedChange.guarded {w : World} {fs : FileSystem FileData}
    (h : TrustedChange M dir as w.fs fs) (hw : GuardedFrom M dir as cwd w)
    (journal : List FsEvent) :
    GuardedFrom M dir as cwd { w with fs := fs, journal := journal } ∧
    KeepsOutside M dir w { w with fs := fs, journal := journal } := by
  refine ⟨⟨⟨fun q data hq hdata => ?_, hw.1.children⟩, h.cwd.trans hw.2⟩, h.outside⟩
  exact (h.files q data hdata).elim (hw.1.files q data hq) id

/-- A change at one place of the source. -/
theorem guards_change {f : Faults} {site : Site} {p : PathBuf}
    {op : FileSystem FileData → Except IoError (FileSystem FileData)}
    (hop : ∀ fs fs', fs.cwd = cwd → op fs = .ok fs' → TrustedChange M dir as fs fs') :
    Guards M dir as cwd (fun _ => True) (atomic (change f site p op)) := by
  refine safe_atomic fun w hw => ?_
  rcases change_cases f site p op w with ⟨fs, -, hfs, hrun⟩ | ⟨e, hrun⟩
  · obtain ⟨hguarded, houtside⟩ := (hop w.fs fs hw.2 hfs).guarded hw _
    rw [hrun]
    exact ⟨hguarded, houtside, fun _ _ => trivial⟩
  · rw [hrun]
    exact ⟨hw, fun _ _ => rfl, fun _ _ => trivial⟩

/-- A trusted file put under the root. -/
theorem trustedChange_set (fs : FileSystem FileData) {q : Location} {contents : FileData}
    (hq : M.Under dir q) (hcontents : Trusted M dir as q contents) :
    TrustedChange M dir as fs (fs.set q (.file contents)) := by
  refine ⟨rfl, fun r data hdata => ?_, fun r hr => ?_⟩
  · rw [fileAt_set] at hdata
    split at hdata
    · rename_i hrq
      rw [hrq, ← Option.some.inj hdata]
      exact Or.inr hcontents
    · exact Or.inl hdata
  · rw [fileAt_set, if_neg]
    rintro rfl
    exact hr hq

/-- Nodes taken away under the root. -/
theorem trustedChange_drop (fs : FileSystem FileData) {gone : Location → Prop}
    [DecidablePred gone] (hgone : ∀ q, gone q → M.Under dir q) :
    TrustedChange M dir as fs { fs with node := fun r => if gone r then none else fs.node r } := by
  refine ⟨rfl, fun r data hdata => Or.inl (fileAt_of_dropped hdata), fun r hr => ?_⟩
  have hkept : ¬ gone r := fun h => hr (hgone r h)
  simp [FileSystem.fileAt, hkept]

theorem guards_writeFile (f : Faults) (site : Site) {p : PathBuf} {contents : FileData}
    (hp : M.Under dir (resolve cwd p))
    (hcontents : ∀ old data, Trusted M dir as (resolve cwd p) old →
      World.Overlays contents old data → Trusted M dir as (resolve cwd p) data) :
    Guards M dir as cwd (fun _ => True) (Steps.writeFile f site p contents) := by
  have hopen : Guards M dir as cwd (fun _ => True) (atomic (World.openFile f site p)) := by
    unfold World.openFile World.writeFile
    refine guards_change fun fs fs' hcwd hwrite => ?_
    obtain ⟨-, rfl⟩ := write_eq_ok_iff.mp hwrite
    rw [locate, hcwd]
    exact trustedChange_set fs hp (trusted_empty _)
  refine hopen.bind fun _ _ w r w' hw hfills => ?_
  cases hfills with
  | @written old data hold hdata =>
    rw [locate, hw.2] at hold ⊢
    have hset := trustedChange_set w.fs hp (hcontents old data (hw.1.files _ _ hp hold) hdata)
    obtain ⟨hguarded, houtside⟩ := hset.guarded hw w.journal
    exact ⟨hguarded, houtside, fun _ _ => trivial⟩
  | lost => exact ⟨hw, fun _ _ => rfl, fun _ _ => trivial⟩
  | failed e => exact ⟨hw, fun _ _ => rfl, fun _ _ => trivial⟩

theorem guards_createDirAll (f : Faults) (site : Site) (p : PathBuf) :
    Guards M dir as cwd (fun _ => True) (atomic (World.createDirAll f site p)) := by
  refine guards_change fun fs fs' _ hmake => ?_
  have hsame := fileAt_createDirAll hmake
  obtain ⟨-, rfl⟩ := createDirAll_eq_ok_iff.mp hmake
  refine ⟨rfl, fun q data hdata => Or.inl ?_, fun q _ => hsame q⟩
  rw [← hsame q]
  exact hdata

theorem Machine.Under.beneath {q r : Location} (h : M.Under dir q) (hr : q <+: r) : M.Under dir r :=
  List.IsPrefix.trans h hr

theorem guards_removeFile (f : Faults) (site : Site) {p : PathBuf}
    (hp : M.Under dir (resolve cwd p)) :
    Guards M dir as cwd (fun _ => True) (atomic (World.removeFile f site p)) := by
  refine guards_change fun fs fs' hcwd hremove => ?_
  obtain ⟨-, rfl⟩ := removeFile_eq_ok_iff.mp hremove
  rw [← hcwd] at hp
  have hgone : ∀ q, q = fs.locate p → M.Under dir q := by
    rintro q rfl
    exact hp
  exact trustedChange_drop fs hgone

theorem guards_removeEntries {p : PathBuf} (hp : M.Under dir (resolve cwd p))
    (entries : List Location) :
    Guards M dir as cwd (fun _ => True) (Steps.removeEntries p entries) := by
  induction entries with
  | nil => exact safe_pure trivial
  | cons q entries ih =>
    have hunlink : Guards M dir as cwd (fun _ => True) (step (World.Unlinks p q) done) := by
      intro w r w' hw hstep
      cases hstep with
      | gone hq =>
        rw [locate, hw.2] at hq
        have hbeneath : ∀ r, r = q → M.Under dir r := by
          rintro r rfl
          exact hp.beneath hq
        obtain ⟨hguarded, houtside⟩ := (trustedChange_drop w.fs hbeneath).guarded hw w.journal
        exact ⟨hguarded, houtside, fun _ _ => trivial⟩
      | failed e => exact ⟨hw, fun _ _ => rfl, fun _ _ => trivial⟩
    exact hunlink.bind fun _ _ => ih

theorem guards_removeDirAll (f : Faults) (site : Site) {p : PathBuf}
    (hp : M.Under dir (resolve cwd p)) :
    Guards M dir as cwd (fun _ => True) (Steps.removeDirAll f site p) := by
  have hlist : Guards M dir as cwd (fun _ => True)
      (step (fun w (_ : Except IoError (List Location)) w' => w' = w) done) := by
    rintro w r w' hw rfl
    exact ⟨hw, fun _ _ => rfl, fun _ _ => trivial⟩
  refine hlist.bind fun entries _ => (guards_removeEntries hp entries).bind fun _ _ => ?_
  refine guards_change fun fs fs' hcwd hremove => ?_
  obtain ⟨-, rfl⟩ := removeDirAll_eq_ok_iff.mp hremove
  rw [← hcwd] at hp
  exact trustedChange_drop fs fun q hq => hp.beneath hq

/-- A child is spawned. -/
theorem guarded_spawn (h : MechHost) (profilePath : PathBuf) {profile : Option String}
    {policy : SandboxPolicy} (workdir : PathBuf) (command : List String)
    (env : List (String × String)) {w : World} (hw : GuardedFrom M dir as cwd w)
    (hprofile : ∀ t, profile = some t → Drafted M as t)
    (hpolicy : policy = {} ∨ AdmittedBy M as policy) :
    GuardedFrom M dir as cwd
      (MacMechanism.spawnSandboxed h profilePath profile policy workdir command env w).2 ∧
    KeepsOutside M dir w
      (MacMechanism.spawnSandboxed h profilePath profile policy workdir command env w).2 := by
  rcases MacMechanism.spawnSandboxed_cases h profilePath profile policy workdir command env w with
    ⟨e, hrun⟩ | ⟨program, hrun⟩
  · rw [hrun]
    exact ⟨hw, fun _ _ => rfl⟩
  · rw [hrun]
    refine ⟨⟨⟨hw.1.files, fun c hc => ?_⟩, hw.2⟩, fun _ _ => rfl⟩
    rcases List.mem_append.mp hc with hold | hnew
    · exact hw.1.children c hold
    · rw [List.mem_singleton.mp hnew]
      exact ⟨hprofile, hpolicy⟩

/-! ## The store -/

/-- Records that a process may write into the index. -/
def AllRooted (M : Machine) (dir : Location) (s : SandboxState) : Prop :=
  ∀ r ∈ s.sandboxes, Rooted M dir r

theorem Rooted.withHash {r : SandboxRecord} (h : Rooted M dir r) (hash : String) :
    Rooted M dir (r.withHash hash) := ⟨h.issued.withHash hash, h.name, h.removedAt⟩

section Store

variable (hsees : M.Sees dir cwd) (f : Faults)
include hsees

theorem guards_writeIndex (site : Site) {s : SandboxState}
    (hs : s.serializable = true → AllRooted M dir s) :
    Guards M dir as cwd (fun _ => True) (Steps.writeIndex M.store f site s) := by
  unfold Steps.writeIndex
  split
  · rename_i hser
    have hat : resolve cwd M.store.indexPath = M.store.indexAt dir := hsees.indexAt_eq
    have hwrite : Guards M dir as cwd (fun _ => True)
        (Steps.writeFile f site M.store.indexPath (.index s)) := by
      refine guards_writeFile f site ?_ fun old data _ => trusted_of_overlays ?_ ?_
      · rw [hat]
        exact under_indexAt M dir
      · intro s' hs'
        rw [← FileData.index.inj hs']
        exact hs hser
      · intro name file _
        rw [hat]
        exact (M.instanceFile_ne_indexAt dir name (by cases file <;> decide)).symm
    exact hwrite.mapError _
  · exact safe_fail _

/-- An index that is found is trusted. -/
theorem allRooted_of_index {w : World} (hw : GuardedFrom M dir as cwd w) {s : SandboxState}
    (hs : M.store.index w = some s) : AllRooted M dir s := by
  have hfile : w.fileAt (M.store.indexAt dir) = some (.index s) := by
    rw [Store.index, hw.2, hsees.indexAt_eq] at hs
    split at hs
    · rename_i s' hfile
      rw [hfile, Option.some.inj hs]
    · cases hs
  exact (hw.1.files _ _ (under_indexAt M dir) hfile).index s rfl

theorem guards_loadIndex :
    Guards M dir as cwd (AllRooted M dir) (atomic (M.store.loadIndex f)) := by
  refine guards_reads (fun w => (M.store.loadIndex_snd f w).symm) fun w s hw hload => ?_
  rcases M.store.loadIndex_cases f w with ⟨s', -, hs, hrun⟩ | ⟨-, e, hrun⟩
  · rw [hrun] at hload
    rw [← Except.ok.inj hload]
    exact allRooted_of_index hsees hw hs
  · rw [hrun] at hload
    cases hload

/-- Load, change and save, where others may save in between. -/
theorem guards_modify {op : SandboxState → Except StateError (α × SandboxState)} {post : α → Prop}
    (hop : ∀ s a s', AllRooted M dir s → op s = .ok (a, s') →
      (s'.serializable = true → AllRooted M dir s') ∧ post a) :
    Guards M dir as cwd post (Steps.modify M.store f op) := by
  refine (guards_loadIndex hsees f).bind fun s hs => ?_
  refine Safe.bind (safe_lift fun x hx => hop s x.1 x.2 hs hx) fun x hx => ?_
  exact (guards_writeIndex hsees f _ hx.1).bind fun _ _ => safe_pure hx.2

theorem guards_openAt : Guards M dir as cwd (fun _ => True) (Steps.openAt M.root f) := by
  have hdir : ∀ site p, Guards M dir as cwd (fun _ => True)
      ((atomic (World.createDirAll f site p)).mapError StateError.io) := fun site p =>
    (guards_createDirAll f site p).mapError _
  unfold Steps.openAt
  refine (hdir _ _).bind fun _ _ => (hdir _ _).bind fun _ _ => (hdir _ _).bind fun _ _ =>
    (hdir _ _).bind fun _ _ => ?_
  have hlook : Guards M dir as cwd (fun _ => True)
      (atomic (Effect.state : Effect World StateError World)) :=
    guards_reads (Preserves.state fun _ => rfl) fun _ _ _ _ => trivial
  have hempty : AllRooted M dir {} := fun r hr => nomatch hr
  refine hlook.bind fun w _ => ?_
  split
  · exact (guards_writeIndex hsees f .openIndex fun _ => hempty).bind fun _ _ => safe_pure trivial
  · exact safe_pure trivial

theorem under_policyAt {name : String} (hname : IsName (osString name)) :
    M.Under dir (resolve cwd (M.store.policyPath name)) := by
  change M.Under dir (M.store.policyAt cwd name)
  rw [hsees.policyAt_eq, Machine.policyAt_of_isName (Machine.isName_yaml hname), Store.policiesAt,
    List.append_assoc]
  exact under_append M dir _

theorem policyPath_ne_draftFile {name name' : String} (hname : IsName (osString name))
    (hname' : IsName (osString name')) (file : DraftFile) :
    resolve cwd (M.store.policyPath name) ≠ M.instanceFile dir name' file.name := by
  change M.store.policyAt cwd name ≠ M.instanceFile dir name' file.name
  rw [hsees.policyAt_eq, Machine.policyAt_of_isName (Machine.isName_yaml hname),
    Machine.instanceFile, Machine.instanceAt_of_isName hname']
  intro h
  have hdepth := congrArg List.length h
  simp [Store.policiesAt, Machine.instancesAt, Machine.store] at hdepth

theorem guards_savePolicy (ext : Externals) {name : String} (hname : IsName (osString name))
    (p : SandboxPolicy) :
    Guards M dir as cwd (fun _ => True) (Steps.savePolicy M.store ext f name p) := by
  refine (safe_lift_any _).bind fun _ _ => ?_
  have hwrite : Guards M dir as cwd (fun _ => True)
      (Steps.writeFile f .savePolicy (M.store.policyPath name) (.policy p)) := by
    refine guards_writeFile f .savePolicy (under_policyAt hsees hname) fun old data _ =>
      trusted_of_overlays (fun _ h => nomatch h) fun name' file hname' => ?_
    exact policyPath_ne_draftFile hsees hname hname' file
  exact (hwrite.mapError _).bind fun _ _ => safe_pure trivial

theorem guards_updatePolicy (ext : Externals) {name : String} (hname : IsName (osString name))
    (p : SandboxPolicy) :
    Guards M dir as cwd (fun _ => True) (Steps.updatePolicy M.store ext f name p) := by
  refine (safe_lift_any _).bind fun hash _ => ?_
  refine (guards_savePolicy hsees f ext hname p).bind fun _ _ => ?_
  refine guards_modify hsees f fun s u s' hs hupdate => ⟨fun _ r hr => ?_, trivial⟩
  obtain ⟨-, rfl⟩ := SandboxState.updatePolicy_eq_ok_iff.mp
    (SandboxState.map_updatePolicy_eq_ok_iff.mp hupdate)
  rcases SandboxState.mem_modifyNamed hr with hold | ⟨r₀, hr₀, rfl⟩
  · exact hs r hold
  · exact (hs r₀ hr₀).withHash hash

theorem guards_touchLastUsed (name : String) :
    Guards M dir as cwd (fun _ => True) (Steps.touchLastUsed M.store f name) := by
  refine guards_modify hsees f fun s u s' hs htouch => ⟨fun _ => ?_, trivial⟩
  obtain ⟨-, rfl⟩ := Prod.mk.inj (Except.ok.inj htouch)
  exact hs

theorem guards_remove (name : String) :
    Guards M dir as cwd (Rooted M dir) (Steps.remove M.store f name) := by
  have hmodify : Guards M dir as cwd (Rooted M dir) (Steps.modify M.store f (·.remove name)) :=
    guards_modify hsees f fun s r s' hs hremove =>
      ⟨fun _ x hx => hs x ((SandboxState.sandboxes_of_remove hremove).subset hx),
        hs r (SandboxState.mem_of_remove hremove)⟩
  refine hmodify.bind fun r hr => ?_
  exact Safe.bind (guards_removeFile f .dropPolicy (under_policyAt hsees hr.name)).attempt
    fun _ _ => safe_pure hr

theorem guards_getOrLast (name : Option String) :
    Guards M dir as cwd (Rooted M dir) (atomic (M.store.getOrLast f name)) := by
  refine guards_reads (reads_getOrLast M.store f name) fun w r hw hget => ?_
  rcases getOrLast_cases M.store f name w with ⟨s, r', hs, hfound, hrun⟩ | ⟨e, hrun⟩
  · rw [hrun] at hget
    rw [← Except.ok.inj hget]
    exact allRooted_of_index hsees hw hs r' (SandboxState.mem_of_getOrLast hfound)
  · rw [hrun] at hget
    cases hget

end Store

/-! ## The mechanisms -/

/-- What a creation returns names the instance it has made. -/
def Identifies (M : Machine) (kind : MechanismKind) (req : CreateRequest) (result : CreateResult) :
    Prop :=
  kind ≠ .krun ∧ (kind = .mac → req.ephemeral = false → req.command = [] →
    result.runtimeId = M.macRuntimeId req.name)

theorem under_instanceAt {name : String} (hname : IsName (osString name)) :
    M.Under dir (M.instanceAt dir name) := by
  rw [Machine.instanceAt_of_isName hname, Machine.instancesAt, List.append_assoc]
  exact under_append M dir _

theorem guards_parseMacRuntime (h : MechHost) {runtimeId : String} {profilePath d : PathBuf}
    (hid : MacMechanism.profileOfRuntime runtimeId = .ok (profilePath, d)) :
    Guards M dir as cwd (·.1 = profilePath) (Steps.parseMacRuntime h runtimeId) := by
  refine guards_reads (fun w => ?_) fun w x hw hx => ?_
  · obtain ⟨workdir, hrun⟩ := parseMacRuntime_eq h hid w
    rw [hrun]
  · obtain ⟨workdir, hrun⟩ := parseMacRuntime_eq h hid w
    rw [hrun] at hx
    rw [← Except.ok.inj hx]

theorem guards_readCopy (h : MechHost) {profilePath d : PathBuf} {name : String}
    (hname : IsName (osString name)) (hparent : parent profilePath = some d)
    (hd : resolve cwd d = M.instanceAt dir name) :
    Guards M dir as cwd
      (fun copy => Steps.copiedPolicy copy = {} ∨ AdmittedBy M as (Steps.copiedPolicy copy))
      (atomic (MacMechanism.readCopy h profilePath)) := by
  have hyaml : IsName (osString "policy.yaml") := by decide
  have hat : resolve cwd (join d (osString "policy.yaml")) =
      M.instanceFile dir name (DraftFile.name .policy) := by
    rw [resolve_join, hd, hyaml.resolve]
    rfl
  have hcopy : MacMechanism.readCopy h profilePath =
      attempt (World.readFile h.faults .readPolicyCopy (join d (osString "policy.yaml"))) := by
    rw [MacMechanism.readCopy, hparent]
  rw [hcopy]
  refine guards_reads (fun w => rfl) fun w copy hw hread => ?_
  rw [← Except.ok.inj hread]
  unfold World.readFile
  split
  · exact Or.inl rfl
  · cases hfile : w.fs.read (join d (osString "policy.yaml")) with
    | error e => exact Or.inl rfl
    | ok data =>
      cases data with
      | index s => exact Or.inl rfl
      | text t => exact Or.inl rfl
      | policy p =>
        have hfound := read_eq_ok_iff.mp hfile
        rw [locate, hw.2, hat] at hfound
        have htrusted := hw.1.files _ _ ((under_instanceAt hname).beneath (List.prefix_append _ _))
          hfound
        exact Or.inr (htrusted.draft name .policy hname rfl).admitted

section Mechanisms

variable (hsees : M.Sees dir cwd) (h : MechHost)
include hsees

theorem guards_draftFile (site : Site) {canonicalize : PathBuf → Option PathBuf}
    {req : CreateRequest} (hsole : SoleCreate M as canonicalize req) (file : DraftFile) :
    Guards M dir as cwd (fun _ => True)
      (Steps.writeFile h.faults site (join (M.instancePath req.name) (osString file.name))
        (file.contents canonicalize req)) := by
  have hat : resolve cwd (join (M.instancePath req.name) (osString file.name)) =
      M.instanceFile dir req.name file.name := by
    rw [M.resolve_instanceFile cwd req.name file.isName, Machine.instanceFile, hsees.instanceAt_eq]
    rfl
  refine guards_writeFile h.faults site ?_ ?_
  · rw [hat]
    exact (under_instanceAt hsole.name).beneath (List.prefix_append _ _)
  · rw [hat]
    exact fun old data => hsole.trusted

theorem guards_copyPolicy {canonicalize : PathBuf → Option PathBuf} {req : CreateRequest}
    (hsole : SoleCreate M as canonicalize req) :
    Guards M dir as cwd (fun _ => True)
      (Steps.copyPolicy h (M.mac.instanceDir h req.name) req.policy) := by
  unfold Steps.copyPolicy
  split
  · exact (guards_draftFile hsees h .writePolicyCopy hsole .policy).attempt.bind fun _ _ =>
      safe_pure trivial
  · exact safe_pure trivial

/-- The creation of an instance under a plain name, or of a child at once. -/
theorem guards_macCreate (req : CreateRequest)
    (hsole : req.ephemeral = false → SoleCreate M as h.canonicalize req)
    (hA : AdmittedBy M as req.policy)
    (hG : GeneratedBy M as (generateSeatbeltProfile h.canonicalize req.policy req.workdir)) :
    Guards M dir as cwd (Identifies M .mac req) (Steps.macCreate M.mac h req) := by
  unfold Steps.macCreate
  split
  · exact safe_fail _
  · refine (safe_lift_any _).bind fun file _ => ?_
    split
    · rename_i hatonce
      have hspawn : Guards M dir as cwd (fun _ => True)
          (atomic (MacMechanism.spawnSandboxed h file
            (some (generateSeatbeltProfile h.canonicalize req.policy req.workdir)) req.policy
            req.workdir req.command req.env)) := by
        refine safe_atomic fun w hw => ?_
        have hspawned := guarded_spawn h file req.workdir req.command req.env hw
          (fun t ht => Or.inr (Option.some.inj ht ▸ hG)) (Or.inr hA)
        exact ⟨hspawned.1, hspawned.2, fun _ _ => trivial⟩
      refine hspawn.bind fun status _ => safe_pure ⟨by decide, fun _ heph hcommand => ?_⟩
      rw [heph, hcommand] at hatonce
      cases hatonce
    · rename_i hkept
      have hsole : SoleCreate M as h.canonicalize req := by
        apply hsole
        cases heph : req.ephemeral with
        | false => rfl
        | true => simp [heph] at hkept
      exact Safe.bind ((guards_createDirAll _ _ _).mapError _) fun _ _ =>
        Safe.bind ((guards_draftFile hsees h .writeProfile hsole .profile).mapError _) fun _ _ =>
        Safe.bind ((guards_draftFile hsees h .writeWorkdir hsole .workdir).mapError _) fun _ _ =>
        (guards_copyPolicy hsees h hsole).bind fun _ _ =>
        safe_pure ⟨by decide, fun _ _ _ => rfl⟩

/-- The instance of a record, as its runtime id gives it. -/
theorem exists_instance {r : SandboxRecord} (hr : Rooted M dir r) (hmac : r.mechanism = .mac) :
    ∃ profilePath d, MacMechanism.profileOfRuntime r.runtimeId = .ok (profilePath, d) ∧
      parent profilePath = some d ∧ resolve cwd d = M.instanceAt dir r.name ∧
      resolve cwd profilePath = M.instanceAt dir r.name ++ [osString "profile.sb"] := by
  obtain ⟨profilePath, d, hid, hd⟩ := M.exists_profileOfRuntime r.name
  have hat := Machine.resolve_profileOfRuntime hid cwd
  rw [hsees.removedAt_eq, hr.removedAt] at hat
  have hd' := hd cwd
  rw [hsees.removedAt_eq, hr.removedAt] at hd'
  rw [← hr.issued.runtimeId hmac] at hid
  exact ⟨profilePath, d, hid, parent_of_profileOfRuntime hid, hd', hat⟩

theorem guards_macExec {r : SandboxRecord} (hr : Rooted M dir r) (hmac : r.mechanism = .mac)
    (command : List String) :
    Guards M dir as cwd (fun _ => True) (Steps.macExec h (enterRequest r command)) := by
  obtain ⟨profilePath, d, hid, hparent, hd, hat⟩ := exists_instance hsees hr hmac
  have hunder : M.Under dir (M.instanceAt dir r.name) := under_instanceAt hr.name
  unfold Steps.macExec
  refine (guards_parseMacRuntime h hid).bind fun x hx => ?_
  obtain ⟨p, workdir⟩ := x
  obtain rfl : p = profilePath := hx
  refine (guards_readCopy h hr.name hparent hd).bind fun copy hcopy => safe_atomic fun w hw => ?_
  have hprofile : ∀ t, MacMechanism.profileIn p w = some t → Drafted M as t := by
    intro t ht
    have hfile := fileAt_of_profileIn ht
    rw [hw.2, hat] at hfile
    have htrusted := hw.1.files _ _ (hunder.beneath (List.prefix_append _ _)) hfile
    exact (htrusted.draft r.name .profile hr.name rfl).drafted
  have hspawned := guarded_spawn h p workdir command [] hw hprofile hcopy
  exact ⟨hspawned.1, hspawned.2, fun _ _ => trivial⟩

theorem guards_macRemove {r : SandboxRecord} (hr : Rooted M dir r) (hmac : r.mechanism = .mac) :
    Guards M dir as cwd (fun _ => True) (Steps.macRemove h r.runtimeId) := by
  obtain ⟨profilePath, d, hid, hparent, hd, -⟩ := exists_instance hsees hr hmac
  unfold Steps.macRemove
  refine (guards_parseMacRuntime h hid).attempt.bind fun x hx => ?_
  rcases x with e | ⟨p, workdir⟩
  · exact safe_pure trivial
  · obtain rfl : p = profilePath := hx _ rfl
    simp only [hparent]
    refine Safe.bind (guards_removeDirAll h.faults .removeInstance ?_).attempt fun _ _ =>
      safe_pure trivial
    rw [hd]
    exact under_instanceAt hr.name

theorem guards_mechCreate (kind : MechanismKind) (req : CreateRequest)
    (hsole : resolveMechanism M.os kind = .mac → req.ephemeral = false →
      SoleCreate M as h.canonicalize req)
    (hA : AdmittedBy M as req.policy)
    (hG : GeneratedBy M as (generateSeatbeltProfile h.canonicalize req.policy req.workdir)) :
    Guards M dir as cwd (Identifies M (resolveMechanism M.os kind) req)
      (Steps.mechCreate M h kind req) := by
  unfold Steps.mechCreate
  cases hkind : resolveMechanism M.os kind with
  | podman =>
    exact guards_elsewhere (extends_podmanCreate {} h req) (adds_podmanCreate {} h req)
      fun _ _ => ⟨by decide, fun hmac => nomatch hmac⟩
  | auto =>
    exact guards_elsewhere (extends_podmanCreate {} h req) (adds_podmanCreate {} h req)
      fun _ _ => ⟨by decide, fun hmac => nomatch hmac⟩
  | mac => exact guards_macCreate hsees h req (hsole hkind) hA hG
  | krun => exact safe_fail _

theorem guards_mechExec {r : SandboxRecord} (hr : Rooted M dir r) (command : List String) :
    Guards M dir as cwd (fun _ => True)
      (Steps.mechExec M h r.mechanism (enterRequest r command)) := by
  unfold Steps.mechExec
  rcases hr.issued.kind with hpodman | hmac
  · rw [hpodman]
    exact safe_lift fun _ _ => trivial
  · have hexec : Guards M dir as cwd (fun _ => True) (Steps.macExec h (enterRequest r command)) :=
      guards_macExec hsees h hr hmac command
    rw [hmac]
    exact hexec

theorem guards_mechRemove {r : SandboxRecord} (hr : Rooted M dir r) :
    Guards M dir as cwd (fun _ => True) (Steps.mechRemove M h r.mechanism r.runtimeId) := by
  unfold Steps.mechRemove
  rcases hr.issued.kind with hpodman | hmac
  · rw [hpodman]
    exact guards_elsewhere (extends_podmanRemove {} h _) (adds_podmanRemove {} h _)
      fun _ _ => trivial
  · have hremove : Guards M dir as cwd (fun _ => True) (Steps.macRemove h r.runtimeId) :=
      guards_macRemove hsees h hr hmac
    rw [hmac]
    exact hremove

end Mechanisms

/-! ## The commands -/

/-- The new record leads to the instance the mechanism has made. -/
theorem rooted_of_newRecord {env : ProcessEnv} {name : String} {p : Prepared}
    (hp : p.Persistent M name) (hname : IsName (osString name)) {result : CreateResult}
    {record : SandboxRecord} (hresult : Identifies M p.kind p.request result)
    (hrecord : Store.newRecord M.ext env.uuid env.now name p.kind result.runtimeId
      p.request.policy p.request.workdir false result.proxyPort = .ok record)
    {s s' : SandboxState} {r : SandboxRecord}
    (hinsert : s.insert { record with logPath := some (M.store.logPathFor name) } env.insertUuid =
      .ok (r, s')) (hser : s'.serializable = true) : Rooted M dir r := by
  obtain ⟨hash, -, hrecord⟩ := except_bind_eq_ok hrecord
  obtain rfl := Except.ok.inj hrecord
  have hlog : isUtf8 (M.store.logPathFor name) = true := by
    have hserial := SandboxState.serializable_of_insert hinsert hser
    rw [SandboxRecord.serializable, Bool.and_eq_true] at hserial
    exact hserial.2
  have hkind : p.kind = .podman ∨ p.kind = .mac := by
    have hauto := resolveMechanism_ne_auto M.os p.kind
    rw [hp.resolved] at hauto
    cases hkind : p.kind with
    | podman => exact Or.inl rfl
    | mac => exact Or.inr rfl
    | krun => exact absurd hkind hresult.1
    | auto => exact absurd hkind hauto
  obtain ⟨id, rfl⟩ := SandboxState.exists_id_of_insert hinsert
  refine ⟨⟨hkind, fun hmac => ?_⟩, hname, Machine.removedAt_of_logPath hlog dir⟩
  exact (hresult.2 hmac hp.ephemeral hp.command).trans (by rw [hp.name_eq])

section Commands

variable {a : Invocation} (hsees : M.Sees dir a.cwd)
include hsees

theorem guards_lookup (name : Option String) :
    Guards M dir as a.cwd (Rooted M dir) (Steps.lookup M a.env name) :=
  (guards_getOrLast hsees _ name).mapError _

theorem guards_cmdExec (name : Option String) (command : List String) :
    Guards M dir as a.cwd (fun _ => True) (Steps.cmdExec M a.env name command) := by
  refine (guards_lookup hsees name).bind fun r hr => ?_
  refine ((guards_touchLastUsed hsees _ r.name).mapError _).bind fun _ _ => ?_
  exact ((guards_mechExec hsees _ hr command).mapError _).bind fun _ _ => safe_pure trivial

theorem guards_cmdPolicyGet (name : Option String) :
    Guards M dir as a.cwd (fun _ => True) (Steps.cmdPolicyGet M a.env name) :=
  (guards_lookup hsees name).bind fun r _ =>
    (guards_reads (reads_loadPolicy M.store a.env.faults r.name) fun _ _ _ _ => trivial).mapError _

theorem guards_cmdPolicySet (name : Option String) (file : Except PolicyError SandboxPolicy) :
    Guards M dir as a.cwd (fun _ => True) (Steps.cmdPolicySet M a.env name file) := by
  refine (guards_lookup hsees name).bind fun r hr => ?_
  refine (safe_lift_any _).bind fun p _ => (safe_lift_any _).bind fun _ _ => ?_
  exact (guards_updatePolicy hsees _ M.ext hr.name p).mapError _

theorem guards_cmdRm (name : String) :
    Guards M dir as a.cwd (fun _ => True) (Steps.cmdRm M a.env name) :=
  ((guards_remove hsees _ name).mapError _).bind fun _ hr =>
    (guards_mechRemove hsees _ hr).mapError _

variable (ha : a ∈ as)
include ha

/-- The request of a process, handed to its mechanism. -/
theorem guards_prepared {p : Prepared} (hp : Prepares M a p)
    (hsole : resolveMechanism M.os p.kind = .mac → p.request.ephemeral = false →
      SoleCreate M as a.env.canonicalize p.request) :
    Guards M dir as a.cwd (Identifies M (resolveMechanism M.os p.kind) p.request)
      (Steps.mechCreate M (a.env.mechHost M p.proxyPort) p.kind p.request) :=
  guards_mechCreate hsees _ p.kind p.request hsole ⟨a, ha, .request hp rfl hp.preflight⟩
    ⟨a, ha, p, hp, hp.preflight, rfl⟩

theorem guards_createPrepared (halike : CreateAlike M as) {name : Option String} {args : PolicyArgs}
    (hcommand : a.command = .create name args) {p : Prepared}
    (hp : prepare M a.env (createName name) args id false [] = .ok p)
    (hname : IsName (osString (createName name))) :
    Guards M dir as a.cwd (fun _ => True) (Steps.createPrepared M a.env (createName name) p) := by
  have hper : p.Persistent M (createName name) := persistent_of_prepare hp
  have hcreate : Guards M dir as a.cwd (Identifies M p.kind p.request)
      (Steps.mechCreate M (a.env.mechHost M p.proxyPort) p.kind p.request) := by
    have hguards := guards_prepared hsees ha (.create hcommand hp) fun hmac _ => by
      apply soleCreate_of_asked halike ha
      · rw [hper.name_eq]
        exact ⟨⟨name, args, hcommand, rfl, hp⟩, hper.resolved.symm.trans hmac⟩
      · rw [hper.name_eq]
        exact hname
    rw [hper.resolved] at hguards
    exact hguards
  unfold Steps.createPrepared
  refine (hcreate.mapError _).bind fun result hresult => ?_
  refine Safe.bind (safe_lift fun record hrecord => except_mapError_eq_ok hrecord)
    fun record hrecord => ?_
  refine ((guards_savePolicy hsees _ M.ext hname _).mapError _).bind fun _ _ => ?_
  have hinsert : Guards M dir as a.cwd (fun _ => True)
      (Steps.insert M.store a.env.faults
        { record with logPath := some (M.store.logPathFor (createName name)) } a.env.insertUuid) :=
    guards_modify hsees _ fun s r s' hs hinsert => ⟨fun hser x hx => by
      rcases (SandboxState.mem_insert_iff hinsert).mp hx with hold | rfl
      · exact hs x hold
      · exact rooted_of_newRecord hper hname hresult hrecord hinsert hser, trivial⟩
  exact (hinsert.mapError _).bind fun _ _ => safe_pure trivial

theorem guards_cmdCreate (halike : CreateAlike M as) {name : Option String} {args : PolicyArgs}
    (hcommand : a.command = .create name args) (hname : IsName (osString (createName name))) :
    Guards M dir as a.cwd (fun _ => True) (Steps.cmdCreate M a.env name args) := by
  refine Safe.bind (safe_lift fun p hp => hp) fun p hp => ?_
  exact guards_createPrepared hsees ha halike hcommand hp hname

/-- A sandbox that is not kept has no files under the root. -/
theorem guards_cmdRun {name : Option String} {args : PolicyArgs} {command : List String}
    (hcommand : a.command = .run name args command) :
    Guards M dir as a.cwd (fun _ => True) (Steps.cmdRun M a.env name args command) := by
  refine Safe.bind (safe_lift fun p hp => hp) fun p hp => ?_
  have hrun := guards_prepared hsees ha (.run hcommand hp) fun _ heph => by
    rw [(prepare_eq_ok hp).2.1] at heph
    cases heph
  exact (hrun.mapError _).bind fun _ _ => safe_pure trivial

/-- **One command.** -/
theorem guards_execute (halike : CreateAlike M as) (hspares : a.Spares M dir) :
    Guards M dir as a.cwd (fun _ => True) (Steps.execute M a.env a.command) := by
  cases hcommand : a.command with
  | create name args =>
    exact Safe.bind (guards_cmdCreate hsees ha halike hcommand (hspares.name name args hcommand))
      fun _ _ => safe_pure trivial
  | run name args command => exact guards_cmdRun hsees ha hcommand
  | exec name command => exact guards_cmdExec hsees name command
  | shell name => exact (guards_lookup hsees name).bind fun r _ => guards_cmdExec hsees name _
  | policyGet name =>
    exact Safe.bind (guards_cmdPolicyGet hsees name) fun _ _ => safe_pure trivial
  | policySet name file =>
    exact Safe.bind (guards_cmdPolicySet hsees name file) fun _ _ => safe_pure trivial
  | ls =>
    have hls : Guards M dir as a.cwd (fun _ => True) (atomic (cmdLs M a.env)) :=
      guards_reads (reads_cmdLs M a.env) fun _ _ _ _ => trivial
    exact hls.bind fun _ _ => safe_pure trivial
  | rm name => exact Safe.bind (guards_cmdRm hsees name) fun _ _ => safe_pure trivial
  | logs name =>
    have hlogs : Guards M dir as a.cwd (fun _ => True) (atomic (cmdLogs M a.env name)) :=
      guards_reads (reads_cmdLogs M a.env name) fun _ _ _ _ => trivial
    exact hlogs.bind fun _ _ => safe_pure trivial
  | doctor => exact safe_pure trivial

/-- **One process.** -/
theorem guards_ssbx (halike : CreateAlike M as) (hspares : a.Spares M dir) :
    Guards M dir as a.cwd (fun _ => True) (Steps.ssbx M a.env a.command) :=
  ((guards_openAt hsees a.env.faults).mapError _).bind fun _ _ =>
    guards_execute hsees ha halike hspares

end Commands

end Steps

/-! ## The whole host -/

/-- A process as a program: it looks at the world from its own directory. -/
def Invocation.program (M : Machine) (a : Invocation) : Program World CliError ℕ :=
  (Steps.ssbx M a.env a.command).within (World.enter a.cwd)

/-- Some child writes what it may write. -/
def ChildWrites (M : Machine) (dir : Location) (d : Dialect) (w w' : World) : Prop :=
  ∃ c, Shares M dir d w (.child c) w'

/-- The steps of processes, one file operation each, and of children, in any order. -/
abbrev Interleaves (M : Machine) (dir : Location) (d : Dialect) :
    World × List (Program World CliError ℕ) → World × List (Program World CliError ℕ) → Prop :=
  Relation.ReflTransGen (SharedStep (ChildWrites M dir d))

section Host

variable {M : Machine} {dir : Location} {d : Dialect} {as : List Invocation}

theorem Guarded.enter {w : World} (h : Guarded M dir as w) (cwd : Location) :
    GuardedFrom M dir as cwd (w.enter cwd) := ⟨⟨h.files, h.children⟩, rfl⟩

theorem safe_program {a : Invocation} (hsees : M.Sees dir a.cwd) (ha : a ∈ as)
    (halike : CreateAlike M as) (hspares : a.Spares M dir) :
    (a.program M).Safe (Guarded M dir as) (KeepsOutside M dir) fun _ => True :=
  (guards_ssbx hsees ha halike hspares).within (fun _ hw => hw.enter a.cwd) (fun _ hw => hw.1)
    fun _ _ hR => hR

/-- What a trusted child may do: nothing, while its profile was being written, or what the
    request of a process grants. -/
theorem TrustedChild.rules {c : ChildSpec} (h : TrustedChild M as c)
    (hspares : ∀ a ∈ as, a.Spares M dir) {rules : List Rule} (hrules : c.RunsUnder d rules) :
    (∀ access, ¬ Permits rules access) ∨
      ∃ a ∈ as, ∃ p, Prepares M a p ∧ p.Spares M dir a ∧ Contained a p rules := by
  obtain ⟨t, ht, hread⟩ := hrules
  rcases h.profile t ht with rfl | hgenerated
  · obtain rfl : [] = rules := Option.some.inj hread
    exact Or.inl fun access hpermits => nomatch hpermits
  · exact Or.inr (contained_of_generated hspares hgenerated hread)

/-- A child keeps out of the root. -/
theorem guarded_child {w w' : World} {c : ChildSpec} (hroot : M.RootSafe dir)
    (hspares : ∀ a ∈ as, a.Spares M dir) (h : Guarded M dir as w)
    (hstep : Shares M dir d w (.child c) w') :
    (∀ q, M.Under dir q → w'.fs.node q = w.fs.node q) ∧ Guarded M dir as w' := by
  cases hstep with
  | @child c rules fs hc hrules hwrites =>
    have hsame : ∀ q, M.Under dir q → fs.node q = w.fs.node q := by
      intro q hq
      by_contra hne
      obtain ⟨kind, hpermits⟩ := hwrites.node q hne
      rcases (h.children c hc).rules hspares hrules with hnothing | ⟨a, -, p, -, hspared, hgrants⟩
      · exact hnothing _ hpermits
      · exact not_permits_under hroot hspared hgrants hq kind hpermits
    refine ⟨hsame, ⟨fun q data hq hdata => h.files q data hq ?_, h.children⟩⟩
    rw [World.fileAt, FileSystem.fileAt] at hdata ⊢
    rw [← hsame q hq]
    exact hdata

/-- Where nothing is under the root and nobody has been spawned, everything is trusted. -/
theorem guarded_start {w : World} (hclean : ∀ q, M.Under dir q → w.fileAt q = none)
    (hchildren : w.children = []) : Guarded M dir as w := by
  refine ⟨fun q data hq hdata => ?_, fun c hc => ?_⟩
  · rw [hclean q hq] at hdata
    cases hdata
  · rw [hchildren] at hc
    cases hc

theorem safePool_of_interleaves {w₀ w : World} {pool : List (Program World CliError ℕ)}
    (hroot : M.RootSafe dir) (hclean : ∀ q, M.Under dir q → w₀.fileAt q = none)
    (hchildren : w₀.children = []) (hsees : ∀ a ∈ as, M.Sees dir a.cwd)
    (halike : CreateAlike M as) (hspares : ∀ a ∈ as, a.Spares M dir)
    (h : Interleaves M dir d (w₀, as.map (Invocation.program M)) (w, pool)) :
    SafePool (Guarded M dir as) (KeepsOutside M dir) (w, pool) := by
  refine safePool_of_reaches (fun w w' hw ⟨c, hstep⟩ => (guarded_child hroot hspares hw hstep).2)
    ⟨guarded_start hclean hchildren, fun p hp => ?_⟩ h
  obtain ⟨a, ha, rfl⟩ := List.mem_map.mp hp
  exact safe_program (hsees a ha) ha halike (hspares a ha)

/-- A process that nobody interrupts goes from the world it finds to the one it leaves at one
    go. -/
theorem interleaves_process {w : World} {pool : List (Program World CliError ℕ)} {i : ℕ}
    {a : Invocation} (hsees : M.Sees dir a.cwd) (ha : a ∈ as) (halike : CreateAlike M as)
    (hspares : a.Spares M dir) (hw : Guarded M dir as w) (hcwd : w.fs.cwd = a.cwd)
    (hi : pool[i]? = some (a.program M)) :
    Interleaves M dir d (w, pool)
      (M.after w a, pool.set i (done (ssbx M a.env a.command (w.enter a.cwd)).1)) := by
  have henter : ∀ w' : World, GuardedFrom M dir as a.cwd w' → w'.enter a.cwd = w' := by
    rintro w' ⟨-, hcwd'⟩
    rw [← hcwd']
    rfl
  have hrun := Steps.performs_ssbx M a.env a.command w
  have hat : w.enter a.cwd = w := henter w ⟨hw, hcwd⟩
  rw [Machine.after, hat]
  exact reaches_of_runs (hrun.within (guards_ssbx hsees ha halike hspares) henter ⟨hw, hcwd⟩) hi

end Host

/-- **Processes keep to the root and children keep out of it**, in every interleaving of the file
    operations of any processes with one another and with the writes of the children they have
    started, as long as the creations of one name write the same.  A process may be stopped for ever
    at any operation.  Every child is given nothing or what the policy of one request grants, with
    limits from a policy that was admitted; every index that can be read leads to instances under
    the root. -/
theorem interleaved_hosts_isolated (M : Machine) (dir : Location) (d : Dialect) (w₀ w : World)
    (as : List Invocation) (pool : List (Program World CliError ℕ)) (hroot : M.RootSafe dir)
    (hclean : ∀ q, M.Under dir q → w₀.fileAt q = none) (hchildren : w₀.children = [])
    (hsees : ∀ a ∈ as, M.Sees dir a.cwd) (halike : CreateAlike M as)
    (hspares : ∀ a ∈ as, a.Spares M dir)
    (h : Interleaves M dir d (w₀, as.map (Invocation.program M)) (w, pool)) :
    (∀ c ∈ w.children, (c.policy = {} ∨ AdmittedBy M as c.policy) ∧
      ∀ rules, c.RunsUnder d rules → (∀ access, ¬ Permits rules access) ∨
        ∃ a ∈ as, ∃ p, Prepares M a p ∧ Contained a p rules) ∧
    (∀ s, M.records dir w = some s → ∀ r ∈ s.sandboxes, Rooted M dir r) ∧
    (∀ w', ChildWrites M dir d w w' → ∀ q, M.Under dir q → w'.fs.node q = w.fs.node q) ∧
    ∀ w' pool', PoolStep (w, pool) (w', pool') →
      ∀ q, ¬ M.Under dir q → w'.fileAt q = w.fileAt q := by
  have hsafe := safePool_of_interleaves hroot hclean hchildren hsees halike hspares h
  refine ⟨fun c hc => ?_, fun s hs => ?_, fun w' ⟨c, hstep⟩ => ?_, fun w' pool' hstep => ?_⟩
  · have htrusted := hsafe.1.children c hc
    refine ⟨htrusted.policy, fun rules hrules => ?_⟩
    rcases htrusted.rules hspares hrules with hnothing | ⟨a, ha, p, hp, -, hcontained⟩
    · exact Or.inl hnothing
    · exact Or.inr ⟨a, ha, p, hp, hcontained⟩
  · exact allRooted_of_index (Or.inr rfl) (hsafe.1.enter dir) hs
  · exact (guarded_child hroot hspares hsafe.1 hstep).1
  · exact (safePool_step hsafe hstep).2

/-- A creation with the mac mechanism and an entry. -/
def entryProcesses : List Invocation := [smallCreate .mac "a" "u", smallExec "a"]

theorem sees_entryProcesses : ∀ a ∈ entryProcesses, fittingMachine.Sees [] a.cwd :=
  fun _ _ => Or.inl rfl

theorem spares_entryProcesses : ∀ a ∈ entryProcesses, a.Spares fittingMachine [] := by
  unfold entryProcesses
  simp only [List.forall_mem_cons]
  exact ⟨spares_smallCreate, spares_smallExec, fun _ h => absurd h List.not_mem_nil⟩

theorem createAlike_entryProcesses : CreateAlike fittingMachine entryProcesses := by
  have hfirst : ∀ a ∈ entryProcesses, ∀ name, a.creates name = true →
      a = smallCreate .mac "a" "u" := by
    unfold entryProcesses
    rw [List.forall_mem_cons, List.forall_mem_singleton]
    exact ⟨fun _ _ => rfl, fun _ h => nomatch h⟩
  apply createAlike_of_apart
  intro a ha b hb name hname hname'
  rw [hfirst a ha name hname, hfirst b hb name hname']

/-- The entry after the creation is one of the interleavings. -/
theorem interleaves_entry :
    ∃ pool, Interleaves fittingMachine [] scheme
      (emptyWorld, entryProcesses.map (Invocation.program fittingMachine))
      (enteredWorld, pool) := by
  have hcreate : smallCreate .mac "a" "u" ∈ entryProcesses := List.mem_cons_self
  have hexec : smallExec "a" ∈ entryProcesses := List.mem_cons_of_mem _ List.mem_cons_self
  have hstart : Guarded fittingMachine [] entryProcesses emptyWorld :=
    guarded_start (fun q _ => emptyWorld_fileAt q) rfl
  have hfirst := interleaves_process (d := scheme) (Or.inl rfl) hcreate
    createAlike_entryProcesses spares_smallCreate hstart rfl
    (show (entryProcesses.map (Invocation.program fittingMachine))[0]? = _ from rfl)
  have hcreated := safePool_of_interleaves rootSafe_fittingMachine
    (fun q _ => emptyWorld_fileAt q) rfl sees_entryProcesses createAlike_entryProcesses
    spares_entryProcesses hfirst
  have hleft (p : Program World CliError ℕ) :
      ((entryProcesses.map (Invocation.program fittingMachine)).set 0 p)[1]? =
        some ((smallExec "a").program fittingMachine) := rfl
  exact ⟨_, hfirst.trans (interleaves_process (Or.inl rfl) hexec createAlike_entryProcesses
    spares_smallExec hcreated.1 (by decide +kernel) (hleft _))⟩

theorem interleaved_hosts_isolated_entry :
    enteredWorld.children.length = 1 ∧ ∀ c ∈ enteredWorld.children,
      ∀ rules, c.RunsUnder scheme rules → (∀ access, ¬ Permits rules access) ∨
        ∃ a ∈ entryProcesses, ∃ p, Prepares fittingMachine a p ∧ Contained a p rules := by
  obtain ⟨pool, hrun⟩ := interleaves_entry
  refine ⟨by decide +kernel, fun c hc => ?_⟩
  exact ((interleaved_hosts_isolated fittingMachine [] scheme emptyWorld enteredWorld entryProcesses
    pool rootSafe_fittingMachine (fun q _ => emptyWorld_fileAt q) rfl sees_entryProcesses
    createAlike_entryProcesses spares_entryProcesses hrun).1 c hc).2

end SimpleSandbox
