import SimpleSandbox.Grants
import SimpleSandbox.Provenance

/-!
# Sandboxed programs among the processes

The children of the mac mechanism live on beside later processes and write what their profiles let
them write.  What keeps them in their sandboxes lies in files under the root: the index, the
profiles and the policies.  As long as no request grants a path there, no child can touch these
files, however the steps of children and processes follow one another; so the profile of every
later child is again one that was generated for a request, and no child gets beyond its own.
-/

namespace SimpleSandbox

open RustText OsPath FileSystem Effect World

/-! ## Steps of children -/

/-- A child runs under the rules read from its profile; without a profile it does not start. -/
def ChildSpec.RunsUnder (d : Dialect) (c : ChildSpec) (rules : List Rule) : Prop :=
  ∃ t, c.profile = some t ∧ readProfile d t = some rules

/-- What a program under these rules can make of the files: whatever changes is at a place that it
    may write. -/
structure WritesUnder (rules : List Rule) (fs fs' : FileSystem FileData) : Prop where
  cwd : fs'.cwd = fs.cwd
  node : ∀ q, fs'.node q ≠ fs.node q → ∃ kind, Permits rules ⟨"file-write" ++ kind, .path q⟩

inductive Move where
  | process (a : Invocation)
  | child (c : ChildSpec)

/-- The processes among the moves. -/
def processes (ms : List Move) : List Invocation :=
  ms.filterMap fun
    | .process a => some a
    | .child _ => none

/-- One process, or one change of the files by a child. -/
inductive Shares (M : Machine) (dir : Location) (d : Dialect) : World → Move → World → Prop
  | process {w w' : World} {a : Invocation} (h : M.Runs dir w a w') :
      Shares M dir d w (.process a) w'
  | child {w : World} {c : ChildSpec} {rules : List Rule} {fs : FileSystem FileData}
      (hc : c ∈ w.children) (hrules : c.RunsUnder d rules) (h : WritesUnder rules w.fs fs) :
      Shares M dir d w (.child c) { w with fs := fs }

/-! ## Requests that leave the root alone -/

/-- The place is under the root. -/
def Machine.Under (M : Machine) (dir : Location) (q : Location) : Prop :=
  AtOrBeneath (resolve dir M.root) q

/-- The working directory of a request, as its profile has it. -/
def profileDir (a : Invocation) (p : Prepared) : PathBuf :=
  profileWorkdir a.env.canonicalize p.request.workdir

/-- Neither place is at or beneath the other. -/
def SideBySide (q r : Location) : Prop := ¬ AtOrBeneath q r ∧ ¬ AtOrBeneath r q

instance (q r : Location) : Decidable (SideBySide q r) := by
  unfold SideBySide
  infer_instance

/-- No place is beneath both. -/
theorem SideBySide.not_beneath {q r x : Location} (h : SideBySide q r) (hq : AtOrBeneath q x) :
    ¬ AtOrBeneath r x := fun hr => (List.prefix_or_prefix_of_prefix hq hr).elim h.1 h.2

/-- The root lies beside what every profile lets be written. -/
structure Machine.RootSafe (M : Machine) (dir : Location) : Prop where
  temp : ∀ p ∈ tempPaths, SideBySide (resolve dir M.root) (resolve [] (osString p))
  null : ¬ M.Under dir [osString "dev", osString "null"]
  dtracehelper : ¬ M.Under dir [osString "dev", osString "dtracehelper"]

theorem Machine.RootSafe.not_alwaysWritable {M : Machine} {dir q : Location} (h : M.RootSafe dir)
    (hq : M.Under dir q) : ¬ AlwaysWritable q := by
  rintro (⟨p, hp, hbelow⟩ | rfl | rfl)
  · exact (h.temp p hp).not_beneath hq hbelow
  · exact h.null hq
  · exact h.dtracehelper hq

/-- The request can be written in a profile, and what it grants for writing lies beside the root. -/
structure Prepared.Spares (M : Machine) (dir : Location) (a : Invocation) (p : Prepared) : Prop where
  quotable : ∀ path ∈ interpolatedPaths p.request.policy (profileDir a p), quotablePath path = true
  granted : ∀ r ∈ (resolveHostPaths p.request.policy.filesystem (profileDir a p)).2,
    SideBySide (resolve dir M.root) (resolve [] r)

/-- A process whose instance, if it creates one, has a plain name, and whose request spares the
    root. -/
structure Invocation.Spares (M : Machine) (dir : Location) (a : Invocation) : Prop where
  name : ∀ name args, a.command = .create name args → IsName (osString (createName name))
  request : ∀ p, Prepares M a p → p.Spares M dir a

/-! ## What a generated profile permits -/

/-- The rules give a program what the policy of the request grants, and what every profile does. -/
structure Contained (a : Invocation) (p : Prepared) (rules : List Rule) : Prop where
  writes : ∀ kind q, Permits rules ⟨"file-write" ++ kind, .path q⟩ ↔
    (∃ r ∈ (resolveHostPaths p.request.policy.filesystem (profileDir a p)).2,
      AtOrBeneath (resolve [] r) q) ∨ AlwaysWritable q
  reads : ∀ kind q, kind ≠ "-metadata" → (Permits rules ⟨"file-read" ++ kind, .path q⟩ ↔
    (∃ r ∈ (resolveHostPaths p.request.policy.filesystem (profileDir a p)).1 ++
        (resolveHostPaths p.request.policy.filesystem (profileDir a p)).2,
      AtOrBeneath (resolve [] r) q) ∨ AlwaysReadable q)
  network : ∀ kind host port, Permits rules ⟨"network" ++ kind, .remote host port⟩ ↔
    p.request.policy.network.mode = .unrestricted ∨
    (p.request.policy.network.mode = .allowlist ∧ host = .localhost)

theorem contained_intendedRules (a : Invocation) (p : Prepared) :
    Contained a p (intendedRules p.request.policy (profileDir a p)) where
  writes kind q := by
    rw [permits_write_iff, exists_writeGrants_iff, AlwaysWritable, or_assoc]
  reads kind q hkind := by
    rw [permits_read_iff _ _ hkind, exists_readGrants_iff, AlwaysReadable]
    simp only [List.mem_append, or_and_right, exists_or]
    rw [iff_iff_eq]
    ac_rfl
  network kind host port := permits_network_iff _ _ kind host port

section Steps

variable {M : Machine} {dir : Location} {d : Dialect} {as : List Invocation}

/-- The rules of a generated profile. -/
theorem contained_of_generated (hspares : ∀ a ∈ as, a.Spares M dir) {t : String}
    (h : GeneratedBy M as t) {rules : List Rule} (hread : readProfile d t = some rules) :
    ∃ a ∈ as, ∃ p, Prepares M a p ∧ p.Spares M dir a ∧ Contained a p rules := by
  obtain ⟨a, ha, p, hp, -, rfl⟩ := h
  have hspared := (hspares a ha).request p hp
  rw [readProfile_of_quotablePath d hspared.quotable] at hread
  obtain rfl := Option.some.inj hread
  exact ⟨a, ha, p, hp, hspared, contained_intendedRules a p⟩

/-- Such rules permit no writing under the root. -/
theorem not_permits_under {a : Invocation} {p : Prepared} (hroot : M.RootSafe dir)
    (hspared : p.Spares M dir a) {rules : List Rule} (h : Contained a p rules) {q : Location} (hq : M.Under dir q)
    (kind : String) : ¬ Permits rules ⟨"file-write" ++ kind, .path q⟩ := by
  rw [h.writes]
  rintro (⟨r, hr, hbelow⟩ | halways)
  · exact (hspared.granted r hr).not_beneath hq hbelow
  · exact hroot.not_alwaysWritable hq halways

/-! ## The invariant -/

/-- A world with nothing in it. -/
def blankWorld : World where
  fs := { cwd := [], node := fun _ => none }
  containers := []
  children := []
  journal := []

/-- The record was issued under a plain name, and its runtime id leads back to its instance. -/
structure Rooted (M : Machine) (dir : Location) (r : SandboxRecord) : Prop where
  issued : M.Issued r
  name : IsName (osString r.name)
  removedAt : M.removedAt dir r.name = M.instanceAt dir r.name

/-- The files under the root, the children and the records come from processes so far. -/
structure Kept (M : Machine) (dir : Location) (as : List Invocation) (w : World) : Prop where
  added : Adds (Holds (M.Under dir) (AdmittedBy M as) (GeneratedBy M as))
    (Vouched blankWorld (AdmittedBy M as) (GeneratedBy M as)) blankWorld w
  records : ∀ s, M.records dir w = some s → ∀ r ∈ s.sandboxes, Rooted M dir r

theorem under_append (M : Machine) (dir rest : Location) :
    M.Under dir (resolve dir M.root ++ rest) := List.prefix_append _ _

theorem under_indexAt (M : Machine) (dir : Location) : M.Under dir (M.store.indexAt dir) := by
  rw [Store.indexAt_eq]
  exact under_append M dir _

/-- The files an entry reads lie under the root. -/
theorem Rooted.readsWithin {r : SandboxRecord} (h : Rooted M dir r) :
    ReadsWithin M (M.Under dir) dir r.name := by
  have hat : M.removedAt dir r.name =
      resolve dir M.root ++ [osString "mac", osString "instances", osString r.name] := by
    rw [h.removedAt, Machine.instanceAt_eq, h.name.resolve, Machine.instancesAt, List.append_assoc]
    rfl
  rw [ReadsWithin, hat, List.append_assoc, List.append_assoc]
  exact ⟨under_append M dir _, under_append M dir _⟩

theorem Holds.outside {Z : Location → Prop} {A : SandboxPolicy → Prop} {G : String → Prop}
    {q : Location} {data : FileData} (h : ¬ Z q) : Holds Z A G q data := by
  cases data with
  | index s => trivial
  | policy p => exact fun hq => absurd hq h
  | text t => exact fun hq => absurd hq h

theorem blankWorld_fileAt (q : Location) : blankWorld.fileAt q = none := rfl

/-- The profile and the limits of a child come from processes. -/
theorem Kept.vouched {w : World} (h : Kept M dir as w) {c : ChildSpec} (hc : c ∈ w.children) :
    (∀ t, c.profile = some t → GeneratedBy M as t) ∧
      (c.policy = {} ∨ AdmittedBy M as c.policy) := by
  have hvouched := (h.added.children c hc).resolve_left List.not_mem_nil
  constructor
  · intro t ht
    rcases hvouched.profile t ht with hgenerated | ⟨q, hq⟩
    · exact hgenerated
    · rw [blankWorld_fileAt] at hq
      cases hq
  · rcases hvouched.policy with hdefault | hadmitted | ⟨q, hq⟩
    · exact Or.inl hdefault
    · exact Or.inr hadmitted
    · rw [blankWorld_fileAt] at hq
      cases hq

theorem kept_start {w : World} (hfresh : M.Fresh dir w)
    (hclean : ∀ q, M.Under dir q → w.fileAt q = none) (hchildren : w.children = []) :
    Kept M dir [] w := by
  refine ⟨⟨fun q data hfile => Or.inr ?_, fun c hc => ?_⟩, fun s hs => ?_⟩
  · refine Holds.outside fun hq => ?_
    rw [hclean q hq] at hfile
    cases hfile
  · rw [hchildren] at hc
    cases hc
  · rw [M.records_of_fresh dir hfresh] at hs
    cases hs

/-- **A process keeps it.** -/
theorem kept_process {w w' : World} {a : Invocation} (h : Kept M dir as w) (hspares : a.Spares M dir)
    (hrun : M.Runs dir w a w') : Kept M dir (as ++ [a]) w' := by
  obtain ⟨c, hopens, hstep⟩ := hrun.indexStep
  refine ⟨?_, Machine.records_of_indexStep (Rooted M dir) (fun r hash hr => ?_)
    (hopens.all h.records) (fun name args p r hcommand _ hname _ hlog hissued => ?_) hstep⟩
  · obtain ⟨hsees, rfl⟩ := hrun
    have hlast : a ∈ as ++ [a] := List.mem_append_right _ (List.mem_singleton.mpr rfl)
    have hA : ∀ p, AdmittedBy M as p → AdmittedBy M (as ++ [a]) p := fun p ⟨b, hb, hp⟩ =>
      ⟨b, List.mem_append_left _ hb, hp⟩
    have hG : ∀ t, GeneratedBy M as t → GeneratedBy M (as ++ [a]) t := fun t ⟨b, hb, ht⟩ =>
      ⟨b, List.mem_append_left _ hb, ht⟩
    have hbefore := h.added.mono (fun _ _ => Holds.mono hA hG) (fun _ => Vouched.mono hA hG)
    have hrecords := h.records
    rw [hsees.records_enter] at hrecords
    refine adds_ssbx (fun p hp => ⟨a, hlast, hp⟩) (fun t ht => ⟨a, hlast, ht⟩)
      (fun s hs r hr => (hrecords s hs r hr).issued) (fun s hs r hr => ?_)
      (w := w.enter a.cwd) ⟨hbefore.files, hbefore.children⟩
    have hwithin := (hrecords s hs r hr).readsWithin
    rw [ReadsWithin, ← hsees.removedAt_eq] at hwithin
    exact hwithin
  · exact ⟨hr.issued.withHash hash, hr.name, hr.removedAt⟩
  · refine ⟨hissued, ?_, ?_⟩
    · rw [hname]
      exact hspares.name name args hcommand
    · rw [hname]
      exact Machine.removedAt_of_logPath hlog dir

/-- **A child keeps it**: its profile lets it write nothing under the root. -/
theorem kept_child {w : World} {c : ChildSpec} {rules : List Rule} {fs : FileSystem FileData}
    (hroot : M.RootSafe dir) (h : Kept M dir as w) (hspares : ∀ a ∈ as, a.Spares M dir)
    (hc : c ∈ w.children) (hrules : c.RunsUnder d rules) (hwrites : WritesUnder rules w.fs fs) :
    (∀ q, M.Under dir q → fs.node q = w.fs.node q) ∧ Kept M dir as { w with fs := fs } := by
  obtain ⟨t, ht, hread⟩ := hrules
  obtain ⟨a, ha, p, hp, hspared, hcontained⟩ :=
    contained_of_generated hspares ((h.vouched hc).1 t ht) hread
  have hsame : ∀ q, M.Under dir q → fs.node q = w.fs.node q := by
    intro q hq
    by_contra hne
    obtain ⟨kind, hpermits⟩ := hwrites.node q hne
    exact not_permits_under hroot hspared hcontained hq kind hpermits
  have hfile : ∀ q, M.Under dir q → fs.fileAt q = w.fs.fileAt q := by
    intro q hq
    rw [FileSystem.fileAt, FileSystem.fileAt, hsame q hq]
  have hrecords : M.records dir { w with fs := fs } = M.records dir w :=
    Store.index_congr (by rfl) (hfile _ (under_indexAt M dir))
  refine ⟨hsame, ⟨fun q data hdata => Or.inr ?_, h.added.children⟩, fun s hs => ?_⟩
  · by_cases hq : M.Under dir q
    · rw [World.fileAt, hfile q hq] at hdata
      rcases h.added.files q data hdata with hblank | hheld
      · rw [blankWorld_fileAt] at hblank
        cases hblank
      · exact hheld
    · exact Holds.outside hq
  · rw [hrecords] at hs
    exact h.records s hs

theorem kept_of_trace {w₀ w : World} {ms : List Move} (hroot : M.RootSafe dir)
    (hfresh : M.Fresh dir w₀) (hclean : ∀ q, M.Under dir q → w₀.fileAt q = none)
    (hchildren : w₀.children = []) (h : Trace (Shares M dir d) w₀ ms w)
    (hspares : ∀ a ∈ processes ms, a.Spares M dir) : Kept M dir (processes ms) w := by
  refine h.invariant (fun ms w => (∀ a ∈ processes ms, a.Spares M dir) → Kept M dir (processes ms) w)
    (fun _ => kept_start hfresh hclean hchildren) (fun ms w m w' _ ih hstep hall => ?_) hspares
  cases hstep with
  | @process _ a hrun =>
    have hmore : processes (ms ++ [.process a]) = processes ms ++ [a] := List.filterMap_append
    rw [hmore] at hall ⊢
    exact kept_process (ih fun b hb => hall b (List.mem_append_left _ hb))
      (hall a (List.mem_append_right _ (List.mem_singleton.mpr rfl))) hrun
  | @child c rules fs hc hrules hwrites =>
    have hmore : processes (ms ++ [.child c]) = processes ms :=
      List.filterMap_append.trans (List.append_nil _)
    rw [hmore] at hall ⊢
    exact (kept_child hroot (ih hall) hall hc hrules hwrites).2

end Steps

/-- A child has written a file into its working directory. -/
def scribbledWorld : World :=
  { enteredWorld with
    fs := enteredWorld.fs.set [osString "w", osString "x"] (.file (.text "note")) }

/-- The processes and the write, in order, before the child `c` is followed by another. -/
def sharedMoves (c : ChildSpec) : List Move :=
  [.process (smallCreate .mac "a" "u"), .process (smallExec "a"), .child c,
    .process (smallExec "a")]

theorem rootSafe_fittingMachine : fittingMachine.RootSafe [] where
  temp := by decide
  null := by
    unfold Machine.Under AtOrBeneath
    decide
  dtracehelper := by
    unfold Machine.Under AtOrBeneath
    decide

theorem spares_smallCreate : (smallCreate .mac "a" "u").Spares fittingMachine [] := by
  refine ⟨fun name args hcommand => ?_, fun p hp => ?_⟩
  · injection hcommand with hname _
    rw [← hname]
    decide
  · cases hp with
    | create hcommand hp =>
      injection hcommand with hname hargs
      rw [← hargs] at hp
      obtain ⟨loaded, hloaded, hfrom⟩ := from_of_prepare hp
      have hpolicy : p.request.policy = { mechanism := some .mac } := by
        rw [hfrom.policy, hfrom.kind, ← Except.ok.inj hloaded]
        rfl
      have hworkdir : p.request.workdir = osString "/w" := (Except.ok.inj hfrom.workdir).symm
      constructor
      · rw [profileDir, hpolicy, hworkdir]
        decide
      · rw [profileDir, hpolicy, hworkdir]
        decide
    | run hcommand hp => cases hcommand

theorem spares_smallExec : (smallExec "a").Spares fittingMachine [] := by
  refine ⟨fun _ _ hcommand => ?_, fun p hp => ?_⟩
  · cases hcommand
  · cases hp with
    | create hcommand _ => cases hcommand
    | run hcommand _ => cases hcommand

end SimpleSandbox
