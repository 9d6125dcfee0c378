import SimpleSandbox.PodmanArgs
import Mathlib.Data.List.Nodup

/-!
# The bind mounts of a container

The mounts of a request as data, their texts on the command line, and two questions about
them: which entries of the policy are mounted, and whether the texts can be read back.  The
code tests the text of an entry, `/workspace` at its beginning and `/tmp` as a whole, where
the policy means paths.
-/

namespace SimpleSandbox

open RustText OsPath

/-- A bind mount as it is meant. -/
structure BindMount where
  host : PathBuf
  guest : String
  readOnly : Bool
deriving DecidableEq

def BindMount.mode (b : BindMount) : String := if b.readOnly then "ro" else "rw"

/-- The value of `-v`. -/
def BindMount.spec (b : BindMount) : String := display b.host ++ ":" ++ b.guest ++ ":" ++ b.mode

/-- The entries of both lists in their order, marked with `true` where they are read-only. -/
def FilesystemPolicy.entries (fs : FilesystemPolicy) : List (String × Bool) :=
  fs.readOnly.map (·, true) ++ fs.readWrite.map (·, false)

namespace PodmanMechanism

/-- The entry is mounted: the tests of `mount_spec` and of the loop over `read_write`. -/
def mounted (h : MechHost) (workdir : PathBuf) (e : String × Bool) : Bool :=
  !startsWith e.1 "/workspace" && (e.2 || e.1 != "/tmp") &&
    h.pathExists (resolveHostPath e.1 workdir) && (fileName (resolveHostPath e.1 workdir)).isSome

/-- The mount of an entry. -/
def entryMount (workdir : PathBuf) (e : String × Bool) : BindMount where
  host := resolveHostPath e.1 workdir
  guest := "/mnt/" ++ display ((fileName (resolveHostPath e.1 workdir)).getD [])
  readOnly := e.2

/-- The mounts of the policy's lists. -/
def listedMounts (h : MechHost) (req : CreateRequest) : List BindMount :=
  (req.policy.filesystem.entries.filter (mounted h req.workdir)).map (entryMount req.workdir)

/-- The mount of the working directory. -/
def workspaceMounts (h : MechHost) (req : CreateRequest) : List BindMount :=
  if req.policy.filesystem.workdir then
    [{ host := (h.canonicalize req.workdir).getD req.workdir
       guest := "/workspace"
       readOnly := false }]
  else []

/-! ## Their texts -/

theorem mountSpec_eq (h : MechHost) (p : String) (workdir : PathBuf) (readOnly : Bool) :
    mountSpec h p workdir readOnly =
      if !startsWith p "/workspace" && h.pathExists (resolveHostPath p workdir) &&
        (fileName (resolveHostPath p workdir)).isSome then
        some (entryMount workdir (p, readOnly)).spec
      else none := by
  have hhost : (if isAbsolute (osString p) then osString p else join workdir (osString p)) =
      resolveHostPath p workdir := rfl
  rw [mountSpec]
  simp only [hhost]
  cases startsWith p "/workspace" with
  | true => rfl
  | false =>
    cases h.pathExists (resolveHostPath p workdir) with
    | false => rfl
    | true =>
      cases hname : fileName (resolveHostPath p workdir) with
      | none => rfl
      | some name =>
        have hguest : ":/mnt/" ++ (display name ++ (":" ++ if readOnly = true then "ro" else "rw")) =
            ":" ++ ("/mnt/" ++ (display name ++ (":" ++ if readOnly = true then "ro" else "rw"))) := by
          have hcolon : ":/mnt/" = ":" ++ "/mnt/" := rfl
          rw [hcolon, String.append_assoc]
        simpa [BindMount.spec, BindMount.mode, entryMount, hname, String.append_assoc] using hguest

/-- What the loops make of one entry: those over `read_write` skip two texts. -/
theorem entrySpec_eq (h : MechHost) (workdir : PathBuf) (e : String × Bool) :
    (if e.2 = true ∨ (e.1 ≠ "/workspace" ∧ e.1 ≠ "/tmp") then mountSpec h e.1 workdir e.2
      else none) =
      if mounted h workdir e then some (entryMount workdir e).spec else none := by
  obtain ⟨p, readOnly⟩ := e
  rw [mountSpec_eq]
  by_cases hworkspace : p = "/workspace"
  · subst hworkspace
    have hstarts : startsWith "/workspace" "/workspace" = true := by decide
    simp [mounted, hstarts]
  · cases readOnly with
    | true => simp [mounted]
    | false => by_cases htmp : p = "/tmp" <;> simp [mounted, hworkspace, htmp]

theorem extraMounts_eq (h : MechHost) (req : CreateRequest) :
    extraMounts h req = (listedMounts h req).map BindMount.spec := by
  have hlisted : (listedMounts h req).map BindMount.spec =
      req.policy.filesystem.entries.filterMap fun e =>
        if mounted h req.workdir e then some (entryMount req.workdir e).spec else none := by
    rw [listedMounts, List.map_map, ← List.filterMap_eq_map, List.filterMap_filter]
    rfl
  rw [hlisted, extraMounts, FilesystemPolicy.entries, List.filterMap_append, List.filterMap_map,
    List.filterMap_map, List.filterMap_filter]
  congr 1
  · refine List.filterMap_congr fun p _ => ?_
    rw [Function.comp_apply, ← entrySpec_eq]
    exact (if_pos (Or.inl rfl)).symm
  · refine List.filterMap_congr fun p _ => ?_
    rw [Function.comp_apply, ← entrySpec_eq]
    simp

theorem workdirMounts_eq (h : MechHost) (req : CreateRequest) :
    workdirMounts h req = (workspaceMounts h req).map BindMount.spec := by
  rw [workdirMounts, workspaceMounts]
  split
  · simp [BindMount.spec, BindMount.mode, String.append_assoc]
  · rfl

/-- The volumes of the command line are the texts of the mounts. -/
theorem volumes_requestLine (m : PodmanMechanism) (h : MechHost) (req : CreateRequest)
    (name : String) (detach : Bool) (mem : ℕ) :
    (m.requestLine h req name detach mem).volumes =
      (workspaceMounts h req ++ listedMounts h req).map BindMount.spec := by
  rw [requestLine, workdirMounts_eq, extraMounts_eq, List.map_append]

end PodmanMechanism

/-! ## Filters that leave the same keys -/

section Filters

variable {α β : Type}

theorem countP_agree {p q : α → Bool} {l : List α} (hle : ∀ y ∈ l, q y = true → p y = true)
    (hcount : l.countP p ≤ l.countP q) : ∀ y ∈ l, p y = true → q y = true := by
  induction l with
  | nil => exact fun y hy => absurd hy List.not_mem_nil
  | cons x l ih =>
    have htail : ∀ y ∈ l, q y = true → p y = true := fun y hy => hle y (List.mem_cons_of_mem _ hy)
    have hmono : l.countP q ≤ l.countP p := List.countP_mono_left htail
    have hx := hle x List.mem_cons_self
    rw [List.countP_cons, List.countP_cons] at hcount
    intro y hy hp
    rcases List.mem_cons.mp hy with rfl | hy
    · by_contra hq
      rw [if_pos hp, if_neg hq] at hcount
      omega
    · refine ih htail ?_ y hy hp
      have hstep : (if q x = true then 1 else 0) ≤ (if p x = true then 1 else 0) := by
        by_cases hq : q x = true
        · rw [if_pos hq, if_pos (hx hq)]
        · rw [if_neg hq]
          exact Nat.zero_le _
      omega

/-- Two filters that leave the same keys agree, if no key is lost at one place and gained at
    another. -/
theorem agree_of_map_filter_eq [DecidableEq β] {f : α → β} {p q : α → Bool} {l : List α}
    (heq : (l.filter p).map f = (l.filter q).map f)
    (hclass : ∀ x ∈ l, ∀ y ∈ l, f x = f y → p x = true → q x = false → q y = true → p y = true) :
    ∀ x ∈ l, p x = q x := by
  have hcount : ∀ k, l.countP (fun y => p y && f y == k) = l.countP (fun y => q y && f y == k) := by
    intro k
    have hk := congrArg (List.countP (· == k)) heq
    rw [List.countP_map, List.countP_map, List.countP_filter, List.countP_filter] at hk
    simpa only [Function.comp_apply, Bool.and_comm] using hk
  intro x hx
  cases hp : p x with
  | true =>
    cases hq : q x with
    | true => rfl
    | false =>
      have hle : ∀ y ∈ l, (q y && f y == f x) = true → (p y && f y == f x) = true := by
        intro y hy h
        rw [Bool.and_eq_true, beq_iff_eq] at h ⊢
        exact ⟨hclass x hx y hy h.2.symm hp hq h.1, h.2⟩
      have hagree := countP_agree hle (hcount (f x)).le x hx (by simp [hp])
      simp [hq] at hagree
  | false =>
    cases hq : q x with
    | false => rfl
    | true =>
      have hle : ∀ y ∈ l, (p y && f y == f x) = true → (q y && f y == f x) = true := by
        intro y hy h
        rw [Bool.and_eq_true, beq_iff_eq] at h ⊢
        refine ⟨?_, h.2⟩
        by_contra hqy
        have hpx := hclass y hy x hx h.2 h.1 (by simpa using hqy) hq
        rw [hp] at hpx
        exact Bool.false_ne_true hpx
      have hagree := countP_agree hle (hcount (f x)).ge x hx (by simp [hq])
      simp [hp] at hagree

end Filters

/-! ## Which entries are mounted -/

/-- The entry names a path the container has anyway. -/
def GuestPath (p : String) : Prop :=
  components (osString p) = components (osString "/tmp") ∨
  components (osString "/workspace") <+: components (osString p)

instance (p : String) : Decidable (GuestPath p) := by unfold GuestPath; infer_instance

theorem GuestPath.isAbsolute {p : String} (h : GuestPath p) : isAbsolute (osString p) = true := by
  apply isAbsolute_of_rootDir_mem
  rcases h with h | h
  · rw [h]
    decide
  · exact h.subset (by decide)

namespace PodmanMechanism

/-- The entries to mount: those that exist and are not in the container anyway. -/
def wanted (h : MechHost) (workdir : PathBuf) (e : String × Bool) : Bool :=
  h.pathExists (resolveHostPath e.1 workdir) && !decide (GuestPath e.1)

/-- The host path and the mode of an entry. -/
def entryPair (workdir : PathBuf) (e : String × Bool) : PathBuf × Bool :=
  (resolveHostPath e.1 workdir, e.2)

/-- The host path a mount names on the command line, and its mode. -/
def mountPair (b : BindMount) : PathBuf × Bool := (osString (display b.host), b.readOnly)

/-- The extra mounts of the command line are those of the wanted entries, in their order. -/
def MountsListed (m : PodmanMechanism) (h : MechHost) (req : CreateRequest) (name : String)
    (detach : Bool) : Prop :=
  ∀ args, m.buildRunArgs h req name detach = .ok args →
    ∃ line, RunLine.decode allowlistGrammar args = some line ∧
      line.volumes = (workspaceMounts h req ++ listedMounts h req).map BindMount.spec ∧
      (listedMounts h req).map mountPair =
        (req.policy.filesystem.entries.filter (wanted h req.workdir)).map (entryPair req.workdir)

/-- The tests on the text of an entry come out as those on its path, and the path can be
    written down. -/
def EntryClear (workdir : PathBuf) (e : String × Bool) : Prop :=
  if GuestPath e.1 then
    startsWith e.1 "/workspace" = true ∨ (e.1 = "/tmp" ∧ e.2 = false) ∨
      fileName (resolveHostPath e.1 workdir) = none
  else
    startsWith e.1 "/workspace" = false ∧ fileName (resolveHostPath e.1 workdir) ≠ none ∧
      isUtf8 (resolveHostPath e.1 workdir) = true

/-- For an entry that exists, being clear is being mounted when wanted, and writable text. -/
theorem entryClear_iff {h : MechHost} {workdir : PathBuf} {e : String × Bool}
    (hexists : h.pathExists (resolveHostPath e.1 workdir) = true) :
    EntryClear workdir e ↔
      mounted h workdir e = wanted h workdir e ∧
        (wanted h workdir e = true → isUtf8 (resolveHostPath e.1 workdir) = true) := by
  obtain ⟨p, readOnly⟩ := e
  by_cases hguest : GuestPath p
  · have hwanted : wanted h workdir (p, readOnly) = false := by simp [wanted, hguest]
    rw [EntryClear, if_pos hguest, hwanted]
    simp only [mounted, hexists]
    cases startsWith p "/workspace" <;> cases readOnly <;>
      cases fileName (resolveHostPath p workdir) <;> simp
  · have hwanted : wanted h workdir (p, readOnly) = true := by simp [wanted, hguest, hexists]
    have htmp : p ≠ "/tmp" := by
      rintro rfl
      exact hguest (by decide)
    rw [EntryClear, if_neg hguest, hwanted]
    simp only [mounted, hexists]
    cases startsWith p "/workspace" <;> cases readOnly <;>
      cases fileName (resolveHostPath p workdir) <;> simp [htmp]

theorem mounted_eq_false_of_not_exists {h : MechHost} {workdir : PathBuf} {e : String × Bool}
    (hexists : ¬ h.pathExists (resolveHostPath e.1 workdir) = true) :
    mounted h workdir e = false ∧ wanted h workdir e = false := by
  have hno : h.pathExists (resolveHostPath e.1 workdir) = false := by simpa using hexists
  simp [mounted, wanted, hno]

theorem mounted_eq_true_iff {h : MechHost} {workdir : PathBuf} {e : String × Bool} :
    mounted h workdir e = true ↔
      startsWith e.1 "/workspace" = false ∧ (e.2 = true ∨ e.1 ≠ "/tmp") ∧
      h.pathExists (resolveHostPath e.1 workdir) = true ∧
      (fileName (resolveHostPath e.1 workdir)).isSome = true := by
  simp [mounted, and_assoc]

theorem isAbsolute_of_startsWith {p : String} (h : startsWith p "/workspace" = true) :
    isAbsolute (osString p) = true := by
  obtain ⟨rest, hrest⟩ := List.isPrefixOf_iff_prefix.mp h
  rw [isAbsolute, osString, ← hrest]
  rfl

/-- An absolute entry is its own host path. -/
theorem resolveHostPath_of_isAbsolute {p : String} (h : isAbsolute (osString p) = true)
    (workdir : PathBuf) : resolveHostPath p workdir = osString p := if_pos h

theorem isUtf8_osString (s : String) : isUtf8 (osString s) = true :=
  (osString_display_iff _).mp (by rw [display_osString])

theorem isUtf8_resolveHostPath (s : String) {workdir : PathBuf} (h : isUtf8 workdir = true) :
    isUtf8 (resolveHostPath s workdir) = true := by
  rw [resolveHostPath]
  split
  · exact isUtf8_osString s
  · exact isUtf8_join h (isUtf8_osString s)

theorem mountPair_of_isUtf8 {workdir : PathBuf} {e : String × Bool}
    (h : isUtf8 (resolveHostPath e.1 workdir) = true) :
    mountPair (entryMount workdir e) = entryPair workdir e := by
  have hpath : osString (display (resolveHostPath e.1 workdir)) = resolveHostPath e.1 workdir :=
    (osString_display_iff _).mpr h
  rw [mountPair, entryPair, entryMount, hpath]

/-- The mounts are those of the wanted entries when every existing entry is clear. -/
theorem mounts_eq_of_clear {h : MechHost} {workdir : PathBuf} {l : List (String × Bool)}
    (hclear : ∀ e ∈ l, h.pathExists (resolveHostPath e.1 workdir) = true → EntryClear workdir e) :
    (l.filter (mounted h workdir)).map (fun e => mountPair (entryMount workdir e)) =
      (l.filter (wanted h workdir)).map (entryPair workdir) := by
  have hagree : ∀ e ∈ l, mounted h workdir e = wanted h workdir e := by
    intro e he
    by_cases hexists : h.pathExists (resolveHostPath e.1 workdir) = true
    · exact ((entryClear_iff hexists).mp (hclear e he hexists)).1
    · obtain ⟨hno, hno'⟩ := mounted_eq_false_of_not_exists hexists
      rw [hno, hno']
  rw [List.filter_congr hagree]
  refine List.map_congr_left fun e he => ?_
  obtain ⟨hmem, hwanted⟩ := List.mem_filter.mp he
  have hexists : h.pathExists (resolveHostPath e.1 workdir) = true := by
    rw [wanted, Bool.and_eq_true] at hwanted
    exact hwanted.1
  have hutf8 := ((entryClear_iff hexists).mp (hclear e hmem hexists)).2 hwanted
  rw [mountPair_of_isUtf8 hutf8]

/-- An entry that is mounted against the policy is absolute, so whatever has its path and mode
    is mounted too. -/
theorem mounted_of_entryPair_eq {h : MechHost} {workdir : PathBuf} {x y : String × Bool}
    (hkey : entryPair workdir x = entryPair workdir y) (hx : mounted h workdir x = true)
    (hx' : wanted h workdir x = false) : mounted h workdir y = true := by
  obtain ⟨hpath, hmode⟩ : resolveHostPath x.1 workdir = resolveHostPath y.1 workdir ∧ x.2 = y.2 :=
    Prod.mk.inj hkey
  obtain ⟨-, -, hexists, hname⟩ := mounted_eq_true_iff.mp hx
  have hguest : GuestPath x.1 := by
    by_contra hguest
    simp [wanted, hexists, hguest] at hx'
  by_cases habs : isAbsolute (osString y.1) = true
  · rw [resolveHostPath_of_isAbsolute hguest.isAbsolute, resolveHostPath_of_isAbsolute habs] at hpath
    have hsame : x = y := Prod.ext (osString_injective hpath) hmode
    rw [← hsame]
    exact hx
  · have hstarts : startsWith y.1 "/workspace" = false := by
      by_contra hstarts
      exact habs (isAbsolute_of_startsWith (by simpa using hstarts))
    have htmp : y.1 ≠ "/tmp" := by
      intro htmp
      rw [htmp] at habs
      exact habs (by decide)
    rw [hpath] at hexists hname
    rw [mounted_eq_true_iff]
    exact ⟨hstarts, Or.inr htmp, hexists, hname⟩

/-- Nothing else makes the two lists equal. -/
theorem clear_of_mounts_eq {h : MechHost} {workdir : PathBuf} {l : List (String × Bool)}
    (heq : (l.filter (mounted h workdir)).map (fun e => mountPair (entryMount workdir e)) =
      (l.filter (wanted h workdir)).map (entryPair workdir)) :
    ∀ e ∈ l, h.pathExists (resolveHostPath e.1 workdir) = true → EntryClear workdir e := by
  -- a wanted path is one that was written down
  have hutf8 : ∀ e ∈ l, wanted h workdir e = true → isUtf8 (resolveHostPath e.1 workdir) = true := by
    intro e he hwanted
    have hmem : entryPair workdir e ∈ (l.filter (wanted h workdir)).map (entryPair workdir) :=
      List.mem_map_of_mem (List.mem_filter.mpr ⟨he, hwanted⟩)
    rw [← heq] at hmem
    obtain ⟨e', -, hpair⟩ := List.mem_map.mp hmem
    obtain ⟨hpath, -⟩ : osString (display (resolveHostPath e'.1 workdir)) = resolveHostPath e.1 workdir ∧
        e'.2 = e.2 := Prod.mk.inj hpair
    rw [← hpath]
    exact isUtf8_osString _
  -- and so is the path of every mount: an absolute entry is a text
  have hkept : ∀ e ∈ l, mounted h workdir e = true → isUtf8 (resolveHostPath e.1 workdir) = true := by
    intro e he hmounted
    by_cases habs : isAbsolute (osString e.1) = true
    · rw [resolveHostPath_of_isAbsolute habs]
      exact isUtf8_osString _
    · have hguest : ¬ GuestPath e.1 := fun hguest => habs hguest.isAbsolute
      have hexists := (mounted_eq_true_iff.mp hmounted).2.2.1
      exact hutf8 e he (by simp [wanted, hexists, hguest])
  have hpairs : (l.filter (mounted h workdir)).map (fun e => mountPair (entryMount workdir e)) =
      (l.filter (mounted h workdir)).map (entryPair workdir) := by
    apply List.map_congr_left
    intro e he
    obtain ⟨hmem, hmounted⟩ := List.mem_filter.mp he
    exact mountPair_of_isUtf8 (hkept e hmem hmounted)
  rw [hpairs] at heq
  have hagree := agree_of_map_filter_eq heq fun x _ y _ hkey hx hx' _ =>
    mounted_of_entryPair_eq hkey hx hx'
  intro e he hexists
  rw [entryClear_iff hexists]
  exact ⟨hagree e he, hutf8 e he⟩

theorem mountsListed_iff (binary : Option PathBuf) (h : MechHost) (req : CreateRequest)
    (name : String) (detach : Bool) {mem : ℕ} (hmem : req.policy.resources.memoryBytes = .ok mem) :
    MountsListed { binary } h req name detach ↔
      (listedMounts h req).map mountPair =
        (req.policy.filesystem.entries.filter (wanted h req.workdir)).map
          (entryPair req.workdir) := by
  obtain ⟨args, hargs, hline⟩ := decode_buildRunArgs { binary } h req name detach
    defaultImage_head hmem
  constructor
  · intro hlisted
    obtain ⟨line, -, -, hpairs⟩ := hlisted args hargs
    exact hpairs
  · intro hpairs args' hargs'
    rw [hargs] at hargs'
    obtain rfl := Except.ok.inj hargs'
    exact ⟨_, hline, volumes_requestLine _ h req name detach mem, hpairs⟩

end PodmanMechanism

/-- **The listed paths are mounted.**  The extra mounts of a command line are the existing
    entries outside the container's own paths, each with its mode and in order, exactly if the
    tests on the texts of the existing entries come out as those on their paths. -/
theorem mountsListed_iff_clear (binary : Option PathBuf) (h : MechHost) (req : CreateRequest)
    (name : String) (detach : Bool) :
    PodmanMechanism.MountsListed { binary } h req name detach ↔
      (∃ e, req.policy.resources.memoryBytes = .error e) ∨
      ∀ e ∈ req.policy.filesystem.entries, h.pathExists (resolveHostPath e.1 req.workdir) = true →
        PodmanMechanism.EntryClear req.workdir e := by
  cases hmem : req.policy.resources.memoryBytes with
  | error e =>
    refine iff_of_true (fun args hargs => ?_) (Or.inl ⟨e, rfl⟩)
    rw [PodmanMechanism.buildRunArgs_of_error hmem] at hargs
    cases hargs
  | ok mem =>
    rw [PodmanMechanism.mountsListed_iff binary h req name detach hmem,
      PodmanMechanism.listedMounts, List.map_map]
    constructor
    · intro heq
      exact Or.inr (PodmanMechanism.clear_of_mounts_eq heq)
    · rintro (⟨e, he⟩ | hclear)
      · cases he
      · exact PodmanMechanism.mounts_eq_of_clear hclear

/-- A host whose paths all exist. -/
def fullHost : MechHost := { quietHost with pathExists := fun _ => true }

/-- A read-only entry next to the container's own directory. -/
def siblingRequest : CreateRequest where
  name := "r"
  policy := { filesystem := { readOnly := ["/workspace2"], readWrite := [] } }
  workdir := osString "/w"
  ephemeral := true
  command := ["true"]
  env := []

/-- `/workspace2` begins like `/workspace` and is not mounted. -/
theorem mounts_not_always_listed :
    ¬ ∀ (h : MechHost) (req : CreateRequest) (name : String) (detach : Bool),
      PodmanMechanism.MountsListed {} h req name detach := by
  intro hall
  have hmem : siblingRequest.policy.resources.memoryBytes = .ok 2147483648 := by decide
  have hpairs := (PodmanMechanism.mountsListed_iff none fullHost siblingRequest "r" false hmem).mp
    (hall fullHost siblingRequest "r" false)
  revert hpairs
  decide

/-! ## Reading the texts of the mounts -/

/-- The text splits into exactly the three parts that were meant. -/
def BindMount.Decodes (b : BindMount) : Prop :=
  ∃ x y z, (b.spec.toList.splitOn ':').map String.ofList = [x, y, z] ∧
    osString x = b.host ∧ y = b.guest ∧ z = b.mode

theorem mem_toList_display {s : OsString} : ':' ∈ (display s).toList ↔ OsChar.char ':' ∈ s := by
  rw [display, String.toList_ofList, List.mem_map]
  constructor
  · rintro ⟨c, hc, hlossy⟩
    cases c with
    | char c =>
      obtain rfl : c = ':' := hlossy
      exact hc
    | invalid bytes =>
      have hchar : '\uFFFD' = ':' := hlossy
      exact absurd hchar (by decide)
  · intro h
    exact ⟨_, h, rfl⟩

/-- A mount can be read back when its host path is a text without a colon, and its guest path
    has none. -/
theorem BindMount.decodes_of_not_mem {b : BindMount} (hutf8 : isUtf8 b.host = true)
    (hhost : OsChar.char ':' ∉ b.host) (hguest : ':' ∉ b.guest.toList) : b.Decodes := by
  have hmode : ':' ∉ b.mode.toList := by
    rw [BindMount.mode]
    split <;> decide
  have hcolon : ":".toList = [':'] := rfl
  have hparts : b.spec.toList =
      (display b.host).toList ++ ':' :: (b.guest.toList ++ ':' :: b.mode.toList) := by
    simp [BindMount.spec, hcolon]
  have hsplit : b.spec.toList.splitOn ':' =
      [(display b.host).toList, b.guest.toList, b.mode.toList] := by
    rw [hparts, List.splitOn_append_cons_self_of_not_mem fun h => hhost (mem_toList_display.mp h),
      List.splitOn_append_cons_self_of_not_mem hguest, List.splitOn_eq_singleton hmode]
  refine ⟨display b.host, b.guest, b.mode, ?_, (osString_display_iff _).mpr hutf8, rfl, rfl⟩
  rw [hsplit]
  simp

theorem BindMount.Decodes.host {b : BindMount} (h : b.Decodes) :
    isUtf8 b.host = true ∧ OsChar.char ':' ∉ b.host := by
  obtain ⟨x, y, z, hsplit, hhost, -, -⟩ := h
  have hx : x.toList ∈ b.spec.toList.splitOn ':' := by
    have hmem : x ∈ (b.spec.toList.splitOn ':').map String.ofList := by
      rw [hsplit]
      exact List.mem_cons_self
    obtain ⟨l, hl, rfl⟩ := List.mem_map.mp hmem
    rw [String.toList_ofList]
    exact hl
  rw [← hhost]
  refine ⟨PodmanMechanism.isUtf8_osString x, fun hcolon => not_mem_of_mem_splitOn hx ?_⟩
  rw [osString, List.mem_map] at hcolon
  obtain ⟨c, hc, hchar⟩ := hcolon
  rw [← OsChar.char.inj hchar]
  exact hc

/-- The path in the container that a `--tmpfs` value names. -/
def tmpfsGuest (t : String) : String := String.ofList (t.toList.takeWhile (· ≠ ':'))

namespace PodmanMechanism

/-- All bind mounts of the command line. -/
def bindMounts (h : MechHost) (req : CreateRequest) : List BindMount :=
  workspaceMounts h req ++ listedMounts h req

/-- Every `-v` of the command line can be read back, and no two mounts share a place in the
    container. -/
def MountsApart (m : PodmanMechanism) (h : MechHost) (req : CreateRequest) (name : String)
    (detach : Bool) : Prop :=
  ∀ args, m.buildRunArgs h req name detach = .ok args →
    ∃ line, RunLine.decode allowlistGrammar args = some line ∧
      line.volumes = (bindMounts h req).map BindMount.spec ∧
      (∀ b ∈ bindMounts h req, b.Decodes) ∧
      ((bindMounts h req).map BindMount.guest ++ line.tmpfs.map tmpfsGuest).Nodup

/-- The last components of the mounted entries, as they are shown. -/
def mountNames (h : MechHost) (req : CreateRequest) : List String :=
  (req.policy.filesystem.entries.filter (mounted h req.workdir)).map fun e =>
    display ((fileName (resolveHostPath e.1 req.workdir)).getD [])

theorem guest_listedMounts (h : MechHost) (req : CreateRequest) :
    (listedMounts h req).map BindMount.guest = (mountNames h req).map ("/mnt/" ++ ·) := by
  rw [listedMounts, mountNames, List.map_map, List.map_map]
  rfl

/-- Behind `/workspace` and before `/tmp`, only the names under `/mnt` can clash. -/
theorem nodup_guests_iff (h : MechHost) (req : CreateRequest) :
    ((bindMounts h req).map BindMount.guest ++ ["/tmp:rw,size=64m"].map tmpfsGuest).Nodup ↔
      (mountNames h req).Nodup := by
  have hinj : Function.Injective ("/mnt/" ++ · : String → String) := by
    intro s t hst
    have hlist := congrArg String.toList hst
    simp only [String.toList_append, List.append_cancel_left_eq] at hlist
    exact String.ext hlist
  have happart : ∀ {t : String}, t.toList.take 2 ≠ ['/', 'm'] → ∀ s : String, "/mnt/" ++ s ≠ t := by
    rintro t ht s rfl
    exact ht (by rw [String.toList_append]; rfl)
  have hworkspace : (workspaceMounts h req).map BindMount.guest = workdirs req := by
    rw [workspaceMounts, workdirs]
    split <;> rfl
  have htmpfs : ["/tmp:rw,size=64m"].map tmpfsGuest = ["/tmp"] := by decide
  have hfirst : ∀ g ∈ workdirs req, g = "/workspace" := by
    intro g hg
    rw [workdirs] at hg
    split at hg
    · exact List.mem_singleton.mp hg
    · cases hg
  have hnodup : (workdirs req).Nodup := by
    rw [workdirs]
    split
    · exact List.nodup_singleton _
    · exact List.nodup_nil
  rw [bindMounts, List.map_append, guest_listedMounts, hworkspace, htmpfs, List.nodup_append,
    List.nodup_append, List.nodup_map_iff hinj]
  constructor
  · rintro ⟨⟨-, hnames, -⟩, -⟩
    exact hnames
  · intro hnames
    refine ⟨⟨hnodup, hnames, ?_⟩, List.nodup_singleton _, ?_⟩
    · intro g hg g' hg' heq
      obtain ⟨s, -, rfl⟩ := List.mem_map.mp hg'
      rw [hfirst g hg] at heq
      exact happart (by decide) s heq.symm
    · intro g hg g' hg' heq
      rw [List.mem_singleton.mp hg'] at heq
      rcases List.mem_append.mp hg with hg | hg
      · rw [hfirst g hg] at heq
        revert heq
        decide
      · obtain ⟨s, -, rfl⟩ := List.mem_map.mp hg
        exact happart (by decide) s heq

/-- A mount made from an entry has no colon in its guest path that is not one of its host. -/
theorem guest_of_mem_bindMounts {h : MechHost} {req : CreateRequest} {b : BindMount}
    (hb : b ∈ bindMounts h req) (hhost : OsChar.char ':' ∉ b.host) : ':' ∉ b.guest.toList := by
  rcases List.mem_append.mp hb with hb | hb
  · rw [workspaceMounts] at hb
    split at hb
    · rw [List.mem_singleton.mp hb]
      change ':' ∉ "/workspace".toList
      decide
    · cases hb
  · obtain ⟨e, he, rfl⟩ := List.mem_map.mp hb
    obtain ⟨-, hmounted⟩ := List.mem_filter.mp he
    obtain ⟨name, hname⟩ := Option.isSome_iff_exists.mp (mounted_eq_true_iff.mp hmounted).2.2.2
    intro hcolon
    rw [entryMount, hname, String.toList_append, List.mem_append] at hcolon
    rcases hcolon with hcolon | hcolon
    · revert hcolon
      decide
    · exact hhost (mem_of_mem_fileName hname (mem_toList_display.mp hcolon))

theorem mountsApart_iff (binary : Option PathBuf) (h : MechHost) (req : CreateRequest)
    (name : String) (detach : Bool) {mem : ℕ} (hmem : req.policy.resources.memoryBytes = .ok mem) :
    MountsApart { binary } h req name detach ↔
      (∀ b ∈ bindMounts h req, isUtf8 b.host = true ∧ OsChar.char ':' ∉ b.host) ∧
        (mountNames h req).Nodup := by
  obtain ⟨args, hargs, hline⟩ := decode_buildRunArgs { binary } h req name detach
    defaultImage_head hmem
  constructor
  · intro hapart
    obtain ⟨line, hline', -, hdecodes, hnodup⟩ := hapart args hargs
    rw [hline] at hline'
    obtain rfl := Option.some.inj hline'
    exact ⟨fun b hb => (hdecodes b hb).host, (nodup_guests_iff h req).mp hnodup⟩
  · rintro ⟨hhosts, hnodup⟩ args' hargs'
    rw [hargs] at hargs'
    obtain rfl := Except.ok.inj hargs'
    refine ⟨_, hline, volumes_requestLine _ h req name detach mem, fun b hb => ?_,
      (nodup_guests_iff h req).mpr hnodup⟩
    obtain ⟨hutf8, hcolon⟩ := hhosts b hb
    exact BindMount.decodes_of_not_mem hutf8 hcolon (guest_of_mem_bindMounts hb hcolon)

end PodmanMechanism

/-- **The mounts are apart.**  Every `-v` of a command line splits into the three parts that were
    meant and no two mounts share a guest path, exactly if the mounted host paths are texts
    without a colon and the last names of the mounted entries are distinct. -/
theorem mountsApart_iff_names (binary : Option PathBuf) (h : MechHost) (req : CreateRequest)
    (name : String) (detach : Bool) :
    PodmanMechanism.MountsApart { binary } h req name detach ↔
      (∃ e, req.policy.resources.memoryBytes = .error e) ∨
      (∀ b ∈ PodmanMechanism.bindMounts h req, isUtf8 b.host = true ∧ OsChar.char ':' ∉ b.host) ∧
        (PodmanMechanism.mountNames h req).Nodup := by
  cases hmem : req.policy.resources.memoryBytes with
  | error e =>
    refine iff_of_true (fun args hargs => ?_) (Or.inl ⟨e, rfl⟩)
    rw [PodmanMechanism.buildRunArgs_of_error hmem] at hargs
    cases hargs
  | ok mem =>
    rw [PodmanMechanism.mountsApart_iff binary h req name detach hmem]
    constructor
    · exact Or.inr
    · rintro (⟨e, he⟩ | hclear)
      · cases he
      · exact hclear

/-- Two directories with the same last name. -/
def twinRequest : CreateRequest where
  name := "r"
  policy := { filesystem := { readOnly := ["/a/x", "/b/x"], readWrite := [] } }
  workdir := osString "/w"
  ephemeral := true
  command := ["true"]
  env := []

/-- `/a/x` and `/b/x` are both mounted at `/mnt/x`. -/
theorem mounts_not_always_apart :
    ¬ ∀ (h : MechHost) (req : CreateRequest) (name : String) (detach : Bool),
      req.policy.validate = .ok () →
      (req.policy.filesystem.entries.map fun e => resolveHostPath e.1 req.workdir).Nodup →
      (∀ e ∈ req.policy.filesystem.entries,
        h.pathExists (resolveHostPath e.1 req.workdir) = true) →
      PodmanMechanism.MountsApart {} h req name detach := by
  intro hall
  have hmem : twinRequest.policy.resources.memoryBytes = .ok 2147483648 := by decide
  have hapart := hall fullHost twinRequest "r" false rfl (by decide) (fun _ _ => rfl)
  have hnames := ((PodmanMechanism.mountsApart_iff none fullHost twinRequest "r" false hmem).mp
    hapart).2
  revert hnames
  decide

end SimpleSandbox
