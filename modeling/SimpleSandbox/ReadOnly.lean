import SimpleSandbox.BindMounts
import SimpleSandbox.SeatbeltRules

/-!
# Read-only entries

Under both mechanisms a path is writable through a read-write entry or through the working
directory.  A path of a read-only entry that lies in neither stays read-only; the working
directory is read-write as a whole, also where a read-only entry lies below it.
-/

namespace SimpleSandbox

open RustText OsPath

/-- What every profile lets be written. -/
def AlwaysWritable (q : Location) : Prop :=
  (∃ p ∈ tempPaths, AtOrBeneath (resolve [] (osString p)) q) ∨
  q = [osString "dev", osString "null"] ∨ q = [osString "dev", osString "dtracehelper"]

instance (q : Location) : Decidable (AlwaysWritable q) := by
  unfold AlwaysWritable
  infer_instance

/-- The path belongs to a read-only entry and to no read-write entry. -/
structure ReadOnlyPath (fs : FilesystemPolicy) (base : Location) (workdir : PathBuf)
    (q : Location) : Prop where
  readOnly : ∃ p ∈ fs.readOnly, AtOrBeneath (resolve base (resolveHostPath p workdir)) q
  readWrite : ∀ p ∈ fs.readWrite, ¬ AtOrBeneath (resolve base (resolveHostPath p workdir)) q
  notAlways : ¬ AlwaysWritable q

/-- The path is outside the working directory, where the policy grants that. -/
def OutsideWorkdir (fs : FilesystemPolicy) (base : Location) (workdir : PathBuf) (q : Location) :
    Prop :=
  fs.workdir = true → ¬ AtOrBeneath (resolve base workdir) q

/-! ## Reading a mount -/

/-- The fields of a `-v` value. -/
def mountFields (token : String) : List String := (token.toList.splitOn ':').map String.ofList

/-- The host directory that a `-v` value makes writable: a mount is read-write unless it says
    `ro`. -/
def writableSource (token : String) : Option String :=
  match mountFields token with
  | [src, _] => some src
  | [src, _, mode] => if mode = "ro" then none else some src
  | _ => none

theorem eq_of_length_splitOn {α : Type} [DecidableEq α] {a : α} {l : List α}
    (h : (l.splitOn a).length = 1) : l.splitOn a = [l] := by
  obtain ⟨x, hx⟩ := List.length_eq_one_iff.mp h
  have hback : [a].intercalate (l.splitOn a) = l := List.intercalate_splitOn a
  rw [hx] at hback
  rw [hx]
  simpa using hback

theorem one_le_length_mountFields (s : String) : 1 ≤ (mountFields s).length := by
  rw [mountFields, List.length_map]
  exact List.length_pos_iff.mpr (List.splitOn_ne_nil ':' s.toList)

theorem eq_of_length_mountFields {s : String} (h : (mountFields s).length = 1) :
    mountFields s = [s] := by
  rw [mountFields, List.length_map] at h
  rw [mountFields, eq_of_length_splitOn h, List.map_singleton, String.ofList_toList]

theorem mountFields_spec (b : BindMount) :
    mountFields b.spec = mountFields (display b.host) ++ mountFields b.guest ++ mountFields b.mode := by
  have hcolon : ":".toList = [':'] := rfl
  have hparts : b.spec.toList =
      (display b.host).toList ++ ':' :: (b.guest.toList ++ ':' :: b.mode.toList) := by
    simp [BindMount.spec, hcolon]
  rw [mountFields, hparts, List.splitOn_append_cons_self, List.splitOn_append_cons_self,
    List.map_append, List.map_append, List.append_assoc]
  rfl

/-- A mount that makes a directory writable was meant to: with three fields it is read as it
    was written, and there are never fewer. -/
theorem BindMount.of_writableSource {b : BindMount} {src : String}
    (h : writableSource b.spec = some src) : src = display b.host ∧ b.readOnly = false := by
  have hspec := mountFields_spec b
  have hhost := one_le_length_mountFields (display b.host)
  have hguest := one_le_length_mountFields b.guest
  have hmode := one_le_length_mountFields b.mode
  rw [writableSource] at h
  split at h
  · rename_i src' _ hfields
    have hlen := congrArg List.length (hspec.symm.trans hfields)
    simp only [List.length_append, List.length_cons, List.length_nil] at hlen
    omega
  · rename_i src' _ mode hfields
    rw [hspec] at hfields
    have hlen := congrArg List.length hfields
    simp only [List.length_append, List.length_cons, List.length_nil] at hlen
    rw [eq_of_length_mountFields (s := display b.host) (by omega),
      eq_of_length_mountFields (s := b.guest) (by omega),
      eq_of_length_mountFields (s := b.mode) (by omega)] at hfields
    simp only [List.cons_append, List.nil_append, List.cons.injEq, and_true] at hfields
    obtain ⟨rfl, -, rfl⟩ := hfields
    split at h
    · cases h
    · rename_i hro
      refine ⟨(Option.some.inj h).symm, ?_⟩
      cases hflag : b.readOnly with
      | false => rfl
      | true => exact absurd (by rw [BindMount.mode, hflag]; rfl) hro
  · cases h

/-! ## The two mechanisms -/

/-- The rules of the profile deny writing the path. -/
def SeatbeltDenies (d : Dialect) (canonicalize : PathBuf → Option PathBuf) (policy : SandboxPolicy)
    (workdir : PathBuf) (q : Location) : Prop :=
  ∃ rules, readProfile d (generateSeatbeltProfile canonicalize policy workdir) = some rules ∧
    ∀ kind, ¬ Permits rules ⟨"file-write" ++ kind, .path q⟩

/-- No mount of the command line makes a directory writable that holds the path. -/
def ArgvSpares (base : Location) (args : List String) (q : Location) : Prop :=
  ∃ line, RunLine.decode allowlistGrammar args = some line ∧
    ∀ token ∈ line.volumes, ∀ src, writableSource token = some src →
      ¬ AtOrBeneath (resolve base (osString src)) q

theorem seatbeltDenies_of_readOnly (d : Dialect) {canonicalize : PathBuf → Option PathBuf}
    {policy : SandboxPolicy} {workdir : PathBuf} {q : Location}
    (hquote : ∀ p ∈ interpolatedPaths policy (profileWorkdir canonicalize workdir),
      quotablePath p = true)
    (hpath : ReadOnlyPath policy.filesystem [] (profileWorkdir canonicalize workdir) q)
    (hout : OutsideWorkdir policy.filesystem [] (profileWorkdir canonicalize workdir) q) :
    SeatbeltDenies d canonicalize policy workdir q := by
  refine ⟨_, readProfile_of_quotablePath d hquote, fun kind hpermits => ?_⟩
  rw [permits_write_iff, exists_writeGrants_iff, exists_resolveHostPaths_iff] at hpermits
  rcases hpermits with ((⟨hflag, hq⟩ | ⟨p, hp, hq⟩) | htemp) | hdevice
  · exact hout hflag hq
  · exact hpath.readWrite p hp hq
  · exact hpath.notAlways (Or.inl htemp)
  · exact hpath.notAlways (Or.inr hdevice)

namespace PodmanMechanism

theorem argvSpares_of_readOnly {binary : Option PathBuf} {h : MechHost} {req : CreateRequest}
    {name : String} {detach : Bool} {args : List String} {base q : Location}
    (hargs : buildRunArgs { binary } h req name detach = .ok args ∨
      buildAllowlistArgs { binary } h req name detach = .ok args)
    (hdir : isUtf8 req.workdir = true)
    (hcanonical : isUtf8 ((h.canonicalize req.workdir).getD req.workdir) = true)
    (hpath : ReadOnlyPath req.policy.filesystem base req.workdir q)
    (hout : OutsideWorkdir req.policy.filesystem base
      ((h.canonicalize req.workdir).getD req.workdir) q) :
    ArgvSpares base args q := by
  obtain ⟨line, hline, hvolumes⟩ := volumes_of_argv hargs
  refine ⟨line, hline, fun token htoken src hsrc hq => ?_⟩
  rw [hvolumes, workdirMounts_eq, extraMounts_eq, ← List.map_append] at htoken
  obtain ⟨b, hb, rfl⟩ := List.mem_map.mp htoken
  obtain ⟨rfl, hwritable⟩ := BindMount.of_writableSource hsrc
  rcases List.mem_append.mp hb with hb | hb
  · rw [workspaceMounts] at hb
    split at hb
    · rename_i hflag
      obtain rfl := List.mem_singleton.mp hb
      rw [(osString_display_iff _).mpr hcanonical] at hq
      exact hout hflag hq
    · cases hb
  · obtain ⟨e, he, rfl⟩ := List.mem_map.mp hb
    obtain ⟨hentry, -⟩ := List.mem_filter.mp he
    rcases List.mem_append.mp hentry with hentry | hentry
    · obtain ⟨p, -, rfl⟩ := List.mem_map.mp hentry
      exact absurd hwritable (by simp [entryMount])
    · obtain ⟨p, hp, rfl⟩ := List.mem_map.mp hentry
      have hutf8 : isUtf8 (entryMount req.workdir (p, false)).host = true :=
        isUtf8_resolveHostPath p hdir
      rw [(osString_display_iff _).mpr hutf8] at hq
      exact hpath.readWrite p hp hq

end PodmanMechanism

/-- **Read-only entries stay read-only.**  Under both mechanisms a path at or below a read-only
    entry, in no read-write entry, not always writable and outside the working directory the
    policy grants, cannot be written: the rules of the profile deny it, as long as the paths
    stand in the profile as they are, and no read-write mount of a command line holds it, as
    long as the working directory is a text. -/
theorem readOnly_kept (d : Dialect) (h : MechHost) (req : CreateRequest) (q : Location) :
    ((∀ p ∈ interpolatedPaths req.policy (profileWorkdir h.canonicalize req.workdir),
        quotablePath p = true) →
      ReadOnlyPath req.policy.filesystem [] (profileWorkdir h.canonicalize req.workdir) q →
      OutsideWorkdir req.policy.filesystem [] (profileWorkdir h.canonicalize req.workdir) q →
      SeatbeltDenies d h.canonicalize req.policy req.workdir q) ∧
    ∀ (binary : Option PathBuf) (name : String) (detach : Bool) (args : List String)
      (base : Location),
      (PodmanMechanism.buildRunArgs { binary } h req name detach = .ok args ∨
        PodmanMechanism.buildAllowlistArgs { binary } h req name detach = .ok args) →
      isUtf8 req.workdir = true →
      isUtf8 ((h.canonicalize req.workdir).getD req.workdir) = true →
      ReadOnlyPath req.policy.filesystem base req.workdir q →
      OutsideWorkdir req.policy.filesystem base
        ((h.canonicalize req.workdir).getD req.workdir) q →
      ArgvSpares base args q := by
  constructor
  · intro hquote hpath hout
    exact seatbeltDenies_of_readOnly d hquote hpath hout
  · intro binary name detach args base hargs hdir hcanonical hpath hout
    exact PodmanMechanism.argvSpares_of_readOnly hargs hdir hcanonical hpath hout

/-- A read-only entry, and the working directory `/w`. -/
def guardedRequest (secret : String) : CreateRequest where
  name := "r"
  policy := { filesystem := { readOnly := [secret], readWrite := [] } }
  workdir := osString "/w"
  ephemeral := true
  command := ["true"]
  env := []

/-- A file of `/secret` is protected under both mechanisms. -/
theorem readOnly_kept_secret :
    SeatbeltDenies scheme fullHost.canonicalize (guardedRequest "/secret").policy
        (guardedRequest "/secret").workdir [osString "secret", osString "key"] ∧
    ∃ args, PodmanMechanism.buildRunArgs {} fullHost (guardedRequest "/secret") "r" false =
        .ok args ∧
      ArgvSpares [] args [osString "secret", osString "key"] := by
  have hpath : ReadOnlyPath (guardedRequest "/secret").policy.filesystem [] (osString "/w")
      [osString "secret", osString "key"] :=
    ⟨⟨"/secret", List.mem_cons_self, by decide⟩, by simp [guardedRequest], by decide⟩
  have hout : OutsideWorkdir (guardedRequest "/secret").policy.filesystem [] (osString "/w")
      [osString "secret", osString "key"] := fun _ => by decide
  have hmem : (guardedRequest "/secret").policy.resources.memoryBytes = .ok 2147483648 := by decide
  obtain ⟨args, hargs, -⟩ := PodmanMechanism.decode_buildRunArgs {} fullHost
    (guardedRequest "/secret") "r" false PodmanMechanism.defaultImage_head hmem
  obtain ⟨hmac, hpodman⟩ := readOnly_kept scheme fullHost (guardedRequest "/secret")
    [osString "secret", osString "key"]
  exact ⟨hmac (by decide) hpath hout,
    args, hargs, hpodman none "r" false args [] (Or.inl hargs) (by decide) (by decide) hpath hout⟩

/-- `/w/secret` is read-only and below the working directory: both mechanisms let it be
    written. -/
theorem readOnly_below_workdir :
    (guardedRequest "secret").policy.validate = .ok () ∧
    ReadOnlyPath (guardedRequest "secret").policy.filesystem []
      (profileWorkdir fullHost.canonicalize (guardedRequest "secret").workdir)
      [osString "w", osString "secret"] ∧
    ¬ SeatbeltDenies scheme fullHost.canonicalize (guardedRequest "secret").policy
        (guardedRequest "secret").workdir [osString "w", osString "secret"] ∧
    ∃ args, PodmanMechanism.buildRunArgs {} fullHost (guardedRequest "secret") "r" false =
        .ok args ∧
      ¬ ArgvSpares [] args [osString "w", osString "secret"] := by
  have hmem : (guardedRequest "secret").policy.resources.memoryBytes = .ok 2147483648 := by decide
  obtain ⟨args, hargs, hline⟩ := PodmanMechanism.decode_buildRunArgs {} fullHost
    (guardedRequest "secret") "r" false PodmanMechanism.defaultImage_head hmem
  refine ⟨by decide, ⟨⟨"secret", List.mem_cons_self, by decide⟩, by simp [guardedRequest],
    by decide⟩, ?_, args, hargs, ?_⟩
  · rintro ⟨rules, hrules, hdeny⟩
    rw [readProfile_of_quotablePath scheme (by decide)] at hrules
    obtain rfl := Option.some.inj hrules
    refine hdeny "-data" ((permits_write_iff _ _ _ _).mpr (Or.inl ?_))
    exact (exists_writeGrants_iff _ _ _).mpr
      (Or.inl ((exists_resolveHostPaths_iff _ _ _).mpr (Or.inl ⟨rfl, by decide⟩)))
  · rintro ⟨line, hline', hspares⟩
    rw [hline] at hline'
    obtain rfl := Option.some.inj hline'
    refine hspares "/w:/workspace:rw" ?_ "/w" (by decide) (by decide)
    rw [PodmanMechanism.volumes_requestLine]
    exact List.mem_map.mpr ⟨⟨osString "/w", "/workspace", false⟩, List.mem_append_left _
      List.mem_cons_self, by decide⟩

end SimpleSandbox
