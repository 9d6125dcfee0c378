import SimpleSandbox.PodmanLine
import SimpleSandbox.ReadOnly

/-!
# One policy, two mechanisms

A policy says which files of the host a sandboxed program reads and writes and whether it has a
network.  The mac mechanism says it by the rules of a profile, podman by the mounts and the network
of a command line.  Where the paths can be written down both ways, the rules permit what the mounts
bring in, the paths every profile permits, and the entries that podman leaves out; in the allowlist
mode podman leaves the network open, where the rules permit the local host only.
-/

namespace SimpleSandbox

open RustText OsPath PodmanMechanism

/-! ## What the policy lists -/

/-- A path of an entry, of one that can be written if that is asked for. -/
def Listed (req : CreateRequest) (pick : String × Bool → Prop) (write : Bool) (q : Location) : Prop :=
  ∃ e ∈ req.policy.filesystem.entries, pick e ∧ (write = true → e.2 = false) ∧
    AtOrBeneath (resolve [] (resolveHostPath e.1 req.workdir)) q

/-- A path of the working directory, where the policy grants it. -/
def InWorkdir (req : CreateRequest) (q : Location) : Prop :=
  req.policy.filesystem.workdir = true ∧ AtOrBeneath (resolve [] req.workdir) q

/-- What every profile lets be read. -/
def AlwaysReadable (q : Location) : Prop :=
  q = [] ∨ ∃ p ∈ systemPaths, AtOrBeneath (resolve [] (osString p)) q

theorem listed_or (req : CreateRequest) (pick : String × Bool → Prop) (write : Bool)
    (q : Location) :
    Listed req (fun _ => True) write q ↔
      Listed req pick write q ∨ Listed req (fun e => ¬ pick e) write q := by
  constructor
  · rintro ⟨e, he, -, hwrite, hq⟩
    by_cases hpick : pick e
    · exact Or.inl ⟨e, he, hpick, hwrite, hq⟩
    · exact Or.inr ⟨e, he, hpick, hwrite, hq⟩
  · rintro (⟨e, he, -, hwrite, hq⟩ | ⟨e, he, -, hwrite, hq⟩)
    · exact ⟨e, he, trivial, hwrite, hq⟩
    · exact ⟨e, he, trivial, hwrite, hq⟩

/-! ## The profile -/

theorem exists_writeGrants_listed (req : CreateRequest) (q : Location) :
    (∃ p ∈ writeGrants req.policy req.workdir, AtOrBeneath (resolve [] p) q) ↔
      InWorkdir req q ∨ Listed req (fun _ => True) true q ∨
        ∃ p ∈ tempPaths, AtOrBeneath (resolve [] (osString p)) q := by
  unfold writeGrants InWorkdir Listed FilesystemPolicy.entries
  cases hflag : req.policy.filesystem.workdir <;>
    simp [resolvePath_eq, or_and_right, exists_or]

theorem exists_readGrants_listed (req : CreateRequest) (q : Location) :
    (∃ p ∈ readGrants req.policy req.workdir, AtOrBeneath (resolve [] p) q) ↔
      (∃ p ∈ systemPaths, AtOrBeneath (resolve [] (osString p)) q) ∨
        InWorkdir req q ∨ Listed req (fun _ => True) false q := by
  unfold readGrants InWorkdir Listed FilesystemPolicy.entries
  cases hflag : req.policy.filesystem.workdir <;>
    simp [resolvePath_eq, or_and_right, exists_or]

/-! ## The command line -/

/-- The host path that a `-v` value brings in, and whether it can be written. -/
def mountSource (token : String) : Option (String × Bool) :=
  match mountFields token with
  | [src, _] => some (src, true)
  | [src, _, mode] => some (src, mode != "ro")
  | _ => none

/-- A mount of the command line brings the path in, for writing if that is asked for.  The engine
    runs in the directory `base`. -/
def RunLine.Reaches (line : RunLine) (base : Location) (write : Bool) (q : Location) : Prop :=
  ∃ token ∈ line.volumes, ∃ src writable, mountSource token = some (src, writable) ∧
    (write = true → writable = true) ∧ AtOrBeneath (resolve base (osString src)) q

/-- The path can be written in a profile and in a `-v` value. -/
def WritablePath (p : PathBuf) : Prop := quotablePath p = true ∧ OsChar.char ':' ∉ p

theorem WritablePath.isUtf8 {p : PathBuf} (h : WritablePath p) : isUtf8 p = true :=
  (osString_display_iff p).mp ((quotablePath_iff p).mp h.1).1

theorem mountSource_spec {b : BindMount} (h : b.Decodes) :
    ∃ src, mountSource b.spec = some (src, !b.readOnly) ∧ osString src = b.host := by
  obtain ⟨x, y, z, hsplit, hhost, -, rfl⟩ := h
  refine ⟨x, ?_, hhost⟩
  have hfields : mountFields b.spec = [x, y, b.mode] := hsplit
  rw [mountSource, hfields]
  cases hro : b.readOnly with
  | false => simp [BindMount.mode, hro]
  | true => simp [BindMount.mode, hro]

/-- The volumes and the networks of a creation, in every mode. -/
theorem volumes_createLine (h : MechHost) (req : CreateRequest) (mem : ℕ) :
    (createLine h req mem).volumes = (bindMounts h req).map BindMount.spec := by
  rw [createLine]
  split
  · exact volumes_requestLine {} h (unrestricted req) req.name (!req.ephemeral) mem
  · exact volumes_requestLine {} h req req.name (!req.ephemeral) mem

theorem networks_createLine (h : MechHost) (req : CreateRequest) (mem : ℕ) :
    (createLine h req mem).networks = [] ↔ req.policy.network.mode ≠ .none := by
  rw [createLine]
  cases hmode : req.policy.network.mode <;>
    simp [allowlistLine, requestLine, networks, unrestricted, hmode]

section Mounts

variable {h : MechHost} {req : CreateRequest}

theorem mem_bindMounts (hcanonical : profileWorkdir h.canonicalize req.workdir = req.workdir)
    {b : BindMount} :
    b ∈ bindMounts h req ↔
      (req.policy.filesystem.workdir = true ∧ b = ⟨req.workdir, "/workspace", false⟩) ∨
      ∃ e ∈ req.policy.filesystem.entries, mounted h req.workdir e = true ∧
        b = entryMount req.workdir e := by
  have hworkdir : (h.canonicalize req.workdir).getD req.workdir = req.workdir := hcanonical
  rw [bindMounts, List.mem_append, workspaceMounts, listedMounts, hworkdir, List.mem_map]
  refine or_congr ?_ (exists_congr fun e => ?_)
  · split
    · rename_i hflag
      rw [List.mem_singleton, hflag]
      exact (and_iff_right rfl).symm
    · rename_i hflag
      exact iff_of_false List.not_mem_nil fun hb => hflag hb.1
  · rw [List.mem_filter, and_assoc, @eq_comm _ b]

/-- The host path of a mount stands in the profile as well. -/
theorem host_of_mem_bindMounts
    (hcanonical : profileWorkdir h.canonicalize req.workdir = req.workdir) {b : BindMount}
    (hb : b ∈ bindMounts h req) : b.host ∈ interpolatedPaths req.policy req.workdir := by
  rw [interpolatedPaths, List.append_assoc, List.mem_append]
  rcases (mem_bindMounts hcanonical).mp hb with ⟨hflag, rfl⟩ | ⟨e, he, -, rfl⟩
  · refine Or.inl ?_
    rw [if_pos hflag]
    exact List.mem_singleton_self _
  · refine Or.inr ?_
    rw [← List.map_append]
    refine List.mem_map.mpr ⟨e.1, ?_, rfl⟩
    rcases List.mem_append.mp he with he | he
    · obtain ⟨p, hp, rfl⟩ := List.mem_map.mp he
      exact List.mem_append_left _ hp
    · obtain ⟨p, hp, rfl⟩ := List.mem_map.mp he
      exact List.mem_append_right _ hp

theorem isAbsolute_of_mem_bindMounts
    (hcanonical : profileWorkdir h.canonicalize req.workdir = req.workdir)
    (habsolute : isAbsolute req.workdir = true) {b : BindMount} (hb : b ∈ bindMounts h req) :
    isAbsolute b.host = true := by
  rcases (mem_bindMounts hcanonical).mp hb with ⟨-, rfl⟩ | ⟨e, -, -, rfl⟩
  · exact habsolute
  · change isAbsolute (resolveHostPath e.1 req.workdir) = true
    rw [resolveHostPath]
    split
    · assumption
    · rw [isAbsolute_join, habsolute]
      rfl

/-- **The mounts bring in the working directory and the mounted entries.** -/
theorem reaches_createLine (hcanonical : profileWorkdir h.canonicalize req.workdir = req.workdir)
    (habsolute : isAbsolute req.workdir = true)
    (hpaths : ∀ p ∈ interpolatedPaths req.policy req.workdir, WritablePath p) (mem : ℕ)
    (base : Location) (write : Bool) (q : Location) :
    (createLine h req mem).Reaches base write q ↔
      InWorkdir req q ∨ Listed req (fun e => mounted h req.workdir e = true) write q := by
  have hmounts : (createLine h req mem).Reaches base write q ↔
      ∃ b ∈ bindMounts h req, (write = true → b.readOnly = false) ∧
        AtOrBeneath (resolve [] b.host) q := by
    rw [RunLine.Reaches, volumes_createLine]
    simp only [List.mem_map, exists_exists_and_eq_and]
    refine exists_congr fun b => and_congr_right fun hb => ?_
    have hhost := hpaths _ (host_of_mem_bindMounts hcanonical hb)
    obtain ⟨src, hsource, hsrc⟩ := mountSource_spec
      (BindMount.decodes_of_not_mem hhost.isUtf8 hhost.2 (guest_of_mem_bindMounts hb hhost.2))
    have hresolve : resolve base b.host = resolve [] b.host :=
      resolve_of_isAbsolute (isAbsolute_of_mem_bindMounts hcanonical habsolute hb) base []
    constructor
    · rintro ⟨src', writable, hsame, hwrite, hq⟩
      obtain ⟨rfl, rfl⟩ := Prod.mk.inj (Option.some.inj (hsource.symm.trans hsame))
      rw [hsrc, hresolve] at hq
      exact ⟨fun hw => by simpa using hwrite hw, hq⟩
    · rintro ⟨hwrite, hq⟩
      refine ⟨src, _, hsource, fun hw => by simp [hwrite hw], ?_⟩
      rw [hsrc, hresolve]
      exact hq
  rw [hmounts]
  constructor
  · rintro ⟨b, hb, hwrite, hq⟩
    rcases (mem_bindMounts hcanonical).mp hb with ⟨hflag, rfl⟩ | ⟨e, he, hmounted, rfl⟩
    · exact Or.inl ⟨hflag, hq⟩
    · exact Or.inr ⟨e, he, hmounted, hwrite, hq⟩
  · rintro (⟨hflag, hq⟩ | ⟨e, he, hmounted, hwrite, hq⟩)
    · exact ⟨_, (mem_bindMounts hcanonical).mpr (Or.inl ⟨hflag, rfl⟩), fun _ => rfl, hq⟩
    · exact ⟨_, (mem_bindMounts hcanonical).mpr (Or.inr ⟨e, he, hmounted, rfl⟩), hwrite, hq⟩

end Mounts

/-! ## Against each other -/

/-- The rules of a profile against the command line of the same request. -/
structure GrantsAlike (h : MechHost) (req : CreateRequest) (base : Location) (rules : List Rule)
    (line : RunLine) : Prop where
  writes : ∀ kind q, Permits rules ⟨"file-write" ++ kind, .path q⟩ ↔
    line.Reaches base true q ∨ AlwaysWritable q ∨
      Listed req (fun e => ¬ mounted h req.workdir e = true) true q
  reads : ∀ kind q, kind ≠ "-metadata" → (Permits rules ⟨"file-read" ++ kind, .path q⟩ ↔
    line.Reaches base false q ∨ AlwaysReadable q ∨
      Listed req (fun e => ¬ mounted h req.workdir e = true) false q)
  network : ∀ kind host port, Permits rules ⟨"network" ++ kind, .remote host port⟩ ↔
    line.networks = [] ∧ (req.policy.network.mode = .allowlist → host = .localhost)

/-- **Both mechanisms grant the policy.**  For a creation in an absolute and canonical working
    directory, with paths that can be written in a profile and in a mount: the rules read from the
    profile permit to write and to read what the mounts read from the command line bring in for it,
    what every profile permits, and the entries that podman does not mount; and they permit the
    network where the container has one, in the allowlist mode of the local host only. -/
theorem mechanisms_grant_alike (d : Dialect) (h : MechHost) (req : CreateRequest)
    (args : List String) (hargs : createArgs {} h req = .ok args)
    (hcanonical : profileWorkdir h.canonicalize req.workdir = req.workdir)
    (habsolute : isAbsolute req.workdir = true)
    (hpaths : ∀ p ∈ interpolatedPaths req.policy req.workdir, WritablePath p) (base : Location) :
    ∃ rules line,
      readProfile d (generateSeatbeltProfile h.canonicalize req.policy req.workdir) = some rules ∧
      RunLine.decode allowlistGrammar args = some line ∧ GrantsAlike h req base rules line := by
  obtain ⟨mem, -, hline⟩ := decode_createArgs hargs
  have hread := @readProfile_of_quotablePath d h.canonicalize req.policy req.workdir (by
    rw [hcanonical]
    exact fun p hp => (hpaths p hp).1)
  rw [hcanonical] at hread
  refine ⟨_, _, hread, hline, fun kind q => ?_, fun kind q hkind => ?_, fun kind host port => ?_⟩
  · rw [permits_write_iff, exists_writeGrants_listed,
      reaches_createLine hcanonical habsolute hpaths mem base,
      listed_or req (fun e => mounted h req.workdir e = true), AlwaysWritable, iff_iff_eq]
    ac_rfl
  · rw [permits_read_iff _ _ hkind, exists_readGrants_listed,
      reaches_createLine hcanonical habsolute hpaths mem base,
      listed_or req (fun e => mounted h req.workdir e = true), AlwaysReadable, iff_iff_eq]
    ac_rfl
  · rw [permits_network_iff, networks_createLine]
    cases req.policy.network.mode <;> simp

/-- The file `/secret/key` of a read-only entry can be read and not written, in the container and
    under the profile. -/
theorem mechanisms_grant_alike_secret :
    ∃ args rules line, createArgs {} fullHost (guardedRequest "/secret") = .ok args ∧
      GrantsAlike fullHost (guardedRequest "/secret") [] rules line ∧
      Permits rules ⟨"file-read" ++ "-data", .path [osString "secret", osString "key"]⟩ ∧
      ¬ line.Reaches [] true [osString "secret", osString "key"] := by
  have hmem : (guardedRequest "/secret").policy.resources.memoryBytes = .ok 2147483648 := by decide
  obtain ⟨args, hargs⟩ := exists_createArgs fullHost hmem
  have hpaths : ∀ p ∈ interpolatedPaths (guardedRequest "/secret").policy
      (guardedRequest "/secret").workdir, WritablePath p := by
    unfold WritablePath
    decide
  obtain ⟨rules, line, hread, -, hgrants⟩ := mechanisms_grant_alike scheme fullHost
    (guardedRequest "/secret") args hargs rfl (by decide) hpaths []
  rw [readProfile_of_quotablePath scheme (by decide)] at hread
  obtain rfl := Option.some.inj hread
  refine ⟨args, _, line, hargs, hgrants, ?_, fun hreach => ?_⟩
  · exact (permits_read_iff _ _ (by decide) _).mpr (Or.inr ⟨osString "/secret", by decide, by decide⟩)
  · have hwrite := (permits_write_iff _ _ _ _).mp ((hgrants.writes "-data" _).mpr (Or.inl hreach))
    revert hwrite
    decide

end SimpleSandbox
