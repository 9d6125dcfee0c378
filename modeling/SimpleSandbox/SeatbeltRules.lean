import SimpleSandbox.SeatbeltReader
import SimpleSandbox.RuleList

/-!
# What a profile permits

The rules of a profile are judged in order, the last one that matches decides, and what no
rule allows is denied.  The generated rules permit what `resolve_host_paths` lists, with the
fixed roots every profile has, as far as the paths that `display()` shows are the paths they
stand for: a working directory that is not UTF-8 is shown as another one.
-/

namespace SimpleSandbox

open RustText OsPath SExpr RuleList

/-! ## Judging an access -/

/-- A host as the network filters know it. -/
inductive NetworkHost where
  | localhost
  | other (address : String)
deriving DecidableEq

/-- What an operation is applied to. -/
inductive AccessTarget where
  | path (q : Location)
  | remote (host : NetworkHost) (port : UInt16)
  | localAddress (host : NetworkHost) (port : UInt16)

structure Access where
  operation : String
  target : AccessTarget

/-- An operation name, a family with `*` at its end, or `default` for everything. -/
def operationMatches (pattern operation : String) : Bool :=
  pattern == "default" ||
  if pattern.toList.getLast? = some '*' then
    pattern.toList.dropLast.isPrefixOf operation.toList
  else pattern.toList == operation.toList

/-- `HOST:PORT` with `*` for any. -/
def addressMatches (text : String) (host : NetworkHost) (port : UInt16) : Bool :=
  let hostText := String.ofList (text.toList.takeWhile (· ≠ ':'))
  let portText := String.ofList (text.toList.drop (hostText.length + 1))
  (hostText == "*" || hostText == "localhost" && host == .localhost) &&
    (portText == "*" || portText == decimal port.toNat)

/-- The filter of a rule holds of a target. -/
def filterMatches : Rule → AccessTarget → Bool
  | .list [.atom kind, .str p], .path q =>
    if kind = "subpath" then decide (AtOrBeneath (resolve [] p) q)
    else if kind = "literal" then decide (q = resolve [] p)
    else false
  | .list [.atom side, .atom "ip", .str text], .remote host port =>
    side == "remote" && addressMatches (display text) host port
  | .list [.atom side, .atom "ip", .str text], .localAddress host port =>
    side == "local" && addressMatches (display text) host port
  | _, _ => false

/-- What one rule says to an access: `(ACTION OPERATION FILTER..)`. -/
def verdict (a : Access) : Rule → Option Bool
  | .list (.atom action :: .atom operation :: filters) =>
    if operationMatches operation a.operation &&
        (filters.isEmpty || filters.any fun filter => filterMatches filter a.target) then
      if action = "allow" then some true
      else if action = "deny" then some false
      else none
    else none
  | _ => none

/-- The rules permit an access. -/
def Permits (rules : List Rule) (a : Access) : Prop := lastMatch (verdict a) rules = some true

instance (rules : List Rule) (a : Access) : Decidable (Permits rules a) := by
  unfold Permits
  infer_instance

/-! ## The parts of a profile -/

/-- The paths a profile grants for reading. -/
def readGrants (policy : SandboxPolicy) (workdir : PathBuf) : List PathBuf :=
  systemPaths.map osString ++ (if policy.filesystem.workdir then [workdir] else []) ++
  policy.filesystem.readOnly.map (resolvePath · workdir) ++
  policy.filesystem.readWrite.map (resolvePath · workdir)

/-- The paths a profile grants for writing. -/
def writeGrants (policy : SandboxPolicy) (workdir : PathBuf) : List PathBuf :=
  (if policy.filesystem.workdir then [workdir] else []) ++
  policy.filesystem.readWrite.map (resolvePath · workdir) ++ tempPaths.map osString

/-- The rules between `(deny default)` and those of the network. -/
def grantRules (policy : SandboxPolicy) (workdir : PathBuf) : List Rule :=
  headerRules.drop 2 ++
  systemPaths.map (fun p => readRule (osString p)) ++
  deviceRules ++
  (if policy.filesystem.workdir then [readRule workdir, writeRule workdir] else []) ++
  policy.filesystem.readOnly.map (fun p => readRule (resolvePath p workdir)) ++
  policy.filesystem.readWrite.flatMap (fun p =>
    [readRule (resolvePath p workdir), writeRule (resolvePath p workdir)]) ++
  tempPaths.map (fun p => writeRule (osString p))

theorem intendedRules_eq (policy : SandboxPolicy) (workdir : PathBuf) :
    intendedRules policy workdir =
      headerRules.take 2 ++ grantRules policy workdir ++ networkRules policy.network.mode := by
  have hheader : headerRules = headerRules.take 2 ++ headerRules.drop 2 :=
    (List.take_append_drop 2 headerRules).symm
  rw [intendedRules, grantRules, hheader]
  simp only [List.append_assoc]
  rfl

theorem mem_grantRules {policy : SandboxPolicy} {workdir : PathBuf} {r : Rule} :
    r ∈ grantRules policy workdir ↔
      r ∈ headerRules.drop 2 ∨ r ∈ deviceRules ∨
      (∃ p ∈ readGrants policy workdir, r = readRule p) ∨
      ∃ p ∈ writeGrants policy workdir, r = writeRule p := by
  have hexists : ∀ (l : List PathBuf) (rule : PathBuf → Rule),
      (∃ p ∈ l, r = rule p) ↔ r ∈ l.map rule := by
    intro l rule
    simp only [List.mem_map, eq_comm]
  rw [hexists, hexists, iff_iff_eq]
  cases hw : policy.filesystem.workdir <;>
    simp only [grantRules, readGrants, writeGrants, hw, List.map_append, List.mem_append,
      List.map_map, List.mem_map, List.mem_flatMap, List.mem_cons, List.map_cons, List.map_nil,
      List.not_mem_nil, or_false, Function.comp_apply, Bool.false_eq_true, ↓reduceIte,
      eq_comm (a := r), exists_or, and_or_left, false_or] <;>
    ac_rfl

/-! ## What single rules say -/

@[simp] theorem verdict_pathRule (a : Access) (operation filter : String) (p : PathBuf) :
    verdict a (pathRule operation filter p) =
      if operationMatches operation a.operation &&
          filterMatches (.list [.atom filter, .str p]) a.target then some true
      else none := by
  simp [verdict, pathRule]

@[simp] theorem verdict_call_allow (a : Access) (operation : String) :
    verdict a (call ["allow", operation]) =
      if operationMatches operation a.operation then some true else none := by
  simp [verdict, call]

@[simp] theorem verdict_call_deny (a : Access) (operation : String) :
    verdict a (call ["deny", operation]) =
      if operationMatches operation a.operation then some false else none := by
  simp [verdict, call]

theorem filterMatches_subpath (p : PathBuf) (q : Location) :
    filterMatches (.list [.atom "subpath", .str p]) (.path q) = true ↔
      AtOrBeneath (resolve [] p) q := by
  rw [filterMatches, if_pos rfl, decide_eq_true_iff]

theorem filterMatches_literal (p : PathBuf) (q : Location) :
    filterMatches (.list [.atom "literal", .str p]) (.path q) = true ↔ q = resolve [] p := by
  rw [filterMatches, if_neg (by decide), if_pos rfl, decide_eq_true_iff]

/-- The operations the first rules allow everywhere. -/
def openOperations : List String :=
  ["process*", "sysctl*", "mach*", "ipc*", "signal", "file-read-metadata"]

theorem drop_headerRules :
    headerRules.drop 2 = openOperations.map fun operation => call ["allow", operation] := rfl

/-- No rule between `(deny default)` and the network denies. -/
theorem verdict_grantRules_ne {policy : SandboxPolicy} {workdir : PathBuf} {a : Access} :
    ∀ r ∈ grantRules policy workdir, verdict a r ≠ some false := by
  have hpath : ∀ operation filter p, verdict a (pathRule operation filter p) ≠ some false := by
    intro operation filter p
    rw [verdict_pathRule]
    split <;> simp
  intro r hr
  rcases mem_grantRules.mp hr with hr | hr | ⟨p, -, rfl⟩ | ⟨p, -, rfl⟩
  · rw [drop_headerRules] at hr
    obtain ⟨operation, -, rfl⟩ := List.mem_map.mp hr
    rw [verdict_call_allow]
    split <;> simp
  · simp only [deviceRules, List.mem_cons, List.not_mem_nil, or_false] at hr
    rcases hr with rfl | rfl | rfl | rfl <;> exact hpath _ _ _
  · exact hpath _ _ _
  · exact hpath _ _ _

/-- `(deny default)` matches everything. -/
theorem lastMatch_take_headerRules (a : Access) :
    lastMatch (verdict a) (headerRules.take 2) = some false := by
  have hsplit : headerRules.take 2 = [call ["version", "1"]] ++ [call ["deny", "default"]] := rfl
  have hdefault : operationMatches "default" a.operation = true := rfl
  rw [hsplit, lastMatch_append, lastMatch_singleton, verdict_call_deny, if_pos hdefault]
  rfl

/-- What the network rules say nothing about is permitted by a granting rule. -/
theorem permits_iff_grants {policy : SandboxPolicy} {workdir : PathBuf} {a : Access}
    (hnetwork : ∀ r ∈ networkRules policy.network.mode, verdict a r = none) :
    Permits (intendedRules policy workdir) a ↔
      ∃ r ∈ grantRules policy workdir, verdict a r = some true := by
  rw [Permits, intendedRules_eq, lastMatch_append, lastMatch_append,
    lastMatch_eq_none_iff.mpr hnetwork, lastMatch_take_headerRules, Option.none_or,
    ← lastMatch_eq_true_iff verdict_grantRules_ne]
  cases lastMatch (verdict a) (grantRules policy workdir) <;> simp

/-- What no granting rule matches is for the network rules to say. -/
theorem permits_iff_network {policy : SandboxPolicy} {workdir : PathBuf} {a : Access}
    (hgrants : ∀ r ∈ grantRules policy workdir, verdict a r = none) :
    Permits (intendedRules policy workdir) a ↔
      lastMatch (verdict a) (networkRules policy.network.mode) = some true := by
  rw [Permits, intendedRules_eq, lastMatch_append, lastMatch_append,
    lastMatch_eq_none_iff.mpr hgrants, lastMatch_take_headerRules, Option.none_or]
  cases lastMatch (verdict a) (networkRules policy.network.mode) <;> simp

/-! ## Families of operations -/

theorem operationMatches_append (pattern family kind : String) :
    operationMatches pattern (family ++ kind) =
      (pattern == "default" ||
        if pattern.toList.getLast? = some '*' then
          pattern.toList.dropLast.isPrefixOf (family.toList ++ kind.toList)
        else pattern.toList == family.toList ++ kind.toList) := by
  rw [operationMatches, String.toList_append]

section Families

variable (kind : String)

theorem write_matches_write : operationMatches "file-write*" ("file-write" ++ kind) = true := by
  rw [operationMatches_append]
  rfl

theorem read_matches_read : operationMatches "file-read*" ("file-read" ++ kind) = true := by
  rw [operationMatches_append]
  rfl

theorem network_matches_network : operationMatches "network*" ("network" ++ kind) = true := by
  rw [operationMatches_append]
  rfl

/-- The operations of the profile that are not for writing. -/
theorem not_matches_write : ∀ pattern ∈ openOperations ++
    ["file-read*", "file-ioctl", "network*", "network-bind"],
    operationMatches pattern ("file-write" ++ kind) = false := by
  simp only [openOperations, List.cons_append, List.nil_append, List.forall_mem_cons,
    List.not_mem_nil, false_implies, implies_true, and_true, operationMatches_append]
  exact ⟨rfl, rfl, rfl, rfl, rfl, rfl, rfl, rfl, rfl, rfl⟩

theorem not_matches_read (hkind : kind ≠ "-metadata") : ∀ pattern ∈ openOperations ++
    ["file-write*", "file-ioctl", "network*", "network-bind"],
    operationMatches pattern ("file-read" ++ kind) = false := by
  have hmetadata : ("file-read-metadata".toList == "file-read".toList ++ kind.toList) = false := by
    have hsplit : "file-read-metadata".toList = "file-read".toList ++ "-metadata".toList := by decide
    rw [hsplit, beq_eq_false_iff_ne]
    intro h
    exact hkind (String.ext (List.append_cancel_left h).symm)
  simp only [openOperations, List.cons_append, List.nil_append, List.forall_mem_cons,
    List.not_mem_nil, false_implies, implies_true, and_true, operationMatches_append]
  exact ⟨rfl, rfl, rfl, rfl, rfl, hmetadata, rfl, rfl, rfl, rfl⟩

theorem not_matches_network : ∀ pattern ∈ openOperations ++
    ["file-read*", "file-write*", "file-ioctl"],
    operationMatches pattern ("network" ++ kind) = false := by
  simp only [openOperations, List.cons_append, List.nil_append, List.forall_mem_cons,
    List.not_mem_nil, false_implies, implies_true, and_true, operationMatches_append]
  exact ⟨rfl, rfl, rfl, rfl, rfl, rfl, rfl, rfl, rfl⟩

end Families

/-! ## What the generated rules permit -/

section Grants

variable {policy : SandboxPolicy} {workdir : PathBuf} {a : Access}

theorem verdict_pathRule_eq_true_iff {operation filter : String} {p : PathBuf} :
    verdict a (pathRule operation filter p) = some true ↔
      operationMatches operation a.operation = true ∧
        filterMatches (.list [.atom filter, .str p]) a.target = true := by
  rw [verdict_pathRule, ← Bool.and_eq_true]
  split
  · rename_i h
    exact iff_of_true rfl h
  · rename_i h
    exact iff_of_false (by simp) h

theorem verdict_pathRule_eq_none {operation filter : String} {p : PathBuf}
    (h : operationMatches operation a.operation = false) :
    verdict a (pathRule operation filter p) = none := by
  rw [verdict_pathRule, h]
  rfl

theorem verdict_localRule {operation side : String}
    (h : operationMatches operation a.operation = false) :
    verdict a (localRule operation side) = none := by
  simp [verdict, localRule, h]

/-- The network rules say nothing to the operations of files. -/
theorem verdict_networkRules (a : Access)
    (hnetwork : operationMatches "network*" a.operation = false)
    (hbind : operationMatches "network-bind" a.operation = false) (mode : NetworkMode) :
    ∀ r ∈ networkRules mode, verdict a r = none := by
  intro r hr
  cases mode with
  | none =>
    rw [List.mem_singleton.mp hr, verdict_call_deny, hnetwork]
    rfl
  | allowlist =>
    rcases List.mem_pair.mp hr with rfl | rfl
    · exact verdict_localRule hnetwork
    · exact verdict_localRule hbind
  | unrestricted =>
    rw [List.mem_singleton.mp hr, verdict_call_allow, hnetwork]
    rfl

/-- Apart from the open operations, a device rule or a listed path grants. -/
theorem exists_grantRules_iff (a : Access)
    (hopen : ∀ operation ∈ openOperations, operationMatches operation a.operation = false) :
    (∃ r ∈ grantRules policy workdir, verdict a r = some true) ↔
      (∃ r ∈ deviceRules, verdict a r = some true) ∨
      (∃ p ∈ readGrants policy workdir, verdict a (readRule p) = some true) ∨
      ∃ p ∈ writeGrants policy workdir, verdict a (writeRule p) = some true := by
  constructor
  · rintro ⟨r, hr, hverdict⟩
    rcases mem_grantRules.mp hr with hr | hr | ⟨p, hp, rfl⟩ | ⟨p, hp, rfl⟩
    · rw [drop_headerRules] at hr
      obtain ⟨operation, hoperation, rfl⟩ := List.mem_map.mp hr
      rw [verdict_call_allow, hopen operation hoperation] at hverdict
      cases hverdict
    · exact Or.inl ⟨r, hr, hverdict⟩
    · exact Or.inr (Or.inl ⟨p, hp, hverdict⟩)
    · exact Or.inr (Or.inr ⟨p, hp, hverdict⟩)
  · rintro (⟨r, hr, hverdict⟩ | ⟨p, hp, hverdict⟩ | ⟨p, hp, hverdict⟩)
    · exact ⟨r, mem_grantRules.mpr (Or.inr (Or.inl hr)), hverdict⟩
    · exact ⟨_, mem_grantRules.mpr (Or.inr (Or.inr (Or.inl ⟨p, hp, rfl⟩))), hverdict⟩
    · exact ⟨_, mem_grantRules.mpr (Or.inr (Or.inr (Or.inr ⟨p, hp, rfl⟩))), hverdict⟩

end Grants

/-- Writing is permitted at or below the granted paths and for two devices. -/
theorem permits_write_iff (policy : SandboxPolicy) (workdir : PathBuf) (kind : String)
    (q : Location) :
    Permits (intendedRules policy workdir) ⟨"file-write" ++ kind, .path q⟩ ↔
      (∃ p ∈ writeGrants policy workdir, AtOrBeneath (resolve [] p) q) ∨
      q = [osString "dev", osString "null"] ∨ q = [osString "dev", osString "dtracehelper"] := by
  have hnot := not_matches_write kind
  have hnull : resolve [] (osString "/dev/null") = [osString "dev", osString "null"] := by decide
  have hhelper : resolve [] (osString "/dev/dtracehelper") =
      [osString "dev", osString "dtracehelper"] := by decide
  have hnetwork := hnot "network*" (by decide)
  have hbind := hnot "network-bind" (by decide)
  have hopen : ∀ operation ∈ openOperations,
      operationMatches operation ("file-write" ++ kind) = false :=
    fun operation hop => hnot operation (List.mem_append_left _ hop)
  rw [permits_iff_grants (verdict_networkRules ⟨"file-write" ++ kind, .path q⟩ hnetwork hbind _),
    exists_grantRules_iff ⟨"file-write" ++ kind, .path q⟩ hopen]
  have hread := hnot "file-read*" (by decide)
  have hioctl := hnot "file-ioctl" (by decide)
  simp only [deviceRules, readRule, writeRule, verdict_pathRule_eq_true_iff, hread, hioctl,
    write_matches_write, filterMatches_subpath, filterMatches_literal, hnull, hhelper,
    List.exists_mem_cons_iff, List.not_mem_nil, Bool.false_eq_true, false_and, and_false,
    exists_false, false_or, or_false, true_and]
  exact or_comm

/-- Reading data is permitted at or below the granted paths and for the root itself. -/
theorem permits_read_iff (policy : SandboxPolicy) (workdir : PathBuf) {kind : String}
    (hkind : kind ≠ "-metadata") (q : Location) :
    Permits (intendedRules policy workdir) ⟨"file-read" ++ kind, .path q⟩ ↔
      q = [] ∨ ∃ p ∈ readGrants policy workdir, AtOrBeneath (resolve [] p) q := by
  have hnot := not_matches_read kind hkind
  have hroot : resolve [] (osString "/") = [] := by decide
  have hnetwork := hnot "network*" (by decide)
  have hbind := hnot "network-bind" (by decide)
  have hopen : ∀ operation ∈ openOperations,
      operationMatches operation ("file-read" ++ kind) = false :=
    fun operation hop => hnot operation (List.mem_append_left _ hop)
  rw [permits_iff_grants (verdict_networkRules ⟨"file-read" ++ kind, .path q⟩ hnetwork hbind _),
    exists_grantRules_iff ⟨"file-read" ++ kind, .path q⟩ hopen]
  have hwrite := hnot "file-write*" (by decide)
  have hioctl := hnot "file-ioctl" (by decide)
  simp only [deviceRules, readRule, writeRule, verdict_pathRule_eq_true_iff, hwrite, hioctl,
    read_matches_read, filterMatches_subpath, filterMatches_literal, hroot,
    List.exists_mem_cons_iff, List.not_mem_nil, Bool.false_eq_true, false_and, and_false,
    exists_false, or_false, true_and]

theorem addressMatches_localhost (host : NetworkHost) (port : UInt16) :
    addressMatches "localhost:*" host port = (host == .localhost) := by
  have hhost : String.ofList ("localhost:*".toList.takeWhile (· ≠ ':')) = "localhost" := by decide
  have hport : String.ofList ("localhost:*".toList.drop ("localhost".length + 1)) = "*" := by decide
  simp only [addressMatches, hhost, hport]
  simp

/-- The network is permitted as the mode says. -/
theorem permits_network_iff (policy : SandboxPolicy) (workdir : PathBuf) (kind : String)
    (host : NetworkHost) (port : UInt16) :
    Permits (intendedRules policy workdir) ⟨"network" ++ kind, .remote host port⟩ ↔
      policy.network.mode = .unrestricted ∨
      (policy.network.mode = .allowlist ∧ host = .localhost) := by
  have hnot := not_matches_network kind
  have hread := hnot "file-read*" (by decide)
  have hwrite := hnot "file-write*" (by decide)
  have hioctl := hnot "file-ioctl" (by decide)
  have hnetwork := network_matches_network kind
  have hgrants : ∀ r ∈ grantRules policy workdir,
      verdict ⟨"network" ++ kind, .remote host port⟩ r = none := by
    intro r hr
    rcases mem_grantRules.mp hr with hr | hr | ⟨p, -, rfl⟩ | ⟨p, -, rfl⟩
    · rw [drop_headerRules] at hr
      obtain ⟨operation, hoperation, rfl⟩ := List.mem_map.mp hr
      rw [verdict_call_allow, hnot operation (List.mem_append_left _ hoperation)]
      rfl
    · simp only [deviceRules, List.mem_cons, List.not_mem_nil, or_false] at hr
      rcases hr with rfl | rfl | rfl | rfl
      · exact verdict_pathRule_eq_none hread
      · exact verdict_pathRule_eq_none hioctl
      · exact verdict_pathRule_eq_none hwrite
      · exact verdict_pathRule_eq_none hwrite
    · exact verdict_pathRule_eq_none hread
    · exact verdict_pathRule_eq_none hwrite
  rw [permits_iff_network hgrants]
  cases policy.network.mode with
  | none => simp [networkRules, hnetwork]
  | allowlist =>
    have hremote : verdict ⟨"network" ++ kind, .remote host port⟩ (localRule "network*" "remote") =
        if host = .localhost then some true else none := by
      simp [verdict, localRule, hnetwork, filterMatches, addressMatches_localhost]
    have hlocal : verdict ⟨"network" ++ kind, .remote host port⟩
        (localRule "network-bind" "local") = none := by
      simp [verdict, localRule, filterMatches]
    have hsplit : networkRules .allowlist =
        [localRule "network*" "remote"] ++ [localRule "network-bind" "local"] := rfl
    rw [hsplit, lastMatch_append, lastMatch_singleton, lastMatch_singleton, hremote, hlocal]
    simp
  | unrestricted => simp [networkRules, hnetwork]

/-! ## Against the resolved paths -/

theorem resolve_congr {p q : PathBuf} (h : components p = components q) (base : Location) :
    resolve base p = resolve base q := by
  rw [resolve, resolve, h]

/-- `resolve_host_paths` leaves the working directory out only where it lists it already. -/
theorem exists_resolveHostPaths_iff (fs : FilesystemPolicy) (workdir : PathBuf) (q : Location) :
    (∃ p ∈ (resolveHostPaths fs workdir).2, AtOrBeneath (resolve [] p) q) ↔
      (fs.workdir = true ∧ AtOrBeneath (resolve [] workdir) q) ∨
      ∃ p ∈ fs.readWrite, AtOrBeneath (resolve [] (resolveHostPath p workdir)) q := by
  have hmap : (∃ p ∈ fs.readWrite.map (resolveHostPath · workdir), AtOrBeneath (resolve [] p) q) ↔
      ∃ p ∈ fs.readWrite, AtOrBeneath (resolve [] (resolveHostPath p workdir)) q := by
    simp only [List.mem_map, exists_exists_and_eq_and]
  rw [← hmap, resolveHostPaths]
  cases hflag : fs.workdir with
  | false => simp
  | true =>
    by_cases hlisted : (fs.readWrite.map (resolveHostPath · workdir)).any
        (fun p => components p == components workdir) = true
    · obtain ⟨p, hp, hsame⟩ := List.any_eq_true.mp hlisted
      have hloc : resolve [] p = resolve [] workdir := resolve_congr (beq_iff_eq.mp hsame) []
      rw [if_pos rfl, if_pos hlisted]
      constructor
      · exact Or.inr
      · rintro (⟨-, hq⟩ | h)
        · exact ⟨p, hp, hloc ▸ hq⟩
        · exact h
    · rw [if_pos rfl, if_neg hlisted]
      simp only [List.mem_append, List.mem_singleton, true_and]
      constructor
      · rintro ⟨p, hp | rfl, hq⟩
        · exact Or.inr ⟨p, hp, hq⟩
        · exact Or.inl hq
      · rintro (hq | ⟨p, hp, hq⟩)
        · exact ⟨workdir, Or.inr rfl, hq⟩
        · exact ⟨p, Or.inl hp, hq⟩

theorem resolveHostPaths_fst (fs : FilesystemPolicy) (workdir : PathBuf) :
    (resolveHostPaths fs workdir).1 = fs.readOnly.map (resolveHostPath · workdir) := by
  rw [resolveHostPaths]
  split
  · split <;> rfl
  · rfl

theorem exists_writeGrants_iff (policy : SandboxPolicy) (workdir : PathBuf) (q : Location) :
    (∃ p ∈ writeGrants policy workdir, AtOrBeneath (resolve [] p) q) ↔
      (∃ p ∈ (resolveHostPaths policy.filesystem workdir).2, AtOrBeneath (resolve [] p) q) ∨
      ∃ p ∈ tempPaths, AtOrBeneath (resolve [] (osString p)) q := by
  rw [exists_resolveHostPaths_iff]
  cases hflag : policy.filesystem.workdir <;>
    simp only [writeGrants, resolvePath_eq, hflag, Bool.false_eq_true, ↓reduceIte, List.mem_append,
      List.mem_map, List.mem_singleton, List.not_mem_nil, or_and_right, exists_or, exists_exists_and_eq_and,
      exists_eq_left, false_and, false_or, true_and]

theorem exists_readGrants_iff (policy : SandboxPolicy) (workdir : PathBuf) (q : Location) :
    (∃ p ∈ readGrants policy workdir, AtOrBeneath (resolve [] p) q) ↔
      (∃ p ∈ (resolveHostPaths policy.filesystem workdir).1, AtOrBeneath (resolve [] p) q) ∨
      (∃ p ∈ (resolveHostPaths policy.filesystem workdir).2, AtOrBeneath (resolve [] p) q) ∨
      ∃ p ∈ systemPaths, AtOrBeneath (resolve [] (osString p)) q := by
  rw [exists_resolveHostPaths_iff, resolveHostPaths_fst, iff_iff_eq]
  cases hflag : policy.filesystem.workdir <;>
    simp only [readGrants, resolvePath_eq, hflag, Bool.false_eq_true, ↓reduceIte, List.mem_append,
      List.mem_map, List.mem_singleton, List.not_mem_nil, or_and_right, exists_or, exists_exists_and_eq_and,
      exists_eq_left, false_and, false_or, or_false, true_and] <;>
    ac_rfl

/-! ## Texts without quotes -/

/-- A text that can stand between double quotes as it is. -/
def PlainText (s : String) : Prop := '"' ∉ s.toList ∧ '\\' ∉ s.toList

instance (s : String) : Decidable (PlainText s) := by
  unfold PlainText
  infer_instance

theorem quotablePath_osString {s : String} (h : PlainText s) : quotablePath (osString s) = true := by
  rw [quotablePath, osString, List.all_map, List.all_eq_true]
  intro c hc
  have hquote : c ≠ '"' := fun e => h.1 (e ▸ hc)
  have hslash : c ≠ '\\' := fun e => h.2 (e ▸ hc)
  simp [hquote, hslash]

theorem quotablePath_append {p q : PathBuf} :
    quotablePath (p ++ q) = (quotablePath p && quotablePath q) := List.all_append

theorem quotablePath_join {p q : PathBuf} (hp : quotablePath p = true) (hq : quotablePath q = true) :
    quotablePath (join p q) = true := by
  have hsep : quotablePath [sep] = true := by decide
  unfold join
  split
  · exact hq
  · split
    · rw [quotablePath_append, hp, hq]
      rfl
    · rw [← List.singleton_append, quotablePath_append, quotablePath_append, hp, hq, hsep]
      rfl

theorem quotablePath_resolvePath {s : String} {workdir : PathBuf} (hs : PlainText s)
    (hdir : quotablePath workdir = true) : quotablePath (resolvePath s workdir) = true := by
  rw [resolvePath]
  split
  · exact quotablePath_osString hs
  · exact quotablePath_join hdir (quotablePath_osString hs)

/-- Plain texts are read as the paths they are. -/
theorem readProfile_of_plainText (d : Dialect) {canonicalize : PathBuf → Option PathBuf}
    {policy : SandboxPolicy} {workdir : PathBuf}
    (hdir : quotablePath (profileWorkdir canonicalize workdir) = true)
    (hentries : ∀ s ∈ policy.filesystem.readOnly ++ policy.filesystem.readWrite, PlainText s) :
    readProfile d (generateSeatbeltProfile canonicalize policy workdir) =
      some (intendedRules policy (profileWorkdir canonicalize workdir)) := by
  apply readProfile_of_quotablePath
  intro p hp
  simp only [interpolatedPaths, List.mem_append, List.mem_map] at hp
  rcases hp with (hp | ⟨s, hs, rfl⟩) | ⟨s, hs, rfl⟩
  · split at hp
    · rw [List.mem_singleton.mp hp]
      exact hdir
    · cases hp
  · exact quotablePath_resolvePath (hentries s (List.mem_append_left _ hs)) hdir
  · exact quotablePath_resolvePath (hentries s (List.mem_append_right _ hs)) hdir

/-! ## Against the policy -/

/-- The rules grant what `resolve_host_paths` lists, with the fixed roots and devices that every
    profile has, and the network as the mode says. -/
structure GrantsPolicy (policy : SandboxPolicy) (workdir : PathBuf) (rules : List Rule) : Prop where
  write : ∀ kind q, Permits rules ⟨"file-write" ++ kind, .path q⟩ ↔
    ((∃ p ∈ (resolveHostPaths policy.filesystem workdir).2, AtOrBeneath (resolve [] p) q) ∨
      ∃ p ∈ ["/tmp", "/private/tmp", "/var/folders", "/private/var/folders"],
        AtOrBeneath (resolve [] (osString p)) q) ∨
    q = [osString "dev", osString "null"] ∨ q = [osString "dev", osString "dtracehelper"]
  read : ∀ kind q, kind ≠ "-metadata" → (Permits rules ⟨"file-read" ++ kind, .path q⟩ ↔
    q = [] ∨
    (∃ p ∈ (resolveHostPaths policy.filesystem workdir).1, AtOrBeneath (resolve [] p) q) ∨
    (∃ p ∈ (resolveHostPaths policy.filesystem workdir).2, AtOrBeneath (resolve [] p) q) ∨
    ∃ p ∈ systemPaths, AtOrBeneath (resolve [] (osString p)) q)
  network : ∀ kind host port, Permits rules ⟨"network" ++ kind, .remote host port⟩ ↔
    policy.network.mode = .unrestricted ∨
    (policy.network.mode = .allowlist ∧ host = .localhost)

/-- Each path of the second list is at or below one of the first. -/
def Covers (ps qs : List PathBuf) : Prop :=
  ∀ q ∈ qs, ∃ p ∈ ps, AtOrBeneath (resolve [] p) (resolve [] q)

/-- What is resolved against the working directory and what is resolved against the directory
    that `display()` shows in its place cover each other. -/
structure ShownAlike (policy : SandboxPolicy) (workdir : PathBuf) : Prop where
  write : Covers (writeGrants policy (lossy workdir)) (writeGrants policy workdir)
  noMoreWrite : Covers (writeGrants policy workdir) (writeGrants policy (lossy workdir))
  read : Covers (readGrants policy (lossy workdir)) (readGrants policy workdir)
  noMoreRead : Covers (readGrants policy workdir) (readGrants policy (lossy workdir))

theorem covers_self (ps : List PathBuf) : Covers ps ps :=
  fun p hp => ⟨p, hp, List.prefix_rfl⟩

/-- A directory that is UTF-8 is shown as it is. -/
theorem shownAlike_of_isUtf8 {policy : SandboxPolicy} {workdir : PathBuf}
    (h : isUtf8 workdir = true) : ShownAlike policy workdir := by
  have hshown : lossy workdir = workdir := (osString_display_iff workdir).mpr h
  constructor <;> rw [hshown] <;> exact covers_self _

theorem resolvePath_lossy (s : String) (workdir : PathBuf) :
    resolvePath s (lossy workdir) = lossy (resolvePath s workdir) := by
  by_cases habs : isAbsolute (osString s) = true
  · rw [resolvePath, resolvePath, if_pos habs, if_pos habs, lossy_osString]
  · rw [resolvePath, resolvePath, if_neg habs, if_neg habs, lossy_join, lossy_osString]

theorem writeGrants_lossy (policy : SandboxPolicy) (workdir : PathBuf) :
    writeGrants policy (lossy workdir) = (writeGrants policy workdir).map lossy := by
  cases hflag : policy.filesystem.workdir <;>
    simp [writeGrants, hflag, resolvePath_lossy, Function.comp_def]

theorem readGrants_lossy (policy : SandboxPolicy) (workdir : PathBuf) :
    readGrants policy (lossy workdir) = (readGrants policy workdir).map lossy := by
  cases hflag : policy.filesystem.workdir <;>
    simp [readGrants, hflag, resolvePath_lossy, Function.comp_def]

theorem display_lossy (p : PathBuf) : display (lossy p) = display p := display_osString _

/-- The profile is that of the directory as it is shown. -/
theorem seatbeltLines_lossy (policy : SandboxPolicy) (workdir : PathBuf) :
    seatbeltLines policy (lossy workdir) = seatbeltLines policy workdir := by
  simp only [seatbeltLines, resolvePath_lossy, display_lossy]

theorem readProfile_of_shown (d : Dialect) {canonicalize : PathBuf → Option PathBuf}
    {policy : SandboxPolicy} {workdir : PathBuf}
    (hcanonical : profileWorkdir canonicalize workdir = workdir) (hdir : PlainText (display workdir))
    (hentries : ∀ s ∈ policy.filesystem.readOnly ++ policy.filesystem.readWrite, PlainText s) :
    readProfile d (generateSeatbeltProfile canonicalize policy workdir) =
      some (intendedRules policy (lossy workdir)) := by
  have hsame : generateSeatbeltProfile canonicalize policy workdir =
      generateSeatbeltProfile some policy (lossy workdir) := by
    unfold generateSeatbeltProfile
    rw [hcanonical]
    exact congrArg (fun lines => String.intercalate "\n" lines ++ "\n")
      (seatbeltLines_lossy policy workdir).symm
  rw [hsame]
  exact readProfile_of_plainText d (quotablePath_osString hdir) hentries

/-- Names without a replacement character are shown for themselves only. -/
theorem eq_of_map_lossy_eq {q : Location} {names : List String}
    (hnames : ∀ s ∈ names, '\uFFFD' ∉ s.toList) (h : q.map lossy = names.map osString) :
    q = names.map osString := by
  induction names generalizing q with
  | nil => exact List.map_eq_nil_iff.mp h
  | cons s names ih =>
    cases q with
    | nil => cases h
    | cons x q =>
      obtain ⟨hx, hq⟩ := List.cons_eq_cons.mp h
      rw [List.map_cons, eq_of_lossy_eq (hnames s List.mem_cons_self) hx,
        ih (fun t ht => hnames t (List.mem_cons_of_mem _ ht)) hq]

theorem map_lossy_osString (names : List String) :
    (names.map osString).map lossy = names.map osString := by
  rw [List.map_map]
  exact List.map_congr_left fun s _ => lossy_osString s

/-- Paths and the paths shown in their place grant the same exactly if they cover each other,
    when besides only places are granted that are shown for themselves only. -/
theorem covers_iff (ps : List PathBuf) {besides : Location → Prop}
    (hbesides : ∀ q, besides q → ∃ names : List String, q = names.map osString ∧
      ∀ s ∈ names, '\uFFFD' ∉ s.toList) :
    (∀ q, ((∃ p ∈ ps.map lossy, AtOrBeneath (resolve [] p) q) ∨ besides q) ↔
      ((∃ p ∈ ps, AtOrBeneath (resolve [] p) q) ∨ besides q)) ↔
    Covers (ps.map lossy) ps ∧ Covers ps (ps.map lossy) := by
  constructor
  · intro h
    constructor
    · intro p hp
      rcases (h (resolve [] p)).mpr (Or.inl ⟨p, hp, List.prefix_rfl⟩) with hcovered | hbeside
      · exact hcovered
      · obtain ⟨names, hat, -⟩ := hbesides _ hbeside
        refine ⟨lossy p, List.mem_map_of_mem hp, ?_⟩
        rw [resolve_lossy, hat, map_lossy_osString]
        exact List.prefix_rfl
    · intro shown hshown
      obtain ⟨p, hp, rfl⟩ := List.mem_map.mp hshown
      rcases (h (resolve [] (lossy p))).mp (Or.inl ⟨lossy p, hshown, List.prefix_rfl⟩) with
        hcovered | hbeside
      · exact hcovered
      · obtain ⟨names, hat, hnames⟩ := hbesides _ hbeside
        rw [resolve_lossy] at hat ⊢
        refine ⟨p, hp, ?_⟩
        rw [hat, eq_of_map_lossy_eq hnames hat]
        exact List.prefix_rfl
  · rintro ⟨hshown, hmeant⟩ q
    constructor
    · rintro (⟨p, hp, hq⟩ | hbeside)
      · obtain ⟨p', hp', hle⟩ := hmeant p hp
        exact Or.inl ⟨p', hp', hle.trans hq⟩
      · exact Or.inr hbeside
    · rintro (⟨p, hp, hq⟩ | hbeside)
      · obtain ⟨p', hp', hle⟩ := hshown p hp
        exact Or.inl ⟨p', hp', hle.trans hq⟩
      · exact Or.inr hbeside

/-- **The profile grants the policy** exactly if the working directory is shown alike: for a
    canonical working directory and entries whose texts need no escaping, the rules that are read
    permit writing at or below the resolved read-write paths and the temp roots and to two devices,
    reading data at or below the resolved paths and the system roots and of the root itself, and
    the network as the mode says, if and only if what `display()` shows in place of the working
    directory makes no difference. -/
theorem seatbelt_grants_iff (d : Dialect) (canonicalize : PathBuf → Option PathBuf)
    (policy : SandboxPolicy) (workdir : PathBuf)
    (hcanonical : profileWorkdir canonicalize workdir = workdir) (hdir : PlainText (display workdir))
    (hentries : ∀ s ∈ policy.filesystem.readOnly ++ policy.filesystem.readWrite, PlainText s) :
    (∃ rules, readProfile d (generateSeatbeltProfile canonicalize policy workdir) = some rules ∧
      GrantsPolicy policy workdir rules) ↔ ShownAlike policy workdir := by
  rw [readProfile_of_shown d hcanonical hdir hentries]
  have hwrite (q : Location) := exists_writeGrants_iff policy workdir q
  have hread (q : Location) := exists_readGrants_iff policy workdir q
  have hdevices : ∀ q : Location,
      q = [osString "dev", osString "null"] ∨ q = [osString "dev", osString "dtracehelper"] →
      ∃ names : List String, q = names.map osString ∧ ∀ s ∈ names, '\uFFFD' ∉ s.toList := by
    rintro q (rfl | rfl)
    · exact ⟨["dev", "null"], rfl, by decide⟩
    · exact ⟨["dev", "dtracehelper"], rfl, by decide⟩
  have hroot : ∀ q : Location, q = [] →
      ∃ names : List String, q = names.map osString ∧ ∀ s ∈ names, '\uFFFD' ∉ s.toList := by
    rintro q rfl
    exact ⟨[], rfl, by decide⟩
  have hwrites := covers_iff (writeGrants policy workdir) hdevices
  have hreads := covers_iff (readGrants policy workdir) hroot
  rw [← writeGrants_lossy] at hwrites
  rw [← readGrants_lossy] at hreads
  constructor
  · rintro ⟨rules, hrules, hgrants⟩
    obtain rfl := Option.some.inj hrules
    obtain ⟨hshown, hmeant⟩ := hwrites.mp fun q => by
      rw [← permits_write_iff policy (lossy workdir) "", hgrants.write, hwrite]
      rfl
    obtain ⟨hshown', hmeant'⟩ := hreads.mp fun q => by
      rw [or_comm, ← @permits_read_iff policy (lossy workdir) "" (by decide),
        hgrants.read _ _ (by decide), hread, or_comm]
    exact ⟨hshown, hmeant, hshown', hmeant'⟩
  · intro h
    refine ⟨_, rfl, fun kind q => ?_, fun kind q hkind => ?_, fun kind host port => ?_⟩
    · rw [permits_write_iff, hwrites.mpr ⟨h.write, h.noMoreWrite⟩ q, hwrite]
      rfl
    · rw [permits_read_iff policy _ hkind, or_comm, hreads.mpr ⟨h.read, h.noMoreRead⟩ q, hread,
        or_comm]
    · exact permits_network_iff policy _ kind host port

/-- A policy with a read-only and a read-write entry. -/
def sharedPolicy : SandboxPolicy :=
  { filesystem := { readOnly := ["/etc", "docs"], readWrite := ["/data/out"] } }

theorem seatbelt_grants_shared :
    ∃ rules, readProfile scheme (generateSeatbeltProfile some sharedPolicy (osString "/w")) =
        some rules ∧
      Permits rules ⟨"file-write" ++ "-data", .path [osString "data", osString "out"]⟩ ∧
      Permits rules ⟨"file-read" ++ "-data", .path [osString "etc", osString "hosts"]⟩ ∧
      ¬ Permits rules ⟨"file-write" ++ "-data", .path [osString "etc", osString "hosts"]⟩ := by
  obtain ⟨rules, hread, hgrants⟩ :=
    (seatbelt_grants_iff scheme some sharedPolicy (osString "/w") rfl (by decide) (by decide)).mpr
      (shownAlike_of_isUtf8 rfl)
  refine ⟨rules, hread, (hgrants.write _ _).mpr (by decide), ?_, fun h => ?_⟩
  · exact (hgrants.read _ _ (by decide)).mpr (by decide)
  · exact absurd ((hgrants.write _ _).mp h) (by decide)

/-- A canonical working directory that is not UTF-8. -/
def illFormedDir : PathBuf := sep :: [.invalid [0xff]]

/-- Of such a directory nothing can be written, though the default policy lists it. -/
theorem ill_formed_workdir_not_granted :
    ¬ ∀ (d : Dialect) (canonicalize : PathBuf → Option PathBuf) (policy : SandboxPolicy)
        (workdir : PathBuf), profileWorkdir canonicalize workdir = workdir →
      PlainText (display workdir) →
      (∀ s ∈ policy.filesystem.readOnly ++ policy.filesystem.readWrite, PlainText s) →
      ∃ rules, readProfile d (generateSeatbeltProfile canonicalize policy workdir) = some rules ∧
        GrantsPolicy policy workdir rules := by
  intro hall
  obtain ⟨rules, hrules, hgrants⟩ := hall scheme some {} illFormedDir rfl (by decide) (by decide)
  rw [readProfile_of_shown scheme rfl (by decide) (by decide)] at hrules
  obtain rfl := Option.some.inj hrules
  have hpermits := (hgrants.write "-data" (resolve [] illFormedDir)).mpr (by decide)
  revert hpermits
  decide

end SimpleSandbox
