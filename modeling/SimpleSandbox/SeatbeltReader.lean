import SimpleSandbox.Seatbelt
import SimpleSandbox.SExpr

/-!
# What a reader makes of a profile

The profile text is meant to be a fixed sequence of rules with one path literal in each
path rule.  This module states the rules as expressions, reads the generated text back and
shows for which paths the reading gives the intended rules.
-/

namespace SimpleSandbox

open RustText OsPath SExpr

/-! ## The intended rules -/

/-- A rule whose path literals stand for paths. -/
abbrev Rule := SExpr PathBuf

def call (names : List String) : Rule := .list (names.map .atom)

def pathRule (operation filter : String) (path : PathBuf) : Rule :=
  .list [.atom "allow", .atom operation, .list [.atom filter, .str path]]

def readRule (path : PathBuf) : Rule := pathRule "file-read*" "subpath" path

def writeRule (path : PathBuf) : Rule := pathRule "file-write*" "subpath" path

def headerRules : List Rule :=
  [call ["version", "1"], call ["deny", "default"], call ["allow", "process*"],
   call ["allow", "sysctl*"], call ["allow", "mach*"], call ["allow", "ipc*"],
   call ["allow", "signal"], call ["allow", "file-read-metadata"]]

def deviceRules : List Rule :=
  [pathRule "file-read*" "literal" (osString "/"),
   pathRule "file-ioctl" "literal" (osString "/dev/null"),
   pathRule "file-write*" "literal" (osString "/dev/null"),
   pathRule "file-write*" "literal" (osString "/dev/dtracehelper")]

/-- `(allow OPERATION (SIDE ip "localhost:*"))` -/
def localRule (operation side : String) : Rule :=
  .list [.atom "allow", .atom operation,
    .list [.atom side, .atom "ip", .str (osString "localhost:*")]]

def networkRules : NetworkMode → List Rule
  | .none => [call ["deny", "network*"]]
  | .allowlist => [localRule "network*" "remote", localRule "network-bind" "local"]
  | .unrestricted => [call ["allow", "network*"]]

/-- The rules a policy stands for, in order. -/
def intendedRules (policy : SandboxPolicy) (workdir : PathBuf) : List Rule :=
  let fsPolicy := policy.filesystem
  headerRules ++
  systemPaths.map (fun p => readRule (osString p)) ++
  deviceRules ++
  (if fsPolicy.workdir then [readRule workdir, writeRule workdir] else []) ++
  fsPolicy.readOnly.map (fun p => readRule (resolvePath p workdir)) ++
  fsPolicy.readWrite.flatMap (fun p =>
    [readRule (resolvePath p workdir), writeRule (resolvePath p workdir)]) ++
  tempPaths.map (fun p => writeRule (osString p)) ++
  networkRules policy.network.mode

/-- The rules a text is read as, path literals as paths. -/
def readProfile (d : Dialect) (text : String) : Option (List Rule) :=
  (SExpr.read d text).map (mapOf osString)

/-! ## The text as printed rules -/

/-- The rules with their paths as the text shows them. -/
def displayedRules (policy : SandboxPolicy) (workdir : PathBuf) : List (SExpr String) :=
  mapOf display (intendedRules policy workdir)

def ruleLine (rule : Rule) : String := String.ofList (render (toks (map display rule)))

theorem ruleLine_pathRule {operation filter : String} (path : PathBuf) :
    ruleLine (pathRule operation filter path) = pathLine operation filter (display path) := by
  apply String.ext
  simp [ruleLine, pathRule, pathLine, map, mapOf, toks, toksOf, render, gap, tokenText]

/-- The line of each rule is its printed form. -/
theorem seatbeltLines_eq (policy : SandboxPolicy) (workdir : PathBuf) :
    seatbeltLines policy workdir = (intendedRules policy workdir).map ruleLine := by
  have hread : ∀ p, ruleLine (readRule p) = readLine (display p) := fun p => ruleLine_pathRule p
  have hwrite : ∀ p, ruleLine (writeRule p) = writeLine (display p) := fun p => ruleLine_pathRule p
  have hheader : headerRules.map ruleLine = headerLines := by decide
  have hdevice : deviceRules.map ruleLine = deviceLines := by
    simp [deviceRules, deviceLines, ruleLine_pathRule]
  have hnetwork : ∀ mode, (networkRules mode).map ruleLine = networkLines mode := by
    intro mode
    cases mode <;> decide
  simp only [seatbeltLines, intendedRules, List.map_append, List.map_map, Function.comp_def,
    hheader, hdevice, hnetwork, List.map_flatMap, List.map_cons, List.map_nil, hread, hwrite]
  cases policy.filesystem.workdir <;> simp [hread, hwrite]

theorem intercalate_newline {lines : List String} (h : lines ≠ []) :
    (String.intercalate "\n" lines ++ "\n").toList = lines.flatMap fun l => l.toList ++ ['\n'] := by
  induction lines with
  | nil => exact absurd rfl h
  | cons l lines ih =>
    by_cases hnil : lines = []
    · subst hnil
      simp
    · rw [String.intercalate_cons_of_ne_nil hnil, String.append_assoc, String.toList_append,
        ih hnil]
      simp

theorem generateSeatbeltProfile_eq (canonicalize : PathBuf → Option PathBuf)
    (policy : SandboxPolicy) (workdir : PathBuf) :
    generateSeatbeltProfile canonicalize policy workdir =
      String.ofList (renderLines
        (displayedRules policy (profileWorkdir canonicalize workdir))) := by
  apply String.ext
  have hne : seatbeltLines policy (profileWorkdir canonicalize workdir) ≠ [] := by
    simp [seatbeltLines, headerLines]
  rw [generateSeatbeltProfile, intercalate_newline hne, seatbeltLines_eq, displayedRules,
    mapOf_eq_map, renderLines, String.toList_ofList, List.flatMap_map, List.flatMap_map]
  simp [ruleLine]

/-! ## Paths that survive -/

/-- The path holds no quote, no backslash and nothing that is not a character. -/
def quotablePath (p : PathBuf) : Bool :=
  p.all fun
    | .char c => c != '"' && c != '\\'
    | .invalid _ => false

/-- The paths that are put into the text. -/
def interpolatedPaths (policy : SandboxPolicy) (workdir : PathBuf) : List PathBuf :=
  (if policy.filesystem.workdir then [workdir] else []) ++
  policy.filesystem.readOnly.map (resolvePath · workdir) ++
  policy.filesystem.readWrite.map (resolvePath · workdir)

theorem quotablePath_iff (p : PathBuf) :
    quotablePath p = true ↔ osString (display p) = p ∧ Quotable (display p).toList := by
  induction p with
  | nil => simp [quotablePath, Quotable, osString, display]
  | cons c p ih =>
    have hcons : quotablePath (c :: p) = true ↔
        (∃ ch, c = .char ch ∧ ch ≠ '"' ∧ ch ≠ '\\') ∧ quotablePath p = true := by
      cases c <;> simp [quotablePath]
    rw [hcons, ih]
    cases c with
    | char ch =>
      simp only [osString, display, Quotable, String.toList_ofList, List.map_map, List.map_cons,
        OsChar.lossy, List.cons.injEq, OsChar.char.injEq, true_and,
        List.forall_mem_cons, exists_eq_left']
      tauto
    | invalid bytes => simp [osString, display]

/-- A token as the text needs it: an atom is a word and a path can be quoted. -/
def tokenOk : SToken PathBuf → Bool
  | .atom name => decide (IsWord name)
  | .str path => quotablePath path
  | _ => true

/-- The rules every profile of a mode has. -/
def fixedRules (mode : NetworkMode) : List Rule :=
  headerRules ++ systemPaths.map (fun p => readRule (osString p)) ++ deviceRules ++
  tempPaths.map (fun p => writeRule (osString p)) ++ networkRules mode

theorem tokenOk_fixedRules (mode : NetworkMode) :
    ∀ rule ∈ fixedRules mode, ∀ t ∈ toks rule, tokenOk t = true := by
  cases mode <;> decide

theorem mem_intendedRules {policy : SandboxPolicy} {workdir : PathBuf} {rule : Rule} :
    rule ∈ intendedRules policy workdir ↔
      rule ∈ fixedRules policy.network.mode ∨
      (policy.filesystem.workdir = true ∧ (rule = readRule workdir ∨ rule = writeRule workdir)) ∨
      (∃ p ∈ policy.filesystem.readOnly, rule = readRule (resolvePath p workdir)) ∨
      ∃ p ∈ policy.filesystem.readWrite,
        rule = readRule (resolvePath p workdir) ∨ rule = writeRule (resolvePath p workdir) := by
  rw [iff_iff_eq]
  cases hw : policy.filesystem.workdir <;>
    simp only [intendedRules, fixedRules, hw, List.mem_append, List.mem_map, List.mem_flatMap,
      List.mem_cons, List.not_mem_nil, or_false, eq_comm (b := rule), Bool.false_eq_true,
      ↓reduceIte, false_and, true_and, false_or] <;>
    ac_rfl

/-- The tokens of a path rule, apart from its atoms. -/
theorem forall_tokenOk_pathRule {operation filter : String} (path : PathBuf)
    (hoperation : IsWord operation) (hfilter : IsWord filter) :
    (∀ t ∈ toks (pathRule operation filter path), tokenOk t = true) ↔
      quotablePath path = true := by
  have hallow : IsWord "allow" := by decide
  simp [pathRule, toks, toksOf, tokenOk, hallow, hoperation, hfilter]

theorem forall_tokenOk_iff (policy : SandboxPolicy) (workdir : PathBuf) :
    (∀ rule ∈ intendedRules policy workdir, ∀ t ∈ toks rule, tokenOk t = true) ↔
      ∀ p ∈ interpolatedPaths policy workdir, quotablePath p = true := by
  have hread : ∀ p, (∀ t ∈ toks (readRule p), tokenOk t = true) ↔ quotablePath p = true := fun p =>
    forall_tokenOk_pathRule p (by decide) (by decide)
  have hwrite : ∀ p, (∀ t ∈ toks (writeRule p), tokenOk t = true) ↔ quotablePath p = true := fun p =>
    forall_tokenOk_pathRule p (by decide) (by decide)
  constructor
  · intro hall p hp
    apply (hread p).mp
    apply hall
    rw [mem_intendedRules]
    simp only [interpolatedPaths, List.mem_append, List.mem_map] at hp
    rcases hp with (hp | ⟨q, hq, rfl⟩) | ⟨q, hq, rfl⟩
    · split at hp
      · rename_i hw
        rw [List.mem_singleton.mp hp]
        exact Or.inr (Or.inl ⟨hw, Or.inl rfl⟩)
      · simp at hp
    · exact Or.inr (Or.inr (Or.inl ⟨q, hq, rfl⟩))
    · exact Or.inr (Or.inr (Or.inr ⟨q, hq, Or.inl rfl⟩))
  · intro hall rule hrule
    rcases mem_intendedRules.mp hrule with hfixed | ⟨hw, hrule⟩ | ⟨q, hq, rfl⟩ | ⟨q, hq, hrule⟩
    · exact tokenOk_fixedRules _ rule hfixed
    · have hp := hall workdir (by simp [interpolatedPaths, hw])
      rcases hrule with rfl | rfl
      · exact (hread workdir).mpr hp
      · exact (hwrite workdir).mpr hp
    · exact (hread _).mpr (hall _ (by
        simp only [interpolatedPaths, List.mem_append, List.mem_map]
        exact Or.inl (Or.inr ⟨q, hq, rfl⟩)))
    · have hp := hall (resolvePath q workdir) (by
        simp only [interpolatedPaths, List.mem_append, List.mem_map]
        exact Or.inr ⟨q, hq, rfl⟩)
      rcases hrule with rfl | rfl
      · exact (hread _).mpr hp
      · exact (hwrite _).mpr hp

/-- Every atom of a rule is a word, whatever the paths are. -/
theorem isWord_of_mem_intendedRules {policy : SandboxPolicy} {workdir : PathBuf} {rule : Rule}
    (hrule : rule ∈ intendedRules policy workdir) {name : String}
    (hname : .atom name ∈ toks rule) : IsWord name := by
  have hpath : ∀ (operation filter : String) (p : PathBuf), IsWord operation → IsWord filter →
      .atom name ∈ toks (pathRule operation filter p) → IsWord name := by
    intro operation filter p hoperation hfilter hmem
    simp only [pathRule, toks, toksOf, List.mem_cons, List.mem_append, reduceCtorEq,
      SToken.atom.injEq, List.not_mem_nil, or_false, false_or] at hmem
    rcases hmem with rfl | rfl | rfl
    · decide
    · exact hoperation
    · exact hfilter
  have hread : ∀ p, .atom name ∈ toks (readRule p) → IsWord name := fun p =>
    hpath _ _ p (by decide) (by decide)
  have hwrite : ∀ p, .atom name ∈ toks (writeRule p) → IsWord name := fun p =>
    hpath _ _ p (by decide) (by decide)
  rcases mem_intendedRules.mp hrule with hfixed | ⟨-, rfl | rfl⟩ | ⟨q, -, rfl⟩ | ⟨q, -, rfl | rfl⟩
  · have hok := tokenOk_fixedRules _ rule hfixed _ hname
    simpa [tokenOk] using hok
  · exact hread _ hname
  · exact hwrite _ hname
  · exact hread _ hname
  · exact hread _ hname
  · exact hwrite _ hname

/-! ## Reading the profile back -/

theorem readProfile_eq_some_iff {d : Dialect} {policy : SandboxPolicy} {workdir : PathBuf} :
    readProfile d (String.ofList (renderLines (displayedRules policy workdir))) =
        some (intendedRules policy workdir) ↔
      SExpr.read d (String.ofList (renderLines (displayedRules policy workdir))) =
          some (displayedRules policy workdir) ∧
        mapOf osString (displayedRules policy workdir) = intendedRules policy workdir := by
  have hback : display ∘ osString = id := funext display_osString
  rw [readProfile, Option.map_eq_some_iff]
  constructor
  · rintro ⟨rules, hread, hrules⟩
    -- displaying the paths again gives back the rules that were read
    have hshown : displayedRules policy workdir = rules := by
      rw [displayedRules, ← hrules, mapOf_mapOf, hback]
      exact mapOf_eq_self_iff.mpr fun _ _ => rfl
    rw [← hshown] at hread hrules
    exact ⟨hread, hrules⟩
  · rintro ⟨hread, hrules⟩
    exact ⟨_, hread, hrules⟩

theorem isWord_of_mem_displayedRules {policy : SandboxPolicy} {workdir : PathBuf} {name : String}
    (hname : .atom name ∈ toksOf (displayedRules policy workdir)) : IsWord name := by
  rw [displayedRules, toksOf_mapOf, List.mem_map] at hname
  obtain ⟨t, ht, heq⟩ := hname
  obtain ⟨rule, hrule, hmem⟩ := mem_toksOf.mp ht
  cases t with
  | atom name' =>
    rw [← SToken.atom.inj heq]
    exact isWord_of_mem_intendedRules hrule hmem
  | opening => simp [mapToken] at heq
  | closing => simp [mapToken] at heq
  | str value => simp [mapToken] at heq

theorem forall_str_displayedRules {policy : SandboxPolicy} {workdir : PathBuf}
    {P : String → Prop} :
    (∀ value, .str value ∈ toksOf (displayedRules policy workdir) → P value) ↔
      ∀ path, .str path ∈ toksOf (intendedRules policy workdir) → P (display path) := by
  rw [displayedRules, toksOf_mapOf]
  constructor
  · intro h path hpath
    exact h _ (List.mem_map.mpr ⟨_, hpath, rfl⟩)
  · intro h value hvalue
    obtain ⟨t, ht, heq⟩ := List.mem_map.mp hvalue
    cases t with
    | str path =>
      rw [← SToken.str.inj heq]
      exact h path ht
    | opening => simp [mapToken] at heq
    | closing => simp [mapToken] at heq
    | atom name => simp [mapToken] at heq

/-- The reading as a condition on the literals of the intended rules. -/
theorem readProfile_iff_literals (d : Dialect) (canonicalize : PathBuf → Option PathBuf)
    (policy : SandboxPolicy) (workdir : PathBuf) :
    readProfile d (generateSeatbeltProfile canonicalize policy workdir) =
        some (intendedRules policy (profileWorkdir canonicalize workdir)) ↔
      ∀ path, .str path ∈ toksOf (intendedRules policy (profileWorkdir canonicalize workdir)) →
        quotablePath path = true := by
  rw [generateSeatbeltProfile_eq, readProfile_eq_some_iff]
  generalize profileWorkdir canonicalize workdir = dir
  have hutf8 : mapOf osString (displayedRules policy dir) = intendedRules policy dir ↔
      ∀ path, .str path ∈ toksOf (intendedRules policy dir) → osString (display path) = path := by
    rw [displayedRules, mapOf_mapOf]
    exact mapOf_eq_self_iff
  rw [read_renderLines_iff d fun name => isWord_of_mem_displayedRules, forall_str_displayedRules,
    hutf8]
  simp only [quotablePath_iff]
  constructor
  · rintro ⟨hquote, hback⟩ path hmem
    exact ⟨hback path hmem, hquote path hmem⟩
  · intro hall
    exact ⟨fun path hmem => (hall path hmem).2, fun path hmem => (hall path hmem).1⟩

/-- A profile that is read as intended has paths that can be quoted. -/
theorem quotablePath_of_readProfile {d : Dialect} {canonicalize : PathBuf → Option PathBuf}
    {policy : SandboxPolicy} {workdir : PathBuf}
    (h : readProfile d (generateSeatbeltProfile canonicalize policy workdir) =
      some (intendedRules policy (profileWorkdir canonicalize workdir))) :
    ∀ p ∈ interpolatedPaths policy (profileWorkdir canonicalize workdir),
      quotablePath p = true := by
  have hliterals := (readProfile_iff_literals d canonicalize policy workdir).mp h
  rw [← forall_tokenOk_iff]
  intro rule hrule t ht
  cases t with
  | str path => exact hliterals path (mem_toksOf.mpr ⟨rule, hrule, ht⟩)
  | atom name => simpa [tokenOk] using isWord_of_mem_intendedRules hrule ht
  | opening => rfl
  | closing => rfl

theorem readProfile_of_quotablePath (d : Dialect) {canonicalize : PathBuf → Option PathBuf}
    {policy : SandboxPolicy} {workdir : PathBuf}
    (h : ∀ p ∈ interpolatedPaths policy (profileWorkdir canonicalize workdir),
      quotablePath p = true) :
    readProfile d (generateSeatbeltProfile canonicalize policy workdir) =
      some (intendedRules policy (profileWorkdir canonicalize workdir)) := by
  rw [readProfile_iff_literals]
  intro path hmem
  obtain ⟨rule, hrule, ht⟩ := mem_toksOf.mp hmem
  exact (forall_tokenOk_iff _ _).mpr h rule hrule _ ht

/-- **Reading the generated profile.**  The profile is read as the intended rules exactly
    when no path that is put into it holds a quote, a backslash or an ill-formed chunk. -/
theorem seatbelt_reads_iff (d : Dialect) (canonicalize : PathBuf → Option PathBuf)
    (policy : SandboxPolicy) (workdir : PathBuf) :
    readProfile d (generateSeatbeltProfile canonicalize policy workdir) =
        some (intendedRules policy (profileWorkdir canonicalize workdir)) ↔
      ∀ p ∈ interpolatedPaths policy (profileWorkdir canonicalize workdir),
        quotablePath p = true :=
  ⟨quotablePath_of_readProfile, readProfile_of_quotablePath d⟩

/-! ## A policy that adds a rule -/

/-- The escapes of Scheme strings. -/
def scheme : Dialect where
  unescape c := if c = 'n' then '\n' else if c = 't' then '\t' else if c = 'r' then '\r' else c
  unescape_quote := by decide
  eq_of_unescape c h := by
    split at h
    · exact absurd h (by decide)
    · split at h
      · exact absurd h (by decide)
      · split at h
        · exact absurd h (by decide)
        · exact h

/-- One read-only path that closes its literal and its rule and opens others. -/
def injectingPolicy : SandboxPolicy :=
  { filesystem := {
      workdir := false
      readOnly := ["/x\"))(allow default)(allow file-read* (subpath \"/y"]
      readWrite := [] } }

/-- The policy is accepted, and its profile is not read as the intended rules. -/
theorem seatbelt_injection :
    injectingPolicy.validate = .ok () ∧
    ¬ ∀ (d : Dialect) (canonicalize : PathBuf → Option PathBuf) (policy : SandboxPolicy)
        (workdir : PathBuf),
      readProfile d (generateSeatbeltProfile canonicalize policy workdir) =
        some (intendedRules policy (profileWorkdir canonicalize workdir)) := by
  refine ⟨by decide, fun hall => ?_⟩
  have hquote := quotablePath_of_readProfile (hall scheme some injectingPolicy (osString "/w"))
  revert hquote
  decide

end SimpleSandbox
