import SimpleSandbox.OsPath
import SimpleSandbox.ShortestDecimal

/-!
# Sandbox policies

The `sandbox-policy` crate: the policy record with its defaults, `validate`,
`parse_size`, the resource preflight and `resolve_host_paths`.

Three parts of the crate are other packages and appear as the fields of
`Externals`: the YAML text of a policy (`serde_yaml`), the hexadecimal SHA-256 of a
text (`sha2`, `hex`) and the extent allocator (`limited_core`).  A `cpus` value is an
`f64`; it is represented by the rational it denotes or by one of the three
non-numbers, with the comparison, rounding, saturating casts and text of Rust.
-/

namespace SimpleSandbox

open RustText OsPath Binary64

/-! ## Floating-point resource values -/

inductive F64 where
  | finite (q : ℚ)
  | nan
  | posInf
  | negInf
deriving DecidableEq

namespace F64

/-- `x <= 0.0` -/
def leZero : F64 → Bool
  | .finite q => decide (q ≤ 0)
  | .nan => false
  | .posInf => false
  | .negInf => true

/-- The product `x * k` for a positive integer constant `k`, before it is rounded. -/
def mulNat (x : F64) (k : ℕ) : F64 :=
  match x with
  | .finite q => .finite (q * k)
  | x => x

/-- `x * k` as an operation on `f64`: rounded, and infinite from `2 ^ 1024` on. -/
def mulRounded (x : F64) (k : ℕ) : F64 :=
  match x with
  | .finite q =>
    let r := roundNearest (q * k)
    if 2 ^ 1024 ≤ r then .posInf else if r ≤ -2 ^ 1024 then .negInf else .finite r
  | x => x

/-- `f64::round`: halfway cases away from zero. -/
def roundRat (q : ℚ) : ℤ := if 0 ≤ q then ⌊q + 1 / 2⌋ else -⌊-q + 1 / 2⌋

/-- `n as u64`, saturating. -/
def saturateU64 (n : ℤ) : ℕ := min n.toNat (2 ^ 64 - 1)

/-- `x.round() as u64` -/
def roundToU64 : F64 → ℕ
  | .finite q => saturateU64 (roundRat q)
  | .nan => 0
  | .posInf => 2 ^ 64 - 1
  | .negInf => 0

/-- `x.ceil() as u64` -/
def ceilToU64 : F64 → ℕ
  | .finite q => saturateU64 ⌈q⌉
  | .nan => 0
  | .posInf => 2 ^ 64 - 1
  | .negInf => 0

/-- `Display` of an `f64`: the shortest decimal that is read back as the number, without an
    exponent.  A zero has no sign here. -/
def display : F64 → String
  | .nan => "NaN"
  | .posInf => "inf"
  | .negInf => "-inf"
  | .finite q => String.ofList ((if q < 0 then ['-'] else []) ++ numeral (shortest |q|))

/-- The values an `f64` has. -/
def IsBinary64 : F64 → Prop
  | .finite q => IsRounded |q| ∧ |q| < 2 ^ 1024
  | _ => True

instance (x : F64) : Decidable x.IsBinary64 :=
  match x with
  | .finite _ => inferInstanceAs (Decidable (_ ∧ _))
  | .nan => isTrue trivial
  | .posInf => isTrue trivial
  | .negInf => isTrue trivial

/-- A magnitude as an `f64`: the nearest number, infinite from `2 ^ 1024` on. -/
def ofMagnitude (q : ℚ) : F64 :=
  if roundNearest q < 2 ^ 1024 then .finite (roundNearest q) else .posInf

/-- `-x` -/
def neg : F64 → F64
  | .finite q => .finite (-q)
  | .nan => .nan
  | .posInf => .negInf
  | .negInf => .posInf

/-- The number a text without an exponent stands for. -/
def ofText (text : String) : Option F64 :=
  if text = "NaN" then some .nan
  else if text = "inf" then some .posInf
  else if text = "-inf" then some .negInf
  else if text.toList.head? = some '-' then
    ((readNumeral text.toList.tail).map ofMagnitude).map neg
  else (readNumeral text.toList).map ofMagnitude

/-- The magnitude is read back from its numeral. -/
theorem ofMagnitude_numeral {q : ℚ} (h : IsRounded q) (hlt : q < 2 ^ 1024) :
    (readNumeral (numeral (shortest q))).map ofMagnitude = some (.finite q) := by
  obtain ⟨c, hread, hround⟩ := Option.map_eq_some_iff.mp (readNumeral_shortest h)
  rw [hread, Option.map_some, ofMagnitude, hround, if_pos hlt]

/-- A text whose first character is a digit is none of the words. -/
theorem ofText_of_head {text : List Char} {c : Char} (hc : c.isDigit = true)
    (h : text.head? = some c) :
    ofText (String.ofList text) = (readNumeral text).map ofMagnitude := by
  have hne : ∀ word : String, word.toList.head?.all (fun d => !d.isDigit) = true →
      String.ofList text ≠ word := by
    rintro word hword rfl
    rw [String.toList_ofList, h, Option.all_some, hc] at hword
    cases hword
  have hsign : c ≠ '-' := by
    rintro rfl
    exact absurd hc (by decide)
  rw [ofText, if_neg (hne _ (by decide)), if_neg (hne _ (by decide)), if_neg (hne _ (by decide)),
    String.toList_ofList, h, if_neg (by simpa using hsign)]

theorem ofText_neg_of_head {text : List Char} {c : Char} (hc : c.isDigit = true)
    (h : text.head? = some c) :
    ofText (String.ofList ('-' :: text)) = ((readNumeral text).map ofMagnitude).map neg := by
  have hne : ∀ word : String, word.toList.tail.head?.all (fun d => !d.isDigit) = true →
      String.ofList ('-' :: text) ≠ word := by
    rintro word hword rfl
    rw [String.toList_ofList, List.tail_cons, h, Option.all_some, hc] at hword
    cases hword
  rw [ofText, if_neg (hne _ (by decide)), if_neg (hne _ (by decide)), if_neg (hne _ (by decide)),
    String.toList_ofList, List.head?_cons, if_pos rfl, List.tail_cons]

/-- What is displayed is read as the number it was. -/
theorem ofText_display {x : F64} (h : x.IsBinary64) : ofText x.display = some x := by
  cases x with
  | nan => rfl
  | posInf => rfl
  | negInf => rfl
  | finite q =>
    obtain ⟨hround, hlt⟩ := h
    have hread := ofMagnitude_numeral hround hlt
    obtain ⟨c, hhead, hdigit⟩ := head_numeral (shortest |q|)
    rw [display]
    split
    · rename_i hneg
      rw [List.singleton_append, ofText_neg_of_head hdigit hhead, hread, Option.map_some, neg,
        abs_of_neg hneg, neg_neg]
    · rename_i hnonneg
      rw [List.nil_append, ofText_of_head hdigit hhead, hread,
        abs_of_nonneg (not_lt.mp hnonneg)]

end F64

/-! ## The policy record -/

inductive NetworkMode where
  | none
  | allowlist
  | unrestricted
deriving DecidableEq, Repr

inductive MechanismKind where
  | podman
  | mac
  | krun
  | auto
deriving DecidableEq, Repr

structure FilesystemPolicy where
  workdir : Bool := true
  readOnly : List String := []
  readWrite : List String := ["/workspace", "/tmp"]
deriving DecidableEq

structure NetworkEndpoint where
  host : String
  port : UInt16 := 443
deriving DecidableEq

structure NetworkPolicy where
  mode : NetworkMode := .none
  endpoints : List NetworkEndpoint := []
deriving DecidableEq

structure ResourcePolicy where
  cpus : F64 := .finite 2
  memory : String := "2G"
deriving DecidableEq

structure SecretRef where
  env : String
  source : String      -- the field `from`
deriving DecidableEq

structure SandboxPolicy where
  version : UInt32 := 1
  filesystem : FilesystemPolicy := {}
  network : NetworkPolicy := {}
  resources : ResourcePolicy := {}
  mechanism : Option MechanismKind := none
  secrets : List SecretRef := []
deriving DecidableEq

inductive PolicyError where
  | io (message : String)
  | yaml (message : String)
  | invalid (message : String)
  | preflight (message : String)
deriving DecidableEq, Repr

/-- The `Display` text of a policy error. -/
def PolicyError.text : PolicyError → String
  | .io m => "io error: " ++ m
  | .yaml m => "yaml parse error: " ++ m
  | .invalid m => "invalid policy: " ++ m
  | .preflight m => "resource preflight failed: " ++ m

/-- The functions of other packages that the policy crate calls. -/
structure Externals where
  toYaml : SandboxPolicy → Except String String
  sha256Hex : String → String
  allocate : (pool : String) → (capacity amount : ℕ) → Except String Unit

/-! ## Sizes -/

/-- `str::parse::<u64>`: an optional `+` and at least one ASCII digit. -/
def parseU64 (s : List Char) : Option ℕ :=
  let digits := match s with
    | '+' :: rest => rest
    | _ => s
  if digits = [] ∨ digits.any (fun c => !c.isDigit) then none
  else
    let value := Nat.ofDigitChars 10 digits 0
    if value < 2 ^ 64 then some value else none

/-- The multiplier of a suffix letter. -/
def sizeSuffix : Char → Option ℕ
  | 'K' | 'k' => some 1024
  | 'M' | 'm' => some (1024 * 1024)
  | 'G' | 'g' => some (1024 * 1024 * 1024)
  | 'T' | 't' => some (1024 * 1024 * 1024 * 1024)
  | _ => none

/-- `parse_size` -/
def parseSize (text : String) : Except PolicyError ℕ :=
  let s := trim text
  if s = "" then .error (.invalid "empty memory size")
  else
    let (num, mult) := match s.toList.getLast?.bind sizeSuffix with
      | some m => (s.toList.dropLast, m)
      | none => (s.toList, 1)
    match parseU64 num with
    | none => .error (.invalid ("invalid memory size '" ++ s ++ "'"))
    | some value =>
      if value * mult < 2 ^ 64 then .ok (value * mult)
      else .error (.invalid ("memory size overflow '" ++ s ++ "'"))

namespace ResourcePolicy

def memoryBytes (r : ResourcePolicy) : Except PolicyError ℕ := parseSize r.memory

/-- The millicores when the product is taken by `mul`. -/
def millicoresBy (mul : F64 → ℕ → F64) (r : ResourcePolicy) : ℕ := (mul r.cpus 1000).roundToU64

def millicores (r : ResourcePolicy) : ℕ := r.millicoresBy F64.mulRounded

end ResourcePolicy

/-! ## Validation and preflight -/

namespace SandboxPolicy

def validate (p : SandboxPolicy) : Except PolicyError Unit := do
  if p.version ≠ 1 then
    throw (.invalid ("unsupported policy version " ++ decimal p.version.toNat))
  if p.resources.cpus.leZero then
    throw (.invalid "resources.cpus must be > 0")
  let _ ← p.resources.memoryBytes
  if p.network.mode = .allowlist ∧ p.network.endpoints = [] then
    throw (.invalid "network.mode=allowlist requires at least one endpoint")
  if p.secrets.any (fun s => s.env == "" || s.source == "") then
    throw (.invalid "secrets entries need non-empty env and from")

theorem validate_eq_ok_iff {p : SandboxPolicy} :
    p.validate = .ok () ↔
      p.version = 1 ∧ p.resources.cpus.leZero = false ∧
      (∃ mem, p.resources.memoryBytes = .ok mem) ∧
      ¬ (p.network.mode = .allowlist ∧ p.network.endpoints = []) ∧
      ∀ s ∈ p.secrets, s.env ≠ "" ∧ s.source ≠ "" := by
  have hsecrets : (∀ s ∈ p.secrets, s.env ≠ "" ∧ s.source ≠ "") ↔
      p.secrets.any (fun s => s.env == "" || s.source == "") = false := by
    simp
  rw [hsecrets]
  unfold validate
  by_cases hversion : p.version = 1
  · cases hcpus : p.resources.cpus.leZero with
    | true => simp [hversion, bind, Except.bind, throw, throwThe, MonadExceptOf.throw]
    | false =>
      cases hmem : p.resources.memoryBytes with
      | error e => simp [hversion, bind, Except.bind]
      | ok mem =>
        by_cases hmode : p.network.mode = .allowlist ∧ p.network.endpoints = []
        · simp [hversion, hmode, bind, Except.bind, throw, throwThe, MonadExceptOf.throw]
        · simp only [hversion, hmode, bind, Except.bind, ↓reduceIte]
          cases p.secrets.any (fun s => s.env == "" || s.source == "") <;>
            simp [throw, throwThe, MonadExceptOf.throw, pure, Except.pure]
  · simp [hversion, bind, Except.bind, throw, throwThe, MonadExceptOf.throw]

/-- `content_hash` -/
def contentHash (ext : Externals) (p : SandboxPolicy) : Except PolicyError String :=
  match ext.toYaml p with
  | .ok yaml => .ok (ext.sha256Hex yaml)
  | .error m => .error (.yaml m)

def mechanismOrAuto (p : SandboxPolicy) : MechanismKind := p.mechanism.getD .auto

def restrictiveDefault : SandboxPolicy := {}

end SandboxPolicy

structure HostCapacity where
  memoryBytes : ℕ := 8 * 1024 * 1024 * 1024
  millicores : ℕ := 8000

/-- `preflight` when the millicores are computed by `mul`: one fresh pool for each resource of
    the host. -/
def preflightBy (mul : F64 → ℕ → F64) (ext : Externals) (p : SandboxPolicy)
    (host : HostCapacity) : Except PolicyError Unit := do
  p.validate
  let needMem ← p.resources.memoryBytes
  let needCpu := p.resources.millicoresBy mul
  (ext.allocate "RAM" host.memoryBytes needMem).mapError .preflight
  (ext.allocate "CPU" host.millicores needCpu).mapError .preflight

/-- `preflight` -/
def preflight (ext : Externals) (p : SandboxPolicy) (host : HostCapacity) :
    Except PolicyError Unit :=
  preflightBy F64.mulRounded ext p host

/-! ## Host paths -/

/-- The closure of `resolve_host_paths`. -/
def resolveHostPath (p : String) (workdir : PathBuf) : PathBuf :=
  let path := osString p
  if isAbsolute path then path else join workdir path

/-- `resolve_host_paths`; `==` on paths compares components. -/
def resolveHostPaths (policy : FilesystemPolicy) (workdir : PathBuf) :
    List PathBuf × List PathBuf :=
  let ro := policy.readOnly.map (resolveHostPath · workdir)
  let rw' := policy.readWrite.map (resolveHostPath · workdir)
  if policy.workdir then
    if rw'.any (fun p => components p == components workdir) then (ro, rw')
    else (ro, rw' ++ [workdir])
  else (ro, rw')

end SimpleSandbox
