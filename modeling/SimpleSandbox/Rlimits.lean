import SimpleSandbox.Provenance

/-!
# The resource limits of children

Before a child of the mac mechanism becomes `sandbox-exec` it limits itself by `apply_rlimits`
(`sandbox-mech-mac`), with the policy of its specification.  The limits are taken only as far
as the policy gives them: an error is ignored and leaves the child without any.  What `exec`
reads back from an instance is neither validated nor preflighted again, so that every child of
a run has limits, and limits within the host, rests on where its policy comes from.
-/

namespace SimpleSandbox

open RustText OsPath FileSystem Effect World

/-- The resources of `setrlimit` the mechanism names. -/
inductive Resource where
  | rss
  | addressSpace
  | data
  | cpu
deriving DecidableEq, Repr

/-- A call of `setrlimit`. -/
structure Rlimit where
  resource : Resource
  cur : ℕ
  max : ℕ
deriving DecidableEq, Repr

/-- Seconds of processor time: one hour for each processor, one minute at least. -/
def cpuSecs (policy : SandboxPolicy) : ℕ :=
  max (policy.resources.cpus.mulRounded 3600).ceilToU64 60

/-- The memory resources that are limited. -/
def memoryResources (os : HostOs) : List Resource :=
  if os = .macos then [.rss] else [.addressSpace, .data]

/-- `apply_rlimits`, as the calls it makes; a call that fails is followed by the next. -/
def applyRlimits (os : HostOs) (policy : SandboxPolicy) : Except MechanismError (List Rlimit) := do
  let mem ← policy.resources.memoryBytes.mapError fun e => .message e.text
  pure ((memoryResources os).map (fun r => ⟨r, mem, mem⟩) ++
    [⟨.cpu, cpuSecs policy, cpuSecs policy⟩])

/-- The limits of a child: the result of `apply_rlimits` is not looked at. -/
def ChildSpec.rlimits (os : HostOs) (c : ChildSpec) : List Rlimit :=
  match applyRlimits os c.policy with
  | .ok limits => limits
  | .error _ => []

/-! ## What a preflighted policy asks for -/

/-- What rounds to a number of millicores is not much over half a millicore more. -/
theorem F64.lt_of_millicores_le {q : ℚ} (hq : 0 < q)
    (h : ((F64.finite q).mulRounded 1000).roundToU64 ≤ 8000) : q * 1000 < 8000 + 51 / 100 := by
  have hpos : 0 < q * (1000 : ℕ) := by positivity
  have hcast : q * 1000 = q * (1000 : ℕ) := by norm_num
  rw [hcast]
  rw [mulRounded_of_nonneg hq.le] at h
  generalize q * (1000 : ℕ) = x at hpos h
  have hlower := Binary64.le_roundNearest hpos
  split at h
  · exact absurd h (by decide)
  · rw [roundToU64_of_nonneg (Binary64.roundNearest_nonneg hpos.le), saturateU64] at h
    have hfloor : ⌊Binary64.roundNearest x + 1 / 2⌋ ≤ 8000 := by omega
    have hlt := Int.lt_floor_add_one (Binary64.roundNearest x + 1 / 2)
    have hbound : ((⌊Binary64.roundNearest x + 1 / 2⌋ : ℤ) : ℚ) ≤ 8000 := by exact_mod_cast hfloor
    have hsmall : x - (x + 1) / 2 ^ 53 < 8000 + 1 / 2 := by linarith
    -- the part that rounding takes is far below a hundredth
    by_contra hnot
    rw [not_lt] at hnot
    have hpart : (x + 1) / 2 ^ 53 = x / 2 ^ 53 + 1 / 2 ^ 53 := add_div _ _ _
    norm_num at hpart hsmall
    linarith

/-- Rounding the product leaves it below the next whole second. -/
theorem F64.ceilToU64_mulRounded_le {q : ℚ} (hq : 0 < q) (hle : q * 1000 < 8000 + 51 / 100) :
    ((F64.finite q).mulRounded 3600).ceilToU64 ≤ 28802 := by
  have hpos : 0 < q * (3600 : ℕ) := by positivity
  have hvalue : q * (3600 : ℕ) ≤ 28802 - 1 / 10 := by
    push_cast
    linarith
  rw [mulRounded_of_nonneg hq.le]
  generalize q * (3600 : ℕ) = x at hpos hvalue
  have hround : Binary64.roundNearest x ≤ 28802 := by
    have hgrow := Binary64.roundNearest_le hpos
    have hpart : (x + 1) / 2 ^ 53 ≤ 1 / 10 := by
      rw [div_le_iff₀ (by positivity)]
      norm_num
      linarith
    linarith
  have hlarge : (28802 : ℚ) < 2 ^ 1024 :=
    lt_of_lt_of_le (by norm_num) (pow_le_pow_right₀ (by norm_num) (show 15 ≤ 1024 by decide))
  have hceil : ⌈Binary64.roundNearest x⌉ ≤ 28802 := Int.ceil_le.mpr (by exact_mod_cast hround)
  rw [if_neg (not_le.mpr (lt_of_le_of_lt hround hlarge)), ceilToU64, saturateU64]
  omega

/-- Eight processors for an hour each, and what rounding may add. -/
theorem cpuSecs_le {policy : SandboxPolicy} (hvalidate : policy.validate = .ok ())
    (h : policy.resources.millicores ≤ 8000) : cpuSecs policy ≤ 28802 := by
  have hsign := (SandboxPolicy.validate_eq_ok_iff.mp hvalidate).2.1
  rw [ResourcePolicy.millicores, ResourcePolicy.millicoresBy] at h
  refine max_le ?_ (by decide)
  cases hcpus : policy.resources.cpus with
  | finite q =>
    rw [hcpus] at hsign h
    have hq : 0 < q := by simpa [F64.leZero] using hsign
    exact F64.ceilToU64_mulRounded_le hq (F64.lt_of_millicores_le hq h)
  | nan => exact Nat.zero_le _
  | posInf =>
    rw [hcpus] at h
    exact absurd h (by decide)
  | negInf => exact Nat.zero_le _

/-- Limits within the host: memory up to its size, processor time of a minute at least. -/
def WithinHost (os : HostOs) (limits : List Rlimit) : Prop :=
  ∃ mem secs, mem ≤ 8 * 1024 * 1024 * 1024 ∧ 60 ≤ secs ∧ secs ≤ 28802 ∧
    limits = (memoryResources os).map (fun r => ⟨r, mem, mem⟩) ++ [⟨.cpu, secs, secs⟩]

theorem withinHost_of_preflight {ext : Externals} (hext : ext.AllocatesFitting) (os : HostOs)
    {c : ChildSpec} (h : preflight ext c.policy {} = .ok ()) : WithinHost os (c.rlimits os) := by
  obtain ⟨hvalidate, hcpus, mem, hmem, hle⟩ := (preflight_eq_ok_iff hext c.policy {}).mp h
  refine ⟨mem, cpuSecs c.policy, hle, Nat.le_max_right _ _, cpuSecs_le hvalidate hcpus, ?_⟩
  have happlied : applyRlimits os c.policy =
      .ok ((memoryResources os).map (fun r => ⟨r, mem, mem⟩) ++
        [⟨.cpu, cpuSecs c.policy, cpuSecs c.policy⟩]) := by
    rw [applyRlimits, hmem]
    rfl
  rw [ChildSpec.rlimits, happlied]

/-- The default policy passes. -/
theorem preflight_default {ext : Externals} (hext : ext.AllocatesFitting) :
    preflight ext {} {} = .ok () := by
  have hcpus : ResourcePolicy.millicores {} ≤ 8000 := by decide +kernel
  have hmem : ResourcePolicy.memoryBytes {} = .ok (2 * 1024 * 1024 * 1024) := by decide +kernel
  rw [preflight_eq_ok_iff hext]
  exact ⟨by decide +kernel, hcpus, _, hmem, by decide +kernel⟩

/-- **Every child is limited.**  In a run of any processes from a fresh host without policy files
    and children, every child asks for a memory limit within the host and for a limit of its
    processor time, at least a minute and not much over eight hours. -/
theorem children_limited (M : Machine) (hext : M.ext.AllocatesFitting) (dir : Location)
    (w₀ w : World) (as : List Invocation) (hw₀ : M.Fresh dir w₀)
    (hfiles : ∀ q p, w₀.fileAt q ≠ some (.policy p)) (hchildren : w₀.children = [])
    (h : Trace (M.Runs dir) w₀ as w) (c : ChildSpec) (hc : c ∈ w.children) :
    WithinHost M.os (c.rlimits M.os) := by
  rcases (traced_of_trace hw₀ h).children c hc with hold | hvouched
  · rw [hchildren] at hold
    exact nomatch hold
  · rcases hvouched.policy with hdefault | ⟨a, -, hadmits⟩ | ⟨q, hq⟩
    · apply withinHost_of_preflight hext
      rw [hdefault]
      exact preflight_default hext
    · exact withinHost_of_preflight hext M.os hadmits.preflight
    · exact absurd hq (hfiles q c.policy)

/-- No file stands on the small host before its first process. -/
theorem children_limited_entry :
    enteredWorld.children.length = 1 ∧
      ∀ c ∈ enteredWorld.children, WithinHost .macos (c.rlimits .macos) := by
  refine ⟨by decide +kernel, fun c hc => ?_⟩
  exact children_limited fittingMachine allocatesFitting_fittingExternals [] emptyWorld
    enteredWorld _ fresh_fittingMachine (fun q p => by rw [emptyWorld_fileAt]; exact nofun) rfl
    trace_enteredWorld c hc

end SimpleSandbox
