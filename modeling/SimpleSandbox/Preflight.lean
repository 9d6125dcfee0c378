import SimpleSandbox.PodmanArgs

/-!
# What the preflight lets through

`preflight` compares a size and a rounded number of millicores with two pools, after `validate`
has refused `cpus <= 0`.  A memory size of zero, a `cpus` that is no number or rounds to zero,
and one that rounds down to the pool all pass.

What passes is said twice: for the exact product `cpus * 1000`, and for the product of the code,
which is rounded to binary64 before it is rounded to an integer.  That moves the number of
millicores by at most one, and not to or from zero.
-/

namespace SimpleSandbox

open RustText OsPath

/-- An allocation from a fresh pool succeeds when the amount fits. -/
def Externals.AllocatesFitting (ext : Externals) : Prop :=
  ∀ pool capacity amount, ext.allocate pool capacity amount = .ok () ↔ amount ≤ capacity

namespace F64

open Binary64

theorem one_le_saturateU64 {n : ℤ} : 1 ≤ saturateU64 n ↔ 1 ≤ n := by
  rw [saturateU64]
  omega

/-- A number that is not negative is rounded half up. -/
theorem roundToU64_of_nonneg {q : ℚ} (hq : 0 ≤ q) :
    (finite q).roundToU64 = saturateU64 ⌊q + 1 / 2⌋ := by
  rw [roundToU64, roundRat, if_pos hq]

/-- A positive value is one millicore or more from half a millicore on. -/
theorem one_le_roundToU64_mulNat {q : ℚ} (hq : 0 < q) :
    1 ≤ ((finite q).mulNat 1000).roundToU64 ↔ 1 / 2000 ≤ q := by
  have hnonneg : 0 ≤ q * (1000 : ℕ) := by positivity
  rw [mulNat, roundToU64_of_nonneg hnonneg, one_le_saturateU64, Int.le_floor]
  push_cast
  constructor
  · intro h
    linarith
  · intro h
    linarith

/-- The rounded product of a number that is not negative is not negative. -/
theorem mulRounded_of_nonneg {q : ℚ} (hq : 0 ≤ q) (k : ℕ) :
    (finite q).mulRounded k = if 2 ^ 1024 ≤ roundNearest (q * k) then .posInf
      else .finite (roundNearest (q * k)) := by
  have hnonneg : 0 ≤ roundNearest (q * k) := roundNearest_nonneg (by positivity)
  have hsign : ¬ roundNearest (q * k) ≤ -2 ^ 1024 :=
    not_le.mpr (lt_of_lt_of_le (neg_neg_of_pos (by positivity)) hnonneg)
  simp only [mulRounded, if_neg hsign]

/-- No binary64 number lies so close below 1/2000 that a thousand of it are rounded to 1/2. -/
theorem roundNearest_mul_lt {q : ℚ} (hround : IsRounded q) (hq : 0 < q) (hlt : q < 1 / 2000) :
    roundNearest (q * 1000) < 1 / 2 := by
  have hpos : 0 < q * 1000 := by positivity
  by_cases hsmall : q < 2 ^ (-11 : ℤ)
  · have hgrow := roundNearest_le hpos
    norm_num at hsmall hgrow
    linarith
  · -- the units of such numbers are 2 ^ -63, and a thousand units do not divide 2 ^ 62
    have hunit : unitExponent q = -63 := by
      apply le_antisymm
      · exact unitExponent_le hq (n := -10) (by decide) (by norm_num; linarith)
      · have hlog : -11 ≤ Int.log 2 q :=
          (Int.zpow_le_iff_le_log (by norm_num) hq).mp (by exact_mod_cast not_lt.mp hsmall)
        rw [unitExponent, abs_of_pos hq]
        omega
    obtain ⟨k, hk⟩ : ∃ k : ℤ, q = k * 2 ^ (-63 : ℤ) :=
      ⟨_, by rw [← hunit]; exact hround.2.symm⟩
    have hint : 1000 * k < 2 ^ 62 := by
      have hcast : ((1000 * k : ℤ) : ℚ) < (2 ^ 62 : ℤ) := by
        push_cast
        rw [hk] at hlt
        norm_num at hlt ⊢
        linarith
      exact_mod_cast hcast
    have hvalue : q * 1000 ≤ 1 / 2 - 904 / 2 ^ 63 := by
      have hbound : 1000 * k ≤ 2 ^ 62 - 904 := by omega
      have hcast : ((1000 * k : ℤ) : ℚ) ≤ (2 ^ 62 - 904 : ℤ) := by exact_mod_cast hbound
      rw [hk]
      push_cast at hcast
      norm_num at hcast ⊢
      linarith
    have herror := (abs_le.mp (abs_roundNearest_sub_le (q * 1000))).2
    have hhalf : q * 1000 < 2 ^ (-1 : ℤ) := by
      norm_num at hvalue ⊢
      linarith
    have hfine : (2 : ℚ) ^ unitExponent (q * 1000) ≤ 2 ^ (-1 - 53 : ℤ) :=
      zpow_le_zpow_right₀ (by norm_num) (unitExponent_le hpos (by decide) hhalf)
    norm_num at hfine hvalue
    linarith

/-- The rounded product too is one millicore or more from half a millicore on. -/
theorem one_le_roundToU64_mulRounded {q : ℚ} (hq : 0 < q) (hbinary : (finite q).IsBinary64) :
    1 ≤ ((finite q).mulRounded 1000).roundToU64 ↔ 1 / 2000 ≤ q := by
  have hround : IsRounded q := by
    have habs := hbinary.1
    rwa [abs_of_pos hq] at habs
  have hnonneg : 0 ≤ roundNearest (q * (1000 : ℕ)) := roundNearest_nonneg (by positivity)
  have hhalf : 1 / 2 ≤ roundNearest (q * (1000 : ℕ)) ↔ 1 / 2000 ≤ q := by
    constructor
    · intro h
      by_contra hlt
      exact absurd h (not_le.mpr (roundNearest_mul_lt hround hq (not_le.mp hlt)))
    · intro h
      have hle := zpow_le_roundNearest (x := q * (1000 : ℕ)) (n := -1) (by decide)
        (by push_cast; norm_num; linarith)
      norm_num at hle ⊢
      exact hle
  rw [← hhalf, mulRounded_of_nonneg hq.le]
  split
  · rename_i hinf
    have hone : (1 / 2 : ℚ) ≤ 2 ^ 1024 :=
      le_trans (by norm_num) (one_le_pow₀ (show (1 : ℚ) ≤ 2 by norm_num))
    exact iff_of_true (by decide) (hone.trans hinf)
  · rw [roundToU64_of_nonneg hnonneg, one_le_saturateU64, Int.le_floor]
    push_cast
    constructor <;> intro h <;> linarith

/-- Rounding the product first moves the rounded number by at most one. -/
theorem roundToU64_mulRounded_near {q : ℚ} (hq : 0 < q) {k : ℕ} (hk : 0 < k)
    (hlt : q * k < 2 ^ 52) :
    ((finite q).mulRounded k).roundToU64 ≤ ((finite q).mulNat k).roundToU64 + 1 ∧
      ((finite q).mulNat k).roundToU64 ≤ ((finite q).mulRounded k).roundToU64 + 1 := by
  have hpos : 0 < q * k := by positivity
  rw [mulRounded_of_nonneg hq.le, mulNat]
  generalize q * k = x at hpos hlt
  have hpart : (x + 1) / 2 ^ 53 ≤ 1 := by
    rw [div_le_one (by positivity)]
    linarith
  have hupper := roundNearest_le hpos
  have hlower := le_roundNearest hpos
  have hlarge : (2 : ℚ) ^ 52 + 1 < 2 ^ 1024 :=
    lt_of_lt_of_le (by norm_num) (pow_le_pow_right₀ (by norm_num) (show 53 ≤ 1024 by decide))
  have hfinite : ¬ 2 ^ 1024 ≤ roundNearest x := not_le.mpr (lt_of_le_of_lt (by linarith) hlarge)
  rw [if_neg hfinite, roundToU64_of_nonneg (roundNearest_nonneg hpos.le),
    roundToU64_of_nonneg hpos.le]
  have hup : ⌊roundNearest x + 1 / 2⌋ ≤ ⌊x + 1 / 2⌋ + 1 := by
    rw [← Int.floor_add_one]
    exact Int.floor_mono (by linarith)
  have hdown : ⌊x + 1 / 2⌋ ≤ ⌊roundNearest x + 1 / 2⌋ + 1 := by
    rw [← Int.floor_add_one]
    exact Int.floor_mono (by linarith)
  rw [saturateU64, saturateU64]
  omega

end F64

/-- The millicores of the code and those of the exact product differ by at most one. -/
theorem ResourcePolicy.millicores_near {r : ResourcePolicy} {q : ℚ} (hcpus : r.cpus = .finite q)
    (hq : 0 < q) (hlt : q * 1000 < 2 ^ 52) :
    r.millicores ≤ r.millicoresBy F64.mulNat + 1 ∧ r.millicoresBy F64.mulNat ≤ r.millicores + 1 := by
  rw [millicores, millicoresBy, millicoresBy, hcpus]
  exact F64.roundToU64_mulRounded_near hq (by decide) (by exact_mod_cast hlt)

-- the exact product for 0.0115 lies below 11.5, the binary64 one is 11.5
example :
    let r : ResourcePolicy := { cpus := .finite (Binary64.roundNearest (115 / 10000)) }
    r.millicores = 12 ∧ r.millicoresBy F64.mulNat = 11 := by
  decide +kernel

/-! ## Acceptance -/

theorem preflightBy_eq_ok_iff {mul : F64 → ℕ → F64} {ext : Externals}
    (hext : ext.AllocatesFitting) (p : SandboxPolicy) (host : HostCapacity) :
    preflightBy mul ext p host = .ok () ↔
      p.validate = .ok () ∧ p.resources.millicoresBy mul ≤ host.millicores ∧
      ∃ mem, p.resources.memoryBytes = .ok mem ∧ mem ≤ host.memoryBytes := by
  have hfits : ∀ pool capacity amount,
      (ext.allocate pool capacity amount).mapError PolicyError.preflight = .ok () ↔
        amount ≤ capacity := by
    intro pool capacity amount
    rw [← hext pool]
    cases ext.allocate pool capacity amount <;> simp [Except.mapError]
  unfold preflightBy
  rcases hvalidate : p.validate with e | u
  · simp [bind, Except.bind]
  · rcases hmem : p.resources.memoryBytes with e | mem
    · simp [bind, Except.bind]
    · have hram := hfits "RAM" host.memoryBytes mem
      have hcpu := hfits "CPU" host.millicores (p.resources.millicoresBy mul)
      simp only [bind, Except.bind, true_and, Except.ok.injEq, exists_eq_left']
      rcases hrun : (ext.allocate "RAM" host.memoryBytes mem).mapError PolicyError.preflight with
        e | u
      · rw [hrun] at hram
        have hno : ¬ mem ≤ host.memoryBytes := fun h => by cases hram.mpr h
        simp [hno]
      · rw [hrun] at hram
        have hyes : mem ≤ host.memoryBytes := hram.mp rfl
        simp only [hyes, and_true]
        exact hcpu

theorem preflight_eq_ok_iff {ext : Externals} (hext : ext.AllocatesFitting) (p : SandboxPolicy)
    (host : HostCapacity) :
    preflight ext p host = .ok () ↔
      p.validate = .ok () ∧ p.resources.millicores ≤ host.millicores ∧
      ∃ mem, p.resources.memoryBytes = .ok mem ∧ mem ≤ host.memoryBytes :=
  preflightBy_eq_ok_iff hext p host

/-! ## Real limits -/

/-- The limits of the policy are numbers, are not zero and lie within the host, with the
    millicores computed by `mul`. -/
structure RealLimits (mul : F64 → ℕ → F64) (p : SandboxPolicy) (host : HostCapacity) (mem : ℕ)
    (q : ℚ) : Prop where
  memoryBytes : p.resources.memoryBytes = .ok mem
  one_le_memory : 1 ≤ mem
  memory_le : mem ≤ host.memoryBytes
  cpus : p.resources.cpus = .finite q
  cpus_pos : 0 < q
  cpus_le : q * 1000 ≤ host.millicores
  one_le_millicores : 1 ≤ p.resources.millicoresBy mul
  millicores_le : p.resources.millicoresBy mul ≤ host.millicores

/-- A policy whose limits are no limits: a memory size of zero, a share of the processor that is
    no number or rounds to zero, or one beyond the host. -/
def Degenerate (p : SandboxPolicy) (host : HostCapacity) : Prop :=
  p.resources.memoryBytes = .ok 0 ∨ p.resources.cpus = .nan ∨ p.resources.cpus = .posInf ∨
  ∃ q, p.resources.cpus = .finite q ∧ (q < 1 / 2000 ∨ host.millicores < q * 1000)

/-- Of what the preflight accepts, the real limits are those that are not degenerate. -/
theorem realLimits_iff {mul : F64 → ℕ → F64} {p : SandboxPolicy} {host : HostCapacity} {mem : ℕ}
    (hmul : ∀ q, p.resources.cpus = .finite q → 0 < q →
      (1 ≤ (mul (.finite q) 1000).roundToU64 ↔ 1 / 2000 ≤ q))
    (hvalidate : p.validate = .ok ()) (hcpus : p.resources.millicoresBy mul ≤ host.millicores)
    (hmem : p.resources.memoryBytes = .ok mem) (hle : mem ≤ host.memoryBytes) :
    (∃ q, RealLimits mul p host mem q) ↔ ¬ Degenerate p host := by
  have hsign := (SandboxPolicy.validate_eq_ok_iff.mp hvalidate).2.1
  constructor
  · rintro ⟨q, hreal⟩ (hzero | hnan | hinf | ⟨q', hq', hsmall | hlarge⟩)
    · rw [hreal.memoryBytes] at hzero
      have hmem0 : mem = 0 := Except.ok.inj hzero
      exact absurd hreal.one_le_memory (by omega)
    · rw [hreal.cpus] at hnan
      cases hnan
    · rw [hreal.cpus] at hinf
      cases hinf
    · obtain rfl : q = q' := F64.finite.inj (hreal.cpus.symm.trans hq')
      have hone := hreal.one_le_millicores
      rw [ResourcePolicy.millicoresBy, hreal.cpus, hmul q hreal.cpus hreal.cpus_pos] at hone
      exact absurd hone (not_le.mpr hsmall)
    · obtain rfl : q = q' := F64.finite.inj (hreal.cpus.symm.trans hq')
      exact absurd hreal.cpus_le (not_le.mpr hlarge)
  · intro hnot
    simp only [Degenerate, not_or, not_exists, not_and] at hnot
    obtain ⟨hzero, hnan, hinf, hfinite⟩ := hnot
    cases hx : p.resources.cpus with
    | nan => exact absurd hx hnan
    | posInf => exact absurd hx hinf
    | negInf =>
      rw [hx] at hsign
      cases hsign
    | finite q =>
      obtain ⟨hsmall, hlarge⟩ := hfinite q hx
      rw [not_lt] at hsmall hlarge
      have hpos : 0 < q := lt_of_lt_of_le (by norm_num) hsmall
      refine ⟨q, hmem, ?_, hle, hx, hpos, hlarge, ?_, hcpus⟩
      · refine Nat.one_le_iff_ne_zero.mpr fun h => hzero ?_
        rw [hmem, h]
      · rw [ResourcePolicy.millicoresBy, hx, hmul q hx hpos]
        exact hsmall

/-- Every `run` command line of the policy asks for these limits.  The `cpus` text is read as the
    number. -/
def EmitsLimits (p : SandboxPolicy) (mem : ℕ) (q : ℚ) : Prop :=
  ∀ (binary : Option PathBuf) (h : MechHost) (req : CreateRequest) (name : String) (detach : Bool),
    req.policy = p →
    ∃ args line, PodmanMechanism.buildRunArgs { binary } h req name detach = .ok args ∧
      RunLine.decode allowlistGrammar args = some line ∧
      line.memory = [decimal mem] ∧ line.cpus = [(F64.finite q).display] ∧
      ((F64.finite q).IsBinary64 → F64.ofText (F64.finite q).display = some (.finite q))

theorem RealLimits.emitsLimits {mul : F64 → ℕ → F64} {p : SandboxPolicy} {host : HostCapacity}
    {mem : ℕ} {q : ℚ} (h : RealLimits mul p host mem q) : EmitsLimits p mem q := by
  rintro binary mechHost req name detach rfl
  obtain ⟨args, hargs, hline⟩ := PodmanMechanism.decode_buildRunArgs { binary } mechHost req
    name detach PodmanMechanism.defaultImage_head h.memoryBytes
  refine ⟨args, _, hargs, hline, rfl, ?_, F64.ofText_display⟩
  rw [← h.cpus]
  rfl

theorem admits_iff {mul : F64 → ℕ → F64} {ext : Externals} (hext : ext.AllocatesFitting)
    {p : SandboxPolicy} (hmul : ∀ q, p.resources.cpus = .finite q → 0 < q →
      (1 ≤ (mul (.finite q) 1000).roundToU64 ↔ 1 / 2000 ≤ q)) (host : HostCapacity) :
    (preflightBy mul ext p host = .ok () →
      ∃ mem q, RealLimits mul p host mem q ∧ EmitsLimits p mem q) ↔
    (p.validate = .ok () → p.resources.millicoresBy mul ≤ host.millicores →
      (∃ mem, p.resources.memoryBytes = .ok mem ∧ mem ≤ host.memoryBytes) →
      ¬ Degenerate p host) := by
  rw [preflightBy_eq_ok_iff hext]
  constructor
  · rintro h hvalidate hcpus ⟨mem, hmem, hle⟩
    obtain ⟨mem', q, hreal, -⟩ := h ⟨hvalidate, hcpus, mem, hmem, hle⟩
    exact (realLimits_iff hmul hvalidate hcpus hreal.memoryBytes hreal.memory_le).mp ⟨q, hreal⟩
  · rintro h ⟨hvalidate, hcpus, mem, hmem, hle⟩
    obtain ⟨q, hreal⟩ := (realLimits_iff hmul hvalidate hcpus hmem hle).mpr
      (h hvalidate hcpus ⟨mem, hmem, hle⟩)
    exact ⟨mem, q, hreal, hreal.emitsLimits⟩

/-- **What the preflight admits.**  A policy that passes has real limits within the host, and
    its command lines ask for them, exactly if a policy that would pass is not degenerate: with
    `cpus` an exact number, and with the arithmetic of `f64`. -/
theorem preflight_admits_iff (ext : Externals) (hext : ext.AllocatesFitting) (p : SandboxPolicy)
    (host : HostCapacity) :
    ((preflightBy F64.mulNat ext p host = .ok () →
      ∃ mem q, RealLimits F64.mulNat p host mem q ∧ EmitsLimits p mem q) ↔
    (p.validate = .ok () → p.resources.millicoresBy F64.mulNat ≤ host.millicores →
      (∃ mem, p.resources.memoryBytes = .ok mem ∧ mem ≤ host.memoryBytes) →
      ¬ Degenerate p host)) ∧
    (p.resources.cpus.IsBinary64 →
    ((preflight ext p host = .ok () →
      ∃ mem q, RealLimits F64.mulRounded p host mem q ∧ EmitsLimits p mem q) ↔
    (p.validate = .ok () → p.resources.millicores ≤ host.millicores →
      (∃ mem, p.resources.memoryBytes = .ok mem ∧ mem ≤ host.memoryBytes) →
      ¬ Degenerate p host))) := by
  refine ⟨admits_iff hext (fun q _ hq => F64.one_le_roundToU64_mulNat hq) host, fun hbinary => ?_⟩
  refine admits_iff hext (fun q hcpus hq => ?_) host
  rw [hcpus] at hbinary
  exact F64.one_le_roundToU64_mulRounded hq hbinary

/-- Pools that give what they have. -/
def fittingExternals : Externals where
  toYaml := fun _ => .ok "version: 1"
  sha256Hex := fun _ => "00"
  allocate := fun _ capacity amount => if amount ≤ capacity then .ok () else .error "exhausted"

theorem allocatesFitting_fittingExternals : fittingExternals.AllocatesFitting := by
  intro pool capacity amount
  change (if amount ≤ capacity then Except.ok () else Except.error "exhausted") = .ok () ↔ _
  split
  · rename_i hfits
    exact iff_of_true rfl hfits
  · rename_i hfits
    exact iff_of_false (fun h => by cases h) hfits

theorem preflight_admits_iff_default :
    ((preflightBy F64.mulNat fittingExternals {} {} = .ok () →
      ∃ mem q, RealLimits F64.mulNat {} {} mem q ∧ EmitsLimits {} mem q) ↔
    (SandboxPolicy.validate {} = .ok () → ResourcePolicy.millicoresBy F64.mulNat {} ≤ 8000 →
      (∃ mem, ResourcePolicy.memoryBytes {} = .ok mem ∧ mem ≤ 8 * 1024 * 1024 * 1024) →
      ¬ Degenerate {} {})) ∧
    ((preflight fittingExternals {} {} = .ok () →
      ∃ mem q, RealLimits F64.mulRounded {} {} mem q ∧ EmitsLimits {} mem q) ↔
    (SandboxPolicy.validate {} = .ok () → ResourcePolicy.millicores {} ≤ 8000 →
      (∃ mem, ResourcePolicy.memoryBytes {} = .ok mem ∧ mem ≤ 8 * 1024 * 1024 * 1024) →
      ¬ Degenerate {} {})) := by
  obtain ⟨hexact, hrounded⟩ :=
    preflight_admits_iff fittingExternals allocatesFitting_fittingExternals {} {}
  exact ⟨hexact, hrounded (by decide +kernel)⟩

/-- `cpus: .nan` passes, and the engine is asked for `--cpus=NaN`. -/
theorem preflight_admits_nan :
    ¬ ∀ (ext : Externals) (p : SandboxPolicy) (host : HostCapacity), ext.AllocatesFitting →
      0 < host.memoryBytes → 0 < host.millicores → preflightBy F64.mulNat ext p host = .ok () →
      ∃ mem q, RealLimits F64.mulNat p host mem q ∧ EmitsLimits p mem q := by
  intro h
  obtain ⟨mem, q, hreal, -⟩ := h fittingExternals { resources := { cpus := .nan } } {}
    allocatesFitting_fittingExternals (by decide) (by decide) rfl
  cases hreal.cpus

end SimpleSandbox
