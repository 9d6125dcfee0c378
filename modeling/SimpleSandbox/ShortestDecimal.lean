import SimpleSandbox.Binary64
import Mathlib.Algebra.Order.Floor.Ring
import Mathlib.Tactic.FieldSimp
import Mathlib.Tactic.Positivity

/-!
# Shortest decimals

A binary64 number is printed as the decimal with the fewest places that is read back as the
number, of two such decimals as the nearer one.  A numeral is read as the nearest binary64
number, so what is printed is read as what it was.
-/

namespace SimpleSandbox.Binary64

/-! ## Numerals -/

/-- The decimal digits of `num / den < 1`, up to the last non-zero one. -/
def fractionDigits (den : ℕ) : ℕ → ℕ → List Char
  | 0, _ => []
  | fuel + 1, num =>
      if num = 0 then []
      else Nat.digitChar (num * 10 / den) :: fractionDigits den fuel (num * 10 % den)

/-- The numeral of a number with at most 1074 decimal places: no exponent, and no point for an
    integer. -/
def numeral (q : ℚ) : List Char :=
  let fraction := fractionDigits q.den 1074 (q.num.natAbs % q.den)
  Nat.toDigits 10 (q.num.natAbs / q.den) ++ if fraction = [] then [] else '.' :: fraction

/-- The number a numeral stands for. -/
def readNumeral (text : List Char) : Option ℚ :=
  let whole := text.takeWhile (· ≠ '.')
  let fraction := (text.dropWhile (· ≠ '.')).drop 1
  if whole = [] ∨ (whole ++ fraction).any (fun c => !c.isDigit) then none
  else some (Nat.ofDigitChars 10 (whole ++ fraction) 0 / 10 ^ fraction.length)

theorem isDigit_of_mem_fractionDigits {den : ℕ} (hden : 0 < den) {fuel num : ℕ} (hnum : num < den)
    {c : Char} (h : c ∈ fractionDigits den fuel num) : c.isDigit = true := by
  induction fuel generalizing num with
  | zero => exact nomatch h
  | succ fuel ih =>
    rw [fractionDigits] at h
    split at h
    · exact nomatch h
    · rcases List.mem_cons.mp h with rfl | hrest
      · have hdigit : num * 10 / den < 10 := (Nat.div_lt_iff_lt_mul hden).mpr (by omega)
        rw [Nat.isDigit_digitChar]
        simpa using hdigit
      · exact ih (Nat.mod_lt _ hden) hrest

/-- The digits add up to the fraction if it comes to an end in time. -/
theorem ofDigitChars_fractionDigits {den : ℕ} (hden : 0 < den) {fuel num : ℕ} (hnum : num < den)
    (hend : den ∣ num * 10 ^ fuel) :
    (Nat.ofDigitChars 10 (fractionDigits den fuel num) 0 : ℚ) /
      10 ^ (fractionDigits den fuel num).length = num / den := by
  have hden' : (den : ℚ) ≠ 0 := by exact_mod_cast hden.ne'
  induction fuel generalizing num with
  | zero =>
    have hzero : num = 0 := Nat.eq_zero_of_dvd_of_lt (by simpa using hend) hnum
    simp [fractionDigits, hzero]
  | succ fuel ih =>
    rw [fractionDigits]
    split
    · rename_i hzero
      simp [hzero]
    · have hdigit : num * 10 / den < 10 := (Nat.div_lt_iff_lt_mul hden).mpr (by omega)
      have hsplit : den * (num * 10 / den) + num * 10 % den = num * 10 := Nat.div_add_mod _ _
      have hrest : den ∣ num * 10 % den * 10 ^ fuel := by
        have hwhole : den ∣ (den * (num * 10 / den) + num * 10 % den) * 10 ^ fuel := by
          rw [hsplit, mul_assoc, ← pow_succ']
          exact hend
        rw [add_mul, mul_assoc] at hwhole
        exact (Nat.dvd_add_right (Nat.dvd_mul_right _ _)).mp hwhole
      have hvalue := ih (Nat.mod_lt _ hden) hrest
      rw [Nat.ofDigitChars_cons_digitChar_of_lt_ten hdigit, Nat.ofDigitChars_eq_ofDigitChars_zero,
        List.length_cons]
      generalize fractionDigits den fuel (num * 10 % den) = rest at hvalue ⊢
      have hpow : (10 : ℚ) ^ rest.length ≠ 0 := by positivity
      have hsplit' : (den : ℚ) * (num * 10 / den : ℕ) + (num * 10 % den : ℕ) = num * 10 := by
        exact_mod_cast hsplit
      rw [div_eq_div_iff hpow hden'] at hvalue
      rw [div_eq_div_iff (by positivity) hden']
      push_cast
      calc (10 ^ rest.length * (0 + (num * 10 / den : ℕ)) + Nat.ofDigitChars 10 rest 0 : ℚ) * den
          = 10 ^ rest.length * (den * (num * 10 / den : ℕ)) +
              Nat.ofDigitChars 10 rest 0 * den := by ring
        _ = 10 ^ rest.length * (den * (num * 10 / den : ℕ) + (num * 10 % den : ℕ)) := by
              rw [hvalue]; ring
        _ = num * 10 ^ (rest.length + 1) := by rw [hsplit']; ring

/-- A number with at most 1074 decimal places. -/
def IsDecimal (q : ℚ) : Prop := 0 ≤ q ∧ ∃ n : ℕ, q * 10 ^ 1074 = n

theorem num_eq_natAbs {q : ℚ} (h : 0 ≤ q) : (q.num : ℚ) = q.num.natAbs := by
  rw [← Int.cast_natCast, Int.natAbs_of_nonneg (Rat.num_nonneg.mpr h)]

/-- The denominator is used up by the places. -/
theorem den_dvd_mod {q : ℚ} (h : 0 ≤ q) {places n : ℕ} (hn : q * 10 ^ places = n) :
    q.den ∣ q.num.natAbs % q.den * 10 ^ places := by
  have hwhole : q.num.natAbs * 10 ^ places = q.den * n := by
    have hscaled : (q.num.natAbs : ℚ) * 10 ^ places = q.den * n := by
      rw [← hn, ← num_eq_natAbs h, ← mul_assoc, mul_comm (q.den : ℚ), Rat.mul_den_eq_num]
    exact_mod_cast hscaled
  have hsum : q.den ∣ (q.den * (q.num.natAbs / q.den) + q.num.natAbs % q.den) * 10 ^ places := by
    rw [Nat.div_add_mod, hwhole]
    exact Nat.dvd_mul_right _ _
  rw [add_mul, mul_assoc] at hsum
  exact (Nat.dvd_add_right (Nat.dvd_mul_right _ _)).mp hsum

/-- A numeral begins with a digit. -/
theorem head_numeral (q : ℚ) : ∃ c, (numeral q).head? = some c ∧ c.isDigit = true := by
  have hdigits : ∀ c ∈ Nat.toDigits 10 (q.num.natAbs / q.den), c.isDigit = true := fun c hc =>
    Nat.isDigit_of_mem_toDigits (by decide) (by decide) hc
  cases hwhole : Nat.toDigits 10 (q.num.natAbs / q.den) with
  | nil => exact absurd hwhole Nat.toDigits_ne_nil
  | cons c rest =>
    refine ⟨c, ?_, hdigits c (hwhole ▸ List.mem_cons_self)⟩
    rw [numeral, hwhole]
    rfl

theorem ne_point_of_isDigit {c : Char} (h : c.isDigit = true) : c ≠ '.' := by
  rintro rfl
  exact absurd h (by decide)

/-- A numeral is read as its number. -/
theorem readNumeral_numeral {q : ℚ} (h : IsDecimal q) : readNumeral (numeral q) = some q := by
  have hpos : 0 < q.den := q.den_pos
  have hrest : q.num.natAbs % q.den < q.den := Nat.mod_lt _ hpos
  have hdigits : ∀ c ∈ fractionDigits q.den 1074 (q.num.natAbs % q.den), c.isDigit = true :=
    fun _ => isDigit_of_mem_fractionDigits hpos hrest
  obtain ⟨hnonneg, n, hn⟩ := h
  have hvalue := ofDigitChars_fractionDigits hpos hrest (den_dvd_mod hnonneg hn)
  rw [numeral]
  generalize fractionDigits q.den 1074 (q.num.natAbs % q.den) = fraction at hdigits hvalue ⊢
  set whole := Nat.toDigits 10 (q.num.natAbs / q.den) with hwhole
  have hwholeDigits : ∀ c ∈ whole, c.isDigit = true := fun c hc =>
    Nat.isDigit_of_mem_toDigits (by decide) (by decide) hc
  have hne : whole ≠ [] := Nat.toDigits_ne_nil
  have hpoint : ∀ c ∈ whole, decide (c ≠ '.') = true := fun c hc =>
    decide_eq_true (ne_point_of_isDigit (hwholeDigits c hc))
  -- the point is the first character that is no digit
  have htake : (whole ++ if fraction = [] then [] else '.' :: fraction).takeWhile (· ≠ '.') =
      whole := by
    rw [List.takeWhile_append_of_pos hpoint]
    split <;> simp
  have hdrop : ((whole ++ if fraction = [] then [] else '.' :: fraction).dropWhile
      (· ≠ '.')).drop 1 = fraction := by
    rw [List.dropWhile_append_of_pos hpoint]
    split
    · rename_i hnil
      simp [hnil]
    · simp
  have hall : ¬(whole = [] ∨ (whole ++ fraction).any (fun c => !c.isDigit) = true) := by
    rintro (hnil | hany)
    · exact hne hnil
    · obtain ⟨c, hc, hnot⟩ := List.any_eq_true.mp hany
      have hdigit : c.isDigit = true := by
        rcases List.mem_append.mp hc with hc | hc
        · exact hwholeDigits c hc
        · exact hdigits c hc
      rw [hdigit] at hnot
      cases hnot
  rw [readNumeral, htake, hdrop, if_neg hall, Nat.ofDigitChars_append, hwhole,
    Nat.ofDigitChars_ten_toDigits, Nat.ofDigitChars_eq_ofDigitChars_zero]
  refine congrArg some ?_
  have hpow : (10 : ℚ) ^ fraction.length ≠ 0 := by positivity
  have hden : (q.den : ℚ) ≠ 0 := by exact_mod_cast hpos.ne'
  have hsplit : (q.den : ℚ) * (q.num.natAbs / q.den : ℕ) + (q.num.natAbs % q.den : ℕ) =
      q.num.natAbs := by
    exact_mod_cast Nat.div_add_mod q.num.natAbs q.den
  push_cast
  calc ((10 : ℚ) ^ fraction.length * (q.num.natAbs / q.den : ℕ) + Nat.ofDigitChars 10 fraction 0) /
        10 ^ fraction.length
      = (q.num.natAbs / q.den : ℕ) + Nat.ofDigitChars 10 fraction 0 / 10 ^ fraction.length := by
        rw [add_div, mul_div_cancel_left₀ _ hpow]
    _ = (q.num.natAbs / q.den : ℕ) + (q.num.natAbs % q.den : ℕ) / q.den := by rw [hvalue]
    _ = (q.den * (q.num.natAbs / q.den : ℕ) + (q.num.natAbs % q.den : ℕ)) / q.den := by
        rw [add_div, mul_div_cancel_left₀ _ hden]
    _ = q := by rw [hsplit, ← num_eq_natAbs hnonneg, Rat.num_div_den]

/-! ## The shortest decimal -/

/-- The nearest decimal with so many places, of the two next to the number those that are read
    back as it. -/
def atPlaces (q : ℚ) (places : ℤ) : Option ℚ :=
  let down : ℚ := ⌊q * 10 ^ places⌋ * 10 ^ (-places)
  let up : ℚ := (⌊q * 10 ^ places⌋ + 1) * 10 ^ (-places)
  if roundNearest down = q ∧ (roundNearest up ≠ q ∨ q - down < up - q) then some down
  else if roundNearest up = q then some up else none

/-- The first number of places at which there is one. -/
def searchPlaces (q : ℚ) : ℕ → ℤ → ℚ
  | 0, _ => q
  | fuel + 1, places => (atPlaces q places).getD (searchPlaces q fuel (places + 1))

/-- The decimal with the fewest places that is read back as the number.  A number of places
    below zero stands for zeros before the point. -/
def shortest (q : ℚ) : ℚ :=
  let digits := (Nat.toDigits 10 ⌊q⌋.natAbs).length
  searchPlaces q (digits + 1074) (-digits)

/-- A number of binary64, its sign and the bound on its exponent aside. -/
def IsRounded (q : ℚ) : Prop := 0 ≤ q ∧ roundNearest q = q

/-- Multiples of a power of two need as many decimal places as binary ones. -/
theorem zpow_two_mul_pow_ten {e : ℤ} {places : ℕ} (h : -(places : ℤ) ≤ e) :
    ∃ k : ℕ, (2 : ℚ) ^ e * 10 ^ places = 2 ^ k * 5 ^ places := by
  obtain ⟨k, hk⟩ := Int.eq_ofNat_of_zero_le (show 0 ≤ e + places by omega)
  refine ⟨k, ?_⟩
  have hpow : (2 : ℚ) ^ e * 2 ^ places = 2 ^ k := by
    rw [← zpow_natCast (2 : ℚ) places, ← zpow_add₀ (by norm_num), hk, zpow_natCast]
  rw [show (10 : ℚ) = 2 * 5 by norm_num, mul_pow, ← mul_assoc, hpow]

/-- An integer multiple of a power of two, not negative, has as many decimal places. -/
theorem natural_of_mul_zpow {q : ℚ} (h : 0 ≤ q) {m e : ℤ} {places : ℕ} (hq : q = m * 2 ^ e)
    (he : -(places : ℤ) ≤ e) : ∃ n : ℕ, q * 10 ^ places = n := by
  obtain ⟨k, hk⟩ := zpow_two_mul_pow_ten he
  have hint : q * 10 ^ places = (m * (2 ^ k * 5 ^ places) : ℤ) := by
    push_cast
    rw [hq, mul_assoc, hk]
  have hnonneg : 0 ≤ (m * (2 ^ k * 5 ^ places) : ℤ) := by
    have hprod : (0 : ℚ) ≤ q * 10 ^ places := mul_nonneg h (by positivity)
    rw [hint] at hprod
    exact_mod_cast hprod
  obtain ⟨n, hn⟩ := Int.eq_ofNat_of_zero_le hnonneg
  refine ⟨n, ?_⟩
  rw [hint, hn, Int.cast_natCast]

instance (q : ℚ) : Decidable (IsRounded q) := inferInstanceAs (Decidable (_ ∧ _))

theorem isDecimal_of_isRounded {q : ℚ} (h : IsRounded q) : IsDecimal q :=
  ⟨h.1, natural_of_mul_zpow h.1 h.2.symm (le_max_right _ _)⟩

/-- A whole number of places is a decimal. -/
theorem isDecimal_of_places {n places : ℤ} (hn : 0 ≤ n) (hplaces : places ≤ 1074) :
    IsDecimal (n * 10 ^ (-places)) := by
  refine ⟨mul_nonneg (by exact_mod_cast hn) (by positivity), ?_⟩
  obtain ⟨k, hk⟩ := Int.eq_ofNat_of_zero_le (show 0 ≤ 1074 - places by omega)
  obtain ⟨m, rfl⟩ := Int.eq_ofNat_of_zero_le hn
  refine ⟨m * 10 ^ k, ?_⟩
  have hpow : (10 : ℚ) ^ (-places) * 10 ^ 1074 = 10 ^ k := by
    rw [← zpow_natCast (10 : ℚ) 1074, ← zpow_add₀ (by norm_num),
      show -places + ((1074 : ℕ) : ℤ) = (k : ℤ) by push_cast; omega, zpow_natCast]
  rw [mul_assoc, hpow, Int.cast_natCast, Nat.cast_mul, Nat.cast_pow, Nat.cast_ofNat]

theorem atPlaces_spec {q c : ℚ} {places : ℤ} (hq : 0 ≤ q) (hplaces : places ≤ 1074)
    (h : atPlaces q places = some c) : roundNearest c = q ∧ IsDecimal c := by
  have hfloor : 0 ≤ ⌊q * 10 ^ places⌋ := Int.floor_nonneg.mpr (mul_nonneg hq (by positivity))
  have hdown := isDecimal_of_places hfloor hplaces
  have hup : IsDecimal ((⌊q * 10 ^ places⌋ + 1) * 10 ^ (-places)) := by
    have hsucc := isDecimal_of_places (show 0 ≤ ⌊q * 10 ^ places⌋ + 1 by omega) hplaces
    push_cast at hsucc
    exact hsucc
  simp only [atPlaces] at h
  split at h
  · rename_i hback
    cases h
    exact ⟨hback.1, hdown⟩
  · split at h
    · rename_i hback
      cases h
      exact ⟨hback, hup⟩
    · cases h

/-- The search keeps to 1074 places and gives a decimal that is read back as the number. -/
theorem searchPlaces_spec {q : ℚ} (hq : IsRounded q) {fuel : ℕ} {places : ℤ}
    (h : places + fuel ≤ 1074) :
    roundNearest (searchPlaces q fuel places) = q ∧ IsDecimal (searchPlaces q fuel places) := by
  induction fuel generalizing places with
  | zero => exact ⟨hq.2, isDecimal_of_isRounded hq⟩
  | succ fuel ih =>
    rw [searchPlaces]
    cases hat : atPlaces q places with
    | none => exact ih (by push_cast at h; omega)
    | some c => exact atPlaces_spec hq.1 (by push_cast at h; omega) hat

theorem shortest_spec {q : ℚ} (hq : IsRounded q) :
    roundNearest (shortest q) = q ∧ IsDecimal (shortest q) :=
  searchPlaces_spec hq (by push_cast; omega)

/-- The numeral of the shortest decimal is read as the number. -/
theorem readNumeral_shortest {q : ℚ} (hq : IsRounded q) :
    (readNumeral (numeral (shortest q))).map roundNearest = some q := by
  obtain ⟨hback, hdecimal⟩ := shortest_spec hq
  rw [readNumeral_numeral hdecimal, Option.map_some, hback]

example : numeral (shortest (3602879701896397 / 36028797018963968)) = "0.1".toList := by
  decide +kernel

end SimpleSandbox.Binary64
