import SimpleSandbox.Policy

/-!
# The grammar of sizes

`parse_size` looks at the last byte of the trimmed text, cuts the text before that byte, parses
the rest as a `u64` and multiplies.  Followed byte by byte, with every step at which it could
stop the program, it returns on every text; and it returns a size exactly for the texts of the
grammar whose value fits 64 bits.
-/

namespace SimpleSandbox

open RustText

/-! ## Byte by byte -/

/-- The pattern that binds the last byte: one of `KkMmGgTt`. -/
def isSuffixByte (b : UInt8) : Bool := [75, 107, 77, 109, 71, 103, 84, 116].contains b

/-- The multiplier of a suffix byte; `none` is the `unreachable!` arm. -/
def byteMultiplier (b : UInt8) : Option ℕ :=
  if b = 75 ∨ b = 107 then some 1024
  else if b = 77 ∨ b = 109 then some (1024 * 1024)
  else if b = 71 ∨ b = 103 then some (1024 * 1024 * 1024)
  else if b = 84 ∨ b = 116 then some (1024 * 1024 * 1024 * 1024)
  else none

/-- The number and its multiplier; `none` is a panic. -/
def splitSuffix (s : String) : Option (List Char × ℕ) :=
  match (asBytes s).getLast? with
  | some b =>
    if isSuffixByte b then
      match Utf8Slice.cut s.toList ((asBytes s).length - 1), byteMultiplier b with
      | some num, some mult => some (num, mult)
      | _, _ => none
    else some (s.toList, 1)
  | none => some (s.toList, 1)

/-- `parse_size` with its slices; the outer `none` is a panic. -/
def parseSizeSteps (text : String) : Option (Except PolicyError ℕ) :=
  let s := trim text
  if s = "" then some (.error (.invalid "empty memory size"))
  else
    (splitSuffix s).map fun (num, mult) =>
      match parseU64 num with
      | none => .error (.invalid ("invalid memory size '" ++ s ++ "'"))
      | some value =>
        -- `checked_mul`
        if value * mult < 2 ^ 64 then .ok (value * mult)
        else .error (.invalid ("memory size overflow '" ++ s ++ "'"))

/-! ## The grammar -/

/-- An optional `+`. -/
inductive SizeSign : List Char → Prop
  | none : SizeSign []
  | plus : SizeSign ['+']

/-- One digit or more, with their value. -/
inductive SizeDigits : List Char → ℕ → Prop
  | one (c : Char) (hc : c.isDigit = true) : SizeDigits [c] (c.toNat - '0'.toNat)
  | snoc (ds : List Char) (v : ℕ) (c : Char) (hds : SizeDigits ds v) (hc : c.isDigit = true) :
      SizeDigits (ds ++ [c]) (10 * v + (c.toNat - '0'.toNat))

/-- The power of 1024 behind a suffix letter. -/
def suffixPower : Char → Option ℕ
  | 'K' | 'k' => some 1
  | 'M' | 'm' => some 2
  | 'G' | 'g' => some 3
  | 'T' | 't' => some 4
  | _ => none

/-- At most one suffix letter. -/
inductive SizeSuffix : List Char → ℕ → Prop
  | none : SizeSuffix [] 0
  | letter (c : Char) (k : ℕ) (hc : suffixPower c = some k) : SizeSuffix [c] k

/-- A size: a sign, digits and a suffix with nothing in between. -/
inductive SizeText : List Char → ℕ → ℕ → Prop
  | mk (sign digits suffix : List Char) (v k : ℕ) (hsign : SizeSign sign)
      (hdigits : SizeDigits digits v) (hsuffix : SizeSuffix suffix k) :
      SizeText (sign ++ digits ++ suffix) v k

/-! ## Digits -/

theorem SizeDigits.ne_nil {ds : List Char} {v : ℕ} (h : SizeDigits ds v) : ds ≠ [] := by
  cases h <;> simp

theorem SizeDigits.isDigit {ds : List Char} {v : ℕ} (h : SizeDigits ds v) :
    ∀ c ∈ ds, c.isDigit = true := by
  induction h with
  | one c hc => simpa using hc
  | snoc ds v c hds hc ih =>
    intro d hd
    rcases List.mem_append.mp hd with hd | hd
    · exact ih d hd
    · rw [List.mem_singleton.mp hd]
      exact hc

theorem SizeDigits.value {ds : List Char} {v : ℕ} (h : SizeDigits ds v) :
    Nat.ofDigitChars 10 ds 0 = v := by
  induction h with
  | one c hc => rw [Nat.ofDigitChars_cons, Nat.ofDigitChars_nil, Nat.mul_zero, Nat.zero_add]
  | snoc ds v c hds hc ih =>
    rw [Nat.ofDigitChars_append, ih, Nat.ofDigitChars_cons, Nat.ofDigitChars_nil]

/-- Digits have a value. -/
theorem sizeDigits_of_isDigit {ds : List Char} (hne : ds ≠ [])
    (hds : ∀ c ∈ ds, c.isDigit = true) : SizeDigits ds (Nat.ofDigitChars 10 ds 0) := by
  induction ds using List.reverseRecOn with
  | nil => exact absurd rfl hne
  | append_singleton ds c ih =>
    have hc : c.isDigit = true := hds c (by simp)
    rw [Nat.ofDigitChars_append, Nat.ofDigitChars_cons, Nat.ofDigitChars_nil]
    by_cases hnil : ds = []
    · subst hnil
      rw [Nat.ofDigitChars_nil, Nat.mul_zero, Nat.zero_add]
      exact .one c hc
    · exact .snoc ds _ c (ih hnil fun d hd => hds d (by simp [hd])) hc

/-- **What the integer parser accepts.** -/
theorem parseU64_eq_some_iff {cs : List Char} {v : ℕ} :
    parseU64 cs = some v ↔
      ∃ sign digits, SizeSign sign ∧ SizeDigits digits v ∧ cs = sign ++ digits ∧ v < 2 ^ 64 := by
  -- the digits are what is left behind a `+`
  have hstrip : ∀ ds : List Char, (if ds = [] ∨ ds.any (fun c => !c.isDigit) then none
      else if Nat.ofDigitChars 10 ds 0 < 2 ^ 64 then some (Nat.ofDigitChars 10 ds 0)
        else none) = some v ↔ SizeDigits ds v ∧ v < 2 ^ 64 := by
    intro ds
    constructor
    · intro h
      split at h
      · cases h
      · rename_i hds
        rw [not_or, Bool.not_eq_true, List.any_eq_false] at hds
        split at h
        · rename_i hlt
          obtain rfl := Option.some.inj h
          exact ⟨sizeDigits_of_isDigit hds.1 fun c hc => by simpa using hds.2 c hc, hlt⟩
        · cases h
    · rintro ⟨hdigits, hlt⟩
      have hgood : ¬ (ds = [] ∨ ds.any (fun c => !c.isDigit)) := by
        rw [not_or, Bool.not_eq_true, List.any_eq_false]
        exact ⟨hdigits.ne_nil, fun c hc => by simp [hdigits.isDigit c hc]⟩
      rw [if_neg hgood, hdigits.value, if_pos hlt]
  unfold parseU64
  refine (hstrip _).trans ⟨?_, ?_⟩
  · rintro ⟨hdigits, hlt⟩
    split at hdigits
    · exact ⟨['+'], _, .plus, hdigits, rfl, hlt⟩
    · exact ⟨[], _, .none, hdigits, rfl, hlt⟩
  · rintro ⟨sign, digits, hsign, hdigits, rfl, hlt⟩
    refine ⟨?_, hlt⟩
    cases hsign with
    | plus => exact hdigits
    | none =>
      rw [List.nil_append]
      split
      · have hplus : '+'.isDigit = true := hdigits.isDigit '+' (by simp)
        cases hplus
      · exact hdigits

/-! ## Suffixes -/

theorem sizeSuffix_eq (c : Char) : sizeSuffix c = (suffixPower c).map (1024 ^ ·) := by
  unfold sizeSuffix suffixPower
  split <;> simp [*]

theorem suffixPower_of_isDigit {c : Char} (hc : c.isDigit = true) : suffixPower c = none := by
  unfold suffixPower
  split <;> first | cases hc | rfl

theorem suffixPower_ne_zero (c : Char) : suffixPower c ≠ some 0 := by
  unfold suffixPower
  split <;> simp

/-- A letter counts with its power, and nothing else ends a size but a digit. -/
theorem SizeText.last {cs : List Char} {v k : ℕ} (h : SizeText cs v k) :
    ∃ init c, cs = init ++ [c] ∧
      (c.isDigit = true ∧ k = 0 ∧ SizeText cs v 0 ∨ suffixPower c = some k ∧ SizeText init v 0) := by
  obtain ⟨sign, digits, suffix, v, k, hsign, hdigits, hsuffix⟩ := h
  cases hsuffix with
  | none =>
    obtain ⟨before, c, rfl⟩ := (List.eq_nil_or_concat' digits).resolve_left hdigits.ne_nil
    refine ⟨sign ++ before, c, by simp, Or.inl ⟨?_, rfl, .mk sign _ [] v 0 hsign hdigits .none⟩⟩
    exact hdigits.isDigit c (by simp)
  | letter c k hc =>
    refine ⟨sign ++ digits, c, rfl, Or.inr ⟨hc, ?_⟩⟩
    have hbare := SizeText.mk sign digits [] v 0 hsign hdigits .none
    rwa [List.append_nil] at hbare

theorem SizeText.of_concat {init : List Char} {c : Char} {v k : ℕ}
    (h : SizeText (init ++ [c]) v k) :
    c.isDigit = true ∧ k = 0 ∧ SizeText (init ++ [c]) v 0 ∨
      suffixPower c = some k ∧ SizeText init v 0 := by
  obtain ⟨init', c', hcs, hcase⟩ := h.last
  obtain ⟨rfl, hcc⟩ := List.append_inj' hcs rfl
  obtain rfl := List.singleton_inj.mp hcc
  exact hcase

theorem sizeText_zero_iff {cs : List Char} {v : ℕ} :
    SizeText cs v 0 ↔ ∃ sign digits, SizeSign sign ∧ SizeDigits digits v ∧ cs = sign ++ digits := by
  constructor
  · intro h
    cases h with
    | mk sign digits suffix v k hsign hdigits hsuffix =>
      cases hsuffix with
      | none => exact ⟨sign, digits, hsign, hdigits, List.append_nil _⟩
      | letter c k hc => exact absurd hc (suffixPower_ne_zero c)
  · rintro ⟨sign, digits, hsign, hdigits, rfl⟩
    have hbare := SizeText.mk sign digits [] v 0 hsign hdigits .none
    rwa [List.append_nil] at hbare

theorem parseU64_eq_some_iff_sizeText {cs : List Char} {v : ℕ} :
    parseU64 cs = some v ↔ SizeText cs v 0 ∧ v < 2 ^ 64 := by
  rw [parseU64_eq_some_iff, sizeText_zero_iff]
  constructor
  · rintro ⟨sign, digits, hsign, hdigits, hcs, hlt⟩
    exact ⟨⟨sign, digits, hsign, hdigits, hcs⟩, hlt⟩
  · rintro ⟨⟨sign, digits, hsign, hdigits, hcs⟩, hlt⟩
    exact ⟨sign, digits, hsign, hdigits, hcs, hlt⟩

theorem sizeText_append_letter {init : List Char} {c : Char} {v k : ℕ} (h : SizeText init v 0)
    (hc : suffixPower c = some k) : SizeText (init ++ [c]) v k := by
  obtain ⟨sign, digits, hsign, hdigits, rfl⟩ := sizeText_zero_iff.mp h
  exact .mk sign digits [c] v k hsign hdigits (.letter c k hc)

/-! ## The number and the multiplier -/

/-- The number and the multiplier, by the last character. -/
def sizeParts (cs : List Char) : List Char × ℕ :=
  match cs.getLast?.bind sizeSuffix with
  | some m => (cs.dropLast, m)
  | none => (cs, 1)

theorem parseSize_eq (text : String) :
    parseSize text =
      if trim text = "" then .error (.invalid "empty memory size")
      else
        match parseU64 (sizeParts (trim text).toList).1 with
        | none => .error (.invalid ("invalid memory size '" ++ trim text ++ "'"))
        | some value =>
          if value * (sizeParts (trim text).toList).2 < 2 ^ 64 then
            .ok (value * (sizeParts (trim text).toList).2)
          else .error (.invalid ("memory size overflow '" ++ trim text ++ "'")) := by
  unfold parseSize sizeParts
  refine if_congr Iff.rfl rfl ?_
  cases (trim text).toList.getLast?.bind sizeSuffix with
  | some m =>
    cases h : parseU64 (trim text).toList.dropLast with
    | none => simp only [h]
    | some value => simp only [h]
  | none =>
    cases h : parseU64 (trim text).toList with
    | none => simp only [h]
    | some value => simp only [h]

theorem sizeParts_letter {init : List Char} {c : Char} {k : ℕ} (hc : suffixPower c = some k) :
    sizeParts (init ++ [c]) = (init, 1024 ^ k) := by
  have hlast : (init ++ [c]).getLast?.bind sizeSuffix = some (1024 ^ k) := by
    rw [List.getLast?_concat, Option.bind_some, sizeSuffix_eq, hc]
    rfl
  simp only [sizeParts, hlast, List.dropLast_concat]

theorem sizeParts_other {init : List Char} {c : Char} (hc : suffixPower c = none) :
    sizeParts (init ++ [c]) = (init ++ [c], 1) := by
  have hlast : (init ++ [c]).getLast?.bind sizeSuffix = none := by
    rw [List.getLast?_concat, Option.bind_some, sizeSuffix_eq, hc]
    rfl
  simp only [sizeParts, hlast]

/-- The multiplier is a power of 1024, and the text is a size with that power exactly when the
    number is one without a suffix. -/
theorem sizeText_iff_parts (cs : List Char) :
    ∃ k, (sizeParts cs).2 = 1024 ^ k ∧
      ∀ v k', SizeText cs v k' ↔ k' = k ∧ SizeText (sizeParts cs).1 v 0 := by
  rcases List.eq_nil_or_concat' cs with rfl | ⟨init, c, rfl⟩
  · refine ⟨0, rfl, fun v k' => ?_⟩
    have hnone : ∀ k, ¬ SizeText [] v k := by
      intro k h
      obtain ⟨init, c, hcs, -⟩ := h.last
      simp at hcs
    exact iff_of_false (hnone k') fun h => hnone 0 h.2
  · cases hc : suffixPower c with
    | some k =>
      refine ⟨k, by rw [sizeParts_letter hc], fun v k' => ?_⟩
      rw [sizeParts_letter hc]
      constructor
      · intro h
        rcases h.of_concat with ⟨hdigit, -, -⟩ | ⟨hpower, hnum⟩
        · rw [suffixPower_of_isDigit hdigit] at hc
          cases hc
        · rw [hc] at hpower
          exact ⟨(Option.some.inj hpower).symm, hnum⟩
      · rintro ⟨rfl, hnum⟩
        exact sizeText_append_letter hnum hc
    | none =>
      refine ⟨0, by rw [sizeParts_other hc]; rfl, fun v k' => ?_⟩
      rw [sizeParts_other hc]
      constructor
      · intro h
        rcases h.of_concat with ⟨-, hk, hnum⟩ | ⟨hpower, -⟩
        · exact ⟨hk, hnum⟩
        · rw [hc] at hpower
          cases hpower
      · rintro ⟨rfl, hnum⟩
        exact hnum

/-- **The grammar, with exact arithmetic.** -/
theorem parseSize_eq_ok_iff {text : String} {n : ℕ} :
    parseSize text = .ok n ↔
      ∃ v k, SizeText (trim text).toList v k ∧ v * 1024 ^ k < 2 ^ 64 ∧ n = v * 1024 ^ k := by
  obtain ⟨k, hmult, hsize⟩ := sizeText_iff_parts (trim text).toList
  rw [parseSize_eq, hmult]
  constructor
  · intro h
    split at h
    · cases h
    · split at h
      · cases h
      · rename_i value hvalue
        split at h
        · rename_i hlt
          obtain ⟨hnum, -⟩ := parseU64_eq_some_iff_sizeText.mp hvalue
          exact ⟨value, k, (hsize value k).mpr ⟨rfl, hnum⟩, hlt, (Except.ok.inj h).symm⟩
        · cases h
  · rintro ⟨v, k', htext, hlt, rfl⟩
    have hne : trim text ≠ "" := by
      intro hempty
      obtain ⟨init, c, hcs, -⟩ := htext.last
      rw [hempty] at hcs
      simp at hcs
    obtain ⟨rfl, hnum⟩ := (hsize v k').mp htext
    have hsmall : v < 2 ^ 64 :=
      Nat.lt_of_le_of_lt (Nat.le_mul_of_pos_right v (Nat.pow_pos (by decide))) hlt
    rw [if_neg hne, parseU64_eq_some_iff_sizeText.mpr ⟨hnum, hsmall⟩]
    exact if_pos hlt

/-- What is not a size is an invalid policy. -/
theorem parseSize_ok_or_invalid (text : String) :
    (∃ n, parseSize text = .ok n) ∨ ∃ message, parseSize text = .error (.invalid message) := by
  rw [parseSize_eq]
  split
  · exact Or.inr ⟨_, rfl⟩
  · split
    · exact Or.inr ⟨_, rfl⟩
    · split
      · exact Or.inl ⟨_, rfl⟩
      · exact Or.inr ⟨_, rfl⟩

/-! ## No step stops the program -/

/-- A suffix byte is a suffix letter, and has its multiplier. -/
theorem letter_of_isSuffixByte {b : UInt8} (hb : isSuffixByte b = true) :
    b.toNat < 128 ∧ ∃ c k, suffixPower c = some k ∧ c.toNat = b.toNat ∧
      byteMultiplier b = some (1024 ^ k) := by
  simp only [isSuffixByte, List.contains_iff_mem, List.mem_cons, List.not_mem_nil, or_false] at hb
  rcases hb with rfl | rfl | rfl | rfl | rfl | rfl | rfl | rfl
  · exact ⟨by decide, 'K', 1, rfl, rfl, rfl⟩
  · exact ⟨by decide, 'k', 1, rfl, rfl, rfl⟩
  · exact ⟨by decide, 'M', 2, rfl, rfl, rfl⟩
  · exact ⟨by decide, 'm', 2, rfl, rfl, rfl⟩
  · exact ⟨by decide, 'G', 3, rfl, rfl, rfl⟩
  · exact ⟨by decide, 'g', 3, rfl, rfl, rfl⟩
  · exact ⟨by decide, 'T', 4, rfl, rfl, rfl⟩
  · exact ⟨by decide, 't', 4, rfl, rfl, rfl⟩

theorem isSuffixByte_of_letter {c : Char} {k : ℕ} (hc : suffixPower c = some k) :
    c.toNat < 128 ∧ isSuffixByte (UInt8.ofNat c.toNat) = true := by
  unfold suffixPower at hc
  split at hc <;> first | exact ⟨by decide, by decide⟩ | cases hc

/-- **The cut is at a character boundary**, and it takes off the suffix letter. -/
theorem splitSuffix_eq (s : String) : splitSuffix s = some (sizeParts s.toList) := by
  rw [splitSuffix, asBytes_eq_encode]
  cases hlast : (Utf8Slice.encode s.toList).getLast? with
  | none =>
    rw [List.getLast?_eq_none_iff, Utf8Slice.encode_eq_nil_iff] at hlast
    rw [hlast]
    rfl
  | some b =>
    by_cases hb : isSuffixByte b = true
    · obtain ⟨hlt, c₀, k, hpower, hbyte, hmult⟩ := letter_of_isSuffixByte hb
      obtain ⟨init, c, hcs, hc, hcut⟩ := Utf8Slice.cut_of_getLast? hlast hlt
      obtain rfl : c = c₀ := Char.toNat_inj.mp (hc.trans hbyte.symm)
      rw [hcs] at hcut ⊢
      simp only [hb, hcut, hmult, if_true, sizeParts_letter hpower]
    · obtain ⟨init, c, hcs⟩ := (List.eq_nil_or_concat' s.toList).resolve_left fun hnil => by
        rw [hnil] at hlast
        cases hlast
      cases hpower : suffixPower c with
      | some k =>
        obtain ⟨hlt, hletter⟩ := isSuffixByte_of_letter hpower
        rw [hcs, Utf8Slice.getLast?_encode hlt] at hlast
        rw [← Option.some.inj hlast] at hb
        exact absurd hletter hb
      | none =>
        simp only [if_neg hb]
        rw [hcs, sizeParts_other hpower]

theorem parseSizeSteps_eq (text : String) : parseSizeSteps text = some (parseSize text) := by
  rw [parseSizeSteps, parseSize_eq]
  by_cases hempty : trim text = ""
  · rw [if_pos hempty, if_pos hempty]
  · simp only [if_neg hempty, splitSuffix_eq]
    rfl

/-- **`parse_size` accepts its grammar.**  It returns on every text; it returns a size exactly
    for a sign, digits and a suffix whose value fits 64 bits, and that value; on every other
    text it returns an error.  The trimmed text is the one the ends of which are not
    whitespace, with whitespace before and after it. -/
theorem parse_size_grammar (text : String) :
    parseSizeSteps text = some (parseSize text) ∧
    (∀ n, parseSize text = .ok n ↔
      ∃ v k, SizeText (trim text).toList v k ∧ v * 1024 ^ k < 2 ^ 64 ∧ n = v * 1024 ^ k) ∧
    ((∃ n, parseSize text = .ok n) ∨ ∃ message, parseSize text = .error (.invalid message)) ∧
    ∀ t, trim text = t ↔ IsTrimmed text t :=
  ⟨parseSizeSteps_eq text, fun _ => parseSize_eq_ok_iff, parseSize_ok_or_invalid text,
    fun _ => trim_eq_iff⟩

-- the largest size, the first one that does not fit, and a letter that is not ASCII
example : parseSize " +16777215T\n" = .ok (16777215 * 1024 ^ 4) := by decide
example : parseSize "16777216T" = .error (.invalid "memory size overflow '16777216T'") := by decide
example : parseSizeSteps "1\u212a" = some (.error (.invalid "invalid memory size '1\u212a'")) := by
  decide

end SimpleSandbox
