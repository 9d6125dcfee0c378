import SimpleSandbox.Utf8Slice
import Mathlib.Data.List.DropRight
import Mathlib.Data.Nat.Notation

/-!
# Text functions of the Rust standard library

The `str` and `char` methods the sandbox crates call, over Lean strings: Unicode
trimming and whitespace splitting, ASCII case folding, splitting at the last
separator, UTF-8 validation and the decimal form of numbers.  A Rust `str` is a
sequence of Unicode scalar values, as a Lean `String` is, so each function is
stated on the list of characters.
-/

namespace SimpleSandbox.RustText

/-! ## Whitespace -/

/-- `char::is_whitespace`: the code points with the Unicode property `White_Space`. -/
def isWhitespace (c : Char) : Bool :=
  let n := c.toNat
  (9 ≤ n && n ≤ 13) || n == 0x20 || n == 0x85 || n == 0xA0 || n == 0x1680 ||
    (0x2000 ≤ n && n ≤ 0x200A) || n == 0x2028 || n == 0x2029 || n == 0x202F ||
    n == 0x205F || n == 0x3000

/-- `str::trim_start` -/
def trimStart (s : String) : String :=
  String.ofList (s.toList.dropWhile isWhitespace)

/-- `str::trim` -/
def trim (s : String) : String :=
  String.ofList ((s.toList.dropWhile isWhitespace).rdropWhile isWhitespace)

/-- `str::split_whitespace`: the maximal runs of non-whitespace characters. -/
def splitWhitespace (s : String) : List String :=
  ((s.toList.splitOnP isWhitespace).filter (fun w => !w.isEmpty)).map String.ofList

/-- What is cut off is whitespace, and what stays neither begins nor ends with it. -/
def IsTrimmed (s t : String) : Prop :=
  ∃ before after, s.toList = before ++ t.toList ++ after ∧
    (∀ c ∈ before, isWhitespace c = true) ∧ (∀ c ∈ after, isWhitespace c = true) ∧
    (∀ c ∈ t.toList.head?, isWhitespace c = false) ∧
    ∀ c ∈ t.toList.getLast?, isWhitespace c = false

theorem isTrimmed_trim (s : String) : IsTrimmed s (trim s) := by
  have hfirst : ∀ c ∈ (s.toList.dropWhile isWhitespace).head?, isWhitespace c = false := by
    intro c hc
    have hhead := List.head?_dropWhile_not isWhitespace s.toList
    rwa [Option.mem_def.mp hc] at hhead
  refine ⟨s.toList.takeWhile isWhitespace,
    (s.toList.dropWhile isWhitespace).rtakeWhile isWhitespace, ?_, fun c => List.mem_takeWhile_imp,
    fun c => List.mem_rtakeWhile_imp, ?_, ?_⟩
  · rw [trim, String.toList_ofList, List.append_assoc, List.rdropWhile_append_rtakeWhile,
      List.takeWhile_append_dropWhile]
  · intro c hc
    rw [trim, String.toList_ofList] at hc
    obtain ⟨rest, hrest⟩ := List.rdropWhile_prefix isWhitespace (s.toList.dropWhile isWhitespace)
    refine hfirst c ?_
    rw [← hrest, Option.mem_def, List.head?_append, Option.mem_def.mp hc]
    rfl
  · intro c hc
    rw [trim, String.toList_ofList] at hc
    obtain ⟨hne, rfl⟩ := List.mem_getLast?_eq_getLast hc
    simpa using List.rdropWhile_last_not isWhitespace _ hne

/-- Nothing but the trimmed text is one. -/
theorem IsTrimmed.eq_trim {s t : String} (h : IsTrimmed s t) : t = trim s := by
  obtain ⟨before, after, hs, hbefore, hafter, hfirst, hlast⟩ := h
  have hcut : (t.toList ++ after).rdropWhile isWhitespace = t.toList := by
    rw [List.rdropWhile, List.reverse_append,
      List.dropWhile_append_of_pos (by simpa using hafter)]
    refine List.rdropWhile_eq_self_iff.mpr fun hne => ?_
    simpa using hlast _ (List.getLast_mem_getLast? hne)
  apply String.ext
  rw [trim, String.toList_ofList, hs, List.append_assoc, List.dropWhile_append_of_pos hbefore]
  cases ht : t.toList with
  | nil => rw [List.nil_append, List.dropWhile_eq_nil_iff.mpr hafter, List.rdropWhile_nil]
  | cons c cs =>
    have hc : ¬ isWhitespace c = true := by
      simpa using hfirst c (by rw [ht]; rfl)
    rw [ht] at hcut
    rw [List.cons_append, List.dropWhile_cons_of_neg hc, ← List.cons_append, hcut]

theorem trim_eq_iff {s t : String} : trim s = t ↔ IsTrimmed s t := by
  constructor
  · rintro rfl
    exact isTrimmed_trim s
  · intro h
    exact h.eq_trim.symm

/-- Leading whitespace is all that trimming removes from a text whose last
    character is not whitespace. -/
theorem trim_append_of_last {s t : String} {c : Char} (hc : isWhitespace c = false)
    (ht : ∃ u, t.toList = u ++ [c]) (hhead : ∃ d, t.toList.head? = some d ∧ isWhitespace d = false) :
    trim (s ++ t) = trimStart s ++ t := by
  obtain ⟨u, hu⟩ := ht
  obtain ⟨d, hd, hdw⟩ := hhead
  have hdrop : (s.toList ++ t.toList).dropWhile isWhitespace =
      s.toList.dropWhile isWhitespace ++ t.toList := by
    rw [List.dropWhile_append]
    split
    · rename_i hnil
      have hs : s.toList.dropWhile isWhitespace = [] := by simpa using hnil
      cases htl : t.toList with
      | nil => rw [htl] at hd; simp at hd
      | cons e rest =>
        rw [htl] at hd
        have hed : e = d := by simpa using hd
        rw [hs, hed, List.nil_append, List.dropWhile_cons_of_neg (by simp [hdw])]
    · rfl
  apply String.ext
  rw [trim, trimStart, String.toList_append, hdrop, hu, ← List.append_assoc,
    List.rdropWhile_concat_neg _ _ _ (by simp [hc])]
  simp [hu]

/-- A run of non-whitespace characters between two whitespace characters is one
    token. -/
theorem splitWhitespace_cons_token {w rest : List Char} {c : Char}
    (hw : ∀ x ∈ w, isWhitespace x = false) (hne : w ≠ []) (hc : isWhitespace c = true) :
    splitWhitespace (String.ofList (w ++ c :: rest)) =
      String.ofList w :: splitWhitespace (String.ofList rest) := by
  simp only [splitWhitespace, String.toList_ofList]
  rw [List.splitOnP_append_cons_of_forall_mem hw c hc]
  have hkeep : (!w.isEmpty) = true := by cases w <;> simp_all
  rw [List.filter_cons_of_pos (by simpa using hkeep), List.map_cons]

/-! ## ASCII case -/

/-- `str::to_ascii_lowercase` -/
def toAsciiLowercase (s : String) : String :=
  String.ofList (s.toList.map Char.toLower)

/-- `str::eq_ignore_ascii_case` -/
def eqIgnoreAsciiCase (s t : String) : Bool :=
  toAsciiLowercase s == toAsciiLowercase t

@[simp] theorem toList_toAsciiLowercase (s : String) :
    (toAsciiLowercase s).toList = s.toList.map Char.toLower := by
  simp [toAsciiLowercase]

@[simp] theorem toAsciiLowercase_append (s t : String) :
    toAsciiLowercase (s ++ t) = toAsciiLowercase s ++ toAsciiLowercase t := by
  apply String.ext
  simp

/-- Folding moves the ASCII capitals up by 32 and leaves the other characters alone. -/
theorem toLower_cases (c : Char) :
    c.toLower = c ∨ 65 ≤ c.toNat ∧ c.toNat ≤ 90 ∧ c.toLower.toNat = c.toNat + 32 := by
  by_cases h : c.val ≥ 'A'.val ∧ c.val ≤ 'Z'.val
  · have h1 : 65 ≤ c.val.toNat := h.1
    have h2 : c.val.toNat ≤ 90 := h.2
    have hval : c.toLower.val = c.val + 32 := congrArg Char.val (dif_pos h)
    refine Or.inr ⟨h1, h2, ?_⟩
    change c.toLower.val.toNat = c.val.toNat + 32
    rw [hval, UInt32.toNat_add]
    have : (32 : UInt32).toNat = 32 := rfl
    omega
  · exact Or.inl (dif_neg h)

/-- Lowering an ASCII capital gives a code point outside the capital range. -/
theorem toLower_toLower (c : Char) : c.toLower.toLower = c.toLower := by
  rcases toLower_cases c with h | ⟨h1, h2, hnat⟩
  · rw [h, h]
  · rcases toLower_cases c.toLower with h | ⟨-, h90, -⟩
    · exact h
    · omega

/-- Case folding moves no character into or out of the whitespace set. -/
theorem isWhitespace_toLower (c : Char) : isWhitespace c.toLower = isWhitespace c := by
  rcases toLower_cases c with h | ⟨h1, h2, hnat⟩
  · rw [h]
  · simp only [isWhitespace, hnat]
    grind

theorem toLower_eq_colon {c : Char} (h : c.toLower = ':') : c = ':' := by
  rcases toLower_cases c with hfix | ⟨h1, h2, hnat⟩
  · rw [← hfix, h]
  · have hcolon : (':' : Char).toNat = 58 := rfl
    rw [h, hcolon] at hnat
    omega

/-! ## Splitting at a separator -/

/-- `str::contains` for one character. -/
def containsChar (s : String) (c : Char) : Bool := s.toList.contains c

/-- `str::rsplit_once` for one character: the text before and after its last
    occurrence. -/
def rsplitOnce (s : String) (c : Char) : Option (String × String) :=
  if containsChar s c then
    let tail := s.toList.rtakeWhile (· != c)
    some (String.ofList (s.toList.take (s.toList.length - tail.length - 1)), String.ofList tail)
  else none

theorem rsplitOnce_append (s t : String) {c : Char} (ht : c ∉ t.toList) :
    rsplitOnce (s ++ String.ofList [c] ++ t) c = some (s, t) := by
  have hlist : (s ++ String.ofList [c] ++ t).toList = (s.toList ++ [c]) ++ t.toList := by simp
  have htail : (s.toList ++ [c] ++ t.toList).rtakeWhile (· != c) = t.toList := by
    rw [List.rtakeWhile, List.reverse_append, List.takeWhile_append_of_pos]
    · simp
    · intro x hx
      have hxt : x ∈ t.toList := List.mem_reverse.mp hx
      have hne : x ≠ c := fun h => ht (h ▸ hxt)
      simpa using hne
  have hmem : containsChar (s ++ String.ofList [c] ++ t) c = true := by
    simp [containsChar]
  rw [rsplitOnce, if_pos hmem]
  simp only [hlist, htail, List.length_append, List.length_singleton]
  have hlen : s.toList.length + 1 + t.toList.length - t.toList.length - 1 = s.toList.length := by
    omega
  rw [hlen, List.append_assoc, List.take_left]
  simp

/-- `str::starts_with` -/
def startsWith (s pre : String) : Bool := pre.toList.isPrefixOf s.toList

/-- `str::strip_prefix` -/
def stripPrefix (s pre : String) : Option String :=
  if startsWith s pre then some (String.ofList (s.toList.drop pre.toList.length)) else none

@[simp] theorem stripPrefix_append (pre s : String) : stripPrefix (pre ++ s) pre = some s := by
  have hpre : startsWith (pre ++ s) pre = true := by
    rw [startsWith, List.isPrefixOf_iff_prefix, String.toList_append]
    exact List.prefix_append _ _
  simp [stripPrefix, hpre]

/-! ## UTF-8 -/

/-- `std::str::from_utf8` -/
def fromUtf8 (bytes : List UInt8) : Option String := String.fromUTF8? ⟨bytes.toArray⟩

/-- `str::as_bytes` -/
def asBytes (s : String) : List UInt8 := s.toUTF8.data.toList

theorem fromUtf8_eq_some_iff {bytes : List UInt8} {s : String} :
    fromUtf8 bytes = some s ↔ bytes = asBytes s := by
  have harray : (⟨bytes.toArray⟩ : ByteArray) = s.toByteArray ↔ bytes = asBytes s := by
    constructor
    · intro h
      have hdata := congrArg ByteArray.data h
      simpa [asBytes, String.toUTF8] using congrArg Array.toList hdata
    · rintro rfl
      simp [asBytes, String.toUTF8]
  rw [← harray, fromUtf8, String.fromUTF8?]
  constructor
  · intro h
    split at h
    · have hs := Option.some.inj h
      rw [← hs]; rfl
    · simp at h
  · intro h
    have hvalid : ByteArray.IsValidUTF8 ⟨bytes.toArray⟩ := by rw [h]; exact s.isValidUTF8
    rw [dif_pos hvalid]
    congr 1
    exact String.toByteArray_inj.mp h

@[simp] theorem fromUtf8_asBytes (s : String) : fromUtf8 (asBytes s) = some s :=
  fromUtf8_eq_some_iff.mpr rfl

@[simp] theorem asBytes_append (s t : String) : asBytes (s ++ t) = asBytes s ++ asBytes t := by
  simp [asBytes, String.toUTF8]

theorem asBytes_eq_encode (s : String) : asBytes s = Utf8Slice.encode s.toList := by
  rw [asBytes, String.toUTF8_eq_toByteArray, ← String.utf8Encode_toList, List.utf8Encode]
  simp [Utf8Slice.encode]

/-! ## Decimal numbers -/

/-- `u64::to_string` and its siblings for the other unsigned types. -/
def decimal (n : ℕ) : String := toString n

theorem isDigit_of_mem_decimal {n : ℕ} {c : Char} (h : c ∈ (decimal n).toList) :
    c.isDigit = true := by
  rw [decimal, Nat.toString_eq_ofList_toDigits, String.toList_ofList] at h
  exact Nat.isDigit_of_mem_toDigits (by decide) (by decide) h

theorem decimal_ne_nil (n : ℕ) : (decimal n).toList ≠ [] := by
  rw [decimal, Nat.toString_eq_ofList_toDigits, String.toList_ofList]
  exact Nat.toDigits_ne_nil

theorem decimal_injective : Function.Injective decimal := by
  intro m n h
  have hdigits := congrArg String.toList h
  rw [decimal, decimal, Nat.toString_eq_ofList_toDigits, Nat.toString_eq_ofList_toDigits,
    String.toList_ofList, String.toList_ofList] at hdigits
  rw [← Nat.ofDigitChars_ten_toDigits (n := m), hdigits, Nat.ofDigitChars_ten_toDigits]

theorem isDigit_bounds {c : Char} (h : c.isDigit = true) : 48 ≤ c.toNat ∧ c.toNat ≤ 57 := by
  simpa [Char.isDigit, UInt32.le_iff_toNat_le] using h

theorem isWhitespace_of_isDigit {c : Char} (h : c.isDigit = true) : isWhitespace c = false := by
  have hb := isDigit_bounds h
  simp only [isWhitespace]
  grind

theorem toLower_of_isDigit {c : Char} (h : c.isDigit = true) : c.toLower = c := by
  have hb := isDigit_bounds h
  rcases toLower_cases c with hfix | ⟨h65, -, -⟩
  · exact hfix
  · omega

theorem toAsciiLowercase_decimal (n : ℕ) : toAsciiLowercase (decimal n) = decimal n := by
  apply String.ext
  rw [toList_toAsciiLowercase]
  have hfix : (decimal n).toList.map Char.toLower = (decimal n).toList.map id :=
    List.map_congr_left fun c hc => toLower_of_isDigit (isDigit_of_mem_decimal hc)
  rw [hfix, List.map_id]

theorem colon_not_mem_decimal (n : ℕ) : ':' ∉ (decimal n).toList := by
  intro h
  have := isDigit_of_mem_decimal h
  simp at this

end SimpleSandbox.RustText
