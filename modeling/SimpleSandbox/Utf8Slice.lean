import Mathlib.Data.List.Basic
import Mathlib.Data.Nat.Notation

/-!
# Cutting text at a byte index

The UTF-8 bytes of a list of characters, and the slice `&s[..n]` of the first `n` bytes.  An
index inside a character is not a place to cut at, and neither is one behind the end: the slice
is `none` there, where a program stops.

A byte below 128 is always a character of its own.
-/

namespace SimpleSandbox.Utf8Slice

/-- The bytes of a text. -/
def encode (cs : List Char) : List UInt8 := cs.flatMap String.utf8EncodeChar

/-- The characters that take the first `n` bytes. -/
def cut : List Char → ℕ → Option (List Char)
  | _, 0 => some []
  | [], _ + 1 => none
  | c :: cs, n + 1 =>
    if c.utf8Size ≤ n + 1 then (cut cs (n + 1 - c.utf8Size)).map (c :: ·) else none

/-! ## Bytes -/

@[simp] theorem encode_nil : encode [] = [] := rfl

@[simp] theorem encode_cons (c : Char) (cs : List Char) :
    encode (c :: cs) = String.utf8EncodeChar c ++ encode cs := rfl

@[simp] theorem encode_append (cs ds : List Char) : encode (cs ++ ds) = encode cs ++ encode ds :=
  List.flatMap_append

theorem length_encode_cons (c : Char) (cs : List Char) :
    (encode (c :: cs)).length = c.utf8Size + (encode cs).length := by
  rw [encode_cons, List.length_append, String.length_utf8EncodeChar]

theorem encode_eq_nil_iff {cs : List Char} : encode cs = [] ↔ cs = [] := by
  cases cs with
  | nil => simp
  | cons c cs => simp [String.utf8EncodeChar_ne_nil]

theorem utf8EncodeChar_of_lt {c : Char} (hc : c.toNat < 128) :
    String.utf8EncodeChar c = [UInt8.ofNat c.toNat] := by
  have hle : c.val.toNat ≤ 127 := Nat.le_of_lt_succ hc
  rw [String.utf8EncodeChar]
  exact if_pos hle

/-- All bytes of a longer encoding have their top bit set. -/
theorem le_of_mem_utf8EncodeChar {c : Char} (hc : 128 ≤ c.toNat) {b : UInt8}
    (hb : b ∈ String.utf8EncodeChar c) : 128 ≤ b.toNat := by
  have hhigh : ∀ n k : ℕ, 128 ≤ k → k < 256 - n → 128 ≤ (UInt8.ofNat (n + k)).toNat := by
    intro n k hk hsmall
    rw [UInt8.toNat_ofNat', Nat.mod_eq_of_lt (by omega)]
    omega
  have hval : ¬ c.val.toNat ≤ 0x7f := Nat.not_le.mpr hc
  rw [String.utf8EncodeChar, if_neg hval] at hb
  split at hb
  · simp only [List.mem_cons, List.not_mem_nil, or_false] at hb
    rcases hb with rfl | rfl <;> exact hhigh _ _ (by omega) (by omega)
  · split at hb
    · simp only [List.mem_cons, List.not_mem_nil, or_false] at hb
      rcases hb with rfl | rfl | rfl <;> exact hhigh _ _ (by omega) (by omega)
    · simp only [List.mem_cons, List.not_mem_nil, or_false] at hb
      rcases hb with rfl | rfl | rfl | rfl <;> exact hhigh _ _ (by omega) (by omega)

/-- **A byte below 128 is a character of its own.** -/
theorem utf8EncodeChar_of_mem {c : Char} {b : UInt8} (hb : b ∈ String.utf8EncodeChar c)
    (hlt : b.toNat < 128) : String.utf8EncodeChar c = [b] ∧ c.toNat = b.toNat := by
  have hc : c.toNat < 128 := by
    by_contra hge
    have hhigh := le_of_mem_utf8EncodeChar (Nat.not_lt.mp hge) hb
    omega
  rw [utf8EncodeChar_of_lt hc, List.mem_singleton] at hb
  rw [utf8EncodeChar_of_lt hc, hb, UInt8.toNat_ofNat', Nat.mod_eq_of_lt (by omega)]
  exact ⟨rfl, rfl⟩

theorem exists_char_of_mem {cs : List Char} {b : UInt8} (hb : b ∈ encode cs)
    (hlt : b.toNat < 128) : ∃ c ∈ cs, c.toNat = b.toNat := by
  obtain ⟨c, hc, hbc⟩ := List.mem_flatMap.mp hb
  exact ⟨c, hc, (utf8EncodeChar_of_mem hbc hlt).2⟩

/-! ## Cuts -/

@[simp] theorem cut_zero (cs : List Char) : cut cs 0 = some [] := by
  cases cs <;> rfl

/-- **What a slice is**: the characters in front that have exactly so many bytes. -/
theorem cut_eq_some_iff {cs pre : List Char} {n : ℕ} :
    cut cs n = some pre ↔ pre <+: cs ∧ (encode pre).length = n := by
  induction cs generalizing pre n with
  | nil =>
    cases n with
    | zero =>
      rw [cut_zero, Option.some.injEq, List.prefix_nil]
      constructor
      · rintro rfl
        exact ⟨rfl, rfl⟩
      · rintro ⟨rfl, -⟩
        rfl
    | succ n =>
      rw [cut, List.prefix_nil]
      constructor
      · intro h
        cases h
      · rintro ⟨rfl, hlen⟩
        cases hlen
  | cons c cs ih =>
    have hpos := c.utf8Size_pos
    cases n with
    | zero =>
      rw [cut_zero, Option.some.injEq]
      constructor
      · rintro rfl
        exact ⟨List.nil_prefix, rfl⟩
      · rintro ⟨-, hlen⟩
        exact (encode_eq_nil_iff.mp (List.eq_nil_of_length_eq_zero hlen)).symm
    | succ n =>
      rw [cut]
      constructor
      · intro h
        by_cases hsize : c.utf8Size ≤ n + 1
        · rw [if_pos hsize, Option.map_eq_some_iff] at h
          obtain ⟨rest, hrest, rfl⟩ := h
          obtain ⟨hpre, hlen⟩ := ih.mp hrest
          refine ⟨List.cons_prefix_cons.mpr ⟨rfl, hpre⟩, ?_⟩
          rw [length_encode_cons]
          omega
        · rw [if_neg hsize] at h
          cases h
      · rintro ⟨hpre, hlen⟩
        cases pre with
        | nil => cases hlen
        | cons d rest =>
          obtain ⟨rfl, hrest⟩ := List.cons_prefix_cons.mp hpre
          rw [length_encode_cons] at hlen
          have hsize : d.utf8Size ≤ n + 1 := by omega
          rw [if_pos hsize, ih.mpr ⟨hrest, Nat.eq_sub_of_add_eq' hlen⟩]
          rfl

/-- Before a last byte below 128 there is a place to cut: that byte is the last character. -/
theorem cut_of_getLast? {cs : List Char} {b : UInt8} (hb : (encode cs).getLast? = some b)
    (hlt : b.toNat < 128) :
    ∃ init c, cs = init ++ [c] ∧ c.toNat = b.toNat ∧
      cut cs ((encode cs).length - 1) = some init := by
  rcases List.eq_nil_or_concat' cs with rfl | ⟨init, c, rfl⟩
  · cases hb
  · rw [encode_append, encode_cons, encode_nil, List.append_nil,
      List.getLast?_append_of_ne_nil _ String.utf8EncodeChar_ne_nil] at hb
    obtain ⟨henc, hc⟩ := utf8EncodeChar_of_mem (List.mem_of_getLast? hb) hlt
    refine ⟨init, c, rfl, hc, cut_eq_some_iff.mpr ⟨List.prefix_append _ _, ?_⟩⟩
    rw [encode_append, encode_cons, encode_nil, List.append_nil, henc, List.length_append]
    rfl

/-- A last character below 128 is the last byte. -/
theorem getLast?_encode {init : List Char} {c : Char} (hc : c.toNat < 128) :
    (encode (init ++ [c])).getLast? = some (UInt8.ofNat c.toNat) := by
  rw [encode_append, encode_cons, encode_nil, List.append_nil, utf8EncodeChar_of_lt hc]
  simp

end SimpleSandbox.Utf8Slice
