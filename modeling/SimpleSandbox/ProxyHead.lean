import SimpleSandbox.Proxy

/-!
# Whom the proxy dials

`handle_client` described by the bytes of the connection alone: the request line, the
header lines up to the first blank one, and the endpoints behind the allow keys.  How the
transport splits the bytes plays no part here.
-/

namespace SimpleSandbox

open RustText ChunkReader

/-! ## The head of a connection -/

/-- `"\r\n"` or `"\n"` -/
def isBlankLine (line : List UInt8) : Bool := line == [13, 10] || line == [10]

def upToBlank : List (List UInt8) → List (List UInt8)
  | [] => []
  | line :: lines => if isBlankLine line then [line] else line :: upToBlank lines

/-- The header lines, with the blank line that ends them. -/
def headerLinesOf (bytes : List UInt8) : List (List UInt8) := upToBlank (units isNewline bytes)

/-- The request line and the header lines. -/
def headLines (bytes : List UInt8) : List (List UInt8) :=
  match units isNewline bytes with
  | [] => []
  | line :: lines => line :: upToBlank lines

def Decodes (lines : List (List UInt8)) : Prop := ∀ line ∈ lines, (fromUtf8 line).isSome = true

instance (lines : List (List UInt8)) : Decidable (Decodes lines) := by
  unfold Decodes; infer_instance

/-- The tokens of the request line. -/
def requestTokens (bytes : List UInt8) : List String :=
  match fromUtf8 (through isNewline bytes) with
  | some line => splitWhitespace line
  | none => []

theorem asBytes_injective : Function.Injective asBytes := by
  intro s t h
  have hs := fromUtf8_asBytes s
  rw [h, fromUtf8_asBytes] at hs
  exact (Option.some.inj hs).symm

/-- The test that ends the header loop, on the bytes of the line. -/
theorem ends_headers_iff {line : List UInt8} {text : String} (h : fromUtf8 line = some text) :
    (text = "\r\n" ∨ text = "\n" ∨ text = "") ↔ isBlankLine line = true ∨ line = [] := by
  have hline := fromUtf8_eq_some_iff.mp h
  have hcrlf : text = "\r\n" ↔ line = [13, 10] := by
    rw [hline, ← asBytes_injective.eq_iff]
    exact Iff.rfl
  have hlf : text = "\n" ↔ line = [10] := by
    rw [hline, ← asBytes_injective.eq_iff]
    exact Iff.rfl
  have hempty : text = "" ↔ line = [] := by
    rw [hline, ← asBytes_injective.eq_iff]
    exact Iff.rfl
  rw [hcrlf, hlf, hempty, isBlankLine, Bool.or_eq_true, beq_iff_eq, beq_iff_eq, or_assoc]

theorem headerLinesOf_of_ne_nil {bytes : List UInt8} (h : bytes ≠ []) :
    headerLinesOf bytes =
      if isBlankLine (through isNewline bytes) then [through isNewline bytes]
      else through isNewline bytes :: headerLinesOf (after isNewline bytes) := by
  rw [headerLinesOf, units_of_ne_nil h, upToBlank]
  rfl

theorem headLines_of_ne_nil {bytes : List UInt8} (h : bytes ≠ []) :
    headLines bytes = through isNewline bytes :: headerLinesOf (after isNewline bytes) := by
  rw [headLines, units_of_ne_nil h]
  rfl

theorem length_after_lt {bytes : List UInt8} (h : bytes ≠ []) :
    (after isNewline bytes).length < bytes.length := by
  have hpos := List.length_pos_of_ne_nil (through_ne_nil isNewline h)
  have hsum := congrArg List.length (through_append_after isNewline bytes)
  rw [List.length_append] at hsum
  omega

/-! ## The header loop -/

/-- **The header loop ends.**  It reads the header lines and leaves the rest, whatever the
    fuel is, as long as there is one unit for each byte and one more. -/
theorem drainHeaders_of_decodes (n : ℕ) {r : ChunkReader UInt8} (hn : r.remaining.length ≤ n)
    (h : Decodes (headerLinesOf r.remaining)) :
    ∃ r', (∀ fuel, n < fuel → drainHeaders fuel r = some (some r')) ∧
      ∀ chunks consumed, PulledFor chunks consumed r →
        PulledFor chunks (consumed ++ (headerLinesOf r.remaining).flatten) r' := by
  induction n generalizing r with
  | zero =>
    have hnil : r.remaining = [] := List.eq_nil_of_length_eq_zero (Nat.le_zero.mp hn)
    have hline : (r.readUnit isNewline).1 = [] := by
      rw [(readUnit_eq isNewline r).1, hnil]
      rfl
    refine ⟨(r.readUnit isNewline).2, ?_, ?_⟩
    · intro fuel hfuel
      obtain ⟨fuel, rfl⟩ := Nat.exists_eq_add_of_lt hfuel
      have hempty : fromUtf8 [] = some "" := fromUtf8_eq_some_iff.mpr rfl
      simp [drainHeaders, readTextLine, hline, hempty]
    · intro chunks consumed hpulled
      have hnext := pulledFor_readUnit hpulled isNewline
      rw [hline] at hnext
      rw [hnil]
      exact hnext
  | succ n ih =>
    by_cases hnil : r.remaining = []
    · obtain ⟨r', hdrain, hpulled⟩ := ih (by rw [hnil]; exact Nat.zero_le _) h
      exact ⟨r', fun fuel hfuel => hdrain fuel (by omega), hpulled⟩
    · obtain ⟨hline, hrest⟩ := readUnit_eq isNewline r
      have hne := through_ne_nil isNewline hnil
      rw [headerLinesOf_of_ne_nil hnil] at h ⊢
      have hfirst : (fromUtf8 (through isNewline r.remaining)).isSome = true := by
        split at h
        · exact h _ (by simp)
        · exact h _ (by simp)
      obtain ⟨text, htext⟩ := Option.isSome_iff_exists.mp hfirst
      have hends := ends_headers_iff htext
      by_cases hblank : isBlankLine (through isNewline r.remaining) = true
      · refine ⟨(r.readUnit isNewline).2, ?_, ?_⟩
        · intro fuel hfuel
          obtain ⟨fuel, rfl⟩ := Nat.exists_eq_add_of_lt hfuel
          rw [drainHeaders, readTextLine, hline, htext]
          exact if_pos (hends.mpr (Or.inl hblank))
        · intro chunks consumed hpulled
          have hnext := pulledFor_readUnit hpulled isNewline
          rw [hline] at hnext
          rw [if_pos hblank]
          simpa using hnext
      · rw [if_neg hblank] at h ⊢
        have hshort : (r.readUnit isNewline).2.remaining.length ≤ n := by
          have hlt := length_after_lt hnil
          rw [hrest]
          omega
        have htail : Decodes (headerLinesOf (r.readUnit isNewline).2.remaining) := by
          rw [hrest]
          exact fun line hmem => h line (by simp [hmem])
        obtain ⟨r', hdrain, hpulled⟩ := ih hshort htail
        refine ⟨r', ?_, ?_⟩
        · intro fuel hfuel
          obtain ⟨k, rfl⟩ := Nat.exists_eq_add_of_lt hfuel
          have hgo : ¬ (text = "\r\n" ∨ text = "\n" ∨ text = "") := by
            rw [hends]
            rintro (hb | he)
            · exact hblank hb
            · exact hne he
          rw [drainHeaders, readTextLine, hline, htext]
          simp only [if_neg hgo]
          exact hdrain _ (by omega)
        · intro chunks consumed hp
          have hnext := hpulled chunks _ (pulledFor_readUnit hp isNewline)
          rw [hline, hrest] at hnext
          rw [List.flatten_cons, ← List.append_assoc]
          exact hnext

theorem drainHeaders_of_not_decodes (n : ℕ) {r : ChunkReader UInt8} (hn : r.remaining.length ≤ n)
    (h : ¬ Decodes (headerLinesOf r.remaining)) {fuel : ℕ} (hfuel : n < fuel) :
    drainHeaders fuel r = some none := by
  induction n generalizing r fuel with
  | zero =>
    have hnil : r.remaining = [] := List.eq_nil_of_length_eq_zero (Nat.le_zero.mp hn)
    rw [hnil] at h
    exact absurd (fun line hmem => nomatch hmem) h
  | succ n ih =>
    by_cases hnil : r.remaining = []
    · exact ih (by rw [hnil]; exact Nat.zero_le _) h (by omega)
    · obtain ⟨hline, hrest⟩ := readUnit_eq isNewline r
      obtain ⟨k, rfl⟩ := Nat.exists_eq_add_of_lt hfuel
      rw [headerLinesOf_of_ne_nil hnil] at h
      cases htext : fromUtf8 (through isNewline r.remaining) with
      | none =>
        rw [drainHeaders, readTextLine, hline, htext]
      | some text =>
        have hfirst : (fromUtf8 (through isNewline r.remaining)).isSome = true := by
          rw [htext]
          rfl
        have hblank : ¬ isBlankLine (through isNewline r.remaining) = true := by
          intro hblank
          rw [if_pos hblank] at h
          refine h fun line hmem => ?_
          rw [List.mem_singleton.mp hmem]
          exact hfirst
        rw [if_neg hblank] at h
        have htail : ¬ Decodes (headerLinesOf (r.readUnit isNewline).2.remaining) := by
          rw [hrest]
          intro hdec
          refine h fun line hmem => ?_
          rcases List.mem_cons.mp hmem with rfl | hmem
          · exact hfirst
          · exact hdec line hmem
        have hgo : ¬ (text = "\r\n" ∨ text = "\n" ∨ text = "") := by
          rw [ends_headers_iff htext]
          rintro (hb | he)
          · exact hblank hb
          · exact through_ne_nil isNewline hnil he
        have hshort : (r.readUnit isNewline).2.remaining.length ≤ n := by
          have hlt := length_after_lt hnil
          rw [hrest]
          omega
        rw [drainHeaders, readTextLine, hline, htext]
        simp only [if_neg hgo]
        exact ih hshort htail (by omega)

/-! ## The whole client -/

variable {chunks : List (List UInt8)}

theorem readTextLine_ofChunks (chunks : List (List UInt8)) :
    (readTextLine (.ofChunks chunks)).1 = fromUtf8 (through isNewline chunks.flatten) ∧
      (readTextLine (.ofChunks chunks)).2.remaining = after isNewline chunks.flatten := by
  have hread := readUnit_eq isNewline (ofChunks chunks)
  exact ⟨congrArg fromUtf8 hread.1, hread.2⟩

/-- A head that decodes is answered from its request line; the reader has then given out
    the head and nothing else. -/
theorem handleClient_of_decodes (allow : List String) (connect : String → Bool)
    (hne : chunks.flatten ≠ []) (hdec : Decodes (headLines chunks.flatten)) :
    ∃ line r, fromUtf8 (through isNewline chunks.flatten) = some line ∧
      PulledFor chunks (headLines chunks.flatten).flatten r ∧
      ∀ fuel, chunks.flatten.length < fuel →
        handleClient allow connect fuel chunks = some (answer allow connect line r) := by
  obtain ⟨hline, hrest⟩ := readTextLine_ofChunks chunks
  rw [headLines_of_ne_nil hne] at hdec ⊢
  obtain ⟨line, htext⟩ := Option.isSome_iff_exists.mp (hdec _ List.mem_cons_self)
  have hheaders : Decodes (headerLinesOf (readTextLine (.ofChunks chunks)).2.remaining) := by
    rw [hrest]
    exact fun l hl => hdec l (List.mem_cons_of_mem _ hl)
  have hle : (readTextLine (.ofChunks chunks)).2.remaining.length ≤ chunks.flatten.length := by
    rw [hrest]
    exact Nat.le_of_lt (length_after_lt hne)
  obtain ⟨r, hdrain, hpulled⟩ := drainHeaders_of_decodes _ hle hheaders
  refine ⟨line, r, htext, ?_, ?_⟩
  · have hnext := hpulled chunks _ (pulledFor_readUnit (pulledFor_ofChunks chunks) isNewline)
    rw [hrest, (readUnit_eq isNewline (ofChunks chunks)).1] at hnext
    exact hnext
  · intro fuel hfuel
    have hfirst : readTextLine (.ofChunks chunks) =
        (some line, (readTextLine (.ofChunks chunks)).2) := by
      rw [← htext, ← hline]
    have hnonempty : line ≠ "" := by
      rintro rfl
      have hbytes := fromUtf8_eq_some_iff.mp htext
      exact through_ne_nil isNewline hne hbytes
    rw [handleClient, hfirst]
    simp only [if_neg hnonempty, hdrain fuel hfuel]

/-- Without a head that decodes nothing happens. -/
theorem handleClient_of_not_decodes (allow : List String) (connect : String → Bool)
    (h : chunks.flatten = [] ∨ ¬ Decodes (headLines chunks.flatten)) {fuel : ℕ}
    (hfuel : chunks.flatten.length < fuel) : handleClient allow connect fuel chunks = some [] := by
  obtain ⟨hline, hrest⟩ := readTextLine_ofChunks chunks
  have hpair : readTextLine (.ofChunks chunks) =
      (fromUtf8 (through isNewline chunks.flatten), (readTextLine (.ofChunks chunks)).2) := by
    rw [← hline]
  rw [handleClient, hpair]
  by_cases hnil : chunks.flatten = []
  · have hempty : fromUtf8 (through isNewline chunks.flatten) = some "" := by
      rw [hnil]
      exact fromUtf8_eq_some_iff.mpr rfl
    simp [hempty]
  · have hnot := h.resolve_left hnil
    rw [headLines_of_ne_nil hnil] at hnot
    cases htext : fromUtf8 (through isNewline chunks.flatten) with
    | none => rfl
    | some line =>
      have hnonempty : line ≠ "" := by
        rintro rfl
        exact through_ne_nil isNewline hnil (fromUtf8_eq_some_iff.mp htext)
      have hheaders : ¬ Decodes (headerLinesOf (readTextLine (.ofChunks chunks)).2.remaining) := by
        rw [hrest]
        intro hdec
        refine hnot fun l hl => ?_
        rcases List.mem_cons.mp hl with rfl | hl
        · rw [htext]
          rfl
        · exact hdec l hl
      have hle : (readTextLine (.ofChunks chunks)).2.remaining.length ≤ chunks.flatten.length := by
        rw [hrest]
        exact Nat.le_of_lt (length_after_lt hnil)
      simp only [if_neg hnonempty, drainHeaders_of_not_decodes _ hle hheaders hfuel]

/-! ## Allow keys and targets -/

/-- The key of an endpoint: its host in lower case without leading whitespace, and its
    port. -/
def endpointKey (e : String × UInt16) : String :=
  trimStart (toAsciiLowercase e.1) ++ ":" ++ decimal e.2.toNat

theorem toAsciiLowercase_trimStart_toAsciiLowercase (s : String) :
    toAsciiLowercase (trimStart (toAsciiLowercase s)) = trimStart (toAsciiLowercase s) := by
  apply String.ext
  simp only [toList_toAsciiLowercase, trimStart, String.toList_ofList]
  have hfix : ∀ c ∈ (s.toList.map Char.toLower).dropWhile isWhitespace, c.toLower = id c := by
    intro c hc
    obtain ⟨d, -, rfl⟩ := List.mem_map.mp ((List.dropWhile_sublist _).subset hc)
    exact toLower_toLower d
  rw [List.map_congr_left hfix, List.map_id]

theorem normalized_endpoint (e : String × UInt16) :
    toAsciiLowercase (trim (toAsciiLowercase e.1 ++ ":" ++ decimal e.2.toNat)) =
      endpointKey e := by
  obtain ⟨u, c, hport⟩ := (List.eq_nil_or_concat' _).resolve_left (decimal_ne_nil e.2.toNat)
  have hdigit : c.isDigit = true := isDigit_of_mem_decimal (by rw [hport]; simp)
  have hlast : ∃ v, (":" ++ decimal e.2.toNat).toList = v ++ [c] := by
    refine ⟨':' :: u, ?_⟩
    rw [String.toList_append, hport]
    rfl
  have hhead : ∃ d, (":" ++ decimal e.2.toNat).toList.head? = some d ∧ isWhitespace d = false := by
    refine ⟨':', ?_, by decide⟩
    rw [String.toList_append]
    rfl
  rw [String.append_assoc, trim_append_of_last (isWhitespace_of_isDigit hdigit) hlast hhead,
    toAsciiLowercase_append, toAsciiLowercase_append, toAsciiLowercase_decimal,
    toAsciiLowercase_trimStart_toAsciiLowercase, endpointKey, String.append_assoc]
  rfl

theorem containsChar_endpointKey (e : String × UInt16) : containsChar (endpointKey e) ':' = true := by
  simp [containsChar, endpointKey]

/-- **The allow keys** are the keys of the endpoints. -/
theorem mem_normalizeAllow {endpoints : List (String × UInt16)} {key : String} :
    key ∈ normalizeAllow (allowFromEndpoints endpoints) ↔
      ∃ e ∈ endpoints, key = endpointKey e := by
  rw [normalizeAllow, allowFromEndpoints, List.map_map, List.mem_map]
  constructor
  · rintro ⟨e, he, rfl⟩
    refine ⟨e, he, ?_⟩
    simp only [Function.comp_apply, normalized_endpoint, containsChar_endpointKey, if_true]
  · rintro ⟨e, he, rfl⟩
    refine ⟨e, he, ?_⟩
    simp only [Function.comp_apply, normalized_endpoint, containsChar_endpointKey, if_true]

/-- The address splits at its last colon into the endpoint's host and port. -/
theorem rsplitOnce_endpointKey (e : String × UInt16) :
    rsplitOnce (endpointKey e) ':' =
      some (trimStart (toAsciiLowercase e.1), decimal e.2.toNat) :=
  rsplitOnce_append _ _ (colon_not_mem_decimal _)

theorem toAsciiLowercase_eq_of_eqIgnoreAsciiCase {s t : String}
    (h : eqIgnoreAsciiCase s t = true) : toAsciiLowercase s = toAsciiLowercase t := by
  simpa [eqIgnoreAsciiCase] using h

theorem trimStart_toAsciiLowercase {s : String} (h : ∀ c ∈ s.toList, isWhitespace c = false) :
    trimStart (toAsciiLowercase s) = toAsciiLowercase s := by
  have hfirst : (s.toList.map Char.toLower).dropWhile isWhitespace = s.toList.map Char.toLower := by
    cases hs : s.toList with
    | nil => rfl
    | cons c cs =>
      rw [List.map_cons, List.dropWhile_cons_of_neg]
      rw [isWhitespace_toLower, h c (by rw [hs]; simp)]
      simp
  rw [trimStart, toList_toAsciiLowercase, hfirst]
  rfl

/-- The key a request asks for: its target in lower case, and `:443` after it where the
    target has no colon. -/
def askedKey (target : String) : String :=
  String.ofList (target.toList.map Char.toLower ++
    if ':' ∈ target.toList then [] else [':', '4', '4', '3'])

theorem targetKey_eq_askedKey (target : String) : targetKey target = askedKey target := by
  have hcolon : containsChar (toAsciiLowercase target) ':' = true ↔ ':' ∈ target.toList := by
    rw [containsChar, List.contains_iff_mem, toList_toAsciiLowercase, List.mem_map]
    constructor
    · rintro ⟨c, hc, hlower⟩
      rwa [← toLower_eq_colon hlower]
    · intro hmem
      exact ⟨':', hmem, rfl⟩
  apply String.ext
  by_cases hmem : ':' ∈ target.toList
  · simp only [targetKey, hcolon.mpr hmem, if_true, askedKey, if_pos hmem, List.append_nil,
      String.toList_ofList, toList_toAsciiLowercase]
  · have hnone : containsChar (toAsciiLowercase target) ':' = false := by
      rw [← Bool.not_eq_true]
      exact fun hc => hmem (hcolon.mp hc)
    simp only [targetKey, hnone, Bool.false_eq_true, if_false, askedKey, if_neg hmem,
      String.toList_append, String.toList_ofList, toList_toAsciiLowercase]
    rfl

/-- A target that spells an endpoint in any case has the endpoint's key. -/
theorem askedKey_of_eqIgnoreAsciiCase {e : String × UInt16} {target : String}
    (hhost : ∀ c ∈ e.1.toList, isWhitespace c = false)
    (h : eqIgnoreAsciiCase target (e.1 ++ ":" ++ decimal e.2.toNat) = true) :
    askedKey target = endpointKey e := by
  have hlower : toAsciiLowercase target = endpointKey e := by
    rw [toAsciiLowercase_eq_of_eqIgnoreAsciiCase h, toAsciiLowercase_append,
      toAsciiLowercase_append, toAsciiLowercase_decimal, endpointKey,
      trimStart_toAsciiLowercase hhost]
    rfl
  rw [← targetKey_eq_askedKey]
  simp only [targetKey, hlower, containsChar_endpointKey, if_true]

/-- A target that spells the host of an endpoint on port 443 has its key too. -/
theorem askedKey_of_bare {host target : String}
    (hhost : ∀ c ∈ host.toList, isWhitespace c = false) (hcolon : ':' ∉ host.toList)
    (h : eqIgnoreAsciiCase target host = true) : askedKey target = endpointKey (host, 443) := by
  have hlower : toAsciiLowercase target = toAsciiLowercase host :=
    toAsciiLowercase_eq_of_eqIgnoreAsciiCase h
  have hnone : containsChar (toAsciiLowercase host) ':' = false := by
    rw [containsChar, ← Bool.not_eq_true, List.contains_iff_mem, toList_toAsciiLowercase,
      List.mem_map]
    rintro ⟨c, hc, hlower⟩
    exact hcolon (toLower_eq_colon hlower ▸ hc)
  rw [← targetKey_eq_askedKey, endpointKey, trimStart_toAsciiLowercase hhost]
  simp only [targetKey, hlower, hnone, Bool.false_eq_true, if_false, String.append_assoc]
  rfl

/-- Case folding keeps a text free of whitespace. -/
theorem not_isWhitespace_of_eqIgnoreAsciiCase {s t : String} (h : eqIgnoreAsciiCase s t = true)
    (ht : ∀ c ∈ t.toList, isWhitespace c = false) : ∀ c ∈ s.toList, isWhitespace c = false := by
  intro c hc
  have hlower := congrArg String.toList (toAsciiLowercase_eq_of_eqIgnoreAsciiCase h)
  rw [toList_toAsciiLowercase, toList_toAsciiLowercase] at hlower
  have hmem : c.toLower ∈ t.toList.map Char.toLower := by
    rw [← hlower]
    exact List.mem_map_of_mem hc
  obtain ⟨d, hd, hdc⟩ := List.mem_map.mp hmem
  rw [← isWhitespace_toLower, ← hdc, isWhitespace_toLower]
  exact ht d hd

/-! ## What the proxy does for a policy -/

def dials (events : List ProxyEvent) : List String :=
  events.filterMap fun
    | .dial address => some address
    | _ => none

def statuses (events : List ProxyEvent) : List String :=
  events.filterMap fun
    | .status line => some line
    | _ => none

/-- The events before the first relayed byte. -/
def beforeRelay (events : List ProxyEvent) : List ProxyEvent :=
  events.takeWhile fun
    | .relay _ => false
    | _ => true

/-- The head is a CONNECT request whose target has the key of an endpoint. -/
def AsksFor (endpoints : List (String × UInt16)) (bytes : List UInt8) (key : String) : Prop :=
  Decodes (headLines bytes) ∧
  ∃ method target rest, requestTokens bytes = method :: target :: rest ∧
    eqIgnoreAsciiCase method "CONNECT" = true ∧ key = askedKey target ∧
    ∃ e ∈ endpoints, key = endpointKey e

/-- The status line a connection is due: none without a head that decodes. -/
def expectedStatus (endpoints : List (String × UInt16)) (connect : String → Bool)
    (bytes : List UInt8) : List String :=
  if bytes = [] ∨ ¬ Decodes (headLines bytes) then []
  else
    match requestTokens bytes with
    | method :: target :: _ =>
      if eqIgnoreAsciiCase method "CONNECT" then
        if ∃ e ∈ endpoints, askedKey target = endpointKey e then
          if connect (askedKey target) then [established] else [badGateway]
        else [forbidden]
      else [methodNotAllowed]
    | _ => [methodNotAllowed]

/-- What a client with these bytes gets from a proxy for these endpoints. -/
structure ServesAllowlist (endpoints : List (String × UInt16)) (connect : String → Bool)
    (bytes : List UInt8) (events : List ProxyEvent) : Prop where
  dials_once : (dials events).length ≤ 1
  dials_iff : dials events ≠ [] ↔ ∃ key, AsksFor endpoints bytes key
  dials_endpoint : ∀ address ∈ dials events, AsksFor endpoints bytes address ∧
    ∃ e ∈ endpoints, address = endpointKey e ∧
      rsplitOnce address ':' = some (trimStart (toAsciiLowercase e.1), decimal e.2.toNat)
  endpoint_dialled : ∀ e ∈ endpoints, (∀ c ∈ e.1.toList, isWhitespace c = false) →
    ∀ (method target : String) (s₁ s₂ : Char) (tail : List Char),
      eqIgnoreAsciiCase method "CONNECT" = true →
      eqIgnoreAsciiCase target (e.1 ++ ":" ++ decimal e.2.toNat) = true →
      isWhitespace s₁ = true → isWhitespace s₂ = true →
      fromUtf8 (through isNewline bytes) =
        some (String.ofList (method.toList ++ s₁ :: (target.toList ++ s₂ :: tail))) →
      Decodes (headLines bytes) → dials events = [endpointKey e]
  bare_host_dialled : ∀ host, (host, 443) ∈ endpoints → host ≠ "" → ':' ∉ host.toList →
    (∀ c ∈ host.toList, isWhitespace c = false) →
    ∀ (method target : String) (s₁ s₂ : Char) (tail : List Char),
      eqIgnoreAsciiCase method "CONNECT" = true → eqIgnoreAsciiCase target host = true →
      isWhitespace s₁ = true → isWhitespace s₂ = true →
      fromUtf8 (through isNewline bytes) =
        some (String.ofList (method.toList ++ s₁ :: (target.toList ++ s₂ :: tail))) →
      Decodes (headLines bytes) → dials events = [endpointKey (host, 443)]
  status : statuses events = expectedStatus endpoints connect bytes
  status_first : statuses (beforeRelay events) = statuses events

variable {endpoints : List (String × UInt16)} {bytes : List UInt8}

theorem requestTokens_nil : requestTokens [] = [] := by
  have hempty : fromUtf8 (through isNewline []) = some "" := fromUtf8_eq_some_iff.mpr rfl
  rw [requestTokens, hempty]
  rfl

/-- The tokens of a request line that begins with a method and a target. -/
theorem splitWhitespace_request {method target : String} {s₁ s₂ : Char} {tail : List Char}
    (hmethod : ∀ c ∈ method.toList, isWhitespace c = false) (hmethodne : method.toList ≠ [])
    (htarget : ∀ c ∈ target.toList, isWhitespace c = false) (htargetne : target.toList ≠ [])
    (h₁ : isWhitespace s₁ = true) (h₂ : isWhitespace s₂ = true) :
    splitWhitespace (String.ofList (method.toList ++ s₁ :: (target.toList ++ s₂ :: tail))) =
      method :: target :: splitWhitespace (String.ofList tail) := by
  rw [splitWhitespace_cons_token hmethod hmethodne h₁,
    splitWhitespace_cons_token htarget htargetne h₂, String.ofList_toList, String.ofList_toList]

theorem toList_ne_nil_of_eqIgnoreAsciiCase {s t : String} (h : eqIgnoreAsciiCase s t = true)
    (ht : t.toList ≠ []) : s.toList ≠ [] := by
  have hlower := congrArg String.toList (toAsciiLowercase_eq_of_eqIgnoreAsciiCase h)
  rw [toList_toAsciiLowercase, toList_toAsciiLowercase] at hlower
  intro hnil
  rw [hnil] at hlower
  exact ht (List.map_eq_nil_iff.mp hlower.symm)

theorem not_isWhitespace_of_spelled {e : String × UInt16}
    (hhost : ∀ c ∈ e.1.toList, isWhitespace c = false) :
    ∀ c ∈ (e.1 ++ ":" ++ decimal e.2.toNat).toList, isWhitespace c = false := by
  intro c hc
  simp only [String.toList_append, List.mem_append] at hc
  rcases hc with (hc | hc) | hc
  · exact hhost c hc
  · rw [List.mem_singleton.mp hc]
    decide
  · exact isWhitespace_of_isDigit (isDigit_of_mem_decimal hc)

/-- A request line that spells CONNECT and a text has these for its tokens. -/
theorem requestTokens_of_spelled {text : String} (hne : text.toList ≠ [])
    (hspelled : ∀ c ∈ text.toList, isWhitespace c = false) {method target : String} {s₁ s₂ : Char}
    {tail : List Char} (hmethod : eqIgnoreAsciiCase method "CONNECT" = true)
    (htarget : eqIgnoreAsciiCase target text = true)
    (h₁ : isWhitespace s₁ = true) (h₂ : isWhitespace s₂ = true)
    (hline : fromUtf8 (through isNewline bytes) =
      some (String.ofList (method.toList ++ s₁ :: (target.toList ++ s₂ :: tail)))) :
    requestTokens bytes = method :: target :: splitWhitespace (String.ofList tail) := by
  have hmethodWord : "CONNECT".toList.all (fun c => !isWhitespace c) = true := by decide
  have hconnect : ∀ c ∈ "CONNECT".toList, isWhitespace c = false := by
    simpa only [Bool.not_eq_true'] using List.all_eq_true.mp hmethodWord
  rw [requestTokens, hline]
  exact splitWhitespace_request
    (not_isWhitespace_of_eqIgnoreAsciiCase hmethod hconnect)
    (toList_ne_nil_of_eqIgnoreAsciiCase hmethod (by decide))
    (not_isWhitespace_of_eqIgnoreAsciiCase htarget hspelled)
    (toList_ne_nil_of_eqIgnoreAsciiCase htarget hne) h₁ h₂

theorem not_asksFor_of_not_decodes (h : bytes = [] ∨ ¬ Decodes (headLines bytes))
    (key : String) : ¬ AsksFor endpoints bytes key := by
  rintro ⟨hdec, method, target, rest, htokens, -⟩
  rcases h with rfl | h
  · rw [requestTokens_nil] at htokens
    simp at htokens
  · exact h hdec

theorem asksFor_iff (hdec : Decodes (headLines bytes)) {method target : String}
    {rest : List String} (htokens : requestTokens bytes = method :: target :: rest) (key : String) :
    AsksFor endpoints bytes key ↔ eqIgnoreAsciiCase method "CONNECT" = true ∧
      key = askedKey target ∧ ∃ e ∈ endpoints, key = endpointKey e := by
  constructor
  · rintro ⟨-, method', target', rest', htokens', hmethod, hkey, hlisted⟩
    rw [htokens] at htokens'
    obtain ⟨rfl, hrest⟩ := List.cons.inj htokens'
    obtain ⟨rfl, -⟩ := List.cons.inj hrest
    exact ⟨hmethod, hkey, hlisted⟩
  · rintro ⟨hmethod, hkey, hlisted⟩
    exact ⟨hdec, method, target, rest, htokens, hmethod, hkey, hlisted⟩

/-- A head asks for one key at most. -/
theorem AsksFor.unique {key key' : String} (h : AsksFor endpoints bytes key)
    (h' : AsksFor endpoints bytes key') : key = key' := by
  obtain ⟨hdec, method, target, rest, htokens, -, hkey, -⟩ := h
  obtain ⟨-, hkey', -⟩ := (asksFor_iff hdec htokens key').mp h'
  rw [hkey, hkey']

theorem asksFor_of_spelled {e : String × UInt16} (he : e ∈ endpoints)
    (hhost : ∀ c ∈ e.1.toList, isWhitespace c = false) {method target : String} {s₁ s₂ : Char}
    {tail : List Char} (hmethod : eqIgnoreAsciiCase method "CONNECT" = true)
    (htarget : eqIgnoreAsciiCase target (e.1 ++ ":" ++ decimal e.2.toNat) = true)
    (h₁ : isWhitespace s₁ = true) (h₂ : isWhitespace s₂ = true)
    (hline : fromUtf8 (through isNewline bytes) =
      some (String.ofList (method.toList ++ s₁ :: (target.toList ++ s₂ :: tail))))
    (hdec : Decodes (headLines bytes)) : AsksFor endpoints bytes (endpointKey e) :=
  ⟨hdec, method, target, _,
    requestTokens_of_spelled (by simp) (not_isWhitespace_of_spelled hhost) hmethod htarget h₁ h₂
      hline,
    hmethod, (askedKey_of_eqIgnoreAsciiCase hhost htarget).symm, e, he, rfl⟩

theorem asksFor_of_bare {host : String} (he : (host, 443) ∈ endpoints) (hne : host ≠ "")
    (hcolon : ':' ∉ host.toList) (hhost : ∀ c ∈ host.toList, isWhitespace c = false)
    {method target : String} {s₁ s₂ : Char} {tail : List Char}
    (hmethod : eqIgnoreAsciiCase method "CONNECT" = true)
    (htarget : eqIgnoreAsciiCase target host = true)
    (h₁ : isWhitespace s₁ = true) (h₂ : isWhitespace s₂ = true)
    (hline : fromUtf8 (through isNewline bytes) =
      some (String.ofList (method.toList ++ s₁ :: (target.toList ++ s₂ :: tail))))
    (hdec : Decodes (headLines bytes)) : AsksFor endpoints bytes (endpointKey (host, 443)) :=
  ⟨hdec, method, target, _,
    requestTokens_of_spelled (by simpa using hne) hhost hmethod htarget h₁ h₂ hline,
    hmethod, (askedKey_of_bare hhost hcolon htarget).symm, (host, 443), he, rfl⟩

/-! ## The two ways to serve a connection -/

/-- A connection that asks for no endpoint gets no dial. -/
theorem serves_without_dial {connect : String → Bool} {events : List ProxyEvent}
    (hdials : dials events = []) (hnone : ∀ key, ¬ AsksFor endpoints bytes key)
    (hstatus : statuses events = expectedStatus endpoints connect bytes)
    (hfirst : statuses (beforeRelay events) = statuses events) :
    ServesAllowlist endpoints connect bytes events where
  dials_once := by
    rw [hdials]
    exact Nat.zero_le _
  dials_iff := by
    constructor
    · intro hne
      exact absurd hdials hne
    · rintro ⟨key, hasks⟩
      exact absurd hasks (hnone key)
  dials_endpoint := by
    intro address hmem
    rw [hdials] at hmem
    exact absurd hmem List.not_mem_nil
  endpoint_dialled := by
    intro e he hhost method target s₁ s₂ tail hmethod htarget h₁ h₂ hline hdec
    exact absurd (asksFor_of_spelled he hhost hmethod htarget h₁ h₂ hline hdec) (hnone _)
  bare_host_dialled := by
    intro host he hne hcolon hhost method target s₁ s₂ tail hmethod htarget h₁ h₂ hline hdec
    exact absurd (asksFor_of_bare he hne hcolon hhost hmethod htarget h₁ h₂ hline hdec) (hnone _)
  status := hstatus
  status_first := hfirst

/-- A connection that asks for an endpoint gets the one dial of its key. -/
theorem serves_dial {connect : String → Bool} {key : String} {events : List ProxyEvent}
    (hdials : dials events = [key]) (hasks : AsksFor endpoints bytes key)
    (hstatus : statuses events = expectedStatus endpoints connect bytes)
    (hfirst : statuses (beforeRelay events) = statuses events) :
    ServesAllowlist endpoints connect bytes events where
  dials_once := by
    rw [hdials]
    exact Nat.le_refl _
  dials_iff := by
    constructor
    · intro _
      exact ⟨key, hasks⟩
    · intro _
      rw [hdials]
      exact List.cons_ne_nil _ _
  dials_endpoint := by
    intro address hmem
    rw [hdials, List.mem_singleton] at hmem
    subst hmem
    refine ⟨hasks, ?_⟩
    obtain ⟨-, -, -, -, -, -, -, e, he, hkey⟩ := hasks
    exact ⟨e, he, hkey, by rw [hkey]; exact rsplitOnce_endpointKey e⟩
  endpoint_dialled := by
    intro e he hhost method target s₁ s₂ tail hmethod htarget h₁ h₂ hline hdec
    rw [hdials, hasks.unique (asksFor_of_spelled he hhost hmethod htarget h₁ h₂ hline hdec)]
  bare_host_dialled := by
    intro host he hne hcolon hhost method target s₁ s₂ tail hmethod htarget h₁ h₂ hline hdec
    rw [hdials, hasks.unique (asksFor_of_bare he hne hcolon hhost hmethod htarget h₁ h₂ hline hdec)]
  status := hstatus
  status_first := hfirst

/-- The answer to a head that decodes. -/
theorem serves_answer (connect : String → Bool) (hne : bytes ≠ [])
    (hdec : Decodes (headLines bytes)) {line : String}
    (hline : fromUtf8 (through isNewline bytes) = some line) (r : ChunkReader UInt8) :
    ServesAllowlist endpoints connect bytes
      (answer (normalizeAllow (allowFromEndpoints endpoints)) connect line r) := by
  have htokens : requestTokens bytes = splitWhitespace line := by rw [requestTokens, hline]
  have hdue : ¬ (bytes = [] ∨ ¬ Decodes (headLines bytes)) := by
    rintro (h | h)
    · exact hne h
    · exact h hdec
  unfold answer
  simp only [targetKey_eq_askedKey]
  split
  · rename_i method target rest hsplit
    rw [← htokens] at hsplit
    have hasks : ∀ key, AsksFor endpoints bytes key ↔ eqIgnoreAsciiCase method "CONNECT" = true ∧
        key = askedKey target ∧ ∃ e ∈ endpoints, key = endpointKey e := asksFor_iff hdec hsplit
    have hstatus : expectedStatus endpoints connect bytes =
        if eqIgnoreAsciiCase method "CONNECT" then
          if ∃ e ∈ endpoints, askedKey target = endpointKey e then
            if connect (askedKey target) then [established] else [badGateway]
          else [forbidden]
        else [methodNotAllowed] := by
      rw [expectedStatus, if_neg hdue, hsplit]
    by_cases hmethod : eqIgnoreAsciiCase method "CONNECT" = true
    · rw [if_pos hmethod] at hstatus ⊢
      by_cases hlisted : ∃ e ∈ endpoints, askedKey target = endpointKey e
      · have hallow : (normalizeAllow (allowFromEndpoints endpoints)).contains
            (askedKey target) = true := by
          simpa using mem_normalizeAllow.mpr hlisted
        have hkey : AsksFor endpoints bytes (askedKey target) :=
          (hasks _).mpr ⟨hmethod, rfl, hlisted⟩
        rw [if_pos hlisted] at hstatus
        simp only [hallow, if_true]
        by_cases hconnect : connect (askedKey target) = true
        · rw [if_pos hconnect] at hstatus ⊢
          exact serves_dial rfl hkey hstatus.symm rfl
        · rw [if_neg hconnect] at hstatus ⊢
          exact serves_dial rfl hkey hstatus.symm rfl
      · have hdeny : (normalizeAllow (allowFromEndpoints endpoints)).contains
            (askedKey target) = false := by
          rw [← Bool.not_eq_true]
          intro hc
          exact hlisted (mem_normalizeAllow.mp (by simpa using hc))
        rw [if_neg hlisted] at hstatus
        simp only [hdeny]
        refine serves_without_dial rfl (fun key hkey => ?_) hstatus.symm rfl
        obtain ⟨-, rfl, hmem⟩ := (hasks key).mp hkey
        exact hlisted hmem
    · rw [if_neg hmethod] at hstatus ⊢
      refine serves_without_dial rfl (fun key hkey => ?_) hstatus.symm rfl
      exact hmethod ((hasks key).mp hkey).1
  · rename_i hshort
    rw [← htokens] at hshort
    have hstatus : expectedStatus endpoints connect bytes = [methodNotAllowed] := by
      rw [expectedStatus, if_neg hdue]
      split
      · rename_i method target rest hsplit
        exact absurd hsplit (hshort method target rest)
      · rfl
    refine serves_without_dial rfl ?_ hstatus.symm rfl
    rintro key ⟨-, method, target, rest, hsplit, -⟩
    exact hshort method target rest hsplit

/-- **The proxy dials exactly what the policy lists.** -/
theorem proxy_serves_allowlist (endpoints : List (String × UInt16)) (connect : String → Bool)
    (chunks : List (List UInt8)) :
    ∃ events,
      (∀ fuel, chunks.flatten.length < fuel →
        handleClient (normalizeAllow (allowFromEndpoints endpoints)) connect fuel chunks =
          some events) ∧
      ServesAllowlist endpoints connect chunks.flatten events := by
  by_cases h : chunks.flatten = [] ∨ ¬ Decodes (headLines chunks.flatten)
  · refine ⟨[], fun fuel hfuel => handleClient_of_not_decodes _ connect h hfuel, ?_⟩
    have hstatus : expectedStatus endpoints connect chunks.flatten = [] := if_pos h
    exact serves_without_dial rfl (not_asksFor_of_not_decodes h) hstatus.symm rfl
  · have hne : chunks.flatten ≠ [] := fun hnil => h (Or.inl hnil)
    have hdec : Decodes (headLines chunks.flatten) := by
      by_contra hnot
      exact h (Or.inr hnot)
    obtain ⟨line, r, hline, -, hrun⟩ := handleClient_of_decodes _ connect hne hdec
    exact ⟨_, hrun, serves_answer connect hne hdec hline r⟩

end SimpleSandbox
