import SimpleSandbox.ProxyHead

/-!
# The dry-run check and the running proxy

`is_allowed` looks for its key in the set as `allow_from_endpoints` builds it.  The proxy
normalises that set once more and looks for the key of the request in the result.  The second
normalisation changes the hosts that begin with whitespace and nothing else, so the two answers
differ where such a host is the only reason to let a request pass.
-/

namespace SimpleSandbox

open RustText ChunkReader

/-! ## A request for a host and a port -/

/-- The two ways to write the target; port 443 may be left out. -/
def TargetOf (host : String) (port : UInt16) (target : String) : Prop :=
  target = host ++ ":" ++ decimal port.toNat ∨ port = 443 ∧ target = host

/-- The head of the connection asks for the host and the port. -/
structure ConnectsTo (host : String) (port : UInt16) (bytes : List UInt8) : Prop where
  decodes : Decodes (headLines bytes)
  request : ∃ method target rest, requestTokens bytes = method :: target :: rest ∧
    eqIgnoreAsciiCase method "CONNECT" = true ∧ TargetOf host port target

/-- The proxy takes the connection to the dial step. -/
def Passes (allow : List String) (connect : String → Bool) (chunks : List (List UInt8)) : Prop :=
  ∃ address events, ∀ fuel, chunks.flatten.length < fuel →
    handleClient (normalizeAllow allow) connect fuel chunks = some (.dial address :: events)

/-- The proxy answers 403 and does nothing else. -/
def Refused (allow : List String) (connect : String → Bool) (chunks : List (List UInt8)) : Prop :=
  ∀ fuel, chunks.flatten.length < fuel →
    handleClient (normalizeAllow allow) connect fuel chunks = some [.status forbidden]

/-- The check says what the proxy does. -/
structure DryRunAgrees (endpoints : List (String × UInt16)) (connect : String → Bool)
    (host : String) (port : UInt16) (chunks : List (List UInt8)) : Prop where
  allowed : isAllowed (allowFromEndpoints endpoints) host port = true ↔
    Passes (allowFromEndpoints endpoints) connect chunks
  denied : isAllowed (allowFromEndpoints endpoints) host port = false ↔
    Refused (allowFromEndpoints endpoints) connect chunks

/-! ## The two keys -/

theorem hostPort_inj {a b : String} {p q : UInt16} :
    a ++ ":" ++ decimal p.toNat = b ++ ":" ++ decimal q.toNat ↔ a = b ∧ p = q := by
  constructor
  · intro h
    have hsplit := rsplitOnce_append a (decimal p.toNat) (c := ':') (colon_not_mem_decimal _)
    have hsplit' := rsplitOnce_append b (decimal q.toNat) (c := ':') (colon_not_mem_decimal _)
    have hcolon : String.ofList [':'] = ":" := rfl
    rw [hcolon, h] at hsplit
    rw [hcolon, hsplit] at hsplit'
    obtain ⟨hhost, hport⟩ := Prod.mk.inj (Option.some.inj hsplit')
    exact ⟨hhost, UInt16.toNat_inj.mp (decimal_injective hport)⟩
  · rintro ⟨rfl, rfl⟩
    rfl

theorem trimStart_toAsciiLowercase_comm (s : String) :
    trimStart (toAsciiLowercase s) = toAsciiLowercase (trimStart s) := by
  have hpred : (isWhitespace ∘ Char.toLower) = isWhitespace := funext isWhitespace_toLower
  apply String.ext
  rw [trimStart, String.toList_ofList, toList_toAsciiLowercase, toList_toAsciiLowercase, trimStart,
    String.toList_ofList, List.dropWhile_map, hpred]

theorem eqIgnoreAsciiCase_iff {s t : String} :
    eqIgnoreAsciiCase s t = true ↔ toAsciiLowercase s = toAsciiLowercase t := by
  simp [eqIgnoreAsciiCase]

/-- The check compares whole hosts. -/
theorem isAllowed_iff {endpoints : List (String × UInt16)} {host : String} {port : UInt16} :
    isAllowed (allowFromEndpoints endpoints) host port = true ↔
      ∃ e ∈ endpoints, e.2 = port ∧ eqIgnoreAsciiCase e.1 host = true := by
  rw [isAllowed, allowFromEndpoints, List.contains_iff_mem, List.mem_map]
  refine exists_congr fun e => and_congr_right fun _ => ?_
  rw [hostPort_inj, eqIgnoreAsciiCase_iff, and_comm]

/-- The proxy compares hosts without their leading whitespace. -/
theorem mem_normalizeAllow_hostPort {endpoints : List (String × UInt16)} {host : String}
    {port : UInt16} :
    toAsciiLowercase host ++ ":" ++ decimal port.toNat ∈
        normalizeAllow (allowFromEndpoints endpoints) ↔
      ∃ e ∈ endpoints, e.2 = port ∧ eqIgnoreAsciiCase (trimStart e.1) host = true := by
  rw [mem_normalizeAllow]
  refine exists_congr fun e => and_congr_right fun _ => ?_
  rw [endpointKey, hostPort_inj, eqIgnoreAsciiCase_iff, trimStart_toAsciiLowercase_comm,
    and_comm, eq_comm (a := port), eq_comm (a := toAsciiLowercase host)]

/-- Both spellings of a target have the same key. -/
theorem targetKey_of_targetOf {host target : String} {port : UInt16}
    (hcolon : ':' ∉ host.toList) (h : TargetOf host port target) :
    targetKey target = toAsciiLowercase host ++ ":" ++ decimal port.toNat := by
  rcases h with rfl | ⟨rfl, rfl⟩
  · have hlower : toAsciiLowercase (host ++ ":" ++ decimal port.toNat) =
        toAsciiLowercase host ++ ":" ++ decimal port.toNat := by
      rw [toAsciiLowercase_append, toAsciiLowercase_append, toAsciiLowercase_decimal]
      rfl
    have hmem : containsChar (toAsciiLowercase host ++ ":" ++ decimal port.toNat) ':' = true := by
      simp [containsChar]
    rw [targetKey]
    simp only [hlower, hmem, if_true]
  · have hmem : containsChar (toAsciiLowercase target) ':' = false := by
      rw [containsChar, toList_toAsciiLowercase, List.contains_eq_mem, decide_eq_false_iff_not]
      intro hin
      obtain ⟨c, hc, hlower⟩ := List.mem_map.mp hin
      rw [toLower_eq_colon hlower] at hc
      exact hcolon hc
    rw [targetKey]
    simp only [hmem, Bool.false_eq_true, if_false]
    rw [String.append_assoc]
    rfl

/-! ## What the proxy answers -/

variable {endpoints : List (String × UInt16)} {connect : String → Bool} {host : String}
  {port : UInt16} {chunks : List (List UInt8)}

theorem ConnectsTo.ne_nil {bytes : List UInt8} (h : ConnectsTo host port bytes) : bytes ≠ [] := by
  rintro rfl
  obtain ⟨method, target, rest, htokens, -⟩ := h.request
  rw [requestTokens_nil] at htokens
  cases htokens

/-- A request for a host and a port is answered by looking the two up. -/
theorem handleClient_connectsTo (allow : List String) (connect : String → Bool)
    (hcolon : ':' ∉ host.toList) (h : ConnectsTo host port chunks.flatten) :
    ∃ events, ∀ fuel, chunks.flatten.length < fuel →
      handleClient allow connect fuel chunks =
        some (if toAsciiLowercase host ++ ":" ++ decimal port.toNat ∈ allow then
          .dial (toAsciiLowercase host ++ ":" ++ decimal port.toNat) :: events
        else [.status forbidden]) := by
  obtain ⟨line, r, hline, -, hrun⟩ := handleClient_of_decodes allow connect h.ne_nil h.decodes
  obtain ⟨method, target, rest, htokens, hmethod, htarget⟩ := h.request
  have hsplit : splitWhitespace line = method :: target :: rest := by
    rw [← htokens, requestTokens, hline]
  have hanswer : answer allow connect line r =
      if toAsciiLowercase host ++ ":" ++ decimal port.toNat ∈ allow then
        if connect (toAsciiLowercase host ++ ":" ++ decimal port.toNat) then
          [.dial (toAsciiLowercase host ++ ":" ++ decimal port.toNat), .status established,
            .relay r.source]
        else [.dial (toAsciiLowercase host ++ ":" ++ decimal port.toNat), .status badGateway]
      else [.status forbidden] := by
    simp only [answer, hsplit, hmethod, if_true, targetKey_of_targetOf hcolon htarget,
      List.contains_iff_mem]
  cases hconnect : connect (toAsciiLowercase host ++ ":" ++ decimal port.toNat) with
  | true =>
    refine ⟨[.status established, .relay r.source], fun fuel hfuel => ?_⟩
    rw [hrun fuel hfuel, hanswer, hconnect]
    rfl
  | false =>
    refine ⟨[.status badGateway], fun fuel hfuel => ?_⟩
    rw [hrun fuel hfuel, hanswer, hconnect]
    rfl

theorem passes_iff (hcolon : ':' ∉ host.toList) (h : ConnectsTo host port chunks.flatten) :
    Passes (allowFromEndpoints endpoints) connect chunks ↔
      ∃ e ∈ endpoints, e.2 = port ∧ eqIgnoreAsciiCase (trimStart e.1) host = true := by
  rw [← mem_normalizeAllow_hostPort]
  obtain ⟨events, hrun⟩ := handleClient_connectsTo
    (normalizeAllow (allowFromEndpoints endpoints)) connect hcolon h
  constructor
  · rintro ⟨address, events', hpass⟩
    have hone := hpass _ (Nat.lt_succ_self _)
    rw [hrun _ (Nat.lt_succ_self _)] at hone
    by_contra hdeny
    rw [if_neg hdeny] at hone
    cases Option.some.inj hone
  · intro hmem
    refine ⟨toAsciiLowercase host ++ ":" ++ decimal port.toNat, events, fun fuel hfuel => ?_⟩
    rw [hrun fuel hfuel, if_pos hmem]

theorem refused_iff (hcolon : ':' ∉ host.toList) (h : ConnectsTo host port chunks.flatten) :
    Refused (allowFromEndpoints endpoints) connect chunks ↔
      ¬ ∃ e ∈ endpoints, e.2 = port ∧ eqIgnoreAsciiCase (trimStart e.1) host = true := by
  rw [← mem_normalizeAllow_hostPort]
  obtain ⟨events, hrun⟩ := handleClient_connectsTo
    (normalizeAllow (allowFromEndpoints endpoints)) connect hcolon h
  constructor
  · intro hrefused hmem
    have hone := hrefused _ (Nat.lt_succ_self _)
    rw [hrun _ (Nat.lt_succ_self _), if_pos hmem] at hone
    cases Option.some.inj hone
  · intro hdeny fuel hfuel
    rw [hrun fuel hfuel, if_neg hdeny]

/-- What the check lets pass, the proxy does too. -/
theorem listed_of_isAllowed (hspace : ∀ c ∈ host.toList, isWhitespace c = false)
    (h : isAllowed (allowFromEndpoints endpoints) host port = true) :
    ∃ e ∈ endpoints, e.2 = port ∧ eqIgnoreAsciiCase (trimStart e.1) host = true := by
  obtain ⟨e, he, hport, hhost⟩ := isAllowed_iff.mp h
  refine ⟨e, he, hport, ?_⟩
  rw [eqIgnoreAsciiCase_iff] at hhost ⊢
  rw [← trimStart_toAsciiLowercase_comm, hhost, trimStart_toAsciiLowercase hspace]

/-- The check agrees with the proxy when they let the same requests pass. -/
theorem dryRunAgrees_iff_listed (hcolon : ':' ∉ host.toList)
    (h : ConnectsTo host port chunks.flatten) :
    DryRunAgrees endpoints connect host port chunks ↔
      (isAllowed (allowFromEndpoints endpoints) host port = true ↔
        ∃ e ∈ endpoints, e.2 = port ∧ eqIgnoreAsciiCase (trimStart e.1) host = true) := by
  constructor
  · intro hagrees
    rw [hagrees.allowed, passes_iff hcolon h]
  · intro hiff
    refine ⟨?_, ?_⟩
    · rw [hiff, passes_iff hcolon h]
    · rw [← Bool.not_eq_true, hiff, refused_iff hcolon h]

/-- **The check agrees with the proxy exactly when no endpoint owes its match to whitespace**:
    an endpoint is the host itself, or none is the host behind leading whitespace. -/
theorem dryRunAgrees_iff (endpoints : List (String × UInt16)) (connect : String → Bool)
    (host : String) (port : UInt16) (chunks : List (List UInt8))
    (hspace : ∀ c ∈ host.toList, isWhitespace c = false) (hcolon : ':' ∉ host.toList)
    (h : ConnectsTo host port chunks.flatten) :
    DryRunAgrees endpoints connect host port chunks ↔
      (∃ e ∈ endpoints, e.2 = port ∧ eqIgnoreAsciiCase e.1 host = true) ∨
      ∀ e ∈ endpoints, e.2 = port → eqIgnoreAsciiCase (trimStart e.1) host = false := by
  rw [dryRunAgrees_iff_listed hcolon h, ← isAllowed_iff]
  constructor
  · intro hiff
    by_cases hallowed : isAllowed (allowFromEndpoints endpoints) host port = true
    · exact Or.inl hallowed
    · refine Or.inr fun e he hport => ?_
      rw [← Bool.not_eq_true]
      intro hhost
      exact hallowed (hiff.mpr ⟨e, he, hport, hhost⟩)
  · rintro (hallowed | hnone)
    · exact iff_of_true hallowed (listed_of_isAllowed hspace hallowed)
    · refine ⟨listed_of_isAllowed hspace, ?_⟩
      rintro ⟨e, he, hport, hhost⟩
      rw [hnone e he hport] at hhost
      cases hhost

/-! ## The request as a client writes it -/

/-- The line `CONNECT target HTTP/1.1`. -/
def connectLine (target : String) : String := "CONNECT " ++ target ++ " HTTP/1.1\r"

/-- The line and the blank line that ends the headers. -/
def connectRequest (target : String) : List UInt8 :=
  asBytes (connectLine target) ++ 10 :: [13, 10]

theorem newline_not_mem_connectLine {target : String}
    (hspace : ∀ c ∈ target.toList, isWhitespace c = false) :
    (asBytes (connectLine target)).any isNewline = false := by
  rw [List.any_eq_false]
  intro b hb hnewline
  obtain rfl : b = 10 := by simpa [isNewline] using hnewline
  rw [asBytes_eq_encode] at hb
  obtain ⟨c, hc, hten⟩ := Utf8Slice.exists_char_of_mem hb (by decide)
  rw [connectLine, String.toList_append, String.toList_append, List.mem_append,
    List.mem_append] at hc
  have hfront : ∀ d ∈ "CONNECT ".toList, d.toNat ≠ 10 := List.forall_iff_forall_mem.mp (by decide)
  have hback : ∀ d ∈ " HTTP/1.1\r".toList, d.toNat ≠ 10 := List.forall_iff_forall_mem.mp (by decide)
  rcases hc with (hc | hc) | hc
  · exact hfront c hc hten
  · have hblank : isWhitespace c = true := by
      rw [isWhitespace, hten]
      rfl
    rw [hspace c hc] at hblank
    cases hblank
  · exact hback c hc hten

/-- A client that asks for a host and a port by either spelling connects to them. -/
theorem connectsTo_connectRequest {target : String} (htarget : TargetOf host port target)
    (hspace : ∀ c ∈ target.toList, isWhitespace c = false) (hne : target.toList ≠ []) :
    ConnectsTo host port (connectRequest target) := by
  have hbody := newline_not_mem_connectLine hspace
  have hnewline : isNewline 10 = true := rfl
  have hthrough : through isNewline (connectRequest target) =
      asBytes (connectLine target ++ "\n") := by
    rw [connectRequest, through_append_cons hbody hnewline, asBytes_append]
    rfl
  have hlines : headLines (connectRequest target) =
      [asBytes (connectLine target ++ "\n"), [13, 10]] := by
    rw [headLines, connectRequest, units_append_cons hbody hnewline, asBytes_append]
    rfl
  refine ⟨?_, "CONNECT", target, splitWhitespace (String.ofList "HTTP/1.1\r\n".toList), ?_,
    by decide, htarget⟩
  · rw [hlines]
    intro line hline
    simp only [List.mem_cons, List.not_mem_nil, or_false] at hline
    rcases hline with rfl | rfl
    · rw [fromUtf8_asBytes]
      rfl
    · have hblank : fromUtf8 [13, 10] = some "\r\n" := fromUtf8_eq_some_iff.mpr rfl
      rw [hblank]
      rfl
  · have htext : connectLine target ++ "\n" = String.ofList
        ("CONNECT".toList ++ ' ' :: (target.toList ++ ' ' :: "HTTP/1.1\r\n".toList)) := by
      have hfront : "CONNECT ".toList = "CONNECT".toList ++ [' '] := by decide
      have hback : " HTTP/1.1\r".toList ++ "\n".toList = ' ' :: "HTTP/1.1\r\n".toList := by decide
      apply String.ext
      rw [connectLine, String.toList_append, String.toList_append, String.toList_append, hfront,
        List.append_assoc _ " HTTP/1.1\r".toList, hback, List.append_assoc, List.append_assoc,
        List.singleton_append]
      exact String.toList_ofList.symm
    rw [requestTokens, hthrough, fromUtf8_asBytes, htext]
    have hword : ∀ c ∈ "CONNECT".toList, isWhitespace c = false := List.forall_iff_forall_mem.mp (by decide)
    exact splitWhitespace_request hword (by decide) hspace hne rfl rfl

/-- A listed host in another case, without the port. -/
theorem dryRunAgrees_listed :
    DryRunAgrees [("API.example.com", 443)] (fun _ => true) "api.example.com" 443
      [connectRequest "api.example.com"] :=
  (dryRunAgrees_iff [("API.example.com", 443)] (fun _ => true) "api.example.com" 443
    [connectRequest "api.example.com"] (List.forall_iff_forall_mem.mp (by decide)) (by decide)
    (by
      rw [List.flatten_cons, List.flatten_nil, List.append_nil]
      exact connectsTo_connectRequest (Or.inr ⟨rfl, rfl⟩)
        (List.forall_iff_forall_mem.mp (by decide)) (by decide))).mpr
    (Or.inl ⟨("API.example.com", 443), by decide, rfl, by decide⟩)

/-- The proxy dials a host that the check denies. -/
theorem dryRun_not_always_agrees :
    ¬ ∀ (endpoints : List (String × UInt16)) (connect : String → Bool) (host : String)
        (port : UInt16) (chunks : List (List UInt8)),
      host ≠ "" → (∀ c ∈ host.toList, isWhitespace c = false) → ':' ∉ host.toList →
        ConnectsTo host port chunks.flatten → DryRunAgrees endpoints connect host port chunks := by
  intro hall
  have hconnects : ConnectsTo "example.com" 443 [connectRequest "example.com:443"].flatten := by
    rw [List.flatten_cons, List.flatten_nil, List.append_nil]
    exact connectsTo_connectRequest (Or.inl (by decide))
      (List.forall_iff_forall_mem.mp (by decide)) (by decide)
  have hagrees := hall [(" example.com", 443)] (fun _ => true) "example.com" 443 _ (by decide)
    (List.forall_iff_forall_mem.mp (by decide)) (by decide) hconnects
  have hpasses : Passes (allowFromEndpoints [(" example.com", 443)]) (fun _ => true)
      [connectRequest "example.com:443"] :=
    (passes_iff (by decide) hconnects).mpr ⟨(" example.com", 443), by decide, rfl, by decide⟩
  exact absurd (hagrees.allowed.mpr hpasses) (by decide)

end SimpleSandbox
