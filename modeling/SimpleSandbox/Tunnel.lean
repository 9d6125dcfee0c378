import SimpleSandbox.ProxyHead

/-!
# What passes through the tunnel

After an accepted CONNECT the proxy copies bytes both ways.  `relay` itself loses nothing,
in whatever order its two tasks run.  The hand-over from the buffered reader to the socket
does: what the reader had already pulled beyond the head is dropped.
-/

namespace SimpleSandbox

open RustText ChunkReader Relation

/-! ## Copying -/

namespace CopyTask

/-- Everything the task has to write, in order: written, held, still to be read. -/
def bytes (t : CopyTask) : List UInt8 := t.sink ++ t.buf ++ t.source

/-- A task ends only after its source and its buffer. -/
def EndsEmpty (t : CopyTask) : Prop := t.ended = true → t.source = [] ∧ t.buf = []

/-- How far a task is from its end. -/
def distance (t : CopyTask) : ℕ :=
  2 * t.source.length + t.buf.length + (if t.ended then 0 else 1)

end CopyTask

theorem copyStep_bytes {t t' : CopyTask} (h : CopyStep t t') : t'.bytes = t.bytes := by
  cases h with
  | read n hpos hcap hsource hidle hopen => simp [CopyTask.bytes, hidle]
  | write n hpos hbuf hopen => simp [CopyTask.bytes]
  | finish hsource hidle hopen => rfl

theorem copyStep_endsEmpty {t t' : CopyTask} (h : CopyStep t t') : t'.EndsEmpty := by
  cases h with
  | read n hpos hcap hsource hidle hopen =>
    intro hended
    rw [hopen] at hended
    exact absurd hended Bool.false_ne_true
  | write n hpos hbuf hopen =>
    intro hended
    rw [hopen] at hended
    exact absurd hended Bool.false_ne_true
  | finish hsource hidle hopen =>
    intro _
    exact ⟨hsource, hidle⟩

/-- A task that has not ended can take a step that brings it closer to its end. -/
theorem exists_copyStep {t : CopyTask} (h : t.ended = false) :
    ∃ t', CopyStep t t' ∧ t'.distance < t.distance := by
  by_cases hbuf : t.buf = []
  · by_cases hsource : t.source = []
    · refine ⟨_, .finish t hsource hbuf h, ?_⟩
      simp [CopyTask.distance, h]
    · have hpos := List.length_pos_of_ne_nil hsource
      refine ⟨_, .read t 1 (by omega) (by omega) hpos hbuf h, ?_⟩
      simp only [CopyTask.distance, List.length_drop, List.length_take, hbuf, List.length_nil]
      omega
  · have hpos := List.length_pos_of_ne_nil hbuf
    refine ⟨_, .write t 1 (by omega) hpos h, ?_⟩
    simp only [CopyTask.distance, List.length_drop]
    omega

/-! ## Both directions at once -/

/-- What holds of every state of a relay that began with these bytes. -/
structure RelayInv (client upstream : List UInt8) (r : Relay) : Prop where
  up_bytes : r.up.bytes = client
  down_bytes : r.down.bytes = upstream
  up_ends : r.up.EndsEmpty
  down_ends : r.down.EndsEmpty

theorem relayInv_start (client upstream : List UInt8) :
    RelayInv client upstream (.start client upstream) where
  up_bytes := rfl
  down_bytes := rfl
  up_ends := fun h => absurd h Bool.false_ne_true
  down_ends := fun h => absurd h Bool.false_ne_true

theorem relayInv_step {client upstream : List UInt8} {r r' : Relay}
    (hinv : RelayInv client upstream r) (h : RelayStep r r') : RelayInv client upstream r' := by
  cases h with
  | up t hstep =>
    exact { hinv with
      up_bytes := (copyStep_bytes hstep).trans hinv.up_bytes
      up_ends := copyStep_endsEmpty hstep }
  | down t hstep =>
    exact { hinv with
      down_bytes := (copyStep_bytes hstep).trans hinv.down_bytes
      down_ends := copyStep_endsEmpty hstep }

theorem relayInv_run {client upstream : List UInt8} {r : Relay}
    (h : ReflTransGen RelayStep (.start client upstream) r) : RelayInv client upstream r := by
  induction h with
  | refl => exact relayInv_start client upstream
  | tail _ hstep ih => exact relayInv_step ih hstep

theorem sink_of_ended {t : CopyTask} (hends : t.EndsEmpty) (hended : t.ended = true) :
    t.sink = t.bytes := by
  obtain ⟨hsource, hbuf⟩ := hends hended
  rw [CopyTask.bytes, hsource, hbuf, List.append_nil, List.append_nil]

/-- **The relay is lossless.**  Each side gets what the other sent. -/
theorem relay_sinks {client upstream : List UInt8} {r : Relay}
    (h : ReflTransGen RelayStep (.start client upstream) r) (hjoined : r.Joined) :
    r.up.sink = client ∧ r.down.sink = upstream := by
  have hinv := relayInv_run h
  exact ⟨(sink_of_ended hinv.up_ends hjoined.1).trans hinv.up_bytes,
    (sink_of_ended hinv.down_ends hjoined.2).trans hinv.down_bytes⟩

/-- From every state the two tasks can run to their ends. -/
theorem exists_joined (r : Relay) : ∃ r', ReflTransGen RelayStep r r' ∧ r'.Joined := by
  induction hn : r.up.distance + r.down.distance using Nat.strongRecOn generalizing r with
  | ind n ih =>
    subst hn
    by_cases hup : r.up.ended = true
    · by_cases hdown : r.down.ended = true
      · exact ⟨r, .refl, hup, hdown⟩
      · obtain ⟨t, hstep, hlt⟩ := exists_copyStep (by simpa using hdown)
        obtain ⟨r', hrun, hjoined⟩ := ih _ (Nat.add_lt_add_left hlt _) { r with down := t } rfl
        exact ⟨r', .head (.down r t hstep) hrun, hjoined⟩
    · obtain ⟨t, hstep, hlt⟩ := exists_copyStep (by simpa using hup)
      obtain ⟨r', hrun, hjoined⟩ := ih _ (Nat.add_lt_add_right hlt _) { r with up := t } rfl
      exact ⟨r', .head (.up r t hstep) hrun, hjoined⟩

/-! ## The head of an allowed request -/

/-- A line with its newline. -/
def IsLine (line : List UInt8) : Prop := ∃ body, line = body ++ [10] ∧ 10 ∉ body

/-- The head of a CONNECT request for an allowed key. -/
structure ConnectHead (allow : List String) where
  request : List UInt8
  headers : List (List UInt8)
  blank : List UInt8
  line : String
  method : String
  target : String
  rest : List String
  request_line : IsLine request
  request_text : fromUtf8 request = some line
  request_tokens : splitWhitespace line = method :: target :: rest
  is_connect : eqIgnoreAsciiCase method "CONNECT" = true
  is_allowed : targetKey target ∈ allow
  header_lines : ∀ h ∈ headers, IsLine h ∧ isBlankLine h = false ∧ (fromUtf8 h).isSome = true
  blank_line : isBlankLine blank = true

namespace ConnectHead

variable {allow : List String}

def bytes (head : ConnectHead allow) : List UInt8 :=
  head.request ++ head.headers.flatten ++ head.blank

def key (head : ConnectHead allow) : String := targetKey head.target

end ConnectHead

theorem units_line_append {line : List UInt8} (h : IsLine line) (bs : List UInt8) :
    units isNewline (line ++ bs) = line :: units isNewline bs := by
  obtain ⟨body, rfl, hbody⟩ := h
  have hnone : body.any isNewline = false := by
    rw [List.any_eq_false]
    intro b hb
    have hne : b ≠ 10 := fun h => hbody (h ▸ hb)
    simpa [isNewline] using hne
  rw [List.append_assoc, List.singleton_append, units_append_cons hnone rfl]

theorem isLine_of_isBlankLine {line : List UInt8} (h : isBlankLine line = true) : IsLine line := by
  rw [isBlankLine, Bool.or_eq_true, beq_iff_eq, beq_iff_eq] at h
  rcases h with rfl | rfl
  · exact ⟨[13], rfl, by decide⟩
  · exact ⟨[], rfl, by decide⟩

theorem decodes_of_isBlankLine {line : List UInt8} (h : isBlankLine line = true) :
    (fromUtf8 line).isSome = true := by
  rw [isBlankLine, Bool.or_eq_true, beq_iff_eq, beq_iff_eq] at h
  rcases h with rfl | rfl
  · have htext : fromUtf8 [13, 10] = some "\r\n" := fromUtf8_eq_some_iff.mpr rfl
    rw [htext]
    rfl
  · have htext : fromUtf8 [10] = some "\n" := fromUtf8_eq_some_iff.mpr rfl
    rw [htext]
    rfl

theorem upToBlank_headers {headers : List (List UInt8)} {blank : List UInt8}
    (hheaders : ∀ h ∈ headers, IsLine h ∧ isBlankLine h = false) (hblank : isBlankLine blank = true)
    (payload : List UInt8) :
    upToBlank (units isNewline (headers.flatten ++ (blank ++ payload))) = headers ++ [blank] := by
  induction headers with
  | nil =>
    rw [List.flatten_nil, List.nil_append, units_line_append (isLine_of_isBlankLine hblank),
      upToBlank, if_pos hblank, List.nil_append]
  | cons h headers ih =>
    obtain ⟨hline, hnot⟩ := hheaders h List.mem_cons_self
    have htail : ∀ h ∈ headers, IsLine h ∧ isBlankLine h = false := fun x hx =>
      hheaders x (List.mem_cons_of_mem _ hx)
    rw [List.flatten_cons, List.append_assoc, units_line_append hline, upToBlank, hnot, ih htail]
    rfl

variable {allow : List String} {connect : String → Bool} {chunks : List (List UInt8)}
  {payload upstream : List UInt8}

theorem headLines_connectHead (head : ConnectHead allow) (payload : List UInt8) :
    headLines (head.bytes ++ payload) = head.request :: (head.headers ++ [head.blank]) := by
  have hlines : ∀ h ∈ head.headers, IsLine h ∧ isBlankLine h = false := fun h hh =>
    ⟨(head.header_lines h hh).1, (head.header_lines h hh).2.1⟩
  rw [headLines, ConnectHead.bytes, List.append_assoc, List.append_assoc,
    units_line_append head.request_line]
  exact congrArg (head.request :: ·) (upToBlank_headers hlines head.blank_line payload)

theorem decodes_connectHead (head : ConnectHead allow) (payload : List UInt8) :
    Decodes (headLines (head.bytes ++ payload)) := by
  rw [headLines_connectHead]
  intro line hmem
  simp only [List.mem_cons, List.mem_append, List.not_mem_nil, or_false] at hmem
  rcases hmem with rfl | hmem | rfl
  · rw [head.request_text]
    rfl
  · exact (head.header_lines line hmem).2.2
  · exact decodes_of_isBlankLine head.blank_line

/-- An accepted request reaches `relay`; the reader has then given out the head. -/
theorem handleClient_connectHead (head : ConnectHead allow)
    (hsplit : chunks.flatten = head.bytes ++ payload) (hdial : connect head.key = true) :
    ∃ r, PulledFor chunks head.bytes r ∧
      ∀ fuel, chunks.flatten.length < fuel →
        handleClient allow connect fuel chunks =
          some [.dial head.key, .status established, .relay r.source] := by
  have hthrough : through isNewline chunks.flatten = head.request := by
    have hunits := units_line_append head.request_line (head.headers.flatten ++ (head.blank ++ payload))
    have hbytes : chunks.flatten =
        head.request ++ (head.headers.flatten ++ (head.blank ++ payload)) := by
      rw [hsplit, ConnectHead.bytes, List.append_assoc, List.append_assoc]
    have hne : chunks.flatten ≠ [] := by
      obtain ⟨body, hbody, -⟩ := head.request_line
      rw [hbytes, hbody]
      simp
    rw [← hbytes, units_of_ne_nil hne] at hunits
    exact (List.cons.inj hunits).1
  have hne : chunks.flatten ≠ [] := by
    intro hnil
    rw [hnil] at hthrough
    obtain ⟨body, hbody, -⟩ := head.request_line
    rw [hbody] at hthrough
    simp [through] at hthrough
  have hdec : Decodes (headLines chunks.flatten) := by
    rw [hsplit]
    exact decodes_connectHead head payload
  obtain ⟨line, r, hline, hpulled, hrun⟩ := handleClient_of_decodes allow connect hne hdec
  have hsame : line = head.line := by
    rw [hthrough, head.request_text] at hline
    exact (Option.some.inj hline).symm
  refine ⟨r, ?_, ?_⟩
  · rw [hsplit, headLines_connectHead] at hpulled
    simpa [ConnectHead.bytes] using hpulled
  · intro fuel hfuel
    have hallowed : allow.contains (targetKey head.target) = true := by
      simpa using head.is_allowed
    have hdial' : connect (targetKey head.target) = true := hdial
    rw [hrun fuel hfuel, hsame, answer, head.request_tokens]
    simp only [head.is_connect, hallowed, hdial', if_true]
    rfl

/-! ## Losslessness of the tunnel -/

/-- The connection is accepted, its relay can run to the end, and whenever it does the
    upstream has got the payload and the client, after the status line, what the upstream
    sent. -/
def Lossless (head : ConnectHead allow) (connect : String → Bool) (chunks : List (List UInt8))
    (payload upstream : List UInt8) : Prop :=
  ∃ source,
    (∀ fuel, chunks.flatten.length < fuel →
      handleClient allow connect fuel chunks =
        some [.dial head.key, .status established, .relay source]) ∧
    (∃ r, ReflTransGen RelayStep (.start source.flatten upstream) r ∧ r.Joined) ∧
    ∀ r, ReflTransGen RelayStep (.start source.flatten upstream) r → r.Joined →
      r.up.sink = payload ∧ r.down.sink = upstream

/-- What `relay` is handed is the payload without the buffered bytes. -/
theorem buffer_append_source {head : ConnectHead allow} {r : ChunkReader UInt8}
    (hpulled : PulledFor chunks head.bytes r) (hsplit : chunks.flatten = head.bytes ++ payload) :
    r.buffer ++ r.source.flatten = payload := by
  obtain ⟨k, hsource, htake, -⟩ := hpulled
  have hall : (chunks.take k).flatten ++ (chunks.drop k).flatten = chunks.flatten := by
    rw [← List.flatten_append, List.take_append_drop]
  rw [htake, hsource, hsplit, List.append_assoc] at hall
  exact List.append_cancel_left hall

theorem border_of_lossless {head : ConnectHead allow}
    (hsplit : chunks.flatten = head.bytes ++ payload) (hdial : connect head.key = true)
    (h : Lossless head connect chunks payload upstream) :
    ∃ k, (chunks.take k).flatten = head.bytes := by
  obtain ⟨r, hpulled, hrun⟩ := handleClient_connectHead head hsplit hdial
  obtain ⟨source, hrun', ⟨t, ht, hjoined⟩, hall⟩ := h
  have hsource : source = r.source := by
    have hone := hrun _ (Nat.lt_succ_self _)
    rw [hrun' _ (Nat.lt_succ_self _)] at hone
    simpa using hone
  have hgot : source.flatten = payload :=
    (relay_sinks ht hjoined).1.symm.trans (hall t ht hjoined).1
  rw [← buffer_eq_nil_iff hpulled]
  have hrest := buffer_append_source hpulled hsplit
  rw [← hsource, hgot] at hrest
  simpa using hrest

/-- **When the tunnel is lossless.**  The payload arrives whole exactly when one of the
    reads ended at the end of the head. -/
theorem tunnel_lossless_iff (head : ConnectHead allow) (connect : String → Bool)
    (chunks : List (List UInt8)) (payload upstream : List UInt8)
    (hsplit : chunks.flatten = head.bytes ++ payload) (hdial : connect head.key = true) :
    Lossless head connect chunks payload upstream ↔
      ∃ k, (chunks.take k).flatten = head.bytes := by
  constructor
  · exact border_of_lossless hsplit hdial
  · intro hborder
    obtain ⟨r, hpulled, hrun⟩ := handleClient_connectHead head hsplit hdial
    have hempty : r.buffer = [] := (buffer_eq_nil_iff hpulled).mpr hborder
    have hrest := buffer_append_source hpulled hsplit
    rw [hempty, List.nil_append] at hrest
    refine ⟨r.source, hrun, exists_joined _, ?_⟩
    intro t ht hjoined
    rw [← hrest]
    exact relay_sinks ht hjoined

/-! ## A payload in the same read -/

/-- `CONNECT a:1`, with no header lines. -/
def shortHead : ConnectHead ["a:1"] where
  request := asBytes "CONNECT a:1\r\n"
  headers := []
  blank := [13, 10]
  line := "CONNECT a:1\r\n"
  method := "CONNECT"
  target := "a:1"
  rest := []
  request_line := ⟨asBytes "CONNECT a:1\r", by decide, by decide⟩
  request_text := fromUtf8_asBytes _
  request_tokens := by decide
  is_connect := by decide
  is_allowed := by decide
  header_lines := fun h hh => nomatch hh
  blank_line := by decide

/-- Head and payload in two reads. -/
theorem tunnel_two_reads :
    Lossless shortHead (fun _ => true) [shortHead.bytes, [1, 2]] [1, 2] [3] :=
  (tunnel_lossless_iff shortHead (fun _ => true) [shortHead.bytes, [1, 2]] [1, 2] [3]
    (by decide) rfl).mpr ⟨1, by decide⟩

/-- A payload that comes in the read that ends the head is lost. -/
theorem tunnel_loses_payload :
    ¬ ∀ (allow : List String) (head : ConnectHead allow) (connect : String → Bool)
        (chunks : List (List UInt8)) (payload upstream : List UInt8),
      chunks.flatten = head.bytes ++ payload → connect head.key = true →
        Lossless head connect chunks payload upstream := by
  intro hall
  have hsplit : [shortHead.bytes ++ [1]].flatten = shortHead.bytes ++ [1] := by simp
  have hlossless := hall _ shortHead (fun _ => true) [shortHead.bytes ++ [1]] [1] [] hsplit rfl
  obtain ⟨k, hk⟩ := border_of_lossless hsplit rfl hlossless
  have hlength := congrArg List.length hk
  cases k with
  | zero => exact absurd hlength (by decide)
  | succ k => simp at hlength

end SimpleSandbox
