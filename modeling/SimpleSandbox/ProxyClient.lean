import SimpleSandbox.Tunnel

/-!
# One proxy client, step by step

`handle_client` as the executor runs it: every `await` is a point at which other tasks may
run, so a client is a state that moves from one such point to the next.  Reads and writes of
its sockets may fail, and a peer that has sent all it will send closes its side or stays
connected and silent, where a read waits for ever.  What is written is taken.
`Proxy.handleClient` is the same function run to its end at once, without failures and with
peers that close; the steps are shown to follow it.
-/

namespace SimpleSandbox

open RustText ChunkReader Relation

/-! ## The machine -/

/-- What the network holds ready for one connection. -/
structure Peer where
  chunks : List (List UInt8)     -- what the reads of the client socket return
  closes : Bool := true          -- and then: end of stream, or nothing any more?
  connects : Bool                -- does the dial succeed?
  upstream : List UInt8          -- what the upstream sends
  upstreamCloses : Bool := true

/-- The `await` at which `handle_client` stands. -/
inductive ClientStage where
  | reading (request : Option String) (line : List UInt8)
      -- `read_line`, with the request line once it is read, and what the line holds so far
  | dialing (key : String)                      -- `TcpStream::connect`
  | replying (status : String) (tunnel : Bool)  -- `write_all`; does `relay` follow?
  | relaying                                    -- `join!`
  | ended (broken : Bool)                       -- returned; by an i/o error?
deriving DecidableEq

structure Client where
  peer : Peer
  reader : ChunkReader UInt8
  stage : ClientStage
  events : List ProxyEvent := []
  relay : Option Relay := none

/-- `handle_client` is called. -/
def Client.start (peer : Peer) : Client where
  peer := peer
  reader := .ofChunks peer.chunks
  stage := .reading none []

/-- From the end of the head to the next `await`. -/
def afterHead (allow : List String) (requestLine : String) : List ProxyEvent × ClientStage :=
  match splitWhitespace requestLine with
  | method :: target :: _ =>
    if eqIgnoreAsciiCase method "CONNECT" then
      let key := targetKey target
      if allow.contains key then ([.dial key], .dialing key)
      else ([], .replying forbidden false)
    else ([], .replying methodNotAllowed false)
  | _ => ([], .replying methodNotAllowed false)

/-- From a line that `read_line` has finished to the next `await`. -/
def afterLine (allow : List String) (request : Option String) (line : List UInt8) :
    List ProxyEvent × ClientStage :=
  match request, fromUtf8 line with
  | _, none => ([], .ended false)
  | none, some text =>
    if text = "" then ([], .ended false) else ([], .reading (some text) [])
  | some requestLine, some text =>
    if text = "\r\n" ∨ text = "\n" ∨ text = "" then afterHead allow requestLine
    else ([], .reading (some requestLine) [])

/-- One step of a copying task of `relay`: it comes to its end when its source has been closed,
    or where `io` allows it by a read or a write that fails. -/
inductive TaskStep (io closes : Bool) : CopyTask → CopyTask → Prop
  | copy {t t' : CopyTask} (h : CopyStep t t') (hend : t'.ended = true → closes = true) :
      TaskStep io closes t t'
  | fail (t : CopyTask) (hio : io = true) (hopen : t.ended = false) :
      TaskStep io closes t { t with ended := true }

inductive TunnelStep (io : Bool) (peer : Peer) : Relay → Relay → Prop
  | up (r : Relay) (t : CopyTask) (h : TaskStep io peer.closes r.up t) :
      TunnelStep io peer r { r with up := t }
  | down (r : Relay) (t : CopyTask) (h : TaskStep io peer.upstreamCloses r.down t) :
      TunnelStep io peer r { r with down := t }

/-- The stages whose `await` is followed by `?`. -/
def ClientStage.fallible : ClientStage → Bool
  | .reading .. | .replying .. => true
  | _ => false

/-- One step of a client; `io` says whether reads and writes may fail. -/
inductive ClientStep (allow : List String) (io : Bool) : Client → Client → Prop
  | pull (c : Client) (request : Option String) (line chunk : List UInt8)
      (source : List (List UInt8)) (hstage : c.stage = .reading request line)
      (hnone : c.reader.buffer.any isNewline = false) (hsource : c.reader.source = chunk :: source) :
      ClientStep allow io c { c with
        reader := ⟨chunk, source⟩
        stage := .reading request (line ++ c.reader.buffer) }
  | line (c : Client) (request : Option String) (line : List UInt8)
      (hstage : c.stage = .reading request line)
      (hready : c.reader.buffer.any isNewline = true ∨
        c.reader.source = [] ∧ c.peer.closes = true) :
      ClientStep allow io c { c with
        reader := ⟨after isNewline c.reader.buffer, c.reader.source⟩
        stage := (afterLine allow request (line ++ through isNewline c.reader.buffer)).2
        events := c.events ++ (afterLine allow request (line ++ through isNewline c.reader.buffer)).1 }
  | dialed (c : Client) (key : String) (hstage : c.stage = .dialing key) :
      ClientStep allow io c { c with
        stage := if c.peer.connects then .replying established true else .replying badGateway false }
  | refused (c : Client) (status : String) (hstage : c.stage = .replying status false) :
      ClientStep allow io c { c with stage := .ended false, events := c.events ++ [.status status] }
  | opened (c : Client) (status : String) (hstage : c.stage = .replying status true) :
      -- `into_inner` gave the socket back, without what the reader had buffered
      ClientStep allow io c { c with
        stage := .relaying
        events := c.events ++ [.status status, .relay c.reader.source]
        relay := some (.start c.reader.source.flatten c.peer.upstream) }
  | relay (c : Client) (r r' : Relay) (hstage : c.stage = .relaying) (hrelay : c.relay = some r)
      (h : TunnelStep io c.peer r r') : ClientStep allow io c { c with relay := some r' }
  | joined (c : Client) (r : Relay) (hstage : c.stage = .relaying) (hrelay : c.relay = some r)
      (hjoined : r.Joined) : ClientStep allow io c { c with stage := .ended false }
  | broken (c : Client) (hio : io = true) (hstage : c.stage.fallible = true) :
      ClientStep allow io c { c with stage := .ended true }

/-! ## What is still to come -/

/-- The rest of `handle_client` behind the header loop. -/
def drained (allow : List String) (connect : String → Bool) (requestLine : String) :
    Option (Option (ChunkReader UInt8)) → Option (List ProxyEvent)
  | none => none
  | some none => some []
  | some (some r) => some (answer allow connect requestLine r)

/-- The rest of `handle_client` behind a line. -/
def resumeLine (allow : List String) (connect : String → Bool) (fuel : ℕ)
    (request : Option String) (line : List UInt8) (r : ChunkReader UInt8) :
    Option (List ProxyEvent) :=
  match request, fromUtf8 line with
  | _, none => some []
  | none, some text =>
    if text = "" then some [] else drained allow connect text (drainHeaders fuel r)
  | some requestLine, some text =>
    if text = "\r\n" ∨ text = "\n" ∨ text = "" then some (answer allow connect requestLine r)
    else drained allow connect requestLine (drainHeaders fuel r)

/-- What `handle_client` still does from a state on when nothing fails. -/
def Client.resume (allow : List String) (fuel : ℕ) (c : Client) : Option (List ProxyEvent) :=
  match c.stage with
  | .reading request line =>
    resumeLine allow (fun _ => c.peer.connects) fuel request
      (line ++ (c.reader.readUnit isNewline).1) (c.reader.readUnit isNewline).2
  | .dialing _ =>
    some (if c.peer.connects then [.status established, .relay c.reader.source]
      else [.status badGateway])
  | .replying status tunnel =>
    some (.status status :: if tunnel then [.relay c.reader.source] else [])
  | .relaying | .ended _ => some []

/-- With enough fuel the rest is these events. -/
def Client.Yields (allow : List String) (c : Client) (events : List ProxyEvent) : Prop :=
  ∃ n, ∀ fuel, n < fuel → c.resume allow fuel = some events

variable {allow : List String} {io : Bool}

/-- At its first `await` the client has everything to come. -/
theorem resume_start (fuel : ℕ) (peer : Peer) :
    (Client.start peer).resume allow fuel =
      handleClient allow (fun _ => peer.connects) fuel peer.chunks := by
  rw [Client.resume, Client.start, handleClient, readTextLine]
  simp only [List.nil_append]
  unfold resumeLine
  cases htext : fromUtf8 ((ofChunks peer.chunks).readUnit isNewline).1 with
  | none => rfl
  | some text =>
    by_cases hempty : text = ""
    · simp only [if_pos hempty]
    · simp only [if_neg hempty]
      rfl

/-- What is answered after the head, in two parts. -/
theorem answer_eq_afterHead (requestLine : String) (c : Client) (fuel : ℕ) :
    some (answer allow (fun _ => c.peer.connects) requestLine c.reader) =
      ({ c with stage := (afterHead allow requestLine).2 }.resume allow fuel).map
        ((afterHead allow requestLine).1 ++ ·) := by
  unfold answer afterHead
  rcases htokens : splitWhitespace requestLine with _ | ⟨method, _ | ⟨target, rest⟩⟩
  · rfl
  · rfl
  · by_cases hmethod : eqIgnoreAsciiCase method "CONNECT" = true
    · simp only [if_pos hmethod]
      by_cases hallow : allow.contains (targetKey target) = true
      · simp only [if_pos hallow, Client.resume]
        by_cases hconnect : c.peer.connects = true
        · simp only [if_pos hconnect]
          rfl
        · simp only [if_neg hconnect]
          rfl
      · simp only [if_neg hallow]
        rfl
    · simp only [if_neg hmethod]
      rfl

/-- A finished line, in two parts. -/
theorem resumeLine_eq_afterLine (request : Option String) (line : List UInt8) (c : Client)
    (fuel : ℕ) :
    resumeLine allow (fun _ => c.peer.connects) (fuel + 1) request line c.reader =
      ({ c with stage := (afterLine allow request line).2 }.resume allow fuel).map
        ((afterLine allow request line).1 ++ ·) := by
  unfold resumeLine afterLine
  cases htext : fromUtf8 line with
  | none => rfl
  | some text =>
    -- the loop goes on with the line after this one
    have hloop : ∀ requestLine, drained allow (fun _ => c.peer.connects) requestLine
        (drainHeaders (fuel + 1) c.reader) =
          ({ c with stage := .reading (some requestLine) [] }.resume allow fuel).map ([] ++ ·) := by
      intro requestLine
      rw [drainHeaders, readTextLine, Client.resume]
      simp only [List.nil_append, Option.map_id']
      unfold resumeLine
      cases hnext : fromUtf8 (c.reader.readUnit isNewline).1 with
      | none => rfl
      | some next =>
        by_cases hblank : next = "\r\n" ∨ next = "\n" ∨ next = ""
        · simp only [if_pos hblank]
          rfl
        · simp only [if_neg hblank]
    cases request with
    | none =>
      by_cases hempty : text = ""
      · simp only [if_pos hempty]
        rfl
      · simp only [if_neg hempty]
        exact hloop text
    | some requestLine =>
      by_cases hblank : text = "\r\n" ∨ text = "\n" ∨ text = ""
      · simp only [if_pos hblank]
        exact answer_eq_afterHead requestLine c fuel
      · simp only [if_neg hblank]
        exact hloop requestLine

/-! ## The steps follow the function -/

theorem clientStep_peer {c c' : Client} (h : ClientStep allow io c c') : c'.peer = c.peer := by
  cases h <;> rfl

/-- What comes next is said now, unless the step breaks the connection off. -/
theorem yields_step {c c' : Client} (h : ClientStep allow io c c') {rest : List ProxyEvent}
    (hyields : c.Yields allow rest) :
    ∃ new rest', c'.events = c.events ++ new ∧ rest = new ++ rest' ∧
      (c'.stage ≠ .ended true → c'.Yields allow rest') := by
  obtain ⟨n, hn⟩ := hyields
  have hone := hn (n + 1) (Nat.lt_succ_self n)
  cases h with
  | pull request line chunk source hstage hnone hsource =>
    refine ⟨[], rest, (List.append_nil _).symm, rfl, fun _ => ⟨n, fun fuel hfuel => ?_⟩⟩
    rw [← hn fuel hfuel, Client.resume, Client.resume, hstage, readUnit_pull hnone hsource]
    simp only [List.append_assoc]
  | line request line hstage hready =>
    -- one line costs one unit of fuel
    have hsplit : ∀ fuel, n < fuel →
        ({ c with
            reader := ⟨after isNewline c.reader.buffer, c.reader.source⟩
            stage := (afterLine allow request (line ++ through isNewline c.reader.buffer)).2
          }.resume allow fuel).map
          ((afterLine allow request (line ++ through isNewline c.reader.buffer)).1 ++ ·) =
        some rest := by
      intro fuel hfuel
      rw [← resumeLine_eq_afterLine request (line ++ through isNewline c.reader.buffer)
        { c with reader := ⟨after isNewline c.reader.buffer, c.reader.source⟩ } fuel]
      have hlater := hn (fuel + 1) (Nat.lt_succ_of_lt hfuel)
      rw [Client.resume, hstage, readUnit_ready (hready.imp_right And.left)] at hlater
      exact hlater
    obtain ⟨rest', -, hrest⟩ := Option.map_eq_some_iff.mp (hsplit (n + 1) (Nat.lt_succ_self n))
    refine ⟨_, rest', rfl, hrest.symm, fun _ => ⟨n, fun fuel hfuel => ?_⟩⟩
    obtain ⟨later, hlater, hsame⟩ := Option.map_eq_some_iff.mp (hsplit fuel hfuel)
    rw [← hrest] at hsame
    rw [← List.append_cancel_left hsame]
    exact hlater
  | dialed key hstage =>
    rw [Client.resume, hstage] at hone
    refine ⟨[], rest, (List.append_nil _).symm, rfl, fun _ => ⟨0, fun fuel _ => ?_⟩⟩
    rw [← hone]
    unfold Client.resume
    by_cases hconnect : c.peer.connects = true
    · simp only [if_pos hconnect, if_true]
    · simp only [if_neg hconnect]
      rfl
  | refused status hstage =>
    rw [Client.resume, hstage] at hone
    exact ⟨[.status status], [], rfl, (Option.some.inj hone).symm, fun _ => ⟨0, fun fuel _ => rfl⟩⟩
  | opened status hstage =>
    rw [Client.resume, hstage] at hone
    exact ⟨[.status status, .relay c.reader.source], [], rfl, (Option.some.inj hone).symm,
      fun _ => ⟨0, fun fuel _ => by rw [Client.resume]⟩⟩
  | relay r r' hstage hrelay hstep =>
    rw [Client.resume, hstage] at hone
    refine ⟨[], [], (List.append_nil _).symm, (Option.some.inj hone).symm, fun _ => ⟨0, fun fuel _ => ?_⟩⟩
    rw [Client.resume, hstage]
  | joined r hstage hrelay hjoined =>
    rw [Client.resume, hstage] at hone
    exact ⟨[], [], (List.append_nil _).symm, (Option.some.inj hone).symm, fun _ => ⟨0, fun fuel _ => rfl⟩⟩
  | broken hio hstage =>
    exact ⟨[], rest, (List.append_nil _).symm, rfl, fun hne => absurd rfl hne⟩

/-- The events so far are the first of those of the whole function, and what is left is what
    the client has yet to do. -/
def Client.Follows (allow : List String) (c : Client) : Prop :=
  ∃ rest,
    (∀ fuel, c.peer.chunks.flatten.length < fuel →
      handleClient allow (fun _ => c.peer.connects) fuel c.peer.chunks = some (c.events ++ rest)) ∧
    (c.stage ≠ .ended true → c.Yields allow rest)

/-- `handle_client` returns. -/
theorem handleClient_returns (allow : List String) (connect : String → Bool)
    (chunks : List (List UInt8)) :
    ∃ events, ∀ fuel, chunks.flatten.length < fuel →
      handleClient allow connect fuel chunks = some events := by
  by_cases h : chunks.flatten = [] ∨ ¬ Decodes (headLines chunks.flatten)
  · exact ⟨[], fun fuel hfuel => handleClient_of_not_decodes allow connect h hfuel⟩
  · have hdec : Decodes (headLines chunks.flatten) := by
      by_contra hnot
      exact h (Or.inr hnot)
    obtain ⟨line, r, -, -, hrun⟩ :=
      handleClient_of_decodes allow connect (fun hnil => h (Or.inl hnil)) hdec
    exact ⟨_, hrun⟩

theorem follows_start (allow : List String) (peer : Peer) : (Client.start peer).Follows allow := by
  obtain ⟨events, hevents⟩ := handleClient_returns allow (fun _ => peer.connects) peer.chunks
  refine ⟨events, hevents, fun _ => ⟨peer.chunks.flatten.length, fun fuel hfuel => ?_⟩⟩
  rw [resume_start]
  exact hevents fuel hfuel

theorem follows_step {c c' : Client} (h : ClientStep allow io c c') (hopen : c.stage ≠ .ended true)
    (hinv : c.Follows allow) : c'.Follows allow := by
  obtain ⟨rest, hwhole, hyields⟩ := hinv
  obtain ⟨new, rest', hevents, rfl, hyields'⟩ := yields_step h (hyields hopen)
  refine ⟨rest', ?_, hyields'⟩
  rw [clientStep_peer h, hevents]
  intro fuel hfuel
  rw [List.append_assoc]
  exact hwhole fuel hfuel

/-- Nothing follows the end. -/
theorem not_clientStep_of_ended {c c' : Client} {broken : Bool} (h : c.stage = .ended broken) :
    ¬ ClientStep allow io c c' := by
  intro hstep
  cases hstep with
  | pull request line chunk source hstage => rw [h] at hstage; cases hstage
  | line request line hstage => rw [h] at hstage; cases hstage
  | dialed key hstage => rw [h] at hstage; cases hstage
  | refused status hstage => rw [h] at hstage; cases hstage
  | opened status hstage => rw [h] at hstage; cases hstage
  | relay r r' hstage => rw [h] at hstage; cases hstage
  | joined r hstage => rw [h] at hstage; cases hstage
  | broken hio hstage => rw [h] at hstage; cases hstage

theorem follows_run {peer : Peer} {c : Client}
    (h : ReflTransGen (ClientStep allow io) (.start peer) c) : c.Follows allow := by
  induction h with
  | refl => exact follows_start allow peer
  | tail _ hstep ih => exact follows_step hstep (fun hend => not_clientStep_of_ended hend hstep) ih

/-- A client that has returned of itself has done everything. -/
theorem Client.Yields.eq_nil {c : Client} {rest : List ProxyEvent} (h : c.Yields allow rest)
    (hstage : c.stage = .ended false) : rest = [] := by
  obtain ⟨n, hn⟩ := h
  have hone := hn (n + 1) (Nat.lt_succ_self n)
  rw [Client.resume, hstage] at hone
  exact (Option.some.inj hone).symm

/-! ## What passes through a client's tunnel -/

theorem taskStep_bytes {closes : Bool} {t t' : CopyTask} (h : TaskStep io closes t t') :
    t'.bytes = t.bytes := by
  cases h with
  | copy h hend => exact copyStep_bytes h
  | fail hio hopen => rfl

/-- The two streams of a tunnel, with what has been written of each. -/
structure Carries (client upstream : List UInt8) (r : Relay) : Prop where
  up : r.up.bytes = client
  down : r.down.bytes = upstream

theorem carries_step {client upstream : List UInt8} {peer : Peer} {r r' : Relay}
    (hinv : Carries client upstream r) (h : TunnelStep io peer r r') :
    Carries client upstream r' := by
  cases h with
  | up t hstep => exact { hinv with up := (taskStep_bytes hstep).trans hinv.up }
  | down t hstep => exact { hinv with down := (taskStep_bytes hstep).trans hinv.down }

theorem sink_isPrefix (t : CopyTask) : t.sink <+: t.bytes :=
  ⟨t.buf ++ t.source, by rw [CopyTask.bytes, List.append_assoc]⟩

/-- A client's tunnel carries what its socket held when `relay` was called. -/
def Client.Tunnelled (c : Client) : Prop :=
  (c.stage = .relaying → c.relay.isSome = true) ∧
  ∀ r, c.relay = some r → ∃ source, ProxyEvent.relay source ∈ c.events ∧
    Carries source.flatten c.peer.upstream r

theorem tunnelled_start (peer : Peer) : (Client.start peer).Tunnelled :=
  ⟨nofun, nofun⟩

/-- A step that does not touch the tunnel. -/
theorem Client.Tunnelled.of_relay_eq {c c' : Client} (hinv : c.Tunnelled)
    (hpeer : c'.peer = c.peer) (hrelay : c'.relay = c.relay) (hevents : c.events <+: c'.events)
    (hstage : c'.stage ≠ .relaying) : c'.Tunnelled := by
  refine ⟨fun h => absurd h hstage, fun r hr => ?_⟩
  rw [hrelay] at hr
  obtain ⟨source, hmem, hcarries⟩ := hinv.2 r hr
  exact ⟨source, hevents.subset hmem, hpeer ▸ hcarries⟩

theorem afterHead_ne_relaying (requestLine : String) :
    (afterHead allow requestLine).2 ≠ .relaying := by
  unfold afterHead
  rcases splitWhitespace requestLine with _ | ⟨method, _ | ⟨target, rest⟩⟩
  · exact nofun
  · exact nofun
  · by_cases hmethod : eqIgnoreAsciiCase method "CONNECT" = true
    · by_cases hallow : allow.contains (targetKey target) = true
      · simp only [if_pos hmethod, if_pos hallow]
        exact nofun
      · simp only [if_pos hmethod, if_neg hallow]
        exact nofun
    · simp only [if_neg hmethod]
      exact nofun

theorem afterLine_ne_relaying (request : Option String) (line : List UInt8) :
    (afterLine allow request line).2 ≠ .relaying := by
  unfold afterLine
  cases fromUtf8 line with
  | none => exact nofun
  | some text =>
    cases request with
    | none =>
      by_cases hempty : text = ""
      · simp only [if_pos hempty]
        exact nofun
      · simp only [if_neg hempty]
        exact nofun
    | some requestLine =>
      by_cases hblank : text = "\r\n" ∨ text = "\n" ∨ text = ""
      · simp only [if_pos hblank]
        exact afterHead_ne_relaying requestLine
      · simp only [if_neg hblank]
        exact nofun

theorem tunnelled_step {c c' : Client} (h : ClientStep allow io c c') (hinv : c.Tunnelled) :
    c'.Tunnelled := by
  cases h with
  | pull request line chunk source hstage hnone hsource =>
    exact hinv.of_relay_eq rfl rfl (List.prefix_refl _) nofun
  | line request line hstage hready =>
    exact hinv.of_relay_eq rfl rfl (List.prefix_append _ _) (afterLine_ne_relaying _ _)
  | dialed key hstage =>
    refine hinv.of_relay_eq rfl rfl (List.prefix_refl _) ?_
    dsimp only
    split
    · exact nofun
    · exact nofun
  | refused status hstage => exact hinv.of_relay_eq rfl rfl (List.prefix_append _ _) nofun
  | opened status hstage =>
    refine ⟨fun _ => rfl, fun r hr => ?_⟩
    obtain rfl := Option.some.inj hr
    exact ⟨c.reader.source, by simp, ⟨rfl, rfl⟩⟩
  | relay r r' hstage hrelay hstep =>
    refine ⟨fun _ => rfl, fun r₁ hr₁ => ?_⟩
    obtain rfl := Option.some.inj hr₁
    obtain ⟨source, hmem, hcarries⟩ := hinv.2 r hrelay
    exact ⟨source, hmem, carries_step hcarries hstep⟩
  | joined r hstage hrelay hjoined => exact hinv.of_relay_eq rfl rfl (List.prefix_refl _) nofun
  | broken hio hstage => exact hinv.of_relay_eq rfl rfl (List.prefix_refl _) nofun

theorem tunnelled_run {peer : Peer} {c : Client}
    (h : ReflTransGen (ClientStep allow io) (.start peer) c) : c.Tunnelled := by
  induction h with
  | refl => exact tunnelled_start peer
  | tail _ hstep ih => exact tunnelled_step hstep ih

/-! ## Every client comes to its end -/

/-- The work of a copying task, and of the tunnel that would be opened now. -/
def Client.tunnelWork (c : Client) : ℕ :=
  2 * c.reader.source.flatten.length + 2 * c.peer.upstream.length + 3

/-- The steps a client can still take. -/
def Client.work (c : Client) : ℕ :=
  match c.stage with
  | .reading _ line =>
    line.length + c.reader.remaining.length + c.reader.source.length + c.tunnelWork + 3
  | .dialing _ => c.tunnelWork + 2
  | .replying _ true => c.tunnelWork + 1
  | .replying _ false => 1
  | .relaying => 1 + c.relay.elim 0 fun r => r.up.distance + r.down.distance
  | .ended _ => 0

theorem copyStep_distance {t t' : CopyTask} (h : CopyStep t t') : t'.distance < t.distance := by
  cases h with
  | read n hpos hcap hsource hidle hopen =>
    simp only [CopyTask.distance, List.length_drop, List.length_take, hidle, List.length_nil]
    omega
  | write n hpos hbuf hopen =>
    simp only [CopyTask.distance, List.length_drop]
    omega
  | finish hsource hidle hopen => simp [CopyTask.distance, hopen]

theorem taskStep_distance {closes : Bool} {t t' : CopyTask} (h : TaskStep io closes t t') :
    t'.distance < t.distance := by
  cases h with
  | copy h hend => exact copyStep_distance h
  | fail hio hopen => simp [CopyTask.distance, hopen]

theorem distance_start (client upstream : List UInt8) :
    (Relay.start client upstream).up.distance + (Relay.start client upstream).down.distance =
      2 * client.length + 2 * upstream.length + 2 := by
  simp only [Relay.start, CopyTask.distance, List.length_nil, Bool.false_eq_true, if_false]
  omega

/-- The work of a stage that the end of a line leads to, the rest of the client as in `c`. -/
theorem work_afterLine (c : Client) (request : Option String) (line : List UInt8) :
    ({ c with stage := (afterLine allow request line).2 } : Client).work <
      line.length + c.reader.remaining.length + c.reader.source.length + c.tunnelWork + 3 := by
  have hhead : ∀ requestLine,
      ({ c with stage := (afterHead allow requestLine).2 } : Client).work ≤ c.tunnelWork + 2 := by
    intro requestLine
    have hleave : 1 ≤ c.tunnelWork + 2 := by omega
    unfold afterHead
    rcases splitWhitespace requestLine with _ | ⟨method, _ | ⟨target, rest⟩⟩
    · exact hleave
    · exact hleave
    · by_cases hmethod : eqIgnoreAsciiCase method "CONNECT" = true
      · by_cases hallow : allow.contains (targetKey target) = true
        · simp only [if_pos hmethod, if_pos hallow]
          exact Nat.le_refl _
        · simp only [if_pos hmethod, if_neg hallow]
          exact hleave
      · simp only [if_neg hmethod]
        exact hleave
  -- the next line begins empty, and this one was not
  have hnext : ∀ text requestLine, fromUtf8 line = some text → text ≠ "" →
      ({ c with stage := .reading requestLine [] } : Client).work <
        line.length + c.reader.remaining.length + c.reader.source.length + c.tunnelWork + 3 := by
    intro text requestLine htext hne
    have hpos : 0 < line.length := by
      apply List.length_pos_of_ne_nil
      rintro rfl
      exact hne (asBytes_injective (fromUtf8_eq_some_iff.mp htext).symm)
    simp only [Client.work, Client.tunnelWork, List.length_nil]
    omega
  unfold afterLine
  cases htext : fromUtf8 line with
  | none =>
    simp only [Client.work]
    omega
  | some text =>
    cases request with
    | none =>
      by_cases hempty : text = ""
      · simp only [if_pos hempty, Client.work]
        omega
      · simp only [if_neg hempty]
        exact hnext text (some text) htext hempty
    | some requestLine =>
      by_cases hblank : text = "\r\n" ∨ text = "\n" ∨ text = ""
      · simp only [if_pos hblank]
        have hle := hhead requestLine
        omega
      · simp only [if_neg hblank]
        have hempty : text ≠ "" := fun h => hblank (Or.inr (Or.inr h))
        exact hnext text (some requestLine) htext hempty

/-- **Every step brings a client closer to its end.** -/
theorem work_step {c c' : Client} (h : ClientStep allow io c c') : c'.work < c.work := by
  cases h with
  | pull request line chunk source hstage hnone hsource =>
    simp only [Client.work, Client.tunnelWork, hstage, hsource, remaining, List.length_append,
      List.length_cons, List.flatten_cons]
    omega
  | line request line hstage hready =>
    have hsplit := congrArg List.length (through_append_after isNewline c.reader.buffer)
    have hafter := @work_afterLine allow
      { c with reader := ⟨after isNewline c.reader.buffer, c.reader.source⟩ } request
      (line ++ through isNewline c.reader.buffer)
    refine Nat.lt_of_lt_of_le hafter ?_
    rw [List.length_append] at hsplit
    simp only [Client.work, Client.tunnelWork, hstage, remaining, List.length_append]
    omega
  | dialed key hstage =>
    by_cases hconnect : c.peer.connects = true
    · simp only [Client.work, Client.tunnelWork, hstage, if_pos hconnect]
      omega
    · simp only [Client.work, hstage, if_neg hconnect]
      omega
  | refused status hstage =>
    simp only [Client.work, hstage]
    omega
  | opened status hstage =>
    have hstart := distance_start c.reader.source.flatten c.peer.upstream
    simp only [Client.work, Client.tunnelWork, hstage, Option.elim_some]
    omega
  | relay r r' hstage hrelay hstep =>
    simp only [Client.work, hstage, hrelay, Option.elim_some]
    cases hstep with
    | up t h =>
      have hlt := taskStep_distance h
      simp only
      omega
    | down t h =>
      have hlt := taskStep_distance h
      simp only
      omega
  | joined r hstage hrelay hjoined =>
    simp only [Client.work, hstage]
    omega
  | broken hio hstage =>
    rcases hcase : c.stage with ⟨request, line⟩ | key | ⟨status, tunnel⟩ | _ | broken
    · simp only [Client.work, hcase]
      omega
    · rw [hcase] at hstage
      cases hstage
    · cases tunnel with
      | true =>
        simp only [Client.work, hcase]
        omega
      | false =>
        simp only [Client.work, hcase]
        omega
    · rw [hcase] at hstage
      cases hstage
    · rw [hcase] at hstage
      cases hstage

/-- A task waits for a source that stays open and sends nothing. -/
def CopyTask.Waits (t : CopyTask) (closes : Bool) : Prop :=
  t.ended = false ∧ t.source = [] ∧ t.buf = [] ∧ closes = false

/-- A client waits for a peer that stays connected and silent: in the head of its request, or
    with every task of its tunnel that has not ended. -/
def Client.Waits (c : Client) : Prop :=
  match c.stage with
  | .reading .. =>
    c.reader.buffer.any isNewline = false ∧ c.reader.source = [] ∧ c.peer.closes = false
  | .relaying => ∃ r, c.relay = some r ∧ ¬ r.Joined ∧
      (r.up.ended = true ∨ r.up.Waits c.peer.closes) ∧
      (r.down.ended = true ∨ r.down.Waits c.peer.upstreamCloses)
  | _ => False

/-- A task that has ended or waits goes on by a failure only. -/
theorem not_taskStep_of_waits {t t' : CopyTask} {closes : Bool}
    (h : t.ended = true ∨ t.Waits closes) : ¬ TaskStep false closes t t' := by
  intro hstep
  cases hstep with
  | fail hio hopen => cases hio
  | copy hcopy hend =>
    cases hcopy with
    | read n hpos hcap hsource hidle hopen =>
      rcases h with hended | ⟨-, hnone, -⟩
      · rw [hopen] at hended
        cases hended
      · rw [hnone, List.length_nil] at hsource
        omega
    | write n hpos hbuf hopen =>
      rcases h with hended | ⟨-, -, hnone, -⟩
      · rw [hopen] at hended
        cases hended
      · rw [hnone, List.length_nil] at hbuf
        omega
    | finish hsource hidle hopen =>
      rcases h with hended | ⟨-, -, -, hcloses⟩
      · rw [hopen] at hended
        cases hended
      · rw [hend rfl] at hcloses
        cases hcloses

/-- A client that waits goes on by a failure only. -/
theorem not_clientStep_of_waits {c c' : Client} (h : c.Waits) : ¬ ClientStep allow false c c' := by
  intro hstep
  rw [Client.Waits] at h
  cases hstep with
  | pull request line chunk source hstage hnone hsource =>
    rw [hstage, hsource] at h
    exact nomatch h.2.1
  | line request line hstage hready =>
    rw [hstage] at h
    rcases hready with hany | ⟨-, hcloses⟩
    · rw [h.1] at hany
      cases hany
    · rw [h.2.2] at hcloses
      cases hcloses
  | dialed key hstage => rw [hstage] at h; exact h
  | refused status hstage => rw [hstage] at h; exact h
  | opened status hstage => rw [hstage] at h; exact h
  | relay r r' hstage hrelay htunnel =>
    rw [hstage] at h
    obtain ⟨r₁, hr₁, -, hup, hdown⟩ := h
    obtain rfl := Option.some.inj (hrelay.symm.trans hr₁)
    cases htunnel with
    | up t htask => exact not_taskStep_of_waits hup htask
    | down t htask => exact not_taskStep_of_waits hdown htask
  | joined r hstage hrelay hjoined =>
    rw [hstage] at h
    obtain ⟨r₁, hr₁, hopen, -⟩ := h
    obtain rfl := Option.some.inj (hrelay.symm.trans hr₁)
    exact hopen hjoined
  | broken hio hstage => cases hio

/-- A task goes on without a failure unless it has ended or waits. -/
theorem exists_taskStep (io : Bool) {t : CopyTask} {closes : Bool} (hopen : ¬ t.ended = true)
    (hwaits : ¬ t.Waits closes) : ∃ t', TaskStep io closes t t' := by
  have hended : t.ended = false := by simpa using hopen
  by_cases hbuf : t.buf = []
  · by_cases hsource : t.source = []
    · cases hcloses : closes with
      | true => exact ⟨_, .copy (.finish t hsource hbuf hended) fun _ => rfl⟩
      | false => exact absurd ⟨hended, hsource, hbuf, hcloses⟩ hwaits
    · have hpos := List.length_pos_of_ne_nil hsource
      refine ⟨_, .copy (.read t 1 (by omega) (by omega) hpos hbuf hended) fun hno => ?_⟩
      exact absurd hno hopen
  · have hpos := List.length_pos_of_ne_nil hbuf
    refine ⟨_, .copy (.write t 1 (by omega) hpos hended) fun hno => ?_⟩
    exact absurd hno hopen

/-- A client that has not returned and does not wait can go on without a failure. -/
theorem exists_clientStep {c : Client} (htunnel : c.Tunnelled)
    (hopen : ∀ broken, c.stage ≠ .ended broken) (hwaits : ¬ c.Waits) :
    ∃ c', ClientStep allow io c c' := by
  rw [Client.Waits] at hwaits
  cases hstage : c.stage with
  | reading request line =>
    rw [hstage] at hwaits
    by_cases hany : c.reader.buffer.any isNewline = true
    · exact ⟨_, .line c request line hstage (Or.inl hany)⟩
    · have hnone : c.reader.buffer.any isNewline = false := by simpa using hany
      cases hsource : c.reader.source with
      | cons chunk source => exact ⟨_, .pull c request line chunk source hstage hnone hsource⟩
      | nil =>
        have hcloses : c.peer.closes = true := by
          by_contra hno
          exact hwaits ⟨hnone, hsource, by simpa using hno⟩
        exact ⟨_, .line c request line hstage (Or.inr ⟨hsource, hcloses⟩)⟩
  | dialing key => exact ⟨_, .dialed c key hstage⟩
  | replying status tunnel =>
    cases tunnel with
    | true => exact ⟨_, .opened c status hstage⟩
    | false => exact ⟨_, .refused c status hstage⟩
  | relaying =>
    rw [hstage] at hwaits
    obtain ⟨r, hrelay⟩ := Option.isSome_iff_exists.mp (htunnel.1 hstage)
    by_cases hjoined : r.Joined
    · exact ⟨_, .joined c r hstage hrelay hjoined⟩
    · by_cases hup : r.up.ended = true ∨ r.up.Waits c.peer.closes
      · have hdown : ¬ (r.down.ended = true ∨ r.down.Waits c.peer.upstreamCloses) :=
          fun hdown => hwaits ⟨r, hrelay, hjoined, hup, hdown⟩
        obtain ⟨hopen, hgoes⟩ := not_or.mp hdown
        obtain ⟨t, hstep⟩ := exists_taskStep io hopen hgoes
        exact ⟨_, .relay c r _ hstage hrelay (.down r t hstep)⟩
      · obtain ⟨hopen, hgoes⟩ := not_or.mp hup
        obtain ⟨t, hstep⟩ := exists_taskStep io hopen hgoes
        exact ⟨_, .relay c r _ hstage hrelay (.up r t hstep)⟩
  | ended broken => exact absurd hstage (hopen broken)

end SimpleSandbox
