import SimpleSandbox.ProxyClient
import SimpleSandbox.TaskPool

/-!
# The running proxy

`start_allowlist_proxy` spawns a loop that accepts clients, each of which is a task of its
own, until the handle is shut down or dropped.  All of these interleave.  Whatever the order,
a client gets what `handle_client` gives it alone, the proxy dials nothing but listed
endpoints that were asked for, and after a shutdown no client comes in and those that are
there run to their ends.
-/

namespace SimpleSandbox

open RustText ChunkReader Relation TaskPool

/-! ## The server -/

/-- The `ProxyHandle`. -/
inductive HandleState where
  | held
  | joining      -- `shutdown` awaits the loop
  | returned     -- `shutdown` has returned
  | dropped
deriving DecidableEq

structure ProxyServer where
  allow : List String
  signalled : Bool := false          -- the sender of the oneshot channel has been used
  running : Bool := true             -- the accept loop
  handle : HandleState := .held
  clients : List Client := []

/-- `start_allowlist_proxy`, once the listener is bound. -/
def startAllowlistProxy (allow : List String) : ProxyServer := { allow := normalizeAllow allow }

/-- One step of the proxy; `io` says whether accepts, reads and writes may fail. -/
inductive ServerStep (io : Bool) : ProxyServer → ProxyServer → Prop
  | accept (s : ProxyServer) (peer : Peer) (hrun : s.running = true) :
      ServerStep io s { s with clients := s.clients ++ [.start peer] }
  | acceptFails (s : ProxyServer) (hio : io = true) (hrun : s.running = true) :
      ServerStep io s { s with running := false }
  | stop (s : ProxyServer) (hrun : s.running = true) (hsignal : s.signalled = true) :
      ServerStep io s { s with running := false }
  | client (s : ProxyServer) (i : ℕ) (c c' : Client) (hi : s.clients[i]? = some c)
      (h : ClientStep s.allow io c c') : ServerStep io s { s with clients := s.clients.set i c' }
  | shutdown (s : ProxyServer) (hheld : s.handle = .held) :
      ServerStep io s { s with signalled := true, handle := .joining }
  | shutDown (s : ProxyServer) (hjoining : s.handle = .joining) (hstopped : s.running = false) :
      ServerStep io s { s with handle := .returned }
  | drop (s : ProxyServer) (hheld : s.handle = .held) :
      ServerStep io s { s with signalled := true, handle := .dropped }

variable {io : Bool}

/-- What a client of the pool begins as. -/
def Accepted (c : Client) : Prop := ∃ peer, c = .start peer

theorem serverStep_allow {s s' : ProxyServer} (h : ServerStep io s s') : s'.allow = s.allow := by
  cases h <;> rfl

/-- The clients are a pool of tasks. -/
theorem serverStep_clients {s s' : ProxyServer} (h : ServerStep io s s') :
    s'.clients = s.clients ∨ PoolStep Accepted (ClientStep s.allow io) s.clients s'.clients := by
  cases h with
  | accept peer hrun => exact Or.inr (.spawn s.clients _ ⟨peer, rfl⟩)
  | acceptFails hio hrun => exact Or.inl rfl
  | stop hrun hsignal => exact Or.inl rfl
  | client i c c' hi hstep => exact Or.inr (.task s.clients i c c' hi hstep)
  | shutdown hheld => exact Or.inl rfl
  | shutDown hjoining hstopped => exact Or.inl rfl
  | drop hheld => exact Or.inl rfl

theorem serverRun_clients {s s' : ProxyServer} (h : ReflTransGen (ServerStep io) s s') :
    s'.allow = s.allow ∧
      ReflTransGen (PoolStep Accepted (ClientStep s.allow io)) s.clients s'.clients := by
  induction h with
  | refl => exact ⟨rfl, .refl⟩
  | tail _ hstep ih =>
    obtain ⟨hallow, hrun⟩ := ih
    refine ⟨(serverStep_allow hstep).trans hallow, ?_⟩
    rcases serverStep_clients hstep with hsame | hpool
    · rw [hsame]
      exact hrun
    · rw [hallow] at hpool
      exact hrun.tail hpool

/-- A client that runs while nothing else happens. -/
theorem serverRun_client {s : ProxyServer} {i : ℕ} {c c' : Client} (hi : s.clients[i]? = some c)
    (h : ReflTransGen (ClientStep s.allow io) c c') :
    ReflTransGen (ServerStep io) s { s with clients := s.clients.set i c' } := by
  have hlt : i < s.clients.length := (List.getElem?_eq_some_iff.mp hi).1
  induction h with
  | refl =>
    obtain ⟨hlt, rfl⟩ := List.getElem?_eq_some_iff.mp hi
    rw [List.set_getElem_self]
  | tail _ hstep ih =>
    have hlast := ih.tail (.client _ i _ _ (List.getElem?_set_self hlt) hstep)
    rwa [List.set_set] at hlast

/-- A client of a running proxy has taken steps of its own only. -/
theorem client_run {allow : List String} {s : ProxyServer}
    (h : ReflTransGen (ServerStep io) (startAllowlistProxy allow) s) {c : Client}
    (hc : c ∈ s.clients) : ReflTransGen (ClientStep (normalizeAllow allow) io) (.start c.peer) c := by
  obtain ⟨-, hpool⟩ := serverRun_clients h
  obtain ⟨_, ⟨peer, rfl⟩, hrun⟩ := run_of_mem hpool hc
  have hpeer : c.peer = peer := by
    clear hpool hc
    induction hrun with
    | refl => rfl
    | tail _ hstep ih => exact (clientStep_peer hstep).trans ih
  rw [hpeer]
  exact hrun

/-! ## What each client gets -/

/-- What is done for a client comes from the client's own request. -/
structure Served (endpoints : List (String × UInt16)) (c : Client) : Prop where
  /-- So far it has got the first part of what `handle_client` gives it alone; all of it if
      no i/o error has ended it. -/
  follows : ∃ events,
    (∀ fuel, c.peer.chunks.flatten.length < fuel →
      handleClient (normalizeAllow (allowFromEndpoints endpoints)) (fun _ => c.peer.connects)
        fuel c.peer.chunks = some events) ∧
    c.events <+: events ∧ (c.stage = .ended false → c.events = events)
  /-- Only listed endpoints are dialled, and only when they are asked for. -/
  dials : ∀ address, ProxyEvent.dial address ∈ c.events →
    AsksFor endpoints c.peer.chunks.flatten address
  /-- A tunnel follows a dial, and carries to the upstream what comes after the head. -/
  uploads : ∀ r, c.relay = some r → (∃ address, ProxyEvent.dial address ∈ c.events) ∧
    ∃ k, (headLines c.peer.chunks.flatten).flatten <+: (c.peer.chunks.take k).flatten ∧
      r.up.sink <+: (c.peer.chunks.drop k).flatten
  downloads : ∀ r, c.relay = some r → r.down.sink <+: c.peer.upstream

variable {endpoints : List (String × UInt16)}

theorem dial_mem_answer {allow : List String} {connect : String → Bool} {line address : String}
    {r : ChunkReader UInt8} (h : ProxyEvent.dial address ∈ answer allow connect line r) :
    address ∈ dials (answer allow connect line r) :=
  List.mem_filterMap.mpr ⟨_, h, rfl⟩

/-- The three kinds of answer. -/
theorem answer_cases (allow : List String) (connect : String → Bool) (line : String)
    (r : ChunkReader UInt8) :
    (∃ status, answer allow connect line r = [.status status]) ∨
    (∃ key, answer allow connect line r = [.dial key, .status badGateway]) ∨
    ∃ key, answer allow connect line r = [.dial key, .status established, .relay r.source] := by
  unfold answer
  rcases splitWhitespace line with _ | ⟨method, _ | ⟨target, rest⟩⟩
  · exact Or.inl ⟨_, rfl⟩
  · exact Or.inl ⟨_, rfl⟩
  · by_cases hmethod : eqIgnoreAsciiCase method "CONNECT" = true
    · by_cases hallow : allow.contains (targetKey target) = true
      · by_cases hconnect : connect (targetKey target) = true
        · simp only [if_pos hmethod, if_pos hallow, if_pos hconnect]
          exact Or.inr (Or.inr ⟨_, rfl⟩)
        · simp only [if_pos hmethod, if_pos hallow, if_neg hconnect]
          exact Or.inr (Or.inl ⟨_, rfl⟩)
      · simp only [if_pos hmethod, if_neg hallow]
        exact Or.inl ⟨_, rfl⟩
    · simp only [if_neg hmethod]
      exact Or.inl ⟨_, rfl⟩

/-- A relay is the last of three events. -/
theorem relay_mem_answer {allow : List String} {connect : String → Bool} {line : String}
    {r : ChunkReader UInt8} {source : List (List UInt8)}
    (h : ProxyEvent.relay source ∈ answer allow connect line r) :
    source = r.source ∧ ∃ key, answer allow connect line r =
      [.dial key, .status established, .relay r.source] := by
  rcases answer_cases allow connect line r with ⟨status, hone⟩ | ⟨key, htwo⟩ | ⟨key, hthree⟩
  · rw [hone] at h
    simp at h
  · rw [htwo] at h
    simp at h
  · rw [hthree] at h ⊢
    exact ⟨by simpa using h, key, rfl⟩

/-- What the events of the whole function say of the connection. -/
theorem handleClient_events (endpoints : List (String × UInt16)) (connect : String → Bool)
    (chunks : List (List UInt8)) :
    ∃ events,
      (∀ fuel, chunks.flatten.length < fuel →
        handleClient (normalizeAllow (allowFromEndpoints endpoints)) connect fuel chunks =
          some events) ∧
      (∀ address, ProxyEvent.dial address ∈ events → AsksFor endpoints chunks.flatten address) ∧
      ∀ source, ProxyEvent.relay source ∈ events →
        (∃ key, events = [.dial key, .status established, .relay source]) ∧
        ∃ k, source = chunks.drop k ∧
          (headLines chunks.flatten).flatten <+: (chunks.take k).flatten := by
  by_cases h : chunks.flatten = [] ∨ ¬ Decodes (headLines chunks.flatten)
  · exact ⟨[], fun fuel hfuel => handleClient_of_not_decodes _ connect h hfuel,
      fun _ hmem => absurd hmem List.not_mem_nil, fun _ hmem => absurd hmem List.not_mem_nil⟩
  · have hne : chunks.flatten ≠ [] := fun hnil => h (Or.inl hnil)
    have hdec : Decodes (headLines chunks.flatten) := by
      by_contra hnot
      exact h (Or.inr hnot)
    obtain ⟨line, r, hline, hpulled, hrun⟩ := handleClient_of_decodes
      (normalizeAllow (allowFromEndpoints endpoints)) connect hne hdec
    have hserves : ServesAllowlist endpoints connect chunks.flatten _ :=
      serves_answer connect hne hdec hline r
    refine ⟨_, hrun, fun address hmem => ?_, fun source hmem => ?_⟩
    · exact (hserves.dials_endpoint address (dial_mem_answer hmem)).1
    · obtain ⟨rfl, key, hevents⟩ := relay_mem_answer hmem
      obtain ⟨k, hsource, htake, -⟩ := hpulled
      exact ⟨⟨key, hevents⟩, k, hsource.symm, r.buffer, htake.symm⟩

/-- **Each client is served as if it were alone**, whatever the others do. -/
theorem served_of_run {c : Client}
    (h : ReflTransGen (ClientStep (normalizeAllow (allowFromEndpoints endpoints)) io)
      (.start c.peer) c) : Served endpoints c := by
  obtain ⟨rest, hwhole, hyields⟩ := follows_run h
  obtain ⟨events, hrun, hdials, hrelays⟩ :=
    handleClient_events endpoints (fun _ => c.peer.connects) c.peer.chunks
  have hevents : c.events ++ rest = events := by
    have hone := hwhole _ (Nat.lt_succ_self _)
    rw [hrun _ (Nat.lt_succ_self _)] at hone
    exact (Option.some.inj hone).symm
  have hsub : ∀ e ∈ c.events, e ∈ events := by
    intro e he
    rw [← hevents]
    exact List.mem_append_left _ he
  have htunnel := (tunnelled_run h).2
  refine ⟨⟨events, hrun, ⟨rest, hevents⟩, ?_⟩, fun address hmem => hdials address (hsub _ hmem), ?_, ?_⟩
  · intro hended
    have hnil := (hyields (by rw [hended]; exact nofun)).eq_nil hended
    rw [← hevents, hnil, List.append_nil]
  · intro r hr
    obtain ⟨source, hmem, hcarries⟩ := htunnel r hr
    obtain ⟨⟨key, hthree⟩, k, rfl, hhead⟩ := hrelays source (hsub _ hmem)
    refine ⟨⟨key, ?_⟩, k, hhead, hcarries.up ▸ sink_isPrefix r.up⟩
    -- the dial stands in front of the relay
    rw [hthree] at hevents
    rcases hc : c.events with _ | ⟨first, more⟩
    · rw [hc] at hmem
      exact absurd hmem List.not_mem_nil
    · rw [hc, List.cons_append] at hevents
      rw [(List.cons.inj hevents).1]
      exact List.mem_cons_self
  · intro r hr
    obtain ⟨source, hmem, hcarries⟩ := htunnel r hr
    exact hcarries.down ▸ sink_isPrefix r.down

/-- **The proxy serves its allowlist.**  In every state that a proxy for these endpoints can
    reach, whatever the order in which clients come, read, dial, copy and fail. -/
theorem running_proxy_serves (endpoints : List (String × UInt16)) (s : ProxyServer)
    (h : ReflTransGen (ServerStep true) (startAllowlistProxy (allowFromEndpoints endpoints)) s)
    (c : Client) (hc : c ∈ s.clients) : Served endpoints c :=
  served_of_run (client_run h hc)

/-- A client whose request comes in one chunk and its payload in the next. -/
def readyPeer : Peer where
  chunks := [shortHead.bytes, [7]]
  connects := true
  upstream := [3]

/-- The client once its upstream has sent its byte through the tunnel. -/
def relayingClient : Client where
  peer := readyPeer
  reader := ⟨[], [[7]]⟩
  stage := .relaying
  events := [.dial "a:1", .status established, .relay [[7]]]
  relay := some { up := { source := [7] }, down := { source := [], sink := [3] } }

/-- A line that ends in these events and this stage. -/
theorem clientStep_line {allow : List String} {c : Client} {request : Option String}
    {line : List UInt8} (events : List ProxyEvent) (stage : ClientStage)
    (hstage : c.stage = .reading request line) (hready : c.reader.buffer.any isNewline = true)
    (hnext : afterLine allow request (line ++ through isNewline c.reader.buffer) =
      (events, stage)) :
    ClientStep allow io c { c with
      reader := ⟨after isNewline c.reader.buffer, c.reader.source⟩
      stage := stage, events := c.events ++ events } := by
  have hstep : ClientStep allow io c _ := .line c request line hstage (Or.inl hready)
  rwa [hnext] at hstep

theorem reach_relayingClient :
    ReflTransGen (ClientStep (normalizeAllow (allowFromEndpoints [("a", 1)])) true)
      (.start readyPeer) relayingClient := by
  have hpull : ClientStep (normalizeAllow (allowFromEndpoints [("a", 1)])) true
      (.start readyPeer) _ := .pull _ none [] shortHead.bytes [[7]] rfl rfl rfl
  have hrequest := (ReflTransGen.single hpull).tail (clientStep_line []
    (.reading (some "CONNECT a:1\r\n") []) rfl (by decide) (by decide))
  have hblank := hrequest.tail (clientStep_line [.dial "a:1"] (.dialing "a:1") rfl
    (by decide) (by decide))
  have hopened := (hblank.tail (.dialed _ "a:1" rfl)).tail (.opened _ established rfl)
  have hread := hopened.tail (.relay _ _ _ rfl rfl
    (.down _ _ (.copy (.read _ 1 (by decide) (by decide) (by decide) rfl rfl) nofun)))
  exact hread.tail (.relay _ _ _ rfl rfl
    (.down _ _ (.copy (.write _ 1 (by decide) (by decide) rfl) nofun)))

/-- The policy that lists the upstream of these clients. -/
def relayPolicy : NetworkPolicy := { mode := .allowlist, endpoints := [⟨"a", 1⟩] }

/-- Two clients, of which the second has come to its tunnel. -/
theorem running_proxy_serves_two : Served (endpointPairs relayPolicy) relayingClient := by
  have hfirst : ServerStep true (startAllowlistProxy (allowFromEndpoints [("a", 1)])) _ :=
    .accept _ readyPeer rfl
  have hsecond := (ReflTransGen.single hfirst).tail (.accept _ readyPeer rfl)
  have hrun := hsecond.trans (serverRun_client (i := 1) rfl reach_relayingClient)
  exact running_proxy_serves (endpointPairs relayPolicy) _ hrun _
    (List.mem_cons_of_mem _ List.mem_cons_self)

/-! ## Shutdown -/

/-- What the loop and the handle know of each other. -/
structure HandleInv (s : ProxyServer) : Prop where
  returned : s.handle = .returned → s.running = false
  signalled : s.handle ≠ .held → s.signalled = true

theorem handleInv_step {s s' : ProxyServer} (hinv : HandleInv s) (h : ServerStep io s s') :
    HandleInv s' := by
  cases h with
  | accept peer hrun => exact ⟨hinv.returned, hinv.signalled⟩
  | acceptFails hio hrun => exact ⟨fun _ => rfl, hinv.signalled⟩
  | stop hrun hsignal => exact ⟨fun _ => rfl, hinv.signalled⟩
  | client i c c' hi hstep => exact ⟨hinv.returned, hinv.signalled⟩
  | shutdown hheld => exact ⟨nofun, fun _ => rfl⟩
  | shutDown hjoining hstopped =>
    exact ⟨fun _ => hstopped, fun _ => hinv.signalled (by rw [hjoining]; exact nofun)⟩
  | drop hheld => exact ⟨nofun, fun _ => rfl⟩

theorem handleInv_run {allow : List String} {s : ProxyServer}
    (h : ReflTransGen (ServerStep io) (startAllowlistProxy allow) s) : HandleInv s := by
  induction h with
  | refl => exact ⟨nofun, fun hne => absurd rfl hne⟩
  | tail _ hstep ih => exact handleInv_step ih hstep

/-- A loop that has stopped stays stopped, and no client comes in. -/
theorem stopped_step {s s' : ProxyServer} (h : ServerStep io s s') (hstopped : s.running = false) :
    s'.running = false ∧ s'.clients.length = s.clients.length := by
  cases h with
  | accept peer hrun =>
    rw [hstopped] at hrun
    exact absurd hrun Bool.false_ne_true
  | acceptFails hio hrun => exact ⟨rfl, rfl⟩
  | stop hrun hsignal => exact ⟨rfl, rfl⟩
  | client i c c' hi hstep => exact ⟨hstopped, List.length_set⟩
  | shutdown hheld => exact ⟨hstopped, rfl⟩
  | shutDown hjoining hstopped => exact ⟨hstopped, rfl⟩
  | drop hheld => exact ⟨hstopped, rfl⟩

theorem stopped_run {s s' : ProxyServer} (h : ReflTransGen (ServerStep io) s s')
    (hstopped : s.running = false) :
    s'.running = false ∧ s'.clients.length = s.clients.length := by
  induction h with
  | refl => exact ⟨hstopped, rfl⟩
  | tail _ hstep ih =>
    obtain ⟨hrunning, hlength⟩ := ih
    obtain ⟨hrunning', hlength'⟩ := stopped_step hstep hrunning
    exact ⟨hrunning', hlength'.trans hlength⟩

/-! ## Every client comes to its end -/

/-- The steps a handle can still take. -/
def HandleState.work : HandleState → ℕ
  | .held => 2
  | .joining => 1
  | .returned | .dropped => 0

/-- The steps a server can still take once its loop has stopped. -/
def ProxyServer.work (s : ProxyServer) : ℕ := TaskPool.work Client.work s.clients + s.handle.work

theorem server_work_step {s s' : ProxyServer} (h : ServerStep io s s')
    (hstopped : s.running = false) : s'.work < s.work := by
  cases h with
  | accept peer hrun =>
    rw [hstopped] at hrun
    exact absurd hrun Bool.false_ne_true
  | acceptFails hio hrun =>
    rw [hstopped] at hrun
    exact absurd hrun Bool.false_ne_true
  | stop hrun hsignal =>
    rw [hstopped] at hrun
    exact absurd hrun Bool.false_ne_true
  | client i c c' hi hstep =>
    exact Nat.add_lt_add_right (work_set_lt hi (work_step hstep)) _
  | shutdown hheld =>
    simp only [ProxyServer.work, hheld, HandleState.work]
    omega
  | shutDown hjoining hstopped =>
    simp only [ProxyServer.work, hjoining, HandleState.work]
    omega
  | drop hheld =>
    simp only [ProxyServer.work, hheld, HandleState.work]
    omega

/-- Every client has returned or waits for a silent peer, and the handle is done with. -/
def ProxyServer.Settled (s : ProxyServer) : Prop :=
  (∀ c ∈ s.clients, (∃ broken, c.stage = .ended broken) ∨ c.Waits) ∧
  (s.handle = .returned ∨ s.handle = .dropped)

/-- A stopped server that is not settled can go on without a failure. -/
theorem exists_serverStep {allow : List String} {s : ProxyServer}
    (h : ReflTransGen (ServerStep io) (startAllowlistProxy allow) s) (hstopped : s.running = false)
    (hnot : ¬ s.Settled) : ∃ s', ServerStep false s s' := by
  by_cases hclients : ∀ c ∈ s.clients, (∃ broken, c.stage = .ended broken) ∨ c.Waits
  · cases hhandle : s.handle with
    | held => exact ⟨_, .drop s hhandle⟩
    | joining => exact ⟨_, .shutDown s hhandle hstopped⟩
    | returned => exact absurd ⟨hclients, Or.inl hhandle⟩ hnot
    | dropped => exact absurd ⟨hclients, Or.inr hhandle⟩ hnot
  · push Not at hclients
    obtain ⟨c, hc, hopen, hgoes⟩ := hclients
    obtain ⟨i, hi⟩ := List.mem_iff_getElem?.mp hc
    obtain ⟨c', hstep⟩ : ∃ c', ClientStep s.allow false c c' :=
      exists_clientStep (tunnelled_run (client_run h hc)) hopen hgoes
    exact ⟨_, .client s i c c' hi hstep⟩

/-- A settled server goes on by a failure only. -/
theorem not_serverStep_of_settled {s s' : ProxyServer} (hstopped : s.running = false)
    (h : s.Settled) : ¬ ServerStep false s s' := by
  obtain ⟨hclients, hhandle⟩ := h
  intro hstep
  cases hstep with
  | accept peer hrun => rw [hstopped] at hrun; cases hrun
  | acceptFails hio hrun => cases hio
  | stop hrun hsignal => rw [hstopped] at hrun; cases hrun
  | client i c c' hi hstep =>
    rcases hclients c (List.mem_of_getElem? hi) with ⟨broken, hended⟩ | hwaits
    · exact not_clientStep_of_ended hended hstep
    · exact not_clientStep_of_waits hwaits hstep
  | shutdown hheld => rw [hheld] at hhandle; rcases hhandle with h | h <;> cases h
  | shutDown hjoining hrun => rw [hjoining] at hhandle; rcases hhandle with h | h <;> cases h
  | drop hheld => rw [hheld] at hhandle; rcases hhandle with h | h <;> cases h

/-- What becomes of a server whose loop has stopped. -/
structure WindsDown (s : ProxyServer) : Prop where
  /-- No client comes in. -/
  closed : ∀ s', ReflTransGen (ServerStep true) s s' →
    s'.running = false ∧ s'.clients.length = s.clients.length
  /-- Those that are there go on by themselves. -/
  kept : ∀ (s' : ProxyServer) (i : ℕ) (c : Client), ReflTransGen (ServerStep true) s s' →
    s.clients[i]? = some c →
      ∃ c', s'.clients[i]? = some c' ∧ ReflTransGen (ClientStep s.allow true) c c'
  /-- It cannot go on for ever, and is at rest, failures apart, exactly when all have returned
      or wait for a peer that is connected and silent. -/
  finite : ¬ ∃ run : ℕ → ProxyServer, run 0 = s ∧ ∀ n, ServerStep true (run n) (run (n + 1))
  settled : ∀ s', ReflTransGen (ServerStep true) s s' →
    ((∀ s'', ¬ ServerStep false s' s'') ↔ s'.Settled)

/-- **A proxy that has been shut down winds down.** -/
theorem stopped_proxy_winds_down (allow : List String) (s : ProxyServer)
    (h : ReflTransGen (ServerStep true) (startAllowlistProxy allow) s)
    (hstopped : s.running = false ∨ s.handle = .returned) : WindsDown s := by
  have hoff : s.running = false := hstopped.elim id (handleInv_run h).returned
  refine ⟨fun s' hrun => stopped_run hrun hoff, ?_, ?_, ?_⟩
  · intro s' i c hrun hi
    exact run_at_place (serverRun_clients hrun).2 hi
  · rintro ⟨run, rfl, hsteps⟩
    -- the work left bounds the number of steps
    have hbound : ∀ n, (run n).running = false ∧ (run n).work + n ≤ (run 0).work := by
      intro n
      induction n with
      | zero => exact ⟨hoff, Nat.le_refl _⟩
      | succ n ih =>
        have hlt := server_work_step (hsteps n) ih.1
        exact ⟨(stopped_step (hsteps n) ih.1).1, by omega⟩
    have hlast := (hbound ((run 0).work + 1)).2
    omega
  · intro s' hrun
    have hoff' := (stopped_run hrun hoff).1
    refine ⟨fun hrest => ?_, fun hsettled s'' => not_serverStep_of_settled hoff' hsettled⟩
    by_contra hnot
    obtain ⟨s'', hstep⟩ := exists_serverStep (h.trans hrun) hoff' hnot
    exact hrest s'' hstep

/-- A client that sends nothing, and does not go. -/
def silentPeer : Peer where
  chunks := []
  closes := false
  connects := true
  upstream := []

/-- A proxy with a silent client and one that has yet to read, shut down. -/
theorem shutdown_proxy_winds_down :
    WindsDown {
      allow := normalizeAllow [], signalled := true, running := false, handle := .returned
      clients := [.start silentPeer, .start readyPeer] } := by
  refine stopped_proxy_winds_down [] _ ?_ (Or.inr rfl)
  have haccept : ServerStep true (startAllowlistProxy []) _ := .accept _ silentPeer rfl
  have hboth := (ReflTransGen.single haccept).tail (.accept _ readyPeer rfl)
  exact ((hboth.tail (.shutdown _ rfl)).tail (.stop _ rfl rfl)).tail (.shutDown _ rfl rfl)

end SimpleSandbox
