import SimpleSandbox.Registry
import SimpleSandbox.Instances
import SimpleSandbox.PolicyHash

/-!
# The command line as a registry

To its users `ssbx` is a registry of sandboxes, each with an id, a mechanism, a working directory
and a policy.  In the files the registry is spread out: an index of records without policies, and
one file for each policy.  Any file operation may fail, in the middle of a command too.  Where
sandboxes are created apart and under free names, every run is a run of the registry all the same:
a process performs the first part of what it was asked for, all of it if it ends well, and what
the commands tell of the sandboxes is what the registry holds.
-/

namespace SimpleSandbox

open RustText OsPath FileSystem Effect World

/-- A sandbox as its users know it, beside its name. -/
structure Sandbox where
  id : String
  mechanism : MechanismKind
  workdir : PathBuf
  policy : SandboxPolicy

def Sandbox.withPolicy (p : SandboxPolicy) (b : Sandbox) : Sandbox := { b with policy := p }

/-- What the index tells of a sandbox. -/
structure Card where
  name : String
  id : String
  mechanism : MechanismKind
  workdir : PathBuf

def SandboxRecord.card (r : SandboxRecord) : Card := ⟨r.name, r.id, r.mechanism, r.workdir⟩

def cardOf (e : String × Sandbox) : Card := ⟨e.1, e.2.id, e.2.mechanism, e.2.workdir⟩

def Card.answersTo (c : Card) (key : String) : Bool := c.name == key || c.id == key

namespace Registry

/-- The sandbox of a name or an id, or else the one that was used last. -/
def find (R : Registry String Sandbox) : Option String → Option (String × Sandbox)
  | some key => R.entries.find? fun e => (cardOf e).answersTo key
  | none => R.last.bind fun n => R.entries.find? fun e => (cardOf e).answersTo n

theorem mem_of_find {R : Registry String Sandbox} {key : Option String} {e : String × Sandbox}
    (h : R.find key = some e) : e ∈ R.entries := by
  cases key with
  | some key => exact List.mem_of_find?_eq_some h
  | none =>
    obtain ⟨n, -, hfind⟩ := Option.bind_eq_some_iff.mp h
    exact List.mem_of_find?_eq_some hfind

end Registry

/-! ## The index -/

/-- The index tells what the registry holds, the policies apart. -/
structure SandboxState.ShownBy (s : SandboxState) (R : Registry String Sandbox) : Prop where
  last : s.lastUsed = R.last
  cards : s.sandboxes.map SandboxRecord.card = R.entries.map cardOf

namespace SandboxState.ShownBy

variable {s s' : SandboxState} {R : Registry String Sandbox}

theorem empty : ShownBy {} Registry.empty := ⟨rfl, rfl⟩

theorem names_eq (h : s.ShownBy R) : s.names = R.names := by
  have hnames := congrArg (List.map Card.name) h.cards
  rw [List.map_map, List.map_map] at hnames
  exact hnames

theorem mem_names (h : s.ShownBy R) {r : SandboxRecord} (hr : r ∈ s.sandboxes) :
    r.name ∈ R.names := by
  rw [← h.names_eq]
  exact List.mem_map_of_mem hr

/-- Every entry has its record. -/
theorem exists_record (h : s.ShownBy R) {e : String × Sandbox} (he : e ∈ R.entries) :
    ∃ r ∈ s.sandboxes, r.card = cardOf e := by
  have hcard : cardOf e ∈ s.sandboxes.map SandboxRecord.card := by
    rw [h.cards]
    exact List.mem_map_of_mem he
  exact List.mem_map.mp hcard

/-- A search among the records is one among the entries. -/
theorem find?_card (h : s.ShownBy R) (key : String) :
    (s.sandboxes.find? (·.answersTo key)).map SandboxRecord.card =
      (R.entries.find? fun e => (cardOf e).answersTo key).map cardOf := by
  have hfind := congrArg (List.find? (Card.answersTo · key)) h.cards
  rw [List.find?_map, List.find?_map] at hfind
  exact hfind

/-- **Lookups agree.**  The last used name always answers, so that a lookup without a key never
    has to take the last record instead. -/
theorem getOrLast_card (h : s.ShownBy R) (key : Option String) :
    (s.getOrLast key).toOption.map SandboxRecord.card = (R.find key).map cardOf := by
  cases key with
  | some key =>
    rw [SandboxState.getOrLast, SandboxState.get, Registry.find, ← h.find?_card key]
    cases s.sandboxes.find? (·.answersTo key) <;> rfl
  | none =>
    rw [SandboxState.getOrLast, Registry.find]
    cases hlast : R.last with
    | none =>
      have hnil : s.sandboxes = [] := by
        have hcards := h.cards
        rw [R.last_none hlast, List.map_nil] at hcards
        exact List.map_eq_nil_iff.mp hcards
      rw [h.last, hlast, hnil]
      rfl
    | some n =>
      have hn : n ∈ s.names := by
        rw [h.names_eq]
        exact R.last_live n hlast
      obtain ⟨r, hr, hname⟩ := List.mem_map.mp hn
      have hsome : (s.sandboxes.find? (·.answersTo n)).isSome = true := by
        rw [List.find?_isSome]
        refine ⟨r, hr, ?_⟩
        simp [SandboxRecord.answersTo, hname]
      obtain ⟨r', hfind⟩ := Option.isSome_iff_exists.mp hsome
      rw [h.last, hlast, Option.bind_some, Option.bind_some, ← h.find?_card n, hfind]
      rfl

theorem find_of_getOrLast (h : s.ShownBy R) {key : Option String} {r : SandboxRecord}
    (hget : s.getOrLast key = .ok r) : ∃ e, R.find key = some e ∧ cardOf e = r.card := by
  have hcard := h.getOrLast_card key
  rw [hget] at hcard
  obtain ⟨e, he, heq⟩ := Option.map_eq_some_iff.mp hcard.symm
  exact ⟨e, he, heq⟩

/-! ### The operations -/

theorem insert (h : s.ShownBy R) {r r' : SandboxRecord} {uuid : String}
    (hop : s.insert r uuid = .ok (r', s')) (p : SandboxPolicy) :
    s'.ShownBy (R.add r'.name ⟨r'.id, r'.mechanism, r'.workdir, p⟩) := by
  have hfree : r'.name ∉ R.names := by
    rw [← h.names_eq]
    exact SandboxState.not_mem_of_insert hop
  obtain ⟨-, -, rfl⟩ := SandboxState.insert_eq_ok_iff.mp hop
  constructor
  · rw [Registry.last_add hfree]
  · rw [Registry.entries_add hfree, List.map_append, List.map_append, h.cards]
    rfl

theorem touch (h : s.ShownBy R) {r : SandboxRecord} (hr : r ∈ s.sandboxes) :
    (s.touch r.name).ShownBy (R.use r.name) := by
  constructor
  · rw [Registry.last_use (h.mem_names hr)]
    rfl
  · rw [Registry.entries_use]
    exact h.cards

/-- A change of the policy cannot be seen in the index. -/
theorem update (h : s.ShownBy R) (n : String) (p : SandboxPolicy) :
    s.ShownBy (R.update n (Sandbox.withPolicy p)) := by
  refine ⟨h.last, ?_⟩
  rw [Registry.entries_update, Registry.updateEntries, List.map_map, h.cards]
  refine List.map_congr_left fun e _ => ?_
  by_cases he : e.1 = n
  · simp [he, cardOf, Sandbox.withPolicy]
  · simp [he]

theorem map_card_modifyNamed (name hash : String) (l : List SandboxRecord) :
    (SandboxState.modifyNamed name (·.withHash hash) l).map SandboxRecord.card =
      l.map SandboxRecord.card := by
  induction l with
  | nil => rfl
  | cons r rest ih =>
    rw [SandboxState.modifyNamed]
    split
    · rfl
    · rw [List.map_cons, List.map_cons, ih]

theorem updatePolicy (h : s.ShownBy R) {name hash : String}
    (hop : s.updatePolicy name hash = .ok s') : s'.ShownBy (R.use name) := by
  obtain ⟨hlive, rfl⟩ := SandboxState.updatePolicy_eq_ok_iff.mp hop
  rw [h.names_eq] at hlive
  constructor
  · rw [Registry.last_use hlive]
  · rw [Registry.entries_use, map_card_modifyNamed]
    exact h.cards

theorem remove (h : s.ShownBy R) {key : String} {r : SandboxRecord}
    (hop : s.remove key = .ok (r, s')) : s'.ShownBy (R.drop r.name) := by
  obtain ⟨before, rest, hsplit, -, -, rfl⟩ := SandboxState.remove_eq_ok_iff.mp hop
  have hcards := h.cards
  rw [hsplit, List.map_append, List.map_cons] at hcards
  obtain ⟨before', tail, hentries, hbefore, htail⟩ := List.map_eq_append_iff.mp hcards.symm
  obtain ⟨e, rest', rfl, hcard, hrest⟩ := List.map_eq_cons_iff.mp htail
  have hname : e.1 = r.name := congrArg Card.name hcard
  have hdropped : Registry.dropEntries r.name R.entries = before' ++ rest' := by
    have hdistinct := R.distinct
    rw [hentries] at hdistinct ⊢
    rw [← hname]
    exact Registry.dropEntries_append_cons hdistinct
  have hleft : (before ++ rest).map SandboxRecord.card = (before' ++ rest').map cardOf := by
    rw [List.map_append, List.map_append, hbefore, hrest]
  constructor
  · rw [Registry.last_drop, hdropped, ← h.last]
    have hlast := congrArg (fun l => (List.getLast? l).map Card.name) hleft
    simp only [List.getLast?_map, Option.map_map] at hlast
    exact congrArg (fun o => if s.lastUsed = some r.name then o else s.lastUsed) hlast
  · rw [Registry.entries_drop, hdropped]
    exact hleft

theorem find_of_remove (h : s.ShownBy R) {key : String} {r : SandboxRecord}
    (hop : s.remove key = .ok (r, s')) : ∃ e, R.find (some key) = some e ∧ cardOf e = r.card := by
  apply h.find_of_getOrLast
  rw [SandboxState.getOrLast, SandboxState.get]
  unfold SandboxState.remove at hop
  split at hop
  · cases hop
  · rename_i r₀ hfind
    rw [hfind, (Prod.mk.inj (Except.ok.inj hop)).1]

end SandboxState.ShownBy

/-! ## What a process is asked for -/

/-- The id of a new record: a drawn one, or a second one if that is empty. -/
def freshId (env : ProcessEnv) : String := if env.uuid = "" then env.insertUuid else env.uuid

/-- The sandbox of a prepared creation. -/
def Prepared.sandbox (p : Prepared) (env : ProcessEnv) : Sandbox where
  id := freshId env
  mechanism := p.kind
  workdir := p.request.workdir
  policy := p.request.policy

/-- The events of a command, on the sandboxes it finds. -/
def Invocation.events (M : Machine) (a : Invocation) (R : Registry String Sandbox) :
    List (Registry.Event String Sandbox) :=
  match a.command with
  | .create name args =>
    (prepare M a.env (createName name) args id false []).toOption.toList.map fun p =>
      .add (createName name) (p.sandbox a.env)
  | .exec name _ | .shell name => (R.find name).toList.map fun e => .use e.1
  | .policySet name file =>
    (R.find name).toList.flatMap fun e => (loadFile file).toOption.toList.flatMap fun p =>
      [.update e.1 (Sandbox.withPolicy p), .use e.1]
  | .rm key => (R.find (some key)).toList.map fun e => .drop e.1
  | .run _ _ _ | .policyGet _ | .ls | .logs _ | .doctor => []

/-- The command changes no sandbox. -/
def Command.Quiet : Command → Prop
  | .run _ _ _ | .policyGet _ | .ls | .logs _ | .doctor => True
  | .create _ _ | .exec _ _ | .shell _ | .policySet _ _ | .rm _ => False

theorem Command.Quiet.not_means {cmd : Command} (h : cmd.Quiet) (s : SandboxState)
    (r : SandboxRecord) : ¬ cmd.Means s r := by
  cases cmd <;> first | exact h.elim | exact id

theorem Command.Quiet.not_commandEvents {cmd : Command} (h : cmd.Quiet) {M : Machine}
    {env : ProcessEnv} {dir : Location} {c : Option SandboxState} {ev : FsEvent} :
    ¬ M.commandEvents env dir c cmd ev := by
  cases cmd <;> first | exact h.elim | exact id

theorem events_of_quiet {M : Machine} {a : Invocation} {R : Registry String Sandbox}
    (h : a.command.Quiet) : a.events M R = [] := by
  unfold Invocation.events
  revert h
  cases a.command <;> intro h <;> first | rfl | exact h.elim

namespace Machine

variable (M : Machine) (dir : Location)

/-- A process of the registry, with its outcome: a first part of its events happens, and all of
    them if it ends well. -/
def Serves (R : Registry String Sandbox) (x : Invocation × Except CliError ℕ)
    (R' : Registry String Sandbox) : Prop :=
  Registry.Performs (x.1.events M R) (x.2.isOk = true) R R'

/-- A careful process, with its outcome. -/
def Finishes (w : World) (x : Invocation × Except CliError ℕ) (w' : World) : Prop :=
  M.CarefulRuns dir w x.1 w' ∧ x.2 = (ssbx M x.1.env x.1.command (w.enter x.1.cwd)).1

/-- The policy of the entry is in its file, and it is valid. -/
structure Written (w : World) (e : String × Sandbox) : Prop where
  file : w.fileAt (M.store.policyAt dir e.1) = some (.policy e.2.policy)
  valid : e.2.policy.validate = .ok ()

/-- The files hold the registry. -/
structure Shows (w : World) (R : Registry String Sandbox) : Prop where
  index : ((M.records dir w).getD {}).ShownBy R
  policies : ∀ e ∈ R.entries, M.Written dir w e

/-! ## The commands -/

/-- A policy of the new registry is in its file, or belongs to a sandbox that the command does not
    mean. -/
def Accounts (a : Invocation) (R : Registry String Sandbox) (w w' : World)
    (R' : Registry String Sandbox) : Prop :=
  ∀ e ∈ R'.entries, M.Written w.fs.cwd w' e ∨ (e ∈ R.entries ∧
    ∀ s, M.store.index w = some s → ∀ r ∈ s.sandboxes, r.name = e.1 → ¬ a.command.Means s r)

/-- What a command that finds the index of a registry has done to it. -/
structure Serving (a : Invocation) (R : Registry String Sandbox) (w : World)
    (x : Except CliError ℕ × World) (R' : Registry String Sandbox) : Prop where
  performs : Registry.Performs (a.events M R) (x.1.isOk = true) R R'
  index : ((M.store.index x.2).getD {}).ShownBy R'
  policies : (R' = R ∧ x.2 = w) ∨ M.Accounts a R w x.2 R'

variable {M} {a : Invocation} {R : Registry String Sandbox} {w : World}

/-- A command that fails before it has changed anything. -/
theorem serving_error (h : ((M.store.index w).getD {}).ShownBy R) (e : CliError) :
    M.Serving a R w (.error e, w) R :=
  ⟨Registry.Performs.none R Bool.false_ne_true, h, Or.inl ⟨rfl, rfl⟩⟩

/-- A command that is asked for nothing. -/
theorem serving_quiet (h : ((M.store.index w).getD {}).ShownBy R) (hquiet : a.command.Quiet) :
    M.Serving a R w (execute M a.env a.command w) R := by
  refine ⟨?_, ?_, Or.inr fun e he => Or.inr ⟨he, fun s _ r _ _ => hquiet.not_means s r⟩⟩
  · rw [events_of_quiet hquiet]
    exact Registry.Performs.all [] _ R
  · rw [Store.index_of_extends (extends_execute M a.env a.command w w.fs.cwd)
      fun ev hev => absurd hev hquiet.not_commandEvents]
    exact h

/-- A lookup and then a command on the record it finds. -/
theorem serving_lookup {name : Option String} {g : SandboxRecord → Effect World CliError ℕ}
    (h : ((M.store.index w).getD {}).ShownBy R)
    (hfound : ∀ s r e, M.store.index w = some s → s.ShownBy R → s.getOrLast name = .ok r →
      R.find name = some e → e.1 = r.name → ∃ R', M.Serving a R w (g r w) R') :
    ∃ R', M.Serving a R w
      (((M.store.getOrLast a.env.lookupFaults name).mapError CliError.state >>= g) w) R' := by
  rcases lookup_cases M.store a.env.lookupFaults name g w with ⟨s, r, hs, hget, hrun⟩ | ⟨e, hrun⟩
  · rw [hrun]
    have hshown := h
    rw [hs] at hshown
    obtain ⟨e, he, hcard⟩ := hshown.find_of_getOrLast hget
    exact hfound s r e hs hshown hget he (congrArg Card.name hcard)
  · rw [hrun]
    exact ⟨R, serving_error h e⟩

/-- Entering a sandbox uses it, whatever comes of the entry. -/
theorem serving_exec {name : Option String} {command : List String}
    (h : ((M.store.index w).getD {}).ShownBy R)
    (hevents : a.events M R = (R.find name).toList.map fun e => .use e.1)
    (hmeans : ∀ s r, ¬ a.command.Means s r) :
    ∃ R', M.Serving a R w (cmdExec M a.env name command w) R' := by
  rw [cmdExec_eq]
  refine serving_lookup h fun s r e hs hshown hget he hname => ?_
  unfold execRecord
  rw [Store.touchLastUsed_eq_modify]
  rcases Store.modify_cases M.store a.env.faults (fun s => .ok ((), s.touch r.name)) w with
    ⟨s₁, u, s', -, hs₁, hop, -, htouch⟩ | ⟨e, htouch⟩
  · obtain rfl := Option.some.inj (hs.symm.trans hs₁)
    obtain rfl := (Prod.mk.inj (Except.ok.inj hop)).2
    refine ⟨R.use r.name, ?_, ?_, Or.inr fun e he => Or.inr ⟨?_, fun s _ r _ _ => hmeans s r⟩⟩
    · rw [hevents, he, ← hname]
      exact Registry.Performs.all [.use e.1] _ R
    · rw [bind_of_ok (mapError_eq_ok_iff.mpr htouch), bind_pure_snd, mapError_snd,
        index_mechExec, Store.index_withIndex]
      exact hshown.touch (SandboxState.mem_of_getOrLast hget)
    · rw [Registry.entries_use] at he
      exact he
  · rw [bind_of_error (mapError_eq_error_iff.mpr ⟨e, rfl, htouch⟩)]
    exact ⟨R, serving_error h _⟩

/-- `policy set` refuses the file, or is the operation of the store. -/
theorem setPolicy_eq (env : ProcessEnv) (file : Except PolicyError SandboxPolicy) (r : SandboxRecord) :
    (∃ e, setPolicy M env file r = fail e) ∨
    ∃ p, loadFile file = .ok p ∧ setPolicy M env file r =
      (M.store.updatePolicy M.ext env.faults r.name p).mapError .state := by
  cases hload : loadFile file with
  | error e =>
    refine Or.inl ⟨.policy e, ?_⟩
    rw [setPolicy, hload]
    rfl
  | ok p =>
    have hset : setPolicy M env file r = lift ((preflight M.ext p {}).mapError CliError.policy) >>=
        fun _ => (M.store.updatePolicy M.ext env.faults r.name p).mapError CliError.state := by
      rw [setPolicy, hload]
      rfl
    rw [hset]
    cases preflight M.ext p {} with
    | error e => exact Or.inl ⟨.policy e, rfl⟩
    | ok u => exact Or.inr ⟨p, rfl, rfl⟩

/-- The policies behind a change of one: the new one is in its file. -/
theorem policies_update {w' : World} {name : Option String} {file : Except PolicyError SandboxPolicy}
    (hcmd : a.command = .policySet name file) {s : SandboxState} {r : SandboxRecord}
    (hs : M.store.index w = some s) (hget : s.getOrLast name = .ok r) {p : SandboxPolicy}
    (hvalid : p.validate = .ok ())
    (hfile : w'.fileAt (M.store.policyAt w.fs.cwd r.name) = some (.policy p)) :
    M.Accounts a R w w' (R.update r.name (Sandbox.withPolicy p)) := by
  intro e he
  rcases Registry.mem_update he with ⟨hne, hold⟩ | ⟨b, -, rfl⟩
  · refine Or.inr ⟨hold, fun s₁ hs₁ r₁ _ hname hmeans => ?_⟩
    rw [hcmd] at hmeans
    obtain ⟨r₀, hget₀, hname₀⟩ := hmeans
    obtain rfl := Option.some.inj (hs.symm.trans hs₁)
    obtain rfl := Except.ok.inj (hget.symm.trans hget₀)
    exact hne (hname.symm.trans hname₀)
  · exact Or.inl ⟨hfile, hvalid⟩

/-- **Setting a policy** may stop between its two events. -/
theorem serving_policySet {name : Option String} {file : Except PolicyError SandboxPolicy}
    (h : ((M.store.index w).getD {}).ShownBy R) (hcmd : a.command = .policySet name file) :
    ∃ R', M.Serving a R w (execute M a.env (.policySet name file) w) R' := by
  rw [execute, cmdPolicySet_eq, bind_assoc]
  refine serving_lookup h fun s r e hs hshown hget he hname => ?_
  rcases setPolicy_eq (M := M) a.env file r with ⟨err, hset⟩ | ⟨p, hload, hset⟩
  · rw [hset]
    exact ⟨R, serving_error h err⟩
  rw [hset]
  have hevents : a.events M R = [.update r.name (Sandbox.withPolicy p), .use r.name] := by
    rw [Invocation.events, hcmd]
    simp only [he, hload, ← hname]
    rfl
  have hvalid := validate_of_loadFile hload
  rcases Store.updatePolicy_cases M.store M.ext a.env.faults r.name p w with
    ⟨-, err, hrun⟩ | ⟨-, hok⟩ | ⟨-, -, err, hrun⟩
  · rw [bind_of_error (mapError_eq_error_iff.mpr ⟨err, rfl, hrun⟩)]
    exact ⟨R, serving_error h _⟩
  · rcases hrun : M.store.updatePolicy M.ext a.env.faults r.name p w with ⟨res, w'⟩
    rw [hrun] at hok
    obtain rfl : res = .ok () := hok
    obtain ⟨hash, s₁, s', -, hs₁, hupdate, rfl⟩ := updatePolicy_ok hrun
    obtain rfl := Option.some.inj (hs.symm.trans hs₁)
    rw [bind_of_ok (mapError_eq_ok_iff.mpr hrun)]
    refine ⟨(R.update r.name (Sandbox.withPolicy p)).use r.name, ?_, ?_, Or.inr ?_⟩
    · rw [hevents]
      exact Registry.Performs.all _ _ R
    · change ((M.store.index (M.store.withIndex s' (M.store.withPolicy r.name p w))).getD
        {}).ShownBy _
      rw [Store.index_withIndex]
      exact (hshown.update r.name p).updatePolicy hupdate
    · unfold Accounts
      rw [Registry.entries_use]
      refine policies_update hcmd hs hget hvalid ?_
      change (M.store.withIndex s' (M.store.withPolicy r.name p w)).fileAt _ = _
      rw [Store.withIndex, Store.put_fileAt, Store.withPolicy_cwd,
        if_neg (M.store.policyAt_ne_indexAt _ _), Store.fileAt_withPolicy, if_pos rfl]
  · rw [bind_of_error (mapError_eq_error_iff.mpr ⟨err, rfl, hrun⟩)]
    refine ⟨R.update r.name (Sandbox.withPolicy p), ?_, ?_, Or.inr ?_⟩
    · rw [hevents]
      exact ⟨[.update r.name (Sandbox.withPolicy p)], [.use r.name], rfl, rfl,
        fun hended => absurd hended Bool.false_ne_true⟩
    · change ((M.store.index (M.store.withPolicy r.name p w)).getD {}).ShownBy _
      rw [Store.index_withPolicy]
      exact h.update r.name p
    · refine policies_update hcmd hs hget hvalid ?_
      rw [Store.fileAt_withPolicy, if_pos rfl]

/-- **Removing a sandbox.**  An index that goes with the instance told of no other sandbox. -/
theorem serving_rm {key : String} (h : ((M.store.index w).getD {}).ShownBy R)
    (hcmd : a.command = .rm key)
    (hlost : M.store.index (execute M a.env (.rm key) w).2 = none → ∀ s, M.store.index w = some s →
      ∀ r ∈ s.sandboxes, a.command.Means s r) :
    ∃ R', M.Serving a R w (execute M a.env (.rm key) w) R' := by
  rw [execute] at hlost ⊢
  rcases cmdRm_cases M a.env key w with ⟨s, r, s', -, hs, hremove, -, hrun⟩ | ⟨e, hrun⟩
  · have hshown := h
    rw [hs] at hshown
    obtain ⟨e, he, hcard⟩ := hshown.find_of_remove hremove
    have hname : e.1 = r.name := congrArg Card.name hcard
    have hmeans : ∀ {s₁ r₁}, M.store.index w = some s₁ → a.command.Means s₁ r₁ → r₁.name = r.name := by
      intro s₁ r₁ hs₁ hmeans
      rw [hcmd] at hmeans
      obtain ⟨r₀, s₀, hremove₀, hname₀⟩ := hmeans
      obtain rfl := Option.some.inj (hs.symm.trans hs₁)
      rw [hname₀, (Prod.mk.inj (Except.ok.inj (hremove.symm.trans hremove₀))).1]
    refine ⟨R.drop r.name, ?_, ?_, Or.inr fun e₁ he₁ => Or.inr ?_⟩
    · rw [Invocation.events, hcmd]
      simp only [he, ← hname]
      exact Registry.Performs.all [.drop e.1] _ R
    · rw [bind_pure_snd] at hlost ⊢
      rw [hrun, mapError_snd] at hlost ⊢
      rcases index_mechRemove M (a.env.mechHost M a.env.inheritedPort) r.mechanism r.runtimeId
        (M.store.dropPolicy a.env.faults r.name (M.store.withIndex s' w)) with hkeep | ⟨-, -, hgone⟩
      · rw [hkeep, Store.index_dropPolicy, Store.index_withIndex]
        exact hshown.remove hremove
      · -- no other sandbox was live
        have hnil : (R.drop r.name).entries = [] := by
          rw [List.eq_nil_iff_forall_not_mem]
          intro e₁ he₁
          rw [Registry.entries_drop] at he₁
          obtain ⟨hold, hne⟩ := Registry.mem_dropEntries.mp he₁
          obtain ⟨r₁, hr₁, hcard₁⟩ := hshown.exists_record hold
          exact hne ((congrArg Card.name hcard₁).symm.trans (hmeans hs (hlost hgone s hs r₁ hr₁)))
        rw [hgone]
        refine ⟨(Registry.last_eq_none hnil).symm, ?_⟩
        rw [hnil]
        rfl
    · rw [Registry.entries_drop] at he₁
      obtain ⟨hold, hne⟩ := Registry.mem_dropEntries.mp he₁
      exact ⟨hold, fun s₁ hs₁ r₁ _ hr₁ hm => hne (hr₁.symm.trans (hmeans hs₁ hm))⟩
  · rw [bind_of_error hrun]
    exact ⟨R, serving_error h _⟩

/-- A creation that goes through has inserted its record and written its policy. -/
theorem inserted_of_createPrepared {env : ProcessEnv} {name : String} {p : Prepared}
    (hp : p.Persistent M name) {u : Unit} {w' : World}
    (hrun : createPrepared M env name p w = (.ok u, w')) :
    ∃ s r' s' w₁ r, M.store.index w = some s ∧ s.insert r env.insertUuid = .ok (r', s') ∧
      (r'.name = name ∧ p.sandbox env = ⟨r'.id, r'.mechanism, r'.workdir, p.request.policy⟩) ∧
      w₁.fs.cwd = w.fs.cwd ∧
      w' = M.store.withIndex s' (M.store.withPolicy name p.request.policy w₁) := by
  obtain ⟨r, w₂, s, r', s', hmake, hs, hinsert, -, rfl⟩ := createPrepared_ok hrun
  have hindex := index_makeRecord hp env w
  rw [hmake] at hindex
  obtain ⟨result, w₃, record, hresult, hrecord, rfl⟩ := makeRecord_eq_ok hmake
  obtain ⟨hash, -, hrec⟩ := except_bind_eq_ok hrecord
  obtain rfl := Except.ok.inj hrec
  have hr' := (SandboxState.insert_eq_ok_iff.mp hinsert).2.1
  have hsandbox : r'.name = name ∧
      p.sandbox env = ⟨r'.id, r'.mechanism, r'.workdir, p.request.policy⟩ := by
    rw [hr', Prepared.sandbox, freshId]
    dsimp only
    split <;> exact ⟨rfl, rfl⟩
  rcases makeRecord_cases hp env w with ⟨e, w₁, hfailed, -⟩ | ⟨r₁, w₁, hmade, hext, -⟩
  · rw [hmake] at hfailed
    cases hfailed
  · rw [hmake] at hmade
    obtain ⟨-, rfl⟩ := Prod.mk.inj hmade
    exact ⟨s, r', s', w₁, _, hindex.symm.trans hs, hinsert, hsandbox, hext.cwd_eq rfl, rfl⟩

/-- **Creating a sandbox** under a free name. -/
theorem serving_create {name : Option String} {args : PolicyArgs}
    (h : ((M.store.index w).getD {}).ShownBy R) (hcmd : a.command = .create name args)
    (hfree : ∀ s, M.store.index w = some s → ∀ n ∈ s.names, a.creates n = false) :
    ∃ R', M.Serving a R w (execute M a.env (.create name args) w) R' := by
  have hevents : a.events M R = (prepare M a.env (createName name) args id false
      []).toOption.toList.map fun p => .add (createName name) (p.sandbox a.env) := by
    rw [Invocation.events, hcmd]
  -- the sandboxes that live are not meant
  have hmeans : ∀ s, M.store.index w = some s → ∀ r ∈ s.sandboxes, ¬ a.command.Means s r := by
    intro s hs r hr hmeans
    rw [hcmd] at hmeans
    have hcreates := creates_eq_true_iff.mpr ⟨name, args, hcmd, (hmeans : r.name = _).symm⟩
    rw [hfree s hs r.name (List.mem_map_of_mem hr)] at hcreates
    cases hcreates
  rw [execute, cmdCreate]
  cases hprep : prepare M a.env (createName name) args id false [] with
  | error e => exact ⟨R, serving_error h e⟩
  | ok p =>
    have hp := persistent_of_prepare hprep
    rw [hprep] at hevents
    rw [lift_ok_bind]
    rcases hrun : createPrepared M a.env (createName name) p w with ⟨e | u, w'⟩
    · refine ⟨R, ?_, ?_, Or.inr fun e he => Or.inr ⟨he, fun s hs r hr _ => hmeans s hs r hr⟩⟩
      · rw [bind_of_error hrun]
        exact Registry.Performs.none R Bool.false_ne_true
      · rw [bind_pure_snd, hrun, index_of_createPrepared_error hp hrun]
        exact h
    · obtain ⟨s, r', s', w₁, r, hs, hinsert, ⟨hname, hsandbox⟩, hcwd, rfl⟩ :=
        inserted_of_createPrepared hp hrun
      have hshown := h
      rw [hs] at hshown
      have hadded := hshown.insert hinsert p.request.policy
      rw [← hsandbox, hname] at hadded
      have hfree' : createName name ∉ R.names := by
        rw [← hshown.names_eq, ← hname]
        exact SandboxState.not_mem_of_insert hinsert
      refine ⟨R.add (createName name) (p.sandbox a.env), ?_, ?_, Or.inr fun e he => ?_⟩
      · rw [hevents]
        exact Registry.Performs.all [.add (createName name) (p.sandbox a.env)] _ R
      · rw [bind_pure_snd, hrun, Store.index_withIndex]
        exact hadded
      · rw [bind_pure_snd, hrun]
        rw [Registry.entries_add hfree', List.mem_append, List.mem_singleton] at he
        rcases he with hold | rfl
        · exact Or.inr ⟨hold, fun s hs r hr _ => hmeans s hs r hr⟩
        · refine Or.inl ⟨?_, validate_of_prepare hprep⟩
          rw [Store.withIndex, Store.put_fileAt, Store.withPolicy_cwd, hcwd,
            if_neg (M.store.policyAt_ne_indexAt _ _), Store.fileAt_withPolicy, hcwd, if_pos rfl]
          rfl

/-- **Every command** on the index of a registry. -/
theorem serving_execute (h : ((M.store.index w).getD {}).ShownBy R)
    (hfree : ∀ s, M.store.index w = some s → ∀ n ∈ s.names, a.creates n = false)
    (hlost : M.store.index (execute M a.env a.command w).2 = none → ∀ s, M.store.index w = some s →
      ∀ r ∈ s.sandboxes, a.command.Means s r) :
    ∃ R', M.Serving a R w (execute M a.env a.command w) R' := by
  have hmeans : ∀ {name}, (∃ command, a.command = .exec name command) ∨ a.command = .shell name →
      ∀ s r, ¬ a.command.Means s r := by
    rintro name (⟨command, hcmd⟩ | hcmd) s r hmeans
    · rw [hcmd] at hmeans
      exact hmeans
    · rw [hcmd] at hmeans
      exact hmeans
  cases hcmd : a.command with
  | create name args => exact serving_create h hcmd hfree
  | exec name command =>
    refine serving_exec h ?_ (hmeans (Or.inl ⟨command, hcmd⟩))
    rw [Invocation.events, hcmd]
  | shell name =>
    rw [execute]
    rcases cmdShell_cases M a.env name w with ⟨command, hrun⟩ | ⟨e, hrun⟩
    · rw [hrun]
      refine serving_exec h ?_ (hmeans (Or.inr hcmd))
      rw [Invocation.events, hcmd]
    · rw [hrun]
      exact ⟨R, serving_error h e⟩
  | policySet name file => exact serving_policySet h hcmd
  | rm key =>
    rw [hcmd] at hlost
    exact serving_rm h hcmd (by rw [hcmd]; exact hlost)
  | _ =>
    rw [← hcmd]
    refine ⟨R, serving_quiet h ?_⟩
    rw [hcmd]
    trivial

/-! ## Processes -/

theorem Opens.getD {c c₁ : Option SandboxState} (h : Opens c c₁) : c₁.getD {} = c.getD {} := by
  rcases h with rfl | ⟨rfl, rfl⟩
  · rfl
  · rfl

variable {dir}

/-- Opening the store shows the same registry. -/
theorem Shows.opened {cwd : Location} {w₁ : World} (h : M.Shows dir w R) (hsees : M.Sees dir cwd)
    (hopened : M.Opened (w.enter cwd) w₁) :
    ((M.store.index w₁).getD {}).ShownBy R ∧ ∀ e ∈ R.entries, M.Written dir w₁ e := by
  have hindex := h.index
  rw [hsees.records_enter] at hindex
  refine ⟨by rw [hopened.index.getD]; exact hindex, fun e he => ?_⟩
  obtain ⟨hfile, hvalid⟩ := h.policies e he
  refine ⟨?_, hvalid⟩
  rw [hopened.files, enter_fileAt, hfile]
  -- an entry has its record, so that there is an index
  intro hnone
  rw [Store.index_of_fileAt_none hnone] at hindex
  obtain ⟨r, hr, -⟩ := hindex.exists_record he
  cases hr

/-- The policy of a sandbox that the process does not mean. -/
theorem Shows.unmeant {w' : World} (h : M.Shows dir w R)
    (hlive : ∀ s, M.records dir w = some s → LiveApart M dir s) (hapart : M.CreatedApart dir w a)
    (hstep : M.Runs dir w a w') {e : String × Sandbox} (he : e ∈ R.entries)
    (hmeans : ∀ s, M.records dir w = some s → ∀ r ∈ s.sandboxes, r.name = e.1 →
      ¬ a.command.Means s r) : M.Written dir w' e := by
  have hissued : M.AllIssued (M.records dir w) := fun s hs r hr => (hlive s hs).issued r hr
  obtain ⟨c, hopens, -, evs, -, hevs, hkeep⟩ := hstep.changes hissued
  obtain ⟨hfile, hvalid⟩ := h.policies e he
  obtain ⟨r, hr, hcard⟩ := h.index.exists_record he
  have hname : r.name = e.1 := congrArg Card.name hcard
  cases hs : M.records dir w with
  | none =>
    rw [hs] at hr
    cases hr
  | some s =>
    rw [hs] at hr
    obtain rfl := hopens.of_records hs
    refine ⟨?_, hvalid⟩
    rw [hkeep, hfile]
    intro ev hev
    have howns : M.Owns dir r (M.store.policyAt dir e.1) := Or.inl (by rw [hname])
    rcases hevs ev hev with hopening | hcommand
    · exact not_touches_of_openingEvents howns hopening
    · exact not_touches_of_commandEvents (hlive s hs) hr hs hapart (hmeans s hs r hr hname) howns
        hcommand

/-- An index is lost with the instance of the only sandbox. -/
theorem Runs.means_of_lost {w' : World} (hstep : M.Runs dir w a w')
    (hlive : ∀ s, M.records dir w = some s → LiveApart M dir s) (hnone : M.records dir w' = none)
    {s : SandboxState} (hs : M.records dir w = some s) {r : SandboxRecord} (hr : r ∈ s.sandboxes) :
    a.command.Means s r := by
  by_contra hmeans
  obtain ⟨c, hopens, hindex, -⟩ := hstep.changes fun s hs r hr => (hlive s hs).issued r hr
  obtain rfl := hopens.of_records hs
  obtain ⟨s', hs', -⟩ := record_kept (hlive s hs) hr hmeans hindex
  rw [hnone] at hs'
  cases hs'

/-- **One process serves the registry.** -/
theorem shows_runs {w' : World} (h : M.Shows dir w R)
    (hlive : ∀ s, M.records dir w = some s → LiveApart M dir s) (hstep : M.CarefulRuns dir w a w') :
    ∃ R', M.Serves R (a, (ssbx M a.env a.command (w.enter a.cwd)).1) R' ∧ M.Shows dir w' R' := by
  obtain ⟨hrun, hapart, hfree⟩ := hstep
  have hunmeant := fun {e} => h.unmeant (e := e) hlive hapart hrun
  have hlost := fun hnone {s} => hrun.means_of_lost hlive hnone (s := s)
  obtain ⟨hsees, rfl⟩ := hrun
  have hafter := Sees.records_ssbx (w := w.enter a.cwd) hsees a.env a.command
  have hbefore := hsees.records_enter w
  have hopened := opened_openAt (M := M) a.env.faults (w.enter a.cwd)
  rcases hopen : Store.openAt M.root a.env.faults (w.enter a.cwd) with ⟨e | st, w₁⟩
  · rw [hopen] at hopened
    obtain ⟨hindex, hpolicies⟩ := h.opened hsees hopened
    rw [ssbx_of_not_opened hopen] at hafter ⊢
    exact ⟨R, Registry.Performs.none R Bool.false_ne_true, by rw [hafter]; exact hindex, hpolicies⟩
  rw [hopen] at hopened
  obtain ⟨hindex, hpolicies⟩ := h.opened hsees hopened
  rw [ssbx_of_opened hopen] at hafter hunmeant hlost ⊢
  -- the records that the command finds were there before
  have hfound : ∀ s, M.store.index w₁ = some s → ∀ r ∈ s.sandboxes, M.records dir w = some s := by
    intro s hs r hr
    rw [hbefore]
    rcases hopened.index with hsame | ⟨-, hfirst⟩
    · rw [← hsame, hs]
    · rw [hs] at hfirst
      rw [Option.some.inj hfirst] at hr
      cases hr
  obtain ⟨R', hperforms, hindex', hpolicies'⟩ := serving_execute (a := a) hindex
    (fun s hs n hn => by
      obtain ⟨r, hr, -⟩ := List.mem_map.mp hn
      exact hfree s (hfound s hs r hr) n hn)
    (fun hnone s hs r hr => hlost (hafter.trans hnone) (hfound s hs r hr) hr)
  refine ⟨R', hperforms, by rw [hafter]; exact hindex', fun e he => ?_⟩
  rcases hpolicies' with ⟨rfl, hsame⟩ | hall
  · obtain ⟨hfile, hvalid⟩ := hpolicies e he
    exact ⟨by rw [hsame]; exact hfile, hvalid⟩
  · rcases hall e he with ⟨hfile, hvalid⟩ | ⟨hold, hmeans⟩
    · rw [hopened.events.cwd_eq rfl, enter_cwd, hsees.policyAt_eq] at hfile
      exact ⟨hfile, hvalid⟩
    · refine hunmeant hold fun s hs r hr hname => hmeans s ?_ r hr hname
      rw [hbefore] at hs
      exact hopened.index.of_records hs

/-! ## What the commands tell -/

/-- What a process is told of the sandboxes is what the registry holds. -/
structure Answers (M : Machine) (R : Registry String Sandbox) (env : ProcessEnv) (w : World) : Prop where
  policyGet : ∀ key, env.lookupFaults .loadIndex = false → env.faults .loadPolicy = false →
    (cmdPolicyGet M env key w).1.toOption = (R.find key).map fun e => e.2.policy
  ls : ∀ rs, (cmdLs M env w).1 = .ok rs → rs.map SandboxRecord.card = R.entries.map cardOf

theorem loadPolicy_of_written {f : Faults} {e : String × Sandbox} (h : M.Written w.fs.cwd w e)
    (hf : f .loadPolicy = false) : M.store.loadPolicy f e.1 w = (.ok e.2.policy, w) := by
  have hread : (World.readFile f .loadPolicy (M.store.policyPath e.1)).mapError StateError.io w =
      (.ok (.policy e.2.policy), w) := by
    have hok : w.fs.read (M.store.policyPath e.1) = .ok (.policy e.2.policy) :=
      read_eq_ok_iff.mpr h.file
    simp [World.readFile, hf, hok, mapError]
  rw [Store.loadPolicy, bind_of_ok hread]
  simp only [h.valid]
  rfl

theorem Shows.answers (h : M.Shows dir w R) {cwd : Location} (hsees : M.Sees dir cwd)
    (env : ProcessEnv) : M.Answers R env (w.enter cwd) := by
  have hindex := h.index
  rw [hsees.records_enter] at hindex
  constructor
  · intro key hlookup hload
    cases hs : M.store.index (w.enter cwd) with
    | none =>
      rw [hs] at hindex
      have hnone : R.find key = none := by
        rw [Option.eq_none_iff_forall_ne_some]
        intro e he
        obtain ⟨r, hr, -⟩ := hindex.exists_record (Registry.mem_of_find he)
        cases hr
      rcases getOrLast_cases M.store env.lookupFaults key (w.enter cwd) with
        ⟨s, r, hsome, -⟩ | ⟨e, hrun⟩
      · rw [hs] at hsome
        cases hsome
      · rw [cmdPolicyGet, bind_of_error (mapError_eq_error_iff.mpr ⟨e, rfl, hrun⟩), hnone]
        rfl
    | some s =>
      rw [hs] at hindex
      change s.ShownBy R at hindex
      have hrun : M.store.getOrLast env.lookupFaults key (w.enter cwd) =
          (s.getOrLast key, w.enter cwd) := bind_of_ok (Store.loadIndex_of_index hlookup hs)
      have hcard := hindex.getOrLast_card key
      cases hget : s.getOrLast key with
      | error e =>
        rw [hget] at hrun hcard
        rw [cmdPolicyGet, bind_of_error (mapError_eq_error_iff.mpr ⟨e, rfl, hrun⟩),
          Option.map_eq_none_iff.mp hcard.symm]
        rfl
      | ok r =>
        rw [hget] at hrun
        obtain ⟨e, he, hcard⟩ := hindex.find_of_getOrLast hget
        have hname : e.1 = r.name := congrArg Card.name hcard
        obtain ⟨hfile, hvalid⟩ := h.policies e (Registry.mem_of_find he)
        rw [← hsees.policyAt_eq] at hfile
        have hloaded := loadPolicy_of_written (w := w.enter cwd) ⟨hfile, hvalid⟩ hload
        rw [hname] at hloaded
        rw [cmdPolicyGet, bind_of_ok (mapError_eq_ok_iff.mpr hrun),
          mapError_eq_ok_iff.mpr hloaded, he]
        rfl
  · intro rs hrs
    rcases Store.loadIndex_cases M.store env.faults (w.enter cwd) with
      ⟨s, -, hs, hload⟩ | ⟨-, e, hload⟩
    · have hlist : cmdLs M env (w.enter cwd) = (.ok s.sandboxes, w.enter cwd) :=
        mapError_eq_ok_iff.mpr (bind_of_ok hload)
      rw [hlist] at hrs
      rw [hs] at hindex
      rw [← Except.ok.inj hrs]
      exact hindex.cards
    · have hlist : cmdLs M env (w.enter cwd) = (.error (.state e), w.enter cwd) :=
        mapError_eq_error_iff.mpr ⟨e, rfl, bind_of_error hload⟩
      rw [hlist] at hrs
      cases hrs

end Machine

/-- `ssbx policy set a --policy FILE`, with a file that allows less memory, where the index cannot
    be written. -/
def setHalf : Invocation where
  command := .policySet (some "a") (.ok { resources := { memory := "512M" } })
  env := { smallEnv "" with faults := fun site => decide (site = .saveIndex) }
  cwd := []

/-- The sandbox is created, and then half of its policy set. -/
def halfRun : List (Invocation × Except CliError ℕ) :=
  [(smallCreate .mac "a" "u", .ok 0), (setHalf, .error (.state (.io (.other "i/o error"))))]

def halfWorld : World := smallMachine.after firstWorld setHalf

theorem trace_halfWorld : Trace (smallMachine.Finishes []) emptyWorld halfRun halfWorld := by
  have hcreate : smallMachine.CarefulRuns [] emptyWorld (smallCreate .mac "a" "u") firstWorld :=
    Machine.careful_of_fresh fresh_emptyWorld (runs_after _)
  have hset : smallMachine.CarefulRuns [] firstWorld setHalf halfWorld := by
    refine ⟨runs_after _, fun name args p hcmd => ?_, fun _ _ _ _ => rfl⟩
    cases hcmd
  exact .next (.next .start ⟨hcreate, by decide +kernel⟩) ⟨hset, by decide +kernel⟩

end SimpleSandbox
