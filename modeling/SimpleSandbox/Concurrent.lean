import SimpleSandbox.SharedCell
import SimpleSandbox.StoreSpec

/-!
# Concurrent processes on one index

Any number of `ssbx` processes work on one `index.json`.  Each store operation loads the
index (or, for `open`, checks that it exists) in one step and saves it in a later one; the
other processes step in between as they like.  The index is the shared cell of
`SharedCell`, and the pure operations of `State` say what is saved.

A ledger is what the index means: a record for each name.  Where every save finds the index
as its own operation has loaded it, the index is the ledger of the operations that returned
`Ok`, in the order of their saves.  With a save in between, the later save drops the change
of the earlier one.
-/

namespace SimpleSandbox

open OsPath Effect SharedCell

/-! ## Requests and replies -/

inductive StoreRequest where
  | openStore
  | insert (record : SandboxRecord) (uuid : String)
  | remove (key : String)
  | updatePolicy (name hash : String)
  | touch (name : String)

inductive StoreReply where
  | opened
  | inserted (record : SandboxRecord)
  | removed (record : SandboxRecord)
  | updated (name hash : String)
  | touched (name : String)
  | failed (e : StateError)

/-- A result of a pure operation as an outcome. -/
def savedOr {α : Type} (reply : α → StoreReply) :
    Except StateError (α × SandboxState) → Outcome SandboxState StoreReply
  | .ok (a, s) => .save s (reply a)
  | .error e => .done (.failed e)

/-- What an operation does with the index it has loaded. -/
def applyRequest : StoreRequest → Option SandboxState → Outcome SandboxState StoreReply
  | .openStore, none => .save {} .opened
  | .openStore, some _ => .done .opened
  | _, none => .done (.failed (.io .notFound))
  | .insert record uuid, some s => savedOr .inserted (s.insert record uuid)
  | .remove key, some s => savedOr .removed (s.remove key)
  | .updatePolicy name hash, some s =>
    savedOr (fun _ => .updated name hash) ((s.updatePolicy name hash).map fun s' => ((), s'))
  | .touch name, some s => savedOr (fun _ => .touched name) (.ok ((), s.touch name))

theorem savedOr_eq_save_iff {α : Type} {reply : α → StoreReply}
    {r : Except StateError (α × SandboxState)} {s : SandboxState} {rep : StoreReply} :
    savedOr reply r = .save s rep ↔ ∃ a, r = .ok (a, s) ∧ rep = reply a := by
  rcases r with e | ⟨a, s'⟩
  · simp [savedOr]
  · simp only [savedOr, Outcome.save.injEq, Except.ok.injEq, Prod.mk.injEq]
    constructor
    · rintro ⟨rfl, rfl⟩
      exact ⟨a, ⟨rfl, rfl⟩, rfl⟩
    · rintro ⟨_, ⟨rfl, rfl⟩, rfl⟩
      exact ⟨rfl, rfl⟩

/-! ## The operations of the store are these requests -/

namespace Store

variable {st : Store} {f : Faults} {w : World}

/-- One operation, run by itself: it leaves the index alone or makes the save of its
    request. -/
def Performs {α : Type} (st : Store) (k : StoreRequest) (reply : α → StoreReply)
    (m : Effect World StateError α) : Prop :=
  ∀ w, (∃ a w' s, m w = (.ok a, w') ∧ applyRequest k (st.index w) = .save s (reply a) ∧
      st.index w' = some s) ∨
    st.index (m w).2 = st.index w

theorem performs_modify {α : Type} (st : Store) (f : Faults) {k : StoreRequest}
    {reply : α → StoreReply} {op : SandboxState → Except StateError (α × SandboxState)}
    (hk : ∀ s, applyRequest k (some s) = savedOr reply (op s)) :
    st.Performs k reply (st.modify f op) := by
  intro w
  rcases modify_cases st f op w with ⟨s, a, s', -, hs, hop, -, hrun⟩ | ⟨e, hrun⟩
  · refine Or.inl ⟨a, st.withIndex s' w, s', hrun, ?_, st.index_withIndex s' w⟩
    rw [hs, hk, hop]
    rfl
  · exact Or.inr (by rw [hrun])

theorem performs_insert (st : Store) (f : Faults) (r : SandboxRecord) (uuid : String) :
    st.Performs (.insert r uuid) .inserted (st.insert f r uuid) := by
  rw [insert_eq_modify]
  exact performs_modify st f fun _ => rfl

theorem performs_touchLastUsed (st : Store) (f : Faults) (name : String) :
    st.Performs (.touch name) (fun _ => .touched name) (st.touchLastUsed f name) := by
  rw [touchLastUsed_eq_modify]
  exact performs_modify st f fun _ => rfl

theorem performs_remove (st : Store) (f : Faults) (key : String) :
    st.Performs (.remove key) .removed (st.remove f key) := by
  intro w
  rcases remove_cases st f key w with ⟨s, r, s', -, hs, hop, -, hrun⟩ | ⟨e, hrun⟩
  · refine Or.inl ⟨r, _, s', hrun, ?_, ?_⟩
    · rw [hs, applyRequest, hop]
      rfl
    · rw [index_dropPolicy, index_withIndex]
  · exact Or.inr (by rw [hrun])

/-- The policy file is written before the index is loaded. -/
theorem performs_updatePolicy (st : Store) (ext : Externals) (f : Faults) (name : String)
    {p : SandboxPolicy} {hash : String} (hhash : p.contentHash ext = .ok hash) :
    st.Performs (.updatePolicy name hash) (fun _ => .updated name hash)
      (st.updatePolicy ext f name p) := by
  intro w
  rw [updatePolicy_eq, hhash]
  have hindex := st.index_savePolicy ext f name p w
  change (∃ a w' s, (st.savePolicy ext f name p >>= _) w = _ ∧ _) ∨ _
  rcases hsave : st.savePolicy ext f name p w with ⟨e | path, w₁⟩
  · rw [hsave] at hindex
    refine Or.inr ?_
    change st.index ((st.savePolicy ext f name p >>= _) w).2 = _
    rw [bind_of_error hsave]
    exact hindex
  · rw [hsave] at hindex
    have hmodify : st.Performs (.updatePolicy name hash) (fun _ => .updated name hash)
        (st.modify f fun s => (s.updatePolicy name hash).map fun s' => ((), s')) :=
      performs_modify st f fun _ => rfl
    have hmodify := hmodify w₁
    rw [hindex] at hmodify
    change (∃ a w' s, (st.savePolicy ext f name p >>= _) w = _ ∧ _) ∨
      st.index ((st.savePolicy ext f name p >>= _) w).2 = _
    rw [bind_of_ok hsave]
    exact hmodify

theorem performs_openAt (root : PathBuf) (f : Faults) :
    Performs ⟨root⟩ .openStore (fun _ => .opened) (openAt root f) := by
  intro w
  rcases index_openAt root f w with hsame | ⟨hnone, hmade, hok⟩
  · exact Or.inr hsame
  · refine Or.inl ⟨⟨root⟩, (openAt root f w).2, {}, ?_, ?_, hmade⟩
    · rw [← hok]
    · rw [hnone]
      rfl

end Store

/-! ## The ledger -/

/-- A record for each name. -/
abbrev Ledger := String → Option SandboxRecord

/-- How a successful operation changes the ledger, and where it can succeed. -/
def LedgerStep (m : Ledger) : StoreReply → Ledger → Prop
  | .opened, m' => (∀ n, m n = none) ∧ m' = m
  | .inserted r, m' => m r.name = none ∧ m' = Function.update m r.name (some r)
  | .removed r, m' => m r.name = some r ∧ m' = Function.update m r.name none
  | .updated name hash, m' =>
    (m name).isSome ∧ m' = Function.update m name ((m name).map (·.withHash hash))
  | .touched _, m' => m' = m
  | .failed _, _ => False

/-- The ledger an index stands for. -/
def ledger (c : Option SandboxState) : Ledger := fun n => c.bind (·.named n)

/-- The records of the index have distinct names. -/
def NamesDistinct (c : Option SandboxState) : Prop := ∀ s, c = some s → s.names.Nodup

theorem eq_update {m m' : Ledger} {n : String} {o : Option SandboxRecord}
    (h : ∀ x, m' x = if x = n then o else m x) : m' = Function.update m n o := by
  funext x
  rw [h, Function.update_apply]

/-- **Each saved operation is a step of the ledger.** -/
theorem ledgerStep_of_save {k : StoreRequest} {c : Option SandboxState} {s : SandboxState}
    {rep : StoreReply} (hdistinct : NamesDistinct c) (h : applyRequest k c = .save s rep) :
    NamesDistinct (some s) ∧ LedgerStep (ledger c) rep (ledger (some s)) := by
  have hnew : s.names.Nodup → NamesDistinct (some s) := by
    rintro hs t ht
    rw [← Option.some.inj ht]
    exact hs
  cases c with
  | none =>
    cases k with
    | openStore =>
      simp only [applyRequest, Outcome.save.injEq] at h
      obtain ⟨rfl, rfl⟩ := h
      exact ⟨hnew List.nodup_nil, fun _ => rfl, rfl⟩
    | insert record uuid => simp [applyRequest] at h
    | remove key => simp [applyRequest] at h
    | updatePolicy name hash => simp [applyRequest] at h
    | touch name => simp [applyRequest] at h
  | some t =>
    have ht : t.names.Nodup := hdistinct t rfl
    cases k with
    | openStore => simp [applyRequest] at h
    | insert record uuid =>
      obtain ⟨r, hinsert, rfl⟩ := savedOr_eq_save_iff.mp h
      refine ⟨hnew (SandboxState.nodup_insert ht hinsert), ?_, ?_⟩
      · exact SandboxState.named_eq_none_iff.mpr (SandboxState.not_mem_of_insert hinsert)
      · exact eq_update (SandboxState.named_insert hinsert)
    | remove key =>
      obtain ⟨r, hremove, rfl⟩ := savedOr_eq_save_iff.mp h
      refine ⟨hnew (SandboxState.nodup_remove ht hremove), ?_, ?_⟩
      · exact SandboxState.named_of_mem ht (SandboxState.mem_of_remove hremove)
      · exact eq_update (SandboxState.named_remove ht hremove)
    | updatePolicy name hash =>
      obtain ⟨u, hmap, rfl⟩ := savedOr_eq_save_iff.mp h
      have hupdate := SandboxState.map_updatePolicy_eq_ok_iff.mp hmap
      have hlive := (SandboxState.updatePolicy_eq_ok_iff.mp hupdate).1
      refine ⟨hnew ?_, ?_, ?_⟩
      · rw [SandboxState.names_updatePolicy hupdate]
        exact ht
      · rw [Option.isSome_iff_ne_none]
        exact fun hnone => SandboxState.named_eq_none_iff.mp hnone hlive
      · apply eq_update
        intro x
        change s.named x = if x = name then (t.named name).map _ else t.named x
        rw [SandboxState.named_updatePolicy hupdate]
        split
        · rename_i hx
          rw [hx]
        · rfl
    | touch name =>
      simp only [applyRequest, savedOr, Outcome.save.injEq] at h
      obtain ⟨rfl, rfl⟩ := h
      exact ⟨hnew ht, rfl⟩

/-! ## What the log promises -/

/-- The record as it is now, its policy hash apart. -/
def SandboxRecord.Updates (r r' : SandboxRecord) : Prop := ∃ hash, r' = r.withHash hash

theorem SandboxRecord.updates_self (r : SandboxRecord) : r.Updates r := ⟨r.policyHash, rfl⟩

theorem SandboxRecord.Updates.withHash {r r' : SandboxRecord} (h : r.Updates r') (hash : String) :
    r.Updates (r'.withHash hash) := by
  obtain ⟨_, rfl⟩ := h
  exact ⟨hash, rfl⟩

theorem SandboxRecord.Updates.name {r r' : SandboxRecord} (h : r.Updates r') : r'.name = r.name := by
  obtain ⟨_, rfl⟩ := h
  rfl

abbrev StoreLog := List (StoreRequest × StoreReply)

/-- What the operations that returned `Ok`, in the order of their saves, promise of the
    index they leave. -/
structure LedgerHolds (log : StoreLog) (c : Option SandboxState) : Prop where
  /-- No lost sandbox. -/
  inserted_present : ∀ l₁ k r l₂, log = l₁ ++ (k, .inserted r) :: l₂ →
    (∀ k' r', (k', .removed r') ∈ l₂ → ¬ r.Updates r') →
    ∃ s, c = some s ∧ ∃ r' ∈ s.sandboxes, r.Updates r'
  /-- No resurrected sandbox. -/
  removed_absent : ∀ l₁ k r l₂, log = l₁ ++ (k, .removed r) :: l₂ →
    (∀ k' r', (k', .inserted r') ∈ l₂ → ¬ r.Updates r') →
    ∀ s, c = some s → ∀ r' ∈ s.sandboxes, ¬ r.Updates r'
  /-- The hash is the one the last update of the record has written. -/
  hash_of_update : ∀ l₁ k name hash l₂, log = l₁ ++ (k, .updated name hash) :: l₂ →
    (∀ k' r', (k', .removed r') ∈ l₂ → r'.name ≠ name) →
    (∀ k' hash', (k', .updated name hash') ∉ l₂) →
    ∃ s, c = some s ∧ ∃ r ∈ s.sandboxes, r.name = name ∧ r.policyHash = hash

/-- A replay from an index with distinct names. -/
structure DistinctReplay (c : Option SandboxState) (log : StoreLog) (c' : Option SandboxState) :
    Prop where
  distinct : NamesDistinct c
  replay : Replay applyRequest c log c'

namespace DistinctReplay

/-- A property of ledgers that every step of the log keeps. -/
theorem invariant {c c' : Option SandboxState} {log : StoreLog} (h : DistinctReplay c log c')
    (P : Ledger → Prop) (hc : P (ledger c))
    (hstep : ∀ k rep m m', (k, rep) ∈ log → LedgerStep m rep m' → P m → P m') :
    NamesDistinct c' ∧ P (ledger c') := by
  refine Replay.invariant (fun c => NamesDistinct c ∧ P (ledger c)) h.replay ⟨h.distinct, hc⟩ ?_
  intro d k s rep hmem hd happly
  obtain ⟨hnew, hledger⟩ := ledgerStep_of_save hd.1 happly
  exact ⟨hnew, hstep k rep _ _ hmem hledger hd.2⟩

theorem distinct_after {c c' : Option SandboxState} {log : StoreLog}
    (h : DistinctReplay c log c') : NamesDistinct c' :=
  (h.invariant (fun _ => True) trivial fun _ _ _ _ _ _ _ => trivial).1

/-- The log up to an entry, the entry's own step, and the log after it. -/
theorem at_entry {c c' : Option SandboxState} {l₁ l₂ : StoreLog} {k : StoreRequest}
    {rep : StoreReply} (h : DistinctReplay c (l₁ ++ (k, rep) :: l₂) c') :
    ∃ m m' : Option SandboxState, LedgerStep (ledger m) rep (ledger m') ∧
      DistinctReplay m' l₂ c' := by
  have hreplay := h.replay
  rw [← List.singleton_append, ← List.append_assoc] at hreplay
  obtain ⟨m', hfirst, hsecond⟩ := hreplay.split
  generalize hlog : l₁ ++ [(k, rep)] = log at hfirst
  cases hfirst with
  | nil => simp at hlog
  | snoc hbefore happly =>
    obtain ⟨hinit, hlast⟩ := List.append_inj' hlog rfl
    obtain ⟨rfl, rfl⟩ := Prod.mk.inj (List.head_eq_of_cons_eq hlast)
    obtain ⟨hnew, hstep⟩ := ledgerStep_of_save (distinct_after ⟨h.distinct, hbefore⟩) happly
    exact ⟨_, _, hstep, hnew, hsecond⟩

end DistinctReplay

/-! ### What a step keeps -/

/-- A record stays until a removal returns it. -/
theorem present_step {r : SandboxRecord} {rep : StoreReply} {m m' : Ledger}
    (hstep : LedgerStep m rep m') (hrep : ∀ r', rep = .removed r' → ¬ r.Updates r')
    (h : ∃ r', m r.name = some r' ∧ r.Updates r') : ∃ r', m' r.name = some r' ∧ r.Updates r' := by
  obtain ⟨r', hr', hupd⟩ := h
  cases rep with
  | opened =>
    rw [hstep.2]
    exact ⟨r', hr', hupd⟩
  | inserted r₁ =>
    obtain ⟨hfree, rfl⟩ := hstep
    have hne : r.name ≠ r₁.name := by
      intro heq
      rw [heq, hfree] at hr'
      simp at hr'
    exact ⟨r', by rw [Function.update_of_ne hne, hr'], hupd⟩
  | removed r₁ =>
    obtain ⟨hlive, rfl⟩ := hstep
    have hne : r.name ≠ r₁.name := by
      intro heq
      rw [heq, hlive] at hr'
      obtain rfl := Option.some.inj hr'
      exact hrep _ rfl hupd
    exact ⟨r', by rw [Function.update_of_ne hne, hr'], hupd⟩
  | updated name hash =>
    obtain ⟨-, rfl⟩ := hstep
    by_cases hn : r.name = name
    · subst hn
      exact ⟨r'.withHash hash, by rw [Function.update_self, hr']; rfl, hupd.withHash hash⟩
    · exact ⟨r', by rw [Function.update_of_ne hn, hr'], hupd⟩
  | touched name =>
    rw [show m' = m from hstep]
    exact ⟨r', hr', hupd⟩
  | failed e => exact hstep.elim

/-- A record that is not there stays away until it is inserted. -/
theorem absent_step {r : SandboxRecord} {rep : StoreReply} {m m' : Ledger}
    (hstep : LedgerStep m rep m') (hrep : ∀ r', rep = .inserted r' → ¬ r.Updates r')
    (h : ∀ n r', m n = some r' → ¬ r.Updates r') : ∀ n r', m' n = some r' → ¬ r.Updates r' := by
  intro n r' hr'
  cases rep with
  | opened =>
    rw [hstep.2] at hr'
    exact h n r' hr'
  | inserted r₁ =>
    obtain ⟨-, rfl⟩ := hstep
    rw [Function.update_apply] at hr'
    split at hr'
    · obtain rfl := Option.some.inj hr'
      exact hrep _ rfl
    · exact h n r' hr'
  | removed r₁ =>
    obtain ⟨-, rfl⟩ := hstep
    rw [Function.update_apply] at hr'
    split at hr'
    · simp at hr'
    · exact h n r' hr'
  | updated name hash =>
    obtain ⟨-, rfl⟩ := hstep
    rw [Function.update_apply] at hr'
    split at hr'
    · obtain ⟨r₁, hr₁, rfl⟩ := Option.map_eq_some_iff.mp hr'
      intro hupd
      exact h name r₁ hr₁ ⟨r₁.policyHash, by
        obtain ⟨hash', heq⟩ := hupd
        have := congrArg (SandboxRecord.withHash r₁.policyHash) heq
        exact this⟩
    · exact h n r' hr'
  | touched name =>
    rw [show m' = m from hstep] at hr'
    exact h n r' hr'
  | failed e => exact hstep.elim

/-- A hash stays until the record is removed or updated again. -/
theorem hash_step {name hash : String} {rep : StoreReply} {m m' : Ledger}
    (hstep : LedgerStep m rep m') (hremoved : ∀ r', rep = .removed r' → r'.name ≠ name)
    (hupdated : ∀ hash', rep ≠ .updated name hash')
    (h : ∃ r, m name = some r ∧ r.policyHash = hash) :
    ∃ r, m' name = some r ∧ r.policyHash = hash := by
  obtain ⟨r, hr, hhash⟩ := h
  cases rep with
  | opened =>
    rw [hstep.2]
    exact ⟨r, hr, hhash⟩
  | inserted r₁ =>
    obtain ⟨hfree, rfl⟩ := hstep
    have hne : name ≠ r₁.name := by
      intro heq
      rw [heq, hfree] at hr
      simp at hr
    exact ⟨r, by rw [Function.update_of_ne hne, hr], hhash⟩
  | removed r₁ =>
    obtain ⟨-, rfl⟩ := hstep
    exact ⟨r, by rw [Function.update_of_ne (hremoved r₁ rfl).symm, hr], hhash⟩
  | updated name' hash' =>
    obtain ⟨-, rfl⟩ := hstep
    have hne : name ≠ name' := by
      rintro rfl
      exact hupdated hash' rfl
    exact ⟨r, by rw [Function.update_of_ne hne, hr], hhash⟩
  | touched name' =>
    rw [show m' = m from hstep]
    exact ⟨r, hr, hhash⟩
  | failed e => exact hstep.elim

theorem mem_of_ledger {c : Option SandboxState} {n : String} {r : SandboxRecord}
    (h : ledger c n = some r) : ∃ s, c = some s ∧ r ∈ s.sandboxes ∧ r.name = n := by
  obtain ⟨s, rfl, hr⟩ := Option.bind_eq_some_iff.mp h
  exact ⟨s, rfl, SandboxState.mem_of_named hr, SandboxState.name_of_named hr⟩

/-- A log that was written one save after the other keeps its promises. -/
theorem ledgerHolds_of_replay {c c' : Option SandboxState} {log : StoreLog}
    (h : DistinctReplay c log c') : LedgerHolds log c' where
  inserted_present := by
    rintro l₁ k r l₂ rfl hnot
    obtain ⟨m, m', hstep, hafter⟩ := h.at_entry
    have hstart : ∃ r', ledger m' r.name = some r' ∧ r.Updates r' := by
      rw [hstep.2]
      exact ⟨r, Function.update_self .., r.updates_self⟩
    obtain ⟨-, r', hr', hupd⟩ := hafter.invariant _ hstart fun k' rep _ _ hmem hnext =>
      present_step hnext fun r' hrep => hnot k' r' (hrep ▸ hmem)
    obtain ⟨s, hs, hmem, -⟩ := mem_of_ledger hr'
    exact ⟨s, hs, r', hmem, hupd⟩
  removed_absent := by
    rintro l₁ k r l₂ rfl hnot s rfl r' hmem
    obtain ⟨m, m', hstep, hafter⟩ := h.at_entry
    have hstart : ∀ n r', ledger m' n = some r' → ¬ r.Updates r' := by
      intro n r' hr' hupd
      obtain ⟨s, -, -, hname⟩ := mem_of_ledger hr'
      rw [hstep.2, ← hname, hupd.name, Function.update_self] at hr'
      simp at hr'
    obtain ⟨hdistinct, habsent⟩ := hafter.invariant _ hstart fun k' rep _ _ hmem hnext =>
      absent_step hnext fun r' hrep => hnot k' r' (hrep ▸ hmem)
    exact habsent r'.name r' (SandboxState.named_of_mem (hdistinct s rfl) hmem)
  hash_of_update := by
    rintro l₁ k name hash l₂ rfl hremoved hupdated
    obtain ⟨m, m', hstep, hafter⟩ := h.at_entry
    have hstart : ∃ r, ledger m' name = some r ∧ r.policyHash = hash := by
      obtain ⟨hlive, hm'⟩ := hstep
      obtain ⟨r, hr⟩ := Option.isSome_iff_exists.mp hlive
      exact ⟨r.withHash hash, by rw [hm', Function.update_self, hr]; rfl, rfl⟩
    obtain ⟨-, r, hr, hhash⟩ := hafter.invariant _ hstart fun k' rep _ _ hmem hnext =>
      hash_step hnext (fun r' hrep => hremoved k' r' (hrep ▸ hmem))
        (fun hash' hrep => hupdated k' hash' (hrep ▸ hmem))
    obtain ⟨s, hs, hmem, hname⟩ := mem_of_ledger hr
    exact ⟨s, hs, r, hmem, hname, hhash⟩

/-- **Undisturbed processes lose and resurrect nothing.** -/
theorem undisturbed_ledger_holds {ι : Type} [DecidableEq ι] (c₀ : Option SandboxState)
    (hdistinct : NamesDistinct c₀) (s : SharedCell.State SandboxState StoreRequest StoreReply ι)
    (h : Reach (Start c₀) (Step applyRequest) Undisturbed s) : LedgerHolds s.log s.cell :=
  ledgerHolds_of_replay ⟨hdistinct, replay_of_reach h⟩

/-- Processes that have yet to work through their requests. -/
def waiting {ι : Type} (c : Option SandboxState) (todo : ι → List StoreRequest) :
    SharedCell.State SandboxState StoreRequest StoreReply ι where
  cell := c
  procs := fun i => { todo := todo i }
  log := []

theorem reach_waiting {ι : Type} [DecidableEq ι] (c : Option SandboxState)
    (todo : ι → List StoreRequest)
    {ok : SharedCell.State SandboxState StoreRequest StoreReply ι → SharedCell.Action ι → Prop} :
    Reach (Start c) (Step applyRequest) ok (waiting c todo) :=
  .start ⟨rfl, rfl, fun _ => rfl⟩

/-- The record of a sandbox made by the mac mechanism. -/
def sampleRecord (id name : String) : SandboxRecord where
  id := id
  name := name
  mechanism := .mac
  runtimeId := "mac:/s/mac/instances/" ++ name ++ "/profile.sb"
  policyHash := "h"
  workdir := osString "/w"
  createdAt := 0
  proxyPort := none
  logPath := none
  ephemeral := false

/-- Two processes that open the store; one makes a sandbox and sets its policy, the other makes
    two and removes the first. -/
def twoShifts : Bool → List StoreRequest
  | true => [.openStore, .insert (sampleRecord "1" "a") "", .touch "a", .updatePolicy "a" "h'"]
  | false => [.openStore, .insert (sampleRecord "2" "b") "", .insert (sampleRecord "3" "c") "",
      .remove "b"]

/-- They take turns; where they overlap, one of them has failed before the other saves. -/
def takeTurns : List (Action Bool) :=
  [.load true, .save true, .finish false, .load true, .save true, .load false, .load true, .fail true,
    .save false, .load true, .save true, .load false, .save false, .load false, .save false]

theorem undisturbed_shifts :
    ∃ s : SharedCell.State SandboxState StoreRequest StoreReply Bool, s.Finished ∧
      s.log.length = 6 ∧ LedgerHolds s.log s.cell ∧
      s.cell = some ⟨some "c", [(sampleRecord "1" "a").withHash "h'", sampleRecord "3" "c"]⟩ := by
  have hrun : ∃ s, runQuiet? applyRequest (waiting none twoShifts) takeTurns = some s ∧
      s.Finished ∧ s.log.length = 6 ∧
      s.cell = some ⟨some "c", [(sampleRecord "1" "a").withHash "h'", sampleRecord "3" "c"]⟩ := by
    refine ⟨_, rfl, ?_, rfl, rfl⟩
    intro i
    cases i <;> exact ⟨rfl, rfl⟩
  obtain ⟨s, hs, hfinished, hlength, hcell⟩ := hrun
  exact ⟨s, hfinished, hlength, undisturbed_ledger_holds none (fun _ h => nomatch h) s
    (reach_of_runQuiet? (reach_waiting _ _) hs), hcell⟩

/-- Two processes that each insert a sandbox. -/
def twoInserts : Bool → List StoreRequest
  | true => [.insert (sampleRecord "1" "a") ""]
  | false => [.insert (sampleRecord "2" "b") ""]

/-- Both load the index before either saves it: the second save drops the first record. -/
theorem interleaved_inserts_lose_record :
    ∃ s : SharedCell.State SandboxState StoreRequest StoreReply Bool,
      Reach (Start (some {})) (Step applyRequest) Anyhow s ∧ s.Finished ∧
      ¬ LedgerHolds s.log s.cell := by
  have hrun : ∃ s, run? applyRequest (waiting (some {}) twoInserts)
      [.load true, .load false, .save true, .save false] = some s ∧
      s.Finished ∧ s.cell = some ⟨some "b", [sampleRecord "2" "b"]⟩ ∧
      s.log = [(.insert (sampleRecord "1" "a") "", .inserted (sampleRecord "1" "a")),
        (.insert (sampleRecord "2" "b") "", .inserted (sampleRecord "2" "b"))] := by
    refine ⟨_, rfl, ?_, rfl, rfl⟩
    intro i
    cases i <;> exact ⟨rfl, rfl⟩
  obtain ⟨s, hs, hfinished, hcell, hlog⟩ := hrun
  refine ⟨s, reach_of_run? (reach_waiting _ _) hs, hfinished, ?_⟩
  intro h
  obtain ⟨t, ht, r, hr, hash, rfl⟩ := h.inserted_present [] _ (sampleRecord "1" "a") _ hlog (by simp)
  rw [hcell] at ht
  obtain rfl := Option.some.inj ht
  have hname : "a" = "b" := congrArg SandboxRecord.name (List.mem_singleton.mp hr)
  exact absurd hname (by decide)

/-! ## Any interleaving -/

/-- The ledger files each record under its name. -/
theorem named_step {rep : StoreReply} {m m' : Ledger} (hstep : LedgerStep m rep m')
    (h : ∀ n r, m n = some r → r.name = n) (n : String) (r : SandboxRecord)
    (hr : m' n = some r) : r.name = n := by
  cases rep with
  | opened =>
    rw [hstep.2] at hr
    exact h n r hr
  | inserted r₁ =>
    obtain ⟨-, rfl⟩ := hstep
    rw [Function.update_apply] at hr
    split at hr
    · rename_i hn
      obtain rfl := Option.some.inj hr
      exact hn.symm
    · exact h n r hr
  | removed r₁ =>
    obtain ⟨-, rfl⟩ := hstep
    rw [Function.update_apply] at hr
    split at hr
    · simp at hr
    · exact h n r hr
  | updated name hash =>
    obtain ⟨-, rfl⟩ := hstep
    rw [Function.update_apply] at hr
    split at hr
    · rename_i hn
      obtain ⟨r₁, hr₁, rfl⟩ := Option.map_eq_some_iff.mp hr
      exact (h name r₁ hr₁).trans hn.symm
    · exact h n r hr
  | touched name =>
    rw [show m' = m from hstep] at hr
    exact h n r hr
  | failed e => exact hstep.elim

/-- Where a record comes from: the index at the start or an insertion of the log, its policy
    hash from there or from an update of its name. -/
def HasSource (c₀ : Option SandboxState) (log : StoreLog) (r : SandboxRecord) : Prop :=
  (∃ hash, ledger c₀ r.name = some (r.withHash hash) ∨
    ∃ k, (k, StoreReply.inserted (r.withHash hash)) ∈ log) ∧
  (ledger c₀ r.name = some r ∨ (∃ k, (k, StoreReply.inserted r) ∈ log) ∨
    ∃ k, (k, StoreReply.updated r.name r.policyHash) ∈ log)

theorem hasSource_step {c₀ : Option SandboxState} {log : StoreLog} {k : StoreRequest}
    {rep : StoreReply} {m m' : Ledger} (hmem : (k, rep) ∈ log) (hstep : LedgerStep m rep m')
    (hnamed : ∀ n r, m n = some r → r.name = n)
    (h : ∀ n r, m n = some r → HasSource c₀ log r) (n : String) (r : SandboxRecord)
    (hr : m' n = some r) : HasSource c₀ log r := by
  cases rep with
  | opened =>
    rw [hstep.2] at hr
    exact h n r hr
  | inserted r₁ =>
    obtain ⟨-, rfl⟩ := hstep
    rw [Function.update_apply] at hr
    split at hr
    · obtain rfl := Option.some.inj hr
      exact ⟨⟨r₁.policyHash, Or.inr ⟨k, hmem⟩⟩, Or.inr (Or.inl ⟨k, hmem⟩)⟩
    · exact h n r hr
  | removed r₁ =>
    obtain ⟨-, rfl⟩ := hstep
    rw [Function.update_apply] at hr
    split at hr
    · simp at hr
    · exact h n r hr
  | updated name hash =>
    obtain ⟨-, rfl⟩ := hstep
    rw [Function.update_apply] at hr
    split at hr
    · obtain ⟨r₁, hr₁, rfl⟩ := Option.map_eq_some_iff.mp hr
      obtain ⟨hrecord, -⟩ := h name r₁ hr₁
      obtain rfl := hnamed name r₁ hr₁
      exact ⟨hrecord, Or.inr (Or.inr ⟨k, hmem⟩)⟩
    · exact h n r hr
  | touched name =>
    rw [show m' = m from hstep] at hr
    exact h n r hr
  | failed e => exact hstep.elim

/-- What the index is after any interleaving: the result of some of the operations that
    returned `Ok`, the last one among them, as if no others had been made. -/
structure ExplainedBy (c₀ : Option SandboxState) (log kept : StoreLog)
    (c : Option SandboxState) : Prop where
  sublist : kept.Sublist log
  last : kept.getLast? = log.getLast?
  replay : Replay applyRequest c₀ kept c
  distinct : NamesDistinct c
  holds : LedgerHolds kept c
  sources : ∀ s, c = some s → ∀ r ∈ s.sandboxes, HasSource c₀ kept r

/-- **Overlapping processes lose whole operations and nothing else.** -/
theorem interleaved_index_explained {ι : Type} [DecidableEq ι] (c₀ : Option SandboxState)
    (hdistinct : NamesDistinct c₀) (s : SharedCell.State SandboxState StoreRequest StoreReply ι)
    (h : Reach (Start c₀) (Step applyRequest) Anyhow s) :
    ∃ kept, ExplainedBy c₀ s.log kept s.cell := by
  obtain ⟨kept, hsub, hlast, hreplay⟩ := kept_of_reach h
  have hserial : DistinctReplay c₀ kept s.cell := ⟨hdistinct, hreplay⟩
  refine ⟨kept, hsub, hlast, hreplay, hserial.distinct_after, ledgerHolds_of_replay hserial, ?_⟩
  have hstart : (∀ n r, ledger c₀ n = some r → r.name = n) ∧
      ∀ n r, ledger c₀ n = some r → HasSource c₀ kept r := by
    refine ⟨fun n r hr => (mem_of_ledger hr).choose_spec.2.2, fun n r hr => ?_⟩
    obtain ⟨-, -, -, rfl⟩ := mem_of_ledger hr
    exact ⟨⟨r.policyHash, Or.inl hr⟩, Or.inl hr⟩
  obtain ⟨hafter, -, hsource⟩ := hserial.invariant
    (fun m => (∀ n r, m n = some r → r.name = n) ∧ ∀ n r, m n = some r → HasSource c₀ kept r)
    hstart fun k rep m m' hmem hstep hm =>
      ⟨named_step hstep hm.1, hasSource_step hmem hstep hm.1 hm.2⟩
  intro t ht r hr
  have hnames : t.names.Nodup := hafter t ht
  exact hsource r.name r (by rw [ledger, ht]; exact SandboxState.named_of_mem hnames hr)

/-- Two processes insert and overlap: the later save stands alone. -/
theorem interleaved_inserts_explained :
    ∃ s : SharedCell.State SandboxState StoreRequest StoreReply Bool,
      s.cell = some ⟨some "b", [sampleRecord "2" "b"]⟩ ∧ s.log.length = 2 ∧
      ∃ kept, ExplainedBy (some {}) s.log kept s.cell := by
  have hrun : ∃ s, run? applyRequest (waiting (some {}) twoInserts)
      [.load true, .load false, .save true, .save false] = some s ∧
      s.cell = some ⟨some "b", [sampleRecord "2" "b"]⟩ ∧ s.log.length = 2 :=
    ⟨_, rfl, rfl, rfl⟩
  obtain ⟨s, hs, hcell, hlength⟩ := hrun
  refine ⟨s, hcell, hlength, interleaved_index_explained (some {}) ?_ s
    (reach_of_run? (reach_waiting _ _) hs)⟩
  intro t ht
  obtain rfl := Option.some.inj ht
  exact List.nodup_nil

end SimpleSandbox
