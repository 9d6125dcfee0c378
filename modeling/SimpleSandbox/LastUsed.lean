import SimpleSandbox.CommandRuns

/-!
# Distinct names and the last used sandbox

Four operations write `last_used`: `insert` and `remove` from the records they have in hand,
`update_policy` and `touch_last_used` from a name that their caller looked up.  Over a run of
commands the names stay distinct and `last_used` is the name of a live record, or nothing if
there is none.
-/

namespace SimpleSandbox

open OsPath FileSystem Effect World

/-- The index is in order. -/
structure WellKept (s : SandboxState) : Prop where
  distinct : s.names.Nodup
  lastUsed_none : s.lastUsed = none ↔ s.sandboxes = []
  lastUsed_live : ∀ n, s.lastUsed = some n → n ∈ s.names

namespace WellKept

variable {s s' : SandboxState}

theorem empty : WellKept {} := by
  refine ⟨List.nodup_nil, ⟨fun _ => rfl, fun _ => rfl⟩, ?_⟩
  intro n hn
  cases hn

/-- A last used name that is live, beside distinct names, is all there is to keep. -/
theorem of_live {n : String} (hdistinct : s.names.Nodup) (hlast : s.lastUsed = some n)
    (hn : n ∈ s.names) : WellKept s := by
  have hne : s.sandboxes ≠ [] := by
    intro hnil
    rw [SandboxState.names, hnil] at hn
    exact List.not_mem_nil hn
  refine ⟨hdistinct, ?_, ?_⟩
  · constructor
    · intro hnone
      rw [hlast] at hnone
      cases hnone
    · intro hnil
      exact absurd hnil hne
  · intro m hm
    rw [hlast] at hm
    rw [← Option.some.inj hm]
    exact hn

theorem insert {r r' : SandboxRecord} {uuid : String} (h : WellKept s)
    (hop : s.insert r uuid = .ok (r', s')) : WellKept s' := by
  have hnames := SandboxState.names_of_insert hop
  have hlast : s'.lastUsed = some r'.name := by
    obtain ⟨-, -, rfl⟩ := SandboxState.insert_eq_ok_iff.mp hop
    rfl
  apply of_live (SandboxState.nodup_insert h.distinct hop) hlast
  rw [hnames]
  exact List.mem_append_right _ (List.mem_singleton.mpr rfl)

theorem touch {r : SandboxRecord} (h : WellKept s) (hr : r ∈ s.sandboxes) :
    WellKept (s.touch r.name) :=
  of_live (n := r.name) h.distinct rfl (List.mem_map_of_mem hr)

theorem updatePolicy {name hash : String} (h : WellKept s)
    (hop : s.updatePolicy name hash = .ok s') : WellKept s' := by
  have hnames := SandboxState.names_updatePolicy hop
  obtain ⟨hlive, rfl⟩ := SandboxState.updatePolicy_eq_ok_iff.mp hop
  apply of_live (n := name)
  · rw [hnames]
    exact h.distinct
  · rfl
  · rw [hnames]
    exact hlive

/-- Removal repairs `last_used` only if it was the name that goes; any other name stays live. -/
theorem remove {key : String} {r : SandboxRecord} (h : WellKept s)
    (hop : s.remove key = .ok (r, s')) : WellKept s' := by
  have hdistinct := SandboxState.nodup_remove h.distinct hop
  have hr := SandboxState.mem_of_remove hop
  have hnamed := SandboxState.named_remove h.distinct hop
  obtain ⟨before, rest, -, -, -, rfl⟩ := SandboxState.remove_eq_ok_iff.mp hop
  by_cases hsame : s.lastUsed = some r.name
  · rw [if_pos hsame] at hdistinct ⊢
    cases hlast : (before ++ rest).getLast? with
    | none =>
      have hnil := List.getLast?_eq_none_iff.mp hlast
      refine ⟨hdistinct, ⟨fun _ => hnil, fun _ => rfl⟩, ?_⟩
      intro n hn
      cases hn
    | some x =>
      exact of_live (n := x.name) hdistinct rfl
        (List.mem_map_of_mem (List.mem_of_getLast? hlast))
  · rw [if_neg hsame] at hdistinct hnamed ⊢
    cases hlast : s.lastUsed with
    | none =>
      have hnil := h.lastUsed_none.mp hlast
      rw [hnil] at hr
      exact absurd hr List.not_mem_nil
    | some n =>
      have hne : n ≠ r.name := by
        rintro rfl
        exact hsame hlast
      have hlive := h.lastUsed_live n hlast
      -- the record of the last used name is not the one that goes
      have hkept := hnamed n
      rw [if_neg hne] at hkept
      rw [hlast] at hdistinct hkept
      refine of_live (n := n) hdistinct rfl ?_
      by_contra hgone
      rw [SandboxState.named_eq_none_iff.mpr hgone] at hkept
      exact SandboxState.named_eq_none_iff.mp hkept.symm hlive

/-- A lookup without a name finds a record wherever there is one. -/
theorem nil_of_getOrLast_error {e : StateError} (he : s.getOrLast none = .error e) :
    s.sandboxes = [] := by
  unfold SandboxState.getOrLast at he
  split at he
  · rename_i n hname
    cases hname
  · split at he
    · cases he
    · split at he
      · cases he
      · rename_i hlast
        exact List.getLast?_eq_none_iff.mp hlast

end WellKept

namespace Machine

variable {M : Machine} {dir : Location}

/-- A host whose store has no index yet, or the first one. -/
def EmptyIndex (M : Machine) (dir : Location) (w : World) : Prop :=
  M.records dir w = none ∨ M.records dir w = some {}

theorem wellKept_opens {c c₁ : Option SandboxState} (hopens : Opens c c₁)
    (hc : ∀ s, c = some s → WellKept s) : ∀ s, c₁ = some s → WellKept s := by
  intro s hs
  rcases hopens with hsame | ⟨-, hfirst⟩
  · exact hc s (hsame ▸ hs)
  · rw [hs] at hfirst
    rw [Option.some.inj hfirst]
    exact WellKept.empty

/-- **One command keeps the index in order.** -/
theorem wellKept_indexStep {env : ProcessEnv} {cwd : Location} {cmd : Command}
    {c c' : Option SandboxState} (hstep : IndexStep M env cwd cmd c c')
    (hc : ∀ s, c = some s → WellKept s) : ∀ s, c' = some s → WellKept s := by
  rintro s rfl
  cases hstep with
  | keep => exact hc s rfl
  | create hp hcreated =>
    obtain ⟨r, r', hinsert, -⟩ := hcreated
    exact (hc _ rfl).insert hinsert
  | touch hget => exact (hc _ rfl).touch (SandboxState.mem_of_getOrLast hget)
  | update hget hupdate => exact (hc _ rfl).updatePolicy hupdate
  | remove hremove => exact (hc _ rfl).remove hremove

theorem wellKept_of_reach {ok : World → Invocation → Prop} {w : World}
    (h : Reach (M.EmptyIndex dir) (M.Runs dir) ok w) :
    ∀ s, M.records dir w = some s → WellKept s := by
  refine Reach.invariant (fun w => ∀ s, M.records dir w = some s → WellKept s) ?_ ?_ h
  · intro w hw s hs
    rcases hw with hnone | hfirst
    · rw [hs] at hnone
      cases hnone
    · rw [hs] at hfirst
      rw [Option.some.inj hfirst]
      exact WellKept.empty
  · intro w a w' hinv _ hstep
    obtain ⟨c, hopens, hindex⟩ := hstep.indexStep
    exact wellKept_indexStep hindex (wellKept_opens hopens hinv)

end Machine

/-- **The index over whole runs.**  After any commands on a store that began empty the names are
    distinct, `last_used` is a live name or nothing if no sandbox lives, and a lookup without a
    name fails on an index that can be read only if no sandbox lives. -/
theorem index_wellKept (M : Machine) (dir : Location) (w : World)
    (h : Reach (M.EmptyIndex dir) (M.Runs dir) (fun _ _ => True) w) :
    ∀ s, M.records dir w = some s → WellKept s ∧
      ∀ f e, f .loadIndex = false → (M.store.getOrLast f none (w.enter dir)).1 = .error e →
        s.sandboxes = [] := by
  intro s hs
  refine ⟨Machine.wellKept_of_reach h s hs, fun f e hf he => ?_⟩
  have hload : M.store.loadIndex f (w.enter dir) = (.ok s, w.enter dir) :=
    Store.loadIndex_of_index hf hs
  have hrun : M.store.getOrLast f none (w.enter dir) = (s.getOrLast none, w.enter dir) :=
    bind_of_ok hload
  rw [hrun] at he
  exact WellKept.nil_of_getOrLast_error he

/-- `create --name a`, `create --name b`, then `rm b`. -/
def smallRmWorld : World :=
  smallMachine.after (smallMachine.after (smallMachine.after emptyWorld (smallCreate .mac "a" "u"))
    (smallCreate .mac "b" "v")) (smallRm "b")

/-- The last used sandbox is `a` again. -/
theorem index_wellKept_smallRm :
    WellKept ⟨some "a", [smallRecord "a" "u"]⟩ ∧
      ∀ f e, f .loadIndex = false →
        (smallMachine.store.getOrLast f none (smallRmWorld.enter [])).1 = .error e →
        [smallRecord "a" "u"] = [] :=
  index_wellKept smallMachine [] smallRmWorld (.next (.next (.next
    (.start (Or.inl (smallMachine.records_of_fresh [] fresh_emptyWorld))) trivial (runs_after _))
    trivial (runs_after _)) trivial (runs_after _)) ⟨some "a", [smallRecord "a" "u"]⟩ (by decide)

end SimpleSandbox
