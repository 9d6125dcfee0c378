import SimpleSandbox.CommandRuns

/-!
# Names as keys

A lookup takes the first record whose name or id is the key, and an insertion compares names
with names only.  A name resolves to its own record as long as no name is the id of another
record; drawn ids never are names, so this can only go wrong where a sandbox is created under
the id of a live one.
-/

namespace SimpleSandbox

open OsPath FileSystem Effect World

/-- No key means two records. -/
structure KeysSeparate (s : SandboxState) : Prop where
  names : s.names.Nodup
  ids : ∀ r ∈ s.sandboxes, ∀ r' ∈ s.sandboxes, r.id = r'.name → r.name = r'.name

namespace KeysSeparate

variable {s s' : SandboxState}

theorem eq_of_answersTo (hs : KeysSeparate s) {r x : SandboxRecord} (hr : r ∈ s.sandboxes)
    (hx : x ∈ s.sandboxes) (h : x.answersTo r.name = true) : x = r := by
  have hname : x.name = r.name := by
    have hkey : x.name = r.name ∨ x.id = r.name := by simpa [SandboxRecord.answersTo] using h
    rcases hkey with hname | hid
    · exact hname
    · exact hs.ids x hx r hr hid
  exact List.inj_on_of_nodup_map hs.names hx hr hname

theorem answersTo_self (r : SandboxRecord) : r.answersTo r.name = true := by
  simp [SandboxRecord.answersTo]

/-! ### What an operation keeps -/

theorem empty : KeysSeparate {} := ⟨List.nodup_nil, fun _ h => (nomatch h)⟩

theorem sublist (hs : KeysSeparate s) (h : s'.sandboxes.Sublist s.sandboxes) : KeysSeparate s' where
  names := hs.names.sublist (h.map _)
  ids := fun r hr r' hr' => hs.ids r (h.subset hr) r' (h.subset hr')

theorem touch (hs : KeysSeparate s) (n : String) : KeysSeparate (s.touch n) := ⟨hs.names, hs.ids⟩

theorem remove (hs : KeysSeparate s) {key : String} {r : SandboxRecord}
    (h : s.remove key = .ok (r, s')) : KeysSeparate s' :=
  hs.sublist (SandboxState.sandboxes_of_remove h)

/-- A changed record has the name and the id of the one it replaces. -/
theorem exists_of_mem_modifyNamed {name hash : String} {l : List SandboxRecord} {r : SandboxRecord}
    (h : r ∈ SandboxState.modifyNamed name (·.withHash hash) l) :
    ∃ r₀ ∈ l, r.name = r₀.name ∧ r.id = r₀.id := by
  rcases SandboxState.mem_modifyNamed h with hold | ⟨r₀, hr₀, rfl⟩
  · exact ⟨r, hold, rfl, rfl⟩
  · exact ⟨r₀, hr₀, rfl, rfl⟩

theorem updatePolicy (hs : KeysSeparate s) {name hash : String}
    (h : s.updatePolicy name hash = .ok s') : KeysSeparate s' where
  names := by
    rw [SandboxState.names_updatePolicy h]
    exact hs.names
  ids := by
    obtain ⟨-, rfl⟩ := SandboxState.updatePolicy_eq_ok_iff.mp h
    intro r hr r' hr' hid
    obtain ⟨r₀, hr₀, hname, hid₀⟩ := exists_of_mem_modifyNamed hr
    obtain ⟨r₀', hr₀', hname', -⟩ := exists_of_mem_modifyNamed hr'
    rw [hname, hname']
    exact hs.ids r₀ hr₀ r₀' hr₀' (by rw [← hid₀, hid, hname'])

/-- A new record may take any name that is no id, and any id that is no name. -/
theorem insert (hs : KeysSeparate s) {r r' : SandboxRecord} {uuid : String}
    (h : s.insert r uuid = .ok (r', s')) (hname : ∀ x ∈ s.sandboxes, x.id ≠ r'.name)
    (hid : ∀ x ∈ s.sandboxes, x.name ≠ r'.id) : KeysSeparate s' where
  names := SandboxState.nodup_insert hs.names h
  ids := by
    intro x hx y hy hkey
    rcases (SandboxState.mem_insert_iff h).mp hx with hold | hnew
    · rcases (SandboxState.mem_insert_iff h).mp hy with hold' | hnew'
      · exact hs.ids x hold y hold' hkey
      · rw [hnew'] at hkey
        exact absurd hkey (hname x hold)
    · rw [hnew] at hkey ⊢
      rcases (SandboxState.mem_insert_iff h).mp hy with hold' | hnew'
      · exact absurd hkey.symm (hid y hold')
      · rw [hnew']

/-! ### What it gives -/

theorem find_eq (hs : KeysSeparate s) {r : SandboxRecord} (hr : r ∈ s.sandboxes) :
    s.sandboxes.find? (·.answersTo r.name) = some r := by
  cases hfind : s.sandboxes.find? (·.answersTo r.name) with
  | none =>
    have hno := List.find?_eq_none.mp hfind r hr
    exact absurd (answersTo_self r) hno
  | some x =>
    have hx := List.mem_of_find?_eq_some hfind
    have hkey : x.answersTo r.name = true := by simpa using List.find?_some hfind
    rw [hs.eq_of_answersTo hr hx hkey]

theorem get_eq (hs : KeysSeparate s) {r : SandboxRecord} (hr : r ∈ s.sandboxes) :
    s.get r.name = .ok r := by
  rw [SandboxState.get, hs.find_eq hr]

theorem getOrLast_none_eq (hs : KeysSeparate s) {r : SandboxRecord} (hr : r ∈ s.sandboxes)
    (hlast : s.lastUsed = some r.name) : s.getOrLast none = .ok r := by
  rw [SandboxState.getOrLast, hlast, Option.bind_some, hs.find_eq hr]

/-- Removal by its name takes out exactly the record. -/
theorem remove_eq (hs : KeysSeparate s) {r : SandboxRecord} (hr : r ∈ s.sandboxes) :
    ∃ before rest lastUsed, s.sandboxes = before ++ r :: rest ∧
      s.remove r.name = .ok (r, ⟨lastUsed, before ++ rest⟩) := by
  obtain ⟨hkey, before, rest, hsplit, hbefore⟩ :=
    List.find?_eq_some_iff_append.mp (hs.find_eq hr)
  refine ⟨before, rest, _, hsplit, SandboxState.remove_eq_ok_iff.mpr
    ⟨before, rest, hsplit, hkey, ?_, rfl⟩⟩
  intro x hx
  simpa using hbefore x hx

end KeysSeparate

/-! ## Runs -/

/-- The ids a process draws are different from every id and name in the index. -/
def Machine.DrawsFresh (M : Machine) (dir : Location) (w : World) (a : Invocation) : Prop :=
  ∀ s, M.records dir w = some s → ∀ r ∈ s.sandboxes,
    r.id ≠ a.env.uuid ∧ r.name ≠ a.env.uuid ∧ r.id ≠ a.env.insertUuid ∧ r.name ≠ a.env.insertUuid

/-- A process of a run with drawn ids. -/
def Machine.RunsFresh (M : Machine) (dir : Location) (w : World) (a : Invocation) (w' : World) :
    Prop := M.Runs dir w a w' ∧ M.DrawsFresh dir w a

/-- A sandbox is not created under the id of a live one. -/
def Machine.NameIsNoId (M : Machine) (dir : Location) (w : World) (a : Invocation) : Prop :=
  ∀ name args, a.command = .create name args → ∀ s, M.records dir w = some s →
    ∀ r ∈ s.sandboxes, r.id ≠ createName name

/-- Every name resolves to its own record. -/
structure NamesResolve (st : Store) (w : World) : Prop where
  get : ∀ s, st.index w = some s → ∀ r ∈ s.sandboxes, ∀ f : Faults, f .loadIndex = false →
    st.get f r.name w = (.ok r, w)
  getOrLast : ∀ s, st.index w = some s → ∀ r ∈ s.sandboxes, ∀ f : Faults, f .loadIndex = false →
    st.getOrLast f (some r.name) w = (.ok r, w)
  lastUsed : ∀ s, st.index w = some s → ∀ r ∈ s.sandboxes, ∀ f : Faults, f .loadIndex = false →
    s.lastUsed = some r.name → st.getOrLast f none w = (.ok r, w)
  /-- A removal fails before it changes anything or takes out exactly the record. -/
  remove : ∀ s, st.index w = some s → ∀ r ∈ s.sandboxes, ∃ before rest lastUsed,
    s.sandboxes = before ++ r :: rest ∧ ∀ f : Faults,
      (∃ w', st.remove f r.name w = (.ok r, w') ∧ st.index w' = some ⟨lastUsed, before ++ rest⟩) ∨
      ((f .loadIndex = true ∨ st.saves f ⟨lastUsed, before ++ rest⟩ w = false) ∧
        ∃ e, st.remove f r.name w = (.error e, w))

theorem namesResolve_of_keysSeparate {st : Store} {w : World}
    (h : ∀ s, st.index w = some s → KeysSeparate s) : NamesResolve st w where
  get := by
    intro s hs r hr f hf
    have hload := Store.loadIndex_of_index hf hs
    rw [Store.get, bind_of_ok hload, lift_apply, (h s hs).get_eq hr]
  getOrLast := by
    intro s hs r hr f hf
    have hload := Store.loadIndex_of_index hf hs
    rw [Store.getOrLast, bind_of_ok hload, lift_apply, SandboxState.getOrLast, (h s hs).get_eq hr]
  lastUsed := by
    intro s hs r hr f hf hlast
    have hload := Store.loadIndex_of_index hf hs
    rw [Store.getOrLast, bind_of_ok hload, lift_apply, (h s hs).getOrLast_none_eq hr hlast]
  remove := by
    intro s hs r hr
    obtain ⟨before, rest, lastUsed, hsplit, hremove⟩ := (h s hs).remove_eq hr
    refine ⟨before, rest, lastUsed, hsplit, fun f => ?_⟩
    rcases Store.remove_cases st f r.name w with ⟨s₁, r₁, s₁', -, hs₁, hop, -, hrun⟩ | ⟨e, hrun⟩
    · obtain rfl := Option.some.inj (hs.symm.trans hs₁)
      rw [hremove] at hop
      obtain ⟨rfl, rfl⟩ := Prod.mk.inj (Except.ok.inj hop)
      refine Or.inl ⟨_, hrun, ?_⟩
      rw [Store.index_dropPolicy, Store.index_withIndex]
    · refine Or.inr ⟨?_, e, hrun⟩
      by_contra hnot
      have hf : f .loadIndex = false := by
        by_contra hf
        exact hnot (Or.inl (by simpa using hf))
      have hsave : st.saves f ⟨lastUsed, before ++ rest⟩ w = true := by
        by_contra hsave
        exact hnot (Or.inr (by simpa using hsave))
      have hmodify : st.modify f (·.remove r.name) w =
          (.ok r, st.withIndex ⟨lastUsed, before ++ rest⟩ w) :=
        Store.modify_eq_ok hf hs hremove hsave
      rw [Store.remove_eq, bind_of_ok hmodify] at hrun
      exact nomatch hrun

/-- One process keeps the keys separate. -/
theorem keysSeparate_step {M : Machine} {dir : Location} {w w' : World} {a : Invocation}
    (hinv : ∀ s, M.records dir w = some s → KeysSeparate s) (hname : M.NameIsNoId dir w a)
    (hstep : M.RunsFresh dir w a w') : ∀ s, M.records dir w' = some s → KeysSeparate s := by
  obtain ⟨hruns, hdraws⟩ := hstep
  obtain ⟨c, hopens, hindex⟩ := hruns.indexStep
  have hc : ∀ s, c = some s → KeysSeparate s := by
    rintro s rfl
    rcases hopens with hsame | ⟨-, hfirst⟩
    · exact hinv s hsame.symm
    · rw [Option.some.inj hfirst]
      exact KeysSeparate.empty
  have hold : ∀ s, c = some s → ∀ r ∈ s.sandboxes, M.records dir w = some s := by
    rintro s rfl r hr
    rcases hopens with hsame | ⟨-, hfirst⟩
    · exact hsame.symm
    · rw [Option.some.inj hfirst] at hr
      exact nomatch hr
  generalize hcmd : a.command = cmd at hindex
  generalize M.records dir w' = c' at hindex
  rintro s' rfl
  cases hindex with
  | keep => exact hc s' rfl
  | @create name args p s _ _ hcreated =>
    obtain ⟨r, r', hinsert, hn, hid, -⟩ := hcreated
    have hr'name : r'.name = createName name := by
      rw [SandboxState.name_of_insert hinsert, hn]
    refine (hc s rfl).insert hinsert ?_ ?_
    · intro x hx
      rw [hr'name]
      exact hname name args hcmd s (hold s rfl x hx) x hx
    · intro x hx
      obtain ⟨-, hfresh, -, hfresh'⟩ := hdraws s (hold s rfl x hx) x hx
      obtain ⟨-, hr', -⟩ := SandboxState.insert_eq_ok_iff.mp hinsert
      rw [hr']
      split
      · exact hfresh'
      · rw [hid]
        exact hfresh
  | touch => exact (hc _ rfl).touch _
  | update hr h => exact (hc _ rfl).updatePolicy h
  | remove h => exact (hc _ rfl).remove h

/-- **Names resolve** in every run in which no sandbox is created under the id of a live
    one. -/
theorem names_resolve (M : Machine) (dir : Location) (w : World)
    (h : Reach (M.Fresh dir) (M.RunsFresh dir) (M.NameIsNoId dir) w) :
    NamesResolve M.store (w.enter dir) := by
  apply namesResolve_of_keysSeparate
  refine Machine.index_of_reach KeysSeparate ?_ h
  intro w a w' hinv hok hstep
  exact keysSeparate_step hinv hok hstep

/-- After two sandboxes are made, whose names and ids are all different. -/
theorem names_resolve_two :
    NamesResolve smallMachine.store
      ((smallMachine.after (smallMachine.after emptyWorld (smallCreate .mac "a" "u"))
        (smallCreate .mac "b" "v")).enter []) := by
  have hnone := smallMachine.records_of_fresh [] fresh_emptyWorld
  have hfirst : Reach (smallMachine.Fresh []) (smallMachine.RunsFresh [])
      (smallMachine.NameIsNoId []) (smallMachine.after emptyWorld (smallCreate .mac "a" "u")) := by
    refine .next (.start fresh_emptyWorld) ?_ ⟨runs_after emptyWorld, ?_⟩
    · intro name args _ s hs
      rw [hnone] at hs
      exact nomatch hs
    · intro s hs
      rw [hnone] at hs
      exact nomatch hs
  refine names_resolve smallMachine [] _ (.next hfirst ?_ ⟨runs_after _, ?_⟩)
  · intro name args hcommand s hs
    rw [records_first] at hs
    obtain rfl := Option.some.inj hs
    obtain ⟨rfl, -⟩ := Command.create.inj hcommand
    decide
  · intro s hs
    rw [records_first] at hs
    obtain rfl := Option.some.inj hs
    decide

/-- `create --name a`, which draws the id `u`, and then `create --name u`. -/
def clashWorld : World :=
  smallMachine.after (smallMachine.after emptyWorld (smallCreate .mac "a" "u"))
    (smallCreate .mac "u" "v")

theorem records_clashWorld :
    smallMachine.records [] clashWorld =
      some ⟨some "u", [smallRecord "a" "u", smallRecord "u" "v"]⟩ := by decide

/-- A name that is the id of another sandbox resolves to that one. -/
theorem name_resolves_to_other :
    ∃ w, Reach (smallMachine.Fresh []) (smallMachine.RunsFresh []) (fun _ _ => True) w ∧
      ¬ NamesResolve smallMachine.store (w.enter []) := by
  refine ⟨clashWorld, .next (.next (.start fresh_emptyWorld) trivial ⟨runs_after _, ?_⟩) trivial
    ⟨runs_after _, ?_⟩, ?_⟩
  · intro s hs
    rw [smallMachine.records_of_fresh [] fresh_emptyWorld] at hs
    exact nomatch hs
  · intro s hs
    rw [records_first] at hs
    obtain rfl := Option.some.inj hs
    decide
  · intro h
    have hget := h.getOrLast _ records_clashWorld (smallRecord "u" "v") (by decide) noFaults rfl
    have hload := Store.loadIndex_of_index (f := noFaults) rfl records_clashWorld
    rw [Store.getOrLast, bind_of_ok hload, lift_apply] at hget
    have hrecord := congrArg Except.toOption (Prod.mk.inj hget).1
    revert hrecord
    decide

end SimpleSandbox
