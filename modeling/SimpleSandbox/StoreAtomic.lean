import SimpleSandbox.StoreSpec

/-!
# Failing store operations

What a store operation that returns an error leaves behind.  Four of the five operations make
their only change by their last fallible write.  `update_policy` writes the policy of the name
before it looks the name up, so a failure of the second half leaves the new policy in place.
-/

namespace SimpleSandbox

open OsPath FileSystem Effect World

/-- The operations of a store that change files, with their arguments. -/
inductive StoreOp where
  | insert (record : SandboxRecord) (uuid : String)
  | updatePolicy (name : String) (policy : SandboxPolicy)
  | remove (key : String)
  | touchLastUsed (name : String)
  | savePolicy (name : String) (policy : SandboxPolicy)

namespace StoreOp

/-- The operation without its result. -/
def run (st : Store) (ext : Externals) (f : Faults) : StoreOp → Effect World StateError Unit
  | .insert record uuid => st.insert f record uuid >>= fun _ => pure ()
  | .updatePolicy name p => st.updatePolicy ext f name p
  | .remove key => st.remove f key >>= fun _ => pure ()
  | .touchLastUsed name => st.touchLastUsed f name
  | .savePolicy name p => st.savePolicy ext f name p >>= fun _ => pure ()

end StoreOp

namespace Store

/-- `index.json` and every file under `policies/` are what they were. -/
structure FilesKept (st : Store) (w w' : World) : Prop where
  index : w'.fileAt (st.indexAt w.fs.cwd) = w.fileAt (st.indexAt w.fs.cwd)
  policies : ∀ q, StrictlyBeneath (st.policiesAt w.fs.cwd) q → w'.fileAt q = w.fileAt q

theorem FilesKept.refl (st : Store) (w : World) : st.FilesKept w w := ⟨rfl, fun _ _ => rfl⟩

/-! ## Saving a policy -/

/-- Whether `save_policy` goes through. -/
def savesPolicy (st : Store) (ext : Externals) (f : Faults) (name : String) (p : SandboxPolicy)
    (w : World) : Bool :=
  (ext.toYaml p).isOk && writable f .savePolicy (st.policyPath name) w

/-- The world with the policy of a name. -/
def withPolicy (st : Store) (name : String) (p : SandboxPolicy) (w : World) : World :=
  put .savePolicy (st.policyAt w.fs.cwd name) (.policy p) w

theorem savePolicy_of_savesPolicy {st : Store} {ext : Externals} {f : Faults} {name : String}
    {p : SandboxPolicy} {w : World} (h : st.savesPolicy ext f name p w = true) :
    st.savePolicy ext f name p w = (.ok (st.policyPath name), st.withPolicy name p w) := by
  rw [savePolicy]
  cases hyaml : ext.toYaml p with
  | error m =>
    rw [savesPolicy, hyaml] at h
    exact absurd h Bool.false_ne_true
  | ok text =>
    have hwrite : writable f .savePolicy (st.policyPath name) w = true := by
      rw [savesPolicy, hyaml] at h
      exact h
    have hdone : (World.writeFile f .savePolicy (st.policyPath name) (.policy p)).mapError
        StateError.io w = (.ok (), st.withPolicy name p w) :=
      mapError_eq_ok_iff.mpr (writeFile_of_writable hwrite _)
    exact bind_of_ok hdone

theorem savePolicy_of_not_savesPolicy {st : Store} {ext : Externals} {f : Faults} {name : String}
    {p : SandboxPolicy} {w : World} (h : st.savesPolicy ext f name p w = false) :
    ∃ e, st.savePolicy ext f name p w = (.error e, w) := by
  rw [savePolicy]
  cases hyaml : ext.toYaml p with
  | error m => exact ⟨policyError (.yaml m), rfl⟩
  | ok text =>
    have hnot : writable f .savePolicy (st.policyPath name) w = false := by
      rw [savesPolicy, hyaml] at h
      exact h
    obtain ⟨e, he⟩ := writeFile_of_not_writable hnot (.policy p)
    have hstop : (World.writeFile f .savePolicy (st.policyPath name) (.policy p)).mapError
        StateError.io w = (.error (.io e), w) := mapError_eq_error_iff.mpr ⟨e, rfl, he⟩
    refine ⟨.io e, ?_⟩
    exact (bind_of_ok (m := lift (.ok text)) rfl).trans (bind_of_error hstop)

@[simp] theorem withPolicy_cwd (st : Store) (name : String) (p : SandboxPolicy) (w : World) :
    (st.withPolicy name p w).fs.cwd = w.fs.cwd := rfl

theorem fileAt_withPolicy (st : Store) (name : String) (p : SandboxPolicy) (w : World)
    (q : Location) :
    (st.withPolicy name p w).fileAt q =
      if q = st.policyAt w.fs.cwd name then some (.policy p) else w.fileAt q :=
  put_fileAt _ _ _ _ w

theorem fileAt_indexAt_withPolicy (st : Store) (name : String) (p : SandboxPolicy) (w : World) :
    (st.withPolicy name p w).fileAt (st.indexAt w.fs.cwd) = w.fileAt (st.indexAt w.fs.cwd) := by
  rw [fileAt_withPolicy, if_neg (st.policyAt_ne_indexAt w.fs.cwd name).symm]

theorem index_withPolicy (st : Store) (name : String) (p : SandboxPolicy) (w : World) :
    st.index (st.withPolicy name p w) = st.index w :=
  index_congr rfl (st.fileAt_indexAt_withPolicy name p w)

/-! ## The two halves of `update_policy` -/

/-- The second half goes through: the index is read, knows the name and is written again. -/
def Updates (st : Store) (f : Faults) (name : String) (w : World) : Prop :=
  f .loadIndex = false ∧ f .saveIndex = false ∧
  ∃ s, st.index w = some s ∧ name ∈ s.names ∧ s.serializable = true

/-- An index that is there can be written unless the write itself fails. -/
theorem saves_of_index {st : Store} {f : Faults} {s s' : SandboxState} {w : World}
    (hs : st.index w = some s) : st.saves f s' w = (s'.serializable && !f .saveIndex) := by
  have hfile : w.fs.fileAt (w.fs.locate st.indexPath) = some (.index s) := fileAt_of_index hs
  rw [saves, writable, canWrite_of_fileAt hfile, Bool.and_true]

/-- The second half goes through or changes nothing. -/
theorem modify_updatePolicy (st : Store) (f : Faults) (name hash : String) (w : World) :
    (st.Updates f name w ∧
      ((st.modify f fun s => (s.updatePolicy name hash).map fun s' => ((), s')) w).1 = .ok ()) ∨
    (¬ st.Updates f name w ∧
      ∃ e, (st.modify f fun s => (s.updatePolicy name hash).map fun s' => ((), s')) w =
        (.error e, w)) := by
  rcases modify_cases st f (fun s => (s.updatePolicy name hash).map fun s' => ((), s')) w with
    ⟨s, a, s', hload, hs, hop, hsave, hrun⟩ | ⟨e, hrun⟩
  · refine Or.inl ⟨?_, congrArg Prod.fst hrun⟩
    have hupdate := SandboxState.map_updatePolicy_eq_ok_iff.mp hop
    rw [saves_of_index hs, SandboxState.serializable_updatePolicy hupdate, Bool.and_eq_true] at hsave
    have hlive := (SandboxState.updatePolicy_eq_ok_iff.mp hupdate).1
    exact ⟨hload, by simpa using hsave.2, s, hs, hlive, hsave.1⟩
  · refine Or.inr ⟨?_, e, hrun⟩
    rintro ⟨hload, hsaved, s, hs, hlive, hser⟩
    obtain ⟨s', hupdate⟩ : ∃ s', s.updatePolicy name hash = .ok s' :=
      ⟨_, SandboxState.updatePolicy_eq_ok_iff.mpr ⟨hlive, rfl⟩⟩
    have hop := SandboxState.map_updatePolicy_eq_ok_iff (u := ()).mpr hupdate
    have hsave : st.saves f s' w = true := by
      rw [saves_of_index hs, SandboxState.serializable_updatePolicy hupdate, hser, hsaved]
      rfl
    rw [modify_eq_ok hload hs hop hsave] at hrun
    cases hrun

theorem updates_withPolicy (st : Store) (f : Faults) (name : String) (p : SandboxPolicy)
    (w : World) : st.Updates f name (st.withPolicy name p w) ↔ st.Updates f name w := by
  rw [Updates, Updates, index_withPolicy]

/-- `update_policy` stops before the policy is written, goes through, or stops behind it. -/
theorem updatePolicy_cases (st : Store) (ext : Externals) (f : Faults) (name : String)
    (p : SandboxPolicy) (w : World) :
    (st.savesPolicy ext f name p w = false ∧
      ∃ e, st.updatePolicy ext f name p w = (.error e, w)) ∨
    (st.Updates f name w ∧ (st.updatePolicy ext f name p w).1 = .ok ()) ∨
    (st.savesPolicy ext f name p w = true ∧ ¬ st.Updates f name w ∧
      ∃ e, st.updatePolicy ext f name p w = (.error e, st.withPolicy name p w)) := by
  rw [updatePolicy_eq, SandboxPolicy.contentHash]
  cases hyaml : ext.toYaml p with
  | error m =>
    refine Or.inl ⟨?_, policyError (.yaml m), rfl⟩
    rw [savesPolicy, hyaml]
    rfl
  | ok text =>
    change _ ∧ (∃ e, (st.savePolicy ext f name p >>= fun _ =>
      st.modify f fun s => (s.updatePolicy name (ext.sha256Hex text)).map fun s' => ((), s')) w =
        (.error e, w)) ∨ _
    cases hsaves : st.savesPolicy ext f name p w with
    | false =>
      obtain ⟨e, he⟩ := savePolicy_of_not_savesPolicy hsaves
      exact Or.inl ⟨rfl, e, bind_of_error he⟩
    | true =>
      have hsaved := savePolicy_of_savesPolicy hsaves
      have hmodify := st.modify_updatePolicy f name (ext.sha256Hex text) (st.withPolicy name p w)
      rw [updates_withPolicy] at hmodify
      rcases hmodify with ⟨hupdates, hok⟩ | ⟨hnot, e, he⟩
      · exact Or.inr (Or.inl ⟨hupdates, (congrArg Prod.fst (bind_of_ok hsaved)).trans hok⟩)
      · exact Or.inr (Or.inr ⟨rfl, hnot, e, (bind_of_ok hsaved).trans he⟩)

/-! ## Which failures keep the files -/

/-- The policy alone keeps the files if it was there before or goes elsewhere. -/
theorem filesKept_withPolicy_iff (st : Store) (name : String) (p : SandboxPolicy) (w : World) :
    st.FilesKept w (st.withPolicy name p w) ↔
      w.fileAt (st.policyAt w.fs.cwd name) = some (.policy p) ∨
      ¬ StrictlyBeneath (st.policiesAt w.fs.cwd) (st.policyAt w.fs.cwd name) := by
  constructor
  · intro h
    by_cases hin : StrictlyBeneath (st.policiesAt w.fs.cwd) (st.policyAt w.fs.cwd name)
    · have hkept := h.policies _ hin
      rw [fileAt_withPolicy, if_pos rfl] at hkept
      exact Or.inl hkept.symm
    · exact Or.inr hin
  · intro h
    refine ⟨st.fileAt_indexAt_withPolicy name p w, fun q hq => ?_⟩
    rw [fileAt_withPolicy]
    split
    · rename_i heq
      rcases h with h | h
      · rw [heq, h]
      · exact absurd (heq ▸ hq) h
    · rfl

end Store

namespace StoreOp

/-- An error of the operation finds no file changed, or cannot happen. -/
def FailsClean (st : Store) (ext : Externals) (f : Faults) (w : World) : StoreOp → Prop
  | .updatePolicy name p =>
    st.savesPolicy ext f name p w = false ∨ st.Updates f name w ∨
    w.fileAt (st.policyAt w.fs.cwd name) = some (.policy p) ∨
    ¬ StrictlyBeneath (st.policiesAt w.fs.cwd) (st.policyAt w.fs.cwd name)
  | _ => True

/-- Handing on no result keeps an error. -/
theorem unchanged_of_error {α : Type} {m : Effect World StateError α} {w : World} {e : StateError}
    (hm : (∃ a w', m w = (.ok a, w')) ∨ ∃ e, m w = (.error e, w))
    (he : ((m >>= fun _ => pure ()) w).1 = .error e) : ((m >>= fun _ => pure ()) w).2 = w := by
  rcases hm with ⟨a, w', hrun⟩ | ⟨e', hrun⟩
  · rw [bind_of_ok hrun] at he
    cases he
  · rw [bind_of_error hrun]

/-- An operation that writes last changes nothing when it fails. -/
theorem unchanged_of_fails {st : Store} {ext : Externals} {f : Faults} {w : World} {e : StateError}
    {op : StoreOp} (hop : ∀ name p, op ≠ .updatePolicy name p)
    (he : (op.run st ext f w).1 = .error e) : (op.run st ext f w).2 = w := by
  cases op with
  | insert record uuid =>
    refine unchanged_of_error ?_ he
    rw [Store.insert_eq_modify]
    rcases Store.modify_cases st f (·.insert record uuid) w with ⟨s, r, s', -, -, -, -, hrun⟩ | hrun
    · exact Or.inl ⟨r, _, hrun⟩
    · exact Or.inr hrun
  | updatePolicy name p => exact absurd rfl (hop name p)
  | remove key =>
    refine unchanged_of_error ?_ he
    rcases Store.remove_cases st f key w with ⟨s, r, s', -, -, -, -, hrun⟩ | hrun
    · exact Or.inl ⟨r, _, hrun⟩
    · exact Or.inr hrun
  | touchLastUsed name =>
    rw [run, Store.touchLastUsed_eq_modify] at he ⊢
    rcases Store.modify_cases st f (fun s => .ok ((), s.touch name)) w with
      ⟨s, u, s', -, -, -, -, hrun⟩ | ⟨e', hrun⟩
    · rw [hrun] at he
      cases he
    · rw [hrun]
  | savePolicy name p =>
    refine unchanged_of_error ?_ he
    cases hsaves : st.savesPolicy ext f name p w with
    | true => exact Or.inl ⟨_, _, Store.savePolicy_of_savesPolicy hsaves⟩
    | false => exact Or.inr (Store.savePolicy_of_not_savesPolicy hsaves)

end StoreOp

/-- **Failing store operations.**  An operation that returns an error leaves the index and the
    policies as they were, unless `update_policy` changed a policy and then could not read the
    index, did not find the name in it or could not write it. -/
theorem storeOp_atomic_iff (st : Store) (ext : Externals) (f : Faults) (w : World) (op : StoreOp) :
    (∀ e, (op.run st ext f w).1 = .error e → st.FilesKept w (op.run st ext f w).2) ↔
      op.FailsClean st ext f w := by
  by_cases hop : ∀ name p, op ≠ .updatePolicy name p
  · have hclean : op.FailsClean st ext f w := by
      cases op with
      | updatePolicy name p => exact absurd rfl (hop name p)
      | _ => trivial
    refine ⟨fun _ => hclean, fun _ e he => ?_⟩
    rw [StoreOp.unchanged_of_fails hop he]
    exact Store.FilesKept.refl st w
  · obtain ⟨name, p, rfl⟩ : ∃ name p, op = .updatePolicy name p := by
      simpa only [not_forall, not_not] using hop
    rw [StoreOp.run, StoreOp.FailsClean]
    rcases st.updatePolicy_cases ext f name p w with
      ⟨hstops, e, hrun⟩ | ⟨hupdates, hok⟩ | ⟨hsaves, hnot, e, hrun⟩
    · refine ⟨fun _ => Or.inl hstops, fun _ _ _ => ?_⟩
      rw [hrun]
      exact Store.FilesKept.refl st w
    · refine ⟨fun _ => Or.inr (Or.inl hupdates), fun _ e he => ?_⟩
      rw [hok] at he
      cases he
    · rw [hrun, hsaves, ← Store.filesKept_withPolicy_iff]
      simp only [hnot, Bool.true_eq_false, false_or]
      exact ⟨fun h => h e rfl, fun h _ _ => h⟩

/-- A store under `/s` without sandboxes. -/
def emptyStoreWorld : World where
  fs := {
    cwd := []
    node := fun q =>
      if q = [] ∨ q = [osString "s"] ∨ q = [osString "s", osString "policies"] then some .dir
      else if q = [osString "s", osString "index.json"] then some (.file (.index {}))
      else none }
  containers := []
  children := []
  journal := []

/-- `update_policy` for a name nobody has reports an error and leaves a policy behind. -/
theorem updatePolicy_leaves_policy :
    ¬ ∀ (st : Store) (ext : Externals) (f : Faults) (w : World) (op : StoreOp) (e : StateError),
      (op.run st ext f w).1 = .error e → st.FilesKept w (op.run st ext f w).2 := by
  intro h
  have hfailed := h ⟨osString "/s"⟩ ⟨fun _ => .ok "version: 1", fun _ => "00", fun _ _ _ => .ok ()⟩
    noFaults emptyStoreWorld (.updatePolicy "x" {}) (.notFound "x") rfl
  have hkept := hfailed.policies [osString "s", osString "policies", osString "x.yaml"] (by decide)
  revert hkept
  decide

end SimpleSandbox
