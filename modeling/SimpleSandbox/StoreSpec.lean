import SimpleSandbox.Store
import SimpleSandbox.Journal
import SimpleSandbox.Index

/-!
# What the store operations do

One lemma for each operation of the store: it either fails and leaves the index alone, or
replaces the index by the one the pure operation computes.  The locations of the index and
of the policy files are kept apart by their last names.
-/

namespace SimpleSandbox

open RustText OsPath FileSystem Effect World

namespace Store

/-! ## Locations -/

/-- Where the index is, for processes with working directory `dir`. -/
def indexAt (st : Store) (dir : Location) : Location := resolve dir st.indexPath

/-- Where the policy of a name is. -/
def policyAt (st : Store) (dir : Location) (name : String) : Location :=
  resolve dir (st.policyPath name)

theorem indexAt_eq (st : Store) (dir : Location) :
    st.indexAt dir = resolve dir st.root ++ [osString "index.json"] := by
  have hname : IsName (osString "index.json") := by decide
  rw [indexAt, indexPath, resolve_join, hname.resolve]

/-- The directory of the policies. -/
def policiesAt (st : Store) (dir : Location) : Location :=
  resolve dir st.root ++ [osString "policies"]

theorem policyAt_eq (st : Store) (dir : Location) (name : String) :
    st.policyAt dir name = resolve (st.policiesAt dir) (osString (name ++ ".yaml")) := by
  have hname : IsName (osString "policies") := by decide
  rw [policyAt, policyPath, resolve_join, resolve_join, hname.resolve, policiesAt]

theorem exists_policyAt (st : Store) (dir : Location) (name : String) :
    ∃ d t, st.policyAt dir name = d ++ [t ++ osString ".yaml"] := by
  rw [policyAt_eq, osString_append]
  exact exists_resolve_append _ _ (by decide) (by decide)

theorem policyAt_ne_indexAt (st : Store) (dir : Location) (name : String) :
    st.policyAt dir name ≠ st.indexAt dir := by
  obtain ⟨d, t, hpolicy⟩ := st.exists_policyAt dir name
  rw [hpolicy, indexAt_eq]
  intro h
  have hlast := congrArg (fun q => q.getLast?.bind List.getLast?) h
  simp only [List.getLast?_append] at hlast
  revert hlast
  simp [osString]

/-! ## The index of a world -/

/-- The index that the next load finds. -/
def index (st : Store) (w : World) : Option SandboxState :=
  match w.fileAt (st.indexAt w.fs.cwd) with
  | some (.index s) => some s
  | _ => none

/-- A file can be written at one place of the source. -/
def writable (f : Faults) (site : Site) (p : PathBuf) (w : World) : Bool :=
  !f site && w.fs.canWrite (w.fs.locate p)

/-- The world with one file written. -/
def put (site : Site) (q : Location) (contents : FileData) (w : World) : World :=
  w.applied site q (w.fs.set q (.file contents))

theorem writeFile_of_writable {f : Faults} {site : Site} {p : PathBuf} {w : World}
    (h : writable f site p w = true) (contents : FileData) :
    World.writeFile f site p contents w = (.ok (), put site (w.fs.locate p) contents w) := by
  have hboth : f site = false ∧ w.fs.canWrite (w.fs.locate p) = true := by
    simpa [writable] using h
  have hwrite : w.fs.write p contents = .ok (w.fs.set (w.fs.locate p) (.file contents)) :=
    write_eq_ok_iff.mpr ⟨hboth.2, rfl⟩
  simp [World.writeFile, World.change, hboth.1, hwrite, put, World.applied]

theorem writeFile_of_not_writable {f : Faults} {site : Site} {p : PathBuf} {w : World}
    (h : writable f site p w = false) (contents : FileData) :
    ∃ e, World.writeFile f site p contents w = (.error e, w) := by
  rcases change_cases f site p (·.write p contents) w with ⟨fs, hoff, hfs, -⟩ | herror
  · have hcan := (write_eq_ok_iff.mp hfs).1
    simp [writable, hoff, hcan] at h
  · exact herror

@[simp] theorem put_cwd (site : Site) (q : Location) (contents : FileData) (w : World) :
    (put site q contents w).fs.cwd = w.fs.cwd := rfl

@[simp] theorem put_containers (site : Site) (q : Location) (contents : FileData) (w : World) :
    (put site q contents w).containers = w.containers := rfl

theorem put_fileAt (site : Site) (q r : Location) (contents : FileData) (w : World) :
    (put site q contents w).fileAt r = if r = q then some contents else w.fileAt r :=
  fileAt_set w.fs q r contents

@[simp] theorem index_put_index (st : Store) (site : Site) (s : SandboxState) (w : World) :
    st.index (put site (st.indexAt w.fs.cwd) (.index s) w) = some s := by
  simp [index, put_fileAt]

/-- The index is what its file holds. -/
theorem fileAt_of_index {st : Store} {w : World} {s : SandboxState} (hs : st.index w = some s) :
    w.fileAt (st.indexAt w.fs.cwd) = some (.index s) := by
  rw [index] at hs
  split at hs
  · rename_i s₀ hfile
    rw [hfile, Option.some.inj hs]
  · cases hs

/-- Where the file is gone there is no index. -/
theorem index_of_fileAt_none {st : Store} {w : World}
    (h : w.fileAt (st.indexAt w.fs.cwd) = none) : st.index w = none := by
  rw [index, h]

theorem index_congr {st : Store} {w w' : World} (hcwd : w'.fs.cwd = w.fs.cwd)
    (h : w'.fileAt (st.indexAt w.fs.cwd) = w.fileAt (st.indexAt w.fs.cwd)) :
    st.index w' = st.index w := by
  rw [index, index, hcwd, h]

/-- Events that leave the file of the index alone leave the index. -/
theorem index_of_extends {st : Store} {P : FsEvent → Prop} {w w' : World}
    (h : Extends w.fs.cwd P w w') (hP : ∀ ev, P ev → ¬ ev.touches (st.indexAt w.fs.cwd)) :
    st.index w' = st.index w :=
  index_congr (h.cwd_eq rfl) (h.fileAt_eq rfl hP)

/-! ## Loading and saving -/

theorem loadIndex_cases (st : Store) (f : Faults) (w : World) :
    (∃ s, f .loadIndex = false ∧ st.index w = some s ∧ st.loadIndex f w = (.ok s, w)) ∨
    ((f .loadIndex = true ∨ st.index w = none) ∧ ∃ e, st.loadIndex f w = (.error e, w)) := by
  by_cases hf : f .loadIndex = true
  · refine Or.inr ⟨Or.inl hf, .io (.other "i/o error"), ?_⟩
    apply bind_of_error
    simp [World.readFile, hf, mapError]
  · have hoff : f .loadIndex = false := by simpa using hf
    have hread : ∀ data, w.fileAt (st.indexAt w.fs.cwd) = some data →
        (World.readFile f .loadIndex st.indexPath).mapError StateError.io w = (.ok data, w) := by
      intro data hdata
      have hok : w.fs.read st.indexPath = .ok data := read_eq_ok_iff.mpr hdata
      simp [World.readFile, hoff, hok, mapError]
    cases hfile : w.fileAt (st.indexAt w.fs.cwd) with
    | none =>
      refine Or.inr ⟨Or.inr (by rw [index, hfile]), ?_⟩
      cases hr : w.fs.read st.indexPath with
      | ok data =>
        have hsome := read_eq_ok_iff.mp hr
        rw [show w.fs.fileAt (w.fs.locate st.indexPath) = none from hfile] at hsome
        simp at hsome
      | error e =>
        refine ⟨.io e, bind_of_error ?_⟩
        simp [World.readFile, hoff, hr, mapError]
    | some data =>
      cases data with
      | index s =>
        refine Or.inl ⟨s, hoff, by rw [index, hfile], ?_⟩
        exact bind_of_ok (hread _ hfile)
      | policy p =>
        exact Or.inr ⟨Or.inr (by rw [index, hfile]), _, bind_of_ok (hread _ hfile)⟩
      | text t =>
        exact Or.inr ⟨Or.inr (by rw [index, hfile]), _, bind_of_ok (hread _ hfile)⟩

theorem loadIndex_of_index {st : Store} {f : Faults} {w : World} {s : SandboxState}
    (hf : f .loadIndex = false) (hs : st.index w = some s) : st.loadIndex f w = (.ok s, w) := by
  rcases loadIndex_cases st f w with ⟨s', -, hs', hrun⟩ | ⟨hbad | hbad, -⟩
  · rw [hs] at hs'
    rw [hrun, Option.some.inj hs']
  · simp [hf] at hbad
  · simp [hs] at hbad

/-- Loading never changes the world. -/
theorem loadIndex_snd (st : Store) (f : Faults) (w : World) : (st.loadIndex f w).2 = w := by
  rcases loadIndex_cases st f w with ⟨s, -, -, hrun⟩ | ⟨-, e, hrun⟩ <;> rw [hrun]

/-- Whether a save goes through. -/
def saves (st : Store) (f : Faults) (s : SandboxState) (w : World) : Bool :=
  s.serializable && writable f .saveIndex st.indexPath w

theorem saveIndex_of_saves {st : Store} {f : Faults} {s : SandboxState} {w : World}
    (h : st.saves f s w = true) :
    st.saveIndex f s w = (.ok (), put .saveIndex (st.indexAt w.fs.cwd) (.index s) w) := by
  have hboth : s.serializable = true ∧ writable f .saveIndex st.indexPath w = true := by
    simpa [saves] using h
  rw [saveIndex, writeIndex, if_pos hboth.1, mapError_eq_ok_iff]
  exact writeFile_of_writable hboth.2 _

theorem saveIndex_of_not_saves {st : Store} {f : Faults} {s : SandboxState} {w : World}
    (h : st.saves f s w = false) : ∃ e, st.saveIndex f s w = (.error e, w) := by
  rw [saveIndex, writeIndex]
  by_cases hser : s.serializable = true
  · have hnot : writable f .saveIndex st.indexPath w = false := by simpa [saves, hser] using h
    obtain ⟨e, he⟩ := writeFile_of_not_writable hnot (.index s)
    exact ⟨.io e, by rw [if_pos hser, mapError_eq_error_iff]; exact ⟨e, rfl, he⟩⟩
  · exact ⟨.json, by rw [if_neg hser]; rfl⟩

/-! ## Load, change, save -/

variable {α : Type}

/-- The shape of every operation that changes the index. -/
def modify (st : Store) (f : Faults)
    (op : SandboxState → Except StateError (α × SandboxState)) : Effect World StateError α := do
  let s ← st.loadIndex f
  let (a, s') ← lift (op s)
  st.saveIndex f s'
  pure a

/-- The world with a new index. -/
def withIndex (st : Store) (s : SandboxState) (w : World) : World :=
  put .saveIndex (st.indexAt w.fs.cwd) (.index s) w

theorem index_withIndex (st : Store) (s : SandboxState) (w : World) :
    st.index (st.withIndex s w) = some s := index_put_index st .saveIndex s w

theorem modify_eq_ok {st : Store} {f : Faults}
    {op : SandboxState → Except StateError (α × SandboxState)} {w : World} {s s' : SandboxState}
    {a : α} (hf : f .loadIndex = false) (hs : st.index w = some s) (hop : op s = .ok (a, s'))
    (hsave : st.saves f s' w = true) : st.modify f op w = (.ok a, st.withIndex s' w) := by
  have hload := loadIndex_of_index hf hs
  rw [modify, bind_of_ok hload, hop, lift_ok_bind]
  exact bind_of_ok (saveIndex_of_saves hsave)

theorem modify_cases (st : Store) (f : Faults)
    (op : SandboxState → Except StateError (α × SandboxState)) (w : World) :
    (∃ s a s', f .loadIndex = false ∧ st.index w = some s ∧ op s = .ok (a, s') ∧
      st.saves f s' w = true ∧ st.modify f op w = (.ok a, st.withIndex s' w)) ∨
    ∃ e, st.modify f op w = (.error e, w) := by
  rcases loadIndex_cases st f w with ⟨s, hf, hs, hload⟩ | ⟨-, e, hload⟩
  · cases hop : op s with
    | error e =>
      refine Or.inr ⟨e, ?_⟩
      rw [modify, bind_of_ok hload, hop]
      rfl
    | ok p =>
      obtain ⟨a, s'⟩ := p
      by_cases hsave : st.saves f s' w = true
      · exact Or.inl ⟨s, a, s', hf, hs, hop, hsave, modify_eq_ok hf hs hop hsave⟩
      · obtain ⟨e, he⟩ := saveIndex_of_not_saves (by simpa using hsave)
        refine Or.inr ⟨e, ?_⟩
        rw [modify, bind_of_ok hload, hop, lift_ok_bind]
        exact bind_of_error he
  · exact Or.inr ⟨e, bind_of_error hload⟩

theorem extends_withIndex (st : Store) (s : SandboxState) (w : World) (dir : Location) :
    Extends dir (· = ⟨.saveIndex, st.indexAt dir⟩) w (st.withIndex s w) := by
  intro hdir
  rw [withIndex, hdir]
  refine ⟨by rw [put_cwd, hdir], [⟨.saveIndex, st.indexAt dir⟩], rfl, ?_, ?_⟩
  · intro ev hev
    exact List.mem_singleton.mp hev
  · intro r hr
    rw [put_fileAt, if_neg]
    exact hr _ (List.mem_singleton.mpr rfl)

theorem extends_modify (st : Store) (f : Faults)
    (op : SandboxState → Except StateError (α × SandboxState)) (dir : Location) :
    Preserves (Extends dir (· = ⟨.saveIndex, st.indexAt dir⟩)) (st.modify f op) := by
  intro w
  rcases modify_cases st f op w with ⟨s, a, s', -, -, -, -, hrun⟩ | ⟨e, hrun⟩
  · rw [hrun]
    exact st.extends_withIndex s' w dir
  · rw [hrun]
    exact Extends.refl w

/-- The index stays or moves as an operation on it does. -/
def IndexMoves (st : Store) (Q : SandboxState → SandboxState → Prop) (w w' : World) : Prop :=
  st.index w' = st.index w ∨
  ∃ s s', st.index w = some s ∧ Q s s' ∧ st.index w' = some s'

theorem IndexMoves.of_eq {st : Store} {Q : SandboxState → SandboxState → Prop} {w₁ w₂ w₃ : World}
    (h₁ : st.index w₂ = st.index w₁) (h₂ : st.IndexMoves Q w₂ w₃) : st.IndexMoves Q w₁ w₃ := by
  rw [IndexMoves, h₁] at h₂
  exact h₂

theorem IndexMoves.mono {st : Store} {Q Q' : SandboxState → SandboxState → Prop} {w w' : World}
    (hQ : ∀ s s', Q s s' → Q' s s') (h : st.IndexMoves Q w w') : st.IndexMoves Q' w w' := by
  rcases h with h | ⟨s, s', hs, hq, hs'⟩
  · exact Or.inl h
  · exact Or.inr ⟨s, s', hs, hQ s s' hq, hs'⟩

/-- A program that keeps the index, then one that moves it. -/
theorem moves_bind {st : Store} {Q : SandboxState → SandboxState → Prop} {ε β : Type}
    {m : Effect World ε α} {g : α → Effect World ε β}
    (hm : ∀ w, st.index (m w).2 = st.index w)
    (hg : ∀ a, Returns m a → Preserves (st.IndexMoves Q) (g a)) :
    Preserves (st.IndexMoves Q) (m >>= g) :=
  Preserves.seq (fun w => hm w) hg (fun h => Or.inl h) fun h₁ h₂ => h₂.of_eq h₁

/-- A program that moves the index, then one that keeps it. -/
theorem moves_bind_keep {st : Store} {Q : SandboxState → SandboxState → Prop} {ε β : Type}
    {m : Effect World ε α} {g : α → Effect World ε β} (hm : Preserves (st.IndexMoves Q) m)
    (hg : ∀ a w, st.index (g a w).2 = st.index w) : Preserves (st.IndexMoves Q) (m >>= g) := by
  have hkeep : ∀ a, Returns m a → Preserves (fun w w' => st.index w' = st.index w) (g a) :=
    fun a _ w => hg a w
  refine Preserves.seq hm hkeep (fun h => h) ?_
  intro w₁ w₂ w₃ h₁ h₂
  rw [IndexMoves, h₂]
  exact h₁

/-- A program whose events leave the file of the index alone keeps the index. -/
theorem index_of_preserves {st : Store} {ε : Type} {m : Effect World ε α}
    {P : Location → FsEvent → Prop} (hm : ∀ dir, Preserves (Extends dir (P dir)) m)
    (hP : ∀ dir ev, P dir ev → ¬ ev.touches (st.indexAt dir)) (w : World) :
    st.index (m w).2 = st.index w :=
  index_of_extends (hm w.fs.cwd w) (hP w.fs.cwd)

theorem serializable_of_saves {st : Store} {f : Faults} {s : SandboxState} {w : World}
    (h : st.saves f s w = true) : s.serializable = true := by
  rw [saves, Bool.and_eq_true] at h
  exact h.1

theorem moves_modify (st : Store) (f : Faults)
    (op : SandboxState → Except StateError (α × SandboxState)) :
    Preserves (st.IndexMoves fun s s' => (∃ a, op s = .ok (a, s')) ∧ s'.serializable = true)
      (st.modify f op) := by
  intro w
  rcases modify_cases st f op w with ⟨s, a, s', -, hs, hop, hsave, hrun⟩ | ⟨e, hrun⟩
  · rw [hrun]
    exact Or.inr ⟨s, s', hs, ⟨⟨a, hop⟩, serializable_of_saves hsave⟩, st.index_withIndex s' w⟩
  · rw [hrun]
    exact Or.inl rfl

theorem insert_eq_modify (st : Store) (f : Faults) (r : SandboxRecord) (uuid : String) :
    st.insert f r uuid = st.modify f (·.insert r uuid) := rfl

theorem touchLastUsed_eq_modify (st : Store) (f : Faults) (name : String) :
    st.touchLastUsed f name = st.modify f fun s => .ok ((), s.touch name) := by
  funext w
  rw [touchLastUsed, modify]
  rcases loadIndex_cases st f w with ⟨s, -, -, hload⟩ | ⟨-, e, hload⟩
  · rw [bind_of_ok hload, bind_of_ok hload, lift_ok_bind]
    change _ = (st.saveIndex f (s.touch name) >>= fun _ => pure ()) w
    rw [bind_unit]
  · rw [bind_of_error hload, bind_of_error hload]

/-- The attempt to drop the policy file of a removed record. -/
def dropPolicy (st : Store) (f : Faults) (name : String) (w : World) : World :=
  (World.removeFile f .dropPolicy (st.policyPath name) w).2

theorem extends_dropPolicy (st : Store) (f : Faults) (name : String) (w : World) (dir : Location) :
    Extends dir (· = ⟨.dropPolicy, st.policyAt dir name⟩) w (st.dropPolicy f name w) :=
  preserves_removeFile dir f rfl (st.policyPath name) w

theorem index_dropPolicy (st : Store) (f : Faults) (name : String) (w : World) :
    st.index (st.dropPolicy f name w) = st.index w := by
  apply index_of_extends (st.extends_dropPolicy f name w w.fs.cwd)
  rintro ev rfl h
  exact st.policyAt_ne_indexAt w.fs.cwd name h.symm

theorem remove_eq (st : Store) (f : Faults) (key : String) :
    st.remove f key = (do
      let r ← st.modify f (·.remove key)
      let _ ← attempt (World.removeFile f .dropPolicy (st.policyPath r.name))
      pure r) := by
  rw [modify, remove, bind_assoc]
  congr 1
  funext s
  rw [bind_assoc]
  congr 1
  funext p
  rw [bind_assoc]
  rfl

theorem remove_cases (st : Store) (f : Faults) (key : String) (w : World) :
    (∃ s r s', f .loadIndex = false ∧ st.index w = some s ∧ s.remove key = .ok (r, s') ∧
      st.saves f s' w = true ∧
      st.remove f key w = (.ok r, st.dropPolicy f r.name (st.withIndex s' w))) ∨
    ∃ e, st.remove f key w = (.error e, w) := by
  rw [remove_eq]
  rcases modify_cases st f (·.remove key) w with ⟨s, r, s', hf, hs, hop, hsave, hrun⟩ | ⟨e, hrun⟩
  · exact Or.inl ⟨s, r, s', hf, hs, hop, hsave, by rw [bind_of_ok hrun]; rfl⟩
  · exact Or.inr ⟨e, bind_of_error hrun⟩

/-! ## Policies -/

theorem extends_savePolicy (st : Store) (ext : Externals) (f : Faults) (name : String)
    (p : SandboxPolicy) (dir : Location) :
    Preserves (Extends dir (· = ⟨.savePolicy, st.policyAt dir name⟩))
      (st.savePolicy ext f name p) := by
  rw [savePolicy]
  refine extends_bind (extends_lift _) fun _ => extends_bind ?_ fun _ => extends_pure _
  exact Preserves.mapError (preserves_writeFile dir f rfl (st.policyPath name) (.policy p)) _

theorem index_savePolicy (st : Store) (ext : Externals) (f : Faults) (name : String)
    (p : SandboxPolicy) (w : World) : st.index (st.savePolicy ext f name p w).2 = st.index w := by
  apply index_of_extends (st.extends_savePolicy ext f name p w.fs.cwd w)
  rintro ev rfl h
  exact st.policyAt_ne_indexAt w.fs.cwd name h.symm

theorem updatePolicy_eq (st : Store) (ext : Externals) (f : Faults) (name : String)
    (p : SandboxPolicy) :
    st.updatePolicy ext f name p = (do
      let hash ← lift ((p.contentHash ext).mapError policyError)
      let _ ← st.savePolicy ext f name p
      st.modify f fun s => (s.updatePolicy name hash).map fun s' => ((), s')) := by
  rw [updatePolicy]
  congr 1
  funext hash
  congr 1
  funext _ w
  rw [modify]
  rcases loadIndex_cases st f w with ⟨s, -, -, hload⟩ | ⟨-, e, hload⟩
  · rw [bind_of_ok hload, bind_of_ok hload]
    rcases s.updatePolicy name hash with e | s'
    · rfl
    · change st.saveIndex f s' w = (st.saveIndex f s' >>= fun _ => pure ()) w
      rw [bind_unit]
  · rw [bind_of_error hload, bind_of_error hload]

/-! ## Opening -/

/-- The events of opening a store, the creation of the index apart. -/
def openEvents (st : Store) (dir : Location) (ev : FsEvent) : Prop :=
  ev = ⟨.openRoot, resolve dir st.root⟩ ∨
  ev = ⟨.openSandboxes, resolve dir (join st.root (osString "sandboxes"))⟩ ∨
  ev = ⟨.openLogs, resolve dir (join st.root (osString "logs"))⟩ ∨
  ev = ⟨.openPolicies, resolve dir (join st.root (osString "policies"))⟩

theorem not_touches_of_openEvents {st : Store} {dir : Location} {ev : FsEvent}
    (h : st.openEvents dir ev) (r : Location) : ¬ ev.touches r := by
  rcases h with rfl | rfl | rfl | rfl <;> exact id

/-- The directories of the store. -/
def openDirs (st : Store) (f : Faults) : Effect World StateError Unit := do
  (World.createDirAll f .openRoot st.root).mapError .io
  (World.createDirAll f .openSandboxes (join st.root (osString "sandboxes"))).mapError .io
  (World.createDirAll f .openLogs (join st.root (osString "logs"))).mapError .io
  (World.createDirAll f .openPolicies (join st.root (osString "policies"))).mapError .io

theorem extends_openDirs (st : Store) (f : Faults) (dir : Location) :
    Preserves (Extends dir (st.openEvents dir)) (st.openDirs f) := by
  have hdirs : ∀ site p, st.openEvents dir ⟨site, resolve dir p⟩ →
      Preserves (Extends dir (st.openEvents dir))
        ((World.createDirAll f site p).mapError StateError.io) := by
    intro site p hev
    apply Preserves.mapError
    apply extends_mono _ (preserves_createDirAll dir f site p)
    rintro ev rfl
    exact hev
  refine extends_bind (hdirs _ _ (Or.inl rfl)) fun _ => ?_
  refine extends_bind (hdirs _ _ (Or.inr (Or.inl rfl))) fun _ => ?_
  refine extends_bind (hdirs _ _ (Or.inr (Or.inr (Or.inl rfl)))) fun _ => ?_
  exact hdirs _ _ (Or.inr (Or.inr (Or.inr rfl)))

theorem openAt_eq (root : PathBuf) (f : Faults) :
    openAt root f = (do
      openDirs ⟨root⟩ f
      let w ← state
      if w.fs.pathExists (indexPath ⟨root⟩) = false then
        writeIndex ⟨root⟩ f .openIndex {}
      pure ⟨root⟩) := by
  simp only [openAt, openDirs, bind_assoc]

/-- After its directories an open finds the index, makes a first one or stops. -/
theorem openAt_cases (root : PathBuf) (f : Faults) (w : World) :
    ∃ w₁, Extends w.fs.cwd (openEvents ⟨root⟩ w.fs.cwd) w w₁ ∧
      (openAt root f w = (.ok ⟨root⟩, w₁) ∨
       (w₁.fileAt (indexAt ⟨root⟩ w₁.fs.cwd) = none ∧
         openAt root f w =
           (.ok ⟨root⟩, put .openIndex (indexAt ⟨root⟩ w₁.fs.cwd) (.index {}) w₁)) ∨
       ∃ e, openAt root f w = (.error e, w₁)) := by
  have hext := extends_openDirs ⟨root⟩ f w.fs.cwd w
  rw [openAt_eq]
  rcases hdirs : openDirs ⟨root⟩ f w with ⟨e | _, w₁⟩
  · rw [hdirs] at hext
    exact ⟨w₁, hext, Or.inr (Or.inr ⟨e, bind_of_error hdirs⟩)⟩
  · rw [hdirs] at hext
    refine ⟨w₁, hext, ?_⟩
    rw [bind_of_ok hdirs, bind_of_ok (state_apply w₁)]
    by_cases hex : w₁.fs.pathExists (indexPath ⟨root⟩) = false
    · rw [if_pos hex]
      have hnone : w₁.fileAt (indexAt ⟨root⟩ w₁.fs.cwd) = none := by
        have hnode : w₁.fs.node (indexAt ⟨root⟩ w₁.fs.cwd) = none := by
          simpa [pathExists, locate, indexAt] using hex
        rw [World.fileAt, FileSystem.fileAt, hnode]
      have hser : SandboxState.serializable {} = true := rfl
      rw [writeIndex, if_pos hser]
      by_cases hw : writable f .openIndex (indexPath ⟨root⟩) w₁ = true
      · refine Or.inr (Or.inl ⟨hnone, ?_⟩)
        exact bind_of_ok (a := ()) (mapError_eq_ok_iff.mpr (writeFile_of_writable hw _))
      · obtain ⟨e, he⟩ := writeFile_of_not_writable (by simpa using hw) (.index {})
        refine Or.inr (Or.inr ⟨.io e, ?_⟩)
        exact bind_of_error (mapError_eq_error_iff.mpr ⟨e, rfl, he⟩)
    · rw [if_neg hex]
      exact Or.inl rfl

/-- Opening keeps the index or makes the first one. -/
theorem index_openAt (root : PathBuf) (f : Faults) (w : World) :
    index ⟨root⟩ (openAt root f w).2 = index ⟨root⟩ w ∨
    index ⟨root⟩ w = none ∧ index ⟨root⟩ (openAt root f w).2 = some {} ∧
      (openAt root f w).1 = .ok ⟨root⟩ := by
  obtain ⟨w₁, hext, hcases⟩ := openAt_cases root f w
  have hsame : index ⟨root⟩ w₁ = index ⟨root⟩ w :=
    index_of_extends hext fun ev hev => not_touches_of_openEvents hev _
  rcases hcases with hrun | ⟨hnone, hrun⟩ | ⟨e, hrun⟩
  · rw [hrun]
    exact Or.inl hsame
  · rw [hrun]
    refine Or.inr ⟨?_, index_put_index _ _ _ _, rfl⟩
    rw [← hsame, index, hnone]
  · rw [hrun]
    exact Or.inl hsame

end Store

end SimpleSandbox
