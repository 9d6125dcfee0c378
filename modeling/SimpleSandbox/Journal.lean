import SimpleSandbox.World

/-!
# What the journal says about the files

Every change of the file system is recorded with its place in the source and its location.
A program extends the journal by events of a certain kind, and a file that no new event
touches is what it was.  The relation is a preorder, so the frame rules of `Effect` carry it
from the file operations to whole programs.
-/

namespace SimpleSandbox

open OsPath FileSystem Effect

/-- The event may change the file at a location.  Making directories changes no file, and
    removing a directory changes everything in it. -/
def FsEvent.touches (ev : FsEvent) (r : Location) : Prop :=
  match ev.site with
  | .openRoot | .openSandboxes | .openLogs | .openPolicies | .createInstance => False
  | .removeInstance => ev.location <+: r
  | _ => r = ev.location

instance (ev : FsEvent) (r : Location) : Decidable (ev.touches r) := by
  unfold FsEvent.touches
  split <;> infer_instance

/-- Sites at which directories are made. -/
def Site.makesDirs : Site → Bool
  | .openRoot | .openSandboxes | .openLogs | .openPolicies | .createInstance => true
  | _ => false

namespace World

/-- From a world with working directory `dir` to one with the same directory, by events
    that meet `P`; the files they do not touch are kept. -/
def Extends (dir : Location) (P : FsEvent → Prop) (w w' : World) : Prop :=
  w.fs.cwd = dir →
    w'.fs.cwd = dir ∧
    ∃ evs, w'.journal = w.journal ++ evs ∧ (∀ ev ∈ evs, P ev) ∧
      ∀ r, (∀ ev ∈ evs, ¬ ev.touches r) → w'.fileAt r = w.fileAt r

variable {dir : Location} {P Q : FsEvent → Prop}

theorem Extends.refl (w : World) : Extends dir P w w := by
  intro hdir
  exact ⟨hdir, [], (List.append_nil _).symm, (fun _ h => nomatch h), fun _ _ => rfl⟩

theorem Extends.trans {w₁ w₂ w₃ : World} (h₁ : Extends dir P w₁ w₂) (h₂ : Extends dir P w₂ w₃) :
    Extends dir P w₁ w₃ := by
  intro hdir
  obtain ⟨hdir₂, evs₁, hj₁, hP₁, hkeep₁⟩ := h₁ hdir
  obtain ⟨hdir₃, evs₂, hj₂, hP₂, hkeep₂⟩ := h₂ hdir₂
  refine ⟨hdir₃, evs₁ ++ evs₂, ?_, ?_, ?_⟩
  · rw [hj₂, hj₁, List.append_assoc]
  · intro ev hev
    rcases List.mem_append.mp hev with hev | hev
    · exact hP₁ ev hev
    · exact hP₂ ev hev
  · intro r hr
    rw [hkeep₂ r fun ev hev => hr ev (List.mem_append_right _ hev),
      hkeep₁ r fun ev hev => hr ev (List.mem_append_left _ hev)]

theorem Extends.mono (h : ∀ ev, P ev → Q ev) {w w' : World} (hw : Extends dir P w w') :
    Extends dir Q w w' := by
  intro hdir
  obtain ⟨hdir', evs, hj, hP, hkeep⟩ := hw hdir
  exact ⟨hdir', evs, hj, fun ev hev => h ev (hP ev hev), hkeep⟩

/-- A file that none of the allowed events touches is kept. -/
theorem Extends.fileAt_eq {w w' : World} (hw : Extends dir P w w') (hdir : w.fs.cwd = dir)
    {r : Location} (hr : ∀ ev, P ev → ¬ ev.touches r) : w'.fileAt r = w.fileAt r := by
  obtain ⟨-, evs, -, hP, hkeep⟩ := hw hdir
  exact hkeep r fun ev hev => hr ev (hP ev hev)

theorem Extends.cwd_eq {w w' : World} (hw : Extends dir P w w') (hdir : w.fs.cwd = dir) :
    w'.fs.cwd = dir := (hw hdir).1

/-! ## Programs -/

section Programs

variable {ε α β : Type} {m : Effect World ε α}

theorem extends_pure (a : α) : Preserves (Extends dir P) (pure a : Effect World ε α) :=
  Preserves.pure Extends.refl a

theorem extends_fail (e : ε) : Preserves (Extends dir P) (Effect.fail e : Effect World ε α) :=
  Preserves.fail Extends.refl e

theorem extends_lift (r : Except ε α) : Preserves (Extends dir P) (Effect.lift r) :=
  Preserves.lift Extends.refl r

theorem extends_state : Preserves (Extends dir P) (Effect.state : Effect World ε World) :=
  Preserves.state Extends.refl

theorem extends_bind {f : α → Effect World ε β} (hm : Preserves (Extends dir P) m)
    (hf : ∀ a, Preserves (Extends dir P) (f a)) : Preserves (Extends dir P) (m >>= f) :=
  Preserves.bind (fun h₁ h₂ => h₁.trans h₂) hm hf

/-- As `extends_bind`, for the values the first part returns. -/
theorem extends_seq {f : α → Effect World ε β} (hm : Preserves (Extends dir P) m)
    (hf : ∀ a, Returns m a → Preserves (Extends dir P) (f a)) :
    Preserves (Extends dir P) (m >>= f) :=
  Preserves.seq hm hf (fun h => h) fun h₁ h₂ => h₁.trans h₂

theorem extends_mono (h : ∀ ev, P ev → Q ev) (hm : Preserves (Extends dir P) m) :
    Preserves (Extends dir Q) m :=
  Preserves.mono (fun hw => hw.mono h) hm

end Programs

/-! ## Single operations -/

/-- A change of the file system, with its event. -/
def applied (w : World) (site : Site) (q : Location) (fs : FileSystem FileData) : World :=
  { w with fs := fs, journal := w.journal ++ [⟨site, q⟩] }

/-- A change either fails and leaves the world as it is, or is made and recorded. -/
theorem change_cases (f : Faults) (site : Site) (p : PathBuf)
    (op : FileSystem FileData → Except IoError (FileSystem FileData)) (w : World) :
    (∃ fs, f site = false ∧ op w.fs = .ok fs ∧
      change f site p op w = (.ok (), w.applied site (w.fs.locate p) fs)) ∨
    ∃ e, change f site p op w = (.error e, w) := by
  unfold change
  by_cases hf : f site = true
  · exact Or.inr ⟨_, by rw [if_pos hf]⟩
  · have hoff : f site = false := by simpa using hf
    rw [if_neg hf]
    cases hop : op w.fs with
    | ok fs => exact Or.inl ⟨fs, hoff, rfl, rfl⟩
    | error e => exact Or.inr ⟨e, rfl⟩

/-- An operation that respects its event extends the journal by it. -/
theorem preserves_change (dir : Location) (f : Faults) {site : Site} {p : PathBuf}
    {op : FileSystem FileData → Except IoError (FileSystem FileData)}
    (hop : ∀ fs fs' : FileSystem FileData, op fs = .ok fs' → fs'.cwd = fs.cwd ∧
      ∀ r, ¬ (FsEvent.mk site (fs.locate p)).touches r → fs'.fileAt r = fs.fileAt r) :
    Preserves (Extends dir (· = ⟨site, resolve dir p⟩)) (change f site p op) := by
  intro w
  rcases change_cases f site p op w with ⟨fs, -, hfs, hrun⟩ | ⟨e, hrun⟩
  · rw [hrun]
    intro hdir
    obtain ⟨hcwd, hkeep⟩ := hop w.fs fs hfs
    have hloc : w.fs.locate p = resolve dir p := by rw [locate, hdir]
    refine ⟨hcwd.trans hdir, [⟨site, resolve dir p⟩], ?_, ?_, ?_⟩
    · rw [← hloc]
      rfl
    · intro ev hev
      exact List.mem_singleton.mp hev
    · intro r hr
      apply hkeep r
      rw [hloc]
      exact hr _ (by simp)
  · rw [hrun]
    exact Extends.refl w

theorem preserves_writeFile (dir : Location) (f : Faults) {site : Site}
    (hsite : site.makesDirs = false) (p : PathBuf) (contents : FileData) :
    Preserves (Extends dir (· = ⟨site, resolve dir p⟩)) (writeFile f site p contents) := by
  apply preserves_change
  intro fs fs' h
  obtain ⟨-, rfl⟩ := write_eq_ok_iff.mp h
  refine ⟨rfl, fun r hr => ?_⟩
  rw [fileAt_set, if_neg]
  rintro rfl
  apply hr
  cases site <;> simp_all [FsEvent.touches, Site.makesDirs]

theorem preserves_createDirAll (dir : Location) (f : Faults) (site : Site) (p : PathBuf) :
    Preserves (Extends dir (· = ⟨site, resolve dir p⟩)) (createDirAll f site p) := by
  apply preserves_change
  intro fs fs' h
  refine ⟨?_, fun r _ => fileAt_createDirAll h r⟩
  obtain ⟨-, rfl⟩ := createDirAll_eq_ok_iff.mp h
  rfl

theorem preserves_removeFile (dir : Location) (f : Faults) {site : Site}
    (hsite : site.makesDirs = false) (p : PathBuf) :
    Preserves (Extends dir (· = ⟨site, resolve dir p⟩)) (removeFile f site p) := by
  apply preserves_change
  intro fs fs' h
  obtain ⟨-, rfl⟩ := removeFile_eq_ok_iff.mp h
  refine ⟨rfl, fun r hr => ?_⟩
  have hne : r ≠ fs.locate p := by
    rintro rfl
    apply hr
    cases site <;> simp_all [FsEvent.touches, Site.makesDirs]
  simp [FileSystem.fileAt, hne]

theorem preserves_removeDirAll (dir : Location) (f : Faults) (p : PathBuf) :
    Preserves (Extends dir (· = ⟨.removeInstance, resolve dir p⟩))
      (removeDirAll f .removeInstance p) := by
  apply preserves_change
  intro fs fs' h
  obtain ⟨-, rfl⟩ := removeDirAll_eq_ok_iff.mp h
  refine ⟨rfl, fun r hr => ?_⟩
  have hout : ¬ fs.locate p <+: r := hr
  simp [FileSystem.fileAt, hout]

theorem preserves_readFile (dir : Location) (P : FsEvent → Prop) (f : Faults) (site : Site)
    (p : PathBuf) : Preserves (Extends dir P) (readFile f site p) := fun w => Extends.refl w

end World

end SimpleSandbox
