import SimpleSandbox.FileSystem

/-!
# Plans of file steps

A plan is a list of steps: checks, directories to make and files to write.  It stops at the
first step that fails, unless the step is an optional write.  The files after a plan are those
before it with the writes it got to make put over them, so a plan leaves the files as they
were exactly if every such write finds its own contents there.  Which writes it gets to make
is read off the files before it: once its directories stand, an earlier write decides nothing
for a later one.
-/

namespace SimpleSandbox

open OsPath FileSystem

/-- One step, with the place it stands for. -/
inductive FileStep (σ F : Type) where
  | check (ok : Bool)
  | makeDirs (site : σ) (p : PathBuf)
  | write (site : σ) (p : PathBuf) (contents : F) (required : Bool)

namespace FileStep

variable {σ F : Type}

/-- The file system after one step, if the step succeeds. -/
def next (f : σ → Bool) (fs : FileSystem F) : FileStep σ F → Option (FileSystem F)
  | check ok => if ok then some fs else none
  | makeDirs site p => if f site then none else (fs.createDirAll p).toOption
  | write site p contents _ => if f site then none else (fs.write p contents).toOption

def required : FileStep σ F → Bool
  | check _ => true
  | makeDirs _ _ => true
  | write _ _ _ r => r

/-- A step that makes no directory. -/
def keepsDirs : FileStep σ F → Bool
  | check _ => true
  | makeDirs _ _ => false
  | write _ _ _ _ => true

/-- What a step writes, for a process with working directory `dir`. -/
def written (dir : Location) : FileStep σ F → List (Location × F)
  | check _ => []
  | makeDirs _ _ => []
  | write _ p contents _ => [(resolve dir p, contents)]

/-- **What a step can do.** -/
theorem next_cases {f : σ → Bool} {fs fs' : FileSystem F} {step : FileStep σ F}
    (h : step.next f fs = some fs') :
    (step = .check true ∧ fs' = fs) ∨
    (∃ site p, step = .makeDirs site p ∧ f site = false ∧ fs.createDirAll p = .ok fs') ∨
    ∃ site p contents r, step = .write site p contents r ∧ f site = false ∧
      fs.write p contents = .ok fs' := by
  have hdone : ∀ {site : σ} {r : Except IoError (FileSystem F)},
      (if f site then none else r.toOption) = some fs' → f site = false ∧ r = .ok fs' := by
    intro site r hr
    by_cases hf : f site = true
    · rw [if_pos hf] at hr
      cases hr
    · rw [if_neg hf] at hr
      cases r with
      | error e => cases hr
      | ok fs₁ => exact ⟨by simpa using hf, congrArg Except.ok (Option.some.inj hr)⟩
  cases step with
  | check ok =>
    cases ok with
    | true => exact Or.inl ⟨rfl, (Option.some.inj h).symm⟩
    | false => cases h
  | makeDirs site p => exact Or.inr (Or.inl ⟨site, p, rfl, hdone h⟩)
  | write site p contents r => exact Or.inr (Or.inr ⟨site, p, contents, r, rfl, hdone h⟩)

theorem next_cwd {f : σ → Bool} {fs fs' : FileSystem F} {step : FileStep σ F}
    (h : step.next f fs = some fs') : fs'.cwd = fs.cwd := by
  rcases next_cases h with ⟨-, rfl⟩ | ⟨site, p, -, -, hmake⟩ | ⟨site, p, contents, r, -, -, hwrite⟩
  · rfl
  · obtain ⟨-, rfl⟩ := createDirAll_eq_ok_iff.mp hmake
    rfl
  · obtain ⟨-, rfl⟩ := write_eq_ok_iff.mp hwrite
    rfl

/-- The locations a step may put a node at. -/
def reaches (dir : Location) : FileStep σ F → Location → Prop
  | check _, _ => False
  | makeDirs _ p, r => r <+: resolve dir p
  | write _ p _ _, r => r = resolve dir p

theorem node_next {f : σ → Bool} {fs fs' : FileSystem F} {step : FileStep σ F}
    (h : step.next f fs = some fs') {r : Location} (hr : ¬ step.reaches fs.cwd r) :
    fs'.node r = fs.node r := by
  rcases next_cases h with ⟨-, rfl⟩ | ⟨site, p, rfl, -, hmake⟩ |
    ⟨site, p, contents, required, rfl, -, hwrite⟩
  · rfl
  · obtain ⟨-, rfl⟩ := createDirAll_eq_ok_iff.mp hmake
    exact if_neg hr
  · obtain ⟨-, rfl⟩ := write_eq_ok_iff.mp hwrite
    exact if_neg hr

/-- A step changes the files by what it writes. -/
theorem fileAt_next {f : σ → Bool} {fs fs' : FileSystem F} {step : FileStep σ F}
    (h : step.next f fs = some fs') (r : Location) :
    fs'.fileAt r = (((step.written fs.cwd).find? (·.1 = r)).map (·.2)).or (fs.fileAt r) := by
  rcases next_cases h with ⟨rfl, rfl⟩ | ⟨site, p, rfl, -, hmake⟩ |
    ⟨site, p, contents, required, rfl, -, hwrite⟩
  · rfl
  · exact fileAt_createDirAll hmake r
  · obtain ⟨-, rfl⟩ := write_eq_ok_iff.mp hwrite
    rw [fileAt_set]
    by_cases hr : r = fs.locate p
    · rw [if_pos hr]
      simp [written, hr, locate]
    · have hne : ¬ resolve fs.cwd p = r := fun heq => hr heq.symm
      rw [if_neg hr]
      simp [written, hne]

end FileStep

/-- A list of steps. -/
abbrev FilePlan (σ F : Type) := List (FileStep σ F)

namespace FilePlan

variable {σ F : Type} {f : σ → Bool}

/-- Whether a plan gets to its end, and the file system it leaves. -/
def run (f : σ → Bool) (fs : FileSystem F) : FilePlan σ F → Bool × FileSystem F
  | [] => (true, fs)
  | step :: rest =>
    match step.next f fs with
    | some fs' => run f fs' rest
    | none => if step.required then (false, fs) else run f fs rest

/-- The writes a plan gets to make. -/
def performed (f : σ → Bool) (fs : FileSystem F) : FilePlan σ F → List (Location × F)
  | [] => []
  | step :: rest =>
    match step.next f fs with
    | some fs' => step.written fs.cwd ++ performed f fs' rest
    | none => if step.required then [] else performed f fs rest

theorem run_append (fs : FileSystem F) (p q : FilePlan σ F) :
    run f fs (p ++ q) =
      if (run f fs p).1 then run f (run f fs p).2 q else (false, (run f fs p).2) := by
  induction p generalizing fs with
  | nil => rfl
  | cons step rest ih =>
    rw [List.cons_append, run, run]
    rcases step.next f fs with _ | fs'
    · by_cases hreq : step.required = true
      · simp [hreq]
      · simp only [hreq, Bool.false_eq_true, ↓reduceIte]
        exact ih fs
    · exact ih fs'

theorem run_cwd (fs : FileSystem F) (p : FilePlan σ F) : (run f fs p).2.cwd = fs.cwd := by
  induction p generalizing fs with
  | nil => rfl
  | cons step rest ih =>
    rw [run]
    cases hnext : step.next f fs with
    | some fs' => exact (ih fs').trans (FileStep.next_cwd hnext)
    | none =>
      by_cases hreq : step.required = true
      · simp [hreq]
      · simp only [hreq, Bool.false_eq_true, ↓reduceIte]
        exact ih fs

/-- A plan leaves the nodes alone that its steps do not reach. -/
theorem node_run {fs : FileSystem F} {p : FilePlan σ F} {r : Location}
    (hp : ∀ step ∈ p, ¬ step.reaches fs.cwd r) : (run f fs p).2.node r = fs.node r := by
  induction p generalizing fs with
  | nil => rfl
  | cons step rest ih =>
    have hfirst := hp step List.mem_cons_self
    have hrest : ∀ step' ∈ rest, ¬ step'.reaches fs.cwd r := fun step' hmem =>
      hp step' (List.mem_cons_of_mem _ hmem)
    rw [run]
    cases hnext : step.next f fs with
    | some fs' =>
      rw [← FileStep.next_cwd hnext] at hrest
      exact (ih hrest).trans (FileStep.node_next hnext hfirst)
    | none =>
      by_cases hreq : step.required = true
      · simp [hreq]
      · simp only [hreq, Bool.false_eq_true, ↓reduceIte]
        exact ih hrest

/-- The checks of a plan that gets to its end have passed. -/
theorem check_of_run {fs : FileSystem F} {p : FilePlan σ F} (hrun : (run f fs p).1 = true)
    {ok : Bool} (hmem : .check ok ∈ p) : ok = true := by
  induction p generalizing fs with
  | nil => cases hmem
  | cons first rest ih =>
    rw [run] at hrun
    cases hnext : first.next f fs with
    | some fs' =>
      rw [hnext] at hrun
      rcases List.mem_cons.mp hmem with rfl | hlater
      · rcases FileStep.next_cases hnext with ⟨hpassed, -⟩ | ⟨site, p, hno, -⟩ |
          ⟨site, p, contents, r, hno, -⟩
        · exact FileStep.check.inj hpassed
        · cases hno
        · cases hno
      · exact ih hrun hlater
    | none =>
      rw [hnext] at hrun
      by_cases hfirst : first.required = true
      · simp [hfirst] at hrun
      · simp only [hfirst, Bool.false_eq_true, ↓reduceIte] at hrun
        rcases List.mem_cons.mp hmem with rfl | hlater
        · exact absurd rfl hfirst
        · exact ih hrun hlater

/-- A directory that a plan has made stands unless a later step reaches it. -/
theorem node_run_makeDirs {fs : FileSystem F} (before : FilePlan σ F) {after : FilePlan σ F}
    {site : σ} {p : PathBuf}
    (hrun : (run f fs (before ++ .makeDirs site p :: after)).1 = true)
    (hafter : ∀ step ∈ after, ¬ step.reaches fs.cwd (resolve fs.cwd p)) :
    (run f fs (before ++ .makeDirs site p :: after)).2.node (resolve fs.cwd p) = some .dir := by
  have hcwd := run_cwd (f := f) fs before
  rw [run_append] at hrun ⊢
  by_cases hok : (run f fs before).1 = true
  · rw [if_pos hok] at hrun ⊢
    generalize (run f fs before).2 = fs₁ at hrun hcwd ⊢
    rw [run] at hrun ⊢
    cases hnext : (FileStep.makeDirs site p : FileStep σ F).next f fs₁ with
    | some fs₂ =>
      have hcwd₂ := (FileStep.next_cwd hnext).trans hcwd
      refine (node_run (by rw [hcwd₂]; exact hafter)).trans ?_
      rcases FileStep.next_cases hnext with ⟨hno, -⟩ | ⟨site', p', hstep, -, hmake⟩ |
        ⟨site', p', contents, r, hno, -⟩
      · cases hno
      · obtain ⟨-, rfl⟩ := FileStep.makeDirs.inj hstep
        obtain ⟨-, rfl⟩ := createDirAll_eq_ok_iff.mp hmake
        rw [← hcwd]
        exact if_pos List.prefix_rfl
      · cases hno
    | none =>
      rw [hnext] at hrun
      cases hrun
  · rw [if_neg hok] at hrun
    cases hrun

/-- **An optional write in a plan** that no other step of the plan reaches: it takes place unless
    it is made to fail or finds a directory. -/
theorem fileAt_run_optional {fs : FileSystem F} {before after : FilePlan σ F} (site : σ)
    {p : PathBuf} (contents : F) (hok : (run f fs before).1 = true)
    (hdir : (run f fs before).2.node (resolve fs.cwd p).dropLast = some .dir)
    (hne : resolve fs.cwd p ≠ [])
    (hbefore : ∀ step ∈ before, ¬ step.reaches fs.cwd (resolve fs.cwd p))
    (hafter : ∀ step ∈ after, ¬ step.reaches fs.cwd (resolve fs.cwd p)) :
    (run f fs (before ++ .write site p contents false :: after)).2.fileAt (resolve fs.cwd p) =
      if f site = false ∧ fs.isDir (resolve fs.cwd p) = false then some contents
      else fs.fileAt (resolve fs.cwd p) := by
  have hcwd := run_cwd (f := f) fs before
  have hsame := node_run (f := f) hbefore
  rw [run_append, if_pos hok]
  generalize (run f fs before).2 = fs₁ at hdir hcwd hsame
  have hkept : ∀ fs₂ : FileSystem F, fs₂.cwd = fs.cwd →
      (run f fs₂ after).2.fileAt (resolve fs.cwd p) = fs₂.fileAt (resolve fs.cwd p) := by
    intro fs₂ h₂
    rw [fileAt, fileAt, node_run (by rw [h₂]; exact hafter)]
  have hplace : fs₁.locate p = resolve fs.cwd p := by rw [locate, hcwd]
  have hfile : fs₁.fileAt (resolve fs.cwd p) = fs.fileAt (resolve fs.cwd p) := by
    rw [fileAt, fileAt, hsame]
  -- the write fails exactly on a directory
  have hcan : fs₁.canWrite (resolve fs.cwd p) = !fs.isDir (resolve fs.cwd p) := by
    rw [← canWrite_of_parent hne hdir, isDir, isDir, hsame]
  by_cases hf : f site = true
  · rw [if_neg (by simp [hf]), run, FileStep.next, if_pos hf]
    exact (hkept fs₁ hcwd).trans hfile
  · by_cases hnode : fs.isDir (resolve fs.cwd p) = true
    · have hno : fs₁.canWrite (fs₁.locate p) = false := by rw [hplace, hcan, hnode, Bool.not_true]
      obtain ⟨e, hfail⟩ := write_of_not_canWrite hno contents
      rw [if_neg (by simp [hnode]), run, FileStep.next, if_neg hf, hfail]
      exact (hkept fs₁ hcwd).trans hfile
    · have hyes : fs₁.canWrite (fs₁.locate p) = true := by
        rw [hplace, hcan]
        simpa using hnode
      rw [if_pos ⟨by simpa using hf, by simpa using hnode⟩, run, FileStep.next, if_neg hf,
        write_eq_ok_iff.mpr ⟨hyes, rfl⟩, hplace]
      refine (hkept (fs₁.set (resolve fs.cwd p) (.file contents)) hcwd).trans ?_
      rw [fileAt_set, if_pos rfl]

/-- A performed write is a write of the plan. -/
theorem exists_of_mem_performed {fs : FileSystem F} {p : FilePlan σ F} {e : Location × F}
    (h : e ∈ performed f fs p) : ∃ step ∈ p, e ∈ step.written fs.cwd := by
  induction p generalizing fs with
  | nil => exact nomatch h
  | cons step rest ih =>
    rw [performed] at h
    cases hnext : step.next f fs with
    | some fs' =>
      rw [hnext] at h
      rcases List.mem_append.mp h with hfirst | hlater
      · exact ⟨step, List.mem_cons_self, hfirst⟩
      · obtain ⟨step', hmem, he⟩ := ih hlater
        rw [FileStep.next_cwd hnext] at he
        exact ⟨step', List.mem_cons_of_mem _ hmem, he⟩
    | none =>
      rw [hnext] at h
      by_cases hreq : step.required = true
      · simp [hreq] at h
      · simp only [hreq, Bool.false_eq_true, ↓reduceIte] at h
        obtain ⟨step', hmem, he⟩ := ih h
        exact ⟨step', List.mem_cons_of_mem _ hmem, he⟩

/-- **The files after a plan.**  The last write to a location, or what was there. -/
theorem fileAt_run (fs : FileSystem F) (p : FilePlan σ F) (r : Location) :
    (run f fs p).2.fileAt r =
      (((performed f fs p).reverse.find? (·.1 = r)).map (·.2)).or (fs.fileAt r) := by
  induction p generalizing fs with
  | nil => rfl
  | cons step rest ih =>
    rw [run, performed]
    cases hnext : step.next f fs with
    | some fs' =>
      have hone : (step.written fs.cwd).reverse = step.written fs.cwd := by
        cases step <;> rfl
      simp only [ih fs', FileStep.fileAt_next hnext, List.reverse_append, List.find?_append, hone]
      cases (performed f fs' rest).reverse.find? (·.1 = r) <;> rfl
    | none =>
      by_cases hreq : step.required = true
      · simp [hreq]
      · simp only [hreq, Bool.false_eq_true, ↓reduceIte]
        exact ih fs

/-- No two writes of the plan put different contents in one place. -/
def Consistent (dir : Location) (p : FilePlan σ F) : Prop :=
  ∀ step ∈ p, ∀ step' ∈ p, ∀ e ∈ step.written dir, ∀ e' ∈ step'.written dir,
    e.1 = e'.1 → e.2 = e'.2

/-- A performed write stands when the plan is over. -/
theorem fileAt_run_of_mem {fs : FileSystem F} {p : FilePlan σ F} (hp : Consistent fs.cwd p)
    {e : Location × F} (he : e ∈ performed f fs p) : (run f fs p).2.fileAt e.1 = some e.2 := by
  rw [fileAt_run]
  cases hfind : (performed f fs p).reverse.find? (·.1 = e.1) with
  | none =>
    have hnone := List.find?_eq_none.mp hfind e (List.mem_reverse.mpr he)
    simp at hnone
  | some e' =>
    have he' := List.mem_reverse.mp (List.mem_of_find?_eq_some hfind)
    have hloc : e'.1 = e.1 := by simpa using List.find?_some hfind
    obtain ⟨step, hstep, hw⟩ := exists_of_mem_performed he
    obtain ⟨step', hstep', hw'⟩ := exists_of_mem_performed he'
    rw [Option.map_some, Option.some_or, hp step' hstep' step hstep e' hw' e hw hloc]

/-- A plan that gets to its end has made every required write. -/
theorem mem_performed_of_run {fs : FileSystem F} {p : FilePlan σ F}
    (hrun : (run f fs p).1 = true) {step : FileStep σ F} (hstep : step ∈ p)
    (hreq : step.required = true) {e : Location × F} (he : e ∈ step.written fs.cwd) :
    e ∈ performed f fs p := by
  induction p generalizing fs with
  | nil => cases hstep
  | cons first rest ih =>
    rw [run] at hrun
    rw [performed]
    cases hnext : first.next f fs with
    | some fs' =>
      rw [hnext] at hrun
      rcases List.mem_cons.mp hstep with rfl | hlater
      · exact List.mem_append_left _ he
      · rw [← FileStep.next_cwd hnext] at he
        exact List.mem_append_right _ (ih hrun hlater he)
    | none =>
      rw [hnext] at hrun
      by_cases hfirst : first.required = true
      · simp [hfirst] at hrun
      · simp only [hfirst, Bool.false_eq_true, ↓reduceIte] at hrun ⊢
        rcases List.mem_cons.mp hstep with rfl | hlater
        · exact absurd hreq hfirst
        · exact ih hrun hlater he

/-- **A plan leaves a set of files as they were** exactly if every write it gets to make finds
    its own contents there. -/
theorem unchanged_iff {fs : FileSystem F} {p : FilePlan σ F} (hp : Consistent fs.cwd p)
    {locs : List Location} (hlocs : ∀ e ∈ performed f fs p, e.1 ∈ locs) :
    (∀ r ∈ locs, (run f fs p).2.fileAt r = fs.fileAt r) ↔
      ∀ e ∈ performed f fs p, fs.fileAt e.1 = some e.2 := by
  constructor
  · intro hkeep e he
    rw [← hkeep e.1 (hlocs e he)]
    exact fileAt_run_of_mem hp he
  · intro hsame r _
    rw [fileAt_run]
    cases hfind : (performed f fs p).reverse.find? (·.1 = r) with
    | none => rfl
    | some e =>
      have he := List.mem_reverse.mp (List.mem_of_find?_eq_some hfind)
      have hloc : e.1 = r := by simpa using List.find?_some hfind
      rw [← hloc, hsame e he]
      rfl

end FilePlan

/-! ## Reading a plan off the files before it -/

namespace FileSystem

variable {F : Type}

/-- A directory stands at a location once the directories `made` have been made. -/
def standsDir (fs : FileSystem F) (made : List Location) (q : Location) : Bool :=
  fs.isDir q || made.any fun d => decide (q <+: d)

/-- A file can then be created or replaced there. -/
def takesFile (fs : FileSystem F) (made : List Location) (q : Location) : Bool :=
  !fs.standsDir made q && ((fs.fileAt q).isSome || (!q.isEmpty && fs.standsDir made q.dropLast))

variable {fs fs' : FileSystem F}

theorem takesFile_nil (fs : FileSystem F) (q : Location) : fs.takesFile [] q = fs.canWrite q := by
  simp only [takesFile, standsDir, List.any_nil, Bool.or_false, canWrite, isDir, fileAt]
  rcases fs.node q with _ | _ | _
  · cases q with
    | nil => rfl
    | cons a l =>
      simp only [Option.isSome_none, Bool.false_or, Bool.not_false, Bool.true_and]
      rcases fs.node (a :: l).dropLast with _ | _ | _ <;> rfl
  · rfl
  · rfl

theorem standsDir_createDirAll {p : PathBuf} (h : fs.createDirAll p = .ok fs')
    (made : List Location) (q : Location) :
    fs'.standsDir made q = fs.standsDir (fs.locate p :: made) q := by
  obtain ⟨-, rfl⟩ := createDirAll_eq_ok_iff.mp h
  by_cases hq : q <+: fs.locate p
  · simp [standsDir, isDir, hq]
  · simp [standsDir, isDir, hq]

theorem takesFile_createDirAll {p : PathBuf} (h : fs.createDirAll p = .ok fs')
    (made : List Location) (q : Location) :
    fs'.takesFile made q = fs.takesFile (fs.locate p :: made) q := by
  rw [takesFile, takesFile, standsDir_createDirAll h, standsDir_createDirAll h,
    fileAt_createDirAll h]

/-- What is in the way are files. -/
theorem blocked_congr (h : ∀ r, fs'.fileAt r = fs.fileAt r) (q : Location) :
    fs'.blocked q = fs.blocked q := by
  simp only [blocked, h]

/-- A file system that has the directories `dirs` besides what was there. -/
structure MadeFrom (fs : FileSystem F) (dirs : List Location) (fs' : FileSystem F) : Prop where
  cwd : fs'.cwd = fs.cwd
  files : ∀ r, fs'.fileAt r = fs.fileAt r
  stands : ∀ made q, fs'.standsDir made q = fs.standsDir (made ++ dirs) q

theorem MadeFrom.refl (fs : FileSystem F) : MadeFrom fs [] fs :=
  ⟨rfl, fun _ => rfl, fun made q => by rw [List.append_nil]⟩

theorem MadeFrom.createDirAll {dirs : List Location} {fs'' : FileSystem F} {p : PathBuf}
    (h : MadeFrom fs dirs fs') (hmake : fs'.createDirAll p = .ok fs'') :
    MadeFrom fs (dirs ++ [fs.locate p]) fs'' := by
  have hlocate : fs'.locate p = fs.locate p := by rw [locate, locate, h.cwd]
  refine ⟨?_, fun r => (fileAt_createDirAll hmake r).trans (h.files r), fun made q => ?_⟩
  · obtain ⟨-, rfl⟩ := createDirAll_eq_ok_iff.mp hmake
    exact h.cwd
  · rw [standsDir_createDirAll hmake, h.stands, hlocate]
    simp [standsDir, Bool.or_comm, Bool.or_assoc]

/-- A write makes no location writable and blocks none. -/
theorem canWrite_set {q : Location} (h : fs.canWrite q = true) (contents : F) (r : Location) :
    (fs.set q (.file contents)).canWrite r = fs.canWrite r := by
  have hnodir : fs.isDir q = false := by
    unfold canWrite at h
    unfold isDir
    rcases hn : fs.node q with _ | _ | _
    · rfl
    · rw [hn] at h
      cases h
    · rfl
  have hdirs : ∀ x, (fs.set q (.file contents)).isDir x = fs.isDir x := by
    intro x
    by_cases hx : x = q
    · rw [hx, hnodir]
      simp [isDir, set]
    · simp [isDir, set, hx]
  have hstands : ∀ x, (fs.set q (.file contents)).standsDir [] x = fs.standsDir [] x := by
    intro x
    rw [standsDir, standsDir, hdirs]
  by_cases hr : r = q
  · rw [hr, h, ← takesFile_nil, takesFile, hstands, fileAt_set, if_pos rfl, standsDir, hnodir]
    rfl
  · rw [← takesFile_nil, ← takesFile_nil, takesFile, takesFile, hstands, hstands, fileAt_set,
      if_neg hr]

end FileSystem

namespace FilePlan

variable {σ F : Type} {f : σ → Bool} {fs fs' : FileSystem F}

/-- A write goes through once the directories `made` have been made. -/
def writes (f : σ → Bool) (fs : FileSystem F) (made : List Location) (site : σ) (q : Location) :
    Bool :=
  !f site && fs.takesFile made q

/-- A directory is made: nothing on the way to it is a file. -/
def makes (f : σ → Bool) (fs : FileSystem F) (site : σ) (q : Location) : Bool :=
  !f site && !fs.blocked q

theorem writes_createDirAll {p : PathBuf} (h : fs.createDirAll p = .ok fs') (made : List Location)
    (site : σ) (q : Location) :
    writes f fs' made site q = writes f fs (fs.locate p :: made) site q := by
  rw [writes, writes, takesFile_createDirAll h]

theorem writes_of_madeFrom {dirs : List Location} (h : MadeFrom fs dirs fs') (made : List Location)
    (site : σ) (q : Location) : writes f fs' made site q = writes f fs (made ++ dirs) site q := by
  rw [writes, writes, takesFile, takesFile, h.stands, h.stands, h.files]

theorem makes_of_madeFrom {dirs : List Location} (h : MadeFrom fs dirs fs') (site : σ)
    (q : Location) : makes f fs' site q = makes f fs site q := by
  rw [makes, makes, blocked_congr h.files]

theorem next_write (site : σ) (p : PathBuf) (contents : F) (required : Bool) :
    (FileStep.write site p contents required).next f fs =
      if writes f fs [] site (fs.locate p) then some (fs.set (fs.locate p) (.file contents))
      else none := by
  rw [FileStep.next, writes, takesFile_nil]
  cases f site with
  | true => rfl
  | false =>
    cases hcan : fs.canWrite (fs.locate p) with
    | true =>
      rw [write_eq_ok_iff.mpr ⟨hcan, rfl⟩]
      rfl
    | false =>
      obtain ⟨e, herror⟩ := write_of_not_canWrite hcan contents
      rw [herror]
      rfl

theorem next_makeDirs_of_makes {site : σ} {p : PathBuf} (h : makes f fs site (fs.locate p) = true) :
    ∃ fs', fs.createDirAll p = .ok fs' ∧
      (FileStep.makeDirs site p : FileStep σ F).next f fs = some fs' := by
  rw [makes, Bool.and_eq_true, Bool.not_eq_true', Bool.not_eq_true'] at h
  have hmake := createDirAll_eq_ok_iff.mpr ⟨h.2, rfl⟩
  refine ⟨_, hmake, ?_⟩
  rw [FileStep.next, if_neg (by rw [h.1]; decide), hmake]
  rfl

theorem next_makeDirs_of_not_makes {site : σ} {p : PathBuf}
    (h : makes f fs site (fs.locate p) = false) :
    (FileStep.makeDirs site p : FileStep σ F).next f fs = none := by
  cases hnext : (FileStep.makeDirs site p : FileStep σ F).next f fs with
  | none => rfl
  | some fs' =>
    rcases FileStep.next_cases hnext with ⟨hno, -⟩ | ⟨site', p', hstep, hoff, hmake⟩ |
      ⟨site', p', contents, r, hno, -⟩
    · cases hno
    · obtain ⟨rfl, rfl⟩ := FileStep.makeDirs.inj hstep
      rw [makes, hoff, (createDirAll_eq_ok_iff.mp hmake).1] at h
      cases h
    · cases hno

/-- Once the directories stand, an earlier write decides nothing for a later one. -/
theorem performed_congr {p : FilePlan σ F} (hp : ∀ step ∈ p, step.keepsDirs = true)
    (hcwd : fs'.cwd = fs.cwd) (hcan : ∀ q, fs'.canWrite q = fs.canWrite q) :
    performed f fs' p = performed f fs p ∧ (run f fs' p).1 = (run f fs p).1 := by
  induction p generalizing fs fs' with
  | nil => exact ⟨rfl, rfl⟩
  | cons step rest ih =>
    have hstep := hp step List.mem_cons_self
    have hrest : ∀ later ∈ rest, later.keepsDirs = true := fun later hlater =>
      hp later (List.mem_cons_of_mem _ hlater)
    have hskip := ih hrest hcwd hcan
    cases step with
    | check ok =>
      cases ok with
      | true => exact hskip
      | false => exact ⟨rfl, rfl⟩
    | makeDirs site q => cases hstep
    | write site q contents required =>
      have hlocate : fs'.locate q = fs.locate q := by rw [locate, locate, hcwd]
      have hsame : writes f fs' [] site (fs'.locate q) = writes f fs [] site (fs.locate q) := by
        rw [writes, writes, takesFile_nil, takesFile_nil, hlocate, hcan]
      rw [performed, performed, run, run, next_write, next_write, hsame, hlocate]
      cases hgoes : writes f fs [] site (fs.locate q) with
      | false =>
        cases required with
        | true => exact ⟨rfl, rfl⟩
        | false => exact hskip
      | true =>
        rw [writes, takesFile_nil, Bool.and_eq_true] at hgoes
        have hgoes' : fs'.canWrite (fs.locate q) = true := by
          rw [hcan]
          exact hgoes.2
        have hcwd' : (fs'.set (fs.locate q) (.file contents)).cwd =
            (fs.set (fs.locate q) (.file contents)).cwd := hcwd
        obtain ⟨hperformed, hrun⟩ := ih hrest hcwd' fun r => by
          rw [canWrite_set hgoes', canWrite_set hgoes.2, hcan]
        exact ⟨by simp [FileStep.written, hcwd, hperformed], hrun⟩

/-- After a write the plan goes on as if it had not been. -/
theorem performed_set {p : FilePlan σ F} (hp : ∀ step ∈ p, step.keepsDirs = true) {site : σ}
    {q : PathBuf} (h : writes f fs [] site (fs.locate q) = true) (contents : F) :
    performed f (fs.set (fs.locate q) (.file contents)) p = performed f fs p ∧
      (run f (fs.set (fs.locate q) (.file contents)) p).1 = (run f fs p).1 := by
  rw [writes, takesFile_nil, Bool.and_eq_true] at h
  exact performed_congr hp rfl fun r => canWrite_set h.2 contents r

section Steps

variable {P : Location × F → Prop} {rest : FilePlan σ F} {site : σ} {p : PathBuf}

theorem forall_performed_check {ok : Bool} : (∀ e ∈ performed f fs (.check ok :: rest), P e) ↔
    (ok = true → ∀ e ∈ performed f fs rest, P e) := by
  cases ok with
  | true => exact ⟨fun h _ => h, fun h => h rfl⟩
  | false => exact ⟨nofun, fun _ => List.forall_mem_nil _⟩

theorem forall_performed_makeDirs : (∀ e ∈ performed f fs (.makeDirs site p :: rest), P e) ↔
    (makes f fs site (fs.locate p) = true → ∀ fs', fs.createDirAll p = .ok fs' →
      ∀ e ∈ performed f fs' rest, P e) := by
  rw [performed]
  cases hmakes : makes f fs site (fs.locate p) with
  | false =>
    rw [next_makeDirs_of_not_makes hmakes]
    exact ⟨nofun, fun _ => List.forall_mem_nil _⟩
  | true =>
    obtain ⟨fs', hmake, hnext⟩ := next_makeDirs_of_makes hmakes
    rw [hnext]
    refine ⟨fun h _ fs'' hmake' => ?_, fun h => h rfl fs' hmake⟩
    rw [← Except.ok.inj (hmake.symm.trans hmake')]
    exact h

theorem forall_performed_write (hrest : ∀ step ∈ rest, step.keepsDirs = true) {contents : F} :
    (∀ e ∈ performed f fs (.write site p contents true :: rest), P e) ↔
      (writes f fs [] site (fs.locate p) = true →
        P (fs.locate p, contents) ∧ ∀ e ∈ performed f fs rest, P e) := by
  rw [performed, next_write]
  cases hgoes : writes f fs [] site (fs.locate p) with
  | false => exact ⟨nofun, fun _ => List.forall_mem_nil _⟩
  | true =>
    rw [if_pos rfl]
    dsimp only
    rw [(performed_set hrest hgoes contents).1, FileStep.written, List.singleton_append,
      List.forall_mem_cons]
    exact ⟨fun h _ => h, fun h => h rfl⟩

theorem forall_performed_optional (hrest : ∀ step ∈ rest, step.keepsDirs = true) {contents : F} :
    (∀ e ∈ performed f fs (.write site p contents false :: rest), P e) ↔
      (writes f fs [] site (fs.locate p) = true → P (fs.locate p, contents)) ∧
        ∀ e ∈ performed f fs rest, P e := by
  rw [performed, next_write]
  cases hgoes : writes f fs [] site (fs.locate p) with
  | false => exact ⟨fun h => ⟨nofun, h⟩, fun h => h.2⟩
  | true =>
    rw [if_pos rfl]
    dsimp only
    rw [(performed_set hrest hgoes contents).1, FileStep.written, List.singleton_append,
      List.forall_mem_cons]
    exact ⟨fun h => ⟨fun _ => h.1, h.2⟩, fun h => ⟨h.1 rfl, h.2⟩⟩

theorem run_check (ok : Bool) : (run f fs (.check ok :: rest)).1 = (ok && (run f fs rest).1) := by
  cases ok <;> rfl

theorem run_makeDirs_of_makes (h : makes f fs site (fs.locate p) = true) (rest : FilePlan σ F) :
    ∃ fs', fs.createDirAll p = .ok fs' ∧
    run f fs (.makeDirs site p :: rest) = run f fs' rest := by
  obtain ⟨fs', hmake, hnext⟩ := next_makeDirs_of_makes h
  refine ⟨fs', hmake, ?_⟩
  rw [run, hnext]

theorem run_makeDirs_of_not_makes (h : makes f fs site (fs.locate p) = false) :
    (run f fs (.makeDirs site p :: rest)).1 = false := by
  rw [run, next_makeDirs_of_not_makes h]
  rfl

theorem run_write (hrest : ∀ step ∈ rest, step.keepsDirs = true) (contents : F) (required : Bool) :
    (run f fs (.write site p contents required :: rest)).1 =
      ((writes f fs [] site (fs.locate p) || !required) && (run f fs rest).1) := by
  rw [run, next_write]
  cases hgoes : writes f fs [] site (fs.locate p) with
  | false => cases required <;> rfl
  | true => exact (performed_set hrest hgoes contents).2

end Steps

end FilePlan

end SimpleSandbox
