import SimpleSandbox.OsPath
import Mathlib.Data.List.Infix

/-!
# File systems

A file system is a working directory and a partial map from locations to
directories and files with contents.  The operations are those of `std::fs` the
crates call, on path texts: each either fails and changes nothing or makes exactly
the change its `node` lemma states.  A path is resolved by its text: `..` takes the
component before it away, and the directory that component names is not asked for.
Links, permissions and the partial progress of a recursive deletion are not
represented.
-/

namespace SimpleSandbox.FileSystem

open OsPath

inductive Node (F : Type) where
  | dir
  | file (contents : F)
deriving DecidableEq

inductive IoError where
  | notFound
  | notADirectory
  | isADirectory
  | other (message : String)   -- any failure the tree itself does not explain
deriving DecidableEq, Repr

end FileSystem

open OsPath FileSystem in
/-- A file system whose files hold values of type `F`. -/
structure FileSystem (F : Type) where
  cwd : Location
  node : Location → Option (Node F)

namespace FileSystem

open OsPath

variable {F : Type}

/-- The location of a path text. -/
def locate (fs : FileSystem F) (p : PathBuf) : Location := resolve fs.cwd p

/-- The contents of the file at a location. -/
def fileAt (fs : FileSystem F) (q : Location) : Option F :=
  match fs.node q with
  | some (.file contents) => some contents
  | _ => none

/-- `Path::exists` -/
def pathExists (fs : FileSystem F) (p : PathBuf) : Bool := (fs.node (fs.locate p)).isSome

/-- `Path::is_dir`, of a location. -/
def isDir (fs : FileSystem F) (q : Location) : Bool :=
  match fs.node q with
  | some .dir => true
  | _ => false

/-- `fs::read_to_string` -/
def read (fs : FileSystem F) (p : PathBuf) : Except IoError F :=
  match fs.node (fs.locate p) with
  | some (.file contents) => .ok contents
  | some .dir => .error .isADirectory
  | none => .error .notFound

/-- Put a node at a location. -/
def set (fs : FileSystem F) (q : Location) (n : Node F) : FileSystem F :=
  { fs with node := fun r => if r = q then some n else fs.node r }

/-- A file can be created or replaced at a location: a file is there, or nothing is
    there and its directory exists. -/
def canWrite (fs : FileSystem F) (q : Location) : Bool :=
  match fs.node q with
  | some .dir => false
  | some (.file _) => true
  | none =>
    match q, fs.node q.dropLast with
    | _ :: _, some .dir => true
    | _, _ => false

/-- `fs::write` -/
def write (fs : FileSystem F) (p : PathBuf) (contents : F) : Except IoError (FileSystem F) :=
  let q := fs.locate p
  if fs.canWrite q then .ok (fs.set q (.file contents))
  else if fs.node q matches some .dir then .error .isADirectory
  else .error .notFound

/-- Some location on the way to `q`, `q` included, is a file. -/
def blocked (fs : FileSystem F) (q : Location) : Bool :=
  q.inits.any fun r => (fs.fileAt r).isSome

/-- `fs::create_dir_all` -/
def createDirAll (fs : FileSystem F) (p : PathBuf) : Except IoError (FileSystem F) :=
  let q := fs.locate p
  if fs.blocked q then .error .notADirectory
  else .ok { fs with node := fun r => if r <+: q then some .dir else fs.node r }

/-- `fs::remove_file` -/
def removeFile (fs : FileSystem F) (p : PathBuf) : Except IoError (FileSystem F) :=
  let q := fs.locate p
  match fs.node q with
  | some (.file _) => .ok { fs with node := fun r => if r = q then none else fs.node r }
  | some .dir => .error .isADirectory
  | none => .error .notFound

/-- `fs::remove_dir_all` -/
def removeDirAll (fs : FileSystem F) (p : PathBuf) : Except IoError (FileSystem F) :=
  let q := fs.locate p
  match fs.node q with
  | some .dir => .ok { fs with node := fun r => if q <+: r then none else fs.node r }
  | some (.file _) => .error .notADirectory
  | none => .error .notFound

/-! ## What the operations change -/

@[simp] theorem set_cwd (fs : FileSystem F) (q : Location) (n : Node F) :
    (fs.set q n).cwd = fs.cwd := rfl

theorem fileAt_set (fs : FileSystem F) (q r : Location) (contents : F) :
    (fs.set q (.file contents)).fileAt r = if r = q then some contents else fs.fileAt r := by
  by_cases h : r = q
  · simp [fileAt, set, h]
  · simp [fileAt, set, h]

/-- A file that is there can be replaced. -/
theorem canWrite_of_fileAt {fs : FileSystem F} {q : Location} {contents : F}
    (h : fs.fileAt q = some contents) : fs.canWrite q = true := by
  unfold fileAt at h
  unfold canWrite
  cases hn : fs.node q with
  | none => simp [hn] at h
  | some n =>
    cases n with
    | dir => simp [hn] at h
    | file c => rfl

/-- In a directory everything but a directory can be replaced. -/
theorem canWrite_of_parent {fs : FileSystem F} {q : Location} (hq : q ≠ [])
    (hdir : fs.node q.dropLast = some .dir) : (!fs.isDir q) = fs.canWrite q := by
  cases q with
  | nil => exact absurd rfl hq
  | cons a l =>
    simp only [isDir, canWrite, hdir]
    rcases fs.node (a :: l) with _ | _ | _ <;> rfl

theorem write_eq_ok_iff {fs fs' : FileSystem F} {p : PathBuf} {contents : F} :
    fs.write p contents = .ok fs' ↔
      fs.canWrite (fs.locate p) = true ∧ fs' = fs.set (fs.locate p) (.file contents) := by
  unfold write
  by_cases h : fs.canWrite (fs.locate p) = true
  · simp [h, eq_comm]
  · simp only [h, Bool.false_eq_true, ↓reduceIte, false_and, iff_false]
    split <;> simp

theorem write_of_not_canWrite {fs : FileSystem F} {p : PathBuf}
    (h : fs.canWrite (fs.locate p) = false) (contents : F) :
    ∃ e, fs.write p contents = .error e := by
  cases hw : fs.write p contents with
  | error e => exact ⟨e, rfl⟩
  | ok fs' =>
    have hcan := (write_eq_ok_iff.mp hw).1
    rw [h] at hcan
    cases hcan

theorem createDirAll_eq_ok_iff {fs fs' : FileSystem F} {p : PathBuf} :
    fs.createDirAll p = .ok fs' ↔
      fs.blocked (fs.locate p) = false ∧
        fs' = { fs with node := fun r => if r <+: fs.locate p then some .dir else fs.node r } := by
  unfold createDirAll
  by_cases h : fs.blocked (fs.locate p) = true
  · simp [h]
  · simp [h, eq_comm]

/-- Making directories touches no file. -/
theorem fileAt_createDirAll {fs fs' : FileSystem F} {p : PathBuf}
    (h : fs.createDirAll p = .ok fs') (r : Location) : fs'.fileAt r = fs.fileAt r := by
  obtain ⟨hfree, rfl⟩ := createDirAll_eq_ok_iff.mp h
  by_cases hr : r <+: fs.locate p
  · have hnone : fs.fileAt r = none := by
      have hall : ∀ x ∈ (fs.locate p).inits, ¬ (fs.fileAt x).isSome = true := by
        simpa [blocked] using hfree
      simpa using hall r ((List.mem_inits _ _).mpr hr)
    rw [hnone]
    simp [fileAt, hr]
  · simp [fileAt, hr]

theorem removeFile_eq_ok_iff {fs fs' : FileSystem F} {p : PathBuf} :
    fs.removeFile p = .ok fs' ↔
      fs.fileAt (fs.locate p) ≠ none ∧
        fs' = { fs with node := fun r => if r = fs.locate p then none else fs.node r } := by
  unfold removeFile fileAt
  cases hn : fs.node (fs.locate p) with
  | none => simp [hn]
  | some n => cases n <;> simp [hn, eq_comm]

theorem removeDirAll_eq_ok_iff {fs fs' : FileSystem F} {p : PathBuf} :
    fs.removeDirAll p = .ok fs' ↔
      fs.node (fs.locate p) = some .dir ∧
        fs' = { fs with node := fun r => if fs.locate p <+: r then none else fs.node r } := by
  unfold removeDirAll
  cases hn : fs.node (fs.locate p) with
  | none => simp [hn]
  | some n => cases n <;> simp [hn, eq_comm]

theorem read_eq_ok_iff {fs : FileSystem F} {p : PathBuf} {contents : F} :
    fs.read p = .ok contents ↔ fs.fileAt (fs.locate p) = some contents := by
  unfold read fileAt
  cases fs.node (fs.locate p) with
  | none => simp
  | some n => cases n <;> simp

end FileSystem

end SimpleSandbox
