import SimpleSandbox.RustText

/-!
# Operating-system strings and path texts

`std::ffi::OsString` and the part of `std::path` the crates use on Unix: joining,
components, parent and file name, and the lexical resolution of `.`, `..`, empty
and absolute components against a base directory.

An OS string is an arbitrary byte string.  As Rust's `Utf8Chunks` does, it is read
as a sequence of Unicode characters and of maximal ill-formed chunks, so that a
text is an OS string without ill-formed chunks and `Path::display`, which replaces
each such chunk by U+FFFD, is a map over the sequence.
-/

namespace SimpleSandbox.OsPath

/-! ## OS strings -/

inductive OsChar where
  | char (c : Char)
  | invalid (bytes : List UInt8)   -- a maximal ill-formed chunk of the byte string
deriving DecidableEq, Repr

abbrev OsString := List OsChar

abbrev PathBuf := OsString

/-- `OsString::from(String)` / `PathBuf::from(String)` -/
def osString (s : String) : OsString := s.toList.map .char

/-- What a lossy conversion shows for one element. -/
def OsChar.lossy : OsChar → Char
  | .char c => c
  | .invalid _ => '\uFFFD'

/-- `Path::display().to_string()` and `OsStr::to_string_lossy` -/
def display (s : OsString) : String := String.ofList (s.map OsChar.lossy)

def OsChar.isChar : OsChar → Bool
  | .char _ => true
  | .invalid _ => false

/-- The OS string is valid UTF-8. -/
def isUtf8 (s : OsString) : Bool := s.all OsChar.isChar

@[simp] theorem osString_append (s t : String) : osString (s ++ t) = osString s ++ osString t := by
  simp [osString]

@[simp] theorem display_append (s t : OsString) : display (s ++ t) = display s ++ display t := by
  apply String.ext
  simp [display]

@[simp] theorem display_osString (s : String) : display (osString s) = s := by
  apply String.ext
  simp [display, osString, OsChar.lossy, Function.comp_def]

theorem osString_injective : Function.Injective osString := by
  intro s t h
  rw [← display_osString s, h, display_osString]

/-- Displaying is lossless exactly on UTF-8. -/
theorem osString_display_iff (s : OsString) : osString (display s) = s ↔ isUtf8 s = true := by
  simp only [osString, display, String.toList_ofList, List.map_map]
  induction s with
  | nil => simp [isUtf8]
  | cons c s ih =>
    cases c with
    | char c =>
      simp only [List.map_cons, isUtf8, List.all_cons, OsChar.isChar, Bool.true_and,
        List.cons.injEq]
      simpa [isUtf8, OsChar.lossy] using ih
    | invalid bytes => simp [isUtf8, OsChar.isChar]

/-! ## Path texts -/

/-- The path separator. -/
def sep : OsChar := .char '/'

/-- `Path::is_absolute` -/
def isAbsolute (p : PathBuf) : Bool := p.head? == some sep

/-- `Path::join`: an absolute argument replaces the path, and a separator is put in
    between unless the path is empty or already ends in one. -/
def join (p q : PathBuf) : PathBuf :=
  if isAbsolute q then q
  else if p = [] ∨ p.getLast? = some sep then p ++ q
  else p ++ sep :: q

inductive Component where
  | rootDir
  | curDir
  | parentDir
  | normal (name : OsString)
deriving DecidableEq, Repr

/-- The component a text between two separators stands for; empty texts and `.`
    are dropped by `Path::components`. -/
def ofSegment (s : OsString) : Option Component :=
  if s = [] ∨ s = osString "." then none
  else if s = osString ".." then some .parentDir
  else some (.normal s)

/-- `Path::components`: only a leading `.` survives as a component. -/
def components (p : PathBuf) : List Component :=
  let segments := p.splitOn sep
  (if isAbsolute p then [.rootDir]
   else if segments.head? = some (osString ".") then [.curDir]
   else []) ++ segments.filterMap ofSegment

/-- `Component::as_os_str` -/
def Component.text : Component → OsString
  | .rootDir => [sep]
  | .curDir => osString "."
  | .parentDir => osString ".."
  | .normal name => name

/-- Collecting components into a `PathBuf`. -/
def ofComponents (cs : List Component) : PathBuf :=
  cs.foldl (fun p c => join p c.text) []

/-- `Path::parent`, given by its components: Rust returns the slice of the text that
    ends before the last component, which is the same `Path`. -/
def parent (p : PathBuf) : Option PathBuf :=
  match (components p).getLast? with
  | none | some .rootDir => none
  | some _ => some (ofComponents (components p).dropLast)

/-- `Path::file_name` -/
def fileName (p : PathBuf) : Option OsString :=
  match (components p).getLast? with
  | some (.normal name) => some name
  | _ => none

/-! ## Resolution -/

/-- A location: the names on the way down from the root of the file system. -/
abbrev Location := List OsString

/-- One component applied to a location; `..` stays at the root. -/
def walk (base : Location) : Component → Location
  | .rootDir => []
  | .curDir => base
  | .parentDir => base.dropLast
  | .normal name => base ++ [name]

/-- The location a path text names when it is read from `base`. -/
def resolve (base : Location) (p : PathBuf) : Location :=
  (components p).foldl walk base

theorem resolve_eq (base : Location) (p : PathBuf) :
    resolve base p =
      ((p.splitOn sep).filterMap ofSegment).foldl walk (if isAbsolute p then [] else base) := by
  unfold resolve components
  by_cases habs : isAbsolute p = true
  · simp [habs, walk]
  · by_cases hcur : (p.splitOn sep).head? = some (osString ".")
    · simp [habs, hcur, walk]
    · simp [habs, hcur]

@[simp] theorem isAbsolute_append_of_ne_nil {p : PathBuf} (hp : p ≠ []) (q : PathBuf) :
    isAbsolute (p ++ q) = isAbsolute p := by
  cases p with
  | nil => exact absurd rfl hp
  | cons c p => rfl

theorem resolve_of_isAbsolute {q : PathBuf} (hq : isAbsolute q = true) (base base' : Location) :
    resolve base q = resolve base' q := by
  rw [resolve_eq, resolve_eq, if_pos hq, if_pos hq]

/-- The separator splits a joined path into the segments of its two sides. -/
theorem resolve_append_sep {p : PathBuf} (hp : p ≠ []) {q : PathBuf} (hq : isAbsolute q = false)
    (base : Location) : resolve base (p ++ sep :: q) = resolve (resolve base p) q := by
  rw [resolve_eq base (p ++ sep :: q), resolve_eq _ q, resolve_eq base p, hq,
    isAbsolute_append_of_ne_nil hp, List.splitOn_append_cons_self, List.filterMap_append,
    List.foldl_append]
  rfl

theorem resolve_append_sep_nil {p : PathBuf} (hp : p ≠ []) (base : Location) :
    resolve base (p ++ [sep]) = resolve base p := by
  rw [resolve_append_sep hp rfl]
  rfl

/-- **Resolution of a join.**  Joining is composition: the right-hand side is read
    from the location of the left-hand side. -/
theorem resolve_join (base : Location) (p q : PathBuf) :
    resolve base (join p q) = resolve (resolve base p) q := by
  unfold join
  split
  · rename_i hq
    exact resolve_of_isAbsolute hq _ _
  · rename_i hq
    have hq' : isAbsolute q = false := by simpa using hq
    split
    · rename_i hend
      by_cases hp : p = []
      · subst hp; rfl
      · have hlast : p.getLast? = some sep := hend.resolve_left hp
        obtain ⟨p', rfl⟩ : ∃ p', p = p' ++ [sep] := List.getLast?_eq_some_iff.mp hlast
        by_cases hp' : p' = []
        · subst hp'
          rw [List.nil_append, List.singleton_append, resolve_eq _ (sep :: q), resolve_eq _ q, hq']
          have hsplit : (sep :: q).splitOn sep = [] :: q.splitOn sep :=
            List.splitOn_append_cons_self [] q
          rw [hsplit]
          rfl
        · rw [List.append_assoc, List.singleton_append, resolve_append_sep hp' hq',
            resolve_append_sep_nil hp']
    · rename_i hend
      have hp : p ≠ [] := fun h => hend (Or.inl h)
      exact resolve_append_sep hp hq' base

/-! ## Single names -/

/-- The text is one ordinary path component. -/
def IsName (s : OsString) : Prop :=
  s ≠ [] ∧ sep ∉ s ∧ s ≠ osString "." ∧ s ≠ osString ".."

instance (s : OsString) : Decidable (IsName s) := by unfold IsName; infer_instance

theorem IsName.isAbsolute {s : OsString} (hs : IsName s) : isAbsolute s = false := by
  obtain ⟨hne, hsep, -, -⟩ := hs
  cases s with
  | nil => exact absurd rfl hne
  | cons c s =>
    have hc : c ≠ sep := fun h => hsep (by simp [h])
    simpa [OsPath.isAbsolute] using hc

theorem IsName.ofSegment {s : OsString} (hs : IsName s) : ofSegment s = some (.normal s) := by
  obtain ⟨hne, -, hdot, hdots⟩ := hs
  simp [OsPath.ofSegment, hne, hdot, hdots]

theorem IsName.splitOn {s : OsString} (hs : IsName s) : s.splitOn sep = [s] :=
  List.splitOn_eq_singleton hs.2.1

@[simp] theorem IsName.resolve {s : OsString} (hs : IsName s) (base : Location) :
    resolve base s = base ++ [s] := by
  rw [resolve_eq, hs.splitOn, hs.isAbsolute]
  simp [hs.ofSegment, walk]

theorem IsName.components {s : OsString} (hs : IsName s) : components s = [.normal s] := by
  unfold OsPath.components
  have hdot : s ≠ osString "." := hs.2.2.1
  simp [hs.splitOn, hs.isAbsolute, hs.ofSegment, hdot]

theorem head?_splitOn_append (p : PathBuf) {q : PathBuf} :
    ((p ++ sep :: q).splitOn sep).head? = (p.splitOn sep).head? := by
  rw [List.splitOn_append_cons_self, List.head?_append_of_ne_nil _ (List.splitOn_ne_nil sep p)]

theorem components_append_sep {p : PathBuf} (hp : p ≠ []) (q : PathBuf) :
    components (p ++ sep :: q) = components p ++ (q.splitOn sep).filterMap ofSegment := by
  simp only [components]
  rw [isAbsolute_append_of_ne_nil hp, head?_splitOn_append, List.splitOn_append_cons_self,
    List.filterMap_append, List.append_assoc]

/-- Joining one name appends one component. -/
theorem components_join_name (p : PathBuf) {s : OsString} (hs : IsName s) :
    components (join p s) = components p ++ [.normal s] := by
  have hseg : (s.splitOn sep).filterMap ofSegment = [.normal s] := by
    simp [hs.splitOn, hs.ofSegment]
  unfold join
  rw [hs.isAbsolute]
  simp only [Bool.false_eq_true, ↓reduceIte]
  split
  · rename_i hend
    by_cases hp : p = []
    · subst hp
      rw [List.nil_append, hs.components]
      rfl
    · have hlast : p.getLast? = some sep := hend.resolve_left hp
      obtain ⟨p', rfl⟩ : ∃ p', p = p' ++ [sep] := List.getLast?_eq_some_iff.mp hlast
      by_cases hp' : p' = []
      · subst hp'
        have hsplit : (sep :: s).splitOn sep = [] :: s.splitOn sep :=
          List.splitOn_append_cons_self [] s
        have hnil : ofSegment [] = none := rfl
        simp only [List.nil_append, List.singleton_append, components, hsplit,
          List.filterMap_cons, hnil, hseg]
        rfl
      · rw [List.append_assoc, List.singleton_append, components_append_sep hp', hseg,
          components_append_sep hp']
        simp [ofSegment]
  · rename_i hend
    have hp : p ≠ [] := fun h => hend (Or.inl h)
    rw [components_append_sep hp, hseg]

/-- A segment holds no separator. -/
theorem not_mem_of_mem_splitOn {α : Type} [DecidableEq α] {a : α} {p s : List α}
    (h : s ∈ p.splitOn a) : a ∉ s := by
  induction p generalizing s with
  | nil =>
    have hs : s = [] := by simpa using h
    simp [hs]
  | cons c p ih =>
    rw [List.splitOn_cons_eq_if_modifyHead] at h
    split at h
    · rcases List.mem_cons.mp h with rfl | h
      · simp
      · exact ih h
    · rename_i hc
      obtain ⟨t, rest, hsplit⟩ := List.exists_cons_of_ne_nil (List.splitOn_ne_nil a p)
      rw [hsplit, List.modifyHead_cons] at h
      rcases List.mem_cons.mp h with rfl | h
      · have ht : a ∉ t := ih (by simp [hsplit])
        have hca : c ≠ a := by simpa using hc
        simp [ht, hca.symm]
      · exact ih (by simp [hsplit, h])

/-- A segment is made of what the list holds. -/
theorem mem_of_mem_splitOn {α : Type} [DecidableEq α] {a c : α} {p s : List α}
    (h : s ∈ p.splitOn a) (hc : c ∈ s) : c ∈ p := by
  induction p generalizing s with
  | nil =>
    have hs : s = [] := by simpa using h
    simp [hs] at hc
  | cons b p ih =>
    rw [List.splitOn_cons_eq_if_modifyHead] at h
    split at h
    · rcases List.mem_cons.mp h with rfl | h
      · simp at hc
      · exact List.mem_cons_of_mem _ (ih h hc)
    · obtain ⟨t, rest, hsplit⟩ := List.exists_cons_of_ne_nil (List.splitOn_ne_nil a p)
      rw [hsplit, List.modifyHead_cons] at h
      rcases List.mem_cons.mp h with rfl | h
      · rcases List.mem_cons.mp hc with rfl | hc
        · exact List.mem_cons_self
        · exact List.mem_cons_of_mem _ (ih (by simp [hsplit]) hc)
      · exact List.mem_cons_of_mem _ (ih (by simp [hsplit, h]) hc)

theorem ofSegment_eq_normal_iff {t s : OsString} :
    ofSegment t = some (.normal s) ↔
      t = s ∧ s ≠ [] ∧ s ≠ osString "." ∧ s ≠ osString ".." := by
  unfold ofSegment
  split
  · rename_i hdrop
    refine iff_of_false (by simp) ?_
    rintro ⟨rfl, hne, hdot, -⟩
    exact hdrop.elim hne hdot
  · rename_i hdrop
    split
    · rename_i hdots
      refine iff_of_false (by simp) ?_
      rintro ⟨rfl, -, -, hne⟩
      exact hne hdots
    · rename_i hdots
      constructor
      · intro h
        obtain rfl : t = s := Component.normal.inj (Option.some.inj h)
        exact ⟨rfl, fun h => hdrop (Or.inl h), fun h => hdrop (Or.inr h), hdots⟩
      · rintro ⟨rfl, -⟩
        rfl

/-- An ordinary component is one of the segments. -/
theorem mem_splitOn_of_mem_components {p : PathBuf} {s : OsString}
    (h : .normal s ∈ components p) : s ∈ p.splitOn sep ∧ ofSegment s = some (.normal s) := by
  have hmem : .normal s ∈ (p.splitOn sep).filterMap ofSegment := by
    unfold components at h
    rcases List.mem_append.mp h with h | h
    · split at h
      · simp at h
      · split at h
        · simp at h
        · simp at h
    · exact h
  obtain ⟨t, ht, hof⟩ := List.mem_filterMap.mp hmem
  obtain rfl : t = s := (ofSegment_eq_normal_iff.mp hof).1
  exact ⟨ht, hof⟩

/-- Every ordinary component of a path text is one name. -/
theorem isName_of_mem_components {p : PathBuf} {s : OsString}
    (h : .normal s ∈ components p) : IsName s := by
  obtain ⟨hmem, hof⟩ := mem_splitOn_of_mem_components h
  obtain ⟨-, hne, hdot, hdots⟩ := ofSegment_eq_normal_iff.mp hof
  exact ⟨hne, not_mem_of_mem_splitOn hmem, hdot, hdots⟩

theorem normal_mem_of_fileName {p : PathBuf} {name : OsString} (h : fileName p = some name) :
    .normal name ∈ components p := by
  rw [fileName] at h
  split at h
  · rename_i s hlast
    rw [← Option.some.inj h]
    exact List.mem_of_getLast? hlast
  · cases h

/-- A file name is made of what the path text holds. -/
theorem mem_of_mem_fileName {p : PathBuf} {name : OsString} (h : fileName p = some name)
    {c : OsChar} (hc : c ∈ name) : c ∈ p :=
  mem_of_mem_splitOn (mem_splitOn_of_mem_components (normal_mem_of_fileName h)).1 hc

theorem ofSegment_ne_rootDir (s : OsString) : ofSegment s ≠ some .rootDir := by
  unfold ofSegment
  split
  · simp
  · split <;> simp

theorem isAbsolute_of_rootDir_mem {p : PathBuf} (h : .rootDir ∈ components p) :
    isAbsolute p = true := by
  by_contra habs
  rw [components, if_neg habs] at h
  rcases List.mem_append.mp h with h | h
  · split at h
    · simp at h
    · simp at h
  · obtain ⟨s, -, hs⟩ := List.mem_filterMap.mp h
    exact ofSegment_ne_rootDir s hs

/-! ## Names with a suffix -/

/-- A suffix without a separator becomes part of the last segment. -/
theorem exists_splitOn_append (p : PathBuf) {q : PathBuf} (hq : sep ∉ q) :
    ∃ segments t, p.splitOn sep = segments ++ [t] ∧
      (p ++ q).splitOn sep = segments ++ [t ++ q] := by
  induction hn : p.length using Nat.strongRecOn generalizing p with
  | ind n ih =>
    subst hn
    by_cases hp : sep ∈ p
    · obtain ⟨a, b, rfl, -⟩ := List.eq_append_cons_of_mem hp
      have hshort : b.length < (a ++ sep :: b).length := by
        rw [List.length_append, List.length_cons]
        omega
      obtain ⟨segments, t, hsplit, hsplit'⟩ := ih b.length hshort b rfl
      refine ⟨a.splitOn sep ++ segments, t, ?_, ?_⟩
      · rw [List.splitOn_append_cons_self, hsplit, List.append_assoc]
      · rw [List.append_assoc, List.cons_append, List.splitOn_append_cons_self, hsplit',
          List.append_assoc]
    · refine ⟨[], p, List.splitOn_eq_singleton hp, ?_⟩
      rw [List.splitOn_eq_singleton]
      · rfl
      · simp [hp, hq]

theorem ofSegment_append {t q : OsString} (hlen : 2 < q.length) :
    ofSegment (t ++ q) = some (.normal (t ++ q)) := by
  have hlong : 2 < (t ++ q).length := by
    rw [List.length_append]
    omega
  have hne : ∀ s : OsString, s.length ≤ 2 → t ++ q ≠ s := by
    rintro s hs rfl
    omega
  rw [ofSegment, if_neg, if_neg]
  · exact hne _ (by decide)
  · rintro (h | h)
    · exact hne [] (by decide) h
    · exact hne _ (by decide) h

/-- A path text with a suffix names an entry with that suffix. -/
theorem exists_resolve_append (base : Location) (p : PathBuf) {q : PathBuf} (hq : sep ∉ q)
    (hlen : 2 < q.length) : ∃ d t, resolve base (p ++ q) = d ++ [t ++ q] := by
  obtain ⟨segments, t, -, hsplit⟩ := exists_splitOn_append p hq
  rw [resolve_eq, hsplit, List.filterMap_append, List.foldl_append, List.filterMap_cons,
    ofSegment_append hlen]
  exact ⟨_, t, rfl⟩

/-- Walking keeps the order of the depths. -/
theorem length_foldl_walk_le (cs : List Component) {base base' : Location}
    (h : base.length ≤ base'.length) : (cs.foldl walk base).length ≤ (cs.foldl walk base').length := by
  induction cs generalizing base base' with
  | nil => exact h
  | cons c rest ih =>
    refine ih ?_
    cases c with
    | rootDir => exact le_rfl
    | curDir => exact h
    | parentDir => simpa [walk] using Nat.sub_le_sub_right h 1
    | normal s => simpa [walk] using h

/-- With a suffix, a path text read from a higher base names nothing in what it names without it
    when it is read from a deeper one. -/
theorem resolve_append_ne {base base' : Location} (h : base.length ≤ base'.length) (p : PathBuf)
    {q name : PathBuf} (hq : sep ∉ q) (hlen : 2 < q.length) (hname : IsName name) :
    resolve base (p ++ q) ≠ resolve base' p ++ [name ++ q] := by
  obtain ⟨segments, t, hsplit, hsplit'⟩ := exists_splitOn_append p hq
  have hstart : (if isAbsolute (p ++ q) then [] else base).length ≤
      (if isAbsolute p then [] else base').length := by
    by_cases hp : p = []
    · subst hp
      rw [if_neg (by decide : ¬ isAbsolute [] = true)]
      split
      · exact Nat.zero_le _
      · exact h
    · rw [isAbsolute_append_of_ne_nil hp]
      split
      · exact le_rfl
      · exact h
  rw [resolve_eq, resolve_eq, hsplit, hsplit', List.filterMap_append, List.filterMap_append,
    List.foldl_append, List.foldl_append]
  generalize (if isAbsolute (p ++ q) then [] else base) = start at hstart ⊢
  generalize (if isAbsolute p then [] else base') = start' at hstart ⊢
  have hle := length_foldl_walk_le (segments.filterMap ofSegment) hstart
  have hsuffix : [t ++ q].filterMap ofSegment = [.normal (t ++ q)] := by
    rw [List.filterMap_cons, ofSegment_append hlen]
    rfl
  rw [hsuffix]
  intro heq
  -- the last segment is the name, which is walked down into
  have hlast : t ++ q = name ++ q := List.head_eq_of_cons_eq (List.append_inj' heq rfl).2
  obtain rfl : t = name := List.append_cancel_right hlast
  have hdown : [t].filterMap ofSegment = [.normal t] := by
    rw [List.filterMap_cons, hname.ofSegment]
    rfl
  rw [hdown] at heq
  have hlens := congrArg List.length heq
  simp only [List.foldl_cons, List.foldl_nil, walk, List.length_append, List.length_cons,
    List.length_nil] at hlens
  omega

/-! ## Parents -/

theorem resolve_text (base : Location) {c : Component} (hc : ∀ s, c = .normal s → IsName s) :
    resolve base c.text = walk base c := by
  cases c with
  | rootDir => rfl
  | curDir => rfl
  | parentDir => rfl
  | normal s => exact (hc s rfl).resolve base

/-- Collecting components back into a path text does not move it. -/
theorem resolve_ofComponents (base : Location) {cs : List Component}
    (hcs : ∀ s, .normal s ∈ cs → IsName s) : resolve base (ofComponents cs) = cs.foldl walk base := by
  induction cs using List.reverseRecOn with
  | nil => rfl
  | append_singleton cs c ih =>
    have hlast : ∀ s, c = .normal s → IsName s := by
      rintro s rfl
      exact hcs s (by simp)
    have hinit : ∀ s, .normal s ∈ cs → IsName s := fun s hs => hcs s (by simp [hs])
    simp only [ofComponents, List.foldl_append, List.foldl_cons, List.foldl_nil]
    rw [resolve_join, resolve_text _ hlast]
    exact congrArg (walk · c) (ih hinit)

/-- **The parent of a joined name** is the directory it was joined to. -/
theorem resolve_parent_join_name (p : PathBuf) {s : OsString} (hs : IsName s) :
    ∃ d, parent (join p s) = some d ∧ ∀ base, resolve base d = resolve base p := by
  have hcomp := components_join_name p hs
  refine ⟨ofComponents (components p), ?_, fun base => ?_⟩
  · simp [parent, hcomp]
  · rw [resolve_ofComponents base fun t ht => isName_of_mem_components ht]
    rfl

/-! ## Lossy paths -/

theorem isAbsolute_join (p q : PathBuf) : isAbsolute (join p q) = (isAbsolute p || isAbsolute q) := by
  unfold join
  by_cases hq : isAbsolute q = true
  · rw [if_pos hq, hq, Bool.or_true]
  · have hq' : isAbsolute q = false := by simpa using hq
    rw [if_neg hq, hq', Bool.or_false]
    by_cases hp : p = []
    · subst hp
      rw [if_pos (Or.inl rfl)]
      exact hq'
    · split <;> exact isAbsolute_append_of_ne_nil hp _

theorem isUtf8_of_join {p q : PathBuf} (hq : isAbsolute q = false) (h : isUtf8 (join p q) = true) :
    isUtf8 p = true := by
  unfold join at h
  rw [hq, if_neg (by simp)] at h
  split at h
  · rw [isUtf8, List.all_append, Bool.and_eq_true] at h
    exact h.1
  · rw [isUtf8, List.all_append, Bool.and_eq_true] at h
    exact h.1

theorem isUtf8_join {p q : PathBuf} (hp : isUtf8 p = true) (hq : isUtf8 q = true) :
    isUtf8 (join p q) = true := by
  unfold join
  split
  · exact hq
  · rw [isUtf8] at hp hq
    split <;> simp [isUtf8, OsChar.isChar, sep, hp, hq]

/-- A path after a lossy conversion and back. -/
def lossy (p : PathBuf) : PathBuf := osString (display p)

@[simp] theorem lossy_osString (s : String) : lossy (osString s) = osString s := by
  rw [lossy, display_osString]

theorem lossy_append (p q : PathBuf) : lossy (p ++ q) = lossy p ++ lossy q := by
  rw [lossy, display_append, osString_append, lossy, lossy]

theorem lossy_eq_map (p : PathBuf) : lossy p = p.map fun c => .char c.lossy := by
  simp [lossy, osString, display, Function.comp_def]

theorem lossy_eq_sep_iff (c : OsChar) : OsChar.char c.lossy = sep ↔ c = sep := by
  cases c with
  | char c => rfl
  | invalid bytes =>
    refine ⟨fun h => ?_, fun h => nomatch h⟩
    have hchar : '\uFFFD' = '/' := OsChar.char.inj h
    exact absurd hchar (by decide)

theorem head?_lossy (p : PathBuf) : (lossy p).head? = some sep ↔ p.head? = some sep := by
  rw [lossy_eq_map, List.head?_map]
  cases p.head? with
  | none => simp
  | some c => simpa using lossy_eq_sep_iff c

theorem getLast?_lossy (p : PathBuf) : (lossy p).getLast? = some sep ↔ p.getLast? = some sep := by
  rw [lossy_eq_map, List.getLast?_map]
  cases p.getLast? with
  | none => simp
  | some c => simpa using lossy_eq_sep_iff c

theorem isAbsolute_lossy (p : PathBuf) : isAbsolute (lossy p) = isAbsolute p := by
  rw [Bool.eq_iff_iff, isAbsolute, isAbsolute, beq_iff_eq, beq_iff_eq]
  exact head?_lossy p

theorem lossy_eq_nil_iff (p : PathBuf) : lossy p = [] ↔ p = [] := by
  rw [lossy_eq_map, List.map_eq_nil_iff]

/-- A lossy conversion moves no separator. -/
theorem lossy_join (p q : PathBuf) : lossy (join p q) = join (lossy p) (lossy q) := by
  have hsep : lossy [sep] = [sep] := rfl
  unfold join
  rw [isAbsolute_lossy]
  split
  · rfl
  · simp only [lossy_eq_nil_iff, getLast?_lossy]
    split
    · exact lossy_append p q
    · rw [← List.singleton_append, lossy_append, lossy_append, hsep, List.singleton_append]

theorem splitOn_lossy (p : PathBuf) : (lossy p).splitOn sep = (p.splitOn sep).map lossy := by
  have hlossy : ∀ l : PathBuf, lossy l = l.map fun c => .char c.lossy := lossy_eq_map
  induction p with
  | nil => rfl
  | cons c p ih =>
    have hcons : lossy (c :: p) = OsChar.char c.lossy :: lossy p := by
      rw [hlossy, hlossy, List.map_cons]
    rw [hcons]
    unfold List.splitOn at ih ⊢
    rw [List.splitOnP_cons_eq_if_modifyHead, List.splitOnP_cons_eq_if_modifyHead, ih]
    by_cases hc : c = sep
    · subst hc
      rfl
    · have hkept : OsChar.char c.lossy ≠ sep := fun h => hc ((lossy_eq_sep_iff c).mp h)
      have hc' : (c == sep) = false := by simpa using hc
      have hkept' : (OsChar.char c.lossy == sep) = false := by simpa using hkept
      rw [hc', hkept', if_neg (by simp), if_neg (by simp)]
      cases p.splitOnP (· == sep) with
      | nil => rfl
      | cons x xs =>
        rw [List.modifyHead_cons, List.map_cons, List.modifyHead_cons, List.map_cons, hlossy (c :: x),
          List.map_cons, ← hlossy]

/-- A text without a replacement character is shown for itself only. -/
theorem eq_of_lossy_eq {s : OsString} {t : String} (ht : '\uFFFD' ∉ t.toList)
    (h : lossy s = osString t) : s = osString t := by
  have hchar : ∀ c ∈ s, c = OsChar.char c.lossy := by
    intro c hc
    cases c with
    | char c => rfl
    | invalid bytes =>
      have hmem : OsChar.char '\uFFFD' ∈ osString t := by
        rw [← h, lossy_eq_map]
        exact List.mem_map_of_mem (f := fun c => OsChar.char c.lossy) hc
      obtain ⟨c, hmem, hc⟩ := List.mem_map.mp hmem
      rw [OsChar.char.inj hc] at hmem
      exact absurd hmem ht
  rw [← h, lossy_eq_map]
  calc s = s.map id := (List.map_id s).symm
    _ = s.map (fun c => OsChar.char c.lossy) := List.map_congr_left hchar

/-- A component after a lossy conversion. -/
def Component.lossy : Component → Component
  | .normal name => .normal (OsPath.lossy name)
  | c => c

theorem walk_lossy (base : Location) (c : Component) :
    walk (base.map lossy) c.lossy = (walk base c).map lossy := by
  cases c with
  | rootDir => rfl
  | curDir => rfl
  | parentDir => exact List.map_dropLast.symm
  | normal name =>
    change base.map lossy ++ [lossy name] = (base ++ [name]).map lossy
    rw [List.map_append, List.map_singleton]

theorem ofSegment_lossy (s : OsString) :
    ofSegment (lossy s) = (ofSegment s).map Component.lossy := by
  have hdot : lossy s = osString "." ↔ s = osString "." :=
    ⟨eq_of_lossy_eq (by decide), fun h => by rw [h, lossy_osString]⟩
  have hdots : lossy s = osString ".." ↔ s = osString ".." :=
    ⟨eq_of_lossy_eq (by decide), fun h => by rw [h, lossy_osString]⟩
  simp only [ofSegment, lossy_eq_nil_iff, hdot, hdots]
  split
  · rfl
  · split <;> rfl

/-- What a path names is shown name by name. -/
theorem resolve_lossy (p : PathBuf) : resolve [] (lossy p) = (resolve [] p).map lossy := by
  rw [resolve_eq, resolve_eq, splitOn_lossy, isAbsolute_lossy, ite_self]
  generalize p.splitOn sep = segments
  have hwalk : ∀ base : Location,
      ((segments.map lossy).filterMap ofSegment).foldl walk (base.map lossy) =
        ((segments.filterMap ofSegment).foldl walk base).map lossy := by
    induction segments with
    | nil => exact fun base => rfl
    | cons s segments ih =>
      intro base
      rw [List.map_cons, List.filterMap_cons, List.filterMap_cons, ofSegment_lossy]
      cases hs : ofSegment s with
      | none => exact ih base
      | some c =>
        rw [Option.map_some, List.foldl_cons, List.foldl_cons, walk_lossy]
        exact ih _
  exact hwalk []

/-! ## Beneath a directory -/

/-- `p` is `dir` itself or lies below it. -/
def AtOrBeneath (dir p : Location) : Prop := dir <+: p

/-- `p` lies below `dir` and is not `dir` itself. -/
def StrictlyBeneath (dir p : Location) : Prop := dir <+: p ∧ p ≠ dir

instance (dir p : Location) : Decidable (AtOrBeneath dir p) := by
  unfold AtOrBeneath; infer_instance

instance (dir p : Location) : Decidable (StrictlyBeneath dir p) := by
  unfold StrictlyBeneath; infer_instance

theorem strictlyBeneath_append {dir rel : Location} (h : rel ≠ []) :
    StrictlyBeneath dir (dir ++ rel) :=
  ⟨List.prefix_append dir rel, fun heq => h (List.append_right_eq_self.mp heq)⟩

theorem StrictlyBeneath.append {dir p : Location} (h : StrictlyBeneath dir p) (rel : Location) :
    StrictlyBeneath dir (p ++ rel) := by
  obtain ⟨⟨mid, rfl⟩, hne⟩ := h
  rw [List.append_assoc]
  apply strictlyBeneath_append
  intro hnil
  apply hne
  rw [(List.append_eq_nil_iff.mp hnil).1, List.append_nil]

/-! ## Depth -/

/-- How far below its base a path leads from depth `d`, if it never climbs above the base. -/
def descend : ℕ → List Component → Option ℕ
  | d, [] => some d
  | _, .rootDir :: _ => none
  | d, .curDir :: cs => descend d cs
  | 0, .parentDir :: _ => none
  | d + 1, .parentDir :: cs => descend d cs
  | d, .normal _ :: cs => descend (d + 1) cs

theorem descend_append (cs cs' : List Component) (d : ℕ) :
    descend d (cs ++ cs') = (descend d cs).bind fun d' => descend d' cs' := by
  induction cs generalizing d with
  | nil => rfl
  | cons c cs ih =>
    cases c with
    | rootDir => rfl
    | curDir => exact ih d
    | parentDir =>
      cases d with
      | zero => rfl
      | succ d => exact ih d
    | normal s => exact ih (d + 1)

/-- A path that never climbs above its base stays beneath it. -/
theorem exists_foldl_walk {cs : List Component} {d : ℕ} (base rel : Location)
    (h : descend rel.length cs = some d) :
    ∃ rel', rel'.length = d ∧ cs.foldl walk (base ++ rel) = base ++ rel' := by
  induction cs generalizing rel with
  | nil => exact ⟨rel, Option.some.inj h, rfl⟩
  | cons c cs ih =>
    cases c with
    | rootDir => simp [descend] at h
    | curDir => exact ih rel h
    | parentDir =>
      cases rel with
      | nil => simp [descend] at h
      | cons x rest =>
        have hrest : descend (x :: rest).dropLast.length cs = some d := by
          rw [List.length_dropLast]
          exact h
        rw [List.foldl_cons, walk, List.dropLast_append_of_ne_nil (List.cons_ne_nil x rest)]
        exact ih _ hrest
    | normal s =>
      have hrest : descend (rel ++ [s]).length cs = some d := by
        rw [List.length_append]
        exact h
      rw [List.foldl_cons, walk, List.append_assoc]
      exact ih _ hrest

/-- The components of a path text, without a leading `.`. -/
def steps (p : PathBuf) : List Component := (p.splitOn sep).filterMap ofSegment

theorem descend_components (p : PathBuf) :
    descend 0 (components p) = if isAbsolute p then none else descend 0 (steps p) := by
  unfold components steps
  by_cases habs : isAbsolute p = true
  · simp [habs, descend]
  · by_cases hcur : (p.splitOn sep).head? = some (osString ".")
    · simp [habs, hcur, descend]
    · simp [habs, hcur]

/-- A path that stays beneath any base, and leads below it. -/
def IsConfined (p : PathBuf) : Prop := ∃ d, descend 0 (components p) = some (d + 1)

instance (p : PathBuf) : Decidable (IsConfined p) :=
  match h : descend 0 (components p) with
  | none => .isFalse fun ⟨_, hd⟩ => nomatch h.symm.trans hd
  | some 0 => .isFalse fun ⟨_, hd⟩ => nomatch h.symm.trans hd
  | some (d + 1) => .isTrue ⟨d, h⟩

theorem IsConfined.isAbsolute {p : PathBuf} (h : IsConfined p) : isAbsolute p = false := by
  obtain ⟨d, hd⟩ := h
  rw [descend_components] at hd
  split at hd
  · exact nomatch hd
  · rename_i habs
    simpa using habs

theorem IsConfined.steps {p : PathBuf} (h : IsConfined p) : ∃ d, descend 0 (steps p) = some (d + 1) := by
  have habs := h.isAbsolute
  obtain ⟨d, hd⟩ := h
  rw [descend_components, habs] at hd
  exact ⟨d, hd⟩

theorem IsConfined.strictlyBeneath {p : PathBuf} (h : IsConfined p) (base : Location) :
    StrictlyBeneath base (resolve base p) := by
  obtain ⟨d, hd⟩ := h.steps
  obtain ⟨rel, hlen, hwalk⟩ := exists_foldl_walk base [] hd
  have hres : resolve base p = base ++ rel := by
    rw [resolve_eq, h.isAbsolute, ← hwalk, List.append_nil]
    rfl
  rw [hres]
  apply strictlyBeneath_append
  rintro rfl
  exact nomatch hlen

/-- A suffix does not lead a confined path out. -/
theorem IsConfined.strictlyBeneath_append {p q : PathBuf} (h : IsConfined p) (hq : sep ∉ q)
    (hlen : 2 < q.length) (base : Location) : StrictlyBeneath base (resolve base (p ++ q)) := by
  obtain ⟨d, hd⟩ := h.steps
  have hp : p ≠ [] := by
    rintro rfl
    exact nomatch hd
  obtain ⟨segments, t, hsplit, hsplit'⟩ := exists_splitOn_append p hq
  rw [OsPath.steps, hsplit, List.filterMap_append, descend_append] at hd
  obtain ⟨d₁, hd₁, -⟩ := Option.bind_eq_some_iff.mp hd
  obtain ⟨rel, -, hwalk⟩ := exists_foldl_walk base [] hd₁
  have hres : resolve base (p ++ q) = base ++ (rel ++ [t ++ q]) := by
    rw [resolve_eq, isAbsolute_append_of_ne_nil hp, h.isAbsolute, hsplit', List.filterMap_append,
      List.foldl_append, List.filterMap_cons, ofSegment_append hlen, ← List.append_assoc, ← hwalk,
      List.append_nil]
    rfl
  rw [hres]
  exact OsPath.strictlyBeneath_append (by simp)

end SimpleSandbox.OsPath
