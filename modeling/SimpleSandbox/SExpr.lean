import Mathlib.Data.List.Basic

/-!
# Reading S-expressions

A text is read in two stages: a character machine cuts it into parentheses, atoms and
double-quoted strings, and a stack of open lists builds the expressions.  The machine
works in a mode, so that reading a concatenation is feeding one part after the other.

What a backslash makes of the next character differs between dialects.  A `Dialect` fixes
it, subject to the two facts every Lisp reader shares: an escaped quote is a quote, and
only an escaped backslash is a backslash.
-/

namespace SimpleSandbox

structure Dialect where
  unescape : Char → Char
  unescape_quote : unescape '"' = '"'
  eq_of_unescape : ∀ c, unescape c = '\\' → c = '\\'

/-- An expression whose string literals stand for values of type `α`. -/
inductive SExpr (α : Type) where
  | atom (name : String)
  | str (value : α)
  | list (items : List (SExpr α))

inductive SToken (α : Type) where
  | opening
  | closing
  | atom (name : String)
  | str (value : α)
deriving DecidableEq

namespace SExpr

variable {α β : Type}

def mapToken (f : α → β) : SToken α → SToken β
  | .opening => .opening
  | .closing => .closing
  | .atom name => .atom name
  | .str value => .str (f value)

/-! ## Expressions as token lists -/

mutual

def toks : SExpr α → List (SToken α)
  | .atom name => [.atom name]
  | .str value => [.str value]
  | .list items => .opening :: (toksOf items ++ [.closing])

def toksOf : List (SExpr α) → List (SToken α)
  | [] => []
  | e :: es => toks e ++ toksOf es

end

mutual

def map (f : α → β) : SExpr α → SExpr β
  | .atom name => .atom name
  | .str value => .str (f value)
  | .list items => .list (mapOf f items)

def mapOf (f : α → β) : List (SExpr α) → List (SExpr β)
  | [] => []
  | e :: es => map f e :: mapOf f es

end

theorem toksOf_append (es es' : List (SExpr α)) :
    toksOf (es ++ es') = toksOf es ++ toksOf es' := by
  induction es with
  | nil => rfl
  | cons e es ih => rw [List.cons_append, toksOf, toksOf, ih, List.append_assoc]

theorem mem_toksOf {t : SToken α} {es : List (SExpr α)} :
    t ∈ toksOf es ↔ ∃ e ∈ es, t ∈ toks e := by
  induction es with
  | nil => simp [toksOf]
  | cons e es ih => simp [toksOf, ih]

@[simp] theorem toksOf_singleton (e : SExpr α) : toksOf [e] = toks e := by
  simp [toksOf]

theorem mapOf_eq_map (f : α → β) (es : List (SExpr α)) : mapOf f es = es.map (map f) := by
  induction es with
  | nil => rfl
  | cons e es ih => rw [mapOf, List.map_cons, ih]

/-- A function on the strings maps the tokens of a list, with those of the lists in it. -/
theorem toksOf_mapOf (f : α → β) :
    ∀ es : List (SExpr α), toksOf (mapOf f es) = (toksOf es).map (mapToken f)
  | [] => rfl
  | .atom _ :: es => by
    have htail := toksOf_mapOf f es
    rw [mapOf, toksOf, toksOf, htail, List.map_append]
    rfl
  | .str _ :: es => by
    have htail := toksOf_mapOf f es
    rw [mapOf, toksOf, toksOf, htail, List.map_append]
    rfl
  | .list items :: es => by
    have hitems := toksOf_mapOf f items
    have htail := toksOf_mapOf f es
    simp only [mapOf, map, toksOf, toks, hitems, htail, List.map_cons, List.map_append,
      List.map_nil, mapToken]

/-! ## Building expressions -/

/-- `current` is the innermost list under construction, `outer` the lists around it. -/
def build (current : List (SExpr α)) (outer : List (List (SExpr α))) :
    List (SToken α) → Option (List (SExpr α))
  | [] => if outer.isEmpty then some current else none
  | .opening :: ts => build [] (current :: outer) ts
  | .closing :: ts =>
    match outer with
    | [] => none
    | up :: outer => build (up ++ [.list current]) outer ts
  | .atom name :: ts => build (current ++ [.atom name]) outer ts
  | .str value :: ts => build (current ++ [.str value]) outer ts

def parse (ts : List (SToken α)) : Option (List (SExpr α)) := build [] [] ts

/-- The tokens that lead to a state of `build`. -/
def toksBefore (current : List (SExpr α)) (outer : List (List (SExpr α))) : List (SToken α) :=
  match outer with
  | [] => toksOf current
  | up :: outer => toksBefore up outer ++ .opening :: toksOf current

theorem toksBefore_append (current : List (SExpr α)) (outer : List (List (SExpr α)))
    (e : SExpr α) : toksBefore (current ++ [e]) outer = toksBefore current outer ++ toks e := by
  cases outer with
  | nil => simp [toksBefore, toksOf_append]
  | cons up outer => simp [toksBefore, toksOf_append]

theorem eq_of_build {ts : List (SToken α)} {current : List (SExpr α)}
    {outer : List (List (SExpr α))} {es : List (SExpr α)} (h : build current outer ts = some es) :
    toksOf es = toksBefore current outer ++ ts := by
  induction ts generalizing current outer with
  | nil =>
    rw [build] at h
    split at h
    · rename_i hempty
      have houter : outer = [] := by simpa using hempty
      have hes : current = es := Option.some.inj h
      simp [houter, toksBefore, hes]
    · simp at h
  | cons t ts ih =>
    cases t with
    | opening =>
      rw [build] at h
      have hbefore := ih h
      simpa [toksBefore, toksOf] using hbefore
    | closing =>
      cases outer with
      | nil => simp [build] at h
      | cons up outer =>
        rw [build] at h
        have hbefore := ih h
        rw [hbefore, toksBefore_append]
        simp [toksBefore, toks]
    | atom name =>
      rw [build] at h
      have hbefore := ih h
      rw [hbefore, toksBefore_append]
      simp [toks]
    | str value =>
      rw [build] at h
      have hbefore := ih h
      rw [hbefore, toksBefore_append]
      simp [toks]

/-- The tokens of a list add its expressions to the innermost list. -/
theorem build_toksOf (current : List (SExpr α)) (outer : List (List (SExpr α)))
    (ts : List (SToken α)) : ∀ es : List (SExpr α),
      build current outer (toksOf es ++ ts) = build (current ++ es) outer ts
  | [] => by simp [toksOf]
  | .atom name :: es => by
    have htail := build_toksOf (current ++ [.atom name]) outer ts es
    rw [toksOf, toks, List.singleton_append, List.cons_append, build, htail, List.append_assoc,
      List.singleton_append]
  | .str value :: es => by
    have htail := build_toksOf (current ++ [.str value]) outer ts es
    rw [toksOf, toks, List.singleton_append, List.cons_append, build, htail, List.append_assoc,
      List.singleton_append]
  | .list items :: es => by
    have hitems := build_toksOf [] (current :: outer) (.closing :: (toksOf es ++ ts)) items
    have htail := build_toksOf (current ++ [.list items]) outer ts es
    rw [toksOf, toks, List.append_assoc, List.cons_append, List.append_assoc,
      List.singleton_append, build, hitems, List.nil_append, build, htail, List.append_assoc,
      List.singleton_append]

/-- **Token lists determine expressions.** -/
theorem parse_eq_some_iff {ts : List (SToken α)} {es : List (SExpr α)} :
    parse ts = some es ↔ ts = toksOf es := by
  constructor
  · intro h
    have hbefore := eq_of_build h
    rw [hbefore]
    rfl
  · rintro rfl
    have hbuild := build_toksOf [] [] [] es
    rw [List.append_nil] at hbuild
    rw [parse, hbuild]
    rfl

/-! ## Cutting a text into tokens -/

inductive Mode where
  | top
  | atom (read : List Char)
  | string (read : List Char)
  | escape (read : List Char)
  | comment
deriving DecidableEq

def isBlank (c : Char) : Bool :=
  c == ' ' || c == '\n' || c == '\t' || c == '\r' || c == '\x0c'

def isDelimiter (c : Char) : Bool :=
  isBlank c || c == '(' || c == ')' || c == '"' || c == ';'

/-- A character between two tokens. -/
def enter (c : Char) : List (SToken String) × Mode :=
  if isBlank c then ([], .top)
  else if c = '(' then ([.opening], .top)
  else if c = ')' then ([.closing], .top)
  else if c = '"' then ([], .string [])
  else if c = ';' then ([], .comment)
  else ([], .atom [c])

def step (d : Dialect) : Mode → Char → List (SToken String) × Mode
  | .top, c => enter c
  | .atom read, c =>
    if isDelimiter c then (.atom (String.ofList read) :: (enter c).1, (enter c).2)
    else ([], .atom (read ++ [c]))
  | .string read, c =>
    if c = '"' then ([.str (String.ofList read)], .top)
    else if c = '\\' then ([], .escape read)
    else ([], .string (read ++ [c]))
  | .escape read, c => ([], .string (read ++ [d.unescape c]))
  | .comment, c => ([], if c = '\n' then .top else .comment)

/-- The end of the text: an open string is an error. -/
def finish : Mode → Option (List (SToken String))
  | .top | .comment => some []
  | .atom read => some [.atom (String.ofList read)]
  | .string _ | .escape _ => none

def feed (d : Dialect) (m : Mode) : List Char → List (SToken String) × Mode
  | [] => ([], m)
  | c :: cs => ((step d m c).1 ++ (feed d (step d m c).2 cs).1, (feed d (step d m c).2 cs).2)

def lex (d : Dialect) (m : Mode) (cs : List Char) : Option (List (SToken String)) :=
  (finish (feed d m cs).2).map ((feed d m cs).1 ++ ·)

/-- The expressions of a text. -/
def read (d : Dialect) (text : String) : Option (List (SExpr String)) :=
  (lex d .top text.toList).bind parse

theorem feed_append (d : Dialect) (m : Mode) (cs cs' : List Char) :
    feed d m (cs ++ cs') =
      ((feed d m cs).1 ++ (feed d (feed d m cs).2 cs').1, (feed d (feed d m cs).2 cs').2) := by
  induction cs generalizing m with
  | nil => simp [feed]
  | cons c cs ih =>
    rw [List.cons_append, feed, ih]
    simp [feed]

theorem lex_append (d : Dialect) (m : Mode) (cs cs' : List Char) :
    lex d m (cs ++ cs') = (lex d (feed d m cs).2 cs').map ((feed d m cs).1 ++ ·) := by
  simp only [lex, feed_append, Option.map_map, Function.comp_def, List.append_assoc]

theorem lex_cons (d : Dialect) (m : Mode) (c : Char) (cs : List Char) :
    lex d m (c :: cs) = (lex d (step d m c).2 cs).map ((step d m c).1 ++ ·) := by
  simpa [feed] using lex_append d m [c] cs

theorem read_eq_some_iff {d : Dialect} {text : String} {es : List (SExpr String)} :
    read d text = some es ↔ lex d .top text.toList = some (toksOf es) := by
  rw [read, Option.bind_eq_some_iff]
  constructor
  · rintro ⟨ts, hlex, hparse⟩
    rw [hlex, parse_eq_some_iff.mp hparse]
  · intro hlex
    exact ⟨toksOf es, hlex, parse_eq_some_iff.mpr rfl⟩

/-! ## String literals -/

/-- The text can stand between quotes as it is. -/
def Quotable (cs : List Char) : Prop := ∀ c ∈ cs, c ≠ '"' ∧ c ≠ '\\'

theorem lex_string_of_quotable (d : Dialect) {cs : List Char} (h : Quotable cs)
    (read rest : List Char) :
    lex d (.string read) (cs ++ '"' :: rest) =
      (lex d .top rest).map (.str (String.ofList (read ++ cs)) :: ·) := by
  induction cs generalizing read with
  | nil =>
    rw [List.nil_append, lex_cons]
    simp [step]
  | cons c cs ih =>
    have hc := h c (by simp)
    have htail : Quotable cs := fun x hx => h x (by simp [hx])
    rw [List.cons_append, lex_cons]
    simp only [step, if_neg hc.1, if_neg hc.2, ih htail]
    simp [Function.comp_def]

/-- A string that is closed gives its token first. -/
theorem exists_of_lex_string {d : Dialect} {cs read : List Char} {ts : List (SToken String)}
    (h : lex d (.string read) cs = some ts) :
    ∃ s ts', ts = .str (String.ofList (read ++ s)) :: ts' := by
  -- the escape mode is one character away from the string mode
  suffices hboth : ∀ (cs read : List Char) (ts : List (SToken String)),
      (lex d (.string read) cs = some ts →
        ∃ s ts', ts = .str (String.ofList (read ++ s)) :: ts') ∧
      (lex d (.escape read) cs = some ts →
        ∃ s ts', ts = .str (String.ofList (read ++ s)) :: ts') from (hboth cs read ts).1 h
  intro cs
  induction cs with
  | nil =>
    intro read ts
    constructor
    · intro h
      simp [lex, feed, finish] at h
    · intro h
      simp [lex, feed, finish] at h
  | cons c cs ih =>
    intro read ts
    constructor
    · intro h
      rw [lex_cons] at h
      by_cases hquote : c = '"'
      · simp only [step, if_pos hquote, Option.map_eq_some_iff] at h
        obtain ⟨ts', -, rfl⟩ := h
        exact ⟨[], ts', by simp⟩
      · by_cases hback : c = '\\'
        · simp only [step, if_neg hquote, if_pos hback, Option.map_eq_some_iff] at h
          obtain ⟨ts', hts', rfl⟩ := h
          exact (ih read ts').2 hts'
        · simp only [step, if_neg hquote, if_neg hback, Option.map_eq_some_iff] at h
          obtain ⟨ts', hts', rfl⟩ := h
          obtain ⟨s, ts'', rfl⟩ := (ih _ ts').1 hts'
          exact ⟨c :: s, ts'', by simp⟩
    · intro h
      rw [lex_cons] at h
      simp only [step, Option.map_eq_some_iff] at h
      obtain ⟨ts', hts', rfl⟩ := h
      obtain ⟨s, ts'', rfl⟩ := (ih _ ts').1 hts'
      exact ⟨d.unescape c :: s, ts'', by simp⟩

/-- The first token of a string text: what has been read, then `s`. -/
def StringToken (d : Dialect) (read cs s : List Char) : Prop :=
  ∃ ts, lex d (.string read) cs = some (.str (String.ofList (read ++ s)) :: ts)

theorem stringToken_quote {d : Dialect} {read cs s : List Char}
    (h : StringToken d read ('"' :: cs) s) : s = [] := by
  obtain ⟨ts, h⟩ := h
  rw [lex_cons] at h
  simp only [step, ↓reduceIte, Option.map_eq_some_iff] at h
  obtain ⟨ts', -, heq⟩ := h
  have hread : read = read ++ s := String.ofList_injective (SToken.str.inj (List.cons.inj heq).1)
  simpa using hread

theorem stringToken_char {d : Dialect} {read cs s : List Char} {c : Char} (hquote : c ≠ '"')
    (hback : c ≠ '\\') (h : StringToken d read (c :: cs) s) :
    ∃ s', s = c :: s' ∧ StringToken d (read ++ [c]) cs s' := by
  obtain ⟨ts, h⟩ := h
  rw [lex_cons] at h
  simp only [step, if_neg hquote, if_neg hback, Option.map_eq_some_iff] at h
  obtain ⟨ts', hlex, heq⟩ := h
  obtain ⟨s', ts'', rfl⟩ := exists_of_lex_string hlex
  have hread : read ++ [c] ++ s' = read ++ s :=
    String.ofList_injective (SToken.str.inj (List.cons.inj heq).1)
  refine ⟨s', ?_, ts'', hlex⟩
  simpa using hread.symm

theorem stringToken_escape {d : Dialect} {read cs s : List Char} {c : Char}
    (h : StringToken d read ('\\' :: c :: cs) s) :
    ∃ s', s = d.unescape c :: s' ∧ StringToken d (read ++ [d.unescape c]) cs s' := by
  obtain ⟨ts, h⟩ := h
  rw [lex_cons, lex_cons] at h
  simp only [step, Char.reduceEq, ↓reduceIte, Option.map_eq_some_iff] at h
  obtain ⟨ts'', ⟨ts', hlex, rfl⟩, heq⟩ := h
  obtain ⟨s', ts'', rfl⟩ := exists_of_lex_string hlex
  have hread : read ++ [d.unescape c] ++ s' = read ++ s :=
    String.ofList_injective (SToken.str.inj (List.cons.inj heq).1)
  refine ⟨s', ?_, ts'', hlex⟩
  simpa using hread.symm

/-- A text between quotes never denotes itself with backslashes put in front: an escape
    takes two characters of the text for one of the value. -/
theorem not_stringToken_backslashes {d : Dialect} (n : ℕ) {cs : List Char}
    (hlen : cs.length ≤ n) (read rest : List Char) (k : ℕ) :
    ¬ StringToken d read (cs ++ '"' :: rest) (List.replicate (k + 1) '\\' ++ cs) := by
  induction n generalizing cs read k with
  | zero =>
    have hnil : cs = [] := List.eq_nil_of_length_eq_zero (Nat.le_zero.mp hlen)
    intro h
    subst hnil
    have hempty := stringToken_quote h
    simp [List.replicate_succ] at hempty
  | succ n ih =>
    intro h
    match cs with
    | [] =>
      have hempty := stringToken_quote h
      simp [List.replicate_succ] at hempty
    | c :: cs =>
      by_cases hquote : c = '"'
      · subst hquote
        have hempty := stringToken_quote h
        simp [List.replicate_succ] at hempty
      · by_cases hback : c = '\\'
        · subst hback
          match cs with
          | [] =>
            -- the closing quote is escaped
            obtain ⟨s', hs', -⟩ := stringToken_escape h
            rw [d.unescape_quote, List.replicate_succ, List.cons_append] at hs'
            exact absurd (List.cons.inj hs').1 (by decide)
          | c' :: cs =>
            obtain ⟨s', hs', htoken⟩ := stringToken_escape h
            rw [List.replicate_succ, List.cons_append] at hs'
            obtain ⟨hhead, htail⟩ := List.cons.inj hs'
            have hc' : c' = '\\' := d.eq_of_unescape c' hhead.symm
            have hmore : s' = List.replicate (k + 1 + 1) '\\' ++ cs := by
              rw [← htail, hc', List.replicate_succ', List.replicate_succ']
              simp
            rw [hmore] at htoken
            have hshort : cs.length ≤ n := by
              simp only [List.length_cons] at hlen
              omega
            exact ih hshort _ (k + 1) htoken
        · obtain ⟨s', hs', -⟩ := stringToken_char hquote hback h
          rw [List.replicate_succ, List.cons_append] at hs'
          exact hback (List.cons.inj hs').1.symm

/-- **Literals that denote themselves.**  A text between quotes is read back as itself
    only if it has no quote and no backslash. -/
theorem quotable_of_stringToken {d : Dialect} {cs : List Char} (read rest : List Char)
    (h : StringToken d read (cs ++ '"' :: rest) cs) : Quotable cs := by
  induction cs generalizing read with
  | nil => simp [Quotable]
  | cons c cs ih =>
    by_cases hquote : c = '"'
    · subst hquote
      have hempty := stringToken_quote h
      simp at hempty
    · by_cases hback : c = '\\'
      · subst hback
        exfalso
        match cs with
        | [] =>
          obtain ⟨s', hs', -⟩ := stringToken_escape h
          rw [d.unescape_quote] at hs'
          exact absurd (List.cons.inj hs').1 (by decide)
        | c' :: cs =>
          obtain ⟨s', hs', htoken⟩ := stringToken_escape h
          obtain ⟨hhead, htail⟩ := List.cons.inj hs'
          have hc' : c' = '\\' := d.eq_of_unescape c' hhead.symm
          have hmore : s' = List.replicate (0 + 1) '\\' ++ cs := by
            rw [← htail, hc']
            rfl
          rw [hmore] at htoken
          exact not_stringToken_backslashes cs.length (Nat.le_refl _) _ rest 0 htoken
      · obtain ⟨s', hs', htoken⟩ := stringToken_char hquote hback h
        have hsame : s' = cs := (List.cons.inj hs').2.symm
        rw [hsame] at htoken
        have htail := ih _ htoken
        intro x hx
        rcases List.mem_cons.mp hx with rfl | hx
        · exact ⟨hquote, hback⟩
        · exact htail x hx

/-! ## Printed tokens -/

/-- The name of an atom: one run of characters between delimiters. -/
def IsWord (name : String) : Prop :=
  name.toList ≠ [] ∧ ∀ c ∈ name.toList, isDelimiter c = false

theorem isWord_iff (name : String) :
    (!name.toList.isEmpty && name.toList.all fun c => !isDelimiter c) = true ↔ IsWord name := by
  simp [IsWord]

instance (name : String) : Decidable (IsWord name) := decidable_of_iff _ (isWord_iff name)

def tokenText : SToken String → List Char
  | .opening => ['(']
  | .closing => [')']
  | .atom name => name.toList
  | .str value => '"' :: (value.toList ++ ['"'])

/-- What stands between two tokens: nothing at the inner side of a parenthesis. -/
def gap : SToken String → SToken String → List Char
  | .opening, _ => []
  | _, .closing => []
  | _, _ => [' ']

def render : List (SToken String) → List Char
  | [] => []
  | [t] => tokenText t
  | t :: t' :: ts => tokenText t ++ gap t t' ++ render (t' :: ts)

theorem lex_blank (d : Dialect) {c : Char} (h : isBlank c = true) (cs : List Char) :
    lex d .top (c :: cs) = lex d .top cs := by
  rw [lex_cons]
  simp [step, enter, h]

theorem lex_word (d : Dialect) {cs : List Char} (h : ∀ c ∈ cs, isDelimiter c = false)
    (read : List Char) {c : Char} (hc : isDelimiter c = true) (rest : List Char) :
    lex d (.atom read) (cs ++ c :: rest) =
      (lex d .top (c :: rest)).map (.atom (String.ofList (read ++ cs)) :: ·) := by
  induction cs generalizing read with
  | nil =>
    rw [List.nil_append, lex_cons, lex_cons]
    simp [step, hc, Function.comp_def]
  | cons x cs ih =>
    have hx := h x (by simp)
    have htail : ∀ y ∈ cs, isDelimiter y = false := fun y hy => h y (by simp [hy])
    rw [List.cons_append, lex_cons]
    simp only [step, hx, Bool.false_eq_true, ↓reduceIte, ih htail]
    simp [Function.comp_def]

/-- A word in front of a delimiter is one token. -/
theorem lex_atom (d : Dialect) {name : String} (h : IsWord name) {c : Char}
    (hc : isDelimiter c = true) (rest : List Char) :
    lex d .top (name.toList ++ c :: rest) =
      (lex d .top (c :: rest)).map (.atom name :: ·) := by
  obtain ⟨hne, hword⟩ := h
  obtain ⟨x, cs, hname⟩ := List.exists_cons_of_ne_nil hne
  rw [hname] at hword
  have hx : isDelimiter x = false := hword x (by simp)
  have hcs : ∀ y ∈ cs, isDelimiter y = false := fun y hy => hword y (by simp [hy])
  have henter : enter x = ([], .atom [x]) := by
    simp only [isDelimiter, Bool.or_eq_false_iff, beq_eq_false_iff_ne] at hx
    obtain ⟨⟨⟨⟨hblank, hopen⟩, hclose⟩, hquote⟩, hcomment⟩ := hx
    simp [enter, hblank, hopen, hclose, hquote, hcomment]
  have hback : String.ofList ([x] ++ cs) = name := by
    rw [List.singleton_append, ← hname, String.ofList_toList]
  rw [hname, List.cons_append, lex_cons]
  simp only [step, henter, lex_word d hcs [x] hc rest, hback]
  simp [Function.comp_def]

/-- The character after an atom is a delimiter. -/
theorem exists_delimiter (name : String) (ts : List (SToken String)) (rest : List Char) :
    ∃ c cs, isDelimiter c = true ∧
      render (.atom name :: ts) ++ '\n' :: rest = name.toList ++ c :: cs ∧
      ∀ d, lex d .top (c :: cs) = lex d .top (render ts ++ '\n' :: rest) := by
  cases ts with
  | nil => exact ⟨'\n', rest, by decide, rfl, fun d => rfl⟩
  | cons t ts =>
    have hspace : ∀ t : SToken String, gap (.atom name) t = [' '] →
        render (.atom name :: t :: ts) ++ '\n' :: rest =
          name.toList ++ ' ' :: (render (t :: ts) ++ '\n' :: rest) := by
      intro t hgap
      simp [render, hgap, tokenText]
    cases t with
    | closing =>
      cases ts with
      | nil => exact ⟨')', '\n' :: rest, by decide, by simp [render, gap, tokenText], fun d => rfl⟩
      | cons t ts =>
        exact ⟨')', gap .closing t ++ render (t :: ts) ++ '\n' :: rest, by decide,
          by simp [render, gap, tokenText], fun d => rfl⟩
    | opening => exact ⟨' ', _, by decide, hspace _ rfl, fun d => lex_blank d (by decide) _⟩
    | atom name => exact ⟨' ', _, by decide, hspace _ rfl, fun d => lex_blank d (by decide) _⟩
    | str value => exact ⟨' ', _, by decide, hspace _ rfl, fun d => lex_blank d (by decide) _⟩

/-- The text after a token that is no atom. -/
theorem lex_gap (d : Dialect) (t : SToken String) (ts : List (SToken String))
    (rest : List Char) :
    ∃ cs, render (t :: ts) ++ '\n' :: rest = tokenText t ++ cs ∧
      lex d .top cs = lex d .top (render ts ++ '\n' :: rest) := by
  cases ts with
  | nil => exact ⟨'\n' :: rest, rfl, rfl⟩
  | cons t' ts =>
    refine ⟨gap t t' ++ (render (t' :: ts) ++ '\n' :: rest), by simp [render], ?_⟩
    unfold gap
    split
    · rfl
    · rfl
    · exact lex_blank d (by decide) _

/-- **Printing and reading.**  Printed tokens are read back as themselves exactly when
    every string among them can stand between quotes as it is. -/
theorem lex_render_iff (d : Dialect) {ts : List (SToken String)}
    (hatoms : ∀ name, .atom name ∈ ts → IsWord name) (rest : List Char)
    (out : List (SToken String)) :
    lex d .top (render ts ++ '\n' :: rest) = some (ts ++ out) ↔
      (∀ value, .str value ∈ ts → Quotable value.toList) ∧ lex d .top rest = some out := by
  induction ts with
  | nil =>
    rw [render, List.nil_append, lex_blank d (by decide)]
    simp
  | cons t ts ih =>
    have htail : ∀ name, .atom name ∈ ts → IsWord name := fun name hn =>
      hatoms name (List.mem_cons_of_mem _ hn)
    have hrest := ih htail
    -- a token that is read as itself leaves the question about the other tokens
    have hskip : (∀ value, t ≠ .str value) →
        lex d .top (render (t :: ts) ++ '\n' :: rest) =
          (lex d .top (render ts ++ '\n' :: rest)).map (t :: ·) →
        (lex d .top (render (t :: ts) ++ '\n' :: rest) = some (t :: ts ++ out) ↔
          (∀ value, .str value ∈ t :: ts → Quotable value.toList) ∧
            lex d .top rest = some out) := by
      intro hstr hlex
      have hsame : (∀ value, .str value ∈ t :: ts → Quotable value.toList) ↔
          ∀ value, .str value ∈ ts → Quotable value.toList := by
        constructor
        · intro h value hv
          exact h value (List.mem_cons_of_mem _ hv)
        · intro h value hv
          rcases List.mem_cons.mp hv with heq | hv
          · exact absurd heq.symm (hstr value)
          · exact h value hv
      rw [hlex, hsame, ← hrest]
      simp
    cases t with
    | opening =>
      obtain ⟨cs, htext, hcs⟩ := lex_gap d .opening ts rest
      refine hskip (by simp) ?_
      rw [htext, tokenText, List.singleton_append, lex_cons, ← hcs]
      rfl
    | closing =>
      obtain ⟨cs, htext, hcs⟩ := lex_gap d .closing ts rest
      refine hskip (by simp) ?_
      rw [htext, tokenText, List.singleton_append, lex_cons, ← hcs]
      rfl
    | atom name =>
      obtain ⟨c, cs, hc, htext, hcs⟩ := exists_delimiter name ts rest
      refine hskip (by simp) ?_
      rw [htext, lex_atom d (hatoms name (by simp)) hc, hcs d]
    | str value =>
      obtain ⟨cs, htext, hcs⟩ := lex_gap d (.str value) ts rest
      have hopen : lex d .top (render (.str value :: ts) ++ '\n' :: rest) =
          lex d (.string []) (value.toList ++ '"' :: cs) := by
        rw [htext, tokenText, List.cons_append, lex_cons]
        simp [step, enter, isBlank]
      have hread : Quotable value.toList →
          lex d (.string []) (value.toList ++ '"' :: cs) =
            (lex d .top (render ts ++ '\n' :: rest)).map (.str value :: ·) := by
        intro hquote
        rw [lex_string_of_quotable d hquote, List.nil_append, String.ofList_toList, hcs]
      rw [hopen]
      constructor
      · intro hlex
        have htoken : StringToken d [] (value.toList ++ '"' :: cs) value.toList := by
          refine ⟨ts ++ out, ?_⟩
          rw [hlex, List.nil_append, String.ofList_toList, List.cons_append]
        have hquote := quotable_of_stringToken [] cs htoken
        rw [hread hquote] at hlex
        have hlater := hrest.mp (by simpa using hlex)
        refine ⟨?_, hlater.2⟩
        intro v hv
        rcases List.mem_cons.mp hv with heq | hv
        · rw [SToken.str.inj heq]
          exact hquote
        · exact hlater.1 v hv
      · rintro ⟨hall, hout⟩
        have hquote : Quotable value.toList := hall value (by simp)
        have hlater := hrest.mpr ⟨fun v hv => hall v (List.mem_cons_of_mem _ hv), hout⟩
        rw [hread hquote, hlater]
        rfl

/-- One expression on each line. -/
def renderLines (es : List (SExpr String)) : List Char :=
  es.flatMap fun e => render (toks e) ++ ['\n']

theorem read_renderLines_iff (d : Dialect) {es : List (SExpr String)}
    (hatoms : ∀ name, .atom name ∈ toksOf es → IsWord name) :
    read d (String.ofList (renderLines es)) = some es ↔
      ∀ value, .str value ∈ toksOf es → Quotable value.toList := by
  rw [read_eq_some_iff, String.toList_ofList]
  induction es with
  | nil => simp [renderLines, toksOf, lex, feed, finish]
  | cons e es ih =>
    have hhead : ∀ name, .atom name ∈ toks e → IsWord name := fun name hn =>
      hatoms name (by simp [toksOf, hn])
    have htail : ∀ name, .atom name ∈ toksOf es → IsWord name := fun name hn =>
      hatoms name (by simp [toksOf, hn])
    have hline : renderLines (e :: es) = render (toks e) ++ '\n' :: renderLines es := by
      simp [renderLines]
    rw [hline, toksOf, lex_render_iff d hhead, ih htail]
    simp only [List.mem_append]
    constructor
    · rintro ⟨hfirst, hlater⟩ value (hv | hv)
      · exact hfirst value hv
      · exact hlater value hv
    · intro hall
      exact ⟨fun v hv => hall v (Or.inl hv), fun v hv => hall v (Or.inr hv)⟩

/-! ## Expressions over other literals -/

theorem toksOf_injective : Function.Injective (toksOf (α := α)) := by
  intro es es' h
  have hparse := parse_eq_some_iff.mpr h
  rw [parse_eq_some_iff.mpr rfl] at hparse
  exact Option.some.inj hparse

/-- A change of literals fixes the expressions whose literals it fixes. -/
theorem mapOf_eq_self_iff {f : α → α} {es : List (SExpr α)} :
    mapOf f es = es ↔ ∀ value, .str value ∈ toksOf es → f value = value := by
  rw [← toksOf_injective.eq_iff, toksOf_mapOf]
  constructor
  · intro h value hv
    have hfix : ∀ t ∈ toksOf es, mapToken f t = id t := by
      apply List.map_inj_left.mp
      rw [h, List.map_id]
    exact SToken.str.inj (hfix _ hv)
  · intro h
    have hfix : ∀ t ∈ toksOf es, mapToken f t = id t := by
      intro t ht
      cases t with
      | str value => exact congrArg SToken.str (h value ht)
      | opening => rfl
      | closing => rfl
      | atom name => rfl
    rw [List.map_congr_left hfix, List.map_id]

theorem mapOf_mapOf {γ : Type} (f : α → β) (g : β → γ) (es : List (SExpr α)) :
    mapOf g (mapOf f es) = mapOf (g ∘ f) es := by
  apply toksOf_injective
  rw [toksOf_mapOf, toksOf_mapOf, toksOf_mapOf, List.map_map]
  apply List.map_congr_left
  intro t _
  cases t <;> rfl

end SExpr

end SimpleSandbox
