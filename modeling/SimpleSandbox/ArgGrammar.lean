import Mathlib.Data.List.Infix
import Mathlib.Data.List.Basic

/-!
# Command-line grammars

The options of a command come in three spellings: a flag stands alone, a joined option holds
its value behind a fixed beginning of the same token, and a valued option takes the whole next
token.  The first token that is none of these ends the options.

Reading what was spelled out gives the same options back, whatever texts the values are: a
value is never looked at, and what follows the options is left over.
-/

namespace SimpleSandbox

/-- One option of a command line. -/
inductive ArgOption where
  | flag (name : String)
  | joined (start value : String)
  | valued (name value : String)
deriving DecidableEq, Repr

namespace ArgOption

/-- How the option is spelled. -/
def tokens : ArgOption → List String
  | .flag name => [name]
  | .joined start value => [start ++ value]
  | .valued name value => [name, value]

def isFlag (name : String) : ArgOption → Bool
  | .flag n => n == name
  | _ => false

/-- The value the option gives to a name. -/
def valueFor (name : String) : ArgOption → Option String
  | .flag _ => none
  | .joined n value => if n = name then some value else none
  | .valued n value => if n = name then some value else none

/-- Options of one name give their values to that name alone. -/
theorem filterMap_valueFor_map (name n : String) (values : List String) :
    (values.map (.valued n)).filterMap (valueFor name) = if n = name then values else [] := by
  rw [List.filterMap_map]
  by_cases h : n = name
  · rw [if_pos h]
    refine (List.filterMap_congr fun v _ => ?_).trans List.filterMap_some
    exact if_pos h
  · rw [if_neg h, List.filterMap_eq_nil_iff]
    intro v _
    exact if_neg h

theorem any_isFlag_map (name n : String) (values : List String) :
    (values.map (.valued n)).any (isFlag name) = false := by
  rw [List.any_map, List.any_eq_false]
  intro v _
  exact Bool.false_ne_true

end ArgOption

/-- The spellings of a command, apart from each other so that each token is one of them at
    most. -/
structure ArgGrammar where
  flags : List String
  joined : List String
  valued : List String
  valued_apart : ∀ t ∈ valued, t ∉ flags
  joined_apart : ∀ p ∈ joined, ∀ t ∈ flags ++ valued, ¬ p.toList <+: t.toList
  joined_unique : ∀ p ∈ joined, ∀ q ∈ joined, p.toList <+: q.toList → p = q
  dashed : ∀ t ∈ flags ++ valued ++ joined, t.toList.head? = some '-'

namespace ArgGrammar

variable (g : ArgGrammar)

/-- The beginning of a joined option the token is spelled with. -/
def startOf (t : String) : Option String := g.joined.find? fun p => p.toList.isPrefixOf t.toList

/-- The options of a token list and what follows them.  An unknown option is refused. -/
def read : List String → Option (List ArgOption × List String)
  | [] => some ([], [])
  | t :: rest =>
    if t ∈ g.flags then (read rest).map fun r => (.flag t :: r.1, r.2)
    else if t ∈ g.valued then
      match rest with
      | [] => none
      | v :: rest => (read rest).map fun r => (.valued t v :: r.1, r.2)
    else
      match g.startOf t with
      | some p =>
        (read rest).map fun r => (.joined p (String.ofList (t.toList.drop p.length)) :: r.1, r.2)
      | none => if t.toList.head? = some '-' then none else some ([], t :: rest)

/-- The option has a spelling in the grammar. -/
def Knows : ArgOption → Prop
  | .flag name => name ∈ g.flags
  | .joined start _ => start ∈ g.joined
  | .valued name _ => name ∈ g.valued

/-- No option begins a list that is empty or begins without a dash. -/
def Positional (rest : List String) : Prop := ∀ t ∈ rest.head?, t.toList.head? ≠ some '-'

variable {g}

/-- A beginning is found again, whatever stands behind it. -/
theorem startOf_append {p : String} (hp : p ∈ g.joined) (v : String) :
    g.startOf (p ++ v) = some p := by
  have hself : p.toList.isPrefixOf (p ++ v).toList = true := by
    rw [List.isPrefixOf_iff_prefix, String.toList_append]
    exact List.prefix_append _ _
  cases hfind : g.startOf (p ++ v) with
  | none =>
    rw [startOf, List.find?_eq_none] at hfind
    exact absurd hself (hfind p hp)
  | some q =>
    have hq : q ∈ g.joined := List.mem_of_find?_eq_some hfind
    have hprefix : q.toList <+: p.toList ++ v.toList := by
      have htest : q.toList.isPrefixOf (p ++ v).toList = true :=
        List.find?_some (p := fun p' : String => p'.toList.isPrefixOf (p ++ v).toList) hfind
      rw [← String.toList_append]
      exact List.isPrefixOf_iff_prefix.mp htest
    -- two beginnings of one token are comparable
    rcases List.prefix_or_prefix_of_prefix hprefix (List.prefix_append _ _) with h | h
    · rw [g.joined_unique q hq p hp h]
    · rw [g.joined_unique p hp q hq h]

theorem append_not_mem {p : String} (hp : p ∈ g.joined) (v : String) :
    p ++ v ∉ g.flags ∧ p ++ v ∉ g.valued := by
  have hapart : p ++ v ∉ g.flags ++ g.valued := by
    intro h
    apply g.joined_apart p hp _ h
    rw [String.toList_append]
    exact List.prefix_append _ _
  rw [List.mem_append, not_or] at hapart
  exact hapart

theorem drop_append (p v : String) : String.ofList ((p ++ v).toList.drop p.length) = v := by
  rw [String.toList_append, ← String.length_toList, List.drop_left, String.ofList_toList]

theorem read_flag {t : String} (ht : t ∈ g.flags) (rest : List String) :
    g.read (t :: rest) = (g.read rest).map fun r => (.flag t :: r.1, r.2) := by
  cases rest <;> simp [read, ht]

theorem read_of_startOf {t p : String} (hflag : t ∉ g.flags) (hvalued : t ∉ g.valued)
    (hstart : g.startOf t = some p) (rest : List String) :
    g.read (t :: rest) = (g.read rest).map fun r =>
      (.joined p (String.ofList (t.toList.drop p.length)) :: r.1, r.2) := by
  cases rest <;> simp [read, hflag, hvalued, hstart]

theorem read_valued {t : String} (ht : t ∈ g.valued) (v : String) (rest : List String) :
    g.read (t :: v :: rest) = (g.read rest).map fun r => (.valued t v :: r.1, r.2) := by
  simp [read, g.valued_apart t ht, ht]

/-- One option is read off the front. -/
theorem read_tokens_append {o : ArgOption} (ho : g.Knows o) (rest : List String) :
    g.read (o.tokens ++ rest) = (g.read rest).map fun r => (o :: r.1, r.2) := by
  cases o with
  | flag name => exact read_flag ho rest
  | joined start value =>
    obtain ⟨hflag, hvalued⟩ := append_not_mem ho value
    have hread := read_of_startOf hflag hvalued (startOf_append ho value) rest
    rw [drop_append] at hread
    exact hread
  | valued name value => exact read_valued ho value rest

theorem read_of_positional {rest : List String} (h : Positional rest) :
    g.read rest = some ([], rest) := by
  cases rest with
  | nil => rfl
  | cons t rest =>
    have hdash : t.toList.head? ≠ some '-' := h t rfl
    have hflag : t ∉ g.flags := fun ht => hdash (g.dashed t (by simp [ht]))
    have hvalued : t ∉ g.valued := fun ht => hdash (g.dashed t (by simp [ht]))
    have hstart : g.startOf t = none := by
      rw [startOf, List.find?_eq_none]
      intro p hp hprefix
      have hbegins : ['-'] <+: p.toList :=
        List.singleton_prefix_iff_head?_eq_some.mpr (g.dashed p (List.mem_append_right _ hp))
      have hpre : p.toList <+: t.toList := List.isPrefixOf_iff_prefix.mp hprefix
      exact hdash (List.singleton_prefix_iff_head?_eq_some.mp (hbegins.trans hpre))
    cases rest <;> simp [read, hflag, hvalued, hstart, hdash]

/-- **Reading back.**  Options that were spelled out are read as they were meant, and the list
    behind them is left over. -/
theorem read_append {options : List ArgOption} (hoptions : ∀ o ∈ options, g.Knows o)
    {rest : List String} (hrest : Positional rest) :
    g.read (options.flatMap ArgOption.tokens ++ rest) = some (options, rest) := by
  induction options with
  | nil => exact read_of_positional hrest
  | cons o options ih =>
    have ho : g.Knows o := hoptions o List.mem_cons_self
    have htail := ih fun o' ho' => hoptions o' (List.mem_cons_of_mem _ ho')
    rw [List.flatMap_cons, List.append_assoc, read_tokens_append ho, htail]
    rfl

end ArgGrammar

end SimpleSandbox
