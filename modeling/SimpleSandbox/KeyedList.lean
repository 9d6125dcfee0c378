import Mathlib.Data.List.Perm.Basic
import Mathlib.Data.List.Nodup

/-!
# Maps as lists of keys and values

A hash map is a list in which no key stands twice, walked in an order of its own.  The value of
a key is what `List.lookup` finds; a map that is filled from a list holds, for each key, the
value of the last element with that key, and no walk can tell two orders of it apart.

Filling a map and walking it may fail at each element.
-/

namespace SimpleSandbox.KeyedList

universe u v w x

variable {κ : Type u} {α : Type v}

section Keys

variable [DecidableEq κ]

/-- Replace the value of a key, or add the key at the end. -/
def put (m : List (κ × α)) (k : κ) (a : α) : List (κ × α) :=
  if m.any (·.1 == k) then m.map fun e => if e.1 == k then (k, a) else e else m ++ [(k, a)]

/-- The last element of a list with a key. -/
def lastOf {ρ : Type w} (key : ρ → κ) (l : List ρ) (k : κ) : Option ρ :=
  l.reverse.find? (key · == k)

/-! ## Lookups -/

theorem lookup_cons_eq (e : κ × α) (m : List (κ × α)) (k : κ) :
    (e :: m).lookup k = if k = e.1 then some e.2 else m.lookup k := by
  rw [List.lookup_cons]
  by_cases hk : k = e.1
  · rw [beq_iff_eq.mpr hk, if_pos hk]
  · rw [beq_false_of_ne hk, if_neg hk]

theorem lookup_eq_none_of_not_mem {m : List (κ × α)} {k : κ} (h : k ∉ m.map Prod.fst) :
    m.lookup k = none := by
  rw [List.lookup_eq_none_iff]
  intro e he
  have hne : k ≠ e.1 := fun heq => h (heq ▸ List.mem_map_of_mem he)
  exact bne_iff_ne.mpr hne

/-- With distinct keys, looking up is membership. -/
theorem lookup_eq_some_iff_mem {m : List (κ × α)} (hm : (m.map Prod.fst).Nodup) {k : κ} {a : α} :
    m.lookup k = some a ↔ (k, a) ∈ m := by
  induction m with
  | nil => simp
  | cons e rest ih =>
    rw [List.map_cons, List.nodup_cons] at hm
    rw [lookup_cons_eq, List.mem_cons]
    by_cases hk : k = e.1
    · subst hk
      have hrest : (e.1, a) ∉ rest := fun hin => hm.1 (List.mem_map.mpr ⟨_, hin, rfl⟩)
      simp [Prod.ext_iff, hrest, eq_comm]
    · have hhead : (k, a) ≠ e := fun heq => hk (Prod.ext_iff.mp heq).1
      simp [hk, hhead, ih hm.2]

/-- No order of a map changes what it holds. -/
theorem lookup_perm {m m' : List (κ × α)} (hperm : m.Perm m') (hm : (m.map Prod.fst).Nodup)
    (k : κ) : m.lookup k = m'.lookup k := by
  have hm' : (m'.map Prod.fst).Nodup := (hperm.map Prod.fst).nodup_iff.mp hm
  apply Option.ext
  intro a
  rw [lookup_eq_some_iff_mem hm, lookup_eq_some_iff_mem hm', hperm.mem_iff]

theorem lookup_reverse {m : List (κ × α)} (hm : (m.map Prod.fst).Nodup) (k : κ) :
    m.reverse.lookup k = m.lookup k :=
  (lookup_perm m.reverse_perm.symm hm k).symm

/-! ## Putting -/

theorem lookup_map_replace (m : List (κ × α)) {k k' : κ} (a : α) (hne : k' ≠ k) :
    (m.map fun e => if e.1 == k then (k, a) else e).lookup k' = m.lookup k' := by
  induction m with
  | nil => rfl
  | cons e rest ih =>
    rw [List.map_cons, lookup_cons_eq, lookup_cons_eq, ih]
    by_cases he : e.1 = k
    · simp [he, hne]
    · simp [he]

theorem lookup_map_self {m : List (κ × α)} {k : κ} (a : α) (hk : k ∈ m.map Prod.fst) :
    (m.map fun e => if e.1 == k then (k, a) else e).lookup k = some a := by
  induction m with
  | nil => cases hk
  | cons e rest ih =>
    rw [List.map_cons, lookup_cons_eq]
    by_cases he : e.1 = k
    · simp [he]
    · have hk' : k ∈ rest.map Prod.fst := by
        rw [List.map_cons, List.mem_cons] at hk
        exact hk.resolve_left fun heq => he heq.symm
      have hne : k ≠ e.1 := fun heq => he heq.symm
      rw [if_neg (by simpa [he] using hne), ih hk']

theorem any_key_iff (m : List (κ × α)) (k : κ) :
    m.any (·.1 == k) = true ↔ k ∈ m.map Prod.fst := by
  simp [List.any_eq_true, List.mem_map]

theorem lookup_put (m : List (κ × α)) (k k' : κ) (a : α) :
    (put m k a).lookup k' = if k' = k then some a else m.lookup k' := by
  rw [put]
  by_cases hany : m.any (·.1 == k) = true
  · rw [if_pos hany]
    by_cases hk : k' = k
    · rw [if_pos hk, hk, lookup_map_self a ((any_key_iff m k).mp hany)]
    · rw [if_neg hk, lookup_map_replace m a hk]
  · have hmem : k ∉ m.map Prod.fst := fun h => hany ((any_key_iff m k).mpr h)
    rw [if_neg hany, List.lookup_append, lookup_cons_eq, List.lookup_nil]
    by_cases hk : k' = k
    · rw [hk, lookup_eq_none_of_not_mem hmem, Option.none_or]
    · rw [if_neg hk, if_neg hk, Option.or_none]

/-- Putting keeps the keys apart. -/
theorem nodup_put {m : List (κ × α)} (hm : (m.map Prod.fst).Nodup) (k : κ) (a : α) :
    ((put m k a).map Prod.fst).Nodup := by
  rw [put]
  by_cases hany : m.any (·.1 == k) = true
  · have hkeys : (m.map fun e => if e.1 == k then (k, a) else e).map Prod.fst = m.map Prod.fst := by
      rw [List.map_map]
      refine List.map_congr_left fun e _ => ?_
      by_cases he : e.1 = k <;> simp [he]
    rw [if_pos hany, hkeys]
    exact hm
  · have hmem : k ∉ m.map Prod.fst := fun h => hany ((any_key_iff m k).mpr h)
    rw [if_neg hany, List.map_append, List.nodup_append]
    refine ⟨hm, List.nodup_singleton _, ?_⟩
    intro k₁ hk₁ k₂ hk₂ heq
    rw [List.map_singleton, List.mem_singleton] at hk₂
    rw [heq, hk₂] at hk₁
    exact hmem hk₁

/-! ## The last element with a key -/

variable {ρ : Type w} {key : ρ → κ}

@[simp] theorem lastOf_nil (k : κ) : lastOf key [] k = none := rfl

theorem lastOf_cons (r : ρ) (l : List ρ) (k : κ) :
    lastOf key (r :: l) k = (lastOf key l k).or (if key r = k then some r else none) := by
  rw [lastOf, List.reverse_cons, List.find?_append, lastOf]
  by_cases hk : key r = k <;> simp [hk]

theorem mem_of_lastOf {l : List ρ} {k : κ} {r : ρ} (h : lastOf key l k = some r) :
    r ∈ l ∧ key r = k := by
  refine ⟨List.mem_reverse.mp (List.mem_of_find?_eq_some h), ?_⟩
  simpa using List.find?_some h

theorem exists_lastOf {l : List ρ} {r : ρ} (hr : r ∈ l) : ∃ r', lastOf key l (key r) = some r' := by
  rw [← Option.isSome_iff_exists, lastOf, List.find?_isSome]
  exact ⟨r, List.mem_reverse.mpr hr, beq_self_eq_true _⟩

/-! ## Filling a map -/

variable {ε : Type x} {f : ρ → Except ε α}

/-- Put the value of each element under its key. -/
def fill (key : ρ → κ) (f : ρ → Except ε α) (m : List (κ × α)) (l : List ρ) :
    Except ε (List (κ × α)) :=
  l.foldlM (fun m r => (f r).map (put m (key r))) m

theorem fill_cons_eq_ok_iff {m m' : List (κ × α)} {r : ρ} {l : List ρ} :
    fill key f m (r :: l) = .ok m' ↔ ∃ a, f r = .ok a ∧ fill key f (put m (key r) a) l = .ok m' := by
  rw [fill, List.foldlM_cons]
  cases hf : f r with
  | error e => simp [bind, Except.bind, Except.map]
  | ok a => simp [bind, Except.bind, Except.map, fill]

/-- A map is filled when every element has its value. -/
theorem fill_ok_iff (m : List (κ × α)) (l : List ρ) :
    (∃ m', fill key f m l = .ok m') ↔ ∀ r ∈ l, ∃ a, f r = .ok a := by
  induction l generalizing m with
  | nil => simp [fill, pure, Except.pure]
  | cons r rest ih =>
    simp only [fill_cons_eq_ok_iff, List.forall_mem_cons]
    constructor
    · rintro ⟨m', a, ha, hrest⟩
      exact ⟨⟨a, ha⟩, (ih _).mp ⟨m', hrest⟩⟩
    · rintro ⟨⟨a, ha⟩, hrest⟩
      obtain ⟨m', hm'⟩ := (ih (put m (key r) a)).mpr hrest
      exact ⟨m', a, ha, hm'⟩

theorem nodup_fill {m m' : List (κ × α)} {l : List ρ} (hm : (m.map Prod.fst).Nodup)
    (hfill : fill key f m l = .ok m') : (m'.map Prod.fst).Nodup := by
  induction l generalizing m with
  | nil =>
    obtain rfl : m = m' := Except.ok.inj hfill
    exact hm
  | cons r rest ih =>
    obtain ⟨a, -, hrest⟩ := fill_cons_eq_ok_iff.mp hfill
    exact ih (nodup_put hm _ _) hrest

/-- **The last element wins.** -/
theorem lookup_fill {m m' : List (κ × α)} {l : List ρ} (hfill : fill key f m l = .ok m') (k : κ) :
    m'.lookup k = ((lastOf key l k).bind fun r => (f r).toOption).or (m.lookup k) := by
  induction l generalizing m with
  | nil =>
    obtain rfl : m = m' := Except.ok.inj hfill
    rfl
  | cons r rest ih =>
    obtain ⟨a, ha, hrest⟩ := fill_cons_eq_ok_iff.mp hfill
    rw [ih hrest, lastOf_cons, lookup_put]
    cases hlast : lastOf key rest k with
    | some r' =>
      obtain ⟨a', ha'⟩ := (fill_ok_iff _ rest).mp ⟨m', hrest⟩ r' (mem_of_lastOf hlast).1
      simp [ha', Except.toOption]
    | none =>
      by_cases hk : key r = k
      · simp [hk, ha, Except.toOption]
      · simp [hk, Ne.symm hk]

end Keys

/-! ## Walking a map -/

variable {ε : Type x} {β : Type v} {g : κ → α → Except ε β}

/-- Turn each value into another, in the order of the walk. -/
def visit (g : κ → α → Except ε β) (m : List (κ × α)) : Except ε (List (κ × β)) :=
  m.mapM fun e => (g e.1 e.2).map (Prod.mk e.1)

theorem visit_cons_eq_ok_iff {e : κ × α} {m : List (κ × α)} {m' : List (κ × β)} :
    visit g (e :: m) = .ok m' ↔
      ∃ b rest, g e.1 e.2 = .ok b ∧ visit g m = .ok rest ∧ m' = (e.1, b) :: rest := by
  have hcons : visit g (e :: m) =
      (g e.1 e.2).bind fun b => (visit g m).map fun rest => (e.1, b) :: rest := by
    rw [visit, List.mapM_cons]
    cases g e.1 e.2 <;> rfl
  rw [hcons]
  cases hg : g e.1 e.2 with
  | error err => simp [Except.bind]
  | ok b =>
    cases hrest : visit g m with
    | error err => simp [Except.bind, Except.map]
    | ok rest => simp [Except.bind, Except.map, eq_comm]

theorem visit_ok_iff (m : List (κ × α)) :
    (∃ m', visit g m = .ok m') ↔ ∀ e ∈ m, ∃ b, g e.1 e.2 = .ok b := by
  induction m with
  | nil => simp [visit, pure, Except.pure]
  | cons e rest ih =>
    simp only [visit_cons_eq_ok_iff, List.forall_mem_cons, ← ih]
    constructor
    · rintro ⟨m', b, m₁, hb, hm₁, -⟩
      exact ⟨⟨b, hb⟩, m₁, hm₁⟩
    · rintro ⟨⟨b, hb⟩, m₁, hm₁⟩
      exact ⟨_, b, m₁, hb, hm₁, rfl⟩

theorem keys_visit {m : List (κ × α)} {m' : List (κ × β)} (hvisit : visit g m = .ok m') :
    m'.map Prod.fst = m.map Prod.fst := by
  induction m generalizing m' with
  | nil =>
    obtain rfl : [] = m' := Except.ok.inj hvisit
    rfl
  | cons e rest ih =>
    obtain ⟨b, m₁, -, hm₁, rfl⟩ := visit_cons_eq_ok_iff.mp hvisit
    rw [List.map_cons, List.map_cons, ih hm₁]

theorem lookup_visit [DecidableEq κ] {m : List (κ × α)} {m' : List (κ × β)}
    (hvisit : visit g m = .ok m') (k : κ) :
    m'.lookup k = (m.lookup k).bind fun a => (g k a).toOption := by
  induction m generalizing m' with
  | nil =>
    obtain rfl : [] = m' := Except.ok.inj hvisit
    rfl
  | cons e rest ih =>
    obtain ⟨b, m₁, hb, hm₁, rfl⟩ := visit_cons_eq_ok_iff.mp hvisit
    rw [lookup_cons_eq, lookup_cons_eq, ih hm₁]
    by_cases hk : k = e.1
    · subst hk
      simp [hb, Except.toOption]
    · simp [hk]

end SimpleSandbox.KeyedList
