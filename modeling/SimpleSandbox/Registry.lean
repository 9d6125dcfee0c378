import Mathlib.Data.List.Nodup

/-!
# Registries

A registry holds values under distinct names, in the order in which they came, and knows the
name that was used last: nothing is used last only if there is nothing at all.  It changes by
events.  An event about a name that is not there, or a second value for one that is, changes
nothing, so that every event leads from a registry to a registry.
-/

namespace SimpleSandbox

universe u v

/-- Values under distinct names, and the name used last. -/
structure Registry (ν : Type u) (α : Type v) where
  last : Option ν
  entries : List (ν × α)
  distinct : (entries.map Prod.fst).Nodup
  last_none : last = none → entries = []
  last_live : ∀ n, last = some n → n ∈ entries.map Prod.fst

namespace Registry

variable {ν : Type u} {α : Type v}

def names (R : Registry ν α) : List ν := R.entries.map Prod.fst

def empty : Registry ν α where
  last := none
  entries := []
  distinct := List.nodup_nil
  last_none := fun _ => rfl
  last_live := nofun

/-- A change of a registry. -/
inductive Event (ν : Type u) (α : Type v) where
  | add (n : ν) (a : α)
  | update (n : ν) (f : α → α)
  | use (n : ν)
  | drop (n : ν)

/-- Nothing is used last where there is nothing. -/
theorem last_eq_none {R : Registry ν α} (h : R.entries = []) : R.last = none := by
  cases hlast : R.last with
  | none => rfl
  | some n =>
    have hn := R.last_live n hlast
    rw [h] at hn
    cases hn

variable [DecidableEq ν]

/-! ## The events -/

/-- Change the values of one name. -/
def updateEntries (n : ν) (f : α → α) (l : List (ν × α)) : List (ν × α) :=
  l.map fun e => if e.1 = n then (e.1, f e.2) else e

/-- All entries but those of one name. -/
def dropEntries (n : ν) (l : List (ν × α)) : List (ν × α) := l.filter fun e => decide (e.1 ≠ n)

theorem names_updateEntries (n : ν) (f : α → α) (l : List (ν × α)) :
    (updateEntries n f l).map Prod.fst = l.map Prod.fst := by
  rw [updateEntries, List.map_map]
  refine List.map_congr_left fun e _ => ?_
  by_cases he : e.1 = n
  · simp [he]
  · simp [he]

theorem mem_dropEntries {n : ν} {l : List (ν × α)} {e : ν × α} :
    e ∈ dropEntries n l ↔ e ∈ l ∧ e.1 ≠ n := by
  rw [dropEntries, List.mem_filter, decide_eq_true_iff]

/-- Under distinct names, taking out the entries of a name takes out one. -/
theorem dropEntries_append_cons {before rest : List (ν × α)} {e : ν × α}
    (h : ((before ++ e :: rest).map Prod.fst).Nodup) :
    dropEntries e.1 (before ++ e :: rest) = before ++ rest := by
  rw [List.map_append, List.map_cons, List.nodup_middle, List.nodup_cons, ← List.map_append] at h
  have hkeep : ∀ x ∈ before ++ rest, decide (x.1 ≠ e.1) = true := by
    intro x hx
    rw [decide_eq_true_iff]
    intro heq
    exact h.1 (heq ▸ List.mem_map_of_mem hx)
  rw [dropEntries, List.filter_append, List.filter_cons_of_neg (by simp), ← List.filter_append]
  exact List.filter_eq_self.mpr hkeep

/-- A new value under a free name, which is then the last used. -/
def add (R : Registry ν α) (n : ν) (a : α) : Registry ν α :=
  if h : n ∈ R.names then R
  else {
    last := some n
    entries := R.entries ++ [(n, a)]
    distinct := by
      rw [List.map_append, List.map_singleton]
      exact List.nodup_append.mpr ⟨R.distinct, List.nodup_singleton _, fun x hx y hy => by
        rw [List.mem_singleton.mp hy]
        rintro rfl
        exact h hx⟩
    last_none := nofun
    last_live := by
      intro m hm
      rw [List.map_append, ← Option.some.inj hm]
      exact List.mem_append_right _ (List.mem_singleton.mpr rfl) }

def update (R : Registry ν α) (n : ν) (f : α → α) : Registry ν α where
  last := R.last
  entries := updateEntries n f R.entries
  distinct := by
    rw [names_updateEntries]
    exact R.distinct
  last_none := fun h => by
    rw [R.last_none h]
    rfl
  last_live := fun m h => by
    rw [names_updateEntries]
    exact R.last_live m h

def use (R : Registry ν α) (n : ν) : Registry ν α :=
  if h : n ∈ R.names then {
    last := some n
    entries := R.entries
    distinct := R.distinct
    last_none := nofun
    last_live := by
      intro m hm
      rw [← Option.some.inj hm]
      exact h }
  else R

/-- Where the last used name goes, the one that came last takes its place. -/
def drop (R : Registry ν α) (n : ν) : Registry ν α where
  last := if R.last = some n then (dropEntries n R.entries).getLast?.map Prod.fst else R.last
  entries := dropEntries n R.entries
  distinct := List.Nodup.sublist (List.filter_sublist.map _) R.distinct
  last_none := by
    intro h
    by_cases hlast : R.last = some n
    · rw [if_pos hlast] at h
      exact List.getLast?_eq_none_iff.mp (Option.map_eq_none_iff.mp h)
    · rw [if_neg hlast] at h
      rw [R.last_none h]
      rfl
  last_live := by
    intro m h
    by_cases hlast : R.last = some n
    · rw [if_pos hlast] at h
      obtain ⟨e, he, rfl⟩ := Option.map_eq_some_iff.mp h
      exact List.mem_map_of_mem (List.mem_of_getLast? he)
    · rw [if_neg hlast] at h
      obtain ⟨e, he, rfl⟩ := List.mem_map.mp (R.last_live m h)
      refine List.mem_map_of_mem (mem_dropEntries.mpr ⟨he, ?_⟩)
      rintro rfl
      exact hlast h

/-! ## Sequences of events -/

def apply (R : Registry ν α) : Event ν α → Registry ν α
  | .add n a => R.add n a
  | .update n f => R.update n f
  | .use n => R.use n
  | .drop n => R.drop n

def applyAll (R : Registry ν α) (evs : List (Event ν α)) : Registry ν α := evs.foldl apply R

@[simp] theorem applyAll_nil (R : Registry ν α) : R.applyAll [] = R := rfl

@[simp] theorem applyAll_cons (R : Registry ν α) (ev : Event ν α) (evs : List (Event ν α)) :
    R.applyAll (ev :: evs) = (R.apply ev).applyAll evs := rfl

/-- A first part of the events has happened, and all of them if the party has got to its end. -/
def Performs (evs : List (Event ν α)) (ended : Prop) (R R' : Registry ν α) : Prop :=
  ∃ before after, evs = before ++ after ∧ R' = R.applyAll before ∧ (ended → after = [])

theorem Performs.none {evs : List (Event ν α)} {ended : Prop} (R : Registry ν α) (h : ¬ ended) :
    Performs evs ended R R := ⟨[], evs, rfl, rfl, fun hended => absurd hended h⟩

theorem Performs.all (evs : List (Event ν α)) (ended : Prop) (R : Registry ν α) :
    Performs evs ended R (R.applyAll evs) := ⟨evs, [], (List.append_nil _).symm, rfl, fun _ => rfl⟩

/-! ## What the events leave -/

theorem entries_add {R : Registry ν α} {n : ν} (h : n ∉ R.names) (a : α) :
    (R.add n a).entries = R.entries ++ [(n, a)] := by
  rw [add, dif_neg h]

theorem last_add {R : Registry ν α} {n : ν} (h : n ∉ R.names) (a : α) :
    (R.add n a).last = some n := by
  rw [add, dif_neg h]

theorem entries_update (R : Registry ν α) (n : ν) (f : α → α) :
    (R.update n f).entries = updateEntries n f R.entries := rfl

theorem entries_drop (R : Registry ν α) (n : ν) :
    (R.drop n).entries = dropEntries n R.entries := rfl

theorem last_drop (R : Registry ν α) (n : ν) :
    (R.drop n).last =
      if R.last = some n then (dropEntries n R.entries).getLast?.map Prod.fst else R.last := rfl

/-- An entry after a change of one name. -/
theorem mem_update {R : Registry ν α} {n : ν} {f : α → α} {e : ν × α}
    (h : e ∈ (R.update n f).entries) :
    (e.1 ≠ n ∧ e ∈ R.entries) ∨ ∃ a, (n, a) ∈ R.entries ∧ e = (n, f a) := by
  obtain ⟨e₀, he₀, rfl⟩ := List.mem_map.mp h
  by_cases hn : e₀.1 = n
  · refine Or.inr ⟨e₀.2, ?_, ?_⟩
    · rw [← hn]
      exact he₀
    · rw [if_pos hn, hn]
  · rw [if_neg hn]
    exact Or.inl ⟨hn, he₀⟩

@[simp] theorem entries_use (R : Registry ν α) (n : ν) : (R.use n).entries = R.entries := by
  rw [use]
  split <;> rfl

theorem last_use {R : Registry ν α} {n : ν} (h : n ∈ R.names) : (R.use n).last = some n := by
  rw [use, dif_pos h]

end Registry

end SimpleSandbox
