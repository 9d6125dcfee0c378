import Mathlib.Data.List.Basic
import Mathlib.Algebra.BigOperators.Group.List.Basic
import Mathlib.Algebra.GroupWithZero.Nat
import Mathlib.Logic.Relation

/-!
# Tasks that run side by side

A pool is a list of tasks.  In one step one of its tasks takes a step of its own, or a new
task begins behind the others; which task steps next is open.  A task shares nothing with
the others, so what it does in a pool is what it can do alone.
-/

namespace SimpleSandbox.TaskPool

open Relation

variable {T : Type} {start : T → Prop} {step : T → T → Prop}

/-- One task of the pool steps, or a new one begins. -/
inductive PoolStep (start : T → Prop) (step : T → T → Prop) : List T → List T → Prop
  | task (pool : List T) (i : ℕ) (t t' : T) (hi : pool[i]? = some t) (h : step t t') :
      PoolStep start step pool (pool.set i t')
  | spawn (pool : List T) (t : T) (h : start t) : PoolStep start step pool (pool ++ [t])

/-- The task at a place after one step of the pool. -/
theorem PoolStep.at_place {pool pool' : List T} (h : PoolStep start step pool pool') {i : ℕ} {t : T}
    (hi : pool[i]? = some t) : ∃ t', pool'[i]? = some t' ∧ ReflTransGen step t t' := by
  cases h with
  | task j u u' hj hstep =>
    by_cases hij : j = i
    · subst hij
      rw [hj] at hi
      obtain rfl := Option.some.inj hi
      have hlt : j < pool.length := (List.getElem?_eq_some_iff.mp hj).1
      exact ⟨u', List.getElem?_set_self hlt, .single hstep⟩
    · exact ⟨t, by rw [List.getElem?_set_ne hij, hi], .refl⟩
  | spawn u hstart =>
    have hlt : i < pool.length := (List.getElem?_eq_some_iff.mp hi).1
    exact ⟨t, by rw [List.getElem?_append_left hlt, hi], .refl⟩

/-- **Tasks keep their places**, and change by their own steps alone. -/
theorem run_at_place {pool pool' : List T} (h : ReflTransGen (PoolStep start step) pool pool')
    {i : ℕ} {t : T} (hi : pool[i]? = some t) :
    ∃ t', pool'[i]? = some t' ∧ ReflTransGen step t t' := by
  induction h with
  | refl => exact ⟨t, hi, .refl⟩
  | tail _ hstep ih =>
    obtain ⟨u, hu, hrun⟩ := ih
    obtain ⟨t', ht', hlast⟩ := hstep.at_place hu
    exact ⟨t', ht', hrun.trans hlast⟩

/-- A task of a pool is one that was there, after steps of its own, or one that has begun. -/
theorem PoolStep.mem {pool pool' : List T} (h : PoolStep start step pool pool') {t' : T}
    (ht' : t' ∈ pool') : start t' ∨ ∃ t ∈ pool, ReflTransGen step t t' := by
  cases h with
  | task j u u' hj hstep =>
    rcases List.mem_or_eq_of_mem_set ht' with hmem | rfl
    · exact Or.inr ⟨t', hmem, .refl⟩
    · exact Or.inr ⟨u, List.mem_of_getElem? hj, .single hstep⟩
  | spawn u hstart =>
    rcases List.mem_append.mp ht' with hmem | hmem
    · exact Or.inr ⟨t', hmem, .refl⟩
    · rw [List.mem_singleton.mp hmem]
      exact Or.inl hstart

/-- **Each task runs as if it were alone.** -/
theorem run_of_mem {pool : List T} (h : ReflTransGen (PoolStep start step) [] pool) {t : T}
    (ht : t ∈ pool) : ∃ t₀, start t₀ ∧ ReflTransGen step t₀ t := by
  induction h generalizing t with
  | refl => exact absurd ht List.not_mem_nil
  | tail _ hstep ih =>
    rcases hstep.mem ht with hstart | ⟨u, hu, hlast⟩
    · exact ⟨t, hstart, .refl⟩
    · obtain ⟨t₀, hstart, hrun⟩ := ih hu
      exact ⟨t₀, hstart, hrun.trans hlast⟩

/-! ## Work that is left -/

/-- The work a pool has left, from the work each task has left. -/
def work (w : T → ℕ) (pool : List T) : ℕ := (pool.map w).sum

theorem work_set {w : T → ℕ} {pool : List T} {i : ℕ} {t : T} (hi : pool[i]? = some t) (t' : T) :
    work w (pool.set i t') + w t = work w pool + w t' := by
  induction pool generalizing i with
  | nil => simp at hi
  | cons u pool ih =>
    cases i with
    | zero =>
      obtain rfl : u = t := by simpa using hi
      simp only [work, List.set_cons_zero, List.map_cons, List.sum_cons]
      omega
    | succ i =>
      have htail := ih (by simpa using hi)
      simp only [work] at htail
      simp only [work, List.set_cons_succ, List.map_cons, List.sum_cons]
      omega

/-- A task that comes closer to its end brings the pool closer to its end. -/
theorem work_set_lt {w : T → ℕ} {pool : List T} {i : ℕ} {t t' : T} (hi : pool[i]? = some t)
    (h : w t' < w t) : work w (pool.set i t') < work w pool := by
  have hset := work_set (w := w) hi t'
  omega

end SimpleSandbox.TaskPool
