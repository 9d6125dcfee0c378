import Mathlib.Data.List.Basic
import Mathlib.Logic.Relation
import SimpleSandbox.Effect

/-!
# Programs that interleave

A computation of `Effect` runs at one go.  A `Program` is the steps it takes: each reads and
changes the state at once, the rest depends on the answer, and between two steps other programs
and the environment may step.  What a step can do is a relation, so that a program has more runs
than the computation it stands for; the computation is one of them.

A program is safe for an invariant if each of its steps keeps it, whatever the others have made
of the state before.  Programs that are safe alone are safe together.
-/

namespace SimpleSandbox

/-- A program over the state `σ` with errors `ε` and result `α`. -/
inductive Program (σ ε α : Type) : Type 1
  | done (r : Except ε α)
  | step {β : Type} (act : σ → β → σ → Prop) (next : β → Program σ ε α)

namespace Program

variable {σ ε ε' α β : Type}

/-! ## Sequences -/

/-- Go on with the result, be it a value or an error. -/
def andThen (f : Except ε α → Program σ ε' β) : Program σ ε α → Program σ ε' β
  | done r => f r
  | step act next => step act fun b => (next b).andThen f

/-- Go on with a value; an error ends the program. -/
def onValue (f : α → Program σ ε β) : Except ε α → Program σ ε β
  | .ok a => f a
  | .error e => done (.error e)

instance : Monad (Program σ ε) where
  pure a := done (.ok a)
  bind p f := p.andThen (onValue f)

def fail (e : ε) : Program σ ε α := done (.error e)

/-- A result computed without touching the state. -/
def lift (r : Except ε α) : Program σ ε α := done r

def mapError (f : ε → ε') (p : Program σ ε α) : Program σ ε' α :=
  p.andThen fun r => done (r.mapError f)

/-- Run and keep the result as a value. -/
def attempt (p : Program σ ε α) : Program σ ε' (Except ε α) := p.andThen fun r => done (.ok r)

/-- A computation as one step. -/
def atomic (m : Effect σ ε α) : Program σ ε α := step (fun s r s' => m s = (r, s')) done

/-- The program of somebody who first looks at the state in a way of his own. -/
def within (enter : σ → σ) : Program σ ε α → Program σ ε α
  | done r => done r
  | step act next => step (fun s => act (enter s)) fun b => (next b).within enter

/-! ## A program by itself -/

/-- A run of the program with nobody else stepping in. -/
inductive Runs : Program σ ε α → σ → Except ε α → σ → Prop
  | done {r : Except ε α} {s : σ} : Runs (done r) s r s
  | step {β : Type} {act : σ → β → σ → Prop} {next : β → Program σ ε α} {s s' s'' : σ} {b : β}
      {r : Except ε α} (h : act s b s') (hrest : Runs (next b) s' r s'') :
      Runs (step act next) s r s''

theorem Runs.andThen {p : Program σ ε α} {f : Except ε α → Program σ ε' β} {s s' s'' : σ}
    {r : Except ε α} {r' : Except ε' β} (h : Runs p s r s') (hf : Runs (f r) s' r' s'') :
    Runs (p.andThen f) s r' s'' := by
  induction h with
  | done => exact hf
  | step hact _ ih => exact .step hact (ih hf)

/-- Run by itself, the program can do what the computation does at one go. -/
def Performs (p : Program σ ε α) (m : Effect σ ε α) : Prop := ∀ s, Runs p s (m s).1 (m s).2

section Performs

variable {p : Program σ ε α} {m : Effect σ ε α}

theorem performs_pure (a : α) : Performs (pure a : Program σ ε α) (pure a) := fun _ => .done

theorem performs_fail (e : ε) : Performs (fail e : Program σ ε α) (Effect.fail e) := fun _ => .done

theorem performs_lift (r : Except ε α) : Performs (lift r : Program σ ε α) (Effect.lift r) :=
  fun _ => .done

theorem performs_atomic (m : Effect σ ε α) : Performs (atomic m) m := fun _ => .step rfl .done

theorem Performs.bind (h : Performs p m) {f : α → Program σ ε β} {g : α → Effect σ ε β}
    (hf : ∀ a, Performs (f a) (g a)) : Performs (p >>= f) (m >>= g) := by
  intro s
  have hp := h s
  rw [Effect.bind_apply]
  rcases hm : m s with ⟨e | a, s'⟩
  · rw [hm] at hp
    exact hp.andThen .done
  · rw [hm] at hp
    exact hp.andThen (hf a s')

theorem Performs.mapError (h : Performs p m) (f : ε → ε') :
    Performs (p.mapError f) (m.mapError f) := by
  intro s
  have hp := h s
  rw [Effect.mapError]
  rcases hm : m s with ⟨e | a, s'⟩ <;> rw [hm] at hp <;> exact hp.andThen .done

theorem Performs.attempt (h : Performs p m) :
    Performs (p.attempt : Program σ ε' (Except ε α)) m.attempt := fun s => (h s).andThen .done

end Performs

/-! ## Safe programs -/

/-- From states with the invariant, whoever has made them, each step keeps the invariant and is
    one that `R` allows; a value that is returned has the property. -/
def Safe (I : σ → Prop) (R : σ → σ → Prop) (post : α → Prop) : Program σ ε α → Prop
  | done r => ∀ a, r = .ok a → post a
  | step act next => ∀ s b s', I s → act s b s' → I s' ∧ R s s' ∧ (next b).Safe I R post

section Safe

variable {I J : σ → Prop} {R R' : σ → σ → Prop} {post : α → Prop} {post' : β → Prop}
  {p : Program σ ε α}

theorem Safe.andThen (hp : p.Safe I R post) {f : Except ε α → Program σ ε' β}
    (hf : ∀ r, (∀ a, r = .ok a → post a) → (f r).Safe I R post') :
    (p.andThen f).Safe I R post' := by
  induction p with
  | done r => exact hf r hp
  | step act next ih =>
    intro s b s' hs hact
    obtain ⟨hs', hR, hrest⟩ := hp s b s' hs hact
    exact ⟨hs', hR, ih b hrest⟩

/-- **The rule of sequences.** -/
theorem Safe.bind (hp : p.Safe I R post) {f : α → Program σ ε β}
    (hf : ∀ a, post a → (f a).Safe I R post') : (p >>= f).Safe I R post' := by
  refine hp.andThen fun r hr => ?_
  cases r with
  | ok a => exact hf a (hr a rfl)
  | error e => exact fun _ h => nomatch h

theorem safe_lift {r : Except ε α} (h : ∀ a, r = .ok a → post a) :
    (lift r : Program σ ε α).Safe I R post := h

/-- Of a result computed without touching the state nothing need be known. -/
theorem safe_lift_any (r : Except ε α) : (lift r : Program σ ε α).Safe I R fun _ => True :=
  fun _ _ => trivial

theorem safe_pure {a : α} (h : post a) : (pure a : Program σ ε α).Safe I R post := by
  intro b hb
  rw [← Except.ok.inj hb]
  exact h

theorem safe_fail (e : ε) : (fail e : Program σ ε α).Safe I R post := fun _ h => nomatch h

theorem Safe.mapError (hp : p.Safe I R post) (f : ε → ε') : (p.mapError f).Safe I R post := by
  refine hp.andThen fun r hr => ?_
  cases r with
  | ok a =>
    intro b hb
    rw [← Except.ok.inj hb]
    exact hr a rfl
  | error e => exact fun _ h => nomatch h

theorem Safe.attempt (hp : p.Safe I R post) :
    (p.attempt : Program σ ε' (Except ε α)).Safe I R fun r => ∀ a, r = .ok a → post a := by
  refine hp.andThen fun r hr => ?_
  intro r' hr'
  rw [← Except.ok.inj hr']
  exact hr

/-- A single step. -/
theorem safe_atomic {m : Effect σ ε α}
    (h : ∀ s, I s → I (m s).2 ∧ R s (m s).2 ∧ ∀ a, (m s).1 = .ok a → post a) :
    (atomic m).Safe I R post := by
  intro s r s' hs hact
  have hm := h s hs
  rw [show m s = (r, s') from hact] at hm
  exact hm

theorem Safe.within (hp : p.Safe J R' post) {enter : σ → σ} (henter : ∀ s, I s → J (enter s))
    (hback : ∀ s, J s → I s) (hR : ∀ s s', R' (enter s) s' → R s s') :
    (p.within enter).Safe I R post := by
  induction p with
  | done r => exact hp
  | step act next ih =>
    intro s b s' hs hact
    obtain ⟨hs', hallowed, hrest⟩ := hp (enter s) b s' (henter s hs) hact
    exact ⟨hback s' hs', hR s s' hallowed, ih b hrest⟩

/-- Where the program leaves the state as its owner looks at it, it runs as before. -/
theorem Runs.within {enter : σ → σ} {s s' : σ} {r : Except ε α} (h : Runs p s r s')
    (hp : p.Safe J R' post) (henter : ∀ s, J s → enter s = s) (hs : J s) :
    Runs (p.within enter) s r s' := by
  induction h with
  | done => exact .done
  | @step _ _ _ s s' _ b _ hact _ ih =>
    obtain ⟨hs', -, hrest⟩ := hp s b s' hs hact
    refine .step ?_ (ih hrest hs')
    rw [henter s hs]
    exact hact

end Safe

/-! ## Pools -/

/-- One step of a program of the pool. -/
inductive PoolStep : σ × List (Program σ ε α) → σ × List (Program σ ε α) → Prop
  | mk {s s' : σ} {pool : List (Program σ ε α)} {i : ℕ} {β : Type} {act : σ → β → σ → Prop}
      {next : β → Program σ ε α} {b : β} (hi : pool[i]? = some (step act next))
      (h : act s b s') : PoolStep (s, pool) (s', pool.set i (next b))

/-- One step of a program, or one of the environment. -/
inductive SharedStep (E : σ → σ → Prop) :
    σ × List (Program σ ε α) → σ × List (Program σ ε α) → Prop
  | program {x y : σ × List (Program σ ε α)} (h : PoolStep x y) : SharedStep E x y
  | environment {s s' : σ} {pool : List (Program σ ε α)} (h : E s s') :
      SharedStep E (s, pool) (s', pool)

section Pools

variable {I : σ → Prop} {R E : σ → σ → Prop} {s s' : σ} {pool pool' : List (Program σ ε α)}

/-- The invariant holds, and every program is safe from here on. -/
def SafePool (I : σ → Prop) (R : σ → σ → Prop) (x : σ × List (Program σ ε α)) : Prop :=
  I x.1 ∧ ∀ p ∈ x.2, p.Safe I R fun _ => True

theorem safePool_step {x y : σ × List (Program σ ε α)} (hx : SafePool I R x) (h : PoolStep x y) :
    SafePool I R y ∧ R x.1 y.1 := by
  cases h with
  | @mk s s' pool i β act next b hi hact =>
    obtain ⟨hs, hpool⟩ := hx
    obtain ⟨hs', hR, hrest⟩ := hpool _ (List.mem_of_getElem? hi) s b s' hs hact
    refine ⟨⟨hs', fun p hp => ?_⟩, hR⟩
    rcases List.mem_or_eq_of_mem_set hp with hold | rfl
    · exact hpool p hold
    · exact hrest

/-- **Programs that are safe alone are safe together**, in every interleaving with one another
    and with an environment that keeps the invariant. -/
theorem safePool_of_reaches (hE : ∀ s s', I s → E s s' → I s')
    {x y : σ × List (Program σ ε α)} (hx : SafePool I R x)
    (h : Relation.ReflTransGen (SharedStep E) x y) : SafePool I R y := by
  induction h with
  | refl => exact hx
  | tail _ hstep ih =>
    cases hstep with
    | program hstep => exact (safePool_step ih hstep).1
    | environment hstep => exact ⟨hE _ _ ih.1 hstep, ih.2⟩

/-- The run of one program by itself is a run of the pool. -/
theorem reaches_of_runs {p : Program σ ε α} {r : Except ε α} (h : Runs p s r s') {i : ℕ}
    (hi : pool[i]? = some p) :
    Relation.ReflTransGen (SharedStep E) (s, pool) (s', pool.set i (done r)) := by
  induction h generalizing pool with
  | done =>
    obtain ⟨hlt, hget⟩ := List.getElem?_eq_some_iff.mp hi
    rw [← hget, List.set_getElem_self]
  | @step _ _ next _ _ _ b _ hact _ ih =>
    have hlt := (List.getElem?_eq_some_iff.mp hi).1
    have hnext : (pool.set i (next b))[i]? = some (next b) := List.getElem?_set_self hlt
    have hrest := ih hnext
    rw [List.set_set] at hrest
    exact .head (.program (.mk hi hact)) hrest

end Pools

end Program

end SimpleSandbox
