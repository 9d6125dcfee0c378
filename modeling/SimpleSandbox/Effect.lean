import Mathlib.Logic.Basic

/-!
# Computations that change a state and may stop

`Effect σ ε α` is a program that reads and changes a state `σ` and ends with a value
or, as `?` does, with an error.  What it did to the state before an error stays
done: there is no rollback.  The module gives the monad, the rules that read a
result of a sequence back into the results of its parts, and the frame rule: a
preorder on states that every part respects is respected by the whole.
-/

namespace SimpleSandbox

/-- A program over the state `σ` with errors `ε` and result `α`. -/
def Effect (σ ε α : Type) := σ → Except ε α × σ

namespace Effect

variable {σ ε ε' α β : Type}

instance : Monad (Effect σ ε) where
  pure a := fun s => (.ok a, s)
  bind m f := fun s =>
    match m s with
    | (.ok a, s') => f a s'
    | (.error e, s') => (.error e, s')

/-- Stop with an error. -/
def fail (e : ε) : Effect σ ε α := fun s => (.error e, s)

/-- The current state. -/
def state : Effect σ ε σ := fun s => (.ok s, s)

/-- Change the state. -/
def update (f : σ → σ) : Effect σ ε Unit := fun s => (.ok (), f s)

/-- A result computed without touching the state. -/
def lift (r : Except ε α) : Effect σ ε α := fun s => (r, s)

/-- `map_err`, and the conversion `?` makes between error types. -/
def mapError (f : ε → ε') (m : Effect σ ε α) : Effect σ ε' α := fun s =>
  match m s with
  | (.ok a, s') => (.ok a, s')
  | (.error e, s') => (.error (f e), s')

/-- Run and keep the result as a value, as `let _ = ..` and `.ok()` do. -/
def attempt (m : Effect σ ε α) : Effect σ ε' (Except ε α) := fun s =>
  (.ok (m s).1, (m s).2)

/-! ## Running -/

@[simp] theorem pure_apply (a : α) (s : σ) : (pure a : Effect σ ε α) s = (.ok a, s) := rfl

@[simp] theorem fail_apply (e : ε) (s : σ) : (fail e : Effect σ ε α) s = (.error e, s) := rfl

@[simp] theorem state_apply (s : σ) : (state : Effect σ ε σ) s = (.ok s, s) := rfl

@[simp] theorem update_apply (f : σ → σ) (s : σ) :
    (update f : Effect σ ε Unit) s = (.ok (), f s) := rfl

@[simp] theorem lift_apply (r : Except ε α) (s : σ) : (lift r : Effect σ ε α) s = (r, s) := rfl

theorem bind_apply (m : Effect σ ε α) (f : α → Effect σ ε β) (s : σ) :
    (m >>= f) s =
      match m s with
      | (.ok a, s') => f a s'
      | (.error e, s') => (.error e, s') := rfl

theorem bind_of_ok {m : Effect σ ε α} {f : α → Effect σ ε β} {s s' : σ} {a : α}
    (h : m s = (.ok a, s')) : (m >>= f) s = f a s' := by
  rw [bind_apply, h]

theorem bind_of_error {m : Effect σ ε α} {f : α → Effect σ ε β} {s s' : σ} {e : ε}
    (h : m s = (.error e, s')) : (m >>= f) s = (.error e, s') := by
  rw [bind_apply, h]

theorem lift_ok_bind (a : α) (f : α → Effect σ ε β) : lift (.ok a) >>= f = f a := rfl

theorem bind_assoc {γ : Type} (m : Effect σ ε α) (f : α → Effect σ ε β) (g : β → Effect σ ε γ) :
    (m >>= f) >>= g = m >>= fun a => f a >>= g := by
  funext s
  simp only [bind_apply]
  rcases m s with ⟨_ | _, s'⟩ <;> rfl

theorem bind_unit (m : Effect σ ε Unit) : (m >>= fun _ => pure ()) = m := by
  funext s
  rw [bind_apply]
  rcases m s with ⟨_ | _, s'⟩ <;> rfl

theorem pure_bind (a : α) (f : α → Effect σ ε β) : (pure a >>= f) = f a := rfl

/-- A sequence succeeds when both of its parts do. -/
theorem bind_eq_ok_iff {m : Effect σ ε α} {f : α → Effect σ ε β} {s t : σ} {b : β} :
    (m >>= f) s = (.ok b, t) ↔ ∃ a s', m s = (.ok a, s') ∧ f a s' = (.ok b, t) := by
  rw [bind_apply]
  constructor
  · intro h
    rcases hm : m s with ⟨r, s'⟩
    cases r with
    | ok a => rw [hm] at h; exact ⟨a, s', rfl, h⟩
    | error e => rw [hm] at h; simp at h
  · rintro ⟨a, s', hm, hf⟩
    rw [hm]
    exact hf

theorem mapError_eq_ok_iff {f : ε → ε'} {m : Effect σ ε α} {s t : σ} {a : α} :
    mapError f m s = (.ok a, t) ↔ m s = (.ok a, t) := by
  rcases hm : m s with ⟨r, s'⟩
  cases r <;> simp [mapError, hm]

theorem mapError_eq_error_iff {f : ε → ε'} {m : Effect σ ε α} {s t : σ} {e' : ε'} :
    mapError f m s = (.error e', t) ↔ ∃ e, f e = e' ∧ m s = (.error e, t) := by
  rcases hm : m s with ⟨r, s'⟩
  cases r with
  | ok a => simp [mapError, hm]
  | error e =>
    simp only [mapError, hm, Prod.mk.injEq, Except.error.injEq]
    constructor
    · rintro ⟨rfl, rfl⟩
      exact ⟨e, rfl, rfl, rfl⟩
    · rintro ⟨_, rfl, rfl, rfl⟩
      exact ⟨rfl, rfl⟩

@[simp] theorem mapError_snd (f : ε → ε') (m : Effect σ ε α) (s : σ) :
    (mapError f m s).2 = (m s).2 := by
  rcases hm : m s with ⟨r, s'⟩
  cases r <;> simp [mapError, hm]

@[simp] theorem attempt_apply (m : Effect σ ε α) (s : σ) :
    (attempt m : Effect σ ε' (Except ε α)) s = (.ok (m s).1, (m s).2) := rfl

/-! ## Frames -/

/-- Every run of `m` leads to a state related to the one it started in, whether it
    ends with a value or with an error. -/
def Preserves (R : σ → σ → Prop) (m : Effect σ ε α) : Prop := ∀ s, R s (m s).2

section Frame

variable {R : σ → σ → Prop}

theorem Preserves.pure (hrefl : ∀ s, R s s) (a : α) :
    Preserves R (Pure.pure a : Effect σ ε α) := fun s => hrefl s

theorem Preserves.fail (hrefl : ∀ s, R s s) (e : ε) :
    Preserves R (Effect.fail e : Effect σ ε α) := fun s => hrefl s

theorem Preserves.lift (hrefl : ∀ s, R s s) (r : Except ε α) :
    Preserves R (Effect.lift r : Effect σ ε α) := fun s => hrefl s

theorem Preserves.state (hrefl : ∀ s, R s s) :
    Preserves R (Effect.state : Effect σ ε σ) := fun s => hrefl s

/-- **The frame rule.** -/
theorem Preserves.bind (htrans : ∀ {a b c}, R a b → R b c → R a c)
    {m : Effect σ ε α} {f : α → Effect σ ε β} (hm : Preserves R m)
    (hf : ∀ a, Preserves R (f a)) : Preserves R (m >>= f) := by
  intro s
  have hfirst := hm s
  rw [bind_apply]
  rcases hms : m s with ⟨r, s'⟩
  rw [hms] at hfirst
  cases r with
  | ok a => exact htrans hfirst (hf a s')
  | error e => exact hfirst

/-- Some run of `m` ends with the value. -/
def Returns (m : Effect σ ε α) (a : α) : Prop := ∃ s s', m s = (.ok a, s')

theorem returns_lift {r : Except ε α} {a : α} (h : Returns (lift r : Effect σ ε α) a) :
    r = .ok a := by
  obtain ⟨s, s', hrun⟩ := h
  exact (Prod.mk.inj hrun).1

/-- The frame rule for two parts with relations of their own; the second part only runs on
    values the first returns. -/
theorem Preserves.seq {R₁ R₂ : σ → σ → Prop} {m : Effect σ ε α} {f : α → Effect σ ε β}
    (hm : Preserves R₁ m) (hf : ∀ a, Returns m a → Preserves R₂ (f a))
    (hfirst : ∀ {a b}, R₁ a b → R a b) (hboth : ∀ {a b c}, R₁ a b → R₂ b c → R a c) :
    Preserves R (m >>= f) := by
  intro s
  have hms := hm s
  rw [bind_apply]
  rcases hrun : m s with ⟨r, s'⟩
  rw [hrun] at hms
  cases r with
  | ok a => exact hboth hms (hf a ⟨s, s', hrun⟩ s')
  | error e => exact hfirst hms

/-- A program that only reads. -/
abbrev Reads (m : Effect σ ε α) : Prop := Preserves Eq m

theorem Reads.bind {m : Effect σ ε α} {f : α → Effect σ ε β} (hm : Reads m)
    (hf : ∀ a, Reads (f a)) : Reads (m >>= f) :=
  Preserves.bind (fun h₁ h₂ => h₁.trans h₂) hm hf

theorem Reads.lift (r : Except ε α) : Reads (Effect.lift r : Effect σ ε α) := fun _ => rfl

theorem Reads.pure (a : α) : Reads (Pure.pure a : Effect σ ε α) := fun _ => rfl

theorem Reads.fail (e : ε) : Reads (Effect.fail e : Effect σ ε α) := fun _ => rfl

theorem bind_pure_snd (m : Effect σ ε α) (g : α → β) (s : σ) :
    ((m >>= fun a => pure (g a)) s).2 = (m s).2 := by
  rw [bind_apply]
  rcases m s with ⟨_ | _, s'⟩ <;> rfl

theorem error_of_bind_pure {m : Effect σ ε α} {g : α → β} {s : σ} {e : ε}
    (h : ((m >>= fun a => pure (g a)) s).1 = .error e) : (m s).1 = .error e := by
  rw [bind_apply] at h
  rcases hm : m s with ⟨e' | a, s'⟩
  · rw [hm] at h
    exact congrArg Except.error (Except.error.inj h)
  · rw [hm] at h
    exact nomatch h

/-- Handing on a result changes nothing. -/
theorem Preserves.bind_pure {m : Effect σ ε α} (hm : Preserves R m) (g : α → β) :
    Preserves R (m >>= fun a => Pure.pure (g a)) := by
  intro s
  rw [bind_pure_snd]
  exact hm s

theorem Preserves.mapError {m : Effect σ ε α} (hm : Preserves R m) (f : ε → ε') :
    Preserves R (Effect.mapError f m) := by
  intro s
  rw [mapError_snd]
  exact hm s

theorem Preserves.attempt {m : Effect σ ε α} (hm : Preserves R m) :
    Preserves R (Effect.attempt m : Effect σ ε' (Except ε α)) := fun s => hm s

theorem Preserves.mono {R' : σ → σ → Prop} (hR : ∀ {a b}, R a b → R' a b)
    {m : Effect σ ε α} (hm : Preserves R m) : Preserves R' m := fun s => hR (hm s)

end Frame

end Effect

end SimpleSandbox
