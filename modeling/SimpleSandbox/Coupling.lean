import SimpleSandbox.Effect

/-!
# Two runs side by side

Two programs are coupled by a relation between their states if from related states they end
alike, both with related values or both with related errors, and in related states.  The
relations pass through the operations of `Effect`, so that two programs of one shape are coupled
where their parts are.  A program coupled with itself cannot tell related states apart.
-/

namespace SimpleSandbox

section Results

variable {ε ε₁ ε' ε₁' α α' β β' : Type}

/-- Two results that are both values or both errors, and related as such. -/
inductive Alike (E : ε → ε' → Prop) (V : α → α' → Prop) : Except ε α → Except ε' α' → Prop
  | ok {a : α} {a' : α'} (h : V a a') : Alike E V (.ok a) (.ok a')
  | error {e : ε} {e' : ε'} (h : E e e') : Alike E V (.error e) (.error e')

namespace Alike

variable {E : ε → ε' → Prop} {V : α → α' → Prop} {U : β → β' → Prop} {r : Except ε α}
  {r' : Except ε' α'}

theorem refl {E : ε → ε → Prop} {V : α → α → Prop} (hE : ∀ e, E e e) (hV : ∀ a, V a a)
    (r : Except ε α) : Alike E V r r := by
  cases r with
  | ok a => exact .ok (hV a)
  | error e => exact .error (hE e)

theorem eq {r r₁ : Except ε α} (h : Alike Eq Eq r r₁) : r = r₁ := by
  cases h with
  | ok h => exact congrArg Except.ok h
  | error h => exact congrArg Except.error h

theorem of_eq {r r₁ : Except ε α} (h : r = r₁) : Alike Eq Eq r r₁ := by
  rw [h]
  exact Alike.refl (fun _ => rfl) (fun _ => rfl) r₁

theorem mono {E₁ : ε → ε' → Prop} {V₁ : α → α' → Prop} (hE : ∀ e e', E e e' → E₁ e e')
    (hV : ∀ a a', V a a' → V₁ a a') (h : Alike E V r r') : Alike E₁ V₁ r r' := by
  cases h with
  | ok h => exact .ok (hV _ _ h)
  | error h => exact .error (hE _ _ h)

/-- The first parts are one program. -/
theorem bind_same {E : ε → ε → Prop} (hE : ∀ e, E e e) {f : α → Except ε β} {f' : α → Except ε β'}
    (hf : ∀ a, r = .ok a → Alike E U (f a) (f' a)) : Alike E U (r >>= f) (r >>= f') := by
  cases r with
  | ok a => exact hf a rfl
  | error e => exact .error (hE e)

end Alike

end Results

namespace Effect

variable {σ σ' ε ε₁ ε' ε₁' α α' β β' : Type}

/-- From related states the two programs end alike and in related states. -/
def Coupled (R : σ → σ' → Prop) (E : ε → ε' → Prop) (V : α → α' → Prop) (m : Effect σ ε α)
    (m' : Effect σ' ε' α') : Prop :=
  ∀ s s', R s s' → Alike E V (m s).1 (m' s').1 ∧ R (m s).2 (m' s').2

namespace Coupled

variable {R : σ → σ' → Prop} {E : ε → ε' → Prop} {V : α → α' → Prop} {U : β → β' → Prop}
  {m : Effect σ ε α} {m' : Effect σ' ε' α'}

theorem pure {a : α} {a' : α'} (h : V a a') :
    Coupled R E V (Pure.pure a : Effect σ ε α) (Pure.pure a' : Effect σ' ε' α') :=
  fun _ _ hs => ⟨.ok h, hs⟩

theorem fail {e : ε} {e' : ε'} (h : E e e') :
    Coupled R E V (Effect.fail e : Effect σ ε α) (Effect.fail e' : Effect σ' ε' α') :=
  fun _ _ hs => ⟨.error h, hs⟩

theorem lift {r : Except ε α} {r' : Except ε' α'} (h : Alike E V r r') :
    Coupled R E V (Effect.lift r) (Effect.lift r') := fun _ _ hs => ⟨h, hs⟩

theorem state : Coupled R E R (Effect.state : Effect σ ε σ) (Effect.state : Effect σ' ε' σ') :=
  fun _ _ hs => ⟨.ok hs, hs⟩

theorem update {f : σ → σ} {f' : σ' → σ'} (h : ∀ s s', R s s' → R (f s) (f' s')) :
    Coupled R E Eq (Effect.update f : Effect σ ε Unit) (Effect.update f' : Effect σ' ε' Unit) :=
  fun s s' hs => ⟨.ok rfl, h s s' hs⟩

theorem mono {E₁ : ε → ε' → Prop} {V₁ : α → α' → Prop} (hE : ∀ e e', E e e' → E₁ e e')
    (hV : ∀ a a', V a a' → V₁ a a') (hm : Coupled R E V m m') : Coupled R E₁ V₁ m m' := by
  intro s s' hs
  obtain ⟨halike, hstate⟩ := hm s s' hs
  exact ⟨halike.mono hE hV, hstate⟩

/-- **The rule of sequences.** -/
theorem bind {f : α → Effect σ ε β} {f' : α' → Effect σ' ε' β'} (hm : Coupled R E V m m')
    (hf : ∀ a a', V a a' → Coupled R E U (f a) (f' a')) :
    Coupled R E U (m >>= f) (m' >>= f') := by
  intro s s' hs
  obtain ⟨halike, hstate⟩ := hm s s' hs
  rw [bind_apply, bind_apply]
  rcases hrun : m s with ⟨r, t⟩
  rcases hrun' : m' s' with ⟨r', t'⟩
  rw [hrun, hrun'] at halike hstate
  cases halike with
  | ok h => exact hf _ _ h t t' hstate
  | error h => exact ⟨.error h, hstate⟩

theorem mapError {E₁ : ε₁ → ε₁' → Prop} {g : ε → ε₁} {g' : ε' → ε₁'} (hm : Coupled R E V m m')
    (hg : ∀ e e', E e e' → E₁ (g e) (g' e')) :
    Coupled R E₁ V (Effect.mapError g m) (Effect.mapError g' m') := by
  intro s s' hs
  obtain ⟨halike, hstate⟩ := hm s s' hs
  unfold Effect.mapError
  rcases hrun : m s with ⟨r, t⟩
  rcases hrun' : m' s' with ⟨r', t'⟩
  rw [hrun, hrun'] at halike hstate
  cases halike with
  | ok h => exact ⟨.ok h, hstate⟩
  | error h => exact ⟨.error (hg _ _ h), hstate⟩

end Coupled

/-- A program that cannot tell related states apart. -/
abbrev Blind (R : σ → σ → Prop) (m : Effect σ ε α) : Prop := Coupled R Eq Eq m m

namespace Blind

variable {R : σ → σ → Prop} {m : Effect σ ε α}

theorem lift (r : Except ε α) : Blind R (Effect.lift r : Effect σ ε α) :=
  Coupled.lift (Alike.of_eq rfl)

theorem pure (a : α) : Blind R (Pure.pure a : Effect σ ε α) := Coupled.pure rfl

theorem fail (e : ε) : Blind R (Effect.fail e : Effect σ ε α) := Coupled.fail rfl

theorem bind {f : α → Effect σ ε β} (hm : Blind R m) (hf : ∀ a, Blind R (f a)) :
    Blind R (m >>= f) := by
  refine Coupled.bind hm fun a a' h => ?_
  rw [← h]
  exact hf a

theorem mapError (hm : Blind R m) (g : ε → ε₁) : Blind R (Effect.mapError g m) :=
  Coupled.mapError hm fun _ _ h => congrArg g h

theorem attempt (hm : Blind R m) : Blind R (Effect.attempt m : Effect σ ε₁ (Except ε α)) := by
  intro s s' hs
  obtain ⟨halike, hstate⟩ := hm s s' hs
  exact ⟨.ok halike.eq, hstate⟩

end Blind

end Effect

end SimpleSandbox
