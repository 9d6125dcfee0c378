import Mathlib.Logic.Basic

/-!
# Runs whose steps meet a condition

A system takes steps labelled with actions.  A run under a condition is one in which every
step meets the condition in the state it is taken in; with the condition that always holds
these are all runs.
-/

namespace SimpleSandbox

variable {S A : Type}

/-- The states reached from an initial one by steps that meet `ok`. -/
inductive Reach (init : S → Prop) (step : S → A → S → Prop) (ok : S → A → Prop) : S → Prop
  | start {s : S} (h : init s) : Reach init step ok s
  | next {s s' : S} {a : A} (h : Reach init step ok s) (hok : ok s a) (hstep : step s a s') :
      Reach init step ok s'

namespace Reach

variable {init : S → Prop} {step : S → A → S → Prop} {ok ok' : S → A → Prop}

/-- **The invariant rule.** -/
theorem invariant (inv : S → Prop) (hinit : ∀ s, init s → inv s)
    (hnext : ∀ s a s', inv s → ok s a → step s a s' → inv s') {s : S}
    (h : Reach init step ok s) : inv s := by
  induction h with
  | start h => exact hinit _ h
  | next _ hok hstep ih => exact hnext _ _ _ ih hok hstep

end Reach

/-- The runs from a state, with the actions they took. -/
inductive Trace (step : S → A → S → Prop) (s₀ : S) : List A → S → Prop
  | start : Trace step s₀ [] s₀
  | next {as : List A} {s s' : S} {a : A} (h : Trace step s₀ as s) (hstep : step s a s') :
      Trace step s₀ (as ++ [a]) s'

namespace Trace

variable {step : S → A → S → Prop} {s₀ s : S} {as : List A}

/-- **The invariant rule**, for what holds of a state and the actions that led to it. -/
theorem invariant (inv : List A → S → Prop) (hstart : inv [] s₀)
    (hnext : ∀ as s a s', Trace step s₀ as s → inv as s → step s a s' → inv (as ++ [a]) s')
    (h : Trace step s₀ as s) : inv as s := by
  induction h with
  | start => exact hstart
  | next h hstep ih => exact hnext _ _ _ _ h ih hstep

/-- A run is a run whatever it recorded. -/
theorem reach {init : S → Prop} {step' : S → A → S → Prop} {ok : S → A → Prop}
    (h : Trace step s₀ as s) (hinit : init s₀)
    (hstep : ∀ s a s', step s a s' → ok s a ∧ step' s a s') : Reach init step' ok s := by
  induction h with
  | start => exact .start hinit
  | next _ hlast ih =>
    obtain ⟨hok, hlast'⟩ := hstep _ _ _ hlast
    exact .next ih hok hlast'

/-- **The simulation rule.**  Where each step is matched by one with the same label, each run is
    matched by a run. -/
theorem simulate {T : Type} {step' : T → A → T → Prop} {t₀ : T} (rel : S → T → Prop)
    (hstart : rel s₀ t₀)
    (hnext : ∀ as s a s' t, Trace step s₀ as s → rel s t → step s a s' →
      ∃ t', step' t a t' ∧ rel s' t')
    (h : Trace step s₀ as s) : ∃ t, Trace step' t₀ as t ∧ rel s t := by
  induction h with
  | start => exact ⟨t₀, .start, hstart⟩
  | next h hstep ih =>
    obtain ⟨t, htrace, hrel⟩ := ih
    obtain ⟨t', hstep', hrel'⟩ := hnext _ _ _ _ t h hrel hstep
    exact ⟨t', .next htrace hstep', hrel'⟩

end Trace

end SimpleSandbox
