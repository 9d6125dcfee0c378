import Mathlib.Data.List.Basic

/-!
# Ordered rules

An ordered list of rules in which the last rule that matches decides.  A rule that does not
match says nothing, so lists can be judged part by part, and a part that only allows permits
exactly what one of its rules matches.
-/

namespace SimpleSandbox.RuleList

variable {ρ β : Type} (f : ρ → Option β)

/-- What the last rule that says something says. -/
def lastMatch (rules : List ρ) : Option β := rules.reverse.findSome? f

variable {f} {rules : List ρ}

@[simp] theorem lastMatch_nil : lastMatch f [] = none := rfl

@[simp] theorem lastMatch_singleton (r : ρ) : lastMatch f [r] = f r := by
  simp [lastMatch]

/-- A later part decides before an earlier one. -/
theorem lastMatch_append (rules rules' : List ρ) :
    lastMatch f (rules ++ rules') = (lastMatch f rules').or (lastMatch f rules) := by
  rw [lastMatch, List.reverse_append, List.findSome?_append]
  rfl

theorem lastMatch_eq_none_iff : lastMatch f rules = none ↔ ∀ r ∈ rules, f r = none := by
  simp [lastMatch]

/-- What the list says, one of its rules says. -/
theorem exists_of_lastMatch {b : β} (h : lastMatch f rules = some b) :
    ∃ r ∈ rules, f r = some b := by
  obtain ⟨r, hr, hb⟩ := List.exists_of_findSome?_eq_some h
  exact ⟨r, List.mem_reverse.mp hr, hb⟩

/-- Rules that only allow permit what one of them matches. -/
theorem lastMatch_eq_true_iff {f : ρ → Option Bool} (h : ∀ r ∈ rules, f r ≠ some false) :
    lastMatch f rules = some true ↔ ∃ r ∈ rules, f r = some true := by
  constructor
  · exact exists_of_lastMatch
  · rintro ⟨r, hr, htrue⟩
    cases hlast : lastMatch f rules with
    | none =>
      rw [lastMatch_eq_none_iff.mp hlast r hr] at htrue
      cases htrue
    | some b =>
      cases b with
      | true => rfl
      | false =>
        obtain ⟨r', hr', hfalse⟩ := exists_of_lastMatch hlast
        exact absurd hfalse (h r' hr')

end SimpleSandbox.RuleList
