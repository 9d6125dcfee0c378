import SimpleSandbox.State
import Mathlib.Data.List.Nodup

/-!
# The index as a map from names to records

What each operation of the index does, for an index whose records have distinct names: how
the record of every name changes, and that the names stay distinct.
-/

namespace SimpleSandbox.SandboxState

def names (s : SandboxState) : List String := s.sandboxes.map (·.name)

/-- The record of a name. -/
def named (s : SandboxState) (n : String) : Option SandboxRecord :=
  s.sandboxes.find? (·.name == n)

theorem named_eq_none_iff {s : SandboxState} {n : String} : s.named n = none ↔ n ∉ s.names := by
  simp only [named, names, List.find?_eq_none, List.mem_map, not_exists, not_and, beq_iff_eq]

theorem name_of_named {s : SandboxState} {n : String} {r : SandboxRecord} (h : s.named n = some r) :
    r.name = n := by
  simpa using List.find?_some h

theorem mem_of_named {s : SandboxState} {n : String} {r : SandboxRecord} (h : s.named n = some r) :
    r ∈ s.sandboxes := List.mem_of_find?_eq_some h

/-- With distinct names every record is the record of its name. -/
theorem named_of_mem {s : SandboxState} (hnodup : s.names.Nodup) {r : SandboxRecord}
    (h : r ∈ s.sandboxes) : s.named r.name = some r := by
  obtain ⟨before, rest, hsplit⟩ := List.append_of_mem h
  have hbefore : ∀ x ∈ before, x.name ≠ r.name := by
    intro x hx heq
    rw [names, hsplit, List.map_append, List.nodup_append] at hnodup
    exact hnodup.2.2 x.name (List.mem_map_of_mem hx) r.name (by simp) heq
  rw [named, hsplit, List.find?_append]
  have hnone : before.find? (·.name == r.name) = none := by
    simpa [List.find?_eq_none] using hbefore
  rw [hnone]
  simp

/-! ## Inserting -/

theorem insert_eq_ok_iff {s s' : SandboxState} {r r' : SandboxRecord} {uuid : String} :
    s.insert r uuid = .ok (r', s') ↔
      r.name ∉ s.names ∧ r' = (if r.id = "" then { r with id := uuid } else r) ∧
        s' = { lastUsed := some r'.name, sandboxes := s.sandboxes ++ [r'] } := by
  have hlive : s.sandboxes.any (·.name == r.name) = true ↔ r.name ∈ s.names := by
    simp [names]
  unfold insert
  by_cases h : s.sandboxes.any (·.name == r.name) = true
  · rw [if_pos h]
    simp [hlive.mp h]
  · rw [if_neg h]
    have hnot : r.name ∉ s.names := fun hin => h (hlive.mpr hin)
    simp only [Except.ok.injEq, Prod.mk.injEq, hnot, not_false_eq_true, true_and]
    constructor
    · rintro ⟨rfl, rfl⟩
      exact ⟨rfl, rfl⟩
    · rintro ⟨rfl, rfl⟩
      exact ⟨rfl, rfl⟩

/-- Insertion gives an id to a record that has none and changes nothing else of it. -/
theorem exists_id_of_insert {s s' : SandboxState} {r r' : SandboxRecord} {uuid : String}
    (h : s.insert r uuid = .ok (r', s')) : ∃ id, r' = { r with id := id } := by
  obtain ⟨-, rfl, -⟩ := insert_eq_ok_iff.mp h
  split
  · exact ⟨uuid, rfl⟩
  · exact ⟨r.id, rfl⟩

theorem sandboxes_of_insert {s s' : SandboxState} {r r' : SandboxRecord} {uuid : String}
    (h : s.insert r uuid = .ok (r', s')) : s'.sandboxes = s.sandboxes ++ [r'] := by
  obtain ⟨-, -, rfl⟩ := insert_eq_ok_iff.mp h
  rfl

theorem mem_insert_iff {s s' : SandboxState} {r r' : SandboxRecord} {uuid : String}
    (h : s.insert r uuid = .ok (r', s')) {x : SandboxRecord} :
    x ∈ s'.sandboxes ↔ x ∈ s.sandboxes ∨ x = r' := by
  rw [sandboxes_of_insert h, List.mem_append, List.mem_singleton]

theorem mem_of_insert {s s' : SandboxState} {r r' : SandboxRecord} {uuid : String}
    (h : s.insert r uuid = .ok (r', s')) : r' ∈ s'.sandboxes :=
  (mem_insert_iff h).mpr (Or.inr rfl)

/-- What can be saved with a new record can be saved of it. -/
theorem serializable_of_insert {s s' : SandboxState} {r r' : SandboxRecord} {uuid : String}
    (h : s.insert r uuid = .ok (r', s')) (hser : s'.serializable = true) :
    r.serializable = true := by
  have hsaved := List.all_eq_true.mp hser r' (mem_of_insert h)
  obtain ⟨id, rfl⟩ := exists_id_of_insert h
  exact hsaved

theorem name_of_insert {s s' : SandboxState} {r r' : SandboxRecord} {uuid : String}
    (h : s.insert r uuid = .ok (r', s')) : r'.name = r.name := by
  obtain ⟨-, rfl, -⟩ := insert_eq_ok_iff.mp h
  split <;> rfl

theorem not_mem_of_insert {s s' : SandboxState} {r r' : SandboxRecord} {uuid : String}
    (h : s.insert r uuid = .ok (r', s')) : r'.name ∉ s.names := by
  rw [name_of_insert h]
  exact (insert_eq_ok_iff.mp h).1

theorem names_of_insert {s s' : SandboxState} {r r' : SandboxRecord} {uuid : String}
    (h : s.insert r uuid = .ok (r', s')) : s'.names = s.names ++ [r'.name] := by
  rw [names, sandboxes_of_insert h, List.map_append]
  rfl

theorem nodup_insert {s s' : SandboxState} {r r' : SandboxRecord} {uuid : String}
    (hnodup : s.names.Nodup) (h : s.insert r uuid = .ok (r', s')) : s'.names.Nodup := by
  rw [names_of_insert h]
  exact List.nodup_append.mpr ⟨hnodup, List.nodup_singleton _, fun a ha b hb => by
    rw [List.mem_singleton.mp hb]
    rintro rfl
    exact not_mem_of_insert h ha⟩

theorem named_insert {s s' : SandboxState} {r r' : SandboxRecord} {uuid : String}
    (h : s.insert r uuid = .ok (r', s')) (n : String) :
    s'.named n = if n = r'.name then some r' else s.named n := by
  have hnew := not_mem_of_insert h
  obtain ⟨-, -, rfl⟩ := insert_eq_ok_iff.mp h
  rw [named, List.find?_append]
  by_cases hn : n = r'.name
  · subst hn
    have hnone : s.sandboxes.find? (·.name == r'.name) = none := named_eq_none_iff.mpr hnew
    rw [hnone]
    simp
  · rw [if_neg hn]
    have hno : [r'].find? (·.name == n) = none := by simpa using fun e => hn e.symm
    rw [hno, Option.or_none]
    rfl

/-! ## Removing -/

/-- Removal takes out the first record that answers to the key. -/
theorem remove_eq_ok_iff {s s' : SandboxState} {key : String} {r : SandboxRecord} :
    s.remove key = .ok (r, s') ↔
      ∃ before rest, s.sandboxes = before ++ r :: rest ∧ r.answersTo key = true ∧
        (∀ x ∈ before, x.answersTo key = false) ∧
        s' = { lastUsed := if s.lastUsed = some r.name then (before ++ rest).getLast?.map (·.name)
                 else s.lastUsed
               sandboxes := before ++ rest } := by
  unfold remove
  constructor
  · intro h
    split at h
    · simp at h
    · rename_i r₀ hfind
      simp only [Except.ok.injEq, Prod.mk.injEq] at h
      obtain ⟨rfl, rfl⟩ := h
      obtain ⟨hr, before, rest, hsplit, hbefore⟩ := List.find?_eq_some_iff_append.mp hfind
      have hnone : ∀ x ∈ before, x.answersTo key = false := by
        intro x hx
        have hx' := hbefore x hx
        simpa using hx'
      have herase : s.sandboxes.eraseP (·.answersTo key) = before ++ rest := by
        rw [hsplit, List.eraseP_append_right _ (by simpa using hnone)]
        simp [hr]
      exact ⟨before, rest, hsplit, hr, hnone, by rw [herase]⟩
  · rintro ⟨before, rest, hsplit, hr, hbefore, rfl⟩
    have hfind : s.sandboxes.find? (·.answersTo key) = some r :=
      List.find?_eq_some_iff_append.mpr
        ⟨hr, before, rest, hsplit, fun x hx => by simp [hbefore x hx]⟩
    have herase : s.sandboxes.eraseP (·.answersTo key) = before ++ rest := by
      rw [hsplit, List.eraseP_append_right _ (by simpa using hbefore)]
      simp [hr]
    rw [hfind, herase]

theorem mem_of_remove {s s' : SandboxState} {key : String} {r : SandboxRecord}
    (h : s.remove key = .ok (r, s')) : r ∈ s.sandboxes := by
  obtain ⟨before, rest, hsplit, -⟩ := remove_eq_ok_iff.mp h
  rw [hsplit]
  simp

theorem sandboxes_of_remove {s s' : SandboxState} {key : String} {r : SandboxRecord}
    (h : s.remove key = .ok (r, s')) : s'.sandboxes.Sublist s.sandboxes := by
  obtain ⟨before, rest, hsplit, -, -, rfl⟩ := remove_eq_ok_iff.mp h
  rw [hsplit]
  exact List.Sublist.append_left (List.sublist_cons_self r rest) before

theorem nodup_remove {s s' : SandboxState} {key : String} {r : SandboxRecord}
    (hnodup : s.names.Nodup) (h : s.remove key = .ok (r, s')) : s'.names.Nodup :=
  List.Nodup.sublist ((sandboxes_of_remove h).map _) hnodup

theorem named_remove {s s' : SandboxState} {key : String} {r : SandboxRecord}
    (hnodup : s.names.Nodup) (h : s.remove key = .ok (r, s')) (n : String) :
    s'.named n = if n = r.name then none else s.named n := by
  obtain ⟨before, rest, hsplit, -, -, rfl⟩ := remove_eq_ok_iff.mp h
  rw [names, hsplit, List.map_append, List.map_cons, List.nodup_middle, List.nodup_cons,
    ← List.map_append] at hnodup
  by_cases hn : n = r.name
  · subst hn
    rw [if_pos rfl]
    exact named_eq_none_iff.mpr hnodup.1
  · rw [if_neg hn, named, named, hsplit, List.find?_append, List.find?_append,
      List.find?_cons_of_neg (by simpa using fun e => hn e.symm)]

theorem mem_of_remove_of_ne {s s' : SandboxState} {key : String} {r x : SandboxRecord}
    (h : s.remove key = .ok (r, s')) (hx : x ∈ s.sandboxes) (hne : x ≠ r) : x ∈ s'.sandboxes := by
  obtain ⟨before, rest, hsplit, -, -, rfl⟩ := remove_eq_ok_iff.mp h
  rw [hsplit] at hx
  rcases List.mem_append.mp hx with hx | hx
  · exact List.mem_append_left _ hx
  · rcases List.mem_cons.mp hx with rfl | hx
    · exact absurd rfl hne
    · exact List.mem_append_right _ hx

/-! ## Looking up -/

theorem mem_of_get {s : SandboxState} {key : String} {r : SandboxRecord} (h : s.get key = .ok r) :
    r ∈ s.sandboxes := by
  unfold get at h
  split at h
  · rename_i r' hfind
    rw [← Except.ok.inj h]
    exact List.mem_of_find?_eq_some hfind
  · exact nomatch h

theorem mem_of_getOrLast {s : SandboxState} {name : Option String} {r : SandboxRecord}
    (h : s.getOrLast name = .ok r) : r ∈ s.sandboxes := by
  unfold getOrLast at h
  split at h
  · exact mem_of_get h
  · split at h
    · rename_i r' hfind
      obtain ⟨last, -, hfind⟩ := Option.bind_eq_some_iff.mp hfind
      rw [← Except.ok.inj h]
      exact List.mem_of_find?_eq_some hfind
    · split at h
      · rename_i r' hlast
        rw [← Except.ok.inj h]
        exact List.mem_of_getLast? hlast
      · exact nomatch h

/-! ## Changing a policy hash -/

theorem names_modifyNamed (name : String) {f : SandboxRecord → SandboxRecord}
    (hf : ∀ r, (f r).name = r.name) (l : List SandboxRecord) :
    (modifyNamed name f l).map (·.name) = l.map (·.name) := by
  induction l with
  | nil => rfl
  | cons r rest ih =>
    rw [modifyNamed]
    split
    · simp [hf]
    · simp [ih]

theorem mem_modifyNamed {name hash : String} {l : List SandboxRecord} {r : SandboxRecord}
    (h : r ∈ modifyNamed name (·.withHash hash) l) :
    r ∈ l ∨ ∃ r₀ ∈ l, r = r₀.withHash hash := by
  induction l with
  | nil => exact nomatch h
  | cons x rest ih =>
    rw [modifyNamed] at h
    split at h
    · rcases List.mem_cons.mp h with rfl | hrest
      · exact Or.inr ⟨x, by simp, rfl⟩
      · exact Or.inl (List.mem_cons_of_mem _ hrest)
    · rcases List.mem_cons.mp h with rfl | hrest
      · exact Or.inl (by simp)
      · rcases ih hrest with hold | ⟨r₀, hr₀, heq⟩
        · exact Or.inl (List.mem_cons_of_mem _ hold)
        · exact Or.inr ⟨r₀, List.mem_cons_of_mem _ hr₀, heq⟩

theorem mem_modifyNamed_of_mem {name : String} {f : SandboxRecord → SandboxRecord}
    {l : List SandboxRecord} {r : SandboxRecord} (hr : r ∈ l) :
    r ∈ modifyNamed name f l ∨ f r ∈ modifyNamed name f l := by
  induction l with
  | nil => exact nomatch hr
  | cons x rest ih =>
    rw [modifyNamed]
    split
    · rcases List.mem_cons.mp hr with rfl | hrest
      · exact Or.inr List.mem_cons_self
      · exact Or.inl (List.mem_cons_of_mem _ hrest)
    · rcases List.mem_cons.mp hr with rfl | hrest
      · exact Or.inl List.mem_cons_self
      · exact (ih hrest).imp (List.mem_cons_of_mem _) (List.mem_cons_of_mem _)

theorem mem_modifyNamed_of_ne {name : String} {f : SandboxRecord → SandboxRecord}
    {l : List SandboxRecord} {r : SandboxRecord} (hr : r ∈ l) (hne : r.name ≠ name) :
    r ∈ modifyNamed name f l := by
  induction l with
  | nil => exact nomatch hr
  | cons x rest ih =>
    rw [modifyNamed]
    rcases List.mem_cons.mp hr with rfl | hrest
    · rw [if_neg (by simpa using hne)]
      exact List.mem_cons_self
    · split
      · exact List.mem_cons_of_mem _ hrest
      · exact List.mem_cons_of_mem _ (ih hrest)

theorem find?_modifyNamed (name : String) {f : SandboxRecord → SandboxRecord}
    (hf : ∀ r, (f r).name = r.name) (l : List SandboxRecord) (n : String) :
    (modifyNamed name f l).find? (·.name == n) =
      if n = name then (l.find? (·.name == n)).map f else l.find? (·.name == n) := by
  induction l with
  | nil => simp [modifyNamed]
  | cons r rest ih =>
    rw [modifyNamed]
    by_cases hr : r.name = name
    · rw [if_pos (by simpa using hr), List.find?_cons, List.find?_cons, hf]
      by_cases hn : n = name
      · subst hn
        simp [hr]
      · have hne : (r.name == n) = false := by
          simpa [hr] using fun e => hn e.symm
        rw [hne, if_neg hn]
    · rw [if_neg (by simpa using hr), List.find?_cons, List.find?_cons, ih]
      by_cases hrn : r.name = n
      · have hnn : ¬ n = name := fun e => hr (hrn.trans e)
        simp [hrn, hnn]
      · have hne : (r.name == n) = false := by simpa using hrn
        rw [hne]

theorem updatePolicy_eq_ok_iff {s s' : SandboxState} {name hash : String} :
    s.updatePolicy name hash = .ok s' ↔
      name ∈ s.names ∧
        s' = { lastUsed := some name
               sandboxes := modifyNamed name (·.withHash hash) s.sandboxes } := by
  have hlive : s.sandboxes.any (·.name == name) = true ↔ name ∈ s.names := by
    simp [names]
  unfold updatePolicy
  by_cases h : s.sandboxes.any (·.name == name) = true
  · simp [h, hlive.mp h, eq_comm]
  · have hnot : name ∉ s.names := fun hin => h (hlive.mpr hin)
    simp [h, hnot]

/-- The operation as the store runs it, with a result that says nothing. -/
theorem map_updatePolicy_eq_ok_iff {s s' : SandboxState} {name hash : String} {u : Unit} :
    (s.updatePolicy name hash).map (fun t => ((), t)) = .ok (u, s') ↔
      s.updatePolicy name hash = .ok s' := by
  rcases s.updatePolicy name hash with e | t
  · simp [Except.map]
  · simp [Except.map]

theorem names_updatePolicy {s s' : SandboxState} {name hash : String}
    (h : s.updatePolicy name hash = .ok s') : s'.names = s.names := by
  obtain ⟨-, rfl⟩ := updatePolicy_eq_ok_iff.mp h
  exact names_modifyNamed name (f := (·.withHash hash)) (fun _ => rfl) _

theorem named_updatePolicy {s s' : SandboxState} {name hash : String}
    (h : s.updatePolicy name hash = .ok s') (n : String) :
    s'.named n =
      if n = name then (s.named n).map (·.withHash hash) else s.named n := by
  obtain ⟨-, rfl⟩ := updatePolicy_eq_ok_iff.mp h
  exact find?_modifyNamed name (f := (·.withHash hash)) (fun _ => rfl) _ n

/-- A new hash leaves an index as writable as it was. -/
theorem serializable_updatePolicy {s s' : SandboxState} {name hash : String}
    (h : s.updatePolicy name hash = .ok s') : s'.serializable = s.serializable := by
  have hmodify : ∀ l : List SandboxRecord,
      (modifyNamed name (·.withHash hash) l).all SandboxRecord.serializable =
        l.all SandboxRecord.serializable := by
    intro l
    induction l with
    | nil => rfl
    | cons r l ih =>
      rw [modifyNamed]
      split
      · rfl
      · rw [List.all_cons, List.all_cons, ih]
  obtain ⟨-, rfl⟩ := updatePolicy_eq_ok_iff.mp h
  exact hmodify s.sandboxes

end SimpleSandbox.SandboxState
