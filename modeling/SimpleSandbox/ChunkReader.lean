import Mathlib.Data.List.Basic

/-!
# Reading units from a chunked transport

A transport delivers a sequence in chunks whose borders carry no meaning.  A buffered
reader cuts the sequence into units that end with a stop element and pulls a chunk only
when its buffer holds no complete unit.  Two facts are proved: the units depend on the
sequence alone, and what is left in the buffer tells whether a chunk ended exactly where
the reading stopped.
-/

namespace SimpleSandbox

variable {α : Type}

/-! ## Units of a sequence -/

/-- The first unit: everything up to and including the first stop element. -/
def through (stop : α → Bool) : List α → List α
  | [] => []
  | a :: as => if stop a then [a] else a :: through stop as

/-- What follows the first unit. -/
def after (stop : α → Bool) (as : List α) : List α := as.drop (through stop as).length

/-- All units in order; the last one may lack its stop element. -/
def units (stop : α → Bool) : List α → List (List α)
  | [] => []
  | a :: as =>
    if stop a then [a] :: units stop as
    else
      match units stop as with
      | [] => [[a]]
      | u :: us => (a :: u) :: us

theorem through_prefix (stop : α → Bool) (as : List α) : through stop as <+: as := by
  induction as with
  | nil => exact List.prefix_refl _
  | cons a as ih =>
    rw [through]
    split
    · exact ⟨as, rfl⟩
    · exact (List.prefix_cons_inj a).mpr ih

@[simp] theorem through_append_after (stop : α → Bool) (as : List α) :
    through stop as ++ after stop as = as := by
  obtain ⟨rest, hrest⟩ := through_prefix stop as
  have hafter : after stop as = rest := by
    have hdrop : (through stop as ++ rest).drop (through stop as).length = rest := List.drop_left
    rw [hrest] at hdrop
    exact hdrop
  rw [hafter, hrest]

theorem through_ne_nil (stop : α → Bool) {as : List α} (h : as ≠ []) : through stop as ≠ [] := by
  cases as with
  | nil => exact absurd rfl h
  | cons a as =>
    rw [through]
    split <;> exact List.cons_ne_nil _ _

theorem through_append_of_any {stop : α → Bool} {as : List α} (h : as.any stop = true)
    (bs : List α) : through stop (as ++ bs) = through stop as := by
  induction as with
  | nil => simp at h
  | cons a as ih =>
    rw [List.cons_append, through, through]
    by_cases ha : stop a = true
    · rw [if_pos ha, if_pos ha]
    · have htail : as.any stop = true := by simpa [ha] using h
      rw [if_neg ha, if_neg ha, ih htail]

theorem through_append_of_not_any {stop : α → Bool} {as : List α} (h : as.any stop = false)
    (bs : List α) : through stop (as ++ bs) = as ++ through stop bs := by
  induction as with
  | nil => rfl
  | cons a as ih =>
    have ha : stop a = false ∧ as.any stop = false := by simpa using h
    rw [List.cons_append, through, ha.1, ih ha.2]
    rfl

theorem units_of_ne_nil {stop : α → Bool} {as : List α} (h : as ≠ []) :
    units stop as = through stop as :: units stop (after stop as) := by
  induction as with
  | nil => exact absurd rfl h
  | cons a as ih =>
    by_cases ha : stop a = true
    · simp [units, through, after, ha]
    · have hafter : after stop (a :: as) = after stop as := by simp [after, through, ha]
      rw [hafter, units, if_neg ha, through, if_neg ha]
      by_cases hnil : as = []
      · subst hnil
        simp [units, after, through]
      · rw [ih hnil]

/-- A body without a stop element, then a stop element: one unit. -/
theorem through_append_cons {stop : α → Bool} {body : List α} (hbody : body.any stop = false)
    {a : α} (ha : stop a = true) (bs : List α) :
    through stop (body ++ a :: bs) = body ++ [a] := by
  rw [through_append_of_not_any hbody, through, if_pos ha]

theorem units_append_cons {stop : α → Bool} {body : List α} (hbody : body.any stop = false)
    {a : α} (ha : stop a = true) (bs : List α) :
    units stop (body ++ a :: bs) = (body ++ [a]) :: units stop bs := by
  have hthrough := through_append_cons hbody ha bs
  have hafter : after stop (body ++ a :: bs) = bs := by
    have hsplit : body ++ a :: bs = (body ++ [a]) ++ bs := by simp
    rw [after, hthrough, hsplit]
    exact List.drop_left
  rw [units_of_ne_nil (by simp), hthrough, hafter]

/-! ## The buffered reader -/

/-- A reader: what it has buffered, and the chunks the transport still holds. -/
structure ChunkReader (α : Type) where
  buffer : List α
  source : List (List α)

namespace ChunkReader

def ofChunks (chunks : List (List α)) : ChunkReader α := ⟨[], chunks⟩

/-- The sequence the reader has not given out. -/
def remaining (r : ChunkReader α) : List α := r.buffer ++ r.source.flatten

/-- One unit.  A buffer without a stop element is given out whole and the next chunk is
    pulled. -/
def readUntil (stop : α → Bool) (buffer : List α) :
    List (List α) → List α × ChunkReader α
  | [] => (through stop buffer, ⟨after stop buffer, []⟩)
  | chunk :: source =>
    if buffer.any stop then (through stop buffer, ⟨after stop buffer, chunk :: source⟩)
    else (buffer ++ (readUntil stop chunk source).1, (readUntil stop chunk source).2)

def readUnit (stop : α → Bool) (r : ChunkReader α) : List α × ChunkReader α :=
  readUntil stop r.buffer r.source

/-- A reader that need not pull: its buffer holds a stop element, or nothing is left. -/
theorem readUnit_ready {stop : α → Bool} {r : ChunkReader α}
    (h : r.buffer.any stop = true ∨ r.source = []) :
    r.readUnit stop = (through stop r.buffer, ⟨after stop r.buffer, r.source⟩) := by
  obtain ⟨buffer, source⟩ := r
  cases source with
  | nil => rfl
  | cons chunk source =>
    have hany : buffer.any stop = true := h.resolve_right (List.cons_ne_nil _ _)
    rw [readUnit, readUntil, if_pos hany]

/-- A reader that has to pull. -/
theorem readUnit_pull {stop : α → Bool} {r : ChunkReader α} (h : r.buffer.any stop = false)
    {chunk : List α} {source : List (List α)} (hsource : r.source = chunk :: source) :
    r.readUnit stop =
      (r.buffer ++ ((⟨chunk, source⟩ : ChunkReader α).readUnit stop).1,
        ((⟨chunk, source⟩ : ChunkReader α).readUnit stop).2) := by
  obtain ⟨buffer, rest⟩ := r
  obtain rfl : rest = chunk :: source := hsource
  have hnone : ¬ buffer.any stop = true := by simpa using h
  rw [readUnit, readUntil, if_neg hnone]
  rfl

theorem readUntil_fst (stop : α → Bool) (buffer : List α) (source : List (List α)) :
    (readUntil stop buffer source).1 = through stop (buffer ++ source.flatten) := by
  induction source generalizing buffer with
  | nil => simp [readUntil]
  | cons chunk source ih =>
    rw [readUntil]
    split
    · rename_i hany
      rw [through_append_of_any hany]
    · rename_i hany
      have hnone : buffer.any stop = false := by simpa using hany
      rw [through_append_of_not_any hnone, List.flatten_cons]
      exact congrArg (buffer ++ ·) (ih chunk)

theorem readUntil_remaining (stop : α → Bool) (buffer : List α) (source : List (List α)) :
    (readUntil stop buffer source).1 ++ (readUntil stop buffer source).2.remaining =
      buffer ++ source.flatten := by
  induction source generalizing buffer with
  | nil => simp [readUntil, remaining]
  | cons chunk source ih =>
    rw [readUntil]
    split
    · simp only [remaining]
      rw [← List.append_assoc, through_append_after]
    · rw [List.append_assoc, ih chunk, List.flatten_cons]

/-- **Units do not depend on the chunks.** -/
theorem readUnit_eq (stop : α → Bool) (r : ChunkReader α) :
    (r.readUnit stop).1 = through stop r.remaining ∧
      (r.readUnit stop).2.remaining = after stop r.remaining := by
  have hfst := readUntil_fst stop r.buffer r.source
  have hrest := readUntil_remaining stop r.buffer r.source
  refine ⟨hfst, ?_⟩
  have hsplit : through stop r.remaining ++ (r.readUnit stop).2.remaining =
      through stop r.remaining ++ after stop r.remaining := by
    rw [through_append_after]
    rw [hfst] at hrest
    exact hrest
  exact List.append_cancel_left hsplit

/-! ## Chunk borders -/

/-- After giving out `consumed`, the reader has pulled just enough chunks: the ones
    before the last are given out entirely, and part of the last one unless the buffer is
    empty. -/
def PulledFor (chunks : List (List α)) (consumed : List α) (r : ChunkReader α) : Prop :=
  ∃ k, chunks.drop k = r.source ∧ (chunks.take k).flatten = consumed ++ r.buffer ∧
    (∀ j < k, (chunks.take j).flatten.length ≤ consumed.length) ∧
    (r.buffer ≠ [] → ∀ j < k, (chunks.take j).flatten.length < consumed.length)

theorem pulledFor_ofChunks (chunks : List (List α)) : PulledFor chunks [] (ofChunks chunks) :=
  ⟨0, rfl, rfl, fun j hj => absurd hj (Nat.not_lt_zero j),
    fun _ j hj => absurd hj (Nat.not_lt_zero j)⟩

/-- Giving out the unit at the front of the buffer. -/
theorem pulledFor_through {chunks : List (List α)} (stop : α → Bool) {consumed buffer : List α}
    {k : ℕ} (htake : (chunks.take k).flatten = consumed ++ buffer)
    (hle : ∀ j < k, (chunks.take j).flatten.length ≤ consumed.length) :
    PulledFor chunks (consumed ++ through stop buffer) ⟨after stop buffer, chunks.drop k⟩ := by
  refine ⟨k, rfl, ?_, ?_, ?_⟩
  · rw [List.append_assoc, through_append_after, htake]
  · intro j hj
    have hj' := hle j hj
    rw [List.length_append]
    omega
  · intro hbuffer j hj
    have hne : buffer ≠ [] := by
      rintro rfl
      exact hbuffer rfl
    have hpos := List.length_pos_of_ne_nil (through_ne_nil stop hne)
    have hj' := hle j hj
    rw [List.length_append]
    omega

theorem pulledFor_readUntil {chunks : List (List α)} (stop : α → Bool) {source : List (List α)}
    {consumed buffer : List α} {k : ℕ} (hsource : chunks.drop k = source)
    (htake : (chunks.take k).flatten = consumed ++ buffer)
    (hle : ∀ j < k, (chunks.take j).flatten.length ≤ consumed.length) :
    PulledFor chunks (consumed ++ (readUntil stop buffer source).1)
      (readUntil stop buffer source).2 := by
  induction source generalizing consumed buffer k with
  | nil =>
    have hcut := pulledFor_through stop htake hle
    rw [hsource] at hcut
    exact hcut
  | cons chunk source ih =>
    rw [readUntil]
    split
    · have hcut := pulledFor_through stop htake hle
      rw [hsource] at hcut
      exact hcut
    · have hk : k < chunks.length := by
        have hlen := congrArg List.length hsource
        simp only [List.length_drop, List.length_cons] at hlen
        omega
      have hchunk : chunks[k] = chunk ∧ chunks.drop (k + 1) = source := by
        rw [List.drop_eq_getElem_cons hk] at hsource
        exact List.cons.inj hsource
      -- the buffer is given out and the next chunk takes its place
      have htake' : (chunks.take (k + 1)).flatten = (consumed ++ buffer) ++ chunk := by
        rw [List.take_succ_eq_append_getElem hk, List.flatten_append, htake, hchunk.1]
        simp
      have hle' : ∀ j < k + 1, (chunks.take j).flatten.length ≤ (consumed ++ buffer).length := by
        intro j hj
        rcases Nat.lt_succ_iff_lt_or_eq.mp hj with hj | rfl
        · have hj' := hle j hj
          rw [List.length_append]
          omega
        · exact Nat.le_of_eq (congrArg List.length htake)
      rw [← List.append_assoc]
      exact ih hchunk.2 htake' hle'

theorem pulledFor_readUnit {chunks : List (List α)} {consumed : List α} {r : ChunkReader α}
    (h : PulledFor chunks consumed r) (stop : α → Bool) :
    PulledFor chunks (consumed ++ (r.readUnit stop).1) (r.readUnit stop).2 := by
  obtain ⟨k, hsource, htake, hle, -⟩ := h
  exact pulledFor_readUntil stop hsource htake hle

theorem length_flatten_take_le (chunks : List (List α)) {j k : ℕ} (h : j ≤ k) :
    (chunks.take j).flatten.length ≤ (chunks.take k).flatten.length := by
  have hsub : chunks.take j <+: chunks.take k := List.take_prefix_take_left h
  obtain ⟨rest, hrest⟩ := hsub
  rw [← hrest, List.flatten_append, List.length_append]
  exact Nat.le_add_right _ _

/-- **Empty buffers mark chunk borders.**  Nothing is left in the buffer exactly when a
    chunk ended where the reading stopped. -/
theorem buffer_eq_nil_iff {chunks : List (List α)} {consumed : List α} {r : ChunkReader α}
    (h : PulledFor chunks consumed r) :
    r.buffer = [] ↔ ∃ j, (chunks.take j).flatten = consumed := by
  obtain ⟨k, -, htake, -, hlt⟩ := h
  constructor
  · intro hnil
    exact ⟨k, by rw [htake, hnil, List.append_nil]⟩
  · rintro ⟨j, hj⟩
    by_contra hne
    have hpos := List.length_pos_of_ne_nil hne
    rcases Nat.lt_or_ge j k with hjk | hjk
    · have hshort := hlt hne j hjk
      rw [hj] at hshort
      exact Nat.lt_irrefl _ hshort
    · have hlong := length_flatten_take_le chunks hjk
      rw [hj, htake, List.length_append] at hlong
      omega

end ChunkReader

end SimpleSandbox
