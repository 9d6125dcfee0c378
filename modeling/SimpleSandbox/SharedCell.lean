import SimpleSandbox.Runs
import Mathlib.Data.List.Induction
import Mathlib.Logic.Function.Basic

/-!
# Processes that share one cell

A cell is read and written as a whole.  Each process works through a list of requests; a
request reads the cell, computes what is to be written from what it has read, and writes it
in a later step.  Between the two the other processes may take any number of steps.

Where every write finds the cell as its own request has read it, a run has the effect of its
writes taken one after the other.
-/

namespace SimpleSandbox.SharedCell

/-- What a request does with the contents it has read. -/
inductive Outcome (σ ρ : Type) where
  | done (reply : ρ)                    -- nothing is written
  | save (contents : σ) (reply : ρ)     -- the reply, once the contents are written

/-- A write that has not been made yet. -/
structure Pending (σ κ ρ : Type) where
  request : κ
  seen : Option σ      -- the contents the request has read
  contents : σ
  reply : ρ

structure Proc (σ κ ρ : Type) where
  todo : List κ
  pending : Option (Pending σ κ ρ) := none

structure State (σ κ ρ ι : Type) where
  cell : Option σ
  procs : ι → Proc σ κ ρ
  log : List (κ × ρ)   -- the writes that were made, in order

/-- Which process takes which of its steps. -/
inductive Action (ι : Type) where
  | finish (i : ι)     -- a request that needs no write
  | load (i : ι)
  | save (i : ι)
  | fail (i : ι)       -- an input or output error

section

variable {σ κ ρ ι : Type} [DecidableEq ι]

namespace State

/-- Replace one process. -/
def setProc (s : State σ κ ρ ι) (i : ι) (p : Proc σ κ ρ) : State σ κ ρ ι :=
  { s with procs := Function.update s.procs i p }

@[simp] theorem setProc_cell (s : State σ κ ρ ι) (i : ι) (p : Proc σ κ ρ) :
    (s.setProc i p).cell = s.cell := rfl

@[simp] theorem setProc_log (s : State σ κ ρ ι) (i : ι) (p : Proc σ κ ρ) :
    (s.setProc i p).log = s.log := rfl

theorem setProc_procs (s : State σ κ ρ ι) (i j : ι) (p : Proc σ κ ρ) :
    (s.setProc i p).procs j = if j = i then p else s.procs j := by
  rw [setProc]
  simp only [Function.update_apply]

/-- Every process has worked through its requests. -/
def Finished (s : State σ κ ρ ι) : Prop := ∀ i, (s.procs i).todo = [] ∧ (s.procs i).pending = none

end State

variable (apply : κ → Option σ → Outcome σ ρ)

inductive Step : State σ κ ρ ι → Action ι → State σ κ ρ ι → Prop
  | finish (s : State σ κ ρ ι) (i : ι) (k : κ) (ks : List κ) (r : ρ)
      (hproc : s.procs i = { todo := k :: ks }) (happly : apply k s.cell = .done r) :
      Step s (.finish i) (s.setProc i { todo := ks })
  | load (s : State σ κ ρ ι) (i : ι) (k : κ) (ks : List κ) (c : σ) (r : ρ)
      (hproc : s.procs i = { todo := k :: ks }) (happly : apply k s.cell = .save c r) :
      Step s (.load i) (s.setProc i { todo := ks, pending := some ⟨k, s.cell, c, r⟩ })
  | save (s : State σ κ ρ ι) (i : ι) (ks : List κ) (p : Pending σ κ ρ)
      (hproc : s.procs i = { todo := ks, pending := some p }) :
      Step s (.save i)
        { s.setProc i { todo := ks } with
          cell := some p.contents, log := s.log ++ [(p.request, p.reply)] }
  | failLoad (s : State σ κ ρ ι) (i : ι) (k : κ) (ks : List κ)
      (hproc : s.procs i = { todo := k :: ks }) :
      Step s (.fail i) (s.setProc i { todo := ks })
  | failSave (s : State σ κ ρ ι) (i : ι) (ks : List κ) (p : Pending σ κ ρ)
      (hproc : s.procs i = { todo := ks, pending := some p }) :
      Step s (.fail i) (s.setProc i { todo := ks })

/-- No process has begun. -/
def Start (c : Option σ) (s : State σ κ ρ ι) : Prop :=
  s.cell = c ∧ s.log = [] ∧ ∀ i, (s.procs i).pending = none

/-- A write finds the cell as its request has read it. -/
def Undisturbed (s : State σ κ ρ ι) : Action ι → Prop
  | .save i => ∀ p, (s.procs i).pending = some p → p.seen = s.cell
  | _ => True

/-- Any interleaving. -/
def Anyhow (_ : State σ κ ρ ι) (_ : Action ι) : Prop := True

/-! ## Writes one after the other -/

/-- The writes of a log, each computed from the contents the one before it left. -/
inductive Replay (c : Option σ) : List (κ × ρ) → Option σ → Prop
  | nil : Replay c [] c
  | snoc {log : List (κ × ρ)} {c' : Option σ} {k : κ} {contents : σ} {r : ρ}
      (h : Replay c log c') (happly : apply k c' = .save contents r) :
      Replay c (log ++ [(k, r)]) (some contents)

/-- What holds of every state of an undisturbed run. -/
structure SerialInv (c : Option σ) (s : State σ κ ρ ι) : Prop where
  replay : Replay apply c s.log s.cell
  pending : ∀ i p, (s.procs i).pending = some p → apply p.request p.seen = .save p.contents p.reply

variable {apply}

theorem serialInv_setProc {c : Option σ} {s : State σ κ ρ ι} (hinv : SerialInv apply c s) (i : ι)
    {p : Proc σ κ ρ} (hp : ∀ q, p.pending = some q → apply q.request q.seen = .save q.contents q.reply) :
    SerialInv apply c (s.setProc i p) where
  replay := hinv.replay
  pending := by
    intro j q hq
    rw [State.setProc_procs] at hq
    split at hq
    · exact hp q hq
    · exact hinv.pending j q hq

theorem serialInv_step {c : Option σ} {s s' : State σ κ ρ ι} {a : Action ι}
    (hinv : SerialInv apply c s) (hquiet : Undisturbed s a) (hstep : Step apply s a s') :
    SerialInv apply c s' := by
  cases hstep with
  | finish i k ks r hproc happly =>
    exact serialInv_setProc hinv i fun q hq => nomatch hq
  | load i k ks contents r hproc happly =>
    apply serialInv_setProc hinv i
    intro q hq
    obtain rfl := Option.some.inj hq
    exact happly
  | save i ks p hproc =>
    have hpending : (s.procs i).pending = some p := by rw [hproc]
    have hseen : p.seen = s.cell := hquiet p hpending
    have hwrite := hinv.pending i p hpending
    rw [hseen] at hwrite
    have hidle := serialInv_setProc (p := { todo := ks }) hinv i fun q hq => nomatch hq
    exact ⟨.snoc hinv.replay hwrite, hidle.pending⟩
  | failLoad i k ks hproc =>
    exact serialInv_setProc hinv i fun q hq => nomatch hq
  | failSave i ks p hproc =>
    exact serialInv_setProc hinv i fun q hq => nomatch hq

/-- **Undisturbed runs are serial.** -/
theorem replay_of_reach {c : Option σ} {s : State σ κ ρ ι}
    (h : Reach (Start c) (Step apply) Undisturbed s) : Replay apply c s.log s.cell := by
  refine (Reach.invariant (SerialInv apply c) ?_ ?_ h).replay
  · rintro s ⟨rfl, hlog, hidle⟩
    constructor
    · rw [hlog]
      exact .nil
    · intro i p hp
      rw [hidle i] at hp
      simp at hp
  · intro s a s' hinv hquiet hstep
    exact serialInv_step hinv hquiet hstep

/-- **The invariant rule of a replay.** -/
theorem Replay.invariant (P : Option σ → Prop) {c c' : Option σ} {log : List (κ × ρ)}
    (h : Replay apply c log c') (hc : P c)
    (hstep : ∀ c k contents r, (k, r) ∈ log → P c → apply k c = .save contents r →
      P (some contents)) : P c' := by
  induction h with
  | nil => exact hc
  | snoc h happly ih =>
    refine hstep _ _ _ _ (by simp) (ih ?_) happly
    intro c k contents r hmem
    exact hstep c k contents r (List.mem_append_left _ hmem)

theorem Replay.split {c c' : Option σ} {l₁ l₂ : List (κ × ρ)} (h : Replay apply c (l₁ ++ l₂) c') :
    ∃ m, Replay apply c l₁ m ∧ Replay apply m l₂ c' := by
  induction l₂ using List.reverseRecOn generalizing c' with
  | nil =>
    rw [List.append_nil] at h
    exact ⟨c', h, .nil⟩
  | append_singleton l₂ e ih =>
    rw [← List.append_assoc] at h
    generalize hlog : l₁ ++ l₂ ++ [e] = log at h
    cases h with
    | nil => simp at hlog
    | snoc h happly =>
      obtain ⟨hinit, hlast⟩ := List.append_inj' hlog rfl
      obtain rfl := List.head_eq_of_cons_eq hlast
      subst hinit
      obtain ⟨m, hfirst, hsecond⟩ := ih h
      exact ⟨m, hfirst, .snoc hsecond happly⟩

/-! ## Writes that overlap -/

/-- The contents are those of a part of the log, in its order, one after the other. -/
def Explained (apply : κ → Option σ → Outcome σ ρ) (c : Option σ) (log : List (κ × ρ))
    (c' : Option σ) : Prop :=
  ∃ kept, kept.Sublist log ∧ Replay apply c kept c'

theorem Explained.append {c c' : Option σ} {log : List (κ × ρ)} (h : Explained apply c log c')
    (more : List (κ × ρ)) : Explained apply c (log ++ more) c' := by
  obtain ⟨kept, hkept, hreplay⟩ := h
  exact ⟨kept, hkept.trans (List.sublist_append_left log more), hreplay⟩

/-- What holds of every state of any run: the cell and what the requests under way have read
    are explained, and the last write of the log is in the cell. -/
structure LineageInv (apply : κ → Option σ → Outcome σ ρ) (c : Option σ) (s : State σ κ ρ ι) :
    Prop where
  cell : ∃ kept, kept.Sublist s.log ∧ kept.getLast? = s.log.getLast? ∧ Replay apply c kept s.cell
  pending : ∀ i p, (s.procs i).pending = some p →
    Explained apply c s.log p.seen ∧ apply p.request p.seen = .save p.contents p.reply

theorem lineageInv_setProc {c : Option σ} {s : State σ κ ρ ι} (hinv : LineageInv apply c s) (i : ι)
    {p : Proc σ κ ρ} (hp : ∀ q, p.pending = some q →
      Explained apply c s.log q.seen ∧ apply q.request q.seen = .save q.contents q.reply) :
    LineageInv apply c (s.setProc i p) where
  cell := hinv.cell
  pending := by
    intro j q hq
    rw [State.setProc_procs] at hq
    split at hq
    · exact hp q hq
    · exact hinv.pending j q hq

theorem lineageInv_step {c : Option σ} {s s' : State σ κ ρ ι} {a : Action ι}
    (hinv : LineageInv apply c s) (hstep : Step apply s a s') : LineageInv apply c s' := by
  cases hstep with
  | finish i k ks r hproc happly =>
    exact lineageInv_setProc hinv i nofun
  | load i k ks contents r hproc happly =>
    apply lineageInv_setProc hinv i
    intro q hq
    obtain rfl := Option.some.inj hq
    obtain ⟨kept, hkept, -, hreplay⟩ := hinv.cell
    exact ⟨⟨kept, hkept, hreplay⟩, happly⟩
  | save i ks p hproc =>
    -- what the request has read is explained; its own write comes behind it
    obtain ⟨⟨kept, hkept, hreplay⟩, hwrite⟩ := hinv.pending i p (by rw [hproc])
    constructor
    · refine ⟨kept ++ [(p.request, p.reply)], hkept.append (List.Sublist.refl _), ?_, ?_⟩
      · rw [List.getLast?_concat, List.getLast?_concat]
      · exact .snoc hreplay hwrite
    · intro j q hq
      obtain ⟨hseen, happly⟩ :=
        (lineageInv_setProc (p := { todo := ks }) hinv i nofun).pending j q hq
      exact ⟨hseen.append _, happly⟩
  | failLoad i k ks hproc =>
    exact lineageInv_setProc hinv i nofun
  | failSave i ks p hproc =>
    exact lineageInv_setProc hinv i nofun

/-- **Overlapping writes drop, they do not mix.**  In every run the cell is what some of the
    writes, taken one after the other, make of it; the last write is always among them. -/
theorem kept_of_reach {ok : State σ κ ρ ι → Action ι → Prop} {c : Option σ} {s : State σ κ ρ ι}
    (h : Reach (Start c) (Step apply) ok s) :
    ∃ kept, kept.Sublist s.log ∧ kept.getLast? = s.log.getLast? ∧ Replay apply c kept s.cell := by
  refine (Reach.invariant (LineageInv apply c) ?_ ?_ h).cell
  · rintro s ⟨rfl, hlog, hidle⟩
    constructor
    · rw [hlog]
      exact ⟨[], List.Sublist.refl _, rfl, .nil⟩
    · intro i p hp
      rw [hidle i] at hp
      simp at hp
  · intro s a s' hinv _ hstep
    exact lineageInv_step hinv hstep

/-! ## Running actions -/

/-- The state after an action, if it can be taken. -/
def next? (apply : κ → Option σ → Outcome σ ρ) (s : State σ κ ρ ι) :
    Action ι → Option (State σ κ ρ ι)
  | .finish i =>
    match s.procs i with
    | ⟨k :: ks, none⟩ =>
      match apply k s.cell with
      | .done _ => some (s.setProc i { todo := ks })
      | .save _ _ => none
    | _ => none
  | .load i =>
    match s.procs i with
    | ⟨k :: ks, none⟩ =>
      match apply k s.cell with
      | .done _ => none
      | .save c r => some (s.setProc i { todo := ks, pending := some ⟨k, s.cell, c, r⟩ })
    | _ => none
  | .save i =>
    match s.procs i with
    | ⟨ks, some p⟩ =>
      some { s.setProc i { todo := ks } with
        cell := some p.contents, log := s.log ++ [(p.request, p.reply)] }
    | _ => none
  | .fail i =>
    match s.procs i with
    | ⟨_ :: ks, none⟩ => some (s.setProc i { todo := ks })
    | ⟨ks, some _⟩ => some (s.setProc i { todo := ks })
    | _ => none

theorem step_of_next? {s s' : State σ κ ρ ι} {a : Action ι} (h : next? apply s a = some s') :
    Step apply s a s' := by
  cases a with
  | finish i =>
    simp only [next?] at h
    split at h
    · rename_i k ks hproc
      split at h
      · rename_i r happly
        obtain rfl := Option.some.inj h
        exact .finish s i k ks r hproc happly
      · simp at h
    · simp at h
  | load i =>
    simp only [next?] at h
    split at h
    · rename_i k ks hproc
      split at h
      · simp at h
      · rename_i c r happly
        obtain rfl := Option.some.inj h
        exact .load s i k ks c r hproc happly
    · simp at h
  | save i =>
    simp only [next?] at h
    split at h
    · rename_i ks p hproc
      obtain rfl := Option.some.inj h
      exact .save s i ks p hproc
    · simp at h
  | fail i =>
    simp only [next?] at h
    split at h
    · rename_i k ks hproc
      obtain rfl := Option.some.inj h
      exact .failLoad s i k ks hproc
    · rename_i ks p hproc
      obtain rfl := Option.some.inj h
      exact .failSave s i ks p hproc
    · simp at h

def run? (apply : κ → Option σ → Outcome σ ρ) (s : State σ κ ρ ι) :
    List (Action ι) → Option (State σ κ ρ ι)
  | [] => some s
  | a :: as => (next? apply s a).bind fun s' => run? apply s' as

/-- A schedule that can be run is a run. -/
theorem reach_of_run? {c : Option σ} {s s' : State σ κ ρ ι} {as : List (Action ι)}
    (hs : Reach (Start c) (Step apply) Anyhow s) (h : run? apply s as = some s') :
    Reach (Start c) (Step apply) Anyhow s' := by
  induction as generalizing s with
  | nil =>
    obtain rfl := Option.some.inj h
    exact hs
  | cons a as ih =>
    obtain ⟨t, ht, hrun⟩ := Option.bind_eq_some_iff.mp h
    exact ih (.next hs trivial (step_of_next? ht)) hrun

section Quiet

variable [DecidableEq σ]

/-- Whether a write finds the cell as its request has read it. -/
def quiet? (s : State σ κ ρ ι) : Action ι → Bool
  | .save i => (s.procs i).pending.all fun p => decide (p.seen = s.cell)
  | _ => true

omit [DecidableEq ι] in
theorem undisturbed_of_quiet? {s : State σ κ ρ ι} {a : Action ι} (h : quiet? s a = true) :
    Undisturbed s a := by
  cases a with
  | save i =>
    intro p hp
    simpa [quiet?, hp] using h
  | finish i => trivial
  | load i => trivial
  | fail i => trivial

/-- The same schedule, as long as it stays undisturbed. -/
def runQuiet? (apply : κ → Option σ → Outcome σ ρ) (s : State σ κ ρ ι) :
    List (Action ι) → Option (State σ κ ρ ι)
  | [] => some s
  | a :: as => if quiet? s a then (next? apply s a).bind fun s' => runQuiet? apply s' as else none

theorem reach_of_runQuiet? {c : Option σ} {s s' : State σ κ ρ ι} {as : List (Action ι)}
    (hs : Reach (Start c) (Step apply) Undisturbed s) (h : runQuiet? apply s as = some s') :
    Reach (Start c) (Step apply) Undisturbed s' := by
  induction as generalizing s with
  | nil =>
    obtain rfl := Option.some.inj h
    exact hs
  | cons a as ih =>
    rw [runQuiet?] at h
    split at h
    · rename_i hquiet
      obtain ⟨t, ht, hrun⟩ := Option.bind_eq_some_iff.mp h
      exact ih (.next hs (undisturbed_of_quiet? hquiet) (step_of_next? ht)) hrun
    · cases h

end Quiet

end

end SimpleSandbox.SharedCell
