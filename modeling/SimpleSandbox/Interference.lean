import SimpleSandbox.CommandRuns

/-!
# Sandboxes next to each other

The store keeps names distinct as strings, but the files of a sandbox are found by paths made
of its name.  Two names may mean one path (`a` and `./a`), and one instance directory may lie
in another (`a` and `a/b`).  Where every sandbox is created under a name whose paths stand
apart from those of the sandboxes that live, no command changes the record or the files of a
sandbox it does not mean.
-/

namespace SimpleSandbox

open RustText OsPath FileSystem Effect World

namespace Machine

variable (M : Machine) (dir : Location)

/-- The files a sandbox is read from. -/
def Owns (r : SandboxRecord) (q : Location) : Prop :=
  q = M.store.policyAt dir r.name ∨
  (r.mechanism = .mac ∧ (q = M.instanceFile dir r.name "profile.sb" ∨
    q = M.instanceFile dir r.name "workdir" ∨ q = M.instanceFile dir r.name "policy.yaml"))

/-- The paths of a sandbox spare the record and the files of another one. -/
structure Spares (kind : MechanismKind) (name : String) (kind' : MechanismKind) (name' : String) :
    Prop where
  policy : M.store.policyAt dir name ≠ M.store.policyAt dir name'
  index : kind = .mac → ¬ M.instanceAt dir name <+: M.store.indexAt dir
  above_policy : kind = .mac → ¬ M.instanceAt dir name <+: M.store.policyAt dir name'
  above_instance : kind = .mac → kind' = .mac →
    ¬ M.instanceAt dir name <+: M.instanceAt dir name'

/-- Two sandboxes stand apart. -/
structure Apart (kind : MechanismKind) (name : String) (kind' : MechanismKind) (name' : String) :
    Prop where
  spares : M.Spares dir kind name kind' name'
  spared : M.Spares dir kind' name' kind name

variable {M dir}

theorem Apart.symm {kind kind' : MechanismKind} {name name' : String}
    (h : M.Apart dir kind name kind' name') : M.Apart dir kind' name' kind name :=
  ⟨h.spared, h.spares⟩

/-! ## Plain names stand apart -/

theorem policyAt_of_isName {name : String} (hname : IsName (osString (name ++ ".yaml"))) :
    M.store.policyAt dir name = M.store.policiesAt dir ++ [osString (name ++ ".yaml")] := by
  rw [Store.policyAt_eq, hname.resolve]

theorem instanceAt_of_isName {name : String} (hname : IsName (osString name)) :
    M.instanceAt dir name = M.instancesAt dir ++ [osString name] := by
  rw [instanceAt_eq, hname.resolve]

theorem isName_yaml {name : String} (hname : IsName (osString name)) :
    IsName (osString (name ++ ".yaml")) := by
  obtain ⟨hne, hsep, -, -⟩ := hname
  rw [osString_append]
  have hlong : 2 < (osString name ++ osString ".yaml").length := by
    rw [List.length_append]
    exact Nat.lt_of_lt_of_le (by decide) (Nat.le_add_left _ _)
  refine ⟨by simp [hne], ?_, ?_, ?_⟩
  · rw [List.mem_append]
    exact fun h => h.elim hsep (by decide)
  · exact fun h => absurd (congrArg List.length h) (by rw [show (osString ".").length = 1 from rfl]; omega)
  · exact fun h => absurd (congrArg List.length h) (by rw [show (osString "..").length = 2 from rfl]; omega)

theorem spares_of_isName {name name' : String} (hname : IsName (osString name))
    (hname' : IsName (osString name')) (hne : name ≠ name') (kind kind' : MechanismKind) :
    M.Spares dir kind name kind' name' := by
  have hinstances : ∀ rest : Location,
      M.instancesAt dir ++ [osString name] <+: M.instancesAt dir ++ rest → [osString name] <+: rest :=
    fun rest h => (List.prefix_append_right_inj _).mp h
  have hmac : ∀ (x y : OsString) (rest : Location), x ≠ osString "mac" →
      ¬ M.instancesAt dir ++ [y] <+: resolve dir M.root ++ x :: rest := by
    intro x y rest hx h
    rw [instancesAt, List.append_assoc] at h
    have hrest := (List.prefix_append_right_inj _).mp h
    rw [List.cons_append, List.cons_prefix_cons] at hrest
    exact hx hrest.1.symm
  constructor
  · rw [policyAt_of_isName (isName_yaml hname), policyAt_of_isName (isName_yaml hname')]
    intro h
    have hlast := osString_injective (List.head_eq_of_cons_eq (List.append_inj' h rfl).2)
    exact hne (String.append_left_inj ".yaml" |>.mp hlast)
  · intro _
    rw [instanceAt_of_isName hname, Store.indexAt_eq]
    exact hmac _ _ _ (by decide)
  · intro _
    rw [instanceAt_of_isName hname, policyAt_of_isName (isName_yaml hname'), Store.policiesAt,
      List.append_assoc]
    exact hmac _ _ _ (by decide)
  · intro _ _
    rw [instanceAt_of_isName hname, instanceAt_of_isName hname']
    intro h
    have hhead := hinstances _ h
    rw [List.cons_prefix_cons] at hhead
    exact hne (osString_injective hhead.1)

/-- **Plain names stand apart.** -/
theorem apart_of_isName {name name' : String} (hname : IsName (osString name))
    (hname' : IsName (osString name')) (hne : name ≠ name') (kind kind' : MechanismKind) :
    M.Apart dir kind name kind' name' :=
  ⟨spares_of_isName hname hname' hne kind kind', spares_of_isName hname' hname hne.symm kind' kind⟩

/-! ## Events and files of others -/

theorem Owns.ne_indexAt {r : SandboxRecord} {q : Location} (h : M.Owns dir r q) :
    q ≠ M.store.indexAt dir := by
  rcases h with rfl | ⟨-, rfl | rfl | rfl⟩
  · exact M.store.policyAt_ne_indexAt dir r.name
  · exact M.instanceFile_ne_indexAt dir r.name (by decide)
  · exact M.instanceFile_ne_indexAt dir r.name (by decide)
  · exact M.instanceFile_ne_indexAt dir r.name (by decide)

/-- A file of the instance directory, or the policy file. -/
theorem Owns.cases {r : SandboxRecord} {q : Location} (h : M.Owns dir r q) :
    q = M.store.policyAt dir r.name ∨
    (r.mechanism = .mac ∧ ∃ file, q = M.instanceAt dir r.name ++ [file]) := by
  rcases h with h | ⟨hmac, rfl | rfl | rfl⟩
  · exact Or.inl h
  · exact Or.inr ⟨hmac, _, rfl⟩
  · exact Or.inr ⟨hmac, _, rfl⟩
  · exact Or.inr ⟨hmac, _, rfl⟩

variable {kind : MechanismKind} {name : String} {r : SandboxRecord} {q : Location}

theorem Apart.ne_policyAt (h : M.Apart dir kind name r.mechanism r.name) (hq : M.Owns dir r q) :
    q ≠ M.store.policyAt dir name := by
  rcases hq.cases with rfl | ⟨hmac, file, rfl⟩
  · exact h.spared.policy
  · intro heq
    exact h.spared.above_policy hmac ⟨[file], heq⟩

theorem Apart.not_above (h : M.Apart dir kind name r.mechanism r.name) (hkind : kind = .mac)
    (hq : M.Owns dir r q) : ¬ M.instanceAt dir name <+: q := by
  rcases hq.cases with rfl | ⟨hmac, file, rfl⟩
  · exact h.spares.above_policy hkind
  · intro hprefix
    rcases List.prefix_concat_iff.mp hprefix with heq | habove
    · exact h.spared.above_instance hmac hkind ⟨[file], heq.symm⟩
    · exact h.spares.above_instance hkind hmac habove

theorem not_touches_of_openingEvents (hq : M.Owns dir r q) {ev : FsEvent}
    (hev : M.openingEvents dir ev) : ¬ ev.touches q := by
  rcases hev with hev | rfl
  · exact Store.not_touches_of_openEvents hev q
  · exact hq.ne_indexAt

/-- What `create` writes. -/
theorem not_touches_of_createEvents (h : M.Apart dir kind name r.mechanism r.name)
    (hq : M.Owns dir r q) {ev : FsEvent} (hev : M.createEvents dir kind name ev) :
    ¬ ev.touches q := by
  have hfile : ∀ file, kind = .mac → q ≠ M.instanceAt dir name ++ [file] := by
    rintro file hkind rfl
    exact h.not_above hkind hq (List.prefix_append _ _)
  rcases hev with rfl | rfl | ⟨hkind, rfl | rfl | rfl | rfl⟩
  · exact hq.ne_indexAt
  · exact h.ne_policyAt hq
  · exact id
  · exact hfile _ hkind
  · exact hfile _ hkind
  · exact hfile _ hkind

/-- What `rm` of another sandbox deletes. -/
theorem not_touches_of_removeEvents {r₀ : SandboxRecord} (hissued : M.Issued r₀)
    (hlog : isUtf8 (M.store.logPathFor r₀.name) = true)
    (h : M.Apart dir r₀.mechanism r₀.name r.mechanism r.name) (hq : M.Owns dir r q) {ev : FsEvent}
    (hev : M.removeEvents dir r₀ ev) : ¬ ev.touches q := by
  rcases hev with rfl | rfl | ⟨hmac, hev⟩
  · exact hq.ne_indexAt
  · exact h.ne_policyAt hq
  · rw [removalEvents_of_issued hissued hmac hev, removedAt_of_logPath hlog]
    exact h.not_above (hissued.mac_of_resolve hmac) hq

/-! ## Runs -/

/-- The live sandboxes stand apart. -/
structure LiveApart (M : Machine) (dir : Location) (s : SandboxState) : Prop where
  issued : ∀ r ∈ s.sandboxes, M.Issued r
  logPath : ∀ r ∈ s.sandboxes, isUtf8 (M.store.logPathFor r.name) = true
  apart : ∀ r ∈ s.sandboxes, ∀ r' ∈ s.sandboxes, r.name ≠ r'.name →
    M.Apart dir r.mechanism r.name r'.mechanism r'.name

/-- A sandbox is created apart from the sandboxes of other names. -/
def CreatedApart (M : Machine) (dir : Location) (w : World) (a : Invocation) : Prop :=
  ∀ name args p, a.command = .create name args →
    prepare M a.env (createName name) args id false [] = .ok p →
    ∀ s, M.records dir w = some s → ∀ r ∈ s.sandboxes, r.name ≠ createName name →
      M.Apart dir p.kind (createName name) r.mechanism r.name

theorem liveApart_empty : LiveApart M dir {} :=
  ⟨fun _ h => (nomatch h), fun _ h => (nomatch h), fun _ h => (nomatch h)⟩

/-- Fewer records, or records with the same names and kinds. -/
theorem LiveApart.of_subset {s s' : SandboxState} (h : LiveApart M dir s)
    (hsub : ∀ r ∈ s'.sandboxes, ∃ r₀ ∈ s.sandboxes, r.name = r₀.name ∧
      r.mechanism = r₀.mechanism ∧ (M.Issued r₀ → M.Issued r)) : LiveApart M dir s' where
  issued := by
    intro r hr
    obtain ⟨r₀, hr₀, -, -, hissued⟩ := hsub r hr
    exact hissued (h.issued r₀ hr₀)
  logPath := by
    intro r hr
    obtain ⟨r₀, hr₀, hname, -⟩ := hsub r hr
    rw [hname]
    exact h.logPath r₀ hr₀
  apart := by
    intro r hr r' hr' hne
    obtain ⟨r₀, hr₀, hname, hkind, -⟩ := hsub r hr
    obtain ⟨r₁, hr₁, hname', hkind', -⟩ := hsub r' hr'
    rw [hname, hname'] at hne
    rw [hname, hname', hkind, hkind']
    exact h.apart r₀ hr₀ r₁ hr₁ hne

theorem liveApart_indexStep {env : ProcessEnv} {cwd : Location} {cmd : Command}
    {c c' : Option SandboxState} (hc : ∀ s, c = some s → LiveApart M dir s)
    (hok : ∀ name args p, cmd = .create name args →
      prepare M env (createName name) args id false [] = .ok p → ∀ s, c = some s →
      ∀ r ∈ s.sandboxes, r.name ≠ createName name →
        M.Apart dir p.kind (createName name) r.mechanism r.name)
    (h : IndexStep M env cwd cmd c c') : ∀ s, c' = some s → LiveApart M dir s := by
  rintro s' rfl
  cases h with
  | keep => exact hc s' rfl
  | @create name args p s _ hp hcreated =>
    obtain ⟨r', hmem, hr'name, hkind, hlog, hissued⟩ := hcreated.mem_iff
    have hold := hc s rfl
    have hnew : ∀ x ∈ s.sandboxes, x.name ≠ r'.name →
        M.Apart dir r'.mechanism r'.name x.mechanism x.name := by
      intro x hx hne
      rw [hkind, hr'name]
      exact hok name args p rfl hp s rfl x hx (by rw [← hr'name]; exact hne)
    refine ⟨fun x hx => ?_, fun x hx => ?_, fun x hx y hy hne => ?_⟩
    · rcases (hmem x).mp hx with hx | heq
      · exact hold.issued x hx
      · rw [heq]
        exact hissued
    · rcases (hmem x).mp hx with hx | heq
      · exact hold.logPath x hx
      · rw [heq, hr'name]
        exact hlog
    · rcases (hmem x).mp hx with hx | heq
      · rcases (hmem y).mp hy with hy | heq'
        · exact hold.apart x hx y hy hne
        · rw [heq'] at hne ⊢
          exact (hnew x hx hne).symm
      · rw [heq] at hne ⊢
        rcases (hmem y).mp hy with hy | heq'
        · exact hnew y hy hne.symm
        · exact absurd (by rw [heq']) hne
  | touch =>
    have hold := hc _ rfl
    exact ⟨hold.issued, hold.logPath, hold.apart⟩
  | update _ h =>
    obtain ⟨-, rfl⟩ := SandboxState.updatePolicy_eq_ok_iff.mp h
    refine (hc _ rfl).of_subset fun r hr => ?_
    rcases SandboxState.mem_modifyNamed hr with hold | ⟨r₀, hr₀, rfl⟩
    · exact ⟨r, hold, rfl, rfl, id⟩
    · exact ⟨r₀, hr₀, rfl, rfl, fun hissued => hissued.withHash _⟩
  | remove h =>
    refine (hc _ rfl).of_subset fun r hr => ?_
    exact ⟨r, (SandboxState.sandboxes_of_remove h).subset hr, rfl, rfl, id⟩

theorem liveApart_of_reach {w : World}
    (h : Reach (M.Fresh dir) (M.Runs dir) (M.CreatedApart dir) w) :
    ∀ s, M.records dir w = some s → LiveApart M dir s := by
  refine index_of_reach (LiveApart M dir) ?_ h
  intro w a w' hinv hok hstep
  obtain ⟨c, hopens, hindex⟩ := hstep.indexStep
  refine liveApart_indexStep ?_ ?_ hindex
  · rintro s rfl
    rcases hopens with hsame | ⟨-, hfirst⟩
    · exact hinv s hsame.symm
    · rw [Option.some.inj hfirst]
      exact liveApart_empty
  · rintro name args p hcmd hp s rfl r hr hne
    rcases hopens with hsame | ⟨-, hfirst⟩
    · exact hok name args p hcmd hp s hsame.symm r hr hne
    · rw [Option.some.inj hfirst] at hr
      exact nomatch hr

end Machine

/-- The command means the sandbox: it creates its name, sets its policy or removes it. -/
def Command.Means (s : SandboxState) (r : SandboxRecord) : Command → Prop
  | .create name _ => r.name = createName name
  | .policySet name _ => ∃ r₀, s.getOrLast name = .ok r₀ ∧ r.name = r₀.name
  | .rm key => ∃ r₀ s', s.remove key = .ok (r₀, s') ∧ r.name = r₀.name
  | _ => False

namespace Machine

variable {M : Machine} {dir : Location} {s : SandboxState} {r : SandboxRecord}

/-- No event of a command touches a file of a sandbox it does not mean. -/
theorem not_touches_of_commandEvents (hs : LiveApart M dir s) (hr : r ∈ s.sandboxes)
    {a : Invocation} {w : World} (hw : M.records dir w = some s) (hok : M.CreatedApart dir w a)
    (hmeans : ¬ a.command.Means s r) {q : Location} (hq : M.Owns dir r q) {ev : FsEvent}
    (hev : M.commandEvents a.env dir (some s) a.command ev) : ¬ ev.touches q := by
  generalize hcmd : a.command = cmd at hmeans hev
  cases cmd with
  | create name args =>
    obtain ⟨p, hp, hev⟩ := hev
    exact not_touches_of_createEvents (hok name args p hcmd hp s hw r hr hmeans) hq hev
  | exec name command =>
    obtain rfl : ev = _ := hev
    exact hq.ne_indexAt
  | shell name =>
    obtain rfl : ev = _ := hev
    exact hq.ne_indexAt
  | policySet name file =>
    obtain ⟨s₁, r₀, hs₁, hget, hev⟩ := hev
    obtain rfl := Option.some.inj hs₁
    have hne : r₀.name ≠ r.name := fun heq => hmeans ⟨r₀, hget, heq.symm⟩
    have hapart := hs.apart r₀ (SandboxState.mem_of_getOrLast hget) r hr hne
    rcases hev with rfl | rfl
    · exact hq.ne_indexAt
    · exact hapart.ne_policyAt hq
  | rm key =>
    obtain ⟨s₁, r₀, s', hs₁, hremove, hev⟩ := hev
    obtain rfl := Option.some.inj hs₁
    have hr₀ := SandboxState.mem_of_remove hremove
    have hne : r₀.name ≠ r.name := fun heq => hmeans ⟨r₀, s', hremove, heq.symm⟩
    exact not_touches_of_removeEvents (hs.issued r₀ hr₀) (hs.logPath r₀ hr₀)
      (hs.apart r₀ hr₀ r hr hne) hq hev
  | run name args command => exact hev.elim
  | policyGet name => exact hev.elim
  | ls => exact hev.elim
  | logs name => exact hev.elim
  | doctor => exact hev.elim

/-- The record of a sandbox that a command does not mean stays. -/
theorem record_kept (hs : LiveApart M dir s) (hr : r ∈ s.sandboxes) {env : ProcessEnv}
    {cmd : Command} {c' : Option SandboxState} (hmeans : ¬ cmd.Means s r)
    (h : IndexStep M env dir cmd (some s) c') : ∃ s', c' = some s' ∧ r ∈ s'.sandboxes := by
  generalize hc : some s = c at h
  cases h with
  | keep => exact ⟨s, hc.symm, hr⟩
  | create hp hcreated =>
    obtain rfl := Option.some.inj hc
    obtain ⟨r', hmem, -⟩ := hcreated.mem_iff
    exact ⟨_, rfl, (hmem r).mpr (Or.inl hr)⟩
  | touch =>
    obtain rfl := Option.some.inj hc
    exact ⟨_, rfl, hr⟩
  | @update _ _ _ _ r₀ _ hget h =>
    obtain rfl := Option.some.inj hc
    obtain ⟨-, rfl⟩ := SandboxState.updatePolicy_eq_ok_iff.mp h
    exact ⟨_, rfl, SandboxState.mem_modifyNamed_of_ne hr fun heq => hmeans ⟨r₀, hget, heq⟩⟩
  | @remove _ _ s' r₀ h =>
    obtain rfl := Option.some.inj hc
    refine ⟨s', rfl, SandboxState.mem_of_remove_of_ne h hr ?_⟩
    rintro rfl
    exact hmeans ⟨r, s', h, rfl⟩
  | @lose _ _ s' r₀ h hkind hlost =>
    obtain rfl := Option.some.inj hc
    have hr₀ := SandboxState.mem_of_remove h
    have hissued := hs.issued r₀ hr₀
    have hne : r₀.name ≠ r.name := fun heq => hmeans ⟨r₀, s', h, heq.symm⟩
    have hapart := hs.apart r₀ hr₀ r hr hne
    obtain ⟨ev, hev, htouch⟩ := hlost
    rw [removalEvents_of_issued hissued hkind hev, removedAt_of_logPath (hs.logPath r₀ hr₀)] at htouch
    exact absurd htouch (hapart.spares.index (hissued.mac_of_resolve hkind))

end Machine

/-- **Sandboxes that stand apart do not interfere.** -/
theorem untouched_of_apart (M : Machine) (dir : Location) (w w' : World) (a : Invocation)
    (h : Reach (M.Fresh dir) (M.Runs dir) (M.CreatedApart dir) w) (hok : M.CreatedApart dir w a)
    (hstep : M.Runs dir w a w') (s : SandboxState) (hs : M.records dir w = some s)
    (r : SandboxRecord) (hr : r ∈ s.sandboxes) (hmeans : ¬ a.command.Means s r) :
    (∃ s', M.records dir w' = some s' ∧ r ∈ s'.sandboxes) ∧
    ∀ q, M.Owns dir r q → w'.fileAt q = w.fileAt q := by
  have hlive := Machine.liveApart_of_reach h s hs
  have hissued : M.AllIssued (M.records dir w) := by
    intro s₁ hs₁ r₁ hr₁
    obtain rfl := Option.some.inj (hs.symm.trans hs₁)
    exact hlive.issued r₁ hr₁
  obtain ⟨c, hopens, hindex, evs, -, hevs, hkeep⟩ := hstep.changes hissued
  obtain rfl := hopens.of_records hs
  refine ⟨Machine.record_kept hlive hr hmeans hindex, fun q hq => hkeep q fun ev hev => ?_⟩
  rcases hevs ev hev with hopening | hcommand
  · exact Machine.not_touches_of_openingEvents hq hopening
  · exact Machine.not_touches_of_commandEvents hlive hr hs hok hmeans hq hcommand

/-- `create --name a` and then `create --name b`. -/
theorem first_untouched_by_second :
    (smallMachine.after (smallMachine.after emptyWorld (smallCreate .mac "a" "u"))
      (smallCreate .mac "b" "v")).fileAt (smallMachine.store.policyAt [] "a") =
    (smallMachine.after emptyWorld (smallCreate .mac "a" "u")).fileAt
      (smallMachine.store.policyAt [] "a") := by
  have hfirst : smallMachine.CreatedApart [] emptyWorld (smallCreate .mac "a" "u") := by
    intro name args p _ _ s hs
    rw [smallMachine.records_of_fresh [] fresh_emptyWorld] at hs
    exact nomatch hs
  have hsecond : smallMachine.CreatedApart [] (smallMachine.after emptyWorld
      (smallCreate .mac "a" "u")) (smallCreate .mac "b" "v") := by
    intro name args p hcmd _ s hs r hr _
    injection hcmd with hname _
    rw [records_first] at hs
    obtain rfl := Option.some.inj hs
    rw [← hname, List.mem_singleton.mp hr]
    exact Machine.apart_of_isName (by decide) (by decide) (by decide) _ _
  exact (untouched_of_apart smallMachine [] _ _ (smallCreate .mac "b" "v")
    (.next (.start fresh_emptyWorld) hfirst (runs_after _)) hsecond (runs_after _) _ records_first
    (smallRecord "a" "u") (by decide) fun h : "a" = "b" => absurd h (by decide)).2 _ (Or.inl rfl)

/-- `create --name a` and then `create --name ./a`. -/
def aliasWorld : World :=
  smallMachine.after (smallMachine.after emptyWorld (smallCreate .mac "a" "u"))
    (smallCreate .mac "./a" "v")

/-- `rm ./a` deletes the policy of `a`. -/
theorem rm_alias_interferes :
    Reach (smallMachine.Fresh []) (smallMachine.Runs []) (fun _ _ => True) aliasWorld ∧
    smallMachine.Runs [] aliasWorld (smallRm "./a") (smallMachine.after aliasWorld (smallRm "./a")) ∧
    smallMachine.records [] aliasWorld =
      some ⟨some "./a", [smallRecord "a" "u", smallRecord "./a" "v"]⟩ ∧
    ¬ Command.Means ⟨some "./a", [smallRecord "a" "u", smallRecord "./a" "v"]⟩
      (smallRecord "a" "u") (smallRm "./a").command ∧
    smallMachine.Owns [] (smallRecord "a" "u") (smallMachine.store.policyAt [] "a") ∧
    (smallMachine.after aliasWorld (smallRm "./a")).fileAt (smallMachine.store.policyAt [] "a") ≠
      aliasWorld.fileAt (smallMachine.store.policyAt [] "a") := by
  refine ⟨.next (.next (.start fresh_emptyWorld) trivial (runs_after _)) trivial (runs_after _),
    runs_after _, by decide, ?_, Or.inl rfl, by decide⟩
  rintro ⟨r₀, s', hremove, hname⟩
  have hfound : r₀ = smallRecord "./a" "v" :=
    (Prod.mk.inj (Except.ok.inj hremove)).1.symm
  rw [hfound] at hname
  revert hname
  decide

end SimpleSandbox
