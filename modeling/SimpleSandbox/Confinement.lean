import SimpleSandbox.CommandRuns

/-!
# Confinement to the state directory

A sandbox name becomes part of two paths: `policies/{name}.yaml` and the instance directory
`mac/instances/{name}`, which `rm` deletes with all it holds.  Nothing checks the name, so an
absolute name or one that climbs with `..` leads out of the root.  Where every sandbox of the
mac mechanism is created under a name that stays beneath any directory it is joined to, what
`create` writes and what `rm` deletes stays beneath `policies` and `mac/instances`.
-/

namespace SimpleSandbox

open RustText OsPath FileSystem Effect World

/-- The name stays beneath the directories it is joined to, and leads below them. -/
def ConfinedName (name : String) : Prop := IsConfined (osString name)

instance (name : String) : Decidable (ConfinedName name) := by
  unfold ConfinedName
  infer_instance

namespace ConfinedName

variable {name : String}

theorem policyAt (h : ConfinedName name) (st : Store) (dir : Location) :
    StrictlyBeneath (st.policiesAt dir) (st.policyAt dir name) := by
  rw [Store.policyAt_eq, osString_append]
  exact h.strictlyBeneath_append (by decide) (by decide) _

theorem instanceAt (h : ConfinedName name) (M : Machine) (dir : Location) :
    StrictlyBeneath (M.instancesAt dir) (M.instanceAt dir name) := by
  rw [Machine.instanceAt_eq]
  exact h.strictlyBeneath _

end ConfinedName

namespace Machine

variable (M : Machine) (dir : Location)

/-- The event lies where its place in the source says it should. -/
def Confined (ev : FsEvent) : Prop :=
  match ev.site with
  | .savePolicy | .dropPolicy => StrictlyBeneath (M.store.policiesAt dir) ev.location
  | .createInstance | .writeProfile | .writeWorkdir | .writePolicyCopy | .removeInstance =>
    StrictlyBeneath (M.instancesAt dir) ev.location
  | .openRoot => ev.location = resolve dir M.root
  | _ => StrictlyBeneath (resolve dir M.root) ev.location

instance (ev : FsEvent) : Decidable (M.Confined dir ev) :=
  match ev with
  | ⟨.savePolicy, q⟩ | ⟨.dropPolicy, q⟩ =>
    inferInstanceAs (Decidable (StrictlyBeneath (M.store.policiesAt dir) q))
  | ⟨.createInstance, q⟩ | ⟨.writeProfile, q⟩ | ⟨.writeWorkdir, q⟩ | ⟨.writePolicyCopy, q⟩
  | ⟨.removeInstance, q⟩ => inferInstanceAs (Decidable (StrictlyBeneath (M.instancesAt dir) q))
  | ⟨.openRoot, q⟩ => inferInstanceAs (Decidable (q = resolve dir M.root))
  | ⟨.openSandboxes, q⟩ | ⟨.openLogs, q⟩ | ⟨.openPolicies, q⟩ | ⟨.openIndex, q⟩
  | ⟨.loadIndex, q⟩ | ⟨.saveIndex, q⟩ | ⟨.loadPolicy, q⟩ | ⟨.readWorkdir, q⟩
  | ⟨.readPolicyCopy, q⟩ => inferInstanceAs (Decidable (StrictlyBeneath (resolve dir M.root) q))

/-- A sandbox of the mac mechanism is created under a confined name. -/
def MacNameConfined (_ : World) (a : Invocation) : Prop :=
  ∀ name args p, a.command = .create name args →
    prepare M a.env (createName name) args id false [] = .ok p → p.kind = .mac →
    ConfinedName (createName name)

/-- What holds of every record of a run. -/
structure ConfinedRecord (r : SandboxRecord) : Prop where
  issued : M.Issued r
  name : r.mechanism = .mac → ConfinedName r.name
  logPath : isUtf8 (M.store.logPathFor r.name) = true

variable {M dir}

theorem confined_openingEvents {ev : FsEvent} (h : M.openingEvents dir ev) : M.Confined dir ev := by
  have hbelow : ∀ s : String, IsName (osString s) →
      StrictlyBeneath (resolve dir M.root) (resolve dir (join M.root (osString s))) := by
    intro s hs
    rw [resolve_join, hs.resolve]
    exact strictlyBeneath_append (List.cons_ne_nil _ _)
  rcases h with (rfl | rfl | rfl | rfl) | rfl
  · rfl
  · exact hbelow "sandboxes" (by decide)
  · exact hbelow "logs" (by decide)
  · exact hbelow "policies" (by decide)
  · exact hbelow "index.json" (by decide)

theorem confined_saveIndex : M.Confined dir ⟨.saveIndex, M.store.indexAt dir⟩ := by
  change StrictlyBeneath _ (M.store.indexAt dir)
  rw [Store.indexAt_eq]
  exact strictlyBeneath_append (List.cons_ne_nil _ _)

/-- What the creation of a confined instance writes. -/
theorem confined_createEvents {name : String} (hname : ConfinedName name) {kind : MechanismKind}
    {ev : FsEvent} (h : M.createEvents dir kind name ev) : M.Confined dir ev := by
  have hinstance := hname.instanceAt M dir
  rcases h with rfl | rfl | ⟨-, rfl | rfl | rfl | rfl⟩
  · exact confined_saveIndex
  · exact hname.policyAt M.store dir
  · exact hinstance
  · exact hinstance.append _
  · exact hinstance.append _
  · exact hinstance.append _

/-- What the removal of a confined instance deletes. -/
theorem confined_removeEvents {r : SandboxRecord} (hr : M.ConfinedRecord r)
    (hmac : r.mechanism = .mac) {ev : FsEvent} (h : M.removeEvents dir r ev) :
    M.Confined dir ev := by
  rcases h with rfl | rfl | ⟨hkind, hev⟩
  · exact confined_saveIndex
  · exact (hr.name hmac).policyAt M.store dir
  · rw [removalEvents_of_issued hr.issued hkind hev, removedAt_of_logPath hr.logPath]
    exact (hr.name hmac).instanceAt M dir

theorem confinedRecord_of_reach {w : World}
    (h : Reach (M.Fresh dir) (M.Runs dir) M.MacNameConfined w) :
    ∀ s, M.records dir w = some s → ∀ r ∈ s.sandboxes, M.ConfinedRecord r := by
  refine index_of_reach (fun s => ∀ r ∈ s.sandboxes, M.ConfinedRecord r) ?_ h
  intro w a w' hinv hok hstep
  obtain ⟨c, hopens, hindex⟩ := hstep.indexStep
  refine records_of_indexStep M.ConfinedRecord ?_ (hopens.all hinv) ?_ hindex
  · intro r hash hr
    exact ⟨hr.issued.withHash hash, hr.name, hr.logPath⟩
  · intro name args p r hcmd hp hname hkind hlog hissued
    rw [← hname] at hlog
    refine ⟨hissued, fun hmac => ?_, hlog⟩
    rw [hname]
    exact hok name args p hcmd hp (by rw [← hkind, hmac])

end Machine

/-- **Confined names keep `create` and `rm` beneath the root.** -/
theorem create_rm_confined (M : Machine) (dir : Location) (w w' : World) (a : Invocation)
    (h : Reach (M.Fresh dir) (M.Runs dir) M.MacNameConfined w) (hok : M.MacNameConfined w a)
    (hstep : M.Runs dir w a w') :
    (∀ name args p, a.command = .create name args →
      prepare M a.env (createName name) args id false [] = .ok p → p.kind = .mac →
      Machine.Changes (M.Confined dir) w w') ∧
    (∀ key s r s', a.command = .rm key → M.records dir w = some s → s.remove key = .ok (r, s') →
      r.mechanism = .mac → Machine.Changes (M.Confined dir) w w') := by
  have hrecords := Machine.confinedRecord_of_reach h
  have hissued : M.AllIssued (M.records dir w) := fun s hs r hr => (hrecords s hs r hr).issued
  obtain ⟨c, hopens, -, hchanges⟩ := hstep.changes hissued
  constructor
  · intro name args p hcmd hp hkind
    have hname := hok name args p hcmd hp hkind
    rw [hcmd] at hchanges
    refine hchanges.mono fun ev hev => ?_
    rcases hev with hev | ⟨p', -, hev⟩
    · exact Machine.confined_openingEvents hev
    · exact Machine.confined_createEvents hname hev
  · intro key s r s' hcmd hs hremove hmac
    rw [hcmd] at hchanges
    refine hchanges.mono fun ev hev => ?_
    rcases hev with hev | ⟨s₁, r₁, s₁', hc, hremove₁, hev⟩
    · exact Machine.confined_openingEvents hev
    · have hsame : s₁ = s := Option.some.inj (hc.symm.trans (hopens.of_records hs))
      rw [hsame, hremove] at hremove₁
      obtain ⟨rfl, -⟩ := Prod.mk.inj (Except.ok.inj hremove₁)
      have hr := hrecords s hs r (SandboxState.mem_of_remove hremove)
      exact Machine.confined_removeEvents hr hmac hev

/-- `create --name a` and then `rm a`. -/
theorem rm_first_confined :
    Machine.Changes (smallMachine.Confined [])
      (smallMachine.after emptyWorld (smallCreate .mac "a" "u"))
      (smallMachine.after (smallMachine.after emptyWorld (smallCreate .mac "a" "u"))
        (smallRm "a")) := by
  have hcreate : smallMachine.MacNameConfined emptyWorld (smallCreate .mac "a" "u") := by
    intro name args p hcmd _ _
    injection hcmd with hname _
    rw [← hname]
    decide
  have hrm : smallMachine.MacNameConfined (smallMachine.after emptyWorld (smallCreate .mac "a" "u"))
      (smallRm "a") := fun _ _ _ hcmd => (nomatch hcmd)
  exact (create_rm_confined smallMachine [] _ _ (smallRm "a")
    (.next (.start fresh_emptyWorld) hcreate (runs_after _)) hrm (runs_after _)).2 "a" _ _ _ rfl
    records_first rfl rfl

/-- `create --name ../../../x` -/
def escapedWorld : World := smallMachine.after emptyWorld (smallCreate .mac "../../../x" "u")

/-- `rm` of a sandbox with a climbing name deletes a directory outside the root. -/
theorem rm_deletes_outside :
    Reach (smallMachine.Fresh []) (smallMachine.Runs []) (fun _ _ => True) escapedWorld ∧
    smallMachine.Runs [] escapedWorld (smallRm "../../../x")
      (smallMachine.after escapedWorld (smallRm "../../../x")) ∧
    ¬ Machine.Changes (smallMachine.Confined []) escapedWorld
      (smallMachine.after escapedWorld (smallRm "../../../x")) := by
  refine ⟨.next (.start fresh_emptyWorld) trivial (runs_after _), runs_after _, fun h => ?_⟩
  have hdeleted : (⟨.removeInstance, [osString "x"]⟩ : FsEvent) ∈
      (smallMachine.after escapedWorld (smallRm "../../../x")).journal.drop
        escapedWorld.journal.length := by decide
  exact absurd (h.of_mem hdeleted) (by decide)

end SimpleSandbox
