import SimpleSandbox.KeyedList
import SimpleSandbox.CommandSpec
import SimpleSandbox.PodmanArgs

/-!
# Secrets in the environment of the container

A secret passes through four texts: its source, the bytes of the locked buffer, the pair of
`to_env_pairs` and the token behind `-e`.  The map in between keeps one value for each name,
and the container reads the token up to its first `=` as the name.

So a name arrives as it was written unless it holds an `=` itself.
-/

namespace SimpleSandbox

open RustText OsPath KeyedList

/-! ## What a reference is worth -/

/-- The buffer gives back the bytes it was given, and the walk of a map leaves no entry out and
    adds none. -/
structure SecretHost.Faithful (h : SecretHost) : Prop where
  lock_unlock : ∀ bytes, ∃ buf, h.lock bytes = .ok buf ∧ h.unlock buf = .ok bytes
  iterate : ∀ m, (h.iterate m).Perm m

/-- `resolve_secrets`, then `to_env_pairs`. -/
def secretPairs (h : SecretHost) (refs : List SecretRef) (root : PathBuf) :
    Except SecretError (List (String × String)) := do
  let m ← resolveSecrets h refs root
  m.toEnvPairs h

/-- The text a reference stands for. -/
def secretText (h : SecretHost) (root : PathBuf) (r : SecretRef) : Option String :=
  (loadSecretBytes h r.source root).toOption.bind fromUtf8

/-- Every source loads, and what is kept of it is text. -/
def SecretsReadable (h : SecretHost) (root : PathBuf) (refs : List SecretRef) : Prop :=
  (∀ r ∈ refs, ∃ bytes, loadSecretBytes h r.source root = .ok bytes) ∧
  ∀ env r, lastOf SecretRef.env refs env = some r → (secretText h root r).isSome = true

/-- What `resolve_secrets` stores for a reference. -/
def storeSecret (h : SecretHost) (root : PathBuf) (r : SecretRef) :
    Except SecretError (List UInt8) := do
  let bytes ← loadSecretBytes h r.source root
  (h.lock bytes).mapError .secureMemory

/-- What `to_env_pairs` makes of an entry. -/
def readSecret (h : SecretHost) (env : String) (buf : List UInt8) : Except SecretError String := do
  let bytes ← (h.unlock buf).mapError .secureMemory
  match fromUtf8 bytes with
  | some s => pure s
  | none => throw (.unavailable ("secret " ++ env ++ " not utf-8"))

section Resolving

variable {h : SecretHost} {refs : List SecretRef} {root : PathBuf}

theorem resolveSecrets_eq_fill (h : SecretHost) (refs : List SecretRef) (root : PathBuf) :
    resolveSecrets h refs root = fill SecretRef.env (storeSecret h root) [] refs := by
  have hstep : ∀ (m : SecretMap) (r : SecretRef),
      (do
        let bytes ← loadSecretBytes h r.source root
        let buf ← (h.lock bytes).mapError SecretError.secureMemory
        pure (m.insert r.env buf)) = (storeSecret h root r).map (put m r.env) := by
    intro m r
    rw [storeSecret]
    cases loadSecretBytes h r.source root with
    | error e => rfl
    | ok bytes =>
      dsimp only [bind, Except.bind]
      cases (h.lock bytes).mapError SecretError.secureMemory <;> rfl
  simp only [resolveSecrets, fill, hstep]

theorem toEnvPairs_eq_visit (h : SecretHost) (m : SecretMap) :
    m.toEnvPairs h = visit (readSecret h) (h.iterate m) := by
  rw [SecretMap.toEnvPairs, visit]
  congr 1
  funext e
  obtain ⟨env, buf⟩ := e
  dsimp only [readSecret]
  cases (h.unlock buf).mapError SecretError.secureMemory with
  | error e => rfl
  | ok bytes =>
    dsimp only [bind, Except.bind]
    cases fromUtf8 bytes <;> rfl

/-- A stored secret is read as its text. -/
theorem readSecret_of_store (hh : h.Faithful) {r : SecretRef} {buf : List UInt8}
    (hstore : storeSecret h root r = .ok buf) (env : String) :
    (readSecret h env buf).toOption = secretText h root r := by
  obtain ⟨bytes, hload, hlock⟩ := except_bind_eq_ok hstore
  obtain ⟨buf', hlock', hunlock⟩ := hh.lock_unlock bytes
  obtain rfl : buf' = buf := by
    rw [hlock'] at hlock
    exact Except.ok.inj hlock
  rw [readSecret, secretText, hload, hunlock]
  cases hs : fromUtf8 bytes <;> simp [Except.mapError, Except.toOption, bind, Except.bind, hs, pure,
    Except.pure, throw, throwThe, MonadExceptOf.throw]

theorem storeSecret_ok_iff (hh : h.Faithful) (r : SecretRef) :
    (∃ buf, storeSecret h root r = .ok buf) ↔
      ∃ bytes, loadSecretBytes h r.source root = .ok bytes := by
  constructor
  · rintro ⟨buf, hstore⟩
    obtain ⟨bytes, hload, -⟩ := except_bind_eq_ok hstore
    exact ⟨bytes, hload⟩
  · rintro ⟨bytes, hload⟩
    obtain ⟨buf, hlock, -⟩ := hh.lock_unlock bytes
    refine ⟨buf, ?_⟩
    rw [storeSecret, hload]
    dsimp only [bind, Except.bind]
    rw [hlock]
    rfl

theorem nodup_resolveSecrets {m : SecretMap} (hm : resolveSecrets h refs root = .ok m) :
    (m.map Prod.fst).Nodup := by
  rw [resolveSecrets_eq_fill] at hm
  exact nodup_fill (by simp) hm

/-- The map holds, for each name, what its last reference stores. -/
theorem lookup_resolveSecrets {m : SecretMap} (hm : resolveSecrets h refs root = .ok m)
    (env : String) :
    m.lookup env = (lastOf SecretRef.env refs env).bind fun r => (storeSecret h root r).toOption := by
  rw [resolveSecrets_eq_fill] at hm
  rw [lookup_fill hm, List.lookup_nil, Option.or_none]

theorem resolveSecrets_ok_iff (hh : h.Faithful) :
    (∃ m, resolveSecrets h refs root = .ok m) ↔
      ∀ r ∈ refs, ∃ bytes, loadSecretBytes h r.source root = .ok bytes := by
  rw [resolveSecrets_eq_fill, fill_ok_iff]
  exact forall₂_congr fun r _ => storeSecret_ok_iff hh r

/-- What the pairs bind, whatever the walk of the map was. -/
theorem lookup_secretPairs (hh : h.Faithful) {pairs : List (String × String)}
    (hpairs : secretPairs h refs root = .ok pairs) :
    (pairs.map Prod.fst).Nodup ∧
    ∀ env, pairs.lookup env = (lastOf SecretRef.env refs env).bind (secretText h root) := by
  obtain ⟨m, hm, hvisit⟩ := except_bind_eq_ok hpairs
  rw [toEnvPairs_eq_visit] at hvisit
  have hnodup := nodup_resolveSecrets hm
  have hiterate : ((h.iterate m).map Prod.fst).Nodup :=
    ((hh.iterate m).map Prod.fst).nodup_iff.mpr hnodup
  refine ⟨?_, fun env => ?_⟩
  · rw [keys_visit hvisit]
    exact hiterate
  · rw [lookup_visit hvisit, lookup_perm (hh.iterate m) hiterate, lookup_resolveSecrets hm]
    cases hlast : lastOf SecretRef.env refs env with
    | none => rfl
    | some r =>
      obtain ⟨bytes, hload⟩ := (resolveSecrets_ok_iff hh).mp ⟨m, hm⟩ r (mem_of_lastOf hlast).1
      obtain ⟨buf, hstore⟩ := (storeSecret_ok_iff hh r).mpr ⟨bytes, hload⟩
      rw [Option.bind_some, Option.bind_some, hstore]
      exact readSecret_of_store hh hstore env

/-- An entry of the map is what the last reference to its name stores. -/
theorem exists_lastOf_of_mem {m : SecretMap} (hm : resolveSecrets h refs root = .ok m)
    {e : String × List UInt8} (he : e ∈ m) :
    ∃ r, lastOf SecretRef.env refs e.1 = some r ∧ storeSecret h root r = .ok e.2 := by
  have hlookup := (lookup_eq_some_iff_mem (nodup_resolveSecrets hm)).mpr he
  rw [lookup_resolveSecrets hm, Option.bind_eq_some_iff] at hlookup
  obtain ⟨r, hlast, hstore⟩ := hlookup
  refine ⟨r, hlast, ?_⟩
  cases hr : storeSecret h root r with
  | error err =>
    rw [hr] at hstore
    cases hstore
  | ok buf =>
    rw [hr] at hstore
    rw [Option.some.inj hstore]

/-- **Resolution succeeds exactly when it can**: every source loads, and every value that is
    kept is text.  A value that a later reference replaces may be anything. -/
theorem secretPairs_ok_iff (hh : h.Faithful) :
    (∃ pairs, secretPairs h refs root = .ok pairs) ↔ SecretsReadable h root refs := by
  constructor
  · rintro ⟨pairs, hpairs⟩
    obtain ⟨m, hm, hvisit⟩ := except_bind_eq_ok hpairs
    have hload := (resolveSecrets_ok_iff hh).mp ⟨m, hm⟩
    rw [toEnvPairs_eq_visit] at hvisit
    refine ⟨hload, fun env r hlast => ?_⟩
    obtain ⟨buf, hstore⟩ := (storeSecret_ok_iff hh r).mpr (hload r (mem_of_lastOf hlast).1)
    have hlookup : m.lookup env = some buf := by
      rw [lookup_resolveSecrets hm, hlast, Option.bind_some, hstore]
      rfl
    have hentry : (env, buf) ∈ h.iterate m :=
      (hh.iterate m).mem_iff.mpr ((lookup_eq_some_iff_mem (nodup_resolveSecrets hm)).mp hlookup)
    obtain ⟨s, hs⟩ := (visit_ok_iff _).mp ⟨pairs, hvisit⟩ _ hentry
    rw [← readSecret_of_store hh hstore env, hs]
    rfl
  · rintro ⟨hload, htext⟩
    obtain ⟨m, hm⟩ := (resolveSecrets_ok_iff hh).mpr hload
    have hread : ∀ e ∈ h.iterate m, ∃ s, readSecret h e.1 e.2 = .ok s := by
      intro e he
      obtain ⟨r, hlast, hstore⟩ := exists_lastOf_of_mem hm ((hh.iterate m).mem_iff.mp he)
      have hsome := htext e.1 r hlast
      rw [← readSecret_of_store hh hstore e.1] at hsome
      cases hs : readSecret h e.1 e.2 with
      | error err =>
        rw [hs] at hsome
        cases hsome
      | ok s => exact ⟨s, rfl⟩
    obtain ⟨pairs, hpairs⟩ := (visit_ok_iff _).mpr hread
    refine ⟨pairs, ?_⟩
    rw [secretPairs, hm]
    exact (toEnvPairs_eq_visit h m).trans hpairs

end Resolving

/-! ## What the container reads -/

/-- An environment token: the name up to the first `=`, the value after it. -/
def splitVar (token : String) : String × String :=
  (String.ofList (token.toList.takeWhile (· != '=')),
    String.ofList ((token.toList.dropWhile (· != '=')).drop 1))

/-- The environment of a container; a later token overrides an earlier one. -/
def containerEnv (tokens : List String) (name : String) : Option String :=
  (tokens.map splitVar).reverse.lookup name

theorem splitVar_append {k : String} (hk : '=' ∉ k.toList) (v : String) :
    splitVar (k ++ "=" ++ v) = (k, v) := by
  have hlist : (k ++ "=" ++ v).toList = k.toList ++ '=' :: v.toList := by simp
  have hkeep : ∀ c ∈ k.toList, (c != '=') = true :=
    fun c hc => bne_iff_ne.mpr fun heq => hk (heq ▸ hc)
  rw [splitVar, hlist, List.takeWhile_append_of_pos hkeep, List.dropWhile_append_of_pos hkeep]
  simp

/-- No name of a container holds an `=`. -/
theorem containerEnv_of_mem {name : String} (hname : '=' ∈ name.toList) (tokens : List String) :
    containerEnv tokens name = none := by
  apply lookup_eq_none_of_not_mem
  intro hin
  simp only [List.mem_map, List.mem_reverse] at hin
  obtain ⟨e, ⟨token, -, rfl⟩, rfl⟩ := hin
  rw [splitVar, String.toList_ofList] at hname
  have hne := List.mem_takeWhile_imp hname
  simp at hne

namespace PodmanMechanism

/-- The values of `-e` on a command line, which ends with the image and the command. -/
def envTokens (req : CreateRequest) (args : List String) : Option (List String) :=
  match args with
  | [] => none
  | _ :: rest =>
    match allowlistGrammar.read (rest.take (rest.length - (commandArgs req).length - 1)) with
    | some (options, []) => some (options.filterMap (·.valueFor "-e"))
    | _ => none

/-- The pairs of a request are the values of `-e`, in every network mode. -/
theorem envTokens_buildRunArgs (m : PodmanMechanism) (h : MechHost) (req : CreateRequest)
    (name : String) (detach : Bool) {mem : ℕ} (hmem : req.policy.resources.memoryBytes = .ok mem) :
    ∃ args, m.buildRunArgs h req name detach = .ok args ∧
      envTokens req args = some (envValues req) := by
  refine ⟨_, buildRunArgs_of_memoryBytes hmem, ?_⟩
  have hknows : ∀ o ∈ runOptions h req name detach mem, allowlistGrammar.Knows o :=
    knows_runOptions h req name detach mem rfl rfl (by decide) fun _ => by decide
  have hpositional : ArgGrammar.Positional [] := by
    intro t ht
    cases ht
  have hread := ArgGrammar.read_append hknows hpositional
  rw [List.append_nil] at hread
  have henv : (runOptions h req name detach mem).filterMap (·.valueFor "-e") = envValues req :=
    congrArg RunLine.env (ofOptions_runOptions m h req name detach mem)
  rw [optionArgs_eq, List.cons_append, envTokens]
  simp only [List.length_append, List.length_cons]
  have hlength : ((runOptions h req name detach mem).flatMap ArgOption.tokens).length +
      ((commandArgs req).length + 1) - (commandArgs req).length - 1 =
      ((runOptions h req name detach mem).flatMap ArgOption.tokens).length := by
    omega
  rw [hlength, List.take_left, hread]
  exact congrArg some henv

end PodmanMechanism

theorem containerEnv_envValues {req : CreateRequest} (hnames : ∀ e ∈ req.env, '=' ∉ e.1.toList)
    (hkeys : (req.env.map Prod.fst).Nodup) (name : String) :
    containerEnv (PodmanMechanism.envValues req) name = req.env.lookup name := by
  have hsplit : (PodmanMechanism.envValues req).map splitVar = req.env := by
    rw [PodmanMechanism.envValues, List.map_map]
    refine (List.map_congr_left fun e he => ?_).trans (List.map_id _)
    exact splitVar_append (hnames e he) e.2
  rw [containerEnv, hsplit, lookup_reverse hkeys]

/-! ## Secrets under their own names -/

/-- The secrets of a request reach the container under their own names: they resolve exactly
    when they are readable, and the container then binds the names of the list, each to the text
    of its last reference, and no other name. -/
structure SecretsReach (h : SecretHost) (root : PathBuf) (m : PodmanMechanism) (host : MechHost)
    (req : CreateRequest) (name : String) (detach : Bool) : Prop where
  resolves : (∃ pairs, secretPairs h req.policy.secrets root = .ok pairs) ↔
    SecretsReadable h root req.policy.secrets
  binds : ∀ pairs, secretPairs h req.policy.secrets root = .ok pairs →
    ∃ args tokens, m.buildRunArgs host { req with env := pairs } name detach = .ok args ∧
      PodmanMechanism.envTokens req args = some tokens ∧
      ∀ env, containerEnv tokens env =
        (lastOf SecretRef.env req.policy.secrets env).bind (secretText h root)

/-- A name with an `=` never arrives. -/
theorem SecretsReach.eq_not_mem {h : SecretHost} {root : PathBuf} {m : PodmanMechanism}
    {host : MechHost} {req : CreateRequest} {name : String} {detach : Bool}
    (hreach : SecretsReach h root m host req name detach)
    (hreadable : SecretsReadable h root req.policy.secrets) :
    ∀ r ∈ req.policy.secrets, '=' ∉ r.env.toList := by
  intro r hr heq
  obtain ⟨pairs, hpairs⟩ := hreach.resolves.mpr hreadable
  obtain ⟨args, tokens, -, -, hbinds⟩ := hreach.binds pairs hpairs
  obtain ⟨r', hlast⟩ : ∃ r', lastOf SecretRef.env req.policy.secrets r.env = some r' :=
    exists_lastOf hr
  have hbound := hbinds r.env
  have hsome := hreadable.2 r.env r' hlast
  rw [containerEnv_of_mem heq, hlast, Option.bind_some] at hbound
  rw [← hbound] at hsome
  cases hsome

/-- **Secrets reach the container under their own names exactly when no name holds an `=`**, in
    every network mode and for every image; secrets that cannot be read start nothing. -/
theorem secretsReach_iff {h : SecretHost} (hh : h.Faithful) (root : PathBuf) (m : PodmanMechanism)
    (host : MechHost) (req : CreateRequest) (name : String) (detach : Bool)
    (hvalid : req.policy.validate = .ok ()) :
    SecretsReach h root m host req name detach ↔
      (SecretsReadable h root req.policy.secrets →
        ∀ r ∈ req.policy.secrets, '=' ∉ r.env.toList) := by
  refine ⟨fun hreach => hreach.eq_not_mem, fun hnames => ⟨secretPairs_ok_iff hh, ?_⟩⟩
  intro pairs hpairs
  have hnames' := hnames ((secretPairs_ok_iff hh).mp ⟨pairs, hpairs⟩)
  obtain ⟨hkeys, hlookup⟩ := lookup_secretPairs hh hpairs
  obtain ⟨-, -, ⟨mem, hmem⟩, -, -⟩ := SandboxPolicy.validate_eq_ok_iff.mp hvalid
  have hmem' : ({ req with env := pairs } : CreateRequest).policy.resources.memoryBytes = .ok mem :=
    hmem
  obtain ⟨args, hargs, htokens⟩ := m.envTokens_buildRunArgs host { req with env := pairs } name
    detach hmem'
  refine ⟨args, _, hargs, htokens, fun env => ?_⟩
  have hplain : ∀ e ∈ pairs, '=' ∉ e.1.toList := by
    intro e he
    have hentry := (lookup_eq_some_iff_mem hkeys).mpr he
    rw [hlookup, Option.bind_eq_some_iff] at hentry
    obtain ⟨r, hlast, -⟩ := hentry
    obtain ⟨hr, hname⟩ := mem_of_lastOf hlast
    rw [← hname]
    exact hnames' r hr
  exact (containerEnv_envValues hplain hkeys env).trans (hlookup env)

/-- A host with no variable and no file, whose map is walked from its end. -/
def literalHost : SecretHost where
  var := fun _ => none
  readFile := fun _ => .error "No such file or directory (os error 2)"
  lock := .ok
  unlock := .ok
  iterate := List.reverse

theorem faithful_literalHost : literalHost.Faithful where
  lock_unlock := fun bytes => ⟨bytes, rfl, rfl⟩
  iterate := List.reverse_perm

def secretRequest (secrets : List SecretRef) : CreateRequest where
  name := "r"
  policy := { secrets := secrets }
  workdir := osString "/w"
  ephemeral := true
  command := ["env"]
  env := []

theorem secretsReach_of_plain_names :
    SecretsReach literalHost (osString "/w") {} quietHost
      (secretRequest [⟨"TOKEN", "value:a"⟩, ⟨"KEY", "value:b=c"⟩, ⟨"TOKEN", "value:d"⟩]) "r" false :=
  (secretsReach_iff faithful_literalHost (osString "/w") {} quietHost _ "r" false
    (by decide)).mpr fun _ => by decide

/-- A secret for `A=B` sets the variable `A` instead. -/
theorem secrets_not_always_reach :
    (secretRequest [⟨"A=B", "value:v"⟩]).policy.validate = .ok () ∧
    ¬ SecretsReach literalHost (osString "/w") {} quietHost (secretRequest [⟨"A=B", "value:v"⟩])
      "r" false := by
  refine ⟨by decide, fun hreach => ?_⟩
  have hreadable : SecretsReadable literalHost (osString "/w")
      (secretRequest [⟨"A=B", "value:v"⟩]).policy.secrets := by
    refine (secretPairs_ok_iff faithful_literalHost).mp ⟨[("A=B", "v")], ?_⟩
    decide
  exact hreach.eq_not_mem hreadable ⟨"A=B", "value:v"⟩ (by decide) (by decide)

end SimpleSandbox
