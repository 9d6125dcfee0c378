import SimpleSandbox.PodmanLine
import SimpleSandbox.RunExec
import SimpleSandbox.SecretEnv

/-!
# The environment of sandboxed programs

Both mechanisms give a program the secrets of its policy and, in the allowlist mode, five settings
that point it at the proxy: podman as `-e` tokens of one command line, the mac mechanism as pairs
of the spawned child.  Of two settings of one variable the later one holds in both, so the proxy
wins over a secret of its name, and the two mechanisms differ only in the host they write.
-/

namespace SimpleSandbox

open RustText OsPath KeyedList PodmanMechanism

/-! ## Proxy settings -/

/-- The settings that point a program at the proxy, which it finds under this host. -/
def proxySettings (host port : String) : List (String × String) :=
  let url := "http://" ++ host ++ ":" ++ port
  [("HTTP_PROXY", url), ("HTTPS_PROXY", url), ("http_proxy", url), ("https_proxy", url),
   ("NO_PROXY", "localhost,127.0.0.1")]

/-- The settings of a request. -/
def Prepared.settings (p : Prepared) (host : String) : List (String × String) :=
  match p.request.policy.network.mode, p.proxyPort with
  | .allowlist, some port => proxySettings host port
  | _, _ => []

/-- The variables that hold the address of the proxy. -/
def urlVars : List String := ["HTTP_PROXY", "HTTPS_PROXY", "http_proxy", "https_proxy"]

theorem nodup_proxySettings (host port : String) :
    ((proxySettings host port).map Prod.fst).Nodup := by
  rw [proxySettings]
  simp

theorem nodup_settings (p : Prepared) (host : String) :
    ((p.settings host).map Prod.fst).Nodup := by
  unfold Prepared.settings
  split
  · exact nodup_proxySettings host _
  · exact List.nodup_nil

/-- Only the address depends on the host. -/
theorem lookup_settings_host (p : Prepared) (host host' : String) {v : String} (hv : v ∉ urlVars) :
    (p.settings host).lookup v = (p.settings host').lookup v := by
  unfold Prepared.settings
  split
  · simp only [urlVars, List.mem_cons, List.not_mem_nil, or_false, not_or] at hv
    simp only [proxySettings, lookup_cons_eq, hv.1, hv.2.1, hv.2.2.1, hv.2.2.2, if_false]
  · rfl

/-- What a variable is bound to: the setting of the proxy, or else the text of the last secret with
    its name. -/
def Prepared.bound (p : Prepared) (h : SecretHost) (root : PathBuf) (host v : String) :
    Option String :=
  ((p.settings host).lookup v).or
    ((lastOf SecretRef.env p.request.policy.secrets v).bind (secretText h root))

/-! ## The mechanisms -/

theorem proxyEnv_settings (M : Machine) (env : ProcessEnv) (p : Prepared) :
    MacMechanism.proxyEnv (env.mechHost M p.proxyPort) p.request.policy = p.settings "127.0.0.1" := by
  unfold MacMechanism.proxyEnv Prepared.settings
  cases p.request.policy.network.mode <;> cases p.proxyPort <;> rfl

/-- The value of a variable among the settings. -/
def proxyValue (url v : String) : String × String :=
  (v, if v = "NO_PROXY" then "localhost,127.0.0.1" else url)

/-- The settings behind `-e` are those for the host that stands for the gateway. -/
theorem splitVar_proxyValues {M : Machine} {env : ProcessEnv} {p : Prepared}
    (hmode : p.request.policy.network.mode = .allowlist) :
    ((proxyValues (env.mechHost M p.proxyPort)).map splitVar).Perm
      (p.settings "host.docker.internal") := by
  have hport : (env.mechHost M p.proxyPort).proxyPort = p.proxyPort := rfl
  rw [proxyValues, Prepared.settings, hmode, hport]
  cases p.proxyPort with
  | none => exact List.Perm.refl _
  | some port =>
    have hsplit : ∀ k : String, '=' ∉ k.toList → ∀ value,
        splitVar ((k ++ "=") ++ value) = (k, value) := fun k hk value => splitVar_append hk value
    have hurl : "http://" ++ "host.docker.internal" ++ ":" ++ port =
        "http://host.docker.internal:" ++ port := by
      rw [show ("http://" ++ "host.docker.internal" ++ ":" : String) =
        "http://host.docker.internal:" by decide]
    have htokens : (["NO_PROXY", "http_proxy", "https_proxy", "HTTP_PROXY", "HTTPS_PROXY"].map
        (proxyValue ("http://host.docker.internal:" ++ port))) =
        ["NO_PROXY=localhost,127.0.0.1", "http_proxy=" ++ ("http://host.docker.internal:" ++ port),
          "https_proxy=" ++ ("http://host.docker.internal:" ++ port),
          "HTTP_PROXY=" ++ ("http://host.docker.internal:" ++ port),
          "HTTPS_PROXY=" ++ ("http://host.docker.internal:" ++ port)].map splitVar := by
      have hno := hsplit "NO_PROXY" (by decide) "localhost,127.0.0.1"
      have hl := hsplit "http_proxy" (by decide) ("http://host.docker.internal:" ++ port)
      have hls := hsplit "https_proxy" (by decide) ("http://host.docker.internal:" ++ port)
      have hu := hsplit "HTTP_PROXY" (by decide) ("http://host.docker.internal:" ++ port)
      have hus := hsplit "HTTPS_PROXY" (by decide) ("http://host.docker.internal:" ++ port)
      rw [show ("NO_PROXY" ++ "=" ++ "localhost,127.0.0.1" : String) =
        "NO_PROXY=localhost,127.0.0.1" by decide] at hno
      rw [show ("http_proxy" ++ "=" : String) = "http_proxy=" by decide] at hl
      rw [show ("https_proxy" ++ "=" : String) = "https_proxy=" by decide] at hls
      rw [show ("HTTP_PROXY" ++ "=" : String) = "HTTP_PROXY=" by decide] at hu
      rw [show ("HTTPS_PROXY" ++ "=" : String) = "HTTPS_PROXY=" by decide] at hus
      simp [proxyValue, hno, hl, hls, hu, hus]
    have hsettings : proxySettings "host.docker.internal" port =
        ["HTTP_PROXY", "HTTPS_PROXY", "http_proxy", "https_proxy", "NO_PROXY"].map
          (proxyValue ("http://host.docker.internal:" ++ port)) := by
      rw [proxySettings, hurl]
      simp [proxyValue]
    dsimp only
    rw [hsettings, ← htokens]
    exact List.Perm.map _ (by decide)

/-- What the container of a request reads of its command line. -/
theorem containerEnv_createLine {M : Machine} {env : ProcessEnv} {p : Prepared} {mem : ℕ}
    (hnames : ∀ e ∈ p.request.env, '=' ∉ e.1.toList) (hkeys : (p.request.env.map Prod.fst).Nodup)
    (v : String) :
    containerEnv (createLine (env.mechHost M p.proxyPort) p.request mem).env v =
      ((p.settings "host.docker.internal").lookup v).or (p.request.env.lookup v) := by
  unfold createLine
  by_cases hmode : p.request.policy.network.mode = .allowlist
  · rw [if_pos hmode]
    change containerEnv (envValues p.request ++ proxyValues (env.mechHost M p.proxyPort)) v = _
    have hsettings : ((proxyValues (env.mechHost M p.proxyPort)).map splitVar).Perm _ :=
      splitVar_proxyValues hmode
    have hnodup : (((proxyValues (env.mechHost M p.proxyPort)).map splitVar).map Prod.fst).Nodup :=
      (hsettings.map Prod.fst).nodup_iff.mpr (nodup_settings p _)
    rw [containerEnv, List.map_append, List.reverse_append, List.lookup_append,
      lookup_reverse hnodup, lookup_perm hsettings hnodup]
    exact congrArg _ (containerEnv_envValues hnames hkeys v)
  · rw [if_neg hmode]
    have hnone : p.settings "host.docker.internal" = [] := by
      unfold Prepared.settings
      split
      · rename_i hallow _
        exact absurd hallow hmode
      · rfl
    rw [hnone, List.lookup_nil, Option.none_or]
    exact containerEnv_envValues hnames hkeys v

/-- The pairs of a prepared request are the secrets of its policy. -/
theorem secretPairs_of_prepare {M : Machine} {env : ProcessEnv} {name : String} {args : PolicyArgs}
    {choose : MechanismKind → MechanismKind} {ephemeral : Bool} {command : List String}
    {p : Prepared} (h : prepare M env name args choose ephemeral command = .ok p) :
    ∃ root, env.secretDir = .ok root ∧
      secretPairs env.secretHost p.request.policy.secrets root = .ok p.request.env := by
  obtain ⟨loaded, -, hp⟩ := from_of_prepare h
  obtain ⟨root, secrets, hroot, hresolve, hpairs⟩ := hp.secrets
  refine ⟨root, hroot, ?_⟩
  rw [secretPairs, hp.policy]
  change (resolveSecrets env.secretHost loaded.secrets root >>= _) = _
  rw [hresolve]
  exact hpairs

/-- Plain names stay plain. -/
theorem plain_of_secretPairs {h : SecretHost} (hh : h.Faithful) {refs : List SecretRef}
    {root : PathBuf} {pairs : List (String × String)} (hpairs : secretPairs h refs root = .ok pairs)
    (hnames : ∀ r ∈ refs, '=' ∉ r.env.toList) : ∀ e ∈ pairs, '=' ∉ e.1.toList := by
  obtain ⟨hkeys, hlookup⟩ := lookup_secretPairs hh hpairs
  intro e he
  have hentry := (lookup_eq_some_iff_mem hkeys).mpr he
  rw [hlookup, Option.bind_eq_some_iff] at hentry
  obtain ⟨r, hlast, -⟩ := hentry
  obtain ⟨hr, hname⟩ := mem_of_lastOf hlast
  rw [← hname]
  exact hnames r hr

/-- The environments of a request: the container's, read from the command line, and that of the
    spawned child. -/
structure EnvironmentsBound (M : Machine) (env : ProcessEnv) (p : Prepared) (root : PathBuf) :
    Prop where
  podman : ∀ argv, createArgs {} (env.mechHost M p.proxyPort) p.request = .ok argv →
    ∃ line, RunLine.decode allowlistGrammar argv = some line ∧ ∀ v,
      containerEnv line.env v = p.bound env.secretHost root "host.docker.internal" v
  mac : ∀ w c, (M.mac.create (env.mechHost M p.proxyPort) p.request w).2.children =
      w.children ++ [c] →
    ∀ v, c.env.reverse.lookup v = p.bound env.secretHost root "127.0.0.1" v
  alike : ∀ v, v ∉ urlVars → p.bound env.secretHost root "host.docker.internal" v =
    p.bound env.secretHost root "127.0.0.1" v

/-- **Both mechanisms set the same environment.**  For every command line that prepares a run of a
    program, with secrets under plain names, the container and the spawned child bind each variable
    to the setting of the proxy, or else to the last secret of its name, and no other variable;
    they differ only in the address of the proxy. -/
theorem environments_bound (M : Machine) (env : ProcessEnv) (name : String) (args : PolicyArgs)
    (choose : MechanismKind → MechanismKind) (command : List String) (p : Prepared)
    (hprep : prepare M env name args choose true command = .ok p)
    (hfaithful : env.secretHost.Faithful)
    (hnames : ∀ r ∈ p.request.policy.secrets, '=' ∉ r.env.toList) :
    ∃ root, env.secretDir = .ok root ∧ EnvironmentsBound M env p root := by
  obtain ⟨root, hroot, hpairs⟩ := secretPairs_of_prepare hprep
  have hplain := plain_of_secretPairs hfaithful hpairs hnames
  obtain ⟨hkeys, hlookup⟩ := lookup_secretPairs hfaithful hpairs
  refine ⟨root, hroot, fun argv hargv => ?_, fun w c hchild v => ?_, fun v hv => ?_⟩
  · obtain ⟨mem, -, hline⟩ := decode_createArgs hargv
    refine ⟨_, hline, fun v => ?_⟩
    rw [containerEnv_createLine hplain hkeys, hlookup, Prepared.bound]
  · have hephemeral : p.request.ephemeral = true := (prepare_eq_ok hprep).2.1
    rcases M.mac.create_ephemeral_cases (h := env.mechHost M p.proxyPort) hephemeral w with
      ⟨e, hrun⟩ | ⟨c', -, -, -, henv, hrun, -⟩
    · rw [hrun] at hchild
      exact absurd hchild (RunExec.ne_append_singleton _ _)
    · rw [hrun] at hchild
      obtain rfl := RunExec.append_singleton_inj hchild
      rw [henv, proxyEnv_settings, List.reverse_append, List.lookup_append,
        lookup_reverse (nodup_settings p _), lookup_reverse hkeys, hlookup, Prepared.bound]
  · rw [Prepared.bound, Prepared.bound, lookup_settings_host p _ "127.0.0.1" hv]

/-- A policy with an allowlist, and with a secret that has the name of a proxy variable. -/
def proxiedPolicy : SandboxPolicy where
  network := { mode := .allowlist, endpoints := [{ host := "example.com" }] }
  secrets := [⟨"TOKEN", "value:a"⟩, ⟨"HTTP_PROXY", "value:b"⟩]
  mechanism := some .mac

/-- What `run --policy` prepares of it. -/
def proxiedRun : Prepared where
  kind := .mac
  proxyPort := some "40000"
  request := {
    name := "r", policy := proxiedPolicy, workdir := osString "/w", ephemeral := true
    command := ["env"], env := [("TOKEN", "a"), ("HTTP_PROXY", "b")] }

/-- The proxy wins over the secret. -/
theorem environments_bound_proxied :
    EnvironmentsBound smallMachine (smallEnv "u") proxiedRun (osString "/w") ∧
      proxiedRun.bound (smallEnv "u").secretHost (osString "/w") "127.0.0.1" "HTTP_PROXY" =
        some "http://127.0.0.1:40000" ∧
      proxiedRun.bound (smallEnv "u").secretHost (osString "/w") "127.0.0.1" "TOKEN" =
        some "a" := by
  have hfaithful : (smallEnv "u").secretHost.Faithful :=
    ⟨fun bytes => ⟨bytes, rfl, rfl⟩, fun m => List.Perm.refl m⟩
  have hprep : prepare smallMachine (smallEnv "u") "r" { file := some (.ok proxiedPolicy) } id true
      ["env"] = .ok proxiedRun := by
    rfl
  obtain ⟨root, hroot, hbound⟩ := environments_bound smallMachine (smallEnv "u") "r" _ id ["env"]
    proxiedRun hprep hfaithful (by decide)
  obtain rfl := Except.ok.inj hroot
  exact ⟨hbound, by decide +kernel, by decide +kernel⟩

end SimpleSandbox
