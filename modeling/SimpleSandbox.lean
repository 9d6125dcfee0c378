import SimpleSandbox.RustText
import SimpleSandbox.OsPath
import SimpleSandbox.Effect
import SimpleSandbox.FileSystem
import SimpleSandbox.Binary64
import SimpleSandbox.ShortestDecimal
import SimpleSandbox.Policy
import SimpleSandbox.State
import SimpleSandbox.World
import SimpleSandbox.Store
import SimpleSandbox.Secrets
import SimpleSandbox.Mechanism
import SimpleSandbox.Seatbelt
import SimpleSandbox.MacMechanism
import SimpleSandbox.PodmanMechanism
import SimpleSandbox.Cli
import SimpleSandbox.PodmanAllowlist
import SimpleSandbox.SExpr
import SimpleSandbox.SeatbeltReader
import SimpleSandbox.ChunkReader
import SimpleSandbox.Proxy
import SimpleSandbox.ProxyHead
import SimpleSandbox.Tunnel
import SimpleSandbox.Runs
import SimpleSandbox.SharedCell
import SimpleSandbox.Index
import SimpleSandbox.Journal
import SimpleSandbox.StoreSpec
import SimpleSandbox.Concurrent
import SimpleSandbox.CommandSpec
import SimpleSandbox.CommandRuns
import SimpleSandbox.NameKeys
import SimpleSandbox.Confinement
import SimpleSandbox.Interference
import SimpleSandbox.FilePlan
import SimpleSandbox.CreatePlan
import SimpleSandbox.FailedCreate
import SimpleSandbox.Runtimes
import SimpleSandbox.Orphans
import SimpleSandbox.LastUsed
import SimpleSandbox.StoreAtomic
import SimpleSandbox.ArgGrammar
import SimpleSandbox.PodmanArgs
import SimpleSandbox.Preflight
import SimpleSandbox.BindMounts
import SimpleSandbox.RuleList
import SimpleSandbox.SeatbeltRules
import SimpleSandbox.ReadOnly
import SimpleSandbox.PolicyHash
import SimpleSandbox.RunExec
import SimpleSandbox.KeyedList
import SimpleSandbox.SecretEnv
import SimpleSandbox.DryRun
import SimpleSandbox.SizeGrammar
import SimpleSandbox.Listing
import SimpleSandbox.TaskPool
import SimpleSandbox.ProxyClient
import SimpleSandbox.ProxyServer
import SimpleSandbox.Provenance
import SimpleSandbox.Rlimits
import SimpleSandbox.Instances
import SimpleSandbox.Containers
import SimpleSandbox.Entries
import SimpleSandbox.Environment
import SimpleSandbox.Doctor
import SimpleSandbox.Coupling
import SimpleSandbox.SecretFlow
import SimpleSandbox.Grants
import SimpleSandbox.Containment
import SimpleSandbox.Registry
import SimpleSandbox.Serving
import SimpleSandbox.FileSteps
import SimpleSandbox.Isolation
