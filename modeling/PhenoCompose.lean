import PhenoCompose.Core.Text
import PhenoCompose.Core.Utf8
import PhenoCompose.Core.Boundary
import PhenoCompose.Core.Path
import PhenoCompose.Core.Lexical
import PhenoCompose.Core.Stream
import PhenoCompose.Core.Process
import PhenoCompose.Core.Split
import PhenoCompose.Core.Collections
import PhenoCompose.Core.Topology
import PhenoCompose.Core.SmallestFirst
import PhenoCompose.Core.Json
import PhenoCompose.Core.JsonText
import PhenoCompose.Core.JsonOrder
import PhenoCompose.Core.Layers
import PhenoCompose.Core.Rendered
import PhenoCompose.Core.Transition
import PhenoCompose.Core.Interleave
import PhenoCompose.Core.CheckThenAct
import PhenoCompose.Core.RelyGuarantee
import PhenoCompose.Core.Linearize
import PhenoCompose.Core.Sessions
import PhenoCompose.Core.Crash
import PhenoCompose.Core.Sha256
import PhenoCompose.Manifest
import PhenoCompose.ServiceOrder
import PhenoCompose.OrderTieBreak
import PhenoCompose.Validate
import PhenoCompose.GpuSelector
import PhenoCompose.Gates
import PhenoCompose.Plan
import PhenoCompose.PlanDigest
import PhenoCompose.ServiceGraph
import PhenoCompose.Lifecycle
import PhenoCompose.LifecycleWire
import PhenoCompose.PlanExecution
import PhenoCompose.NoopRuntime
import PhenoCompose.PlanRace
import PhenoCompose.Evaluation
import PhenoCompose.BoundedString
import PhenoCompose.System
import PhenoCompose.Podman
import PhenoCompose.Store
import PhenoCompose.Apply
import PhenoCompose.ApplyResults
import PhenoCompose.ContainerMap
import PhenoCompose.Teardown
import PhenoCompose.TeardownRetry
import PhenoCompose.ActionClosure
import PhenoCompose.ActionGpus
import PhenoCompose.Action
import PhenoCompose.ActionResults
import PhenoCompose.OutputRoot
import PhenoCompose.Rejection
import PhenoCompose.NvmsClient
import PhenoCompose.Execute
import PhenoCompose.StoreLayout
import PhenoCompose.ActionRace
import PhenoCompose.PanicFree
import PhenoCompose.Export
import PhenoCompose.RunStore
import PhenoCompose.CommandLine
import PhenoCompose.LifecycleClient
import PhenoCompose.EvaluationClient
import PhenoCompose.StoreContract
import PhenoCompose.CommandRace
import PhenoCompose.ContainerLedger
import PhenoCompose.ApplyRace
import PhenoCompose.JobHistory
import PhenoCompose.ExportResults
import PhenoCompose.Secret
import PhenoCompose.FileStore
import PhenoCompose.FileStoreResults
import PhenoCompose.SecretVersions
import PhenoCompose.SharedStore
import PhenoCompose.SecretLives
import PhenoCompose.Oci
import PhenoCompose.OciBuild
import PhenoCompose.Instances
import PhenoCompose.Driver
import PhenoCompose.Config
