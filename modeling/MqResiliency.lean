import MqResiliency.Dr.Baseline
import MqResiliency.Dr.EndToEnd
import MqResiliency.Dr.Settled
import MqResiliency.Lab.TeardownLaw
import MqResiliency.Switch.PcmkLaw
import MqResiliency.Switch.PdrbdLaw
import MqResiliency.Switch.RdqmLaw
import MqResiliency.Lib.Conv
import MqResiliency.Lib.Yaml
import MqResiliency.Lab.Catalog
import MqResiliency.Lab.LoadCatalog
import MqResiliency.Lab.Fleet
import MqResiliency.Lab.CatalogLaw
import MqResiliency.Lab.LoadLaw
import MqResiliency.Lab.FleetLaw
import MqResiliency.Lab.BoxGc
import MqResiliency.Lab.BoxGcLaw
import MqResiliency.Lab.NodeLaw
import MqResiliency.Lab.UnreferencedLaw
import MqResiliency.Dr.Accounting
import MqResiliency.Dr.Leftovers
import MqResiliency.Dr.Framing
import MqResiliency.Lab.BootLaw
import MqResiliency.Lab.BoxBuild
import MqResiliency.Lab.BoxBuildLaw
import MqResiliency.Lab.Phases
import MqResiliency.Lab.PhasesLaw
import MqResiliency.Lib.Json
import MqResiliency.Lib.JsonLaw
import MqResiliency.Lib.Double
import MqResiliency.Dr.LedgerFile
import MqResiliency.Dr.LedgerFileLaw
import MqResiliency.Lab.Instances
import MqResiliency.Lab.InstancesLaw
import MqResiliency.Lab.ComponentInstall
import MqResiliency.Lab.ComponentInstallLaw
import MqResiliency.Lib.Exposition
import MqResiliency.Lib.FloatText
import MqResiliency.Lib.Xml
import MqResiliency.Obs.ClusterState
import MqResiliency.Obs.LogLifecycle
import MqResiliency.Obs.Collect
import MqResiliency.Obs.Families
import MqResiliency.Obs.FreshLaw
import MqResiliency.Obs.RaiseLaw
import MqResiliency.Obs.DegradedLaw
import MqResiliency.Obs.Blocks
import MqResiliency.Obs.SeriesLaw
import MqResiliency.Dr.Exposure
import MqResiliency.Dr.Forced
import MqResiliency.Dr.Grammar
import MqResiliency.Dr.Served
import MqResiliency.Lib.Outcome
import MqResiliency.Svc.Responder
import MqResiliency.Svc.Answered
import MqResiliency.Lib.JsonDump
import MqResiliency.Perf.Diff
import MqResiliency.Perf.DiffLaw
import MqResiliency.Lab.EnvProfile
import MqResiliency.Lab.EnvProfileLaw
import MqResiliency.Lab.EnvFrame
import MqResiliency.Lab.Component
import MqResiliency.Lab.ComponentLaw
import MqResiliency.Lab.BuildEnvLaw
import MqResiliency.Lib.Digits
import MqResiliency.Obs.LogLifecycleLaw
import MqResiliency.Obs.RdqmBanLaw
import MqResiliency.Bench.HistogramLaw
import MqResiliency.Lab.RunStepsLaw
import MqResiliency.Lab.QmCreateLaw
import MqResiliency.Obs.EventWrapperLaw
import MqResiliency.Bench.PhaseLaw
import MqResiliency.Obs.DrbdLaw
import MqResiliency.NativeHa.OnActiveLaw
import MqResiliency.Lab.WebProbeLaw
import MqResiliency.Dns.CnameLaw
import MqResiliency.Dns.BindLaw
import MqResiliency.Perf.ProcStat
import MqResiliency.Perf.TaskOutcomesLaw
import MqResiliency.Perf.SamplerLaw
import MqResiliency.Lab.GuestRuntimeLaw
import MqResiliency.Lab.BoxRegisterLaw
import MqResiliency.Lab.StageDepsLaw
import MqResiliency.Lab.HeartbeatLaw
import MqResiliency.Lab.ManifestHashLaw
import MqResiliency.Lab.InventoryLaw
import MqResiliency.Lab.HugepagesLaw
import MqResiliency.Lab.MqwebLaw
import MqResiliency.Lab.MqCacheLaw
