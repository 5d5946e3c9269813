import Rango.Oplog.TornTheorems
import Rango.Oplog.CompactionTheorems
import Rango.Core.RunTheorems
import Rango.Core.FailedRestoreTheorems
import Rango.Core.OwnLogTheorems
import Rango.Core.ReopenTheorems
import Rango.Server.DeliveryTheorems
import Rango.Server.IndexTheorems
import Rango.Server.RetryTheorems
import Rango.Server.CheckpointTheorems
import Rango.Server.ConcurrentPullTheorems
import Rango.Server.DuplicateTheorems
import Rango.Server.TrustTheorems
import Rango.Server.CrossTenantTheorems
import Rango.Server.PromotionTheorems
import Rango.Server.AuthenticityTheorems
import Rango.Server.AuditIdTheorems
import Rango.Sync.AckTheorems
import Rango.Sync.EnqueueTheorems
import Rango.Sync.DispatchTheorems
import Rango.Sync.CrashTheorems
import Rango.Cli.DoctorTheorems
import Rango.Sync.IntakeTheorems
import Rango.Sync.ScopeTheorems
import Rango.Sync.AgreementTheorems
import Rango.Storage.RedbTheorems
import Rango.Core.ProvenanceTheorems
import Rango.Core.ResolutionTheorems
import Rango.Core.RevisionTheorems
import Rango.Core.FrameTheorems
import Rango.Storage.KeyTheorems
import Rango.Storage.DegradingTheorems
import Rango.Query.OperatorTheorems
import Rango.Sdk.MigrateTheorems
import Rango.Query.MeaningTheorems
import Rango.Core.SortTheorems
import Rango.Core.IncrementTheorems
import Rango.Core.SizeTheorems
import Rango.Core.LostUpdateTheorems
import Rango.Index.ScanTheorems
import Rango.Oplog.KeptTheorems
import Rango.Server.RateTheorems
import Rango.Core.DriftTheorems
import Rango.Types.SpellingTheorems
import Rango.Server.ConcurrentIndexTheorems
import Rango.Server.HttpTheorems
import Rango.Core.BackendTheorems
import Rango.Core.GarbageTheorems
import Rango.Server.RetrievalTheorems
import Rango.Sync.FleetTheorems
import Rango.Sdk.BackupTheorems
import Rango.Cli.DoctorFrameTheorems
import Rango.Sync.ProgressTheorems
