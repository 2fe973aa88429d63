import IpfsNode.Prog
import IpfsNode.Dag
import IpfsNode.Placement
import IpfsNode.PlaceCopy
import IpfsNode.RepairCycle
import IpfsNode.RepairCoverage
import IpfsNode.Lifecycle
import IpfsNode.ReplicaStage
import IpfsNode.Upload
import IpfsNode.Gc
import IpfsNode.Maintenance
import IpfsNode.Operations
import IpfsNode.Execution
import IpfsNode.GcRun
import IpfsNode.GcSafety
import IpfsNode.UploadRoute
import IpfsNode.Admission
import IpfsNode.UploadTransaction
import IpfsNode.RemoteCommit
import IpfsNode.Config
import IpfsNode.Demotion
import IpfsNode.KeyedLock
import IpfsNode.RegistryLock
import IpfsNode.StageOwnership
import IpfsNode.SharedStage
import IpfsNode.Transitions
import IpfsNode.Integrity
import IpfsNode.Coexistence
import IpfsNode.TaskSafety
import IpfsNode.DurableContent
import IpfsNode.PendingUploads
import IpfsNode.OperationLock
import IpfsNode.Reservation
import IpfsNode.IntakeBudget
import IpfsNode.RepairCycleDriver
import IpfsNode.RepairEvidence
import IpfsNode.Health
import IpfsNode.HealthCheckpoint
import IpfsNode.HealthClock
import IpfsNode.UploadSession
import IpfsNode.SessionCleanup
import IpfsNode.SettledSession
import IpfsNode.CollectionPass
import IpfsNode.CollectionRun
import IpfsNode.DryRun
import IpfsNode.Framing
import IpfsNode.WireProtocol
import IpfsNode.ReplicationReport
import IpfsNode.CollectionPlan
import IpfsNode.Loud
import IpfsNode.StageRollback
import IpfsNode.Atomicity
import IpfsNode.NestedLocks
import IpfsNode.AdmissionBalance
import IpfsNode.FailedRelease
import IpfsNode.RegistryStore
import IpfsNode.ValidRecords
import IpfsNode.AcceptedWrites
import IpfsNode.ReadableRecords
import IpfsNode.CollectorDecisions
import IpfsNode.Withdrawal
import IpfsNode.Cors
import IpfsNode.DownloadAdmission
import IpfsNode.DownloadDeadline
import IpfsNode.HealthReads
import IpfsNode.Meter
import IpfsNode.PartAccounting
import IpfsNode.SweepCycle
import IpfsNode.CorsOrigins
import IpfsNode.PeerRecovery
import IpfsNode.FileName
import IpfsNode.ImportWindow
import IpfsNode.AbortFinality
import IpfsNode.PinAgreement
import IpfsNode.AgreementRun
import IpfsNode.WireExchange
import IpfsNode.StageAnswer
import IpfsNode.WorkerPool
import IpfsNode.CallTrace
import IpfsNode.RepairPass
import IpfsNode.VerifiedCycle
import IpfsNode.CacheIntake
import IpfsNode.RepairCopy
