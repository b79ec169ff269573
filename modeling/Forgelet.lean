import Forgelet.Scheduler.Proofs.RetryProofs
import Forgelet.Controller.Proofs.JobRunProofs
import Forgelet.Server.Proofs.SecretsProofs
import Forgelet.Postgres.Proofs.AggregateProofs
import Forgelet.Postgres.Proofs.AloneProofs
import Forgelet.Postgres.Proofs.CreateOrGetProofs
import Forgelet.Store.Proofs.OpenAttemptProofs
import Forgelet.Store.Proofs.RunStatusProofs
import Forgelet.Postgres.Proofs.GateProofs
import Forgelet.Server.Proofs.DefaultConditionProofs
import Forgelet.Server.Proofs.LatestProofs
import Forgelet.Server.Proofs.ScheduledJobsProofs
import Forgelet.Scheduler.Proofs.IsolationProofs
import Forgelet.Executor.Proofs.HandlerProofs
import Forgelet.Executor.Proofs.OutputProofs
import Forgelet.Executor.Proofs.ReportProofs
import Forgelet.Report.Proofs.GithubProofs
import Forgelet.Security.Proofs.TokenReviewProofs
import Forgelet.Server.Proofs.ChecksProofs
import Forgelet.Server.Proofs.TrustProofs
import Forgelet.Server.Proofs.InternalApiProofs
import Forgelet.Server.Proofs.SweepProofs
import Forgelet.Workflow.Proofs.KeysProofs
import Forgelet.Executor.Proofs.CompositeProofs
import Forgelet.Security.Proofs.RotationProofs
import Forgelet.Storage.Proofs.S3Proofs
import Forgelet.Store.Proofs.ReplayProofs
import Forgelet.Expression.Proofs.CompareProofs
import Forgelet.Expression.Proofs.OrderProofs
import Forgelet.Expression.Proofs.FormatProofs
import Forgelet.Expression.Proofs.HashFilesProofs
import Forgelet.Executor.Proofs.ScriptPathProofs
import Forgelet.Server.Proofs.PlaceholderProofs
import Forgelet.Workflow.Proofs.EditDistanceProofs
