import ExperimentControl.Library.Framing
import ExperimentControl.Library.Traversal
import ExperimentControl.Library.Programs
import ExperimentControl.Sources.Identity
import ExperimentControl.Sources.Planning
import ExperimentControl.Cloud.OutboxRuns
import ExperimentControl.Records.ImportRuns
import ExperimentControl.Records.StoreRuns
import ExperimentControl.Tracking.PublicationRuns
import ExperimentControl.Tracking.DisplayRuns
import ExperimentControl.Managed.Continuity
import ExperimentControl.Cloud.Exchange
import ExperimentControl.Artifacts.Retention
import ExperimentControl.Artifacts.Frames
import ExperimentControl.Datasets.Uploads
import ExperimentControl.Datasets.Mounts
import ExperimentControl.Datasets.Documents
import ExperimentControl.Datasets.Materialization
import ExperimentControl.Datasets.Completion
import ExperimentControl.Slurm.CancelRecovery
import ExperimentControl.Slurm.ObservationRuns
import ExperimentControl.Slurm.Allocation
import ExperimentControl.Json.Admission
import ExperimentControl.Json.Equality
import ExperimentControl.Cloud.RetryRuns
import ExperimentControl.Cloud.Commands
import ExperimentControl.Cloud.Lookup
import ExperimentControl.Cloud.DataCopies
import ExperimentControl.Process.Capture
import ExperimentControl.Native.RetryRuns
import ExperimentControl.Actions
import ExperimentControl.Records.LocalStream
import ExperimentControl.Polling
import ExperimentControl.Records.Sequences
import ExperimentControl.Records.Replay
import ExperimentControl.Records.Audit
import ExperimentControl.Failures
import ExperimentControl.Slurm.Ingest
import ExperimentControl.Managed.LaunchRuns
import ExperimentControl.Client.Batches
import ExperimentControl.Client.Expansion
import ExperimentControl.ReadModel.Logs
import ExperimentControl.Cloud.DebugExpiry
import ExperimentControl.Metrics.Numbers
import ExperimentControl.Metrics.Observations
import ExperimentControl.Managed.Manifest
import ExperimentControl.Checkpoints.Documents
import ExperimentControl.Multipart
import ExperimentControl.ReadModel.Tails
import ExperimentControl.Datasets.Objects
import ExperimentControl.Datasets.Readback
import ExperimentControl.Durable
import ExperimentControl.Json.Lines
import ExperimentControl.Projects.Recovery
