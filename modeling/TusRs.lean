import TusRs.Interaction.Prog
import TusRs.Interaction.Discipline
import TusRs.Interaction.Lone
import TusRs.Interaction.Component
import TusRs.Interaction.Watch
import TusRs.Num
import TusRs.Text
import TusRs.Url
import TusRs.Base64
import TusRs.Percent
import TusRs.Calendar
import TusRs.Json
import TusRs.Paths
import TusRs.Error
import TusRs.Protocol.UploadId
import TusRs.Protocol.Config
import TusRs.Protocol.Limits
import TusRs.Protocol.Body
import TusRs.Protocol.Headers
import TusRs.Protocol.Range
import TusRs.Protocol.Buffering
import TusRs.Protocol.State
import TusRs.Protocol.Host
import TusRs.Protocol.Hooks
import TusRs.Protocol.Webhook
import TusRs.Protocol.Receive
import TusRs.Protocol.FinalUpload
import TusRs.Protocol.Plan
import TusRs.Protocol.Handlers
import TusRs.Protocol.Location
import TusRs.Storage.File
import TusRs.Storage.Concat
import TusRs.Storage.Memory
import TusRs.Storage.Download
import TusRs.System.World
import TusRs.System.Ownership
import TusRs.System.Access
import TusRs.System.Creation
import TusRs.System.FinalUploads
import TusRs.System.FinalReads
import TusRs.System.Serve
import TusRs.System.Runs
import TusRs.System.Alone
import TusRs.System.Observation
import TusRs.System.Repetition
import TusRs.System.Failures
import TusRs.Locking.File
import TusRs.Locking.Memory
import TusRs.Locking.Idle
import TusRs.Uploader.Client
import TusRs.Uploader.Metadata
import TusRs.Uploader.Operations
import TusRs.Uploader.Termination
import TusRs.Uploader.Retry
import TusRs.Uploader.Parallel
import TusRs.Uploader.Reassembly
import TusRs.Uploader.Cleanup
import TusRs.Uploader.Progress
import TusRs.Uploader.RetryAfter
import TusRs.Browser.Queue
import TusRs.Browser.OptionsCache
import TusRs.Browser.Persistence
import TusRs.Browser.Origins
import TusRs.Browser.Worker
import TusRs.Browser.Session
import TusRs.Browser.Attribution
import TusRs.Browser.Acknowledgement
import TusRs.Browser.Starting
import TusRs.State.Stores
import TusRs.State.Record
import TusRs.Opendal.Store
import TusRs.Opendal.Keys
import TusRs.Opendal.Staging
import TusRs.Opendal.Layout
import TusRs.Opendal.Append
import TusRs.Opendal.Finalize
import TusRs.Opendal.Runs
import TusRs.Opendal.Deletion
import TusRs.Opendal.Concat
import TusRs.Browser.Exclusive
import TusRs.Protocol.Webhook
import TusRs.Opendal.Creation
import TusRs.System.Backends
import TusRs.System.Collision
import TusRs.System.Answers
import TusRs.System.Logs
import TusRs.System.Requests
import TusRs.System.Histories
import TusRs.System.Removal
import TusRs.System.FinalContents
