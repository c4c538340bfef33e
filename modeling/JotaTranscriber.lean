import JotaTranscriber.Transition.Run
import JotaTranscriber.Transition.Since
import JotaTranscriber.Family.Count
import JotaTranscriber.Memory.Words
import JotaTranscriber.Text.Delimited
import JotaTranscriber.Text.HallucinationRule
import JotaTranscriber.Whisper.ModelCache
import JotaTranscriber.Whisper.CacheHolders
import JotaTranscriber.Whisper.UnloadTimer
import JotaTranscriber.Whisper.InferenceLimiter
import JotaTranscriber.Whisper.Commit
import JotaTranscriber.Whisper.Report
import JotaTranscriber.Whisper.EngineRun
import JotaTranscriber.Whisper.Overlap
import JotaTranscriber.Whisper.LimiterThreads
import JotaTranscriber.Whisper.Filtering
import JotaTranscriber.Whisper.Trimming
import JotaTranscriber.Whisper.Conversion
import JotaTranscriber.Session.Saturation
import JotaTranscriber.Session.Overflow
import JotaTranscriber.Session.Marker
import JotaTranscriber.Session.Transcript
import JotaTranscriber.Session.LastMessage
import JotaTranscriber.Session.Gate
import JotaTranscriber.Session.RateLimit
import JotaTranscriber.Session.ConfigFailure
import JotaTranscriber.Session.TextFrames
import JotaTranscriber.Server.References
import JotaTranscriber.Server.SessionRuns
import JotaTranscriber.Server.Inference
import JotaTranscriber.Session.Locks
import JotaTranscriber.Server.ConnectionLimiter
import JotaTranscriber.Server.ConnectionGuard
import JotaTranscriber.Server.ConfigValues
import JotaTranscriber.Server.AcceptLoop
import JotaTranscriber.Server.Slots
import JotaTranscriber.Server.Shutdown
import JotaTranscriber.Auth.Provenance
import JotaTranscriber.Auth.Precedence
import JotaTranscriber.Auth.RequestHead
import JotaTranscriber.Auth.StaleGrant
import JotaTranscriber.Auth.Url
import JotaTranscriber.Session.Settings
import JotaTranscriber.Session.Handshake
import JotaTranscriber.Session.Teardown
import JotaTranscriber.Session.Traffic
import JotaTranscriber.Auth.CacheHistory
import JotaTranscriber.Server.LockOrder
import JotaTranscriber.Server.Startup
import JotaTranscriber.Server.Occupancy
import JotaTranscriber.Server.Access
import JotaTranscriber.Server.Endpoints
import JotaTranscriber.Server.Completion
