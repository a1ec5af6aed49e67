import JudgeServer.Common.SubmissionTypes
import JudgeServer.Lib.KeyedMap
import JudgeServer.Lib.Cuts
import JudgeServer.Lib.Interleave
import JudgeServer.Lib.Pieces
import JudgeServer.Lib.Returns
import JudgeServer.Lib.Completion
import JudgeServer.Lib.Utf8
import JudgeServer.Lib.Decimal
import JudgeServer.Lib.Framing
import JudgeServer.Pipeline.ResultStore
import JudgeServer.Pipeline.Eviction
import JudgeServer.Pipeline.StoreHistory
import JudgeServer.Pipeline.StoreMachine
import JudgeServer.Protocol.Json
import JudgeServer.Protocol.Dump
import JudgeServer.Protocol.JudgeProtocol
import JudgeServer.Protocol.DumpReading
import JudgeServer.Protocol.ResultEncoding
import JudgeServer.Pipeline.SubmissionVerdictReducer
import JudgeServer.Pipeline.SubmissionService
import JudgeServer.Pipeline.SubmissionOutcome
import JudgeServer.Pipeline.WorkerRun
import JudgeServer.Dispatch.SubmissionQueue
import JudgeServer.Network.Responders
import JudgeServer.Network.FinalSnapshot
import JudgeServer.Network.Buffer
import JudgeServer.Network.ReplyChannel
import JudgeServer.Network.AckBarrier
import JudgeServer.Network.ConnectionSlot
import JudgeServer.Network.Server
import JudgeServer.Network.ServerEffect
import JudgeServer.Network.ClientSockets
import JudgeServer.Network.EventLoop
import JudgeServer.Network.Connections
import JudgeServer.Network.Readiness
import JudgeServer.Network.Requests
import JudgeServer.Network.OutputStream
import JudgeServer.Network.SessionOutput
import JudgeServer.Network.Delivery
import JudgeServer.Network.DeliveryThreads
import JudgeServer.Network.SessionIsolation
import JudgeServer.Network.AckFirst
import JudgeServer.Sjudge.ChildSetup
import JudgeServer.Sjudge.RunSjudger
import JudgeServer.Sjudge.Limits
import JudgeServer.Sjudge.SetupPlan
import JudgeServer.Sjudge.Success
import JudgeServer.Sjudge.ChildExceptions
import JudgeServer.Sjudge.ThrowingPlan
import JudgeServer.Sjudge.Separation
import JudgeServer.Lib.LexicalPath
import JudgeServer.Pipeline.TestData
import JudgeServer.Protocol.RequestGrammar
import JudgeServer.Dispatch.WorkerPool
import JudgeServer.Dispatch.TaskFlow
import JudgeServer.Dispatch.Ownership
import JudgeServer.Dispatch.RecordOwners
import JudgeServer.Dispatch.OwnRequest
import JudgeServer.Dispatch.JudgedOnce
import JudgeServer.Dispatch.NoOrphans
import JudgeServer.Dispatch.Shutdown
import JudgeServer.Dispatch.Completion
import JudgeServer.Runner.LanguageRunners
import JudgeServer.Runner.LimitRanges
import JudgeServer.Runner.CommandLines
import JudgeServer.Runner.HostedSubmission
import JudgeServer.Runner.WorkDirs
import JudgeServer.Runner.Isolation
import JudgeServer.Runner.JudgingRecords
import JudgeServer.Runner.Reporting
import JudgeServer.Runner.Acceptance
import JudgeServer.Runner.LeftClean
import JudgeServer.Checker.Fcmp2
import JudgeServer.Lib.Trimming
import JudgeServer.Checker.Agreement
import JudgeServer.Lib.Watch
import JudgeServer.Network.Wakeup
import JudgeServer.Network.Disconnects
import JudgeServer.Pipeline.CaseList
import JudgeServer.Pipeline.VerdictOrder
import JudgeServer.Checker.BuiltinComparison
import JudgeServer.Network.BarrierHistory
import JudgeServer.Network.FrameStream
import JudgeServer.Network.ConnectionRegistry
import JudgeServer.Network.ReadFd
import JudgeServer.Pipeline.EvictionPolicy
import JudgeServer.Lib.Causes
import JudgeServer.Lib.Shell
import JudgeServer.Network.ConnectionDrops
import JudgeServer.Network.ChannelNames
import JudgeServer.Network.BufferFifo
import JudgeServer.Protocol.JsonLexer
import JudgeServer.Protocol.JsonParser
import JudgeServer.Lib.JsonText
import JudgeServer.Protocol.JsonGrammar
import JudgeServer.Protocol.JsonWords
import JudgeServer.Protocol.JsonNumbers
import JudgeServer.Protocol.JsonTokens
import JudgeServer.Protocol.JsonReading
import JudgeServer.Protocol.RoundTrip
import JudgeServer.Protocol.MessageTexts
import JudgeServer.Network.Answering
