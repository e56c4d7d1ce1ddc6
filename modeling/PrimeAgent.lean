import PrimeAgent.Manager.ForkWindow
import PrimeAgent.Manager.Connected
import PrimeAgent.Journal.Recovery
import PrimeAgent.Cron.Heartbeat
import PrimeAgent.Cron.Artifacts
import PrimeAgent.Agent.Outcomes
import PrimeAgent.Worker.EventOrder
import PrimeAgent.SessionStore.InfoResume
import PrimeAgent.RlmLedger.LastWriter
import PrimeAgent.InputPause.Departure
import PrimeAgent.Manager.Opened
import PrimeAgent.Roster.Gates
import PrimeAgent.Roster.Subscriber
import PrimeAgent.Goal.Run
import PrimeAgent.Lock.Exclusive
import PrimeAgent.Lease.Exclusive
import PrimeAgent.Provider.Sse
import PrimeAgent.Provider.HttpBody
import PrimeAgent.Framing.RoundTrip
import PrimeAgent.Provider.TurnsKept
import PrimeAgent.Provider.AnthropicOrder
import PrimeAgent.Provider.CompletionsKept
import PrimeAgent.Session.LeafContext
import PrimeAgent.Manager.Strict
import PrimeAgent.Provider.ResponsesEnds
import PrimeAgent.SequenceGuard.Unbroken
import PrimeAgent.AgentsForest.Forest
import PrimeAgent.Engine.SplitTurn
import PrimeAgent.Engine.BranchPreparation
import PrimeAgent.Engine.FileBlocks
import PrimeAgent.PromptAdmission.InFlight
import PrimeAgent.Cron.ScheduleText
import PrimeAgent.Queue.Order
import PrimeAgent.Tools.OutputAccumulator
import PrimeAgent.Supervisor.Connection
import PrimeAgent.Supervisor.Watch
import PrimeAgent.Worker.Coalescer
import PrimeAgent.RlmLedger.DeletedUsage
import PrimeAgent.Engine.ChildUsage
import PrimeAgent.Retry.Jitter
import PrimeAgent.Tools.BashQuotes
import PrimeAgent.Goal.Strikes
import PrimeAgent.Settings.Merged
import PrimeAgent.SessionStore.Navigate
import PrimeAgent.Cron.MergeOrder
import PrimeAgent.Update.Version
import PrimeAgent.Provider.EventStream
import PrimeAgent.Tools.QueuedEdits
import PrimeAgent.Provider.StreamingJson
import PrimeAgent.Editor.KillRing
