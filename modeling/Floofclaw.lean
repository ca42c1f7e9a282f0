import Floofclaw.Guarantees.ActionEnvelopes
import Floofclaw.Guarantees.ActionOutputs
import Floofclaw.Guarantees.AffairProjections
import Floofclaw.Guarantees.AffairReviews
import Floofclaw.Guarantees.AffairUpdates
import Floofclaw.Guarantees.Affairs
import Floofclaw.Guarantees.AgentOutput
import Floofclaw.Guarantees.Answers
import Floofclaw.Guarantees.AppendTruth
import Floofclaw.Guarantees.ArgumentCoercion
import Floofclaw.Guarantees.Budgets
import Floofclaw.Guarantees.CallEvents
import Floofclaw.Guarantees.Conversations
import Floofclaw.Guarantees.Deadlines
import Floofclaw.Guarantees.Deliveries
import Floofclaw.Guarantees.DeliveryTails
import Floofclaw.Guarantees.DiscordChunks
import Floofclaw.Guarantees.DiscordPosts
import Floofclaw.Guarantees.DistinctCalls
import Floofclaw.Guarantees.EventNumbers
import Floofclaw.Guarantees.Evidence
import Floofclaw.Guarantees.FilePages
import Floofclaw.Guarantees.FileReports
import Floofclaw.Guarantees.FinishedResults
import Floofclaw.Guarantees.FirstEvent
import Floofclaw.Guarantees.FrameDecoder
import Floofclaw.Guarantees.FramePairs
import Floofclaw.Guarantees.GeminiStreams
import Floofclaw.Guarantees.HttpBodies
import Floofclaw.Guarantees.IntakeOrder
import Floofclaw.Guarantees.IrcLines
import Floofclaw.Guarantees.IteratedMembers
import Floofclaw.Guarantees.Jobs
import Floofclaw.Guarantees.JsonReader
import Floofclaw.Guarantees.LineFiles
import Floofclaw.Guarantees.MediaCodec
import Floofclaw.Guarantees.MessageStreams
import Floofclaw.Guarantees.OperationFits
import Floofclaw.Guarantees.OperationPayloads
import Floofclaw.Guarantees.OperationRecords
import Floofclaw.Guarantees.OutboxWakes
import Floofclaw.Guarantees.Passes
import Floofclaw.Guarantees.ProgressLines
import Floofclaw.Guarantees.ProviderLedger
import Floofclaw.Guarantees.Rebuild
import Floofclaw.Guarantees.RecordCodec
import Floofclaw.Guarantees.RecordFinishes
import Floofclaw.Guarantees.ResultRuns
import Floofclaw.Guarantees.Retention
import Floofclaw.Guarantees.ReviewTimes
import Floofclaw.Guarantees.Rotation
import Floofclaw.Guarantees.RoutedOutputs
import Floofclaw.Guarantees.Secrets
import Floofclaw.Guarantees.Serialization
import Floofclaw.Guarantees.Snapshot
import Floofclaw.Guarantees.StablePublication
import Floofclaw.Guarantees.StaleWakes
import Floofclaw.Guarantees.StrayResults
import Floofclaw.Guarantees.TaskArchives
import Floofclaw.Guarantees.TaskCreation
import Floofclaw.Guarantees.TaskMemories
import Floofclaw.Guarantees.TaskRoundTrip
import Floofclaw.Guarantees.TaskStates
import Floofclaw.Guarantees.TelegramReplies
import Floofclaw.Guarantees.TextCodec
import Floofclaw.Guarantees.TimeoutClaims
import Floofclaw.Guarantees.UnreadStores
import Floofclaw.Guarantees.UsageLedger
import Floofclaw.Guarantees.WorkAttempts
import Floofclaw.Guarantees.WorkOutcomes
import Floofclaw.Guarantees.WorkspacePaths
