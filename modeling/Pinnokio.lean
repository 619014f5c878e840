import Pinnokio.ActiveJobs.Absorbing
import Pinnokio.ActiveJobs.BatchCompletion
import Pinnokio.ActiveJobs.Calls
import Pinnokio.ActiveJobs.Dispatch
import Pinnokio.ActiveJobs.DocumentIds
import Pinnokio.ActiveJobs.LostUpdate
import Pinnokio.ActiveJobs.Manager
import Pinnokio.ActiveJobs.MandatePath
import Pinnokio.ActiveJobs.Mutex
import Pinnokio.ActiveJobs.PathCodec
import Pinnokio.ActiveJobs.Payload
import Pinnokio.ActiveJobs.Promotion
import Pinnokio.ActiveJobs.QueueRefinement
import Pinnokio.ActiveJobs.ReverseCleanup
import Pinnokio.ActiveJobs.StatusAgreement
import Pinnokio.ActiveJobs.Steps
import Pinnokio.Approval.JournalEntry
import Pinnokio.Approval.PendingList
import Pinnokio.Banking.AutoDispatch
import Pinnokio.Banking.BankCache
import Pinnokio.Banking.Transactions
import Pinnokio.Billing.BalanceCache
import Pinnokio.Billing.ChatExpenses
import Pinnokio.Billing.ChatUsage
import Pinnokio.Billing.RefusedTopUps
import Pinnokio.Billing.TokenMetering
import Pinnokio.Billing.TopUp
import Pinnokio.Billing.UsageTotals
import Pinnokio.Billing.Wallet
import Pinnokio.Billing.WalletFailures
import Pinnokio.Billing.WalletSteps
import Pinnokio.Billing.WalletUpdates
import Pinnokio.Cache.Invalidation
import Pinnokio.Cache.RoutingMetrics
import Pinnokio.Cache.UnifiedCache
import Pinnokio.Coa.Functions
import Pinnokio.Coa.Intact
import Pinnokio.Coa.Page
import Pinnokio.Coa.Registry
import Pinnokio.Communication.CardTransformer
import Pinnokio.Communication.TelegramRooms
import Pinnokio.Communication.Wizard
import Pinnokio.Communication.WizardButtons
import Pinnokio.Communication.WizardTexts
import Pinnokio.Dashboard.Orchestration
import Pinnokio.Expenses.Migration
import Pinnokio.JobActions.Delete
import Pinnokio.Ledger.ChartOfAccounts
import Pinnokio.Ledger.GlEntries
import Pinnokio.Ledger.GlHash
import Pinnokio.Ledger.GlSync
import Pinnokio.Ledger.IncrementalSync
import Pinnokio.Ledger.Journals
import Pinnokio.Ledger.PeriodBalances
import Pinnokio.Ledger.Reports
import Pinnokio.Ledger.SyncMetadata
import Pinnokio.Ledger.TypedLines
import Pinnokio.Lib.Base64
import Pinnokio.Lib.Binary64
import Pinnokio.Lib.Checklist
import Pinnokio.Lib.Dict
import Pinnokio.Lib.Documents
import Pinnokio.Lib.Fifo
import Pinnokio.Lib.Greedy
import Pinnokio.Lib.Interleaving
import Pinnokio.Lib.Json
import Pinnokio.Lib.Meters
import Pinnokio.Lib.Mirror
import Pinnokio.Lib.Numbers
import Pinnokio.Lib.Popping
import Pinnokio.Lib.RecentWindow
import Pinnokio.Lib.RoundedBest
import Pinnokio.Lib.Rounding
import Pinnokio.Lib.Runs
import Pinnokio.Lib.SequenceMatcher
import Pinnokio.Lib.Shelves
import Pinnokio.Lib.Spelling
import Pinnokio.Lib.Tables
import Pinnokio.Lib.Text
import Pinnokio.Lib.TopK
import Pinnokio.Lib.Totals
import Pinnokio.Lib.Transaction
import Pinnokio.Matching.AmountIndex
import Pinnokio.Matching.BulkSuggestions
import Pinnokio.Matching.Components
import Pinnokio.Matching.Currencies
import Pinnokio.Matching.DateSpellings
import Pinnokio.Matching.Evidence
import Pinnokio.Matching.FxCache
import Pinnokio.Matching.IndexedPairs
import Pinnokio.Matching.RateLookup
import Pinnokio.Matching.ReverseRecon
import Pinnokio.Matching.Scoring
import Pinnokio.Matching.Soundness
import Pinnokio.Matching.Streaming
import Pinnokio.Matching.SuggestionRuns
import Pinnokio.Matching.Suggestions
import Pinnokio.Matching.TransferOrder
import Pinnokio.Matching.Transfers
import Pinnokio.Realtime.BusinessCache
import Pinnokio.Realtime.ContextualPublisher
import Pinnokio.Realtime.Counts
import Pinnokio.Realtime.DirectMessages
import Pinnokio.Realtime.ItemsKept
import Pinnokio.Realtime.Listener
import Pinnokio.Realtime.Notifications
import Pinnokio.Realtime.Redelivery
import Pinnokio.Realtime.Rollback
import Pinnokio.Realtime.TaskMessages
import Pinnokio.Realtime.UserCache
import Pinnokio.Realtime.WorkflowListener
import Pinnokio.Rpc.Endpoint
import Pinnokio.Scheduler.Cron
import Pinnokio.Scheduler.DistributedLock
import Pinnokio.Scheduler.MandateDocuments
import Pinnokio.Scheduler.Tasks
import Pinnokio.Sessions.CodecRoundTrip
import Pinnokio.Sessions.PendingAction
import Pinnokio.Sessions.Presence
import Pinnokio.Sessions.SessionState
import Pinnokio.Sessions.SessionTtl
import Pinnokio.Sessions.TabPresence
import Pinnokio.Sessions.TaskRegistry
import Pinnokio.Sessions.UnifiedRegistry
import Pinnokio.Sockets.Hub
import Pinnokio.Sockets.MessageBuffer
import Pinnokio.Sockets.Replay
import Pinnokio.Tenancy.AccountContext
import Pinnokio.Tenancy.CompanyCaches
import Pinnokio.Tenancy.ModuleRegistry
