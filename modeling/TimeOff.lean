import TimeOff.Library.Aging
import TimeOff.Library.Backoff
import TimeOff.Library.Beside
import TimeOff.Library.Grouping
import TimeOff.Library.Latest
import TimeOff.Library.Lines
import TimeOff.Library.Programs
import TimeOff.Library.Rounds
import TimeOff.Library.Runs
import TimeOff.Library.Table
import TimeOff.Library.Turns
import TimeOff.Library.UrlPath
import TimeOff.Common.BalanceMath
import TimeOff.Common.CircuitBreaker
import TimeOff.Common.CircuitHistory
import TimeOff.Common.KeyedMutex
import TimeOff.Common.StateMachine
import TimeOff.Hcm.HcmClient
import TimeOff.Hcm.HcmCore
import TimeOff.Hcm.HttpHcmClient
import TimeOff.Hcm.MockHcmController
import TimeOff.Hcm.Routes
import TimeOff.Store.Entities
import TimeOff.Service.BalanceService
import TimeOff.Service.BalanceViews
import TimeOff.Service.DrainOnce
import TimeOff.Service.OutboxProcessor
import TimeOff.Service.OutboxService
import TimeOff.Service.SyncService
import TimeOff.Service.TimeOffService
import TimeOff.System.Calls
import TimeOff.System.Composed
import TimeOff.System.Draining
import TimeOff.System.Effects
import TimeOff.System.Http
import TimeOff.System.Postings
import TimeOff.System.Service
import TimeOff.System.Sources
import TimeOff.Account.Calls
import TimeOff.Account.Effects
import TimeOff.Account.Idempotence
import TimeOff.Account.Isolation
import TimeOff.Account.Versions
import TimeOff.Lifecycle.AuditTrail
import TimeOff.Lifecycle.Coherence
import TimeOff.Lifecycle.Correspondence
import TimeOff.Lifecycle.Deliveries
import TimeOff.Lifecycle.Dossier
import TimeOff.Lifecycle.History
import TimeOff.Lifecycle.Keys
import TimeOff.Lifecycle.Operations
import TimeOff.Lifecycle.Progress
import TimeOff.Lifecycle.Queue
import TimeOff.Lifecycle.Simulation
import TimeOff.Outbox.Backlog
import TimeOff.Outbox.Discipline
import TimeOff.Outbox.Drains
import TimeOff.Outbox.Reclaim
import TimeOff.Outbox.Refusals
import TimeOff.Outbox.Retries
import TimeOff.Outbox.Rows
import TimeOff.Outbox.Starvation
import TimeOff.Ingestion.Authenticity
import TimeOff.Ingestion.Bootstrap
import TimeOff.Ingestion.CorpusPush
import TimeOff.Ingestion.FirstLoad
import TimeOff.Ingestion.FreshPass
import TimeOff.Ingestion.Interrupted
import TimeOff.Ingestion.OrderIndependence
import TimeOff.Ingestion.Reporting
import TimeOff.Ingestion.SafetyNet
import TimeOff.Propagation.Compensation
import TimeOff.Propagation.Coupling
import TimeOff.Propagation.Drift
import TimeOff.Propagation.ExactlyOnce
import TimeOff.Propagation.Orderly
import TimeOff.Propagation.Refunds
import TimeOff.Balance.Available
import TimeOff.Balance.Books
import TimeOff.Balance.DoubleCount
import TimeOff.Balance.DoubleSpend
import TimeOff.Balance.Prevalidation
import TimeOff.Balance.Promise
import TimeOff.Balance.Restoration
import TimeOff.Balance.Settlement
import TimeOff.Balance.Views
import TimeOff.Balance.Watermark
import TimeOff.Concurrency.AllOrNothing
import TimeOff.Concurrency.Creation
import TimeOff.Concurrency.Duplicates
import TimeOff.Concurrency.Linearisation
import TimeOff.Concurrency.Outcomes
import TimeOff.Concurrency.Overspending
import TimeOff.Concurrency.Races
import TimeOff.Concurrency.Serialisation
import TimeOff.Concurrency.ServiceOrder
import TimeOff.Concurrency.Spending
import TimeOff.Concurrency.Statements
import TimeOff.Concurrency.Threads
import TimeOff.Concurrency.Transitions
import TimeOff.Transport.Books
import TimeOff.Transport.Deployment
import TimeOff.Transport.EndToEnd
import TimeOff.Transport.Exchange
import TimeOff.Transport.Linkage
import TimeOff.Transport.OnceOnly
import TimeOff.Transport.Propagation
import TimeOff.Transport.Recovery
import TimeOff.Transport.Snapshots
import TimeOff.Transport.Stragglers
import TimeOff.Transport.Transparency
