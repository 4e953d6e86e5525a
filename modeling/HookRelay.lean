import HookRelay.Lib.Transition
import HookRelay.Lib.Progress
import HookRelay.Lib.Table
import HookRelay.Lib.Claims
import HookRelay.Lib.Hex
import HookRelay.Lib.Ip
import HookRelay.Lib.IpText
import HookRelay.Lib.IsoDate
import HookRelay.Lib.Paging
import HookRelay.Lib.Windows
import HookRelay.Lib.Int32
import HookRelay.Lib.Framing
import HookRelay.Lib.Pattern
import HookRelay.Lib.Binary
import HookRelay.Lib.ReadCommitted
import HookRelay.Data.Text
import HookRelay.Data.Json
import HookRelay.Data.JsonText
import HookRelay.Data.JsonRoundTrip
import HookRelay.Data.Numbers
import HookRelay.Data.Doubles
import HookRelay.Data.Schema
import HookRelay.Data.Varchar
import HookRelay.Data.Buffer
import HookRelay.Common.Errors
import HookRelay.Common.SecretCipher
import HookRelay.Common.SecretRoundTrip
import HookRelay.Security.Ssrf
import HookRelay.Worker.Signature
import HookRelay.Worker.HeaderDigest
import HookRelay.Receiver.Verify
import HookRelay.Receiver.Replay
import HookRelay.Receiver.Acknowledging
import HookRelay.Worker.HttpClient
import HookRelay.Worker.Connections
import HookRelay.Security.Ipv6Verdict
import HookRelay.Security.Ipv4Ranges
import HookRelay.Lib.Expiring
import HookRelay.Lib.Front
import HookRelay.Lib.Forgetting
import HookRelay.Worker.TenantLimiter
import HookRelay.Worker.SlotExpiry
import HookRelay.Worker.FailOpen
import HookRelay.Worker.Circuit
import HookRelay.Worker.CircuitAnswered
import HookRelay.Worker.CircuitCalls
import HookRelay.Worker.Probes
import HookRelay.Worker.CircuitHistory
import HookRelay.Worker.CircuitStore
import HookRelay.Data.Transactions
import HookRelay.Data.Indexes
import HookRelay.Data.Accounts
import HookRelay.Auth.ApiKeys
import HookRelay.Auth.KeyLife
import HookRelay.Auth.RotateRace
import HookRelay.Queue.Jobs
import HookRelay.Relay.Tick
import HookRelay.Worker.Processor
import HookRelay.Worker.CacheRace
import HookRelay.Worker.Backoff
import HookRelay.Worker.RetrySignal
import HookRelay.System.Steps
import HookRelay.System.Changes
import HookRelay.System.Attempts
import HookRelay.System.History
import HookRelay.System.SendBudget
import HookRelay.System.Purging
import HookRelay.System.Recovery
import HookRelay.System.Outbox
import HookRelay.System.Enqueueing
import HookRelay.System.OutboxOrder
import HookRelay.System.Handling
import HookRelay.System.Budget
import HookRelay.System.Tenants
import HookRelay.System.Redelivery
import HookRelay.System.Retry
import HookRelay.System.Disabling
import HookRelay.Api.Endpoints
import HookRelay.Api.Events
import HookRelay.Api.Publishing
import HookRelay.Api.PublishInvariants
import HookRelay.Api.PublishAtomic
import HookRelay.Api.Deliveries
import HookRelay.Api.Listing
import HookRelay.Api.Cursors
import HookRelay.Api.Ownership
import HookRelay.Api.Scoped
import HookRelay.Api.Isolation
import HookRelay.Api.UrlConflicts
import HookRelay.Api.SubscriptionRace
import HookRelay.Api.RateLimit
import HookRelay.System.Origins
import HookRelay.System.Staleness
import HookRelay.System.TenantSlots
import HookRelay.System.NeverStuck
import HookRelay.System.Work
import HookRelay.System.Finishing
import HookRelay.System.LiveListing
import HookRelay.Receiver.EndToEnd
