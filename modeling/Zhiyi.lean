import Zhiyi.Library.Machine
import Zhiyi.Library.Decimal
import Zhiyi.Library.DateTime
import Zhiyi.Library.Sha256
import Zhiyi.Library.Json
import Zhiyi.Domain.Identifiers
import Zhiyi.Domain.CanonicalDecimal
import Zhiyi.Domain.Budget
import Zhiyi.Domain.Results
import Zhiyi.Domain.Operations
import Zhiyi.Domain.BudgetLaw
import Zhiyi.Application.Commands
import Zhiyi.Application.RunRepository
import Zhiyi.Memory.RunRepository
import Zhiyi.Memory.StoreInvariant
import Zhiyi.Memory.Idempotency
import Zhiyi.Memory.History
import Zhiyi.Application.RunLifecycle
import Zhiyi.Library.JsonText
import Zhiyi.Postgres.CanonicalInteger
import Zhiyi.Gateway.Probe
import Zhiyi.Gateway.Trace
import Zhiyi.Gateway.Policy
import Zhiyi.Gateway.StreamTrace
import Zhiyi.Gateway.Learning
import Zhiyi.Gateway.ProbeLeak
import Zhiyi.Gateway.Reading
import Zhiyi.Gateway.Chunking
import Zhiyi.Gateway.Agreement
import Zhiyi.Library.IsoText
import Zhiyi.Library.Digits
import Zhiyi.Application.IntentFingerprint
import Zhiyi.Domain.WorkerLeases
import Zhiyi.Postgres.RunCodecs
import Zhiyi.Postgres.RoundTrip
import Zhiyi.Postgres.DecimalCodec
import Zhiyi.Postgres.LeaseCodecs
import Zhiyi.Postgres.Database
import Zhiyi.Postgres.RunRepository
import Zhiyi.Postgres.WorkerLeaseRepository
import Zhiyi.Postgres.Authority
import Zhiyi.Library.Doubles
import Zhiyi.Postgres.Refusals
import Zhiyi.Postgres.Recovery
import Zhiyi.Postgres.ClaimAge
import Zhiyi.Gateway.Usage
import Zhiyi.Memory.Deadline
import Zhiyi.Postgres.Claims
import Zhiyi.Postgres.IntegerConversions
import Zhiyi.Postgres.SessionTimeZone
import Zhiyi.Library.Paging
import Zhiyi.Postgres.EventPages
import Zhiyi.Gateway.RateLimiter
import Zhiyi.Library.Trees
import Zhiyi.Library.DottedNames
import Zhiyi.Sdd.ImportGate
import Zhiyi.Library.DecimalRounding
import Zhiyi.Library.PartialSums
import Zhiyi.Gateway.UsageAlgebra
import Zhiyi.Gateway.Interleaving
import Zhiyi.Library.Noninterference
import Zhiyi.Library.Leasing
import Zhiyi.Postgres.Transactions
import Zhiyi.Postgres.LeaseHistory
import Zhiyi.Postgres.CommitDecision
import Zhiyi.Postgres.CommandReplay
import Zhiyi.Postgres.RepositoryAgreement
import Zhiyi.Postgres.ClaimReplay
import Zhiyi.Postgres.InactivePages
import Zhiyi.Postgres.TenantIsolation
