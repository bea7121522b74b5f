import Railbook.Library.Transition
import Railbook.Library.Store
import Railbook.Library.Table
import Railbook.Library.Waiting
import Railbook.Library.LookAside
import Railbook.Library.SortedSet
import Railbook.Library.Paging
import Railbook.Library.Readings
import Railbook.Library.Refinement
import Railbook.Library.Progress
import Railbook.Models
import Railbook.Seed
import Railbook.Database
import Railbook.Gateway
import Railbook.Session
import Railbook.Bookings.Service
import Railbook.Bookings.Reads
import Railbook.Trains.Service
import Railbook.Admin.Service
import Railbook.RateLimit.Limiter
import Railbook.Auth.Service
import Railbook.Demo.Service
import Railbook.Engine
import Railbook.Lifecycle
import Railbook.Moves
import Railbook.Invariant
import Railbook.Coherence
import Railbook.Audit
import Railbook.Growth
import Railbook.Creates
import Railbook.Sessions
import Railbook.Trains.Cache
import Railbook.Payments
import Railbook.Charges
import Railbook.NoDoubleCharge
import Railbook.ChargeLedger
import Railbook.Stranded
import Railbook.Retries
import Railbook.Journeys
import Railbook.Races
import Railbook.DoubleBooking
import Railbook.IdempotentCreate
import Railbook.Rebooking
import Railbook.CreateAnswer
import Railbook.PayAnswer
import Railbook.Refunds
import Railbook.Retention
import Railbook.Deadlock
import Railbook.Inserts
import Railbook.Offers
import Railbook.Occupancy
import Railbook.Confidentiality
import Railbook.Freshness
import Railbook.Revenue
import Railbook.SeatMap
import Railbook.GatewayCalls
import Railbook.RateLimit.SlidingWindow
import Railbook.RateLimit.RetryAfter
import Railbook.RateLimit.Concurrent
import Railbook.Auth.Tokens
import Railbook.Auth.Registration
import Railbook.Auth.Login
import Railbook.Cleanup
import Railbook.Overlap
import Railbook.Times
import Railbook.Chronology
import Railbook.Demo.Race
import Railbook.Admin.Totals
import Railbook.Admin.Report
import Railbook.Admin.Bookings
import Railbook.Admin.AuditTrail
import Railbook.Transactions
import Railbook.Constraints
import Railbook.Integrity
import Railbook.CleanupLoop
import Railbook.Termination
import Railbook.Pool
import Railbook.Crash
import Railbook.Errors
import Railbook.Reconciliation
import Railbook.Demo.Config
import Railbook.Startup
import Railbook.Trains.Outage
import Railbook.Origins
import Railbook.Server
import Railbook.Server.Authority
import Railbook.Server.Limits
