import Railbook.Library.SortedSet
import Railbook.Session
import Mathlib.Tactic.Linarith

/-! `app/ratelimit/limiter.py`. The times are rational numbers, and the text of a time is the time itself, which it
    reads back as. The commands of a pipeline run at one time of the server, without another command between them. -/

namespace Railbook
open SortedSet

/-- The dataclass `RateLimitResult`. -/
structure RateLimitResult where
  allowed : Bool
  remaining : Int
  retryAfter : Int
  deriving DecidableEq, Repr

/-- The keys of the server. -/
abbrev Keyspace := String → Option (Key ℚ ℚ)

/-- A call of `RateLimiter.check`: its arguments, what `time.time()` gives it, and the time of the server at which its
    pipeline runs. -/
structure CheckCall where
  key : String
  limit : Int
  windowSeconds : Int
  now : ℚ
  clock : ℚ
  deriving DecidableEq, Repr

/-- The pipeline on the key of the call: what `ZCARD` gives, and what is left under the key. -/
def CheckCall.pipeline (c : CheckCall) (k : Option (Key ℚ ℚ)) : Nat × Option (Key ℚ ℚ) :=
  let trimmed := zremrangebyscore 0 (c.now - c.windowSeconds) (live c.clock k)
  let added := zadd c.now c.now trimmed
  (zcard (some added), expire c.clock (c.clock + c.windowSeconds) added)

/-- The answer of `check`. No count stands for an exception of the client. -/
def RateLimitResult.of (limit windowSeconds : Int) : Option Nat → RateLimitResult
  | some count => if limit < count then ⟨false, 0, windowSeconds⟩ else ⟨true, limit - count, 0⟩
  | none => ⟨true, limit, 0⟩

/-- `RateLimiter.check` with the server available. -/
def RateLimiter.check (redis : Keyspace) (c : CheckCall) : RateLimitResult × Keyspace :=
  let (count, k) := c.pipeline (redis c.key)
  (.of c.limit c.windowSeconds (some count), Function.update redis c.key k)

/-- The keys after the calls, in the order in which they reach the server. -/
def RateLimiter.after (redis : Keyspace) (calls : List CheckCall) : Keyspace :=
  calls.foldl (fun redis c => (check redis c).2) redis

/-- The calls with their answers. -/
def RateLimiter.answers : Keyspace → List CheckCall → List (CheckCall × RateLimitResult)
  | _, [] => []
  | redis, c :: calls => (c, (check redis c).1) :: answers (check redis c).2 calls

/-! ### The dependencies of the endpoints -/

/-- The headers of an answer. -/
abbrev Headers := List (String × String)

/-- A limit of `app/ratelimit/dependencies.py`. `hasHeaders`: the exception that rejects a request carries headers. -/
structure RateLimit where
  keyPrefix : String
  limit : Int
  windowSeconds : Int
  detail : String
  hasHeaders : Bool
  deriving DecidableEq, Repr

/-- The headers that a limit sets. -/
def RateLimit.headers (l : RateLimit) (remaining : Int) : Headers :=
  [("X-RateLimit-Limit", toString l.limit), ("X-RateLimit-Remaining", toString remaining),
    ("X-RateLimit-Reset", toString l.windowSeconds)]

/-- The call of `check` for the requests of one subject, a user or an address. -/
def RateLimit.call (l : RateLimit) (subject : String) (now clock : ℚ) : CheckCall :=
  ⟨l.keyPrefix ++ subject, l.limit, l.windowSeconds, now, clock⟩

/-- The dependency: the headers of the response, or the exception with its own. -/
def RateLimit.depends (l : RateLimit) (result : RateLimitResult) : Except (HTTPException × Headers) Headers :=
  if result.allowed then .ok (l.headers result.remaining)
  else .error (⟨429, l.detail⟩, if l.hasHeaders then l.headers 0 ++ [("Retry-After", toString result.retryAfter)]
    else [])

/-- `rate_limit_booking`. -/
def rateLimitBooking : RateLimit := ⟨"rl:booking:", 5, 60, "Too many booking requests", true⟩

/-- `rate_limit_payment`. -/
def rateLimitPayment : RateLimit := ⟨"rl:payment:", 3, 60, "Too many payment requests", true⟩

/-- `rate_limit_auth`. -/
def rateLimitAuth : RateLimit := ⟨"rl:auth:", 10, 300, "Too many auth requests", false⟩

end Railbook
