import Railbook.Engine
import Railbook.Auth.Tokens
import Railbook.RateLimit.Concurrent

/-! The server (`app/main.py`): the routes that write, with the dependencies they run through. A route of
    `app/bookings/router.py` gets its user by `get_current_user`, asks the rate limiter, and only then calls the
    service, in the transaction that the look-up of the user began. The routes of `app/auth/router.py` ask the rate
    limiter first. The endpoints of `app/demo/router.py` ask nobody, and neither does the cleanup loop. A request
    that fails its validation is answered 422 and is no step here. FastAPI solves the dependencies before it reports
    the errors of the body, so such a request has made its call of the limiter; this call only counts against the
    limit. -/

namespace Railbook

/-! ### The routes -/

/-- The routes of `app/bookings/router.py` that write, with the parameters of a request that passes its validation. -/
inductive Route where
  | create (scheduleId seatId idempotencyKey : Uuid)
  | pay (bookingId idempotencyKey : Uuid)
  | refund (bookingId : Uuid)
  deriving DecidableEq, Repr

/-- The dependency of the route. -/
def Route.limit : Route → RateLimit
  | create _ _ _ => rateLimitBooking
  | pay _ _ | refund _ => rateLimitPayment

/-- What the handler asks of the service for its user. -/
def Route.request (ipAddress : Option String) (userId : Uuid) : Route → Request
  | create scheduleId seatId idempotencyKey => .create ⟨userId, scheduleId, seatId, idempotencyKey, ipAddress⟩
  | pay bookingId idempotencyKey => .pay ⟨bookingId, userId, idempotencyKey, ipAddress⟩
  | refund bookingId => .refund ⟨bookingId, userId, ipAddress⟩

/-- How far a request has come. Its session of the service is there as soon as its user is known. A call of the
    limiter is kept as history; there is none when Redis was not available. -/
inductive Stage where
  | authenticate
  | limit (i : Sid)
  | handle (i : Sid) (call : Option CheckCall)
  | tooMany (i : Sid) (answer : HTTPException × Headers)
  deriving DecidableEq, Repr

/-- The session of the service that the request runs in. -/
def Stage.session : Stage → Option Sid
  | authenticate => none
  | limit i | handle i _ | tooMany i _ => some i

/-- The handler of the request does not run, yet or ever. -/
def Stage.isHeld : Stage → Bool
  | handle _ _ => false
  | _ => true

/-- A request on one of the routes. `auth` is the session of its `get_current_user`. -/
structure HttpRequest (Token : Type) where
  route : Route
  token : Token
  ipAddress : Option String
  auth : Sid
  stage : Stage
  deriving DecidableEq, Repr

/-! ### The rate limiter -/

/-- The keys of Redis that belong to the limiter. `calls` is history. -/
structure Limits where
  redis : Keyspace
  calls : List CheckCall

/-- A dependency of `app/ratelimit/dependencies.py`: its answer, the call that it made, and what it leaves. `time` are
    the times of the call, if Redis is available. -/
def Limits.check (σ : Limits) (l : RateLimit) (subject : String) (time : Option (ℚ × ℚ)) :
    Except (HTTPException × Headers) Headers × Option CheckCall × Limits :=
  match time with
  | none => (l.depends (.of l.limit l.windowSeconds none), none, σ)
  | some (now, clock) =>
    let call := l.call subject now clock
    let (result, redis) := RateLimiter.check σ.redis call
    (l.depends result, some call, ⟨redis, σ.calls ++ [call]⟩)

/-! ### The server -/

/-- `logins` are the sessions that the routes of `app/auth/router.py` have opened, each with the call of the limiter
    that let it pass; this is history. -/
structure Server (Token : Type) where
  auth : AuthState Token
  service : State
  limits : Limits
  requests : List (HttpRequest Token)
  logins : List (Sid × Option CheckCall)

/-- What happens next. -/
inductive ServerAct (Token : Type) where
  | auth (a : AuthAct Token)
  | authRoute (q : AuthRequest Token) (host : Option String) (time : Option (ℚ × ℚ))
  | arrive (route : Route) (token : Token) (ipAddress : Option String)
  | authenticate (n : Nat) (c : Option AuthChoice)
  | limit (n : Nat) (time : Option (ℚ × ℚ))
  | service (a : Act)
  | tick (d : Nat)

/-- The user that `get_current_user` has given. -/
def AuthTask.user {Token : Type} : AuthTask Token → Option Account
  | .current _ _ (.finished (.ok user) _) => some user
  | _ => none

/-- The user of the request. -/
def AuthState.userOf {Token : Type} (σ : AuthState Token) (r : HttpRequest Token) : Option Account :=
  (σ.sessions[r.auth]?).bind AuthTask.user

/-- The routes with the dependency `rate_limit_auth`. -/
def AuthRequest.isLimited {Token : Type} : AuthRequest Token → Bool
  | .current _ _ => false
  | _ => true

/-- The stage after the limiter has answered. -/
def Stage.next (i : Sid) (call : Option CheckCall) : Except (HTTPException × Headers) Headers → Stage
  | .ok _ => handle i call
  | .error e => tooMany i e

section
variable {Token : Type} (cat : Catalog) (jwt : Jwt Token) (bcrypt : Bcrypt) (uuidText : Uuid → String)

/-- The steps of authentication that are no part of a request on a route that writes. The catalog has everyone who
    will register. -/
def Server.admitsAuth (σ : Server Token) : AuthAct Token → Bool
  | .request (.current _ _) => true
  | .request _ | .tick _ => false
  | .run j c => (cat.user? c.uuid).isSome && !σ.requests.any (·.auth = j)
  | .raise j => !σ.requests.any (·.auth = j)

/-- The steps of the service: what the cleanup loop and the demo endpoints ask of it, and the statements of
    the handlers. -/
def Server.admits (σ : Server Token) : Act → Bool
  | .request .cleanup | .updateConfig _ _ => true
  | .request (.create q) => q.ipAddress = some "demo"
  | .request _ | .tick _ => false
  | .run i _ | .raise i => !σ.requests.any fun r => r.stage.isHeld && r.stage.session = some i

/-- The step relation of the server. -/
def serverStep (σ : Server Token) : ServerAct Token → Option (Server Token)
  | .auth a =>
    if σ.admitsAuth cat a then (authStep jwt bcrypt σ.auth a).map fun auth => { σ with auth := auth } else none
  | .authRoute q host time =>
    if q.isLimited then
      match σ.limits.check rateLimitAuth (host.getD "unknown") time with
      | (.error _, _, limits) => some { σ with limits := limits }
      | (.ok _, call, limits) => (authStep jwt bcrypt σ.auth (.request q)).map fun auth =>
        { σ with auth := auth, limits := limits, logins := σ.logins ++ [(σ.auth.sessions.length, call)] }
    else none
  | .arrive route token ipAddress => (authStep jwt bcrypt σ.auth (.request (.current token false))).map fun auth =>
    { σ with
      auth := auth, requests := σ.requests ++ [⟨route, token, ipAddress, σ.auth.sessions.length, .authenticate⟩] }
  | .authenticate n c => do
    let r ← σ.requests[n]?
    let auth ← authStep jwt bcrypt σ.auth (c.elim (.raise r.auth) (.run r.auth))
    match auth.userOf r with
    | none => some { σ with auth := auth }
    | some user => (step cat σ.service (.request (r.route.request r.ipAddress user.id))).map fun service =>
      { σ with
        auth := auth
        service := service
        requests := σ.requests.set n { r with stage := .limit σ.service.sessions.length } }
  | .limit n time => do
    let r ← σ.requests[n]?
    let user ← σ.auth.userOf r
    match r.stage with
    | .limit i =>
      let (answer, call, limits) := σ.limits.check r.route.limit (uuidText user.id) time
      some { σ with limits := limits, requests := σ.requests.set n { r with stage := .next i call answer } }
    | _ => none
  | .service a => if σ.admits a then (step cat σ.service a).map fun service => { σ with service := service } else none
  | .tick d => do
    let auth ← authStep jwt bcrypt σ.auth (.tick d)
    let service ← step cat σ.service (.tick d)
    some { σ with auth := auth, service := service }

/-- The seeded server before any request. -/
def Server.start (accounts : List Account) (redis : Keyspace) (now : Time) : Server Token :=
  ⟨.start accounts now, .seeded now, ⟨redis, []⟩, [], []⟩

/-- Every token that is presented was issued before, or fails its verification. -/
def Server.Presents (σ : Server Token) : ServerAct Token → Prop
  | .auth a => Railbook.Presents jwt σ.auth a
  | .authRoute q _ _ => Railbook.Presents jwt σ.auth (.request q)
  | .arrive _ token _ => σ.auth.Knows jwt token
  | _ => True

end

/-! ### Inversion -/

/-- The outcomes of a step. -/
inductive ServerStepped {Token : Type} (cat : Catalog) (jwt : Jwt Token) (bcrypt : Bcrypt) (uuidText : Uuid → String)
    (σ : Server Token) : ServerAct Token → Server Token → Prop
  | auth {a : AuthAct Token} {auth : AuthState Token} (ha : σ.admitsAuth cat a = true)
      (h : authStep jwt bcrypt σ.auth a = some auth) :
    ServerStepped cat jwt bcrypt uuidText σ (.auth a) { σ with auth := auth }
  | refused {q : AuthRequest Token} {host : Option String} {time : Option (ℚ × ℚ)} {e : HTTPException × Headers}
      {call : Option CheckCall} {limits : Limits}
      (h : σ.limits.check rateLimitAuth (host.getD "unknown") time = (.error e, call, limits)) :
    ServerStepped cat jwt bcrypt uuidText σ (.authRoute q host time) { σ with limits := limits }
  | opened {q : AuthRequest Token} {host : Option String} {time : Option (ℚ × ℚ)} {headers : Headers}
      {call : Option CheckCall} {limits : Limits} {auth : AuthState Token}
      (h : σ.limits.check rateLimitAuth (host.getD "unknown") time = (.ok headers, call, limits))
      (hstep : authStep jwt bcrypt σ.auth (.request q) = some auth) :
    ServerStepped cat jwt bcrypt uuidText σ (.authRoute q host time)
      { σ with auth := auth, limits := limits, logins := σ.logins ++ [(σ.auth.sessions.length, call)] }
  | arrived {route : Route} {token : Token} {ipAddress : Option String} {auth : AuthState Token}
      (h : authStep jwt bcrypt σ.auth (.request (.current token false)) = some auth) :
    ServerStepped cat jwt bcrypt uuidText σ (.arrive route token ipAddress)
      { σ with
        auth := auth, requests := σ.requests ++ [⟨route, token, ipAddress, σ.auth.sessions.length, .authenticate⟩] }
  | unknown {n : Nat} {c : Option AuthChoice} {r : HttpRequest Token} {auth : AuthState Token}
      (hr : σ.requests[n]? = some r) (h : authStep jwt bcrypt σ.auth (c.elim (.raise r.auth) (.run r.auth)) = some auth)
      (huser : auth.userOf r = none) :
    ServerStepped cat jwt bcrypt uuidText σ (.authenticate n c) { σ with auth := auth }
  | known {n : Nat} {c : Option AuthChoice} {r : HttpRequest Token} {auth : AuthState Token} {user : Account}
      {service : State} (hr : σ.requests[n]? = some r)
      (h : authStep jwt bcrypt σ.auth (c.elim (.raise r.auth) (.run r.auth)) = some auth)
      (huser : auth.userOf r = some user)
      (hstep : step cat σ.service (.request (r.route.request r.ipAddress user.id)) = some service) :
    ServerStepped cat jwt bcrypt uuidText σ (.authenticate n c)
      { σ with
        auth := auth
        service := service
        requests := σ.requests.set n { r with stage := .limit σ.service.sessions.length } }
  | limited {n : Nat} {time : Option (ℚ × ℚ)} {r : HttpRequest Token} {user : Account} {i : Sid}
      {answer : Except (HTTPException × Headers) Headers} {call : Option CheckCall} {limits : Limits}
      (hr : σ.requests[n]? = some r) (huser : σ.auth.userOf r = some user) (hstage : r.stage = .limit i)
      (h : σ.limits.check r.route.limit (uuidText user.id) time = (answer, call, limits)) :
    ServerStepped cat jwt bcrypt uuidText σ (.limit n time)
      { σ with limits := limits, requests := σ.requests.set n { r with stage := .next i call answer } }
  | service {a : Act} {service : State} (ha : σ.admits a = true) (h : step cat σ.service a = some service) :
    ServerStepped cat jwt bcrypt uuidText σ (.service a) { σ with service := service }
  | tick {d : Nat} {auth : AuthState Token} {service : State} (h : authStep jwt bcrypt σ.auth (.tick d) = some auth)
      (hstep : step cat σ.service (.tick d) = some service) :
    ServerStepped cat jwt bcrypt uuidText σ (.tick d) { σ with auth := auth, service := service }

section
variable {Token : Type} {cat : Catalog} {jwt : Jwt Token} {bcrypt : Bcrypt} {uuidText : Uuid → String}
  {σ τ : Server Token}

theorem serverStep_stepped {a : ServerAct Token} (h : serverStep cat jwt bcrypt uuidText σ a = some τ) :
    ServerStepped cat jwt bcrypt uuidText σ a τ := by
  cases a with
  | auth a =>
    obtain ⟨ha, h⟩ := Option.ite_none_right_eq_some.mp h
    obtain ⟨auth, hstep, rfl⟩ := Option.map_eq_some_iff.mp h
    exact .auth ha hstep
  | authRoute q host time =>
    obtain ⟨-, h⟩ := Option.ite_none_right_eq_some.mp h
    split at h
    · rename_i hcheck
      cases h
      exact .refused hcheck
    · rename_i hcheck
      obtain ⟨auth, hstep, rfl⟩ := Option.map_eq_some_iff.mp h
      exact .opened hcheck hstep
  | arrive route token ipAddress =>
    simp only [serverStep, Option.map_eq_some_iff] at h
    obtain ⟨auth, hstep, rfl⟩ := h
    exact .arrived hstep
  | authenticate n c =>
    obtain ⟨r, hr, h⟩ := Option.bind_eq_some_iff.mp h
    obtain ⟨auth, hauth, h⟩ := Option.bind_eq_some_iff.mp h
    split at h
    · rename_i huser
      cases h
      exact .unknown hr hauth huser
    · rename_i user huser
      obtain ⟨service, hstep, rfl⟩ := Option.map_eq_some_iff.mp h
      exact .known hr hauth huser hstep
  | limit n time =>
    obtain ⟨r, hr, h⟩ := Option.bind_eq_some_iff.mp h
    obtain ⟨user, huser, h⟩ := Option.bind_eq_some_iff.mp h
    split at h
    · rename_i i hstage
      cases h
      exact .limited hr huser hstage rfl
    · cases h
  | service a =>
    obtain ⟨ha, h⟩ := Option.ite_none_right_eq_some.mp h
    obtain ⟨service, hstep, rfl⟩ := Option.map_eq_some_iff.mp h
    exact .service ha hstep
  | tick d =>
    simp only [serverStep, Option.bind_eq_bind, Option.bind_eq_some_iff, Option.some.injEq] at h
    obtain ⟨auth, hauth, service, hstep, rfl⟩ := h
    exact .tick hauth hstep

end

end Railbook
