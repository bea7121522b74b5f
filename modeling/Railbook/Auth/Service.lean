import Railbook.Session
import Railbook.Library.Transition

/-! Authentication (`app/auth/service.py`, `app/auth/dependencies.py`, `app/auth/router.py`). A request runs from one
    database statement to the next; what a route does with its token or with a password is part of the step of the
    statement that comes before. PyJWT and bcrypt are parameters. -/

namespace Railbook

/-- A row of `users`, with the columns that authentication reads and writes. -/
structure Account where
  id : Uuid
  email : String
  passwordHash : String
  fullName : String
  phone : Option String
  role : String
  deriving DecidableEq, Repr

/-- The claim `sub`: the text of a uuid, or one that `uuid.UUID` rejects. -/
inductive Sub where
  | uuid (id : Uuid)
  | other (text : String)
  deriving DecidableEq, Repr

/-- The payload of a token. -/
structure Claims where
  sub : Option Sub
  type : Option String
  exp : Time
  iat : Time
  deriving DecidableEq, Repr

/-- The exceptions of PyJWT: the token has expired, or it is not valid. -/
inductive JwtError where
  | expiredSignature
  | invalidToken
  deriving DecidableEq, Repr

/-- PyJWT with the secret and the algorithm of the settings. `decode` gives back what `encode` was given, until
    it expires. -/
structure Jwt (Token : Type) where
  encode : Claims → Token
  decode : Time → Token → Except JwtError Claims
  decode_encode : ∀ (c : Claims) (now : Time), c.iat ≤ now →
    decode now (encode c) = if c.exp ≤ now then .error .expiredSignature else .ok c

/-- `bcrypt`, of which both functions raise a `ValueError` on a password that is too long: they give nothing then. -/
structure Bcrypt where
  hashpw : String → Nat → Option String
  checkpw : String → String → Option Bool

/-- The whole seconds in which PyJWT writes a time. -/
def numericDate (t : Time) : Time := t / 1000000 * 1000000

/-- The payload of `create_access_token`. -/
def createAccessToken (now : Time) (userId : Uuid) : Claims :=
  ⟨some (.uuid userId), some "access", numericDate (now + timedeltaMinutes 15), numericDate now⟩

/-- The payload of `create_refresh_token`. -/
def createRefreshToken (now : Time) (userId : Uuid) : Claims :=
  ⟨some (.uuid userId), some "refresh", numericDate (now + timedeltaHours (7 * 24)), numericDate now⟩

/-- What can leave a route. -/
inductive AuthExc where
  | exc (e : Exc)
  | valueError
  deriving DecidableEq, Repr

/-- The exception of `raise HTTPException(..)`. -/
def AuthExc.http (statusCode : Nat) (detail : String) : AuthExc := .exc (httpError statusCode detail)

/-- The body of `POST /auth/register`. -/
structure RegisterRequest where
  email : String
  password : String
  fullName : String
  phone : Option String
  deriving DecidableEq, Repr

/-- The values fit their columns of `users`. -/
def RegisterRequest.fits (q : RegisterRequest) : Bool :=
  isText q.email && decide (q.email.length ≤ 255) && isText q.fullName && decide (q.fullName.length ≤ 255) &&
    q.phone.all fun phone => isText phone && decide (phone.length ≤ 20)

/-- The body of `POST /auth/login`. -/
structure LoginRequest where
  email : String
  password : String
  deriving DecidableEq, Repr

section
variable {Token : Type} (jwt : Jwt Token) (bcrypt : Bcrypt) (accounts : List Account)

/-- The user id of a token that must have the given type. The exceptions of the decoding and of the reading of `sub` are
    answered with `invalid`. -/
def userIdOf (type invalid : String) (now : Time) (token : Token) : Except AuthExc Uuid :=
  match jwt.decode now token with
  | .error _ => .error (.http 401 invalid)
  | .ok payload =>
    if payload.type ≠ some type then .error (.http 401 "Invalid token type")
    else
      match payload.sub with
      | some (.uuid id) => .ok id
      | _ => .error (.http 401 invalid)

/-- The token of `get_current_user`. -/
def currentUserId (now : Time) (token : Token) : Except AuthExc Uuid :=
  userIdOf jwt "access" "Invalid or expired token" now token

/-- The token of `refresh`. -/
def refreshUserId (now : Time) (token : Token) : Except AuthExc Uuid :=
  userIdOf jwt "refresh" "Invalid or expired refresh token" now token

/-- `get_user_by_id`, and what both callers make of its result. -/
def getUserById (userId : Uuid) : Except AuthExc Account :=
  match scalarOneOrNone (accounts.filter (·.id = userId)) with
  | .error e => .error (.exc e)
  | .ok none => .error (.http 401 "User not found")
  | .ok (some account) => .ok account

/-- `require_admin`. -/
def requireAdmin (account : Account) : Except AuthExc Account :=
  if account.role ≠ "admin" then .error (.http 403 "Admin access required") else .ok account

/-- `register_user` up to the commit: the hash of the password of a new account, whatever its id will be. -/
def registerUser (q : RegisterRequest) (salt : Nat) : Except AuthExc String :=
  if isText q.email then
    match scalarOneOrNone (accounts.filter (·.email = q.email)) with
    | .error e => .error (.exc e)
    | .ok (some _) => .error (.http 409 "Email already registered")
    | .ok none =>
      match bcrypt.hashpw q.password salt with
      | none => .error (.http 409 "Email already registered")
      | some hash => .ok hash
  else .error (.exc .databaseError)

/-- The row of a new account. -/
def newAccount (q : RegisterRequest) (id : Uuid) (hash : String) : Account :=
  ⟨id, q.email, hash, q.fullName, q.phone, "user"⟩

/-- `authenticate_user`, and what `login` makes of its result. -/
def authenticateUser (q : LoginRequest) : Except AuthExc Account :=
  if isText q.email then
    match scalarOneOrNone (accounts.filter (·.email = q.email)) with
    | .error e => .error (.exc e)
    | .ok none => .error (.http 401 "Invalid credentials")
    | .ok (some account) =>
      match bcrypt.checkpw q.password account.passwordHash with
      | none => .error .valueError
      | some false => .error (.http 401 "Invalid credentials")
      | some true => .ok account
  else .error (.exc .databaseError)

end

/-! ### Sessions -/

/-- `register`. After its commit `session.refresh` reads the row again. -/
inductive RegisterPc where
  | find
  | insert (hash : String)
  | refresh (account : Account)
  | finished (answer : Except AuthExc Account)
  deriving DecidableEq, Repr

/-- The program counters of `authenticate_user`. -/
inductive LoginPc where
  | find
  | finished (answer : Except AuthExc Account)
  deriving DecidableEq, Repr

/-- `refresh` and the dependency `get_current_user`. The time at which the token was decoded is history. -/
inductive TokenPc where
  | decode
  | find (userId : Uuid) (decodedAt : Time)
  | finished (answer : Except AuthExc Account) (decodedAt : Time)
  deriving DecidableEq, Repr

/-- A request. `current` is a route with `get_current_user`, or with `require_admin`. -/
inductive AuthTask (Token : Type) where
  | register (request : RegisterRequest) (pc : RegisterPc)
  | login (request : LoginRequest) (pc : LoginPc)
  | refresh (token : Token) (pc : TokenPc)
  | current (token : Token) (admin : Bool) (pc : TokenPc)
  deriving DecidableEq, Repr

/-- A token that was issued, by which session. -/
structure Issued (Token : Type) where
  token : Token
  claims : Claims
  session : Sid
  deriving DecidableEq, Repr

/-- `issued` is history. -/
structure AuthState (Token : Type) where
  accounts : List Account
  sessions : List (AuthTask Token)
  now : Time
  issued : List (Issued Token)
  deriving DecidableEq, Repr

/-- What a statement does: it inserts an account, or the route issues the two tokens of a `TokenResponse`. -/
inductive AuthEffect where
  | read
  | insert (account : Account)
  | issue (userId : Uuid)
  deriving DecidableEq, Repr

/-- What the environment decides: the next `uuid4`, and the next salt. -/
structure AuthChoice where
  uuid : Uuid
  salt : Nat
  deriving DecidableEq, Repr

/-- A request of the routes of `app/auth/router.py`, or a protected one, for an admin or for anybody. -/
inductive AuthRequest (Token : Type) where
  | register (request : RegisterRequest)
  | login (request : LoginRequest)
  | refresh (token : Token)
  | current (token : Token) (admin : Bool)
  deriving DecidableEq, Repr

/-- Where a request begins. -/
def AuthRequest.task {Token : Type} : AuthRequest Token → AuthTask Token
  | register q => .register q .find
  | login q => .login q .find
  | refresh token => .refresh token .decode
  | current token admin => .current token admin .decode

/-- What happens next: a request arrives, a session runs its next statement, this statement fails, or time passes. -/
inductive AuthAct (Token : Type) where
  | request (r : AuthRequest Token)
  | run (i : Sid) (c : AuthChoice)
  | raise (i : Sid)
  | tick (d : Nat)
  deriving DecidableEq, Repr

section
variable {Token : Type} (jwt : Jwt Token) (bcrypt : Bcrypt)

/-- The next statement of a session. -/
def authStatement (σ : AuthState Token) (c : AuthChoice) : AuthTask Token → Option (AuthEffect × AuthTask Token)
  | .register q .find =>
    match registerUser bcrypt σ.accounts q c.salt with
    | .error e => some (.read, .register q (.finished (.error e)))
    | .ok hash => some (.read, .register q (.insert hash))
  | .register q (.insert hash) =>
    if q.fits = false then some (.read, .register q (.finished (.error (.exc .databaseError))))
    else if σ.accounts.any (fun a => a.id = c.uuid ∨ a.email = q.email) then
      some (.read, .register q (.finished (.error (.exc .integrityError))))
    else some (.insert (newAccount q c.uuid hash), .register q (.refresh (newAccount q c.uuid hash)))
  | .register q (.refresh account) => some (.issue account.id, .register q (.finished (.ok account)))
  | .register _ (.finished _) => none
  | .login q .find =>
    match authenticateUser bcrypt σ.accounts q with
    | .error e => some (.read, .login q (.finished (.error e)))
    | .ok account => some (.issue account.id, .login q (.finished (.ok account)))
  | .login _ (.finished _) => none
  | .refresh token .decode =>
    match refreshUserId jwt σ.now token with
    | .error e => some (.read, .refresh token (.finished (.error e) σ.now))
    | .ok userId => some (.read, .refresh token (.find userId σ.now))
  | .refresh token (.find userId decodedAt) =>
    match getUserById σ.accounts userId with
    | .error e => some (.read, .refresh token (.finished (.error e) decodedAt))
    | .ok account => some (.issue account.id, .refresh token (.finished (.ok account) decodedAt))
  | .refresh _ (.finished _ _) => none
  | .current token admin .decode =>
    match currentUserId jwt σ.now token with
    | .error e => some (.read, .current token admin (.finished (.error e) σ.now))
    | .ok userId => some (.read, .current token admin (.find userId σ.now))
  | .current token admin (.find userId decodedAt) =>
    match getUserById σ.accounts userId with
    | .error e => some (.read, .current token admin (.finished (.error e) decodedAt))
    | .ok account =>
      some (.read, .current token admin (.finished (if admin then requireAdmin account else .ok account) decodedAt))
  | .current _ _ (.finished _ _) => none

/-- Where a session ends when its next statement raises. -/
def AuthTask.raise : AuthTask Token → Option (AuthTask Token)
  | .register q pc =>
    if pc matches .finished _ then none else some (.register q (.finished (.error (.exc .databaseError))))
  | .login q pc => if pc matches .finished _ then none else some (.login q (.finished (.error (.exc .databaseError))))
  | .refresh token (.find _ decodedAt) => some (.refresh token (.finished (.error (.exc .databaseError)) decodedAt))
  | .current token admin (.find _ decodedAt) =>
    some (.current token admin (.finished (.error (.exc .databaseError)) decodedAt))
  | _ => none

/-- The two tokens of a `TokenResponse`. -/
def tokenResponse (now : Time) (i : Sid) (userId : Uuid) : List (Issued Token) :=
  [⟨jwt.encode (createAccessToken now userId), createAccessToken now userId, i⟩,
   ⟨jwt.encode (createRefreshToken now userId), createRefreshToken now userId, i⟩]

/-- The state after the effect of a statement of session `i`. -/
def AuthState.perform (σ : AuthState Token) (i : Sid) : AuthEffect → AuthState Token
  | .read => σ
  | .insert account => { σ with accounts := σ.accounts ++ [account] }
  | .issue userId => { σ with issued := σ.issued ++ tokenResponse jwt σ.now i userId }

/-- Session `i` goes on at `t`. -/
def AuthState.goto (σ : AuthState Token) (i : Sid) (t : AuthTask Token) : AuthState Token :=
  { σ with sessions := σ.sessions.set i t }

/-- The step relation of authentication. -/
def authStep (σ : AuthState Token) : AuthAct Token → Option (AuthState Token)
  | .request r => some { σ with sessions := σ.sessions ++ [r.task] }
  | .run i c => do
    let t ← σ.sessions[i]?
    let (eff, t') ← authStatement jwt bcrypt σ c t
    some ((σ.perform jwt i eff).goto i t')
  | .raise i => do
    let t ← σ.sessions[i]?
    let t' ← t.raise
    some (σ.goto i t')
  | .tick d => some { σ with now := σ.now + d }

/-- The service with these accounts, before any request. -/
def AuthState.start (accounts : List Account) (now : Time) : AuthState Token := ⟨accounts, [], now, []⟩

end

end Railbook
