import TrustPortal.Auth.Session
import TrustPortal.Sql.Table

/-!
# `TrustPortal.Auth.RateLimit`: the budgets of sign-in attempts

Every attempt to sign in, as an admin, as a client or with the bootstrap token, takes one unit of
a budget before its credential is examined. The budget belongs to a bucket and an IP address, in a
window of fixed length, and its counter is a row of `auth_rate_limit` that one upsert raises. A
client member has a second budget, for the browser sessions it may start. A successful attempt
deletes the counters of its address in its bucket, and the scheduler deletes old windows.

`Gate` has the rows, the team members and the requests, of every process and node. `proceed` is
the next statement of a request, so that a list of events is an interleaving: a request reads the
clock and counts itself in two steps, examines its credential in a third, and resets the counters
in a last one. A request may stop at any point (`abandon`), as it does for a form without a name
or after `/setup` found an admin; what `/setup` does then is in `Auth.Setup`.

A request keeps what it was counted in after it has ended, so that attempts can be counted over a
whole run. No statement reads that.
-/

set_option autoImplicit false

namespace TrustPortal.Auth.RateLimit

open TrustPortal.Audit
open TrustPortal.Sql

/-! ## The table -/

/-- `BUCKETS` and `CLIENT_SESSION_BUCKET`. -/
inductive Bucket
  | login
  | clientLogin
  | setup
  | clientSession
  deriving DecidableEq, Repr

/-- A row of `auth_rate_limit`. -/
structure AuthRateLimitWindow where
  bucket : Bucket
  clientKey : String
  windowStart : Int
  attempts : Nat
  deriving DecidableEq, Repr

/-- `uq_auth_rate_limit_window`. -/
def AuthRateLimitWindow.key (row : AuthRateLimitWindow) : Bucket × String × Int :=
  (row.bucket, row.clientKey, row.windowStart)

/-- The table `auth_rate_limit`. -/
abbrev Windows := Table AuthRateLimitWindow.key

/-- `AUTH_RATE_LIMIT_ATTEMPTS` and `AUTH_RATE_LIMIT_WINDOW_SECONDS`. -/
structure Limits where
  attempts : Int
  windowSeconds : Int
  deriving DecidableEq, Repr

/-- `client_key`, of `request.remote_addr`. -/
def clientKey (remoteAddr : Option String) : String :=
  let address := if truthy remoteAddr then remoteAddr.getD "" else "unknown"
  String.ofList (address.toList.take 128)

/-- `_window_start`, none for a division by zero. -/
def windowStart (limits : Limits) (now : ℚ) : Option Int :=
  if limits.windowSeconds = 0 then none
  else
    let epoch : Int := ⌊now⌋
    some (epoch - epoch.fmod limits.windowSeconds)

/-- The attempts that a window has counted. -/
def attemptsOf (rows : Windows) (bucket : Bucket) (client : String) (start : Int) : Nat :=
  (rows.get (bucket, client, start)).elim 0 AuthRateLimitWindow.attempts

/-- The upsert of `consume` and `consume_client_session`: the rows, and the attempts that it
returns. -/
def count (rows : Windows) (bucket : Bucket) (client : String) (start : Int) : Windows × Nat :=
  let attempts := attemptsOf rows bucket client start + 1
  (rows.upsert ⟨bucket, client, start, attempts⟩, attempts)

/-- DELETE of the rows that meet a condition. -/
def deleteRows (rows : Windows) (gone : AuthRateLimitWindow → Bool) : Windows where
  rows := rows.rows.filter fun row => !gone row
  nodup := rows.nodup.sublist (List.filter_sublist.map AuthRateLimitWindow.key)

/-- `reset`. -/
def reset (rows : Windows) (bucket : Bucket) (client : String) : Windows :=
  deleteRows rows fun row => row.bucket = bucket && row.clientKey = client

/-- A day, the `max_age` of `prune`. -/
def MAX_AGE : Int := 86400

/-- `prune`, which read the clock at `readAt`. -/
def prune (rows : Windows) (readAt : ℚ) : Windows :=
  deleteRows rows fun row => decide ((row.windowStart : ℚ) < readAt - MAX_AGE)

/-! ## Requests -/

/-- A member with its role. -/
structure Account extends Member where
  role : String
  deriving DecidableEq

/-- `find_by_api_key`. -/
def findByApiKey (sha : Sha256) (accounts : List Account) (apiKey : String) : Option Account :=
  if apiKey = "" then none
  else accounts.find? fun account =>
    account.apiKeyHash = some (sha.hexOfText apiKey) && account.isActive

/-- `_token_matches`. -/
def tokenMatches (expected : Option String) (supplied : String) : Bool :=
  truthy expected && supplied ≠ "" && expected = some supplied

/-- The pages that sign somebody in. -/
inductive Route
  /-- `login`. -/
  | login
  /-- `client_login`. -/
  | clientLogin
  /-- `setup`. -/
  | setup
  /-- `api_setup`. -/
  | apiSetup
  deriving DecidableEq, Repr

/-- The bucket that a page counts in. -/
def Route.bucket : Route → Bucket
  | .login => .login
  | .clientLogin => .clientLogin
  | .setup | .apiSetup => .setup

/-- Before which statement a request is. -/
inductive Phase
  /-- `consume`, before it reads the clock. -/
  | arrived
  /-- `consume`, before the upsert. -/
  | counting (start : Int)
  /-- Within the budget, before the credential is examined. -/
  | admitted
  /-- `consume_client_session`, before it reads the clock. -/
  | starting (member : String)
  /-- `consume_client_session`, before the upsert. -/
  | startingCount (member : String) (start : Int)
  /-- Before `reset`. -/
  | resetting
  /-- After `reset`, and signed in. -/
  | signedIn
  /-- With another answer. -/
  | answered
  deriving DecidableEq, Repr

/-- What a budget let through: the window, and when it was counted. -/
structure Grant where
  start : Int
  countedAt : ℚ
  deriving DecidableEq

/-- A request. `credential` is the API key or the token that it presents. -/
structure Request where
  route : Route
  client : String
  credential : String
  phase : Phase
  /-- What its attempt was let through with. -/
  attempt : Option Grant
  /-- The credential was examined and accepted. -/
  accepted : Bool
  /-- The client member, and what its session was let through with. -/
  session : Option (String × Grant)
  deriving DecidableEq

/-- A request that has arrived. -/
def Request.new (route : Route) (remoteAddr : Option String) (credential : String) : Request :=
  ⟨route, clientKey remoteAddr, credential, .arrived, none, false, none⟩

/-- The rows, the team members, the bootstrap token and the requests. All processes of the app read
one clock, `now`. -/
structure Gate where
  now : ℚ
  windows : Windows
  accounts : List Account
  token : Option String
  requests : List Request

namespace Gate

/-- A gate before the first request. -/
def start (now : ℚ) (windows : Windows) (accounts : List Account) (token : Option String) : Gate :=
  ⟨now, windows, accounts, token, []⟩

/-- A request goes on. -/
def set (gate : Gate) (i : Nat) (request : Request) : Gate :=
  { gate with requests := gate.requests.set i request }

/-- The phase after a credential was accepted, none where it is refused. -/
def examine (sha : Sha256) (gate : Gate) (request : Request) : Option Phase :=
  match request.route with
  | .login =>
    match findByApiKey sha gate.accounts request.credential with
    | some account =>
      if account.isComplianceAdmin && !account.isExpired gate.now then some .resetting else none
    | none => none
  | .clientLogin =>
    match findByApiKey sha gate.accounts request.credential with
    | some account =>
      if account.role = "client" && !account.isExpired gate.now then some (.starting account.id)
      else none
    | none => none
  | .setup | .apiSetup =>
    if tokenMatches gate.token request.credential then some .resetting else none

/-- The `client_key` of a member in the bucket `client_session`. -/
def memberKey (member : String) : String := "member:" ++ member

section
variable (limits : Limits) (sha : Sha256)

/-- The next statement of a request. -/
def proceed (gate : Gate) (i : Nat) (request : Request) : Gate :=
  match request.phase with
  | .arrived =>
    match windowStart limits gate.now with
    | some start => gate.set i { request with phase := .counting start }
    | none => gate.set i { request with phase := .answered }
  | .counting start =>
    let (windows, attempts) := count gate.windows request.route.bucket request.client start
    let gate := { gate with windows }
    if attempts ≤ limits.attempts then
      gate.set i { request with phase := .admitted, attempt := some ⟨start, gate.now⟩ }
    else gate.set i { request with phase := .answered }
  | .admitted =>
    match gate.examine sha request with
    | some phase => gate.set i { request with phase, accepted := true }
    | none => gate.set i { request with phase := .answered }
  | .starting member =>
    match windowStart limits gate.now with
    | some start => gate.set i { request with phase := .startingCount member start }
    | none => gate.set i { request with phase := .answered }
  | .startingCount member start =>
    let (windows, attempts) := count gate.windows .clientSession (memberKey member) start
    let gate := { gate with windows }
    if attempts ≤ limits.attempts then
      gate.set i { request with phase := .resetting, session := some (member, ⟨start, gate.now⟩) }
    else gate.set i { request with phase := .answered }
  | .resetting =>
    { gate with windows := reset gate.windows request.route.bucket request.client }.set i
      { request with phase := .signedIn }
  | .signedIn | .answered => gate

/-- What happens next. -/
inductive Event
  | wait (time : ℚ)
  /-- A change of the members or of the token, by anything else. -/
  | change (accounts : List Account) (token : Option String)
  | arrive (route : Route) (remoteAddr : Option String) (credential : String)
  | proceed (i : Nat)
  /-- A request ends early. -/
  | abandon (i : Nat)
  /-- `prune`, with the time that it read. -/
  | prune (readAt : ℚ)

/-- What one event does. -/
def step (gate : Gate) : Event → Gate
  | .wait time => { gate with now := max gate.now time }
  | .change accounts token => { gate with accounts, token }
  | .arrive route remoteAddr credential =>
    { gate with requests := gate.requests ++ [.new route remoteAddr credential] }
  | .proceed i =>
    match gate.requests[i]? with
    | some request => proceed limits sha gate i request
    | none => gate
  | .abandon i =>
    match gate.requests[i]? with
    | some request =>
      if request.phase = .signedIn then gate else gate.set i { request with phase := .answered }
    | none => gate
  | .prune readAt =>
    if readAt ≤ gate.now then { gate with windows := RateLimit.prune gate.windows readAt } else gate

/-- A sequence of events. -/
def run (gate : Gate) (events : List Event) : Gate := events.foldl (step limits sha) gate

end

end Gate

/-! ## Counts over a run -/

/-- A unit of a budget that was counted in a window, within a day of its start. -/
def Grant.isOf (grant : Grant) (start : Int) : Bool :=
  grant.start = start && decide (grant.countedAt ≤ (start + MAX_AGE : Int))

/-- The request was let through by its bucket, in a window. -/
def Request.passed (bucket : Bucket) (client : String) (start : Int) (request : Request) : Bool :=
  request.route.bucket = bucket && request.client = client
    && request.attempt.any fun grant => grant.isOf start

/-- The request presented a credential that was accepted. -/
def Request.succeeded (bucket : Bucket) (client : String) (request : Request) : Bool :=
  request.route.bucket = bucket && request.client = client && request.accepted

/-- The request was let through by the budget of a client member, in a window. -/
def Request.startedSession (member : String) (start : Int) (request : Request) : Bool :=
  request.session.any fun (id, grant) => id = member && grant.isOf start

end TrustPortal.Auth.RateLimit
