import Mathlib.Data.Rat.Floor
import TrustPortal.Audit.Log

/-!
# `TrustPortal.Auth.Session`: browser sessions

A browser session is a signed cookie that the client holds. It names a member, the
fingerprint of the member's key and the member's session epoch, all read at the login, and
the time of the login. `sessionMember` is the check of a request that presents a cookie, and
`Action` lists what happens to members and cookies, one access to the database each: the read
of a login and the issue of its cookie are two actions, and so are the check of a logout and
its commit, so that other actions may come between them.

A cookie that was not issued does not pass the signature check. The client may present an
issued one at any time and any number of times. `PERMANENT_SESSION_LIFETIME`, which bounds the
age of a signature, only refuses more and is left out. Times are in seconds since 1970.
-/

set_option autoImplicit false

namespace TrustPortal.Auth

open TrustPortal.Audit

/-! ## Members -/

/-- The columns of `team_members` that sessions and `deactivate_member` read. -/
structure Member where
  id : String
  apiKeyHash : Option String
  sessionEpoch : Nat
  isActive : Bool
  isComplianceAdmin : Bool
  expiresAt : Option ℚ
  deriving DecidableEq

/-- The first 16 digits of a key's digest. -/
def fingerprint (hash : String) : String := String.ofList (hash.toList.take 16)

/-- `key_fingerprint`. -/
def Member.keyFingerprint (member : Member) : String := fingerprint (member.apiKeyHash.getD "")

/-- `has_usable_key`. -/
def Member.hasUsableKey (member : Member) : Bool := truthy member.apiKeyHash

/-- `is_expired`. -/
def Member.isExpired (member : Member) (now : ℚ) : Bool :=
  match member.expiresAt with
  | none => false
  | some expires => decide (expires < now)

/-- `is_usable_admin`. -/
def Member.isUsableAdmin (member : Member) (now : ℚ) : Bool :=
  member.isComplianceAdmin && member.isActive && member.hasUsableKey && !member.isExpired now

/-- `DURABLE_ADMIN_MARGIN`. -/
def DURABLE_ADMIN_MARGIN : ℚ := 30 * 24 * 3600

/-- `is_durable_admin`. -/
def Member.isDurableAdmin (member : Member) (now : ℚ) : Bool :=
  member.isUsableAdmin now && match member.expiresAt with
    | none => true
    | some expires => decide (now + DURABLE_ADMIN_MARGIN < expires)

/-- The member with this id. -/
def findMember (members : List Member) (id : String) : Option Member :=
  members.find? fun member => member.id = id

/-- UPDATE of the member with this id. -/
def updateMember (members : List Member) (id : String) (change : Member → Member) :
    List Member :=
  members.map fun member => if member.id = id then change member else member

/-- `deactivate_member` would leave the portal without a durable admin. -/
def isLastAdmin (members : List Member) (member : Member) (now : ℚ) : Bool :=
  member.isUsableAdmin now && !(members.filter fun other => other.isUsableAdmin now).any
    fun other => other.id ≠ member.id && other.isDurableAdmin now

/-! ## Cookies -/

/-- A value of a session: a number, or anything else (a boolean included). -/
inductive SessionValue
  | number (value : ℚ)
  | other
  deriving DecidableEq

/-- What a session says of its login, besides the time. Sessions of earlier releases may lack a
part. -/
structure Login where
  memberId : Option String
  fingerprint : Option String
  epoch : Option SessionValue
  deriving DecidableEq

/-- A session cookie. -/
structure Cookie where
  login : Login
  loginAt : Option SessionValue
  deriving DecidableEq

/-- `CLOCK_SKEW_SECONDS`. -/
def CLOCK_SKEW_SECONDS : ℚ := 300

/-- The result of `_session_expired`. -/
def sessionExpired (lifetime : ℚ) (cookie : Cookie) (now : ℚ) : Bool :=
  match cookie.loginAt with
  | none => false
  | some .other => true
  | some (.number loginAt) =>
      decide (now + CLOCK_SKEW_SECONDS < loginAt) || decide (lifetime < now - loginAt)

/-- `_epoch_matches`. -/
def epochMatches (member : Member) (login : Login) : Bool :=
  match login.epoch with
  | none => decide (member.sessionEpoch = 0)
  | some (.number epoch) => decide (epoch = member.sessionEpoch)
  | some .other => false

/-- `_session_member`. -/
def sessionMember (lifetime : ℚ) (members : List Member) (cookie : Cookie) (now : ℚ) :
    Option Member :=
  if truthy cookie.login.memberId then
    (findMember members (cookie.login.memberId.getD "")).filter fun member =>
      member.isActive && member.hasUsableKey
        && decide (cookie.login.fingerprint = some member.keyFingerprint)
        && epochMatches member cookie.login && !sessionExpired lifetime cookie now
  else none

/-- What `login_session` reads of a member. -/
def Member.login (member : Member) : Login where
  memberId := some member.id
  fingerprint := some member.keyFingerprint
  epoch := some (.number member.sessionEpoch)

/-- `int(time.time())` as a session value. -/
def loginTime (now : ℚ) : SessionValue := .number (⌊now⌋ : ℤ)

/-! ## Actions -/

/-- The members, the logins that were read, the cookies that were issued, the logouts that were
checked and not yet committed, and the fingerprints of all keys there have been. -/
structure State where
  members : List Member
  logins : List Login
  cookies : List Cookie
  leaving : List String
  fingerprints : List String

/-- A portal with some members and the cookies of earlier releases. -/
def State.start (members : List Member) (legacy : List Cookie) : State where
  members := members
  logins := legacy.map Cookie.login
  cookies := legacy
  leaving := []
  fingerprints := members.map Member.keyFingerprint
    ++ legacy.filterMap fun cookie => cookie.login.fingerprint

/-- One access to the members or the cookies. -/
inductive Action
  | create (id hash : String) (isComplianceAdmin : Bool) (expiresAt : Option ℚ)
  | readLogin (id : String)
  | issue (login : Login) (now : ℚ)
  | request (cookie : Cookie) (now : ℚ)
  | logout (cookie : Cookie) (now : ℚ)
  | commitLogout (id : String)
  | regenerateKey (id hash : String)
  | deactivate (id : String) (now : ℚ)

/-- The member that a request with a cookie is authenticated as. -/
def authenticated (lifetime : ℚ) (state : State) (cookie : Cookie) (now : ℚ) : Option Member :=
  if cookie ∈ state.cookies then sessionMember lifetime state.members cookie now else none

/-- A request with a cookie without a login time gets one with the time of the request. -/
def renewed (cookie : Cookie) (now : ℚ) : Cookie :=
  match cookie.loginAt with
  | none => { cookie with loginAt := some (loginTime now) }
  | some _ => cookie

/-- `deactivate_member`: none where it changes nothing. -/
def deactivateMember (members : List Member) (id : String) (now : ℚ) : Option (List Member) :=
  match findMember members id with
  | none => none
  | some member =>
      if isLastAdmin members member now then none
      else some (updateMember members id fun member => { member with isActive := false })

/-- One action. -/
def step (lifetime : ℚ) (state : State) : Action → State
  | .create id hash isComplianceAdmin expiresAt =>
      { state with
        members := state.members ++ [⟨id, some hash, 0, true, isComplianceAdmin, expiresAt⟩]
        fingerprints := state.fingerprints ++ [fingerprint hash] }
  | .readLogin id =>
      match findMember state.members id with
      | none => state
      | some member => { state with logins := state.logins ++ [member.login] }
  | .issue login now =>
      if login ∈ state.logins then
        { state with cookies := state.cookies ++ [⟨login, some (loginTime now)⟩] }
      else state
  | .request cookie now =>
      if (authenticated lifetime state cookie now).isSome then
        { state with cookies := state.cookies ++ [renewed cookie now] }
      else state
  | .logout cookie now =>
      match authenticated lifetime state cookie now with
      | none => state
      | some member => { state with leaving := state.leaving ++ [member.id] }
  | .commitLogout id =>
      if id ∈ state.leaving then
        { state with
          members := updateMember state.members id fun member =>
            { member with sessionEpoch := member.sessionEpoch + 1 }
          leaving := state.leaving.erase id }
      else state
  | .regenerateKey id hash =>
      if (findMember state.members id).isSome then
        { state with
          members := updateMember state.members id fun member =>
            { member with apiKeyHash := some hash }
          fingerprints := state.fingerprints ++ [fingerprint hash] }
      else state
  | .deactivate id now =>
      match deactivateMember state.members id now with
      | none => state
      | some members => { state with members := members }

/-- A sequence of actions. -/
def run (lifetime : ℚ) (state : State) (actions : List Action) : State :=
  actions.foldl (step lifetime) state

end TrustPortal.Auth
