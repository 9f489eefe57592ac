import TrustPortal.Auth.Session
import TrustPortal.Sql.Table

/-!
# `TrustPortal.Auth.Setup`: changes of the admins, request by request

`/setup` and `/api/setup` create the first admin, and `deactivate_member` refuses to take the last
durable one. Both take the advisory lock `ADMIN_LOCK_KEY`, read the members and commit, and other
transactions may commit between any two of these steps. `create_member` of the admin page and of the
CLI and `regenerate_key` take no lock.

Each statement of a request is a step of its own and reads what is committed at that time, as
PostgreSQL does at READ COMMITTED. What a request has read stays in its phase, as the rows of the
whole table, from which the query selects. The lock is free again when the transaction ends, and a
request waits while another one has it.

`Portal.bootstrapped` records whom the setup requests created. No request reads it.
-/

set_option autoImplicit false

namespace TrustPortal.Auth

open TrustPortal.Sql
open TrustPortal.Audit

/-- The table `team_members`. -/
abbrev TeamMembers := Table Member.id

/-- UPDATE of the row with an id. -/
def TeamMembers.update (members : TeamMembers) (id : String) (change : Member → Member) : TeamMembers :=
  match members.get id with
  | none => members
  | some member => members.put (change member)

/-- INSERT of a row: none when its id or its key is taken. -/
def TeamMembers.add (members : TeamMembers) (member : Member) : Option TeamMembers :=
  if members.rows.any fun other => other.apiKeyHash = member.apiKeyHash then none
  else members.insert member

/-- `member.api_key_hash = hash`. -/
def Member.withKey (hash : String) (member : Member) : Member :=
  { member with apiKeyHash := some hash }

/-- `member.is_active = False`. -/
def Member.deactivated (member : Member) : Member := { member with isActive := false }

/-- `usable_admins`, from the rows of one read. The query wants a key that is not NULL. -/
def usableAdmins (rows : TeamMembers) (now : ℚ) : List Member :=
  rows.rows.filter fun member =>
    member.isComplianceAdmin && member.isActive && member.apiKeyHash.isSome && !member.isExpired now

/-- `admin_exists`. -/
def adminExists (rows : TeamMembers) (now : ℚ) : Bool := !(usableAdmins rows now).isEmpty

/-- Another durable admin is among the usable ones. -/
def anotherDurable (member : Member) (rows : TeamMembers) (now : ℚ) : Bool :=
  (usableAdmins rows now).any fun other => other.id ≠ member.id && other.isDurableAdmin now

/-- Where a request is. A deactivation that is ready knows since when another durable admin is
known, or none when the member was no usable admin. -/
inductive Phase
  | none
  | setupLooked (rows : TeamMembers)
  | setupAdmitted
  | setupLocked
  | setupRead (rows : TeamMembers)
  | setupReady (rows : TeamMembers) (checkedAt : ℚ)
  | deactivateLocked (id : String)
  | deactivateFound (member : Member)
  | deactivateChecks (member : Member)
  | deactivateRead (member : Member) (rows : TeamMembers)
  | deactivateReady (member : Member) (checkedAt : Option ℚ)

/-- The committed members, the clock, the request that has the lock, and the requests. -/
structure Portal where
  members : TeamMembers
  now : ℚ
  lock : Option Nat
  phase : Nat → Phase
  bootstrapped : List String

/-- What happens next. The id and the API key of a new member are drawn at random. -/
inductive Event
  | wait (time : ℚ)
  | create (id apiKey : String) (isComplianceAdmin : Bool) (expiresAt : Option ℚ)
  | regenerateKey (id apiKey : String)
  | setup (request : Nat) (id apiKey : String)
  | deactivate (request : Nat) (id : String)
  | abandon (request : Nat)

namespace Portal

/-- A portal without requests. -/
def start (members : TeamMembers) (now : ℚ) : Portal := ⟨members, now, none, fun _ => .none, []⟩

/-- The request goes on. -/
def goOn (portal : Portal) (request : Nat) (phase : Phase) : Portal :=
  { portal with phase := fun other => if other = request then phase else portal.phase other }

/-- The request ends, and with its transaction its lock. -/
def finish (portal : Portal) (request : Nat) : Portal :=
  { portal.goOn request .none with
    lock := if portal.lock = some request then none else portal.lock }

/-- `lock_admin_membership`. -/
def lockAdminMembership (portal : Portal) (request : Nat) (phase : Phase) : Portal :=
  match portal.lock with
  | none => { portal.goOn request phase with lock := some request }
  | some _ => portal

/-- The row of `create_member`. -/
def newMember (sha : Sha256) (id apiKey : String) (isComplianceAdmin : Bool)
    (expiresAt : Option ℚ) : Member :=
  ⟨id, some (sha.hexOfText apiKey), 0, true, isComplianceAdmin, expiresAt⟩

/-- The next statement of a setup request: `setup`, `api_setup` and `_create_first_admin`. -/
def setupStep (sha : Sha256) (portal : Portal) (request : Nat) (id apiKey : String) : Portal :=
  match portal.phase request with
  | .none => portal.goOn request (.setupLooked portal.members)
  | .setupLooked rows =>
      if adminExists rows portal.now then portal.finish request
      else portal.goOn request .setupAdmitted
  | .setupAdmitted => portal.lockAdminMembership request .setupLocked
  | .setupLocked => portal.goOn request (.setupRead portal.members)
  | .setupRead rows =>
      if adminExists rows portal.now then portal.finish request
      else portal.goOn request (.setupReady rows portal.now)
  | .setupReady _ _ =>
      match portal.members.add (newMember sha id apiKey true none) with
      | none => portal.finish request
      | some members =>
          { portal.finish request with
            members := members
            bootstrapped := portal.bootstrapped ++ [id] }
  | _ => portal

/-- The next statement of `deactivate_member`. -/
def deactivateStep (portal : Portal) (request : Nat) (id : String) : Portal :=
  match portal.phase request with
  | .none => portal.lockAdminMembership request (.deactivateLocked id)
  | .deactivateLocked id =>
      match portal.members.get id with
      | none => portal.finish request
      | some member => portal.goOn request (.deactivateFound member)
  | .deactivateFound member =>
      if member.isUsableAdmin portal.now then portal.goOn request (.deactivateChecks member)
      else portal.goOn request (.deactivateReady member none)
  | .deactivateChecks member => portal.goOn request (.deactivateRead member portal.members)
  | .deactivateRead member rows =>
      if anotherDurable member rows portal.now then
        portal.goOn request (.deactivateReady member (some portal.now))
      else portal.finish request
  | .deactivateReady member _ =>
      { portal.finish request with
        members := portal.members.update member.id Member.deactivated }
  | _ => portal

/-- What one event does. A request may end early: a wrong token, a spent rate limit, a form without
a name, a failure. -/
def step (sha : Sha256) (portal : Portal) : Event → Portal
  | .wait time => { portal with now := max portal.now time }
  | .create id apiKey isComplianceAdmin expiresAt =>
      match portal.members.add (newMember sha id apiKey isComplianceAdmin expiresAt) with
      | none => portal
      | some members => { portal with members := members }
  | .regenerateKey id apiKey =>
      if portal.members.rows.any fun other => other.apiKeyHash = some (sha.hexOfText apiKey) then portal
      else
        { portal with members := portal.members.update id (.withKey (sha.hexOfText apiKey)) }
  | .setup request id apiKey => setupStep sha portal request id apiKey
  | .deactivate request id => deactivateStep portal request id
  | .abandon request => portal.finish request

/-- A sequence of events. -/
def run (sha : Sha256) (portal : Portal) (events : List Event) : Portal :=
  events.foldl (step sha) portal

end Portal

end TrustPortal.Auth
