import TrustPortal.Auth.Session

/-!
# `TrustPortal.Auth.Replay`: one cookie and its successors

The client holds every cookie that the portal ever sent it, and may present any of them again. The
runs here start from one cookie: a request presents it or a cookie that the portal issued in
answer to an earlier request. What becomes of the members between two requests is open, so each
request has the members that it finds.

A signature carries the second in which it was made. `open_session` of Flask refuses a cookie
whose signature is older than `PERMANENT_SESSION_LIFETIME`, or from the future.
-/

set_option autoImplicit false

namespace TrustPortal.Auth

/-- A cookie with the time of its signature. -/
structure SignedCookie where
  cookie : Cookie
  signedAt : ℤ
  deriving DecidableEq

/-- `SESSION_ABSOLUTE_LIFETIME` and `PERMANENT_SESSION_LIFETIME`, in seconds. -/
structure SessionConfig where
  lifetime : ℚ
  permanentLifetime : ℚ

/-- The two lifetimes of the configuration, 12 hours each. -/
def SessionConfig.default : SessionConfig where
  lifetime := 43200
  permanentLifetime := 43200

/-- A request: the cookie that it presents, the members that it finds, and when the answer is
signed. -/
structure CookieRequest where
  presented : SignedCookie
  now : ℚ
  members : List Member
  answeredAt : ℤ
  deriving DecidableEq

/-- `open_session`: the age of the signature. -/
def signatureCurrent (config : SessionConfig) (signed : SignedCookie) (now : ℚ) : Bool :=
  decide (0 ≤ ⌊now⌋ - signed.signedAt)
    && decide (((⌊now⌋ - signed.signedAt : ℤ) : ℚ) ≤ config.permanentLifetime)

/-- What has happened to a cookie: the copies there are of it and of its successors, when it was
presented first, and when a request was authenticated by one of them. -/
structure Replay where
  cookies : List SignedCookie
  first : Option ℚ
  authenticatedAt : List ℚ
  deriving DecidableEq

/-- A cookie that has not been presented. -/
def Replay.start (root : SignedCookie) : Replay := ⟨[root], none, []⟩

/-- The member that a request is authenticated as. -/
def replayMember (config : SessionConfig) (replay : Replay) (request : CookieRequest) :
    Option Member :=
  if request.presented ∈ replay.cookies ∧ signatureCurrent config request.presented request.now then
    sessionMember config.lifetime request.members request.presented.cookie request.now
  else none

/-- One request. An authenticated one is answered with a cookie. -/
def replayStep (config : SessionConfig) (root : SignedCookie) (replay : Replay)
    (request : CookieRequest) : Replay :=
  let first :=
    if request.presented = root then some (replay.first.getD request.now) else replay.first
  if (replayMember config replay request).isSome then
    { cookies := replay.cookies
        ++ [⟨renewed request.presented.cookie request.now, request.answeredAt⟩]
      first := first
      authenticatedAt := replay.authenticatedAt ++ [request.now] }
  else { replay with first := first }

/-- A sequence of requests. -/
def replayRun (config : SessionConfig) (root : SignedCookie) (requests : List CookieRequest) :
    Replay :=
  requests.foldl (replayStep config root) (.start root)

end TrustPortal.Auth
