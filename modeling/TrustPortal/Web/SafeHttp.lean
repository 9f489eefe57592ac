import Mathlib.Algebra.Group.Nat.Defs
import Mathlib.Data.List.Dedup
import Mathlib.Data.List.Lex
import TrustPortal.Python.Url

/-!
# `TrustPortal.Web.SafeHttp`: outbound requests that cannot reach internal addresses

`checkUrl` checks one URL and the addresses its host resolves to. `safeGet` requests a URL and
follows redirects by hand, each after its own check. One pass of its loop is `pass`, and `follow`
is what the loop goes on with after a redirect.

`Outside` is what the code calls: `urllib.parse` and `ipaddress`, the resolver and the session.
What the last two answer depends on how many redirects were followed before, so a name can be
resolved anew for each request. The session reads the `Location` of a redirect also when it is not
to follow it, for `Response.next`, and what it raises then is no exception of its own
(`sessionGet`). The messages of a refusal are its constructors.
-/

set_option autoImplicit false

namespace TrustPortal.Web

open TrustPortal.Python (Str str UrlTables SplitResult urlsplit urljoin)

/-! ## Addresses -/

/-- An address of `ipaddress`. -/
structure Ip where
  v6 : Bool
  value : Nat
  deriving DecidableEq, Repr

/-- `ipaddress`: `ip_address` and the properties of an address. -/
structure IpTables where
  parse : Str → Option Ip
  isUnspecified : Ip → Bool
  isLoopback : Ip → Bool
  isLinkLocal : Ip → Bool
  isMulticast : Ip → Bool
  isReserved : Ip → Bool
  isPrivate : Ip → Bool
  isGlobal : Ip → Bool

/-- `METADATA_ADDRESSES`. -/
def METADATA_ADDRESSES : List Ip :=
  [⟨false, 0xA9FEA9FE⟩, ⟨false, 0xA9FEAA02⟩, ⟨false, 0xA9FEAA17⟩,
    ⟨true, 0xFD000EC2 * 2 ^ 96 + 0x254⟩, ⟨true, 0xFD000EC2 * 2 ^ 96 + 0x23⟩,
    ⟨false, 0x646464C8⟩, ⟨false, 0xC00000C0⟩, ⟨false, 0xA83F8110⟩]

/-- `ipv4_mapped`: the address is in `::ffff:0:0/96`. -/
def Ip.isMapped (ip : Ip) : Bool := decide (ip.value / 2 ^ 32 = 0xFFFF)

/-- `ip in _NAT64`: `64:ff9b::/96`. -/
def Ip.isNat64 (ip : Ip) : Bool := decide (ip.value / 2 ^ 32 = 0x64FF9B * 2 ^ 64)

/-- `_embedded_ipv4` of an IPv6 address. -/
def embeddedIpv4 (ip : Ip) : Option Ip :=
  if ip.isMapped then some ⟨false, ip.value % 2 ^ 32⟩
  else if ip.value / 2 ^ 112 = 0x2002 then some ⟨false, ip.value / 2 ^ 80 % 2 ^ 32⟩
  else if ip.isNat64 || (decide (ip.value / 2 ^ 32 = 0) && decide (1 < ip.value)) then
    some ⟨false, ip.value % 2 ^ 32⟩
  else none

/-- `ip in _SHARED_V4`: `100.64.0.0/10`. -/
def Ip.isShared (ip : Ip) : Bool := !ip.v6 && decide (ip.value / 2 ^ 22 = 0x64400000 / 2 ^ 22)

/-- `_PRIVATE_REASONS`. -/
def PRIVATE_REASONS : List String := ["private", "shared", "loopback"]

/-- The reason an address itself gives, the metadata addresses apart. -/
def IpTables.ownReason (ips : IpTables) (ip : Ip) (allowPrivate : Bool) : Option String :=
  let reason :=
    if ips.isUnspecified ip then some "unspecified"
    else if ips.isLoopback ip then some "loopback"
    else if ips.isLinkLocal ip then some "link-local"
    else if ips.isMulticast ip then some "multicast"
    else if ips.isReserved ip then some "reserved"
    else if ip.isShared then some "shared"
    else if ips.isPrivate ip then some "private"
    else if !ips.isGlobal ip then some "non-public"
    else none
  if allowPrivate && reason.any PRIVATE_REASONS.contains then none else reason

/-- `refusal_reason` of an IPv4 address. -/
def IpTables.reasonV4 (ips : IpTables) (ip : Ip) (allowPrivate : Bool) : Option String :=
  if METADATA_ADDRESSES.contains ip then some "cloud metadata" else ips.ownReason ip allowPrivate

/-- `refusal_reason`. -/
def IpTables.refusalReason (ips : IpTables) (address : Str) (allowPrivate : Bool) :
    Option String :=
  match ips.parse (Python.partition '%' address).1 with
  | none => some "invalid"
  | some ip =>
    if !ip.v6 then ips.reasonV4 ip allowPrivate
    else if METADATA_ADDRESSES.contains ip then some "cloud metadata"
    else
      match embeddedIpv4 ip with
      | some embedded =>
        let reason := ips.reasonV4 embedded allowPrivate
        if reason.isSome || ip.isMapped || ip.isNat64 then reason
        else ips.ownReason ip allowPrivate
      | none => ips.ownReason ip allowPrivate

/-! ## One URL -/

/-- What the message of an `UnsafeURLError` says. -/
inductive Refusal
  | notUrl
  | unparsable
  | scheme
  | noHost
  | credentials
  | unresolved
  | address (address : Str) (reason : String)
  | peer
  deriving DecidableEq, Repr

/-- A request of the session. Its redirects are not followed. -/
structure Request (A : Type) where
  url : Str
  headers : List (Str × Str)
  timeout : Nat
  /-- `NO_PROXIES` are passed. -/
  noProxies : Bool
  params : List (Str × Str)
  auth : Option A
  stream : Bool
  deriving DecidableEq, Repr

/-- A response, and its `Location` header. -/
structure Response (B : Type) where
  status : Nat
  location : Option Str
  body : B

/-- An exception of `session.get`: one of `requests`, that of `_check_peer`, or a plain
`ValueError` (a `UnicodeDecodeError` is one). -/
inductive GetError
  | requests
  | peer
  | valueError
  deriving DecidableEq, Repr

/-- What the code calls. -/
structure Outside (A B : Type) where
  urls : UrlTables
  ips : IpTables
  /-- `socket.getaddrinfo` after some redirects, none for an `OSError` or a `UnicodeError`. -/
  resolve : Nat → Str → Nat → Option (List Str)
  /-- The request of `session.get` after some redirects, and its answer. -/
  get : Nat → Request A → Except GetError (Response B)
  /-- `requests` can build the request that a `Location` leads to. It decodes the header's bytes
  as UTF-8, parses the URL and joins it with that of the request. -/
  nextRequest : Request A → Str → Bool

/-- `ALLOWED_SCHEMES`. -/
def ALLOWED_SCHEMES : List String := ["http", "https"]

/-- `DEFAULT_PORTS.get(scheme)`. -/
def defaultPort (scheme : Str) : Option Nat :=
  if scheme = str "http" then some 80 else if scheme = str "https" then some 443 else none

/-- `port or default`: no port and the port 0 are the default. -/
def portOr (port default : Option Nat) : Option Nat :=
  match port with
  | some (n + 1) => some (n + 1)
  | _ => default

section
variable {A B : Type} (outside : Outside A B)

/-- `sorted({info[4][0] for info in infos})`. -/
def sortedAddresses (infos : List Str) : List Str :=
  infos.dedup.mergeSort fun a b =>
    decide (a.map Python.CodePoint.val ≤ b.map Python.CodePoint.val)

/-- `check_url`. -/
def checkUrl (redirects : Nat) (url : Str) (allowPrivate : Bool) : Except Refusal (List Str) :=
  if url.isEmpty then .error .notUrl
  else
    match (urlsplit outside.urls url []).bind fun parts => parts.port.map fun port => (parts, port)
      with
    | none => .error .unparsable
    | some (parts, port) =>
      let scheme := parts.scheme.map Python.CodePoint.asciiLower
      if !Python.inSchemes scheme ALLOWED_SCHEMES then .error .scheme
      else
        match parts.hostname outside.urls with
        | none => .error .noHost
        | some host =>
          if host.isEmpty then .error .noHost
          else if parts.userInfo ≠ (none, none) then .error .credentials
          else
            match outside.resolve redirects host ((portOr port (defaultPort scheme)).getD 0) with
            | none => .error .unresolved
            | some infos =>
              let addresses := sortedAddresses infos
              if addresses.isEmpty then .error .unresolved
              else
                match addresses.findSome? fun address =>
                    (outside.ips.refusalReason address allowPrivate).map fun reason =>
                      (address, reason) with
                | some (address, reason) => .error (.address address reason)
                | none => .ok addresses

/-- `_origin`, none for a `ValueError`. -/
def originOf (urls : UrlTables) (url : Str) : Option (Str × Str × Option Nat) := do
  let parts ← urlsplit urls url []
  let port ← parts.port
  let scheme := parts.scheme.map Python.CodePoint.asciiLower
  some (scheme, urls.lower ((parts.hostname urls).getD []), portOr port (defaultPort scheme))

/-! ## `safe_get` -/

/-- The arguments of `safe_get`. Proxies are those of the session or of its environment. -/
structure GetArgs (A : Type) where
  url : Str
  timeout : Nat
  headers : List (Str × Str)
  maxRedirects : Int
  allowPrivate : Bool
  sessionProxies : Bool
  params : List (Str × Str)
  auth : Option A
  stream : Bool

/-- An exception of `safe_get`. -/
inductive SafeGetError
  | unsafeUrl (refusal : Refusal)
  | tooManyRedirects
  | requests
  | valueError
  deriving DecidableEq, Repr

/-- The variables of the loop. -/
structure Hop (A : Type) where
  redirects : Nat
  current : Str
  sendHeaders : List (Str × Str)
  sendAuth : Option A
  sendParams : List (Str × Str)

/-- `REDIRECT_STATUSES`. -/
def REDIRECT_STATUSES : List Nat := [301, 302, 303, 307, 308]

variable (args : GetArgs A)

/-- The request of a pass. -/
def GetArgs.request (hop : Hop A) : Request A where
  url := hop.current
  headers := hop.sendHeaders
  timeout := args.timeout
  noProxies := args.sessionProxies
  params := hop.sendParams
  auth := hop.sendAuth
  stream := args.stream

/-- `session.get(..., allow_redirects=False)`: the request, and the `Response.next` of a redirect. -/
def sessionGet (redirects : Nat) (request : Request A) : Except GetError (Response B) :=
  match outside.get redirects request with
  | .error error => .error error
  | .ok response =>
    if REDIRECT_STATUSES.contains response.status
        && response.location.any fun location => !outside.nextRequest request location then
      .error .valueError
    else .ok response

/-- How a pass of the loop ends: the URL is refused, the request is the last one, or it is
answered with a `Location` to follow. -/
inductive PassResult (B : Type)
  | refused (refusal : Refusal)
  | finished (outcome : Except SafeGetError (Response B))
  | redirected (location : Str)

/-- One pass of the loop, up to the new URL. -/
def pass (hop : Hop A) : PassResult B :=
  match checkUrl outside hop.redirects hop.current args.allowPrivate with
  | .error refusal => .refused refusal
  | .ok _ =>
    match sessionGet outside hop.redirects (args.request hop) with
    | .error .requests => .finished (.error .requests)
    | .error .peer => .finished (.error (.unsafeUrl .peer))
    | .error .valueError => .finished (.error .valueError)
    | .ok response =>
      if !REDIRECT_STATUSES.contains response.status then .finished (.ok response)
      else
        match response.location with
        | none => .finished (.ok response)
        | some location =>
          if location.isEmpty then .finished (.ok response)
          else if args.maxRedirects ≤ hop.redirects then .finished (.error .tooManyRedirects)
          else .redirected location

/-- `k.lower() == "authorization"`. -/
def isAuthorization (urls : UrlTables) (name : Str) : Bool :=
  decide (urls.lower name = str "authorization")

/-- What the loop goes on with after a redirect, none for a `ValueError`. -/
def follow (urls : UrlTables) (origin : Str × Str × Option Nat) (hop : Hop A) (location : Str) :
    Option (Hop A) := do
  let current ← urljoin urls hop.current (Python.strip location)
  let reached ← originOf urls current
  if reached ≠ origin then
    some ⟨hop.redirects + 1, current,
      hop.sendHeaders.filter fun header => !isAuthorization urls header.1, none, []⟩
  else some ⟨hop.redirects + 1, current, hop.sendHeaders, hop.sendAuth, []⟩

/-- The requests that were made, and what `safe_get` returns or raises. -/
structure GetResult (A B : Type) where
  requests : List (Request A)
  outcome : Except SafeGetError (Response B)

variable {outside args}

theorem follow_redirects {urls : UrlTables} {origin : Str × Str × Option Nat} {hop next : Hop A}
    {location : Str} (h : follow urls origin hop location = some next) :
    next.redirects = hop.redirects + 1 := by
  simp only [follow, Option.bind_eq_bind, Option.bind_eq_some_iff] at h
  obtain ⟨current, -, reached, -, h⟩ := h
  split at h <;> exact Option.some_inj.mp h ▸ rfl

theorem redirects_lt {hop : Hop A} {location : Str}
    (h : pass outside args hop = .redirected location) : (hop.redirects : Int) < args.maxRedirects := by
  unfold pass at h
  split at h
  · cases h
  split at h
  · cases h
  · cases h
  · cases h
  split at h
  · cases h
  split at h
  · cases h
  split at h
  · cases h
  split at h
  · cases h
  · omega

variable (outside args)

/-- The loop of `safe_get`. -/
def getLoop (origin : Str × Str × Option Nat) (hop : Hop A) : GetResult A B :=
  match _hpass : pass outside args hop with
  | .refused refusal => ⟨[], .error (.unsafeUrl refusal)⟩
  | .finished outcome => ⟨[args.request hop], outcome⟩
  | .redirected location =>
    match _hfollow : follow outside.urls origin hop location with
    | none => ⟨[args.request hop], .error .valueError⟩
    | some next =>
      let rest := getLoop origin next
      ⟨args.request hop :: rest.requests, rest.outcome⟩
termination_by (args.maxRedirects - hop.redirects).toNat
decreasing_by
  have hlt := redirects_lt _hpass
  have hnext := follow_redirects _hfollow
  omega

/-- The variables before the loop. -/
def GetArgs.start : Hop A := ⟨0, args.url, args.headers, args.auth, args.params⟩

/-- `safe_get`. -/
def safeGet : GetResult A B :=
  match originOf outside.urls args.url with
  | none => ⟨[], .error .valueError⟩
  | some origin => getLoop outside args origin args.start

end

end TrustPortal.Web
