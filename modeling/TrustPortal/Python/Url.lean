import TrustPortal.Python.Text

/-!
# `TrustPortal.Python.Url`: `urllib.parse`

`urlsplit` cuts a URL into its parts, and a `SplitResult` has the properties of the parts.
`urljoin` resolves a URL against a base. Both raise a `ValueError` on some texts, here `none`, and
so does `port`.

What the Unicode data and `ipaddress` say of a text is a parameter, `UrlTables`.
-/

set_option autoImplicit false

namespace TrustPortal.Python

/-- What `urllib.parse` reads from other modules: `unicodedata.normalize("NFKC", text)`,
`text.lower()`, and whether `ipaddress.ip_address` takes a text as an IPv6 address. -/
structure UrlTables where
  nfkc : Str → Str
  lower : Str → Str
  isIPv6 : Str → Bool

/-! ## Characters -/

namespace CodePoint

/-- `c.isascii()`. -/
def isAscii (c : CodePoint) : Bool := decide (c.val < 0x80)

/-- An ASCII letter. -/
def isAsciiAlpha (c : CodePoint) : Bool :=
  (decide (65 ≤ c.val) && decide (c.val ≤ 90)) || (decide (97 ≤ c.val) && decide (c.val ≤ 122))

/-- An ASCII digit. -/
def isAsciiDigit (c : CodePoint) : Bool := decide (48 ≤ c.val) && decide (c.val ≤ 57)

/-- A character of `scheme_chars`. -/
def isSchemeChar (c : CodePoint) : Bool :=
  c.isAsciiAlpha || c.isAsciiDigit || c.is '+' || c.is '-' || c.is '.'

/-- `c.lower()` of an ASCII character. -/
def asciiLower (c : CodePoint) : CodePoint :=
  if 65 ≤ c.val ∧ c.val ≤ 90 then ofNat (c.val + 32) else c

end CodePoint

/-- `text.partition(sep)`: what stands before the first separator, whether there is one, and what
stands behind it. -/
def partition (sep : Char) (text : Str) : Str × Bool × Str :=
  match text.span fun c => !c.is sep with
  | (before, _ :: behind) => (before, true, behind)
  | (before, []) => (before, false, [])

/-- `text.rpartition(sep)`. -/
def rpartition (sep : Char) (text : Str) : Str × Bool × Str :=
  match partition sep text.reverse with
  | (behind, true, before) => (before.reverse, true, behind.reverse)
  | (_, false, _) => ([], false, text)

/-! ## The authority -/

/-- `_check_bracketed_host`: `v`, hexadecimal digits, a dot and more, or an IPv6 address. -/
def checkBracketedHost (tables : UrlTables) (hostname : Str) : Bool :=
  match hostname with
  | c :: rest =>
    if c.is 'v' then
      let (digits, dot, more) := partition '.' rest
      let hexDigit (c : CodePoint) := c.isAsciiDigit
        || (decide (97 ≤ c.val) && decide (c.val ≤ 102)) || (decide (65 ≤ c.val) && decide (c.val ≤ 70))
      dot && !digits.isEmpty && digits.all hexDigit && !more.isEmpty
        && more.all fun c => !c.is '\n'
    else tables.isIPv6 hostname
  | [] => tables.isIPv6 []

/-- `_check_bracketed_netloc`. -/
def checkBracketedNetloc (tables : UrlTables) (netloc : Str) : Bool :=
  let (_, _, hostnameAndPort) := rpartition '@' netloc
  let (beforeBracket, haveOpen, bracketed) := partition '[' hostnameAndPort
  if haveOpen then
    let (hostname, _, port) := partition ']' bracketed
    beforeBracket.isEmpty && (port.isEmpty || (port.head?.any fun c => c.is ':'))
      && checkBracketedHost tables hostname
  else
    let (hostname, _, _) := partition ':' hostnameAndPort
    checkBracketedHost tables hostname

/-- `_checknetloc`: NFKC gives the authority no delimiter. -/
def checkNetloc (tables : UrlTables) (netloc : Str) : Bool :=
  if netloc.all CodePoint.isAscii then true
  else
    let n := netloc.filter fun c => !(c.is '@' || c.is ':' || c.is '#' || c.is '?')
    let netloc2 := tables.nfkc n
    decide (n = netloc2)
      || !netloc2.any fun c => c.is '/' || c.is '?' || c.is '#' || c.is '@' || c.is ':'

/-- An authority that `urlsplit` accepts. -/
def validNetloc (tables : UrlTables) (netloc : Str) : Bool :=
  let opens := netloc.any fun c => c.is '['
  let closes := netloc.any fun c => c.is ']'
  (opens == closes) && (!opens || checkBracketedNetloc tables netloc) && checkNetloc tables netloc

/-! ## The parts -/

/-- `SplitResult`. -/
structure SplitResult where
  scheme : Str
  netloc : Str
  path : Str
  query : Str
  fragment : Str
  deriving DecidableEq, Repr

/-- Without the control characters and spaces at the start, and without tabs and line ends. -/
def cleanUrl (url : Str) : Str :=
  (url.dropWhile fun c => decide (c.val ≤ 0x20)).filter fun c =>
    !(c.is '\t' || c.is '\r' || c.is '\n')

/-- The scheme in lower case and what follows it, where a URL has one. -/
def splitScheme (url : Str) (default : Str) : Str × Str :=
  let (name, colon, rest) := partition ':' url
  if colon && (name.head?.any CodePoint.isAsciiAlpha) && name.all CodePoint.isSchemeChar then
    (name.map CodePoint.asciiLower, rest)
  else (default, url)

/-- The authority of what follows a scheme, and the rest: `_splitnetloc` where it starts with
`//`. -/
def splitNetloc (url : Str) : Str × Str :=
  match url with
  | a :: b :: rest =>
    if a.is '/' && b.is '/' then rest.span fun c => !(c.is '/' || c.is '?' || c.is '#')
    else ([], url)
  | _ => ([], url)

/-- `urlsplit(url, scheme)`, none for a `ValueError`. -/
def urlsplit (tables : UrlTables) (url : Str) (scheme : Str) : Option SplitResult :=
  let (scheme, rest) := splitScheme (cleanUrl url) scheme
  let (netloc, rest) := splitNetloc rest
  let (rest, _, fragment) := partition '#' rest
  let (path, _, query) := partition '?' rest
  if validNetloc tables netloc then some ⟨scheme, netloc, path, query, fragment⟩ else none

namespace SplitResult

/-- `_userinfo`: the user name and the password. -/
def userInfo (parts : SplitResult) : Option Str × Option Str :=
  match rpartition '@' parts.netloc with
  | (info, true, _) =>
    match partition ':' info with
    | (username, true, password) => (some username, some password)
    | (username, false, _) => (some username, none)
  | (_, false, _) => (none, none)

/-- `_hostinfo`: the host and the port as they are written. -/
def hostInfo (parts : SplitResult) : Str × Option Str :=
  let (_, _, info) := rpartition '@' parts.netloc
  let (_, haveOpen, bracketed) := partition '[' info
  let (hostname, port) :=
    if haveOpen then
      let (hostname, _, behind) := partition ']' bracketed
      let (_, _, port) := partition ':' behind
      (hostname, port)
    else
      let (hostname, _, port) := partition ':' info
      (hostname, port)
  (hostname, if port.isEmpty then none else some port)

/-- `hostname`, none where it is empty. A zone stays as it is. -/
def hostname (tables : UrlTables) (parts : SplitResult) : Option Str :=
  let (host, _) := parts.hostInfo
  if host.isEmpty then none
  else
    match partition '%' host with
    | (name, true, zone) => some (tables.lower name ++ str "%" ++ zone)
    | (name, false, _) => some (tables.lower name)

/-- The number ASCII digits write. -/
def digitsNumber (digits : Str) : Nat := digits.foldl (fun n c => 10 * n + (c.val - 48)) 0

/-- `port`: none for a `ValueError`, else the port where one is written. -/
def port (parts : SplitResult) : Option (Option Nat) :=
  match parts.hostInfo.2 with
  | none => some none
  | some digits =>
    if digits.all CodePoint.isAsciiDigit && decide (digitsNumber digits ≤ 65535) then
      some (some (digitsNumber digits))
    else none

end SplitResult

/-! ## Joining -/

/-- `uses_relative`. -/
def USES_RELATIVE : List String :=
  ["", "ftp", "http", "gopher", "nntp", "imap", "wais", "file", "https", "shttp", "mms",
    "prospero", "rtsp", "rtsps", "rtspu", "sftp", "svn", "svn+ssh", "ws", "wss"]

/-- `uses_netloc`. -/
def USES_NETLOC : List String :=
  ["", "ftp", "http", "gopher", "nntp", "telnet", "imap", "wais", "file", "mms", "https", "shttp",
    "snews", "prospero", "rtsp", "rtsps", "rtspu", "rsync", "svn", "svn+ssh", "sftp", "nfs", "git",
    "git+ssh", "ws", "wss"]

/-- `uses_params`. -/
def USES_PARAMS : List String :=
  ["", "ftp", "hdl", "prospero", "http", "imap", "https", "shttp", "rtsp", "rtsps", "rtspu", "sip",
    "sips", "mms", "sftp", "tel"]

/-- `scheme in schemes`. -/
def inSchemes (scheme : Str) (schemes : List String) : Bool :=
  schemes.any fun name => decide (scheme = str name)

/-- `_splitparams`: the parameters of the last segment. -/
def splitParams (path : Str) : Str × Str :=
  match rpartition '/' path with
  | (before, true, segment) =>
    match partition ';' segment with
    | (name, true, params) => (before ++ str "/" ++ name, params)
    | (_, false, _) => (path, [])
  | (_, false, _) =>
    match partition ';' path with
    | (name, _, params) => (name, params)

/-- The path and the parameters of `urlparse`. -/
def SplitResult.pathParams (parts : SplitResult) : Str × Str :=
  if inSchemes parts.scheme USES_PARAMS && (parts.path.any fun c => c.is ';') then
    splitParams parts.path
  else (parts.path, [])

/-- `urlunparse`. -/
def urlunparse (scheme netloc path params query fragment : Str) : Str :=
  let url := if params.isEmpty then path else path ++ str ";" ++ params
  let rooted := url.head?.any fun c => c.is '/'
  let url :=
    if !netloc.isEmpty then
      str "//" ++ netloc ++ (if !url.isEmpty && !rooted then str "/" ++ url else url)
    else if (str "//").isPrefixOf url then str "//" ++ url
    else if !scheme.isEmpty && inSchemes scheme USES_NETLOC && (url.isEmpty || rooted) then
      str "//" ++ url
    else url
  let url := if scheme.isEmpty then url else scheme ++ str ":" ++ url
  let url := if query.isEmpty then url else url ++ str "?" ++ query
  if fragment.isEmpty then url else url ++ str "#" ++ fragment

/-- `segments[1:-1] = filter(None, segments[1:-1])`. -/
def withoutEmpty (segments : List Str) : List Str :=
  match segments with
  | first :: second :: rest =>
    first :: ((second :: rest).dropLast.filter fun segment => !segment.isEmpty)
      ++ ((second :: rest).getLast?).toList
  | _ => segments

/-- The segments of a path after `.` and `..` are resolved. -/
def resolveSegments (segments : List Str) : List Str :=
  let resolved := segments.foldl (fun resolved segment =>
    if segment = str ".." then resolved.dropLast
    else if segment = str "." then resolved
    else resolved ++ [segment]) []
  if segments.getLast? = some (str ".") ∨ segments.getLast? = some (str "..") then resolved ++ [[]]
  else resolved

/-- The path of a relative URL, resolved against the path of its base. -/
def joinPaths (base path : Str) : Str :=
  let split (text : Str) := text.splitOnP fun c => c.is '/'
  let baseParts := split base
  let baseParts := if baseParts.getLast? = some [] then baseParts else baseParts.dropLast
  let segments :=
    if path.head?.any fun c => c.is '/' then split path else withoutEmpty (baseParts ++ split path)
  let joined := join (str "/") (resolveSegments segments)
  if joined.isEmpty then str "/" else joined

/-- `urljoin(base, url)`, none for a `ValueError`. -/
def urljoin (tables : UrlTables) (base url : Str) : Option Str :=
  if base.isEmpty then some url
  else if url.isEmpty then some base
  else do
    let start ← urlsplit tables base []
    let parts ← urlsplit tables url start.scheme
    let (basePath, baseParams) := start.pathParams
    let (path, params) := parts.pathParams
    if parts.scheme ≠ start.scheme ∨ !inSchemes parts.scheme USES_RELATIVE then some url
    else if inSchemes parts.scheme USES_NETLOC && !parts.netloc.isEmpty then
      some (urlunparse parts.scheme parts.netloc path params parts.query parts.fragment)
    else
      let netloc := if inSchemes parts.scheme USES_NETLOC then start.netloc else parts.netloc
      if path.isEmpty && params.isEmpty then
        some (urlunparse parts.scheme netloc basePath baseParams
          (if parts.query.isEmpty then start.query else parts.query) parts.fragment)
      else
        some (urlunparse parts.scheme netloc (joinPaths basePath path) params parts.query parts.fragment)

end TrustPortal.Python
