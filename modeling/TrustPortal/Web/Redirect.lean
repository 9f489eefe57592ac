import TrustPortal.Python.Quote
import TrustPortal.Python.Url

/-!
# `TrustPortal.Web.Redirect`: where a sign-in leads

After a sign-in the portal redirects to the `next` parameter of the request, which anybody can put
into a link. `safeNextUrl` takes it only where it is a path of the portal.

`staysOnSite` is how a browser resolves a reference against a page of the portal, as far as the host
is concerned: it takes away controls and spaces at the ends and tabs and line ends anywhere, reads a
scheme if there is one, and reads a host after two slashes, where a backslash is a slash too.
-/

set_option autoImplicit false

namespace TrustPortal.Web

open TrustPortal.Python

/-! ## The portal -/

/-- `_is_plain_path`. -/
def isPlainPath (value : Str) : Bool :=
  (value.head?.any fun c => c.is '/') && !(str "//").isPrefixOf value
    && value.all fun c => decide (0x21 ≤ c.val) && decide (c.val ≤ 0x7E) && !c.is '\\'

/-- The loop of `safe_next_url`, with so many rounds left: it ends at a text that is decoded already. -/
def decodesPlainly : Nat → Str → Bool
  | 0, _ => false
  | rounds + 1, candidate =>
    isPlainPath candidate
      && (unquote candidate = candidate || decodesPlainly rounds (unquote candidate))

/-- `safe_next_url`, none for a `ValueError` of `urlsplit`. -/
def safeNextUrl (urls : UrlTables) (value : Option Str) (fallback : Str) : Option Str :=
  match value with
  | none => some fallback
  | some value =>
    if value.isEmpty then some fallback
    else if !decodesPlainly 4 value then some fallback
    else
      (urlsplit urls value []).map fun parts =>
        if !parts.scheme.isEmpty || !parts.netloc.isEmpty then fallback else value

/-! ## A browser -/

/-- A C0 control or a space. -/
def isControlOrSpace (c : CodePoint) : Bool := decide (c.val ≤ 0x20)

/-- What a browser parses of a reference. -/
def browserInput (reference : Str) : Str :=
  let trimmed := ((reference.dropWhile isControlOrSpace).reverse.dropWhile isControlOrSpace).reverse
  trimmed.filter fun c => !(c.is '\t' || c.is '\r' || c.is '\n')

/-- A slash, or a backslash, which is the same in an http(s) URL. -/
def isSlash (c : CodePoint) : Bool := c.is '/' || c.is '\\'

/-- The input has a scheme. -/
def hasScheme (input : Str) : Bool :=
  let (name, colon, _) := partition ':' input
  colon && (name.head?.any CodePoint.isAsciiAlpha) && name.all CodePoint.isSchemeChar

/-- A browser resolves the reference to the host of the page. -/
def staysOnSite (reference : Str) : Bool :=
  let input := browserInput reference
  !hasScheme input && match input with
    | a :: b :: _ => !(isSlash a && isSlash b)
    | _ => true

example : staysOnSite (str " /\t/evil.example") = false := by decide
example : staysOnSite (str "\\/evil.example") = false := by decide
example : staysOnSite (str "/admin?next=//x") = true := by decide

end TrustPortal.Web
