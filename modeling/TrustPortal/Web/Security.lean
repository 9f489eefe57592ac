import TrustPortal.Python.Url
import TrustPortal.Python.Value

/-!
# `TrustPortal.Web.Security`: the screening of URL fields

`isHttpUrl` is the check of a URL, `safeUrl` the filter of the templates and `invalidUrlFields`
the check of what is written. A `ValueError` of `urlsplit` is `none`.
-/

set_option autoImplicit false

namespace TrustPortal.Web

open TrustPortal.Python (Str str UrlTables Value Members urlsplit)

/-- `URL_FIELDS.get(table_name, ())`. -/
def urlFields (tableName : String) : List String :=
  if tableName = "evidence" then ["url"]
  else if tableName = "vendors" then
    ["website_url", "privacy_policy_url", "security_page_url", "tos_url"]
  else []

/-- `is_http_url`. -/
def isHttpUrl (urls : UrlTables) (value : Value) : Option Bool :=
  match value with
  | .str text =>
    if text.isEmpty then some false
    else
      (urlsplit urls (Python.strip text) []).map fun parts =>
        Python.inSchemes parts.scheme ["http", "https"] && !parts.netloc.isEmpty
  | _ => some false

/-- `safe_url`. -/
def safeUrl (urls : UrlTables) (value : Value) : Option Str :=
  match value with
  | .str text => (isHttpUrl urls value).map fun http => if http then Python.strip text else str "#"
  | _ => some (str "#")

/-- `value not in (None, "")`. -/
def isSet : Value → Bool
  | .none => false
  | .str text => !text.isEmpty
  | _ => true

/-- The fields of a list whose value is set and no http(s) URL. -/
def invalidFields (urls : UrlTables) (values : Members) : List String → Option (List String)
  | [] => some []
  | field :: fields =>
    let value := Python.get values field
    if isSet value then
      (isHttpUrl urls value).bind fun http =>
        (invalidFields urls values fields).map fun bad => if http then bad else field :: bad
    else invalidFields urls values fields

/-- `invalid_url_fields`. -/
def invalidUrlFields (urls : UrlTables) (tableName : String) (values : Members) :
    Option (List String) :=
  invalidFields urls values (urlFields tableName)

/-- `url_fields_error`: `some none` where all fields are valid. -/
def urlFieldsError (urls : UrlTables) (tableName : String) (values : Members) :
    Option (Option String) :=
  (invalidUrlFields urls tableName values).map fun bad =>
    if bad.isEmpty then none else some (", ".intercalate bad ++ " must be an http(s) URL")

end TrustPortal.Web
