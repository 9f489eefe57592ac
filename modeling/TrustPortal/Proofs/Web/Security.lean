import TrustPortal.Web.Security

/-!
# `TrustPortal.Proofs.Web.Security`: what the screening of URLs accepts

`screening_iff` is the main fact. `is_http_url` asks `urlsplit` for the parts and for an
authority, not for a host. So a text whose authority `urlsplit` refuses raises a `ValueError`, and
one whose authority has user information or a port alone is accepted. On every other text the
three functions answer, and what they accept is an http(s) URL with a host (`WellFormed`).
-/

set_option autoImplicit false

namespace TrustPortal.Proofs.Web

open TrustPortal.Web
open TrustPortal.Python (Str str UrlTables Value Members SplitResult urlsplit validNetloc)

/-- The scheme of a URL. -/
def schemeOf (url : Str) : Str := (Python.splitScheme (Python.cleanUrl url) []).1

/-- The authority of a URL: what stands between `//` and the path. -/
def authorityOf (url : Str) : Str :=
  (Python.splitNetloc (Python.splitScheme (Python.cleanUrl url) []).2).1

/-- The host of an authority, without user information and port. -/
def hostOf (authority : Str) : Str := (SplitResult.mk [] authority [] [] []).hostInfo.1

/-- The scheme is `http` or `https`. -/
def isHttp (scheme : Str) : Bool := Python.inSchemes scheme ["http", "https"]

/-- An absolute http(s) URL with a host. -/
def AbsoluteHttp (urls : UrlTables) (url : Str) : Prop :=
  ∃ parts, urlsplit urls url [] = some parts ∧ isHttp parts.scheme = true
    ∧ parts.hostInfo.1 ≠ []

/-- A text whose authority `urlsplit` accepts and, in an http(s) URL, names a host or is empty. -/
def WellFormed (urls : UrlTables) (text : Str) : Prop :=
  validNetloc urls (authorityOf (Python.strip text)) = true
    ∧ (isHttp (schemeOf (Python.strip text)) = true → authorityOf (Python.strip text) ≠ [] →
      hostOf (authorityOf (Python.strip text)) ≠ [])

section
variable {urls : UrlTables} {text : Str}

/-! ## One text -/

/-- `urlsplit` raises on the authority alone. -/
private theorem urlsplit_eq (url : Str) : ∃ path query fragment,
    urlsplit urls url [] = if validNetloc urls (authorityOf url) then
      some ⟨schemeOf url, authorityOf url, path, query, fragment⟩ else none :=
  ⟨_, _, _, rfl⟩

/-- A text is an http(s) URL for `is_http_url` when it has an authority. -/
private theorem isHttpUrl_eq (text : Str) : isHttpUrl urls (.str text)
    = if validNetloc urls (authorityOf (Python.strip text)) then
        some (isHttp (schemeOf (Python.strip text)) && !(authorityOf (Python.strip text)).isEmpty)
      else none := by
  cases hempty : text.isEmpty with
  | true =>
    rw [List.isEmpty_iff.mp hempty]
    rfl
  | false =>
    simp only [isHttpUrl, hempty, Bool.false_eq_true, if_false]
    generalize Python.strip text = stripped
    obtain ⟨path, query, fragment, hsplit⟩ := @urlsplit_eq urls stripped
    rw [hsplit]
    cases validNetloc urls (authorityOf stripped) <;> rfl

/-- The host of a `SplitResult` is that of its authority. -/
private theorem hostInfo_eq (parts : SplitResult) : parts.hostInfo.1 = hostOf parts.netloc := rfl

/-- What `urlsplit` says of an accepted text. -/
private theorem absoluteHttp_iff {url : Str} : AbsoluteHttp urls url
    ↔ validNetloc urls (authorityOf url) = true ∧ isHttp (schemeOf url) = true
      ∧ hostOf (authorityOf url) ≠ [] := by
  obtain ⟨path, query, fragment, hsplit⟩ := @urlsplit_eq urls url
  simp only [AbsoluteHttp, hsplit, hostInfo_eq]
  cases hvalid : validNetloc urls (authorityOf url) with
  | false => simp
  | true =>
    simp only [if_true, Option.some.injEq, true_and]
    constructor
    · rintro ⟨parts, rfl, hscheme, hhost⟩
      exact ⟨hscheme, hhost⟩
    · rintro ⟨hscheme, hhost⟩
      exact ⟨_, rfl, hscheme, hhost⟩

/-- The verdict on a text: there is one, and what it accepts is an http(s) URL with a host. -/
def Sound (urls : UrlTables) (text : Str) : Prop :=
  ∃ verdict, isHttpUrl urls (.str text) = some verdict
    ∧ (verdict = true → AbsoluteHttp urls (Python.strip text))

private theorem sound_iff_wellFormed : Sound urls text ↔ WellFormed urls text := by
  rw [Sound, isHttpUrl_eq, WellFormed, absoluteHttp_iff]
  cases hvalid : validNetloc urls (authorityOf (Python.strip text)) with
  | false => simp
  | true =>
    simp only [if_true, Option.some.injEq, exists_eq_left', Bool.and_eq_true, Bool.not_eq_true',
      List.isEmpty_eq_false_iff, true_and, and_imp]
    exact ⟨fun h hscheme hauthority => (h hscheme hauthority).2,
      fun h hscheme hauthority => ⟨hscheme, h hscheme hauthority⟩⟩

/-! ## The functions -/

/-- What `safe_url` gives for a text: `#`, or an http(s) URL with a host. -/
def SafeUrlSound (urls : UrlTables) (text : Str) : Prop :=
  ∃ link, safeUrl urls (.str text) = some link ∧ (link ≠ str "#" → AbsoluteHttp urls link)

/-- What is written: the fields that are refused, and in any other field of the table nothing or
an http(s) URL with a host, spaces around it apart. -/
def FieldsSound (urls : UrlTables) (tableName : String) (values : Members) : Prop :=
  ∃ bad, invalidUrlFields urls tableName values = some bad
    ∧ ∀ field ∈ urlFields tableName, field ∉ bad → isSet (Python.get values field) = true →
      ∃ text, Python.get values field = .str text ∧ AbsoluteHttp urls (Python.strip text)

private theorem safeUrlSound_iff : SafeUrlSound urls text ↔ WellFormed urls text := by
  rw [← sound_iff_wellFormed, SafeUrlSound, Sound, safeUrl]
  cases hverdict : isHttpUrl urls (.str text) with
  | none => simp
  | some verdict =>
    cases verdict with
    | false => simp
    | true =>
      simp only [Option.map_some, if_true, Option.some.injEq, exists_eq_left', true_imp_iff]
      constructor
      · intro h
        by_cases hhash : Python.strip text = str "#"
        · -- The text `#` has no scheme, so it is not accepted.
          rw [isHttpUrl_eq, hhash] at hverdict
          split at hverdict
          · cases Option.some_inj.mp hverdict
          · cases hverdict
        · exact h hhash
      · exact fun h _ => h

/-- A value is refused. -/
private def refused (urls : UrlTables) (value : Value) : Bool :=
  isSet value && decide (isHttpUrl urls value = some false)

/-- The check of some fields raises where that of a set value raises. Else it gives the fields
whose value is refused. -/
private theorem invalidFields_eq_some_iff (values : Members) (fields : List String) :
    ∀ bad, invalidFields urls values fields = some bad
      ↔ (∀ field ∈ fields, isSet (Python.get values field) = true →
          isHttpUrl urls (Python.get values field) ≠ none)
        ∧ bad = fields.filter fun field => refused urls (Python.get values field) := by
  induction fields with
  | nil =>
    intro bad
    exact ⟨fun h => ⟨nofun, (Option.some_inj.mp h).symm⟩, fun h => congrArg some h.2.symm⟩
  | cons field fields ih =>
    intro bad
    rw [invalidFields, List.forall_mem_cons, List.filter_cons, refused]
    cases hset : isSet (Python.get values field) with
    | false => simp [ih]
    | true =>
      simp only [if_true, true_imp_iff, Bool.true_and, decide_eq_true_eq]
      cases hhttp : isHttpUrl urls (Python.get values field) with
      | none => simp
      | some http =>
        simp only [Option.bind_some, Option.map_eq_some_iff, ih, ne_eq, reduceCtorEq,
          not_false_eq_true, true_and, Option.some.injEq]
        cases http with
        | false =>
          simp only [Bool.false_eq_true, if_false, if_true]
          constructor
          · rintro ⟨rest, ⟨hall, rfl⟩, rfl⟩
            exact ⟨hall, rfl⟩
          · rintro ⟨hall, rfl⟩
            exact ⟨_, ⟨hall, rfl⟩, rfl⟩
        | true =>
          simp only [Bool.true_eq_false, if_true, if_false]
          constructor
          · rintro ⟨rest, ⟨hall, rfl⟩, rfl⟩
            exact ⟨hall, rfl⟩
          · rintro ⟨hall, rfl⟩
            exact ⟨_, ⟨hall, rfl⟩, rfl⟩

/-- The empty text is well formed. -/
private theorem wellFormed_nil : WellFormed urls [] := ⟨rfl, nofun⟩

private theorem fieldsSound_iff (tableName : String) (values : Members) :
    FieldsSound urls tableName values ↔ ∀ field ∈ urlFields tableName, ∀ text,
      Python.get values field = .str text → WellFormed urls text := by
  simp only [FieldsSound, invalidUrlFields, invalidFields_eq_some_iff]
  constructor
  · rintro ⟨bad, ⟨hall, rfl⟩, hsound⟩ field hfield text htext
    have hfieldSound := hsound field hfield
    have hanswers := hall field hfield
    rw [htext] at hfieldSound hanswers
    cases hempty : text.isEmpty with
    | true => rw [List.isEmpty_iff.mp hempty]; exact wellFormed_nil
    | false =>
      have hset : isSet (.str text) = true := by rw [isSet, hempty]; rfl
      obtain ⟨verdict, hverdict⟩ := Option.ne_none_iff_exists'.mp (hanswers hset)
      refine sound_iff_wellFormed.mp ⟨verdict, hverdict, ?_⟩
      rintro rfl
      have haccepted : field ∉ (urlFields tableName).filter fun field =>
          refused urls (Python.get values field) := by
        simp [refused, htext, hverdict]
      obtain ⟨other, hother, habsolute⟩ := hfieldSound haccepted hset
      cases hother
      exact habsolute
  · intro hall
    refine ⟨_, ⟨fun field hfield hset => ?_, rfl⟩, fun field hfield haccepted hset => ?_⟩
    · cases hvalue : Python.get values field with
      | str text =>
        obtain ⟨verdict, hverdict, -⟩ := sound_iff_wellFormed.mpr (hall field hfield text hvalue)
        rw [hverdict]
        exact Option.some_ne_none _
      | _ => exact Option.some_ne_none _
    · have hnot : ¬refused urls (Python.get values field) = true := fun h =>
        haccepted (List.mem_filter.mpr ⟨hfield, h⟩)
      cases hvalue : Python.get values field with
      | str text =>
        obtain ⟨verdict, hverdict, hsound⟩ := sound_iff_wellFormed.mpr (hall field hfield text hvalue)
        rw [hvalue] at hnot hset
        cases verdict with
        | true => exact ⟨text, rfl, hsound rfl⟩
        | false => exact absurd (by simp [refused, hset, hverdict]) hnot
      | none => rw [hvalue] at hset; cases hset
      | _ => rw [hvalue] at hnot; exact absurd rfl hnot

/-- **Screening.** The three functions answer on a text, and what they accept is an http(s) URL
with a host, exactly where `urlsplit` accepts the text's authority and an http(s) authority that
is not empty names a host. -/
theorem screening_iff (urls : UrlTables) :
    (∀ text, Sound urls text ∧ SafeUrlSound urls text ↔ WellFormed urls text)
    ∧ ∀ tableName values, FieldsSound urls tableName values
      ↔ ∀ field ∈ urlFields tableName, ∀ text, Python.get values field = .str text →
        WellFormed urls text := by
  refine ⟨fun text => ?_, fieldsSound_iff⟩
  rw [sound_iff_wellFormed, safeUrlSound_iff, and_self]

end

/-- Tables for ASCII texts. -/
def asciiTables : UrlTables := ⟨id, List.map Python.CodePoint.asciiLower, fun _ => false⟩

/-- `is_http_url` raises on a text with an open bracket, and accepts one with a port alone. -/
theorem screening_fails :
    isHttpUrl asciiTables (.str (str "http://[")) = none
    ∧ safeUrl asciiTables (.str (str "http://:80/")) = some (str "http://:80/")
    ∧ ¬AbsoluteHttp asciiTables (str "http://:80/")
    ∧ invalidUrlFields asciiTables "evidence" [(str "url", .str (str "http://["))] = none := by
  refine ⟨by decide +kernel, by decide +kernel, fun h => ?_, by decide +kernel⟩
  have hhost : hostOf (authorityOf (str "http://:80/")) = [] := by decide +kernel
  exact (absoluteHttp_iff.mp h).2.2 hhost

end TrustPortal.Proofs.Web
