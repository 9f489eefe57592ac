import TrustPortal.Web.SafeHttp

/-!
# `TrustPortal.Proofs.Web.SafeHttp`: what `safe_get` requests and raises

* `safeGet_guarded`: every request passed its check, there are at most `maxRedirects + 1`, and
  credentials go to the first origin only: one scheme, one host and one port (`SameOrigin`).
  `Sending` is what a state of the loop keeps: while it has a credential, its URL has the first
  origin.
* `safeGet_handled_iff`: the exceptions of `urlsplit`, `port` and `urljoin` are not caught before
  the loop and after a redirect, and neither are those of the session, which reads a `Location`
  before the loop does. So a text they do not parse ends in a plain `ValueError`. `Leads` is the
  states of the loop, each behind a redirect of the one before, and `AnswerReadable` what must hold
  of the answer in each.
-/

set_option autoImplicit false

namespace TrustPortal.Proofs.Web

open TrustPortal.Web
open TrustPortal.Python (Str str UrlTables urljoin)

section
variable {A B : Type} {outside : Outside A B} {args : GetArgs A}
  {origin : Str × Str × Option Nat}

/-! ## Origins -/

/-- Two URLs that parse, with one scheme, one host and one port. A URL without a port, or with the
port 0, has that of its scheme. -/
def SameOrigin (urls : UrlTables) (a b : Str) : Prop :=
  ∃ partsA partsB portA portB, Python.urlsplit urls a [] = some partsA
    ∧ Python.urlsplit urls b [] = some partsB
    ∧ partsA.port = some portA ∧ partsB.port = some portB
    ∧ partsA.scheme.map Python.CodePoint.asciiLower = partsB.scheme.map Python.CodePoint.asciiLower
    ∧ urls.lower ((partsA.hostname urls).getD []) = urls.lower ((partsB.hostname urls).getD [])
    ∧ portOr portA (defaultPort (partsA.scheme.map Python.CodePoint.asciiLower))
      = portOr portB (defaultPort (partsB.scheme.map Python.CodePoint.asciiLower))

/-- What `_origin` has of a URL. -/
theorem originOf_eq_some {urls : UrlTables} {url scheme host : Str} {port : Option Nat}
    (h : originOf urls url = some (scheme, host, port)) :
    ∃ parts given, Python.urlsplit urls url [] = some parts ∧ parts.port = some given
      ∧ scheme = parts.scheme.map Python.CodePoint.asciiLower
      ∧ host = urls.lower ((parts.hostname urls).getD [])
      ∧ port = portOr given (defaultPort (parts.scheme.map Python.CodePoint.asciiLower)) := by
  simp only [originOf, Option.bind_eq_bind, Option.bind_eq_some_iff, Option.some.injEq,
    Prod.mk.injEq] at h
  obtain ⟨parts, hparts, given, hgiven, hscheme, hhost, hport⟩ := h
  exact ⟨parts, given, hparts, hgiven, hscheme.symm, hhost.symm, hport.symm⟩

/-- URLs with one `_origin` have one origin. -/
theorem sameOrigin_of_originOf {urls : UrlTables} {a b : Str} {origin : Str × Str × Option Nat}
    (ha : originOf urls a = some origin) (hb : originOf urls b = some origin) :
    SameOrigin urls a b := by
  obtain ⟨scheme, host, port⟩ := origin
  obtain ⟨partsA, portA, hpartsA, hportA, hschemeA, hhostA, hdefaultA⟩ := originOf_eq_some ha
  obtain ⟨partsB, portB, hpartsB, hportB, hschemeB, hhostB, hdefaultB⟩ := originOf_eq_some hb
  exact ⟨partsA, partsB, portA, portB, hpartsA, hpartsB, hportA, hportB,
    hschemeA.symm.trans hschemeB, hhostA.symm.trans hhostB, hdefaultA.symm.trans hdefaultB⟩

/-! ## The requests -/

/-- A header or an authentication that only the first origin may see. -/
def Sends (urls : UrlTables) (headers : List (Str × Str)) (auth : Option A) : Prop :=
  (∃ header ∈ headers, isAuthorization urls header.1 = true) ∨ auth.isSome = true

/-- What a state keeps: with a credential, its URL has the first origin. -/
def Sending (outside : Outside A B) (origin : Str × Str × Option Nat) (hop : Hop A) : Prop :=
  Sends outside.urls hop.sendHeaders hop.sendAuth → originOf outside.urls hop.current = some origin

/-- A redirect to another origin drops the credentials, and one to the first origin keeps what
there is. -/
theorem sending_follow {hop next : Hop A} {location : Str}
    (h : follow outside.urls origin hop location = some next) : Sending outside origin next := by
  simp only [follow, Option.bind_eq_bind, Option.bind_eq_some_iff] at h
  obtain ⟨current, -, reached, horigin, h⟩ := h
  split at h
  · obtain rfl := Option.some_inj.mp h
    rintro (⟨header, hheader, hname⟩ | hauth)
    · have hkept := (List.mem_filter.mp hheader).2
      rw [hname] at hkept
      cases hkept
    · cases hauth
  · rename_i hsame
    obtain rfl := Option.some_inj.mp h
    intro _
    rw [not_not] at hsame
    exact hsame ▸ horigin

/-- A pass that requests has checked its URL. -/
private theorem check_of_pass {hop : Hop A}
    (h : ∀ refusal, pass outside args hop ≠ .refused refusal) :
    ∃ addresses, checkUrl outside hop.redirects hop.current args.allowPrivate = .ok addresses := by
  unfold Web.pass at h
  cases hcheck : checkUrl outside hop.redirects hop.current args.allowPrivate with
  | ok addresses => exact ⟨addresses, rfl⟩
  | error refusal =>
    rw [hcheck] at h
    exact absurd rfl (h refusal)

/-- A pass that refuses has refused its URL. -/
private theorem check_of_refused {hop : Hop A} {refusal : Refusal}
    (h : pass outside args hop = .refused refusal) :
    checkUrl outside hop.redirects hop.current args.allowPrivate = .error refusal := by
  unfold Web.pass at h
  split at h
  · rename_i hcheck
    cases h
    exact hcheck
  split at h
  · cases h
  · cases h
  · cases h
  split at h
  · cases h
  split at h
  · cases h
  split at h
  · cases h
  split at h <;> cases h

private theorem eq_of_getElem?_one {α : Type} {a b : α} {i : Nat} (h : [a][i]? = some b) :
    i = 0 ∧ a = b := by
  cases i with
  | zero => exact ⟨rfl, Option.some_inj.mp h⟩
  | succ i => cases h

/-- A request that is made after `n` redirects. -/
structure RequestOf (outside : Outside A B) (args : GetArgs A) (origin : Str × Str × Option Nat)
    (n : Nat) (request : Request A) : Prop where
  checked : ∃ addresses, checkUrl outside n request.url args.allowPrivate = .ok addresses
  sending : Sends outside.urls request.headers request.auth →
    originOf outside.urls request.url = some origin

private theorem requestOf_pass {hop : Hop A} (hsending : Sending outside origin hop)
    (h : ∀ refusal, pass outside args hop ≠ .refused refusal) :
    RequestOf outside args origin hop.redirects (args.request hop) where
  checked := check_of_pass h
  sending := hsending

/-- The requests of a run from a state on: each is checked before it is made, at its own place in
the run, and a credential goes to the first origin only. -/
theorem getLoop_requests (hop : Hop A) (hsending : Sending outside origin hop) :
    ∀ i request, (getLoop outside args origin hop).requests[i]? = some request →
      RequestOf outside args origin (hop.redirects + i) request := by
  fun_induction getLoop outside args origin hop with
  | case1 hop refusal hpass =>
    intro i request h
    cases h
  | case2 hop outcome hpass =>
    intro i request h
    obtain ⟨rfl, rfl⟩ := eq_of_getElem?_one h
    exact requestOf_pass hsending (by simp [hpass])
  | case3 hop location hpass hfollow =>
    intro i request h
    obtain ⟨rfl, rfl⟩ := eq_of_getElem?_one h
    exact requestOf_pass hsending (by simp [hpass])
  | case4 hop location hpass next hfollow rest ih =>
    intro i request h
    cases i with
    | zero =>
      obtain rfl := Option.some_inj.mp h
      exact requestOf_pass hsending (by simp [hpass])
    | succ i =>
      -- The request is one of those after the redirect.
      have hlater := ih (sending_follow hfollow) i request h
      rw [follow_redirects hfollow, Nat.add_assoc, Nat.add_comm 1] at hlater
      exact hlater

/-- A run makes one request more than it may follow redirects. -/
theorem getLoop_length (hop : Hop A) : (getLoop outside args origin hop).requests.length
    ≤ (args.maxRedirects - hop.redirects).toNat + 1 := by
  fun_induction getLoop outside args origin hop with
  | case1 hop refusal hpass => exact Nat.zero_le _
  | case2 hop outcome hpass => exact Nat.le_add_left _ _
  | case3 hop location hpass hfollow => exact Nat.le_add_left _ _
  | case4 hop location hpass next hfollow rest ih =>
    have hlt := redirects_lt hpass
    rw [follow_redirects hfollow] at ih
    show (getLoop outside args origin next).requests.length + 1 ≤ _
    omega

/-- **Only checked URLs.** Every URL that is requested has passed its check before. There are at
most `maxRedirects + 1` requests. An `Authorization` header and the authentication are sent to the
origin of the first URL only. -/
theorem safeGet_guarded (outside : Outside A B) (args : GetArgs A) :
    (∀ i request, (safeGet outside args).requests[i]? = some request →
      (∃ addresses, checkUrl outside i request.url args.allowPrivate = .ok addresses)
      ∧ (Sends outside.urls request.headers request.auth →
        (∃ origin, originOf outside.urls args.url = some origin
          ∧ originOf outside.urls request.url = some origin)
        ∧ SameOrigin outside.urls args.url request.url))
    ∧ (safeGet outside args).requests.length ≤ args.maxRedirects.toNat + 1 := by
  rw [safeGet]
  cases horigin : originOf outside.urls args.url with
  | none => exact ⟨nofun, Nat.zero_le _⟩
  | some origin =>
    constructor
    · intro i request h
      have hrequest := getLoop_requests args.start (fun _ => horigin) i request h
      rw [show args.start.redirects + i = i from Nat.zero_add i] at hrequest
      refine ⟨hrequest.checked, fun hsends => ?_⟩
      have hreached := hrequest.sending hsends
      exact ⟨⟨origin, rfl, hreached⟩, sameOrigin_of_originOf horigin hreached⟩
    · have hlength := @getLoop_length A B outside args origin args.start
      rw [show ((args.start.redirects : Nat) : Int) = 0 from rfl, Int.sub_zero] at hlength
      exact hlength

/-! ## Exceptions -/

/-- An outcome that the callers handle: a response, an `UnsafeURLError`, a `TooManyRedirects` or
another exception of `requests`. -/
def Handled (outcome : Except SafeGetError (Response B)) : Prop :=
  (∃ response, outcome = .ok response) ∨ (∃ refusal, outcome = .error (.unsafeUrl refusal))
    ∨ outcome = .error .tooManyRedirects ∨ outcome = .error .requests

private theorem handled_iff (outcome : Except SafeGetError (Response B)) :
    Handled outcome ↔ outcome ≠ .error .valueError := by
  rcases outcome with (refusal | _ | _ | _) | response <;> simp [Handled]

/-- A `Location` that can be followed from a URL: `urljoin` joins them, and the URL that gives has
an origin. -/
def Followable (urls : UrlTables) (current location : Str) : Prop :=
  ∃ joined, urljoin urls current (Python.strip location) = some joined
    ∧ (originOf urls joined).isSome = true

private theorem follow_isSome_iff (urls : UrlTables) (origin : Str × Str × Option Nat)
    {hop : Hop A} {location : Str} :
    (∃ next, follow urls origin hop location = some next)
      ↔ Followable urls hop.current location := by
  simp only [follow, Option.bind_eq_bind, Option.bind_eq_some_iff, Followable,
    Option.isSome_iff_exists]
  constructor
  · rintro ⟨next, joined, hjoined, reached, hreached, -⟩
    exact ⟨joined, hjoined, reached, hreached⟩
  · rintro ⟨joined, hjoined, reached, hreached⟩
    by_cases hsame : reached ≠ origin
    · exact ⟨_, joined, hjoined, reached, hreached, if_pos hsame⟩
    · exact ⟨_, joined, hjoined, reached, hreached, if_neg hsame⟩

/-- What must hold of the answer to a state of the loop: the request raises no plain `ValueError`,
the session can build the request its `Location` leads to, and, when the loop goes on, the
`Location` can be followed. -/
structure AnswerReadable (outside : Outside A B) (args : GetArgs A) (hop : Hop A) : Prop where
  raises : outside.get hop.redirects (args.request hop) ≠ .error .valueError
  next : ∀ response location, outside.get hop.redirects (args.request hop) = .ok response →
    REDIRECT_STATUSES.contains response.status = true → response.location = some location →
    outside.nextRequest (args.request hop) location = true
  followed : ∀ response location, outside.get hop.redirects (args.request hop) = .ok response →
    REDIRECT_STATUSES.contains response.status = true → response.location = some location →
    location.isEmpty = false → (hop.redirects : Int) < args.maxRedirects →
    Followable outside.urls hop.current location

/-- An answer of the session is the answer of the request. -/
private theorem get_of_sessionGet {redirects : Nat} {request : Request A} {response : Response B}
    (h : sessionGet outside redirects request = .ok response) :
    outside.get redirects request = .ok response := by
  unfold sessionGet at h
  split at h
  · cases h
  · rename_i answer hget
    split at h
    · cases h
    · rw [hget, Except.ok.inj h]

/-- The session raises no plain `ValueError` exactly when the request does not and the session can
read the `Location`. -/
theorem sessionGet_ne_iff (redirects : Nat) (request : Request A) :
    sessionGet outside redirects request ≠ .error .valueError
      ↔ outside.get redirects request ≠ .error .valueError
        ∧ ∀ response location, outside.get redirects request = .ok response →
          REDIRECT_STATUSES.contains response.status = true → response.location = some location →
          outside.nextRequest request location = true := by
  unfold sessionGet
  cases hget : outside.get redirects request with
  | error error => simp
  | ok response =>
    simp only [ne_eq, reduceCtorEq, not_false_eq_true, true_and, Except.ok.injEq]
    cases hlocation : response.location with
    | none =>
      refine iff_of_true (by simp) ?_
      rintro answer location rfl _ hsome
      rw [hlocation] at hsome
      cases hsome
    | some location =>
      constructor
      · rintro h answer found rfl hstatus hfound
        rw [hlocation, Option.some.injEq] at hfound
        subst hfound
        by_contra hnext
        rw [Bool.not_eq_true] at hnext
        exact h (if_pos (by rw [hstatus, Option.any_some, hnext]; rfl))
      · intro h
        by_cases hstatus : REDIRECT_STATUSES.contains response.status = true
        · have hnext := h response location rfl hstatus hlocation
          simp [hnext]
        · rw [Bool.not_eq_true] at hstatus
          rw [hstatus]
          simp

/-- A pass that ends the loop with an answer, or an exception, of the session. -/
private theorem handled_finished_iff {hop : Hop A} {outcome : Except SafeGetError (Response B)}
    (h : pass outside args hop = .finished outcome) :
    (∃ addresses, checkUrl outside hop.redirects hop.current args.allowPrivate = .ok addresses)
      ∧ (Handled outcome ↔ AnswerReadable outside args hop) := by
  refine ⟨check_of_pass (by simp [h]), ?_⟩
  have hsession := @sessionGet_ne_iff A B outside hop.redirects (args.request hop)
  unfold Web.pass at h
  split at h
  · cases h
  cases hget : sessionGet outside hop.redirects (args.request hop) with
  | error error =>
    rw [hget] at h hsession
    have hanswer : ∀ response, outside.get hop.redirects (args.request hop) = .ok response →
        error = .valueError := by
      intro response hresponse
      unfold sessionGet at hget
      rw [hresponse] at hget
      dsimp only at hget
      split at hget
      · exact (Except.error.inj hget).symm
      · cases hget
    cases error with
    | valueError =>
      cases h
      refine iff_of_false (fun hhandled => (handled_iff _).mp hhandled rfl) fun hreadable => ?_
      exact hsession.mpr ⟨hreadable.raises, hreadable.next⟩ rfl
    | requests =>
      cases h
      obtain ⟨hraises, hnext⟩ := hsession.mp (by simp)
      refine iff_of_true (.inr (.inr (.inr rfl))) ⟨hraises, hnext, ?_⟩
      intro response location hresponse
      cases hanswer response hresponse
    | peer =>
      cases h
      obtain ⟨hraises, hnext⟩ := hsession.mp (by simp)
      refine iff_of_true (.inr (.inl ⟨.peer, rfl⟩)) ⟨hraises, hnext, ?_⟩
      intro response location hresponse
      cases hanswer response hresponse
  | ok response =>
    have hresponse : outside.get hop.redirects (args.request hop) = .ok response :=
      get_of_sessionGet hget
    obtain ⟨hraises, hnext⟩ := hsession.mp (by rw [hget]; simp)
    rw [hget] at h
    -- the loop does not go on after this answer
    have hends : Handled outcome ∧ ∀ location,
        REDIRECT_STATUSES.contains response.status = true → response.location = some location →
        location.isEmpty = false → ¬ (hop.redirects : Int) < args.maxRedirects := by
      dsimp only at h
      split at h
      · rename_i hstatus
        cases h
        refine ⟨.inl ⟨response, rfl⟩, fun location hredirect => ?_⟩
        rw [hredirect] at hstatus
        cases hstatus
      split at h
      · rename_i hnone
        cases h
        refine ⟨.inl ⟨response, rfl⟩, fun location _ hsome => ?_⟩
        rw [hnone] at hsome
        cases hsome
      rename_i location hlocation
      split at h
      · rename_i hempty
        cases h
        refine ⟨.inl ⟨response, rfl⟩, fun found _ hsome hnonempty => ?_⟩
        rw [hlocation, Option.some.injEq] at hsome
        rw [← hsome, hempty] at hnonempty
        cases hnonempty
      split at h
      · rename_i hmax
        cases h
        exact ⟨.inr (.inr (.inl rfl)), fun _ _ _ _ => Int.not_lt.mpr hmax⟩
      · cases h
    refine iff_of_true hends.1 ⟨hraises, hnext, ?_⟩
    intro answer location hanswer hstatus hlocation hnonempty hlt
    cases hresponse.symm.trans hanswer
    exact absurd hlt (hends.2 location hstatus hlocation hnonempty)

/-- A pass that leads to a `Location`: the session answered with it, and the loop follows it. -/
private theorem readable_redirected_iff {hop : Hop A} {location : Str}
    (h : pass outside args hop = .redirected location) :
    (∃ addresses, checkUrl outside hop.redirects hop.current args.allowPrivate = .ok addresses)
      ∧ (AnswerReadable outside args hop ↔ Followable outside.urls hop.current location) := by
  refine ⟨check_of_pass (by simp [h]), ?_⟩
  have hlt := redirects_lt h
  have hsession := @sessionGet_ne_iff A B outside hop.redirects (args.request hop)
  unfold Web.pass at h
  split at h
  · cases h
  cases hget : sessionGet outside hop.redirects (args.request hop) with
  | error error =>
    rw [hget] at h
    cases error <;> cases h
  | ok response =>
    have hresponse : outside.get hop.redirects (args.request hop) = .ok response :=
      get_of_sessionGet hget
    obtain ⟨hraises, hnext⟩ := hsession.mp (by rw [hget]; simp)
    rw [hget] at h
    dsimp only at h
    split at h
    · cases h
    rename_i hstatus
    split at h
    · cases h
    rename_i found hfound
    split at h
    · cases h
    rename_i hnonempty
    split at h
    · cases h
    cases h
    simp only [Bool.not_eq_true', Bool.not_eq_false, Bool.not_eq_true] at hstatus hnonempty
    constructor
    · intro hreadable
      exact hreadable.followed response location hresponse hstatus hfound hnonempty hlt
    · intro hfollow
      refine ⟨hraises, hnext, ?_⟩
      intro answer other hanswer _ hother _ _
      cases hresponse.symm.trans hanswer
      cases hfound.symm.trans hother
      exact hfollow

/-- The states of the loop from one on: each is what the loop goes on with after a redirect. -/
inductive Leads (outside : Outside A B) (args : GetArgs A) (origin : Str × Str × Option Nat) :
    Hop A → Hop A → Prop
  | refl {hop : Hop A} : Leads outside args origin hop hop
  | step {hop next later : Hop A} {location : Str}
      (hpass : pass outside args hop = .redirected location)
      (hfollow : follow outside.urls origin hop location = some next)
      (hleads : Leads outside args origin next later) : Leads outside args origin hop later

/-- A run ends in an exception that is not handled where it meets an answer that cannot be read,
and nowhere else. -/
theorem handled_getLoop_iff (hop : Hop A) :
    Handled (getLoop outside args origin hop).outcome
      ↔ ∀ later addresses, Leads outside args origin hop later →
        checkUrl outside later.redirects later.current args.allowPrivate = .ok addresses →
        AnswerReadable outside args later := by
  fun_induction getLoop outside args origin hop with
  | case1 hop refusal hpass =>
    refine iff_of_true (.inr (.inl ⟨refusal, rfl⟩)) ?_
    intro later addresses hleads hcheck
    cases hleads with
    | refl =>
      rw [check_of_refused hpass] at hcheck
      cases hcheck
    | step hnext => rw [hpass] at hnext; cases hnext
  | case2 hop outcome hpass =>
    obtain ⟨⟨addresses, hcheck⟩, hiff⟩ := handled_finished_iff hpass
    rw [hiff]
    constructor
    · intro hreadable later _ hleads _
      cases hleads with
      | refl => exact hreadable
      | step hnext => rw [hpass] at hnext; cases hnext
    · intro hall
      exact hall hop addresses .refl hcheck
  | case3 hop location hpass hfollow =>
    obtain ⟨⟨addresses, hcheck⟩, hiff⟩ := readable_redirected_iff hpass
    refine iff_of_false (fun h => (handled_iff _).mp h rfl) fun hall => ?_
    obtain ⟨next, hnext⟩ := (follow_isSome_iff _ origin).mpr
      (hiff.mp (hall hop addresses .refl hcheck))
    rw [hfollow] at hnext
    cases hnext
  | case4 hop location hpass next hfollow rest ih =>
    obtain ⟨⟨addresses, hcheck⟩, hiff⟩ := readable_redirected_iff hpass
    show Handled (getLoop outside args origin next).outcome ↔ _
    rw [ih]
    constructor
    · intro hall later other hleads hlater
      cases hleads with
      | refl => exact hiff.mpr ((follow_isSome_iff _ origin).mp ⟨next, hfollow⟩)
      | step hfirst hsecond hleads =>
        rw [hpass] at hfirst
        cases hfirst
        rw [hfollow] at hsecond
        obtain rfl := Option.some_inj.mp hsecond
        exact hall later other hleads hlater
    · exact fun hall later other hleads => hall later other (.step hpass hfollow hleads)

/-- **Exceptions.** `safe_get` raises only what its callers handle exactly when the first URL has
an origin and every answer that the loop gets can be read: the session reads its `Location`, and
when the loop follows it, neither `urljoin` nor `urlsplit` nor `port` raises a `ValueError`. -/
theorem safeGet_handled_iff (outside : Outside A B) (args : GetArgs A) :
    Handled (safeGet outside args).outcome
      ↔ (originOf outside.urls args.url).isSome = true
        ∧ ∀ origin later addresses, originOf outside.urls args.url = some origin →
          Leads outside args origin args.start later →
          checkUrl outside later.redirects later.current args.allowPrivate = .ok addresses →
          AnswerReadable outside args later := by
  rw [safeGet]
  cases horigin : originOf outside.urls args.url with
  | none =>
    exact iff_of_false (fun h => (handled_iff _).mp h rfl) fun h => Bool.false_ne_true h.1
  | some origin =>
    show Handled (getLoop outside args origin args.start).outcome ↔ _
    rw [handled_getLoop_iff]
    constructor
    · intro hall
      refine ⟨rfl, fun other later addresses hother => ?_⟩
      obtain rfl := Option.some_inj.mp hother
      exact hall later addresses
    · exact fun h later addresses => h.2 origin later addresses rfl

end

/-! ## A redirect -/

/-- A server that redirects its first request to `location` and answers the second one. Its name
and every other one resolve to a public address. The session reads a `Location` of ASCII that
parses. -/
def redirecting (location : Str) : Outside Unit Unit where
  urls := ⟨id, List.map Python.CodePoint.asciiLower, fun _ => false⟩
  ips := ⟨fun _ => some ⟨false, 0x08080808⟩, fun _ => false, fun _ => false, fun _ => false,
    fun _ => false, fun _ => false, fun _ => false, fun _ => true⟩
  resolve := fun _ _ _ => some [str "8.8.8.8"]
  get := fun redirects _ =>
    .ok (if redirects = 0 then ⟨302, some location, ()⟩ else ⟨200, none, ()⟩)
  nextRequest := fun _ location => (location.all fun c => c.val < 128)
    && (Python.urlsplit ⟨id, List.map Python.CodePoint.asciiLower, fun _ => false⟩ location
      []).isSome

/-- A request with credentials. -/
def authorized : GetArgs Unit where
  url := str "https://a.example/x"
  timeout := 10
  headers := [(str "Authorization", str "Bearer t")]
  maxRedirects := 5
  allowPrivate := false
  sessionProxies := false
  params := []
  auth := some ()
  stream := false

/-- `safeGet_guarded` for a redirect on the same host: the second request carries the credentials,
and goes to the first origin. -/
theorem safeGet_guarded_redirected : ∃ request,
    (safeGet (redirecting (str "//A.example:443/y")) authorized).requests[1]? = some request
    ∧ (∃ addresses, checkUrl (redirecting (str "//A.example:443/y")) 1 request.url false
      = .ok addresses)
    ∧ request.headers = [(str "Authorization", str "Bearer t")] ∧ request.auth = some ()
    ∧ SameOrigin (redirecting (str "//A.example:443/y")).urls (str "https://a.example/x") request.url
    ∧ (safeGet (redirecting (str "//A.example:443/y")) authorized).requests.length ≤ 6 := by
  obtain ⟨hrequests, hlength⟩ := safeGet_guarded (redirecting (str "//A.example:443/y")) authorized
  have hsecond : (safeGet (redirecting (str "//A.example:443/y")) authorized).requests[1]?
      = some { url := str "https://A.example:443/y"
               headers := [(str "Authorization", str "Bearer t")]
               timeout := 10
               noProxies := false
               params := []
               auth := some ()
               stream := false } := by
    decide +kernel
  obtain ⟨hchecked, hsends⟩ := hrequests 1 _ hsecond
  exact ⟨_, hsecond, hchecked, rfl, rfl, (hsends (.inr rfl)).2, hlength⟩

/-- The exception of an outcome. -/
def raised {B : Type} : Except SafeGetError (Response B) → Option SafeGetError
  | .error failure => some failure
  | .ok _ => none

/-- An outcome that raises a plain `ValueError` is not handled. -/
theorem not_handled_of_raised {B : Type} {outcome : Except SafeGetError (Response B)}
    (h : raised outcome = some .valueError) : ¬Handled outcome := by
  rintro (⟨response, rfl⟩ | ⟨refusal, rfl⟩ | rfl | rfl) <;> cases h

/-- `requests` raises on a `Location` with an open bracket, and on one whose bytes are not UTF-8.
On a port over 65535 it does not, but `_origin` does. -/
theorem location_not_handled :
    ¬Handled (safeGet (redirecting (str "http://[")) authorized).outcome
      ∧ ¬Handled (safeGet (redirecting (str "/caf\u00e9")) authorized).outcome
      ∧ ¬Handled (safeGet (redirecting (str "http://b:99999/")) authorized).outcome :=
  ⟨not_handled_of_raised (by decide +kernel), not_handled_of_raised (by decide +kernel),
    not_handled_of_raised (by decide +kernel)⟩

end TrustPortal.Proofs.Web
