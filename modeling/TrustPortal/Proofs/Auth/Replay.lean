import TrustPortal.Auth.Replay
import TrustPortal.Lib.Run

/-!
# `TrustPortal.Proofs.Auth.Replay`: sessions without a login time

A cookie without a login time gets one in the answer to the request that presents it, but the
client keeps the cookie without one. Each time it is presented again it gets a later login time,
and the successor lives for a whole lifetime from then.

`replay_bounded` says when the lifetime is counted from the first request: in every run that does
not present the cookie again after the second of its first presentation. Every login time there is
then is one of that second (`Bounded`). `replay_extends` is a run of three requests with the
configuration's lifetimes that goes past the bound.
-/

set_option autoImplicit false

namespace TrustPortal.Proofs.Auth

open TrustPortal.Auth
open TrustPortal.Lib

/-- No request was authenticated more than a lifetime after the cookie was first presented. -/
def WithinLifetime (config : SessionConfig) (replay : Replay) : Prop :=
  ∀ t ∈ replay.authenticatedAt, ∃ first, replay.first = some first ∧ t ≤ first + config.lifetime

/-- The request does not present the cookie with a signature that still counts, unless within the
second of its first presentation, which is shorter than the lifetime. -/
def Prompt (config : SessionConfig) (root : SignedCookie) (replay : Replay)
    (request : CookieRequest) : Prop :=
  request.presented = root → signatureCurrent config root request.now = true →
    (⌊request.now⌋ : ℚ) ≤ replay.first.getD request.now
      ∧ request.now ≤ replay.first.getD request.now + config.lifetime

/-- Every cookie but the first one has a login time not later than the first presentation, and
the lifetime is kept. -/
structure Bounded (config : SessionConfig) (root : SignedCookie) (replay : Replay) : Prop where
  cookies : ∀ signed ∈ replay.cookies, signed = root
    ∨ ∃ first loginAt, replay.first = some first
      ∧ signed.cookie.loginAt = some (.number loginAt) ∧ loginAt ≤ first
  within : WithinLifetime config replay

section
variable {config : SessionConfig} {root : SignedCookie} {replay : Replay} {request : CookieRequest}

/-- A request that is authenticated presents a cookie there is, with a signature that counts and a
session that has not expired. -/
private theorem replayMember_some {member : Member}
    (h : replayMember config replay request = some member) :
    request.presented ∈ replay.cookies
      ∧ signatureCurrent config request.presented request.now = true
      ∧ sessionExpired config.lifetime request.presented.cookie request.now = false := by
  rw [replayMember] at h
  split_ifs at h with hcookie
  refine ⟨hcookie.1, hcookie.2, ?_⟩
  rw [sessionMember] at h
  split_ifs at h
  obtain ⟨_, hcurrent⟩ := Option.filter_eq_some_iff.mp h
  simp only [Bool.and_eq_true, Bool.not_eq_true'] at hcurrent
  exact hcurrent.2

/-- A session with a login time has not expired: at most a lifetime has gone by. -/
private theorem le_of_not_expired {cookie : Cookie} {lifetime loginAt now : ℚ}
    (hlogin : cookie.loginAt = some (.number loginAt))
    (h : sessionExpired lifetime cookie now = false) : now ≤ loginAt + lifetime := by
  rw [sessionExpired, hlogin] at h
  simp only [Bool.or_eq_false_iff, decide_eq_false_iff_not, not_lt] at h
  linarith [h.2]

/-- The first presentation of a cookie stays the first one. -/
private theorem first_step {first : ℚ} (h : replay.first = some first) :
    (replayStep config root replay request).first = some first := by
  rw [replayStep]
  split_ifs <;> simp [h]

/-- What the run knows of the cookies and of the requests before still holds after a request. -/
private theorem Bounded.before (h : Bounded config root replay) :
    (∀ signed ∈ replay.cookies, signed = root ∨ ∃ first loginAt,
        (replayStep config root replay request).first = some first
          ∧ signed.cookie.loginAt = some (.number loginAt) ∧ loginAt ≤ first)
      ∧ ∀ t ∈ replay.authenticatedAt, ∃ first,
        (replayStep config root replay request).first = some first
          ∧ t ≤ first + config.lifetime := by
  constructor
  · intro signed hsigned
    refine (h.cookies signed hsigned).imp_right ?_
    rintro ⟨first, loginAt, hfirst, hlogin, hle⟩
    exact ⟨first, loginAt, first_step hfirst, hlogin, hle⟩
  · intro t ht
    obtain ⟨first, hfirst, hle⟩ := h.within t ht
    exact ⟨first, first_step hfirst, hle⟩

/-- An authenticated request keeps the lifetime, and the cookie it is answered with has a login
time of the first second. -/
private theorem answered (hnone : root.cookie.loginAt = none) (h : Bounded config root replay)
    (hprompt : Prompt config root replay request) {member : Member}
    (hmember : replayMember config replay request = some member) :
    ∃ first loginAt, (replayStep config root replay request).first = some first
      ∧ (renewed request.presented.cookie request.now).loginAt = some (.number loginAt)
      ∧ loginAt ≤ first ∧ request.now ≤ first + config.lifetime := by
  obtain ⟨hmem, hsignature, hexpired⟩ := replayMember_some hmember
  by_cases hroot : request.presented = root
  · rw [hroot] at hsignature
    obtain ⟨hsecond, hnow⟩ := hprompt hroot hsignature
    refine ⟨replay.first.getD request.now, (⌊request.now⌋ : ℤ), ?_, ?_, hsecond, hnow⟩
    · rw [replayStep, if_pos hroot]
      split_ifs <;> rfl
    · rw [renewed, hroot, hnone]
      rfl
  · obtain ⟨first, loginAt, hfirst, hlogin, hle⟩ :=
      (h.cookies request.presented hmem).resolve_left hroot
    refine ⟨first, loginAt, first_step hfirst, ?_, hle, ?_⟩
    · rw [renewed, hlogin]
      exact hlogin
    · linarith [le_of_not_expired hlogin hexpired]

/-- A request that meets the condition keeps the invariant. -/
private theorem bounded_step (hnone : root.cookie.loginAt = none)
    (h : Bounded config root replay) (hprompt : Prompt config root replay request) :
    Bounded config root (replayStep config root replay request) := by
  obtain ⟨hcookies, hwithin⟩ := @Bounded.before config root replay request h
  cases hmember : replayMember config replay request with
  | none =>
    have hstep : (replayStep config root replay request).cookies = replay.cookies
        ∧ (replayStep config root replay request).authenticatedAt = replay.authenticatedAt := by
      rw [replayStep, hmember]
      exact ⟨rfl, rfl⟩
    exact ⟨fun signed hsigned => hcookies signed (hstep.1 ▸ hsigned),
      fun t ht => hwithin t (hstep.2 ▸ ht)⟩
  | some member =>
    obtain ⟨first, loginAt, hfirst, hlogin, hle, hnow⟩ := answered hnone h hprompt hmember
    have hstep : (replayStep config root replay request).cookies = replay.cookies
          ++ [⟨renewed request.presented.cookie request.now, request.answeredAt⟩]
        ∧ (replayStep config root replay request).authenticatedAt
          = replay.authenticatedAt ++ [request.now] := by
      rw [replayStep, hmember]
      exact ⟨rfl, rfl⟩
    constructor
    · intro signed hsigned
      rw [hstep.1, List.mem_append, List.mem_singleton] at hsigned
      rcases hsigned with hsigned | rfl
      · exact hcookies signed hsigned
      · exact .inr ⟨first, loginAt, hfirst, hlogin, hle⟩
    · intro t ht
      rw [hstep.2, List.mem_append, List.mem_singleton] at ht
      rcases ht with ht | rfl
      · exact hwithin t ht
      · exact ⟨first, hfirst, hnow⟩

end

/-- In every run of requests that present a cookie without a login time, or a cookie issued in
answer, no request is authenticated more than a lifetime after the first presentation, as long as
the cookie itself is not presented again after the second of the first one. -/
theorem replay_bounded (config : SessionConfig) (root : SignedCookie)
    (hnone : root.cookie.loginAt = none) (requests : List CookieRequest)
    (hrun : Along (replayStep config root) (Prompt config root) (.start root) requests) :
    WithinLifetime config (replayRun config root requests) := by
  have hstart : Bounded config root (.start root) := by
    constructor
    · exact fun signed hsigned => .inl (List.mem_singleton.mp hsigned)
    · exact fun t ht => absurd ht List.not_mem_nil
  exact (run_invariant (fun replay request h hprompt => bounded_step hnone h hprompt) hrun
    hstart).within

/-! ## The lifetimes of the configuration -/

/-- A member with a key. -/
def reviewer : Member := ⟨"m", some "0123456789abcdef01", 0, true, false, none⟩

/-- A cookie of the member that an earlier release signed, without a login time. -/
def oldCookie : SignedCookie := ⟨⟨reviewer.login, none⟩, 0⟩

/-- A request at this second. -/
def requestAt (presented : SignedCookie) (now : ℤ) : CookieRequest := ⟨presented, now, [reviewer], now⟩

/-- The cookie is presented once, its successor eleven hours later and thirteen hours later. -/
theorem replay_bounded_once :
    WithinLifetime .default (replayRun .default oldCookie [requestAt oldCookie 0,
      requestAt ⟨⟨reviewer.login, some (.number 0)⟩, 0⟩ 39600,
      requestAt ⟨⟨reviewer.login, some (.number 0)⟩, 39600⟩ 46800]) := by
  refine replay_bounded .default oldCookie rfl _ ⟨?_, ?_, ?_, trivial⟩
  · intro _ _
    decide +kernel
  · exact fun h => absurd h (by decide +kernel)
  · exact fun h => absurd h (by decide +kernel)

/-- The cookie is presented at once and again after six hours, and the successor that it has then
is still good a second after the lifetime is over. -/
theorem replay_extends :
    ¬WithinLifetime .default (replayRun .default oldCookie [requestAt oldCookie 0,
      requestAt oldCookie 21600,
      requestAt ⟨⟨reviewer.login, some (.number 21600)⟩, 21600⟩ 43201]) := by
  intro h
  obtain ⟨first, hfirst, hle⟩ := h 43201 (by decide +kernel)
  have hzero : first = 0 := Option.some.inj (hfirst.symm.trans (by decide +kernel))
  rw [hzero] at hle
  exact absurd hle (by decide +kernel)

end TrustPortal.Proofs.Auth
