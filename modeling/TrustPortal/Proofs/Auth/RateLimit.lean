import Mathlib.Tactic.Linarith
import TrustPortal.Auth.RateLimit
import TrustPortal.Lib.Quota
import TrustPortal.Lib.Run

/-!
# `TrustPortal.Proofs.Auth.RateLimit`: no interleaving exceeds a budget

`Moves` says what one statement of a request can do: go on without the table, count its attempt,
count a session of a member, or reset the counters of its address. `step_cases` lists what an event
can do to the gate.

The row of a window is a `Meter`: the attempts that it has counted, the requests that it let
through, and the resets. `Bounded` is the invariant. While the window is at most a day old no
`prune` deletes its row, so the meter is kept. Later the row may be gone, and what is counted again
then is not counted within a day. `attempts_within_budget` is the bound for an address in a bucket,
and `sessions_within_budget` the one for a client member, whose counter no request resets.
-/

set_option autoImplicit false

namespace TrustPortal.Proofs.Auth.RateLimit

open TrustPortal.Audit (Sha256)
open TrustPortal.Auth.RateLimit
open TrustPortal.Lib
open TrustPortal.Sql

/-! ## The table -/

/-- What is read after a DELETE. -/
theorem get_deleteRows (rows : Windows) (gone : AuthRateLimitWindow → Bool)
    (k : Bucket × String × Int) :
    (deleteRows rows gone).get k = (rows.get k).filter fun row => !gone row := by
  cases hget : rows.get k with
  | none =>
    rw [Option.filter_none, Table.get_eq_none]
    rw [Table.get_eq_none] at hget
    intro hmem
    obtain ⟨row, hrow, hkey⟩ := List.mem_map.mp hmem
    exact hget (List.mem_map.mpr ⟨row, (List.mem_filter.mp hrow).1, hkey⟩)
  | some row =>
    have hkey := Table.key_of_get hget
    by_cases hgone : gone row = true
    · simp only [Option.filter, hgone, Bool.not_true, Bool.false_eq_true, if_false]
      rw [Table.get_eq_none]
      intro hmem
      obtain ⟨other, hother, hsame⟩ := List.mem_map.mp hmem
      obtain ⟨hin, hstays⟩ := List.mem_filter.mp hother
      -- the row that stays has the key of the row that goes
      rw [Table.eq_of_key hin (Table.mem_of_get hget) (hsame.trans hkey.symm), hgone] at hstays
      simp at hstays
    · simp only [Option.filter, hgone, Bool.not_false, if_true]
      have hmem : row ∈ (deleteRows rows gone).rows :=
        List.mem_filter.mpr ⟨Table.mem_of_get hget, by simp [hgone]⟩
      rw [← hkey]
      exact Table.get_of_mem hmem

/-- The attempts of a window after an upsert. -/
theorem attemptsOf_count (rows : Windows) (bucket bucket' : Bucket) (client client' : String)
    (start start' : Int) :
    attemptsOf (count rows bucket client start).1 bucket' client' start'
      = if bucket = bucket' ∧ client = client' ∧ start = start' then
          attemptsOf rows bucket client start + 1
        else attemptsOf rows bucket' client' start' := by
  simp only [attemptsOf, count, Table.get_upsert, AuthRateLimitWindow.key, Prod.mk.injEq]
  split <;> simp

/-- The attempts of a window that a DELETE does not meet. -/
theorem attemptsOf_deleteRows (rows : Windows) (gone : AuthRateLimitWindow → Bool)
    (bucket : Bucket) (client : String) (start : Int)
    (hstays : ∀ row : AuthRateLimitWindow, row.key = (bucket, client, start) → gone row = false) :
    attemptsOf (deleteRows rows gone) bucket client start = attemptsOf rows bucket client start := by
  unfold attemptsOf
  rw [get_deleteRows]
  cases hget : rows.get (bucket, client, start) with
  | none => simp
  | some row => simp [Option.filter, hstays row (Table.key_of_get hget)]

/-- The attempts of a window after a reset. -/
theorem attemptsOf_reset (rows : Windows) (bucket bucket' : Bucket) (client client' : String)
    (start : Int) :
    attemptsOf (reset rows bucket client) bucket' client' start
      = if bucket = bucket' ∧ client = client' then 0
        else attemptsOf rows bucket' client' start := by
  split
  · rename_i hsame
    obtain ⟨rfl, rfl⟩ := hsame
    unfold attemptsOf reset
    rw [get_deleteRows]
    cases hget : rows.get (bucket, client, start) with
    | none => simp
    | some row =>
      have hkey := Table.key_of_get hget
      simp only [AuthRateLimitWindow.key, Prod.mk.injEq] at hkey
      simp [Option.filter, hkey.1, hkey.2.1]
  · rename_i hother
    apply attemptsOf_deleteRows
    intro row hkey
    simp only [AuthRateLimitWindow.key, Prod.mk.injEq] at hkey
    rw [hkey.1, hkey.2.1]
    have hne : ¬(bucket' = bucket ∧ client' = client) := fun h => hother ⟨h.1.symm, h.2.symm⟩
    simpa using hne

/-- The attempts of a window after a `prune`, while the window is at most a day old. -/
theorem attemptsOf_prune (rows : Windows) (readAt : ℚ) (bucket : Bucket) (client : String)
    (start : Int) (hyoung : readAt ≤ (start + MAX_AGE : Int)) :
    attemptsOf (prune rows readAt) bucket client start = attemptsOf rows bucket client start := by
  apply attemptsOf_deleteRows
  intro row hkey
  simp only [AuthRateLimitWindow.key, Prod.mk.injEq] at hkey
  rw [hkey.2.2, decide_eq_false_iff_not, not_lt]
  push_cast at hyoung
  linarith

/-! ## Steps -/

/-- What the phase of a request says of what it has gone through. -/
structure Proper (request : Request) : Prop where
  /-- It was not let through before it is counted. -/
  uncounted : request.phase = .arrived ∨ (∃ start, request.phase = .counting start) →
    request.attempt = none
  /-- It starts one session. -/
  sessionless : request.session.isSome → request.phase = .resetting ∨ request.phase = .signedIn
    ∨ request.phase = .answered
  /-- Its credential was accepted. -/
  accepted : (∃ member, request.phase = .starting member)
    ∨ (∃ member start, request.phase = .startingCount member start)
    ∨ request.phase = .resetting ∨ request.phase = .signedIn → request.accepted = true

/-- What the next statement of a request makes of the table and of the request. -/
inductive Moves (limits : Limits) (gate : Gate) (request : Request) : Windows → Request → Prop
  /-- It leaves the table. -/
  | quiet (phase : Phase) (accepted : Bool) (hfrom : request.phase ≠ .signedIn)
      (hto : phase ≠ .signedIn)
      (hproper : Proper request → Proper { request with phase, accepted }) :
      Moves limits gate request gate.windows { request with phase, accepted }
  /-- It counts its attempt. -/
  | attempt (start : Int) (hphase : request.phase = .counting start) :
      Moves limits gate request (count gate.windows request.route.bucket request.client start).1
        (if ((count gate.windows request.route.bucket request.client start).2 : Int)
            ≤ limits.attempts then
          { request with phase := .admitted, attempt := some ⟨start, gate.now⟩ }
        else { request with phase := .answered })
  /-- It counts a session of a member. -/
  | session (member : String) (start : Int) (hphase : request.phase = .startingCount member start) :
      Moves limits gate request (count gate.windows .clientSession (Gate.memberKey member) start).1
        (if ((count gate.windows .clientSession (Gate.memberKey member) start).2 : Int)
            ≤ limits.attempts then
          { request with phase := .resetting, session := some (member, ⟨start, gate.now⟩) }
        else { request with phase := .answered })
  /-- It resets the counters of its address. -/
  | reset (hphase : request.phase = .resetting) :
      Moves limits gate request (reset gate.windows request.route.bucket request.client)
        { request with phase := .signedIn }

section
variable {limits : Limits} {sha : Sha256} {gate : Gate} {request : Request}

/-- An answer leaves the table. -/
theorem Moves.answer (hphase : request.phase ≠ .signedIn) :
    Moves limits gate request gate.windows { request with phase := .answered } := by
  refine .quiet .answered request.accepted hphase (by simp) fun _ => ⟨?_, ?_, ?_⟩
  · simp
  · simp
  · simp

/-- A credential that is accepted leads to a reset, or to a session. -/
theorem examine_phase {phase : Phase} (h : gate.examine sha request = some phase) :
    phase = .resetting ∨ ∃ member, phase = .starting member := by
  unfold Gate.examine at h
  split at h
  case h_1 =>
    split at h
    · split at h
      · exact .inl (Option.some.inj h).symm
      · cases h
    · cases h
  case h_2 =>
    split at h
    · split at h
      · exact .inr ⟨_, (Option.some.inj h).symm⟩
      · cases h
    · cases h
  all_goals
    split at h
    · exact .inl (Option.some.inj h).symm
    · cases h

/-- `proceed` moves the request, or leaves the gate. -/
theorem proceed_cases (limits : Limits) (sha : Sha256) (gate : Gate) (request : Request) (i : Nat) :
    Gate.proceed limits sha gate i request = gate ∨
    ∃ windows request', Moves limits gate request windows request' ∧
      Gate.proceed limits sha gate i request
        = { gate with windows, requests := gate.requests.set i request' } := by
  unfold Gate.proceed
  cases hphase : request.phase with
  | arrived =>
    right
    cases windowStart limits gate.now with
    | none => exact ⟨_, _, .answer (by simp [hphase]), rfl⟩
    | some start =>
      refine ⟨_, _, .quiet (.counting start) request.accepted (by simp [hphase]) (by simp) ?_, rfl⟩
      intro h
      exact ⟨fun _ => h.uncounted (.inl hphase),
        fun hsome => by simpa [hphase] using h.sessionless hsome, by simp⟩
  | counting start =>
    right
    refine ⟨_, _, .attempt start hphase, ?_⟩
    simp only
    split <;> rfl
  | admitted =>
    right
    cases hexamine : gate.examine sha request with
    | none => exact ⟨_, _, .answer (by simp [hphase]), rfl⟩
    | some phase =>
      have hnext := examine_phase hexamine
      refine ⟨_, _, .quiet phase true (by simp [hphase]) ?_ ?_, rfl⟩
      · rcases hnext with rfl | ⟨member, rfl⟩ <;> simp
      · intro h
        refine ⟨?_, fun hsome => by simpa [hphase] using h.sessionless hsome, fun _ => rfl⟩
        rcases hnext with rfl | ⟨member, rfl⟩ <;> simp
  | starting member =>
    right
    cases windowStart limits gate.now with
    | none => exact ⟨_, _, .answer (by simp [hphase]), rfl⟩
    | some start =>
      refine ⟨_, _, .quiet (.startingCount member start) request.accepted (by simp [hphase])
        (by simp) ?_, rfl⟩
      intro h
      exact ⟨by simp, fun hsome => by simpa [hphase] using h.sessionless hsome,
        fun _ => h.accepted (.inl ⟨member, hphase⟩)⟩
  | startingCount member start =>
    right
    refine ⟨_, _, .session member start hphase, ?_⟩
    simp only
    split <;> rfl
  | resetting => exact .inr ⟨_, _, .reset hphase, rfl⟩
  | signedIn => exact .inl rfl
  | answered => exact .inl rfl

/-- What an event does to the gate. -/
inductive Changes (limits : Limits) (gate : Gate) : Gate → Prop
  /-- The table and the requests stay. -/
  | idle (now : ℚ) (accounts : List Account) (token : Option String) (hnow : gate.now ≤ now) :
      Changes limits gate { gate with now, accounts, token }
  | arrive (route : Route) (remoteAddr : Option String) (credential : String) :
      Changes limits gate
        { gate with requests := gate.requests ++ [.new route remoteAddr credential] }
  | move (i : Nat) (request request' : Request) (windows : Windows)
      (hget : gate.requests[i]? = some request) (hmoves : Moves limits gate request windows request') :
      Changes limits gate { gate with windows, requests := gate.requests.set i request' }
  | prune (readAt : ℚ) (hread : readAt ≤ gate.now) :
      Changes limits gate { gate with windows := prune gate.windows readAt }

/-- Every event does one of these. -/
theorem step_cases (limits : Limits) (sha : Sha256) (gate : Gate) (event : Gate.Event) :
    Changes limits gate (Gate.step limits sha gate event) := by
  have hstay : Changes limits gate gate := .idle gate.now gate.accounts gate.token le_rfl
  cases event with
  | wait time => exact .idle _ gate.accounts gate.token (le_max_left _ _)
  | change accounts token => exact .idle gate.now accounts token le_rfl
  | arrive route remoteAddr credential => exact .arrive route remoteAddr credential
  | proceed i =>
    simp only [Gate.step]
    cases hget : gate.requests[i]? with
    | none => exact hstay
    | some request =>
      rcases proceed_cases limits sha gate request i with hsame | ⟨windows, request', hmoves, hnext⟩
      · simp only [hsame]
        exact hstay
      · simp only [hnext]
        exact .move i request request' windows hget hmoves
  | abandon i =>
    simp only [Gate.step]
    cases hget : gate.requests[i]? with
    | none => exact hstay
    | some request =>
      simp only
      split
      · exact hstay
      · rename_i hphase
        exact .move i request _ gate.windows hget (.answer hphase)
  | prune readAt =>
    simp only [Gate.step]
    split
    · rename_i hread
      exact .prune readAt hread
    · exact hstay

end

/-! ## Counts -/

section
variable {requests : List Request} {i : Nat} {request request' : Request}

/-- How a count changes when one request comes to be counted. -/
theorem countP_set_new (hget : requests[i]? = some request) {p : Request → Bool}
    (hp : p request = false) :
    (requests.set i request').countP p = requests.countP p + if p request' then 1 else 0 := by
  obtain ⟨hlt, hval⟩ := List.getElem?_eq_some_iff.mp hget
  rw [List.countP_set hlt, hval, hp]
  simp

/-- A count stays when one request changes that was counted before and is later, or neither. -/
theorem countP_set_same (hget : requests[i]? = some request) {p : Request → Bool}
    (hp : p request' = p request) : (requests.set i request').countP p = requests.countP p := by
  obtain ⟨hlt, hval⟩ := List.getElem?_eq_some_iff.mp hget
  rw [List.countP_set hlt, hval, hp]
  split
  · rename_i hcounted
    have hpos : 0 < requests.countP p :=
      List.countP_pos_iff.mpr ⟨request, List.mem_of_getElem? hget, hcounted⟩
    omega
  · rfl

end

/-- Every request of the gate is proper. -/
def AllProper (gate : Gate) : Prop := ∀ request ∈ gate.requests, Proper request

section
variable {limits : Limits} {sha : Sha256} {gate gate' : Gate} {request request' : Request}
  {windows : Windows}

/-- A request stays proper. -/
theorem Moves.proper (hmoves : Moves limits gate request windows request') (h : Proper request) :
    Proper request' := by
  cases hmoves with
  | quiet phase accepted hfrom hto hproper => exact hproper h
  | attempt start hphase =>
    split
    · exact ⟨by simp, fun hsome => by simpa [hphase] using h.sessionless hsome, by simp⟩
    · exact ⟨by simp, by simp, by simp⟩
  | session member start hphase =>
    split
    · exact ⟨by simp, by simp, fun _ => h.accepted (.inr (.inl ⟨member, start, hphase⟩))⟩
    · exact ⟨by simp, by simp, by simp⟩
  | reset hphase =>
    exact ⟨by simp, by simp, fun _ => h.accepted (.inr (.inr (.inl hphase)))⟩

/-- All requests stay proper. -/
theorem Changes.allProper (hchanges : Changes limits gate gate') (h : AllProper gate) :
    AllProper gate' := by
  cases hchanges with
  | idle now accounts token hnow => exact h
  | arrive route remoteAddr credential =>
    intro request hmem
    rcases List.mem_append.mp hmem with hold | hnew
    · exact h request hold
    · rw [List.mem_singleton.mp hnew]
      exact ⟨fun _ => rfl, by simp [Request.new], by simp [Request.new]⟩
  | move i request request' windows hget hmoves =>
    intro other hmem
    rcases List.mem_or_eq_of_mem_set hmem with hold | rfl
    · exact h other hold
    · exact hmoves.proper (h request (List.mem_of_getElem? hget))
  | prune readAt hread => exact h

end

/-! ## The budget of an address -/

/-- The request has reset the counters of an address in a bucket. -/
def hasReset (bucket : Bucket) (client : String) (request : Request) : Bool :=
  request.route.bucket = bucket && request.client = client && request.phase = .signedIn

/-- The budget of an address in a bucket, in a window. -/
def meter (gate : Gate) (bucket : Bucket) (client : String) (start : Int) : Meter where
  used := attemptsOf gate.windows bucket client start
  granted := gate.requests.countP (Request.passed bucket client start)
  cleared := gate.requests.countP (hasReset bucket client)

/-- The budget is kept while the window is at most a day old, and was not exceeded later. -/
structure Bounded (limit : Nat) (gate : Gate) (start : Int) (m : Meter) : Prop where
  kept : gate.now ≤ (start + MAX_AGE : Int) → m.Kept limit
  granted : m.granted ≤ limit * (m.cleared + 1)

section
variable {limits : Limits} {sha : Sha256} {gate gate' : Gate} {request request' : Request}
  {windows : Windows} {i : Nat} {route : Route} {client : String} {start : Int}

theorem Route.bucket_ne (route : Route) : route.bucket ≠ .clientSession := by
  cases route <;> simp [Route.bucket]

/-- The limit as a number of attempts. -/
theorem le_attempts (limits : Limits) (n : Nat) :
    ((n + 1 : Nat) : Int) ≤ limits.attempts ↔ n + 1 ≤ limits.attempts.toNat := by
  omega

/-- Whether a request was let through that was counted now. -/
theorem passed_granted {bucket : Bucket} {started : Int} {phase : Phase}
    (hyoung : gate.now ≤ (start + MAX_AGE : Int)) :
    Request.passed bucket client start
        { request with phase, attempt := some ⟨started, gate.now⟩ }
      = decide (request.route.bucket = bucket ∧ request.client = client ∧ started = start) := by
  have hcount : decide (gate.now ≤ (start + MAX_AGE : Int)) = true := decide_eq_true hyoung
  simp only [Request.passed, Grant.isOf, Option.any_some, hcount, Bool.and_true, Bool.decide_and,
    Bool.and_assoc]

theorem hasReset_of_ne {bucket : Bucket} (hphase : request.phase ≠ .signedIn) :
    hasReset bucket client request = false := by
  simp [hasReset, hphase]

/-- What a statement of a request does to the budget of an address in a window that is at most a
day old. -/
theorem meter_move (route : Route) (client : String) (hget : gate.requests[i]? = some request)
    (hmoves : Moves limits gate request windows request') (hproper : Proper request)
    (hyoung : gate.now ≤ (start + MAX_AGE : Int)) :
    meter { gate with windows, requests := gate.requests.set i request' } route.bucket client start
        = meter gate route.bucket client start ∨
    ∃ event, meter { gate with windows, requests := gate.requests.set i request' } route.bucket
        client start = (meter gate route.bucket client start).step limits.attempts.toNat event := by
  cases hmoves with
  | quiet phase accepted hfrom hto _ =>
    left
    simp only [meter]
    rw [countP_set_same hget (by rfl), countP_set_same hget]
    rw [hasReset_of_ne hfrom, hasReset_of_ne hto]
  | attempt started hphase =>
    have hbefore : Request.passed route.bucket client start request = false := by
      simp [Request.passed, hproper.uncounted (.inr ⟨started, hphase⟩)]
    have hfrom : hasReset route.bucket client request = false :=
      hasReset_of_ne (by simp [hphase])
    have hanswer : Request.passed route.bucket client start { request with phase := .answered }
        = false := hbefore
    by_cases hsame : request.route.bucket = route.bucket ∧ request.client = client ∧ started = start
    · -- the window of the budget, whose counter grows
      right
      refine ⟨.attempt, ?_⟩
      have hused : attemptsOf (count gate.windows request.route.bucket request.client started).1
          route.bucket client start = (meter gate route.bucket client start).used + 1 := by
        rw [attemptsOf_count, if_pos hsame]
        simp [meter, hsame]
      by_cases hwithin : (meter gate route.bucket client start).used + 1 ≤ limits.attempts.toNat
      · have hle : ((count gate.windows request.route.bucket request.client started).2 : Int)
            ≤ limits.attempts := by
          simpa [count, hsame, meter] using (le_attempts limits _).mpr hwithin
        rw [Meter.step_granted hwithin, if_pos hle]
        simp only [meter] at hused ⊢
        rw [hused, countP_set_new hget hbefore, countP_set_new hget hfrom, passed_granted hyoung]
        simp [hsame, hasReset]
      · have hgt : ¬((count gate.windows request.route.bucket request.client started).2 : Int)
            ≤ limits.attempts := by
          simpa [count, hsame, meter] using mt (le_attempts limits _).mp hwithin
        rw [Meter.step_refused hwithin, if_neg hgt]
        simp only [meter] at hused ⊢
        rw [hused, countP_set_new hget hbefore, countP_set_new hget hfrom, hanswer]
        simp [hasReset]
    · -- another window, in which the request is let through or not
      left
      simp only [meter, attemptsOf_count]
      rw [if_neg hsame, countP_set_new hget hbefore, countP_set_new hget hfrom]
      split
      · rw [passed_granted hyoung]
        simp [hsame, hasReset]
      · rw [hanswer]
        simp [hasReset]
  | session member started hphase =>
    -- a counter of another bucket
    left
    simp only [meter, attemptsOf_count]
    rw [if_neg (fun h => Route.bucket_ne route h.1.symm), countP_set_same hget,
      countP_set_same hget]
    · have hfrom : hasReset route.bucket client request = false :=
        hasReset_of_ne (by simp [hphase])
      split <;> rw [hfrom] <;> exact hasReset_of_ne (by simp)
    · split <;> rfl
  | reset hphase =>
    have hfrom : hasReset route.bucket client request = false :=
      hasReset_of_ne (by simp [hphase])
    simp only [meter, attemptsOf_reset, Meter.step]
    rw [countP_set_same hget (by rfl), countP_set_new hget hfrom]
    by_cases hsame : request.route.bucket = route.bucket ∧ request.client = client
    · right
      exact ⟨.clear, by simp [hasReset, hsame]⟩
    · left
      simp [hasReset, hsame]

/-- What a statement of a request does to what a budget let through in an old window. -/
theorem granted_move (client : String) (hget : gate.requests[i]? = some request)
    (hmoves : Moves limits gate request windows request') (hproper : Proper request)
    (hold : ((start + MAX_AGE : Int) : ℚ) < gate.now) (bucket : Bucket) :
    (gate.requests.set i request').countP (Request.passed bucket client start)
        = gate.requests.countP (Request.passed bucket client start) ∧
      gate.requests.countP (hasReset bucket client)
        ≤ (gate.requests.set i request').countP (hasReset bucket client) := by
  cases hmoves with
  | quiet phase accepted hfrom hto _ =>
    refine ⟨countP_set_same hget rfl, le_of_eq (countP_set_same hget ?_).symm⟩
    rw [hasReset_of_ne hfrom, hasReset_of_ne hto]
  | attempt started hphase =>
    have hfrom : hasReset bucket client request = false := hasReset_of_ne (by simp [hphase])
    refine ⟨countP_set_same hget ?_, ?_⟩
    · -- the request is counted too late for the window
      have hlate : decide (gate.now ≤ (start + MAX_AGE : Int)) = false :=
        decide_eq_false (not_le.mpr hold)
      split
      · simp only [Request.passed, Grant.isOf, hlate, hproper.uncounted (.inr ⟨started, hphase⟩),
          Option.any_some, Option.any_none, Bool.and_false]
      · rfl
    · rw [countP_set_new hget hfrom]
      exact Nat.le_add_right _ _
  | session member started hphase =>
    have hfrom : hasReset bucket client request = false := hasReset_of_ne (by simp [hphase])
    refine ⟨countP_set_same hget (by split <;> rfl), ?_⟩
    rw [countP_set_new hget hfrom]
    exact Nat.le_add_right _ _
  | reset hphase =>
    have hfrom : hasReset bucket client request = false := hasReset_of_ne (by simp [hphase])
    refine ⟨countP_set_same hget rfl, ?_⟩
    rw [countP_set_new hget hfrom]
    exact Nat.le_add_right _ _

/-- Every event keeps the bound. -/
theorem bounded_step (hproper : AllProper gate)
    (h : Bounded limits.attempts.toNat gate start (meter gate route.bucket client start))
    (hchanges : Changes limits gate gate') :
    Bounded limits.attempts.toNat gate' start (meter gate' route.bucket client start) := by
  cases hchanges with
  | idle now accounts token hnow => exact ⟨fun hyoung => h.kept (hnow.trans hyoung), h.granted⟩
  | arrive route' remoteAddr credential =>
    have hsame : meter { gate with requests := gate.requests ++ [.new route' remoteAddr credential] }
        route.bucket client start = meter gate route.bucket client start := by
      simp [meter, List.countP_append, Request.passed, hasReset, Request.new]
    rw [hsame]
    exact ⟨h.kept, h.granted⟩
  | move i request request' windows hget hmoves =>
    have hrequest := hproper request (List.mem_of_getElem? hget)
    by_cases hyoung : gate.now ≤ (start + MAX_AGE : Int)
    · have hkept : (meter { gate with windows, requests := gate.requests.set i request' }
          route.bucket client start).Kept limits.attempts.toNat := by
        rcases meter_move route client hget hmoves hrequest hyoung
          with hsame | ⟨event, hstep⟩
        · rw [hsame]
          exact h.kept hyoung
        · rw [hstep]
          exact (h.kept hyoung).step event
      exact ⟨fun _ => hkept, hkept.granted_le⟩
    · obtain ⟨hpassed, hreset⟩ :=
        granted_move client hget hmoves hrequest (not_le.mp hyoung) route.bucket
      refine ⟨fun h => absurd h hyoung, ?_⟩
      calc (meter { gate with windows, requests := gate.requests.set i request' }
            route.bucket client start).granted
          = (meter gate route.bucket client start).granted := hpassed
        _ ≤ _ := h.granted
        _ ≤ _ := Nat.mul_le_mul_left _ (Nat.succ_le_succ hreset)
  | prune readAt hread =>
    refine ⟨fun hyoung => ?_, h.granted⟩
    have hsame := attemptsOf_prune gate.windows readAt route.bucket client start
      (hread.trans hyoung)
    have hkept := h.kept hyoung
    simpa only [meter, hsame] using hkept

end

/-! ## The budget of a client member -/

/-- The budget of a client member, in a window. Nothing clears it. -/
def sessionMeter (gate : Gate) (member : String) (start : Int) : Meter where
  used := attemptsOf gate.windows .clientSession (Gate.memberKey member) start
  granted := gate.requests.countP (Request.startedSession member start)
  cleared := 0

section
variable {limits : Limits} {sha : Sha256} {gate gate' : Gate} {request request' : Request}
  {windows : Windows} {i : Nat} {member : String} {start : Int}

theorem memberKey_inj {member member' : String} :
    Gate.memberKey member = Gate.memberKey member' ↔ member = member' := by
  simp [Gate.memberKey, String.append_right_inj]

/-- Whether a session was let through that was counted now. -/
theorem startedSession_granted {member' : String} {started : Int} {phase : Phase}
    (hyoung : gate.now ≤ (start + MAX_AGE : Int)) :
    Request.startedSession member start
        { request with phase, session := some (member', ⟨started, gate.now⟩) }
      = decide (member' = member ∧ started = start) := by
  have hcount : decide (gate.now ≤ (start + MAX_AGE : Int)) = true := decide_eq_true hyoung
  simp only [Request.startedSession, Grant.isOf, Option.any_some, hcount, Bool.and_true,
    Bool.decide_and]

/-- What a statement of a request does to the budget of a member in a window that is at most a day
old. -/
theorem sessionMeter_move (member : String) (hget : gate.requests[i]? = some request)
    (hmoves : Moves limits gate request windows request') (hproper : Proper request)
    (hyoung : gate.now ≤ (start + MAX_AGE : Int)) :
    sessionMeter { gate with windows, requests := gate.requests.set i request' } member start
        = sessionMeter gate member start ∨
    sessionMeter { gate with windows, requests := gate.requests.set i request' } member start
        = (sessionMeter gate member start).step limits.attempts.toNat .attempt := by
  cases hmoves with
  | quiet phase accepted hfrom hto _ =>
    left
    simp only [sessionMeter]
    rw [countP_set_same hget (by rfl)]
  | attempt started hphase =>
    -- a counter of another bucket
    left
    simp only [sessionMeter, attemptsOf_count]
    rw [if_neg (fun h => Route.bucket_ne request.route h.1), countP_set_same hget]
    split <;> rfl
  | session member' started hphase =>
    have hnone : request.session = none := by
      by_contra hsome
      have := hproper.sessionless (Option.isSome_iff_ne_none.mpr hsome)
      simp [hphase] at this
    have hbefore : Request.startedSession member start request = false := by
      simp [Request.startedSession, hnone]
    have hanswer : Request.startedSession member start { request with phase := .answered } = false :=
      hbefore
    by_cases hsame : member' = member ∧ started = start
    · -- the budget of the member in the window, whose counter grows
      right
      obtain ⟨rfl, rfl⟩ := hsame
      have hused : attemptsOf (count gate.windows .clientSession (Gate.memberKey member') started).1
          .clientSession (Gate.memberKey member') started
            = (sessionMeter gate member' started).used + 1 := by
        rw [attemptsOf_count, if_pos ⟨rfl, rfl, rfl⟩]
        rfl
      by_cases hwithin : (sessionMeter gate member' started).used + 1 ≤ limits.attempts.toNat
      · have hle : ((count gate.windows .clientSession (Gate.memberKey member') started).2 : Int)
            ≤ limits.attempts := (le_attempts limits _).mpr hwithin
        rw [Meter.step_granted hwithin, if_pos hle]
        simp only [sessionMeter] at hused ⊢
        rw [hused, countP_set_new hget hbefore, startedSession_granted hyoung]
        simp
      · have hgt : ¬((count gate.windows .clientSession (Gate.memberKey member') started).2 : Int)
            ≤ limits.attempts := mt (le_attempts limits _).mp hwithin
        rw [Meter.step_refused hwithin, if_neg hgt]
        simp only [sessionMeter] at hused ⊢
        rw [hused, countP_set_new hget hbefore, hanswer]
        simp
    · left
      simp only [sessionMeter, attemptsOf_count, memberKey_inj]
      rw [if_neg (fun h => hsame h.2), countP_set_new hget hbefore]
      split
      · rw [startedSession_granted hyoung]
        simp [hsame]
      · rw [hanswer]
        simp
  | reset hphase =>
    left
    simp only [sessionMeter, attemptsOf_reset]
    rw [if_neg (fun h => Route.bucket_ne request.route h.1), countP_set_same hget (by rfl)]

/-- What a statement of a request does to the sessions of an old window. -/
theorem startedSession_move (member : String) (hget : gate.requests[i]? = some request)
    (hmoves : Moves limits gate request windows request') (hproper : Proper request)
    (hold : ((start + MAX_AGE : Int) : ℚ) < gate.now) :
    (gate.requests.set i request').countP (Request.startedSession member start)
      = gate.requests.countP (Request.startedSession member start) := by
  cases hmoves with
  | quiet phase accepted hfrom hto _ => exact countP_set_same hget rfl
  | attempt started hphase => exact countP_set_same hget (by split <;> rfl)
  | session member' started hphase =>
    have hlate : decide (gate.now ≤ (start + MAX_AGE : Int)) = false :=
      decide_eq_false (not_le.mpr hold)
    have hnone : request.session = none := by
      by_contra hsome
      have := hproper.sessionless (Option.isSome_iff_ne_none.mpr hsome)
      simp [hphase] at this
    apply countP_set_same hget
    split
    · simp only [Request.startedSession, Grant.isOf, hlate, hnone, Option.any_some,
        Option.any_none, Bool.and_false]
    · rfl
  | reset hphase => exact countP_set_same hget rfl

/-- Every event keeps the bound. -/
theorem bounded_session (hproper : AllProper gate)
    (h : Bounded limits.attempts.toNat gate start (sessionMeter gate member start))
    (hchanges : Changes limits gate gate') :
    Bounded limits.attempts.toNat gate' start (sessionMeter gate' member start) := by
  cases hchanges with
  | idle now accounts token hnow => exact ⟨fun hyoung => h.kept (hnow.trans hyoung), h.granted⟩
  | arrive route remoteAddr credential =>
    have hsame : sessionMeter { gate with requests := gate.requests ++ [.new route remoteAddr credential] }
        member start = sessionMeter gate member start := by
      simp [sessionMeter, List.countP_append, Request.startedSession, Request.new]
    rw [hsame]
    exact ⟨h.kept, h.granted⟩
  | move i request request' windows hget hmoves =>
    have hrequest := hproper request (List.mem_of_getElem? hget)
    by_cases hyoung : gate.now ≤ (start + MAX_AGE : Int)
    · have hkept : (sessionMeter { gate with windows, requests := gate.requests.set i request' }
          member start).Kept limits.attempts.toNat := by
        rcases sessionMeter_move member hget hmoves hrequest hyoung with hsame | hstep
        · rw [hsame]
          exact h.kept hyoung
        · rw [hstep]
          exact (h.kept hyoung).step .attempt
      exact ⟨fun _ => hkept, hkept.granted_le⟩
    · have hsame := startedSession_move member hget hmoves hrequest (not_le.mp hyoung)
      exact ⟨fun h => absurd h hyoung, by simpa only [sessionMeter, hsame] using h.granted⟩
  | prune readAt hread =>
    refine ⟨fun hyoung => ?_, h.granted⟩
    have hsame := attemptsOf_prune gate.windows readAt .clientSession (Gate.memberKey member) start
      (hread.trans hyoung)
    have hkept := h.kept hyoung
    simpa only [sessionMeter, hsame] using hkept

end

/-! ## Runs -/

section
variable (limits : Limits) (sha : Sha256) (now : ℚ) (windows : Windows) (accounts : List Account)
  (token : Option String) (events : List Gate.Event)

/-- Along every run the budgets are bounded, and every request is proper. -/
theorem bounded_run (route : Route) (client member : String) (start : Int) :
    let gate := (Gate.start now windows accounts token).run limits sha events
    AllProper gate
      ∧ Bounded limits.attempts.toNat gate start (meter gate route.bucket client start)
      ∧ Bounded limits.attempts.toNat gate start (sessionMeter gate member start) := by
  refine run_invariant (P := fun gate => AllProper gate
      ∧ Bounded limits.attempts.toNat gate start (meter gate route.bucket client start)
      ∧ Bounded limits.attempts.toNat gate start (sessionMeter gate member start))
    (fun gate event h _ => ?_) (along_of_forall (fun _ _ => trivial) _ _) ?_
  · obtain ⟨hproper, hmeter, hsession⟩ := h
    have hchanges := step_cases limits sha gate event
    exact ⟨hchanges.allProper hproper, bounded_step hproper hmeter hchanges,
      bounded_session hproper hsession hchanges⟩
  · have hnone (used : Nat) : (Meter.mk used 0 0).Kept limits.attempts.toNat :=
      Meter.kept_zero _ used 0
    refine ⟨by simp [AllProper, Gate.start], ⟨fun _ => hnone _, (hnone _).granted_le⟩,
      ⟨fun _ => hnone _, (hnone _).granted_le⟩⟩

/-- In every run of requests to the sign-in pages, in any interleaving of their statements with each
other, with `prune` and with the passing of time, at most the limit of attempts of an address in a
bucket is let through in a window, once for each credential that was accepted and once more. -/
theorem attempts_within_budget (route : Route) (client : String) (start : Int) :
    let gate := (Gate.start now windows accounts token).run limits sha events
    gate.requests.countP (Request.passed route.bucket client start)
      ≤ limits.attempts.toNat * (gate.requests.countP (Request.succeeded route.bucket client) + 1) := by
  intro gate
  obtain ⟨hproper, hmeter, -⟩ :=
    bounded_run limits sha now windows accounts token events route client "" start
  -- only a request whose credential was accepted resets
  have hreset : gate.requests.countP (hasReset route.bucket client)
      ≤ gate.requests.countP (Request.succeeded route.bucket client) := by
    apply List.countP_mono_left
    intro request hmem h
    simp only [hasReset, Bool.and_eq_true, decide_eq_true_eq] at h
    simp [Request.succeeded, h.1, (hproper request hmem).accepted (.inr (.inr (.inr h.2)))]
  calc gate.requests.countP (Request.passed route.bucket client start)
      ≤ limits.attempts.toNat * (gate.requests.countP (hasReset route.bucket client) + 1) :=
        hmeter.granted
    _ ≤ _ := Nat.mul_le_mul_left _ (Nat.succ_le_succ hreset)

/-- In every such run at most the limit of sessions of a client member is let through in a window,
from whatever addresses, and however many sign-ins succeed. -/
theorem sessions_within_budget (member : String) (start : Int) :
    ((Gate.start now windows accounts token).run limits sha events).requests.countP
      (Request.startedSession member start) ≤ limits.attempts.toNat := by
  obtain ⟨-, -, hsession⟩ :=
    bounded_run limits sha now windows accounts token events .login "" member start
  simpa [sessionMeter] using hsession.granted

end

end TrustPortal.Proofs.Auth.RateLimit
