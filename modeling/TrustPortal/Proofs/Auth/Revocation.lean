import TrustPortal.Auth.Session
import TrustPortal.Lib.Run

/-!
# `TrustPortal.Proofs.Auth.Revocation`: a revoked session stays revoked

A client may present any cookie it ever had, so the portal has to refuse the old ones from
what it knows of their member alone. `Consistent` is the invariant that makes this possible:
no login has a later epoch than its member, and every login has a fingerprint that some key
had. A revocation therefore leaves the member inactive, in a later epoch than the login or
with another key (`Dead`), and each action keeps that.

`revocation_permanent` is the result for every run. It assumes that the fingerprint of a new
key differs from those of all earlier keys.
-/

set_option autoImplicit false

namespace TrustPortal.Proofs.Auth

open TrustPortal.Audit
open TrustPortal.Auth
open TrustPortal.Lib

/-! ## Members -/

section
variable {members : List Member} {id other : String} {change : Member → Member}

/-- A change of other columns than the id keeps each member where it is. -/
theorem findMember_updateMember (hid : ∀ member, (change member).id = member.id) :
    findMember (updateMember members id change) other
      = (findMember members other).map fun member =>
          if member.id = id then change member else member := by
  unfold findMember updateMember
  rw [List.find?_map]
  congr 2
  funext member
  by_cases hmember : member.id = id
  · simp [hmember, hid]
  · simp [hmember]

/-- A member that is found after an UPDATE was there before it. -/
theorem found_of_update {later : Member}
    (h : findMember (updateMember members id change) other = some later)
    (hid : ∀ member, (change member).id = member.id) :
    ∃ before, findMember members other = some before
      ∧ later = if before.id = id then change before else before := by
  rw [findMember_updateMember hid] at h
  obtain ⟨before, hbefore, heq⟩ := Option.map_eq_some_iff.mp h
  exact ⟨before, hbefore, heq.symm⟩

/-- The member that is found has the id. -/
theorem findMember_id {member : Member} (h : findMember members id = some member) :
    member.id = id := by
  have hfound := List.find?_some h
  simpa using hfound

/-- A new member is found after those there are. -/
theorem findMember_append {member : Member} (h : (findMember members other).isSome = true) :
    findMember (members ++ [member]) other = findMember members other := by
  unfold findMember at h ⊢
  rw [List.find?_append, Option.or_of_isSome h]

end

/-! ## The invariant -/

/-- The epoch of a login that has a number for it. One without an epoch belongs to epoch 0. -/
def loginEpoch (login : Login) : Option ℚ :=
  match login.epoch with
  | none => some 0
  | some (.number epoch) => some epoch
  | some .other => none

/-- What the portal knows of the logins there have been. -/
structure Consistent (state : State) : Prop where
  cookies : ∀ cookie ∈ state.cookies, cookie.login ∈ state.logins
  members : ∀ login ∈ state.logins, ∀ id, login.memberId = some id →
    (findMember state.members id).isSome = true
  epochs : ∀ login ∈ state.logins, ∀ id member epoch, login.memberId = some id →
    findMember state.members id = some member → loginEpoch login = some epoch →
      epoch ≤ member.sessionEpoch
  fingerprints : ∀ login ∈ state.logins, ∀ fp, login.fingerprint = some fp →
    fp ∈ state.fingerprints
  keys : ∀ id member, findMember state.members id = some member →
    member.keyFingerprint ∈ state.fingerprints

/-- A login is dead: its member is not active, is in a later epoch or has another key. -/
structure Dead (state : State) (login : Login) : Prop where
  member : ∀ id, login.memberId = some id → (findMember state.members id).isSome = true
  revoked : ∀ id member, login.memberId = some id → findMember state.members id = some member →
    member.isActive = false
      ∨ (∀ epoch, loginEpoch login = some epoch → epoch < member.sessionEpoch)
      ∨ login.fingerprint ≠ some member.keyFingerprint
  fingerprint : ∀ fp, login.fingerprint = some fp → fp ∈ state.fingerprints

/-- A new member has a new id, and a new key a new fingerprint. -/
def Fresh (state : State) : Action → Prop
  | .create id hash _ _ =>
      findMember state.members id = none ∧ fingerprint hash ∉ state.fingerprints
  | .regenerateKey _ hash => fingerprint hash ∉ state.fingerprints
  | _ => True

/-- The action takes effect as a revocation of the sessions of this member. -/
def Revokes (state : State) (id : String) : Action → Prop
  | .commitLogout other => other = id ∧ id ∈ state.leaving
  | .regenerateKey other _ => other = id
  | .deactivate other now =>
      other = id ∧ (deactivateMember state.members id now).isSome = true
  | _ => False

/-! ## What an action does to a member -/

/-- A member after an action, compared with the same member before it. -/
structure Advances (state after : State) (before later : Member) : Prop where
  inactive : before.isActive = false → later.isActive = false
  epoch : before.sessionEpoch ≤ later.sessionEpoch
  key : later.keyFingerprint = before.keyFingerprint
    ∨ (later.keyFingerprint ∉ state.fingerprints ∧ later.keyFingerprint ∈ after.fingerprints)

section
variable {lifetime : ℚ} {state : State} {action : Action}

/-- The members of one state are found in another, each as it was or advanced. -/
def MembersAdvance (state after : State) : Prop :=
  ∀ id before, findMember state.members id = some before →
    ∃ later, findMember after.members id = some later ∧ Advances state after before later

theorem membersAdvance_of_eq {after : State} (h : after.members = state.members) :
    MembersAdvance state after := by
  intro id before hbefore
  exact ⟨before, by rw [h, hbefore], fun hinactive => hinactive, le_refl _, .inl rfl⟩

/-- An UPDATE of one member advances the members when it advances that one. -/
theorem membersAdvance_of_update {after : State} {id : String} {change : Member → Member}
    (hmembers : after.members = updateMember state.members id change)
    (hid : ∀ member, (change member).id = member.id)
    (hchange : ∀ member, Advances state after member (change member)) :
    MembersAdvance state after := by
  intro other before hbefore
  refine ⟨if before.id = id then change before else before, ?_, ?_⟩
  · rw [hmembers, findMember_updateMember hid, hbefore]
    rfl
  · split
    · exact hchange before
    · exact ⟨fun hinactive => hinactive, le_refl _, .inl rfl⟩

/-- No action removes a member, and each member advances. -/
theorem step_members (hfresh : Fresh state action) :
    MembersAdvance state (step lifetime state action) := by
  cases action with
  | create id hash admin expires =>
    intro other before hbefore
    refine ⟨before, ?_, fun hinactive => hinactive, le_refl _, .inl rfl⟩
    show findMember (state.members ++ [_]) other = some before
    rw [findMember_append (by rw [hbefore]; rfl), hbefore]
  | readLogin id =>
    refine membersAdvance_of_eq ?_
    simp only [step]
    split <;> rfl
  | issue login now =>
    refine membersAdvance_of_eq ?_
    simp only [step]
    split <;> rfl
  | request cookie now =>
    refine membersAdvance_of_eq ?_
    simp only [step]
    split <;> rfl
  | logout cookie now =>
    refine membersAdvance_of_eq ?_
    simp only [step]
    split <;> rfl
  | commitLogout id =>
    simp only [step]
    split
    · refine membersAdvance_of_update rfl (fun _ => rfl) ?_
      intro member
      exact ⟨fun hinactive => hinactive, Nat.le_succ _, .inl rfl⟩
    · exact membersAdvance_of_eq rfl
  | regenerateKey id hash =>
    simp only [step]
    split
    · refine membersAdvance_of_update rfl (fun _ => rfl) ?_
      intro member
      exact ⟨fun hinactive => hinactive, le_refl _, .inr ⟨hfresh, by simp [Member.keyFingerprint]⟩⟩
    · exact membersAdvance_of_eq rfl
  | deactivate id now =>
    simp only [step]
    split
    · exact membersAdvance_of_eq rfl
    · rename_i members hmembers
      unfold deactivateMember at hmembers
      split at hmembers
      · cases hmembers
      · split at hmembers
        · cases hmembers
        · cases hmembers
          refine membersAdvance_of_update rfl (fun _ => rfl) ?_
          intro member
          exact ⟨fun _ => rfl, le_refl _, .inl rfl⟩

/-- No action forgets a fingerprint. -/
theorem step_fingerprints {fp : String} (h : fp ∈ state.fingerprints) :
    fp ∈ (step lifetime state action).fingerprints := by
  cases action with
  | create id hash admin expires => exact List.mem_append_left _ h
  | readLogin id =>
    simp only [step]
    split <;> exact h
  | issue login now =>
    simp only [step]
    split <;> exact h
  | request cookie now =>
    simp only [step]
    split <;> exact h
  | logout cookie now =>
    simp only [step]
    split <;> exact h
  | commitLogout id =>
    simp only [step]
    split <;> exact h
  | regenerateKey id hash =>
    simp only [step]
    split
    · exact List.mem_append_left _ h
    · exact h
  | deactivate id now =>
    simp only [step]
    split <;> exact h

/-- No action forgets a login. -/
theorem step_logins {login : Login} (h : login ∈ state.logins) :
    login ∈ (step lifetime state action).logins := by
  cases action with
  | create id hash admin expires => exact h
  | readLogin id =>
    simp only [step]
    split
    · exact h
    · exact List.mem_append_left _ h
  | issue login now =>
    simp only [step]
    split <;> exact h
  | request cookie now =>
    simp only [step]
    split <;> exact h
  | logout cookie now =>
    simp only [step]
    split <;> exact h
  | commitLogout id =>
    simp only [step]
    split <;> exact h
  | regenerateKey id hash =>
    simp only [step]
    split <;> exact h
  | deactivate id now =>
    simp only [step]
    split <;> exact h

/-! ## A dead login stays dead -/

theorem Dead.step {login : Login} (h : Dead state login) (hfresh : Fresh state action) :
    Dead (step lifetime state action) login := by
  have hadvance := @step_members lifetime state action hfresh
  refine ⟨?_, ?_, fun fp hfp => step_fingerprints (h.fingerprint fp hfp)⟩
  · intro id hid
    obtain ⟨before, hbefore⟩ := Option.isSome_iff_exists.mp (h.member id hid)
    obtain ⟨later, hlater, _⟩ := hadvance id before hbefore
    rw [hlater]
    rfl
  · intro id later hid hlater
    obtain ⟨before, hbefore⟩ := Option.isSome_iff_exists.mp (h.member id hid)
    obtain ⟨later', hlater', hadvances⟩ := hadvance id before hbefore
    cases hlater.symm.trans hlater'
    rcases h.revoked id before hid hbefore with hinactive | hepoch | hkey
    · exact .inl (hadvances.inactive hinactive)
    · refine .inr (.inl ?_)
      intro epoch hlogin
      have hlt := hepoch epoch hlogin
      have hle : (before.sessionEpoch : ℚ) ≤ later.sessionEpoch := by
        exact_mod_cast hadvances.epoch
      exact lt_of_lt_of_le hlt hle
    · refine .inr (.inr ?_)
      rcases hadvances.key with hsame | ⟨hnew, _⟩
      · rwa [hsame]
      · -- The new key's fingerprint is no earlier one.
        intro heq
        exact hnew (h.fingerprint _ heq)

/-! ## Every action keeps the invariant -/

/-- A login after an action was there before it, or is the one of a member that was read. -/
theorem step_logins_cases {login : Login} (h : login ∈ (step lifetime state action).logins) :
    login ∈ state.logins
      ∨ ∃ id member, findMember state.members id = some member ∧ login = member.login := by
  cases action with
  | readLogin id =>
    simp only [step] at h
    split at h
    · exact .inl h
    · rename_i member hmember
      rcases List.mem_append.mp h with hold | hnew
      · exact .inl hold
      · exact .inr ⟨id, member, hmember, List.mem_singleton.mp hnew⟩
  | create id hash admin expires => exact .inl h
  | issue other now =>
    simp only [step] at h
    split at h <;> exact .inl h
  | request cookie now =>
    simp only [step] at h
    split at h <;> exact .inl h
  | logout cookie now =>
    simp only [step] at h
    split at h <;> exact .inl h
  | commitLogout id =>
    simp only [step] at h
    split at h <;> exact .inl h
  | regenerateKey id hash =>
    simp only [step] at h
    split at h <;> exact .inl h
  | deactivate id now =>
    simp only [step] at h
    split at h <;> exact .inl h

/-- A request leaves the login of its cookie. -/
theorem renewed_login (cookie : Cookie) (now : ℚ) : (renewed cookie now).login = cookie.login := by
  unfold renewed
  split <;> rfl

/-- Only an issued cookie authenticates a request. -/
theorem authenticated_isSome {cookie : Cookie} {now : ℚ}
    (h : (authenticated lifetime state cookie now).isSome = true) : cookie ∈ state.cookies := by
  unfold authenticated at h
  split at h
  · assumption
  · cases h

/-- A cookie after an action was issued before it, or is issued for a login that was read. -/
theorem step_cookies (hcookies : ∀ cookie ∈ state.cookies, cookie.login ∈ state.logins)
    {cookie : Cookie} (h : cookie ∈ (step lifetime state action).cookies) :
    cookie.login ∈ state.logins := by
  cases action with
  | issue login now =>
    simp only [step] at h
    split at h
    · rename_i hlogin
      rcases List.mem_append.mp h with hold | hnew
      · exact hcookies cookie hold
      · rw [List.mem_singleton.mp hnew]
        exact hlogin
    · exact hcookies cookie h
  | request presented now =>
    simp only [step] at h
    split at h
    · rename_i hauthenticated
      rcases List.mem_append.mp h with hold | hnew
      · exact hcookies cookie hold
      · rw [List.mem_singleton.mp hnew, renewed_login]
        exact hcookies presented (authenticated_isSome hauthenticated)
    · exact hcookies cookie h
  | create id hash admin expires => exact hcookies cookie h
  | readLogin id =>
    simp only [step] at h
    split at h <;> exact hcookies cookie h
  | logout presented now =>
    simp only [step] at h
    split at h <;> exact hcookies cookie h
  | commitLogout id =>
    simp only [step] at h
    split at h <;> exact hcookies cookie h
  | regenerateKey id hash =>
    simp only [step] at h
    split at h <;> exact hcookies cookie h
  | deactivate id now =>
    simp only [step] at h
    split at h <;> exact hcookies cookie h

/-- A member after an action was there before it, or has a key whose fingerprint is known. -/
theorem step_found {id : String} {later : Member}
    (h : findMember (step lifetime state action).members id = some later) :
    (∃ before, findMember state.members id = some before)
      ∨ later.keyFingerprint ∈ (step lifetime state action).fingerprints := by
  cases action with
  | create other hash admin expires =>
    have hfound : findMember (state.members
        ++ [⟨other, some hash, 0, true, admin, expires⟩]) id = some later := h
    unfold findMember at hfound
    rw [List.find?_append] at hfound
    cases hbefore : state.members.find? fun member => member.id = id with
    | some before => exact .inl ⟨before, hbefore⟩
    | none =>
      rw [hbefore, Option.none_or, List.find?_singleton] at hfound
      split at hfound
      · cases hfound
        exact .inr (List.mem_append_right _ (List.mem_singleton.mpr rfl))
      · cases hfound
  | readLogin other =>
    simp only [step] at h
    split at h <;> exact .inl ⟨later, h⟩
  | issue login now =>
    simp only [step] at h
    split at h <;> exact .inl ⟨later, h⟩
  | request cookie now =>
    simp only [step] at h
    split at h <;> exact .inl ⟨later, h⟩
  | logout cookie now =>
    simp only [step] at h
    split at h <;> exact .inl ⟨later, h⟩
  | commitLogout other =>
    simp only [step] at h
    split at h
    · obtain ⟨before, hbefore, _⟩ := found_of_update h fun _ => rfl
      exact .inl ⟨before, hbefore⟩
    · exact .inl ⟨later, h⟩
  | regenerateKey other hash =>
    simp only [step] at h
    split at h
    · obtain ⟨before, hbefore, _⟩ := found_of_update h fun _ => rfl
      exact .inl ⟨before, hbefore⟩
    · exact .inl ⟨later, h⟩
  | deactivate other now =>
    simp only [step] at h
    split at h
    · exact .inl ⟨later, h⟩
    · rename_i members hmembers
      unfold deactivateMember at hmembers
      split at hmembers
      · cases hmembers
      · split at hmembers
        · cases hmembers
        · cases hmembers
          obtain ⟨before, hbefore, _⟩ := found_of_update h fun _ => rfl
          exact .inl ⟨before, hbefore⟩

theorem Consistent.step (h : Consistent state) (hfresh : Fresh state action) :
    Consistent (step lifetime state action) := by
  have hadvance := @step_members lifetime state action hfresh
  refine ⟨?_, ?_, ?_, ?_, ?_⟩
  · intro cookie hcookie
    exact step_logins (step_cookies h.cookies hcookie)
  · intro login hlogin id hid
    have hbefore : (findMember state.members id).isSome = true := by
      rcases step_logins_cases hlogin with hold | ⟨other, member, hmember, rfl⟩
      · exact h.members login hold id hid
      · cases hid
        rw [findMember_id hmember, hmember]
        rfl
    obtain ⟨before, hbefore⟩ := Option.isSome_iff_exists.mp hbefore
    obtain ⟨later, hlater, _⟩ := hadvance id before hbefore
    rw [hlater]
    rfl
  · intro login hlogin id later epoch hid hlater hepoch
    -- The member was there, with an epoch that is not below the login's.
    have hbefore : ∃ before, findMember state.members id = some before
        ∧ epoch ≤ before.sessionEpoch := by
      rcases step_logins_cases hlogin with hold | ⟨other, member, hmember, rfl⟩
      · obtain ⟨before, hbefore⟩ := Option.isSome_iff_exists.mp (h.members login hold id hid)
        exact ⟨before, hbefore, h.epochs login hold id before epoch hid hbefore hepoch⟩
      · cases hid
        cases hepoch
        exact ⟨member, by rw [findMember_id hmember, hmember], le_refl _⟩
    obtain ⟨before, hbefore, hle⟩ := hbefore
    obtain ⟨later', hlater', hadvances⟩ := hadvance id before hbefore
    cases hlater.symm.trans hlater'
    have hepochs : (before.sessionEpoch : ℚ) ≤ later.sessionEpoch := by
      exact_mod_cast hadvances.epoch
    exact hle.trans hepochs
  · intro login hlogin fp hfp
    refine step_fingerprints ?_
    rcases step_logins_cases hlogin with hold | ⟨other, member, hmember, rfl⟩
    · exact h.fingerprints login hold fp hfp
    · cases hfp
      exact h.keys other member hmember
  · intro id later hlater
    rcases step_found hlater with ⟨before, hbefore⟩ | hknown
    · obtain ⟨later', hlater', hadvances⟩ := hadvance id before hbefore
      cases hlater.symm.trans hlater'
      rcases hadvances.key with hsame | ⟨_, hnew⟩
      · rw [hsame]
        exact step_fingerprints (h.keys id before hbefore)
      · exact hnew
    · exact hknown

/-! ## A revocation -/

/-- A revocation leaves every login of its member dead. -/
theorem dead_of_revokes (h : Consistent state) (hfresh : Fresh state action) {login : Login}
    {id : String} (hlogin : login ∈ state.logins) (hid : login.memberId = some id)
    (hrevokes : Revokes state id action) : Dead (step lifetime state action) login := by
  have hstep := @Consistent.step lifetime state action h hfresh
  refine ⟨hstep.members login (step_logins hlogin), ?_,
    hstep.fingerprints login (step_logins hlogin)⟩
  intro id' later hid' hlater
  cases hid.symm.trans hid'
  cases action with
  | commitLogout other =>
    obtain ⟨rfl, hleaving⟩ := hrevokes
    simp only [step, if_pos hleaving] at hlater
    obtain ⟨before, hbefore, rfl⟩ := found_of_update hlater fun _ => rfl
    refine .inr (.inl ?_)
    intro epoch hepoch
    have hle := h.epochs login hlogin other before epoch hid hbefore hepoch
    rw [if_pos (findMember_id hbefore)]
    push_cast
    linarith
  | regenerateKey other hash =>
    cases hrevokes
    have hexists := h.members login hlogin id hid
    simp only [step, if_pos hexists] at hlater
    obtain ⟨before, hbefore, rfl⟩ := found_of_update hlater fun _ => rfl
    refine .inr (.inr ?_)
    rw [if_pos (findMember_id hbefore)]
    intro heq
    exact hfresh (h.fingerprints login hlogin _ heq)
  | deactivate other now =>
    obtain ⟨rfl, haccepted⟩ := hrevokes
    obtain ⟨members, hmembers⟩ := Option.isSome_iff_exists.mp haccepted
    simp only [step, hmembers] at hlater
    unfold deactivateMember at hmembers
    split at hmembers
    · cases hmembers
    · split at hmembers
      · cases hmembers
      · cases hmembers
        obtain ⟨before, hbefore, rfl⟩ := found_of_update hlater fun _ => rfl
        rw [if_pos (findMember_id hbefore)]
        exact .inl rfl
  | create other hash admin expires => cases hrevokes
  | readLogin other => cases hrevokes
  | issue other now => cases hrevokes
  | request cookie now => cases hrevokes
  | logout cookie now => cases hrevokes

/-- A cookie of a dead login authenticates no request. -/
theorem Dead.authenticated_eq_none {cookie : Cookie} (h : Dead state cookie.login) (now : ℚ) :
    authenticated lifetime state cookie now = none := by
  unfold authenticated sessionMember
  split
  · split
    · rename_i hissued htruthy
      cases hid : cookie.login.memberId with
      | none =>
        rw [hid] at htruthy
        cases htruthy
      | some id =>
        rw [Option.filter_eq_none_iff]
        intro member hmember
        rcases h.revoked id member hid hmember with hinactive | hepoch | hkey
        · simp [hinactive]
        · have hmatches : epochMatches member cookie.login = false := by
            unfold epochMatches
            cases hvalue : cookie.login.epoch with
            | none =>
              have hpositive := hepoch 0 (by rw [loginEpoch, hvalue])
              simp only [decide_eq_false_iff_not]
              intro hzero
              rw [hzero] at hpositive
              simp at hpositive
            | some value =>
              cases value with
              | other => rfl
              | number epoch =>
                have hlt := hepoch epoch (by rw [loginEpoch, hvalue])
                simp only [decide_eq_false_iff_not]
                exact ne_of_lt hlt
          simp [hmatches]
        · simp [hkey]
    · rfl
  · rfl

/-- A cookie that is older than the lifetime of a session authenticates no request. -/
theorem authenticated_of_expired {cookie : Cookie} {now loginAt : ℚ}
    (hcookie : cookie.loginAt = some (.number loginAt)) (hold : lifetime < now - loginAt) :
    authenticated lifetime state cookie now = none := by
  have hexpired : sessionExpired lifetime cookie now = true := by
    simp [sessionExpired, hcookie, hold]
  unfold authenticated sessionMember
  split
  · split
    · rw [Option.filter_eq_none_iff]
      intro member _
      simp [hexpired]
    · rfl
  · rfl

end

/-! ## Runs -/

section
variable {lifetime : ℚ} {members : List Member} {legacy : List Cookie}

/-- A portal starts consistent, when the sessions of earlier releases name members and record no
epoch. -/
theorem consistent_start
    (hlegacy : ∀ cookie ∈ legacy, cookie.login.epoch = none
      ∧ ∀ id, cookie.login.memberId = some id → (findMember members id).isSome = true) :
    Consistent (.start members legacy) := by
  refine ⟨?_, ?_, ?_, ?_, ?_⟩
  · intro cookie hcookie
    exact List.mem_map_of_mem hcookie
  · intro login hlogin id hid
    obtain ⟨cookie, hcookie, rfl⟩ := List.mem_map.mp hlogin
    exact (hlegacy cookie hcookie).2 id hid
  · intro login hlogin id member epoch hid hmember hepoch
    obtain ⟨cookie, hcookie, rfl⟩ := List.mem_map.mp hlogin
    rw [loginEpoch, (hlegacy cookie hcookie).1] at hepoch
    cases hepoch
    exact Nat.cast_nonneg _
  · intro login hlogin fp hfp
    obtain ⟨cookie, hcookie, rfl⟩ := List.mem_map.mp hlogin
    exact List.mem_append_right _ (List.mem_filterMap.mpr ⟨cookie, hcookie, hfp⟩)
  · intro id member hmember
    exact List.mem_append_left _ (List.mem_map_of_mem (List.mem_of_find?_eq_some hmember))

/-- Take any run of a portal, with sessions of earlier releases or without, in which every new
key has a new fingerprint. A cookie of a login that was read before a logout was committed, a
key regenerated or the member deactivated authenticates no request after it, however often and
whenever it comes back. And a cookie with a login time authenticates no request that is more
than the lifetime of a session later, nor one that is more than this later than its login. -/
theorem revocation_permanent (lifetime : ℚ) (members : List Member) (legacy : List Cookie)
    (actions : List Action)
    (hlegacy : ∀ cookie ∈ legacy, cookie.login.epoch = none
      ∧ ∀ id, cookie.login.memberId = some id → (findMember members id).isSome = true)
    (hfresh : Along (step lifetime) Fresh (.start members legacy) actions) :
    (∀ earlier event later id cookie now, actions = earlier ++ event :: later →
        cookie ∈ (run lifetime (.start members legacy) earlier).cookies
          ∨ cookie.login ∈ (run lifetime (.start members legacy) earlier).logins →
        cookie.login.memberId = some id →
        Revokes (run lifetime (.start members legacy) earlier) id event →
        authenticated lifetime (run lifetime (.start members legacy) actions) cookie now = none)
    ∧ (∀ cookie now loginAt, cookie.loginAt = some (.number loginAt) →
        lifetime < now - loginAt →
        authenticated lifetime (run lifetime (.start members legacy) actions) cookie now = none)
    ∧ ∀ login issued now, lifetime < now - issued →
        authenticated lifetime (run lifetime (.start members legacy) actions)
          ⟨login, some (loginTime issued)⟩ now = none := by
  refine ⟨?_, fun cookie now loginAt => authenticated_of_expired, ?_⟩
  · rintro earlier event later id cookie now rfl hcookie hid hrevokes
    obtain ⟨hbefore, hevent, hafter⟩ := along_append.mp hfresh
    have hconsistent : Consistent (run lifetime (.start members legacy) earlier) :=
      run_invariant (fun _ _ h hok => h.step hok) hbefore (consistent_start hlegacy)
    have hlogin : cookie.login ∈ (run lifetime (.start members legacy) earlier).logins :=
      hcookie.elim (hconsistent.cookies cookie) fun hlogin => hlogin
    have hdead := @dead_of_revokes lifetime _ event hconsistent hevent _ id hlogin hid hrevokes
    -- The login stays dead to the end of the run.
    have hend : Dead (run lifetime (.start members legacy) (earlier ++ event :: later))
        cookie.login := by
      rw [run, List.foldl_append, List.foldl_cons]
      exact run_invariant (P := fun state => Dead state cookie.login)
        (fun _ _ h hok => h.step hok) hafter hdead
    exact hend.authenticated_eq_none now
  · intro login issued now hold
    refine authenticated_of_expired rfl (lt_of_lt_of_le hold ?_)
    have hfloor : ((⌊issued⌋ : ℤ) : ℚ) ≤ issued := Int.floor_le issued
    linarith

end

/-- An admin with a key. -/
def sampleAdmin : Member where
  id := "m1"
  apiKeyHash := some "9834876dcfb05cb167a5c24953eba58c4ac89b1adf57f28f2f9d09af107ee8f0"
  sessionEpoch := 0
  isActive := true
  isComplianceAdmin := true
  expiresAt := none

/-- The cookie of a login of the admin at the time 1000. -/
def sampleCookie : Cookie := ⟨sampleAdmin.login, some (loginTime 1000)⟩

/-- The admin logs in and out, and then gets a new key. -/
def sampleActions : List Action :=
  [.readLogin "m1", .issue sampleAdmin.login 1000, .request sampleCookie 1060,
    .logout sampleCookie 1120, .commitLogout "m1",
    .regenerateKey "m1" "3e744b9dc39389baf0c5a0660589b8402f3dbb49b89b3e75f2c9355852a3c677"]

/-- Before the logout the cookie is accepted. -/
example : authenticated 43200 (run 43200 (.start [sampleAdmin] []) (sampleActions.take 3))
    sampleCookie 1100 = some sampleAdmin := by
  decide +kernel

/-- After it the cookie is refused, and so is an old one. -/
theorem sample_revocation_permanent :
    (∀ earlier event later id cookie now, sampleActions = earlier ++ event :: later →
        cookie ∈ (run 43200 (.start [sampleAdmin] []) earlier).cookies
          ∨ cookie.login ∈ (run 43200 (.start [sampleAdmin] []) earlier).logins →
        cookie.login.memberId = some id →
        Revokes (run 43200 (.start [sampleAdmin] []) earlier) id event →
        authenticated 43200 (run 43200 (.start [sampleAdmin] []) sampleActions) cookie now = none)
    ∧ (∀ cookie now loginAt, cookie.loginAt = some (.number loginAt) →
        43200 < now - loginAt →
        authenticated 43200 (run 43200 (.start [sampleAdmin] []) sampleActions) cookie now = none)
    ∧ ∀ login issued now, 43200 < now - issued →
        authenticated 43200 (run 43200 (.start [sampleAdmin] []) sampleActions)
          ⟨login, some (loginTime issued)⟩ now = none := by
  refine revocation_permanent 43200 [sampleAdmin] [] sampleActions ?_ ?_
  · intro cookie hcookie
    cases hcookie
  · refine ⟨trivial, trivial, trivial, trivial, trivial, ?_, trivial⟩
    show fingerprint _ ∉ _
    decide +kernel

end TrustPortal.Proofs.Auth
