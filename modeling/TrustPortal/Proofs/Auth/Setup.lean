import TrustPortal.Auth.Setup
import TrustPortal.Lib.Run

/-!
# `TrustPortal.Proofs.Auth.Setup`: what the admin lock guarantees

A request that has the lock has read the members, and until it commits only the transactions
without a lock commit: new members and new keys. `Kept` says what these leave: every member that
was read is still there, with the same columns but for a new key. So what the request found is
still so when it commits (`PhaseOk`), up to the time that passes.

`admin_membership` is the result for every interleaving. The last theorems are runs in which a
member without the lock, or the time, comes between the check and the commit.
-/

set_option autoImplicit false

namespace TrustPortal.Proofs.Auth

open TrustPortal.Sql
open TrustPortal.Audit
open TrustPortal.Auth
open TrustPortal.Lib

/-! ## What the transactions without a lock leave -/

/-- A member after some new members and new keys, compared with the same member before them. -/
structure Follows (before later : Member) : Prop where
  admin : later.isComplianceAdmin = before.isComplianceAdmin
  active : later.isActive = before.isActive
  expires : later.expiresAt = before.expiresAt
  key : later.apiKeyHash = before.apiKeyHash ∨ later.hasUsableKey = true

/-- Every member of one table is in another, with the same columns but for a new key. -/
def Kept (rows members : TeamMembers) : Prop :=
  ∀ id before, rows.get id = some before →
    ∃ later, members.get id = some later ∧ Follows before later

theorem Follows.refl (member : Member) : Follows member member := ⟨rfl, rfl, rfl, .inl rfl⟩

/-- A member with a usable key has one later. -/
theorem Follows.hasUsableKey {before later : Member} (h : Follows before later)
    (hkey : before.hasUsableKey = true) : later.hasUsableKey = true := by
  rcases h.key with hsame | hnew
  · rw [Member.hasUsableKey, hsame]
    exact hkey
  · exact hnew

theorem Follows.trans {a b c : Member} (hab : Follows a b) (hbc : Follows b c) : Follows a c where
  admin := hbc.admin.trans hab.admin
  active := hbc.active.trans hab.active
  expires := hbc.expires.trans hab.expires
  key := by
    rcases hbc.key with hsame | hnew
    · rcases hab.key with hfirst | hnew
      · exact .inl (hsame.trans hfirst)
      · right
        rw [Member.hasUsableKey, hsame]
        exact hnew
    · exact .inr hnew

/-- A member that is not expired was not expired before. -/
theorem isExpired_mono {member : Member} {t now : ℚ} (hle : t ≤ now)
    (h : member.isExpired now = false) : member.isExpired t = false := by
  unfold Member.isExpired at h ⊢
  cases hexpires : member.expiresAt with
  | none => rfl
  | some expires =>
    rw [hexpires] at h
    have hnot : ¬expires < now := by simpa using h
    exact decide_eq_false fun hlt => hnot (lt_of_lt_of_le hlt hle)

/-- A member that is usable later than another row of it was usable before, if it had a key. -/
theorem Follows.usable_before {before later : Member} {t now : ℚ} (h : Follows before later)
    (hle : t ≤ now) (hkey : before.hasUsableKey = true)
    (husable : later.isUsableAdmin now = true) : before.isUsableAdmin t = true := by
  simp only [Member.isUsableAdmin, Bool.and_eq_true, Bool.not_eq_true'] at husable ⊢
  obtain ⟨⟨⟨hadmin, hactive⟩, _⟩, hexpired⟩ := husable
  refine ⟨⟨⟨h.admin ▸ hadmin, h.active ▸ hactive⟩, hkey⟩, ?_⟩
  have hbefore : before.isExpired now = false := by
    rw [Member.isExpired, ← h.expires]
    exact hexpired
  exact isExpired_mono hle hbefore

/-- A durable admin is durable as of the same time with a new key. -/
theorem Follows.durable {before later : Member} {t : ℚ} (h : Follows before later)
    (hdurable : before.isDurableAdmin t = true) : later.isDurableAdmin t = true := by
  simp only [Member.isDurableAdmin, Member.isUsableAdmin, Member.isExpired, Bool.and_eq_true]
    at hdurable ⊢
  obtain ⟨⟨⟨⟨hadmin, hactive⟩, hkey⟩, hexpired⟩, hmargin⟩ := hdurable
  rw [h.admin, h.active, h.expires]
  exact ⟨⟨⟨⟨hadmin, hactive⟩, h.hasUsableKey hkey⟩, hexpired⟩, hmargin⟩

theorem Kept.refl (members : TeamMembers) : Kept members members :=
  fun _ before hfound => ⟨before, hfound, .refl before⟩

theorem Kept.trans {a b c : TeamMembers} (hab : Kept a b) (hbc : Kept b c) : Kept a c := by
  intro id before hfound
  obtain ⟨middle, hmiddle, hfirst⟩ := hab id before hfound
  obtain ⟨later, hlater, hsecond⟩ := hbc id middle hmiddle
  exact ⟨later, hlater, hfirst.trans hsecond⟩

/-- What is read after an UPDATE of other columns than the id. -/
theorem get_update (members : TeamMembers) (id : String) (change : Member → Member)
    (hid : ∀ member, (change member).id = member.id) (other : String) :
    (members.update id change).get other
      = if id = other then (members.get other).map change else members.get other := by
  unfold TeamMembers.update
  split
  · rename_i hnone
    split
    · rename_i heq
      rw [← heq, hnone]
      rfl
    · rfl
  · rename_i member hfound
    rw [Table.get_put, hid, Table.key_of_get hfound]
    split
    · rename_i heq
      rw [← heq, hfound]
      rfl
    · rfl

/-- A new member has a new id. -/
theorem add_spec {members after : TeamMembers} {member : Member} (h : members.add member = some after) :
    members.get member.id = none ∧ ∀ id,
      after.get id = if member.id = id then some member else members.get id := by
  unfold TeamMembers.add at h
  split at h
  · cases h
  · refine ⟨?_, fun id => Table.get_insert h id⟩
    rw [Table.get_eq_none]
    intro hmem
    simp [Table.insert, hmem] at h

/-- A new member leaves the others. -/
theorem kept_add {members after : TeamMembers} {member : Member} (h : members.add member = some after) :
    Kept members after := by
  obtain ⟨hnew, hget⟩ := add_spec h
  intro id before hfound
  refine ⟨before, ?_, .refl before⟩
  have hne : member.id ≠ id := by
    intro heq
    rw [heq, hfound] at hnew
    cases hnew
  rw [hget, if_neg hne, hfound]

/-- A new key leaves the members. -/
theorem kept_regenerateKey (sha : Sha256) (members : TeamMembers) (id apiKey : String) :
    Kept members (members.update id (.withKey (sha.hexOfText apiKey))) := by
  intro other before hfound
  rw [get_update members id (.withKey (sha.hexOfText apiKey)) (fun _ => rfl), hfound]
  split
  · refine ⟨_, rfl, rfl, rfl, rfl, .inr ?_⟩
    show truthy (some (sha.hexOfText apiKey)) = true
    rw [truthy_some, decide_eq_true_eq]
    exact (sha.hexOfText_isHexDigest apiKey).ne_empty
  · exact ⟨before, rfl, .refl before⟩

/-! ## The invariant -/

/-- A request in this phase has the lock. -/
def holdsLock : Phase → Bool
  | .none | .setupLooked _ | .setupAdmitted => false
  | _ => true

/-- The member that a setup request created is an admin with a key and without an expiry. -/
def Bootstrapped (rows : TeamMembers) (id : String) : Prop :=
  ∃ member, rows.get id = some member ∧ member.isComplianceAdmin = true
    ∧ member.expiresAt = none ∧ member.hasUsableKey = true

/-- The row that was read is the member's, but for a new key. -/
def StillMember (member : Member) (members : TeamMembers) : Prop :=
  ∃ later, members.get member.id = some later ∧ Follows member later

/-- Another member is a durable admin as of an earlier time. -/
def DurableSince (member : Member) (members : TeamMembers) (t : ℚ) : Prop :=
  ∃ id other, id ≠ member.id ∧ members.get id = some other
    ∧ other.isDurableAdmin t = true

/-- What a request that has the lock knows is still so. -/
def PhaseOk (members : TeamMembers) (now : ℚ) (bootstrapped : List String) : Phase → Prop
  | .setupRead rows => Kept rows members ∧ ∀ id ∈ bootstrapped, Bootstrapped rows id
  | .setupReady rows checkedAt =>
      (Kept rows members ∧ ∀ id ∈ bootstrapped, Bootstrapped rows id)
        ∧ checkedAt ≤ now ∧ usableAdmins rows checkedAt = []
  | .deactivateFound member => StillMember member members
  | .deactivateChecks member => StillMember member members
  | .deactivateRead member rows => StillMember member members ∧ Kept rows members
  | .deactivateReady member checkedAt =>
      StillMember member members
        ∧ match checkedAt with
          | some t => t ≤ now ∧ DurableSince member members t
          | none => ∃ t ≤ now, member.isUsableAdmin t = false
  | _ => True

/-- The invariant: only the request with the lock is in a phase with the lock, every request knows
what is so, and the admins of the setup requests keep their columns. -/
structure Locked (portal : Portal) : Prop where
  lock : ∀ request, holdsLock (portal.phase request) = true → portal.lock = some request
  phases : ∀ request, PhaseOk portal.members portal.now portal.bootstrapped (portal.phase request)
  bootstrapped : ∀ id ∈ portal.bootstrapped, Bootstrapped portal.members id

section
variable {members after : TeamMembers} {now later : ℚ} {bootstrapped : List String} {phase : Phase}
  {portal : Portal} {request : Nat}

theorem StillMember.mono {member : Member} (h : StillMember member members)
    (hkept : Kept members after) : StillMember member after := by
  obtain ⟨row, hrow, hfollows⟩ := h
  obtain ⟨row', hrow', hnext⟩ := hkept _ row hrow
  exact ⟨row', hrow', hfollows.trans hnext⟩

theorem DurableSince.mono {member : Member} {t : ℚ} (h : DurableSince member members t)
    (hkept : Kept members after) : DurableSince member after t := by
  obtain ⟨id, other, hne, hother, hdurable⟩ := h
  obtain ⟨other', hother', hfollows⟩ := hkept id other hother
  exact ⟨id, other', hne, hother', hfollows.durable hdurable⟩

theorem Bootstrapped.mono {id : String} (h : Bootstrapped members id)
    (hkept : Kept members after) : Bootstrapped after id := by
  obtain ⟨row, hrow, hadmin, hexpires, hkey⟩ := h
  obtain ⟨row', hrow', hfollows⟩ := hkept id row hrow
  exact ⟨row', hrow', hfollows.admin.trans hadmin, hfollows.expires.trans hexpires,
    hfollows.hasUsableKey hkey⟩

/-- What a request knows stays so while time passes and members and keys are added. -/
theorem phaseOk_mono (h : PhaseOk members now bootstrapped phase) (hkept : Kept members after)
    (hnow : now ≤ later) : PhaseOk after later bootstrapped phase := by
  cases phase with
  | setupRead rows => exact ⟨h.1.trans hkept, h.2⟩
  | setupReady rows checkedAt => exact ⟨⟨h.1.1.trans hkept, h.1.2⟩, h.2.1.trans hnow, h.2.2⟩
  | deactivateFound member => exact StillMember.mono h hkept
  | deactivateChecks member => exact StillMember.mono h hkept
  | deactivateRead member rows => exact ⟨h.1.mono hkept, h.2.trans hkept⟩
  | deactivateReady member checkedAt =>
    refine ⟨h.1.mono hkept, ?_⟩
    cases checkedAt with
    | some t => exact ⟨h.2.1.trans hnow, h.2.2.mono hkept⟩
    | none =>
      obtain ⟨t, ht, husable⟩ := h.2
      exact ⟨t, ht.trans hnow, husable⟩
  | _ => trivial

/-- A request without the lock knows nothing. -/
theorem phaseOk_of_free (h : holdsLock phase = false) : PhaseOk members now bootstrapped phase := by
  cases phase <;> trivial

/-- New members, new keys and time keep the invariant. -/
theorem Locked.mono (h : Locked portal) (hkept : Kept portal.members after)
    (hnow : portal.now ≤ later) : Locked { portal with members := after, now := later } where
  lock := h.lock
  phases request := phaseOk_mono (h.phases request) hkept hnow
  bootstrapped id hmem := (h.bootstrapped id hmem).mono hkept

/-- A request with the lock, or one that stays without it, goes on. -/
theorem Locked.goOn (h : Locked portal)
    (hlock : holdsLock phase = true → portal.lock = some request)
    (hok : PhaseOk portal.members portal.now portal.bootstrapped phase) :
    Locked (portal.goOn request phase) where
  lock other hother := by
    by_cases heq : other = request
    · subst heq
      exact hlock (by simpa [Portal.goOn] using hother)
    · exact h.lock other (by simpa [Portal.goOn, heq] using hother)
  phases other := by
    by_cases heq : other = request
    · simpa [Portal.goOn, heq] using hok
    · simpa [Portal.goOn, heq] using h.phases other
  bootstrapped := h.bootstrapped

/-- A request ends. -/
theorem Locked.finish (h : Locked portal) : Locked (portal.finish request) where
  lock other hother := by
    by_cases heq : other = request
    · simp [Portal.finish, Portal.goOn, heq, holdsLock] at hother
    · have hheld := h.lock other (by simpa [Portal.finish, Portal.goOn, heq] using hother)
      show (if portal.lock = some request then none else portal.lock) = some other
      rw [hheld, if_neg (by simpa using heq)]
  phases other := by
    by_cases heq : other = request
    · simp [Portal.finish, Portal.goOn, heq, PhaseOk]
    · simpa [Portal.finish, Portal.goOn, heq] using h.phases other
  bootstrapped := h.bootstrapped

/-- A request waits for the lock or takes it. -/
theorem Locked.lockAdminMembership (h : Locked portal) (hfree : ∀ m n b, PhaseOk m n b phase) :
    Locked (portal.lockAdminMembership request phase) := by
  unfold Portal.lockAdminMembership
  split
  · rename_i hlock
    refine ⟨?_, ?_, h.bootstrapped⟩
    · intro other hother
      by_cases heq : other = request
      · rw [heq]
      · -- nobody has the lock
        have hheld := h.lock other (by simpa [Portal.goOn, heq] using hother)
        rw [hlock] at hheld
        cases hheld
    · intro other
      by_cases heq : other = request
      · simpa [Portal.goOn, heq] using hfree _ _ _
      · simpa [Portal.goOn, heq] using h.phases other
  · exact h

/-- While a request has the lock, every other one is without it. -/
theorem Locked.others_free (h : Locked portal) (hlock : portal.lock = some request) {other : Nat}
    (hne : other ≠ request) : holdsLock (portal.phase other) = false := by
  cases hother : holdsLock (portal.phase other) with
  | false => rfl
  | true =>
    have hheld := h.lock other hother
    rw [hlock, Option.some_inj] at hheld
    exact absurd hheld.symm hne

/-- The request with the lock commits any change of the members. -/
theorem Locked.commit (h : Locked portal) (hlock : portal.lock = some request)
    (hbootstrapped : ∀ id ∈ bootstrapped, Bootstrapped after id) :
    Locked { portal.finish request with members := after, bootstrapped := bootstrapped } where
  lock other hother := by
    by_cases heq : other = request
    · simp [Portal.finish, Portal.goOn, heq, holdsLock] at hother
    · have hfree := h.others_free hlock heq
      simp [Portal.finish, Portal.goOn, heq, hfree] at hother
  phases other := by
    by_cases heq : other = request
    · simp [Portal.finish, Portal.goOn, heq, PhaseOk]
    · have hfree := h.others_free hlock heq
      refine phaseOk_of_free ?_
      simpa [Portal.finish, Portal.goOn, heq] using hfree
  bootstrapped := hbootstrapped

/-! ## One event -/

/-- The member of a setup request, when its row is inserted. -/
theorem bootstrapped_add {sha : Sha256} {id apiKey : String}
    (h : members.add (Portal.newMember sha id apiKey true none) = some after) :
    Bootstrapped after id := by
  obtain ⟨_, hget⟩ := add_spec h
  refine ⟨Portal.newMember sha id apiKey true none, ?_, rfl, rfl, ?_⟩
  · rw [hget]
    exact if_pos rfl
  · show truthy (some (sha.hexOfText apiKey)) = true
    rw [truthy_some, decide_eq_true_eq]
    exact (sha.hexOfText_isHexDigest apiKey).ne_empty

/-- A deactivation leaves the other columns. -/
theorem bootstrapped_deactivate {id other : String} (h : Bootstrapped members id) :
    Bootstrapped (members.update other Member.deactivated) id := by
  obtain ⟨row, hrow, hadmin, hexpires, hkey⟩ := h
  have hupdated := get_update members other Member.deactivated (fun _ => rfl) id
  rw [hrow] at hupdated
  by_cases heq : other = id
  · rw [if_pos heq] at hupdated
    exact ⟨_, hupdated, hadmin, hexpires, hkey⟩
  · rw [if_neg heq] at hupdated
    exact ⟨row, hupdated, hadmin, hexpires, hkey⟩

/-- The check of a deactivation finds a durable admin among the rows it read. -/
theorem durableSince_of_anotherDurable {member : Member} {rows : TeamMembers} {t : ℚ}
    (h : anotherDurable member rows t = true) : DurableSince member rows t := by
  obtain ⟨other, hmem, hother⟩ := List.any_eq_true.mp h
  simp only [Bool.and_eq_true, decide_eq_true_eq] at hother
  exact ⟨other.id, other, hother.1, Table.get_of_mem (List.mem_filter.mp hmem).1, hother.2⟩

/-- The next statement of a setup request keeps the invariant. -/
theorem locked_setupStep {sha : Sha256} {id apiKey : String} (h : Locked portal) :
    Locked (Portal.setupStep sha portal request id apiKey) := by
  have hphase := h.phases request
  have hheld := h.lock request
  unfold Portal.setupStep
  split
  · exact h.goOn nofun trivial
  · split
    · exact h.finish
    · exact h.goOn nofun trivial
  · exact h.lockAdminMembership fun _ _ _ => trivial
  · -- the members are read
    rename_i hat
    rw [hat] at hheld
    exact h.goOn (fun _ => hheld rfl) ⟨.refl _, h.bootstrapped⟩
  · rename_i rows hat
    rw [hat] at hheld hphase
    split
    · exact h.finish
    · rename_i hnone
      have hempty : usableAdmins rows portal.now = [] := by
        simpa [adminExists] using hnone
      exact h.goOn (fun _ => hheld rfl) ⟨hphase, le_rfl, hempty⟩
  · rename_i rows checkedAt hat
    rw [hat] at hheld
    split
    · exact h.finish
    · rename_i members hadd
      refine h.commit (hheld rfl) ?_
      intro other hmem
      rcases List.mem_append.mp hmem with hold | hnew
      · exact (h.bootstrapped other hold).mono (kept_add hadd)
      · rw [List.mem_singleton.mp hnew]
        exact bootstrapped_add hadd
  · exact h

/-- The next statement of a deactivation keeps the invariant. -/
theorem locked_deactivateStep {id : String} (h : Locked portal) :
    Locked (Portal.deactivateStep portal request id) := by
  have hphase := h.phases request
  have hheld := h.lock request
  unfold Portal.deactivateStep
  split
  · exact h.lockAdminMembership fun _ _ _ => trivial
  · rename_i id hat
    rw [hat] at hheld
    split
    · exact h.finish
    · rename_i member hfound
      refine h.goOn (fun _ => hheld rfl) ⟨member, ?_, .refl member⟩
      rw [Table.key_of_get hfound, hfound]
  · rename_i member hat
    rw [hat] at hheld hphase
    split
    · exact h.goOn (fun _ => hheld rfl) hphase
    · rename_i husable
      exact h.goOn (fun _ => hheld rfl)
        ⟨hphase, portal.now, le_rfl, by simpa using husable⟩
  · rename_i member hat
    rw [hat] at hheld hphase
    exact h.goOn (fun _ => hheld rfl) ⟨hphase, .refl _⟩
  · rename_i member rows hat
    rw [hat] at hheld hphase
    split
    · rename_i hdurable
      exact h.goOn (fun _ => hheld rfl)
        ⟨hphase.1, le_rfl, (durableSince_of_anotherDurable hdurable).mono hphase.2⟩
    · exact h.finish
  · rename_i member checkedAt hat
    rw [hat] at hheld
    refine h.commit (hheld rfl) ?_
    intro other hmem
    exact bootstrapped_deactivate (h.bootstrapped other hmem)
  · exact h

/-- Every event keeps the invariant. -/
theorem locked_step {sha : Sha256} {event : Event} (h : Locked portal) :
    Locked (portal.step sha event) := by
  cases event with
  | wait time => exact h.mono (.refl _) (le_max_left _ _)
  | create id apiKey isComplianceAdmin expiresAt =>
    unfold Portal.step
    dsimp only
    split
    · exact h
    · rename_i members hadd
      exact h.mono (kept_add hadd) le_rfl
  | regenerateKey id apiKey =>
    unfold Portal.step
    dsimp only
    split
    · exact h
    · exact h.mono (kept_regenerateKey sha _ id apiKey) le_rfl
  | setup request id apiKey => exact locked_setupStep h
  | deactivate request id => exact locked_deactivateStep h
  | abandon request => exact h.finish

/-! ## The commits -/

/-- A setup request, about to commit: it has the lock, and it found no usable admin among the members
it read. A usable admin there is now was created or got its key after the read. Everyone a setup
request created before is deactivated. -/
structure CreatesAlone (portal : Portal) (request : Nat) (rows : TeamMembers) (checkedAt : ℚ) :
    Prop where
  ready : portal.phase request = .setupReady rows checkedAt
  lock : portal.lock = some request
  time : checkedAt ≤ portal.now
  alone : usableAdmins rows checkedAt = []
  others : ∀ id member, portal.members.get id = some member →
    member.isUsableAdmin portal.now = true →
      rows.get id = none ∨ ∃ before, rows.get id = some before ∧ before.apiKeyHash = none
  earlier : ∀ id ∈ portal.bootstrapped,
    ∃ member, portal.members.get id = some member ∧ member.isActive = false

/-- A deactivation of a usable admin, about to commit: another admin is durable as of a time since
the request has the lock, or the member had no usable key when the request read it. -/
def KeepsDurable (portal : Portal) (request : Nat) (member : Member) (checkedAt : Option ℚ) : Prop :=
  portal.phase request = .deactivateReady member checkedAt
    ∧ ((∃ t ≤ portal.now, checkedAt = some t ∧ DurableSince member portal.members t)
      ∨ (checkedAt = none ∧ member.hasUsableKey = false))

/-- No row that was read is a usable admin. -/
private theorem not_usable_of_nil {rows : TeamMembers} {t : ℚ} (h : usableAdmins rows t = [])
    {id : String} {member : Member} (hfound : rows.get id = some member) :
    (member.isComplianceAdmin && member.isActive && member.apiKeyHash.isSome
      && !member.isExpired t) = false := by
  have hnot := List.filter_eq_nil_iff.mp h member (Table.mem_of_get hfound)
  simpa using hnot

/-- A setup request that is ready creates the only usable admin, but for new members and new keys
since its read. -/
theorem createsAlone_of_ready (h : Locked portal) {rows : TeamMembers} {checkedAt : ℚ}
    (hready : portal.phase request = .setupReady rows checkedAt) :
    CreatesAlone portal request rows checkedAt := by
  have hphase := h.phases request
  have hheld := h.lock request
  rw [hready] at hphase hheld
  obtain ⟨⟨hkept, hbootstrapped⟩, htime, hempty⟩ := hphase
  refine ⟨hready, hheld rfl, htime, hempty, ?_, ?_⟩
  · intro id member hfound husable
    cases hbefore : rows.get id with
    | none => exact .inl rfl
    | some before =>
      obtain ⟨later, hlater, hfollows⟩ := hkept id before hbefore
      cases hlater.symm.trans hfound
      -- the row that was read is no usable admin, and only its key can have changed
      have hnot := not_usable_of_nil hempty hbefore
      simp only [Member.isUsableAdmin, Bool.and_eq_true, Bool.not_eq_true'] at husable
      obtain ⟨⟨⟨hadmin, hactive⟩, _⟩, hexpired⟩ := husable
      have hfresh : before.isExpired checkedAt = false := by
        refine isExpired_mono htime ?_
        rw [Member.isExpired, ← hfollows.expires]
        exact hexpired
      rw [← hfollows.admin, ← hfollows.active, hadmin, hactive, hfresh] at hnot
      refine .inr ⟨before, rfl, ?_⟩
      simpa using hnot
  · intro id hmem
    obtain ⟨before, hbefore, hadmin, hexpires, hkey⟩ := hbootstrapped id hmem
    obtain ⟨later, hlater, hfollows⟩ := hkept id before hbefore
    refine ⟨later, hlater, ?_⟩
    have hnot := not_usable_of_nil hempty hbefore
    have hsome : before.apiKeyHash.isSome = true := by
      cases hhash : before.apiKeyHash with
      | none =>
        rw [Member.hasUsableKey, hhash] at hkey
        cases hkey
      | some hash => rfl
    rw [hfollows.active]
    simpa [hadmin, hsome, Member.isExpired, hexpires] using hnot

/-- Waiting for the lock leaves the members. -/
private theorem lockAdminMembership_members (portal : Portal) (request : Nat) (phase : Phase) :
    (portal.lockAdminMembership request phase).members = portal.members
      ∧ (portal.lockAdminMembership request phase).bootstrapped = portal.bootstrapped := by
  unfold Portal.lockAdminMembership
  split <;> exact ⟨rfl, rfl⟩

/-- The next statement of a setup request leaves the members, or it is the commit. -/
theorem setupStep_cases (sha : Sha256) (portal : Portal) (request : Nat) (id apiKey : String) :
    ((Portal.setupStep sha portal request id apiKey).members = portal.members
      ∧ (Portal.setupStep sha portal request id apiKey).bootstrapped = portal.bootstrapped)
    ∨ ∃ rows checkedAt members, portal.phase request = .setupReady rows checkedAt
        ∧ portal.members.add (Portal.newMember sha id apiKey true none) = some members
        ∧ (Portal.setupStep sha portal request id apiKey).members = members
        ∧ (Portal.setupStep sha portal request id apiKey).bootstrapped
          = portal.bootstrapped ++ [id] := by
  unfold Portal.setupStep
  split
  · exact .inl ⟨rfl, rfl⟩
  · split <;> exact .inl ⟨rfl, rfl⟩
  · exact .inl (lockAdminMembership_members portal request _)
  · exact .inl ⟨rfl, rfl⟩
  · split <;> exact .inl ⟨rfl, rfl⟩
  · rename_i rows checkedAt hready
    split
    · exact .inl ⟨rfl, rfl⟩
    · rename_i members hadd
      exact .inr ⟨rows, checkedAt, members, hready, hadd, rfl, rfl⟩
  · exact .inl ⟨rfl, rfl⟩

/-- The next statement of a deactivation leaves the members, or it is the commit. -/
theorem deactivateStep_cases (portal : Portal) (request : Nat) (id : String) :
    (Portal.deactivateStep portal request id).bootstrapped = portal.bootstrapped
    ∧ ((Portal.deactivateStep portal request id).members = portal.members
      ∨ ∃ member checkedAt, portal.phase request = .deactivateReady member checkedAt
          ∧ (Portal.deactivateStep portal request id).members
            = portal.members.update member.id Member.deactivated) := by
  unfold Portal.deactivateStep
  split
  · obtain ⟨hmembers, hbootstrapped⟩ := lockAdminMembership_members portal request
      (.deactivateLocked id)
    exact ⟨hbootstrapped, .inl hmembers⟩
  · split <;> exact ⟨rfl, .inl rfl⟩
  · split <;> exact ⟨rfl, .inl rfl⟩
  · exact ⟨rfl, .inl rfl⟩
  · split <;> exact ⟨rfl, .inl rfl⟩
  · rename_i member checkedAt hready
    exact ⟨rfl, .inr ⟨member, checkedAt, hready, rfl⟩⟩
  · exact ⟨rfl, .inl rfl⟩

/-- An event leaves the members but for new ones and new keys, or it is the commit of a
deactivation. -/
theorem step_cases (sha : Sha256) (portal : Portal) (event : Event) :
    Kept portal.members (portal.step sha event).members
    ∨ ∃ request other member checkedAt, event = .deactivate request other
        ∧ portal.phase request = .deactivateReady member checkedAt
        ∧ (portal.step sha event).members
          = portal.members.update member.id Member.deactivated := by
  cases event with
  | wait time => exact .inl (.refl _)
  | abandon request => exact .inl (.refl _)
  | create id apiKey isComplianceAdmin expiresAt =>
    left
    unfold Portal.step
    dsimp only
    split
    · exact .refl _
    · rename_i members hadd
      exact kept_add hadd
  | regenerateKey id apiKey =>
    left
    unfold Portal.step
    dsimp only
    split
    · exact .refl _
    · exact kept_regenerateKey sha _ id apiKey
  | setup request id apiKey =>
    left
    rcases setupStep_cases sha portal request id apiKey with
      ⟨hmembers, _⟩ | ⟨_, _, members, _, hadd, hmembers, _⟩
    · show Kept portal.members (Portal.setupStep sha portal request id apiKey).members
      rw [hmembers]
      exact .refl _
    · show Kept portal.members (Portal.setupStep sha portal request id apiKey).members
      rw [hmembers]
      exact kept_add hadd
  | deactivate request id =>
    rcases (deactivateStep_cases portal request id).2 with
      hmembers | ⟨member, checkedAt, hready, hmembers⟩
    · left
      show Kept portal.members (Portal.deactivateStep portal request id).members
      rw [hmembers]
      exact .refl _
    · exact .inr ⟨request, id, member, checkedAt, rfl, hready, hmembers⟩

/-- Only the commit of a setup request creates a member of the setup requests. -/
theorem bootstrapped_step (sha : Sha256) (portal : Portal) (event : Event) :
    (portal.step sha event).bootstrapped = portal.bootstrapped
      ∨ ∃ request id rows checkedAt, portal.phase request = .setupReady rows checkedAt
          ∧ (portal.step sha event).bootstrapped = portal.bootstrapped ++ [id] := by
  cases event with
  | wait time => exact .inl rfl
  | abandon request => exact .inl rfl
  | create id apiKey isComplianceAdmin expiresAt =>
    left
    unfold Portal.step
    dsimp only
    split <;> rfl
  | regenerateKey id apiKey =>
    left
    unfold Portal.step
    dsimp only
    split <;> rfl
  | deactivate request id => exact .inl (deactivateStep_cases portal request id).1
  | setup request id apiKey =>
    rcases setupStep_cases sha portal request id apiKey with
      ⟨_, hsame⟩ | ⟨rows, checkedAt, _, hready, _, _, hgrows⟩
    · exact .inl hsame
    · exact .inr ⟨request, id, rows, checkedAt, hready, hgrows⟩

/-- Only the commit of a deactivation makes an active member inactive. -/
theorem deactivated_step {sha : Sha256} {event : Event} {id : String} {member later : Member}
    (hmember : portal.members.get id = some member)
    (hlater : (portal.step sha event).members.get id = some later)
    (hactive : member.isActive = true) (hinactive : later.isActive = false) :
    ∃ request row checkedAt, portal.phase request = .deactivateReady row checkedAt
      ∧ row.id = id := by
  rcases step_cases sha portal event with hkept | ⟨request, _, row, checkedAt, _, hready, hmembers⟩
  · obtain ⟨same, hsame, hfollows⟩ := hkept id member hmember
    cases hlater.symm.trans hsame
    rw [hfollows.active, hactive] at hinactive
    cases hinactive
  · refine ⟨request, row, checkedAt, hready, ?_⟩
    by_contra hne
    -- another member is deactivated
    rw [hmembers, get_update portal.members row.id Member.deactivated (fun _ => rfl) id,
      if_neg hne, hmember] at hlater
    cases hlater
    rw [hactive] at hinactive
    cases hinactive

/-- A deactivation that is ready keeps a durable admin, or its member had no key. -/
theorem keepsDurable_of_ready (h : Locked portal) {member row : Member} {checkedAt : Option ℚ}
    (hready : portal.phase request = .deactivateReady row checkedAt)
    (hmember : portal.members.get row.id = some member)
    (husable : member.isUsableAdmin portal.now = true) :
    KeepsDurable portal request row checkedAt := by
  have hphase := h.phases request
  rw [hready] at hphase
  obtain ⟨⟨later, hlater, hfollows⟩, hchecked⟩ := hphase
  cases hlater.symm.trans hmember
  refine ⟨hready, ?_⟩
  cases checkedAt with
  | some t => exact .inl ⟨t, hchecked.1, rfl, hchecked.2⟩
  | none =>
    obtain ⟨t, ht, hnot⟩ := hchecked
    right
    refine ⟨rfl, ?_⟩
    cases hkey : row.hasUsableKey with
    | false => rfl
    | true =>
      rw [hfollows.usable_before ht hkey husable] at hnot
      cases hnot

end

/-! ## The main result -/

/-- The portal as it starts has the invariant. -/
theorem locked_start (members : TeamMembers) (now : ℚ) : Locked (.start members now) where
  lock _ hheld := by cases hheld
  phases _ := trivial
  bootstrapped _ hmem := by cases hmem

/-- Take any interleaving of setup requests, deactivations, new members and new keys, while time
passes. A setup request creates an admin only when it found none under the lock, and any admin there
is besides got in or got its key after that; and everyone a setup request created before is
deactivated. A deactivation of a usable admin commits only when another admin was durable at the
check under the lock, which is still active and has a key, or when the member had no key then. -/
theorem admin_membership (sha : Sha256) (members : TeamMembers) (now : ℚ) (events : List Event)
    (event : Event) :
    let portal := Portal.run sha (.start members now) events
    let after := portal.step sha event
    (after.bootstrapped = portal.bootstrapped
      ∨ ∃ request id rows checkedAt, after.bootstrapped = portal.bootstrapped ++ [id]
          ∧ CreatesAlone portal request rows checkedAt)
    ∧ ∀ id member later, portal.members.get id = some member →
        after.members.get id = some later → member.isUsableAdmin portal.now = true →
        later.isActive = false →
        ∃ request row checkedAt, row.id = id ∧ KeepsDurable portal request row checkedAt := by
  intro portal after
  have hlocked : Locked portal := by
    refine @run_invariant _ _ (Portal.step sha) (fun _ _ => True) Locked ?_ _ events ?_ ?_
    · intro portal event h _
      exact locked_step h
    · exact along_of_forall (fun _ _ => trivial) _ _
    · exact locked_start members now
  refine ⟨?_, ?_⟩
  · rcases bootstrapped_step sha portal event with
      hsame | ⟨request, id, rows, checkedAt, hready, hgrows⟩
    · exact .inl hsame
    · exact .inr ⟨request, id, rows, checkedAt, hgrows, createsAlone_of_ready hlocked hready⟩
  · intro id member later hmember hlater husable hinactive
    have hactive : member.isActive = true := by
      simp only [Member.isUsableAdmin, Bool.and_eq_true] at husable
      exact husable.1.1.2
    obtain ⟨request, row, checkedAt, hready, rfl⟩ :=
      deactivated_step hmember hlater hactive hinactive
    exact ⟨request, row, checkedAt, rfl, keepsDurable_of_ready hlocked hready hmember husable⟩

/-! ## Three interleavings -/

/-- The digests of the sample keys. -/
def sampleSha : Sha256 := .ofDigests
  [("k1", "6ab9f1eb8f7d3388f4f9d586f66e99fd54080df2c446f0e58668b09c08a16dd0"),
    ("k2", "015f7e6bc5aeaf483724089e9252cc13b50951a6b69412522765cff4d780306e"),
    ("k3", "2f5052c9fd15b19a18c584d01363568198613f0c34e84409ef7938709a159ec2")]
  (by decide)

/-- The statements of a setup request up to its commit. -/
def setupChecks (request : Nat) : List Event := List.replicate 5 (.setup request "" "")

/-- The statements of a deactivation up to its commit. -/
def deactivationChecks (request : Nat) (id : String) : List Event :=
  List.replicate 5 (.deactivate request id)

/-- A portal with an admin, and another one whose access ends a minute after the margin. -/
def twoAdmins : List Event :=
  [.create "a" "k1" true none, .create "d" "k2" true (some (DURABLE_ADMIN_MARGIN + 60))]

/-- The deactivation of `a` keeps `d`. -/
theorem admin_membership_twoAdmins :
    let portal := Portal.run sampleSha (.start (.empty _) 0) (twoAdmins ++ deactivationChecks 0 "a")
    let after := portal.step sampleSha (.deactivate 0 "a")
    ∃ request row checkedAt, row.id = "a" ∧ KeepsDurable portal request row checkedAt
      ∧ (after.members.get "a").map Member.isActive = some false := by
  have hfound : ((Portal.run sampleSha (.start (.empty _) 0)
      (twoAdmins ++ deactivationChecks 0 "a")).members.get "a")
        = some (Portal.newMember sampleSha "a" "k1" true none) := by
    decide +kernel
  have hlater : (((Portal.run sampleSha (.start (.empty _) 0)
      (twoAdmins ++ deactivationChecks 0 "a")).step sampleSha (.deactivate 0 "a")).members.get "a")
        = some (Portal.newMember sampleSha "a" "k1" true none).deactivated := by
    decide +kernel
  obtain ⟨request, row, checkedAt, hid, hkeeps⟩ := (admin_membership sampleSha (.empty _) 0
    (twoAdmins ++ deactivationChecks 0 "a") (.deactivate 0 "a")).2 "a" _ _ hfound hlater
    (by decide +kernel) rfl
  exact ⟨request, row, checkedAt, hid, hkeeps, by rw [hlater]; rfl⟩

/-- A setup request that waits while another one creates an admin, who is replaced by one whose
access ends. -/
def twoSetups : List Event :=
  List.replicate 2 (.setup 1 "" "") ++ setupChecks 0
    ++ [.setup 0 "s" "k1", .create "d" "k2" true (some (DURABLE_ADMIN_MARGIN + 60))]
    ++ deactivationChecks 2 "s" ++ [.deactivate 2 "s", .wait (DURABLE_ADMIN_MARGIN + 120)]
    ++ List.replicate 3 (.setup 1 "" "")

/-- The CLI creates an admin between the check of a setup request and its commit, so there is another
usable admin when the request creates one. A minute passes between the check of a deactivation and
its commit, so nobody else is a durable admin then. And two setup requests that overlap both create
an admin. -/
theorem admin_membership_races :
    (let portal := Portal.run sampleSha (.start (.empty _) 0)
        (setupChecks 0 ++ [.create "c" "k2" true none]);
      (portal.members.get "c").map (Member.isUsableAdmin · portal.now) = some true
        ∧ (portal.step sampleSha (.setup 0 "s" "k1")).bootstrapped = ["s"])
    ∧ (let portal := Portal.run sampleSha (.start (.empty _) 0)
        (twoAdmins ++ deactivationChecks 0 "a" ++ [.wait 60]);
      (portal.members.get "a").map (Member.isUsableAdmin · portal.now) = some true
        ∧ (portal.members.get "d").map (Member.isDurableAdmin · portal.now) = some false
        ∧ portal.members.rows.length = 2
        ∧ ((portal.step sampleSha (.deactivate 0 "a")).members.get "a").map Member.isActive
          = some false)
    ∧ (Portal.run sampleSha (.start (.empty _) 0)
        (twoSetups ++ [.setup 1 "t" "k3"])).bootstrapped = ["s", "t"] := by
  decide +kernel

end TrustPortal.Proofs.Auth
