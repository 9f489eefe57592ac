import TrustPortal.EvidenceStore.Retention
import TrustPortal.Lib.Run
import Mathlib.Data.List.TakeWhile

/-!
# `TrustPortal.Proofs.EvidenceStore.Retention`: retention floors only drop by an administrator

The advisory lock is what makes the guard's checks hold for the table: a transaction with floors of
its own has the lock (`Covered`), so the guard sees every floor there is, committed or not, and the
row that it lets through comes after all of them (`Inv`).

What is visible is then in the order of `set_at` for each bucket (`Appended`), and all that is said
about reading the floors follows from that alone. `retention_floors_ordered` puts it together for
every interleaving of the transactions.
-/

set_option autoImplicit false

namespace TrustPortal.Proofs.EvidenceStore.Retention

open TrustPortal.Lib
open TrustPortal.EvidenceStore
open TrustPortal.EvidenceStore.Retention

/-- The row names who set the floor, and why. -/
def IsNamed (floor : Floor) : Prop := floor.setBy.isSome = true ∧ btrim floor.reason ≠ ""

/-- A row that is appended to rows of the same bucket is later, and named. -/
def Follows (floor later : Floor) : Prop :=
  floor.bucket = later.bucket → floor.setAt < later.setAt ∧ IsNamed later

/-- Every row follows the rows before it. -/
def Appended (rows : List Floor) : Prop := rows.Pairwise Follows

section
variable {collation : String → String → Bool} {s : Floors} {tx : Nat} {t : Transaction}
  {rows seen : List Floor} {floor : Floor} {bucket : String} {now : Int} {new : NewFloor}

/-! ## The guard -/

/-- What the guard lets through. -/
theorem retentionFloorsGuard_ok_iff : retentionFloorsGuard seen now new = .ok ()
    ↔ ∀ floor ∈ seen, floor.bucket = new.bucket →
        floor.setAt < now ∧ new.isUnnamed = false := by
  rw [retentionFloorsGuard]
  split_ifs with hlater hunnamed
  · simp only [List.any_eq_true, Bool.and_eq_true, decide_eq_true_eq] at hlater
    obtain ⟨floor, hmem, hbucket, hle⟩ := hlater
    refine ⟨nofun, fun h => ?_⟩
    have := (h floor hmem hbucket).1
    omega
  · simp only [Bool.and_eq_true, List.any_eq_true, decide_eq_true_eq] at hunnamed
    obtain ⟨hunnamed, floor, hmem, hbucket⟩ := hunnamed
    refine ⟨nofun, fun h => ?_⟩
    rw [(h floor hmem hbucket).2] at hunnamed
    cases hunnamed
  · refine ⟨fun _ floor hmem hbucket => ⟨?_, ?_⟩, fun _ => rfl⟩
    · by_contra hle
      refine hlater (List.any_eq_true.mpr ⟨floor, hmem, ?_⟩)
      simpa [hbucket] using hle
    · by_contra hnamed
      refine hunnamed ?_
      rw [Bool.not_eq_false] at hnamed
      rw [hnamed, Bool.true_and]
      exact List.any_eq_true.mpr ⟨floor, hmem, by simpa using hbucket⟩

/-- A row that is let through follows every row that the guard sees. -/
private theorem follows_of_accept (h : accept seen now new = some floor) :
    ∀ earlier ∈ seen, Follows earlier floor := by
  rw [accept] at h
  split at h
  · next reason hguard hreason =>
    split_ifs at h
    cases h
    intro earlier hmem hbucket
    obtain ⟨hless, hnamed⟩ := retentionFloorsGuard_ok_iff.mp hguard earlier hmem hbucket
    rw [NewFloor.isUnnamed, hreason, Option.all_some, Bool.or_eq_false_iff] at hnamed
    refine ⟨hless, ?_, ?_⟩
    · show new.setBy.isSome = true
      simpa using hnamed.1
    · simpa using hnamed.2
  · cases h

/-! ## What the application inserts -/

/-- A text without anything between the spaces consists of spaces. -/
private theorem eq_space_of_btrim {text : String} (h : btrim text = "") : ∀ c ∈ text.toList, c = ' ' := by
  rw [btrim, String.ofList_eq_empty_iff, List.reverse_eq_nil_iff, List.dropWhile_eq_nil_iff] at h
  have hdrop : text.toList.dropWhile (· = ' ') = [] := by
    by_contra hne
    have hhead := List.head_dropWhile_not (· = ' ') hne
    rw [h _ (List.mem_reverse.mpr (List.head_mem hne))] at hhead
    cases hhead
  intro c hc
  simpa using List.dropWhile_eq_nil_iff.mp hdrop c hc

/-- A text that `str.strip` has stripped is empty or has more than spaces. -/
private theorem btrim_strip_ne {text : String} (h : strip text ≠ "") : btrim (strip text) ≠ "" := by
  intro hblank
  rw [strip, ne_eq, String.ofList_eq_empty_iff, List.reverse_eq_nil_iff] at h
  have hspace : isSpace (List.head _ h) = true := by
    have hmem := eq_space_of_btrim hblank (List.head _ h)
      (by rw [strip, String.toList_ofList]; exact List.mem_reverse.mpr (List.head_mem h))
    rw [hmem]
    decide
  rw [List.head_dropWhile_not isSpace h] at hspace
  cases hspace

/-- The guard never refuses the floor of a bucket's first sync. -/
theorem recordRetention_admitted {runId id : String} {periodDays : Option Int}
    (h : recordRetention seen bucket runId periodDays id = some new) (now : Int) :
    retentionFloorsGuard seen now new = .ok () := by
  unfold recordRetention at h
  split at h
  · cases h
  · split_ifs at h with hnone
    cases h
    refine retentionFloorsGuard_ok_iff.mpr fun floor hmem hbucket => ?_
    exact absurd ⟨floor, hmem, hbucket⟩ (not_or.mp hnone).2

/-- An administrator's row is named, so the guard refuses it only when it is not the latest. -/
theorem setRetentionFloor_admitted_iff {days : Option Int} {reason memberId id : String}
    (h : setRetentionFloor collation seen bucket days reason memberId id = .ok new)
    {later : List Floor} :
    retentionFloorsGuard later now new = .ok ()
      ↔ ∀ floor ∈ later, floor.bucket = bucket → floor.setAt < now := by
  rw [setRetentionFloor] at h
  split at h
  · cases h
  · next text htext =>
    have hnamed : btrim text ≠ "" := by
      rw [reasonText] at htext
      split_ifs at htext with hempty
      cases htext
      exact btrim_strip_ne hempty
    split at h
    · cases h
    · split at h
      · cases h
      · cases h
        rw [retentionFloorsGuard_ok_iff]
        simp [NewFloor.isUnnamed, hnamed]

/-! ## Transactions and the lock -/

/-- A transaction that added a floor took the lock before, and did not lose it since: with every
part of a transaction that has floors, this part or an earlier one has the lock. -/
def CoveredFrames : List Frame → Prop
  | [] => True
  | frame :: outer =>
    (frame.rows ≠ [] → frame.locked = true ∨ outer.any Frame.locked = true) ∧ CoveredFrames outer

/-- `CoveredFrames` of all parts. -/
def Covered (t : Transaction) : Prop := CoveredFrames (t.inner :: t.outer)

/-- The transaction and the lock agree, and what it sees is appended. -/
structure Fits (s : Floors) (tx : Nat) (t : Transaction) : Prop where
  covered : Covered t
  lock : t.locked = true ↔ s.lock = some tx
  appended : Appended (s.committed ++ t.rows)

/-- Every transaction fits, and what is committed is appended. -/
structure Inv (s : Floors) : Prop where
  fits : ∀ tx t, s.transactions tx = some t → Fits s tx t
  committed : Appended s.committed

/-- Without a lock there are no floors. -/
private theorem rows_of_unlocked {frames : List Frame} (h : CoveredFrames frames)
    (hlock : frames.any Frame.locked = false) : ∀ frame ∈ frames, frame.rows = [] := by
  induction frames with
  | nil => nofun
  | cons frame outer ih =>
    rw [List.any_cons, Bool.or_eq_false_iff] at hlock
    intro other hmem
    rcases List.mem_cons.mp hmem with rfl | hmem
    · by_contra hrows
      rcases h.1 hrows with h | h
      · rw [hlock.1] at h
        cases h
      · rw [hlock.2] at h
        cases h
    · exact ih h.2 hlock.2 other hmem

private theorem Covered.rows_eq_nil (h : Covered t) (hlock : t.locked = false) : t.rows = [] := by
  have hrows := rows_of_unlocked h (by rw [List.any_cons]; exact hlock)
  rw [Transaction.rows, hrows t.inner List.mem_cons_self, List.append_nil,
    List.flatMap_eq_nil_iff]
  intro frame hframe
  exact hrows frame (List.mem_cons_of_mem _ (List.mem_reverse.mp hframe))

/-- Only the transaction with the lock has floors that are not committed. -/
private theorem Inv.rows_eq_nil (h : Inv s) (ht : s.transactions tx = some t)
    (hlock : s.lock ≠ some tx) : t.rows = [] := by
  refine (h.fits tx t ht).covered.rows_eq_nil ?_
  rw [← Bool.not_eq_true, (h.fits tx t ht).lock]
  exact hlock

/-- What a statement sees is appended. -/
private theorem Inv.appended_visible (h : Inv s) (tx : Nat) : Appended (s.visible tx) := by
  rw [Floors.visible]
  cases ht : s.transactions tx with
  | none =>
    show Appended (s.committed ++ [])
    rw [List.append_nil]
    exact h.committed
  | some t => exact (h.fits tx t ht).appended

/-! ## Steps -/

/-- `Inv` but for a transaction that is at a statement. -/
private structure Others (s : Floors) (tx : Nat) : Prop where
  fits : ∀ other t, other ≠ tx → s.transactions other = some t → Fits s other t
  committed : Appended s.committed

private theorem Inv.others (h : Inv s) (tx : Nat) : Others s tx where
  fits := fun other t _ => h.fits other t
  committed := h.committed

/-- The transaction goes on. -/
private theorem Others.put (h : Others s tx) (hcovered : Covered t)
    (hlock : t.locked = true → s.lock = some tx) (happended : Appended (s.committed ++ t.rows)) :
    Inv (s.put tx t) where
  fits := by
    intro other u hu
    simp only [Floors.put] at hu
    split_ifs at hu with hother
    · cases hu
      subst hother
      refine ⟨hcovered, ?_, happended⟩
      cases hlocked : t.locked with
      | true => simp [Floors.put, hlock hlocked, hlocked]
      | false => by_cases hhas : s.lock = some other <;> simp [Floors.put, hhas, hlocked]
    · have hfits := h.fits other u hother hu
      refine ⟨hfits.covered, ?_, hfits.appended⟩
      rw [hfits.lock, Floors.put]
      by_cases hfree : s.lock = some tx ∧ t.locked = false
      · rw [if_pos hfree, hfree.1]
        simp [Ne.symm hother]
      · rw [if_neg hfree]
  committed := h.committed

/-- The transaction ends, and the table is as it was. -/
private theorem Others.finish (h : Others s tx) : Inv (s.finish tx) where
  fits := by
    intro other u hu
    simp only [Floors.finish] at hu
    split_ifs at hu with hother
    have hfits := h.fits other u hother hu
    refine ⟨hfits.covered, ?_, hfits.appended⟩
    rw [hfits.lock, Floors.finish]
    by_cases hhas : s.lock = some tx
    · rw [if_pos hhas, hhas]
      simp [Ne.symm hother]
    · rw [if_neg hhas]
  committed := h.committed

/-- A transaction goes on as it fits. -/
private theorem Inv.put (h : Inv s) (hfits : Fits s tx t) : Inv (s.put tx t) :=
  (h.others tx).put hfits.covered hfits.lock.mp hfits.appended

/-- The transaction has the lock, and no other one is concerned. -/
private structure Holds (s : Floors) (tx : Nat) (t : Transaction) : Prop where
  others : Others s tx
  lock : s.lock = some tx
  fits : Fits s tx t

private theorem Holds.put (h : Holds s tx t) : Inv (s.put tx t) :=
  h.others.put h.fits.covered (fun _ => h.lock) h.fits.appended

/-- The transaction has the lock now. -/
private theorem holds_lockChain (h : Inv s) (hfits : Fits s tx t) {s' : Floors}
    {t' : Transaction} (hchain : s.lockChain tx t = some (s', t')) : Holds s' tx t' := by
  rw [Floors.lockChain] at hchain
  split at hchain
  · next hfree =>
    cases hchain
    refine ⟨⟨fun other u hother hu => ?_, h.committed⟩, rfl, ?_⟩
    · have hother' := h.fits other u hu
      refine ⟨hother'.covered, ?_, hother'.appended⟩
      rw [hother'.lock, hfree]
      simp [Ne.symm hother]
    · exact ⟨⟨fun _ => .inl rfl, hfits.covered.2⟩, ⟨fun _ => rfl, fun _ => rfl⟩, hfits.appended⟩
  · next other hlock =>
    split_ifs at hchain with hother
    cases hchain
    subst hother
    exact ⟨h.others other, hlock, hfits⟩

/-- Dropping what was done since the last savepoint keeps the parts before it. -/
private theorem appended_outer (h : Appended (s.committed ++ t.rows)) :
    Appended (s.committed ++ (t.outer.reverse.flatMap Frame.rows ++ [])) := by
  rw [List.append_nil]
  refine List.Pairwise.sublist ?_ h
  exact (List.sublist_append_left _ _).append_left _

/-- A transaction without what it did since the last savepoint. -/
private theorem inv_dropInner (h : Others s tx) (hfits : Fits s tx t) (failed : Bool) :
    Inv (s.put tx { t with inner := ⟨[], false⟩, failed := failed }) := by
  refine h.put ⟨fun hrows => absurd rfl hrows, hfits.covered.2⟩ (fun houter => hfits.lock.mp ?_)
    (appended_outer (t := t) hfits.appended)
  rw [Transaction.locked, Bool.false_or] at houter
  rw [Transaction.locked, houter, Bool.or_true]

/-- The guard and the constraints let the row through, or the statement fails. -/
private theorem inv_accept (h : Holds s tx t) (new : NewFloor) :
    Inv (match accept (s.committed ++ t.rows) t.startedAt new with
      | none => s.put tx t.fail
      | some row => s.put tx (t.add row)) := by
  cases haccept : accept (s.committed ++ t.rows) t.startedAt new with
  | none => exact inv_dropInner h.others h.fits true
  | some row =>
    refine h.others.put ⟨fun _ => ?_, h.fits.covered.2⟩ (fun _ => h.lock) ?_
    · have hlocked := h.fits.lock.mpr h.lock
      rwa [Transaction.locked, Bool.or_eq_true] at hlocked
    · have hrows : (t.add row).rows = t.rows ++ [row] := by
        simp only [Transaction.rows, Transaction.add, List.append_assoc]
      rw [hrows, ← List.append_assoc]
      refine List.pairwise_append.mpr ⟨h.fits.appended, List.pairwise_singleton _ _, ?_⟩
      intro earlier hmem later hlater
      rw [List.mem_singleton.mp hlater]
      exact follows_of_accept haccept earlier hmem

/-- An INSERT. -/
private theorem inv_insert (h : Inv s) (hfits : Fits s tx t) (new : NewFloor) :
    Inv (s.insert tx t new) := by
  rw [Floors.insert]
  cases hchain : s.lockChain tx t with
  | none => exact h
  | some pair => exact inv_accept (holds_lockChain h hfits hchain) new

/-- The INSERT of a transaction that has the lock. -/
private theorem insert_of_holds (h : Holds s tx t) (new : NewFloor) :
    Inv (s.insert tx t new) := by
  have hchain : s.lockChain tx t = some (s, t) := by
    rw [Floors.lockChain, h.lock]
    exact if_pos rfl
  rw [Floors.insert, hchain]
  exact inv_accept h new

/-- A sync records the retention. -/
private theorem inv_recordRetention (h : Inv s) (hfits : Fits s tx t)
    (bucket runId : String) (periodDays : Option Int) (id : String) :
    Inv (s.recordRetention tx t bucket runId periodDays id) := by
  rw [Floors.recordRetention]
  cases hchain : s.lockChain tx t with
  | none => exact h
  | some pair =>
    have hholds := holds_lockChain h hfits hchain
    dsimp only
    split
    · exact hholds.put
    · exact insert_of_holds hholds _

/-- A statement runs in a transaction that has not failed. -/
private theorem inv_statement (h : Inv s) (run : Transaction → Floors)
    (hrun : ∀ t, Fits s tx t → Inv (run t)) : Inv (s.statement tx run) := by
  rw [Floors.statement]
  cases ht : s.transactions tx with
  | none => exact h
  | some t =>
    dsimp only
    split_ifs
    · exact h
    · exact hrun t (h.fits tx t ht)

private theorem fits_savepoint (h : Fits s tx t) : Fits s tx t.savepoint where
  covered := ⟨fun hrows => absurd rfl hrows, h.covered⟩
  lock := by
    have hlocked : t.savepoint.locked = t.locked := by
      rw [Transaction.locked, Transaction.locked, Transaction.savepoint, List.any_cons,
        Bool.false_or]
    rw [hlocked]
    exact h.lock
  appended := by
    have hrows : t.savepoint.rows = t.rows := by simp [Transaction.rows, Transaction.savepoint]
    rw [hrows]
    exact h.appended

private theorem fits_release (h : Fits s tx t) : Fits s tx t.release := by
  obtain ⟨startedAt, inner, outer, failed, ready⟩ := t
  cases outer with
  | nil => exact h
  | cons frame outer =>
    obtain ⟨hinner, hframe, houter⟩ := h.covered
    refine ⟨⟨?_, houter⟩, ?_, ?_⟩
    · -- A floor of either part is covered by that part or an earlier one.
      show frame.rows ++ inner.rows ≠ [] →
        (frame.locked || inner.locked) = true ∨ outer.any Frame.locked = true
      intro hrows
      simp only [List.any_cons, Bool.or_eq_true] at hinner ⊢
      by_cases hempty : inner.rows = []
      · rw [hempty, List.append_nil] at hrows
        have := hframe hrows
        tauto
      · have := hinner hempty
        tauto
    · have hlocked : ((frame.locked || inner.locked) || outer.any Frame.locked) = true
          ↔ s.lock = some tx := by
        rw [← h.lock, Transaction.locked, List.any_cons, ← Bool.or_assoc,
          Bool.or_comm inner.locked]
      exact hlocked
    · have happended := h.appended
      simp only [Transaction.rows, Transaction.release, List.reverse_cons, List.flatMap_append,
        List.flatMap_singleton, List.append_assoc] at happended ⊢
      exact happended

private theorem inv_rollbackTo (h : Inv s) (hfits : Fits s tx t) :
    Inv (s.put tx t.rollbackTo) := by
  rw [Transaction.rollbackTo]
  split
  · exact h.put hfits
  · exact inv_dropInner (h.others tx) hfits false

/-- A transaction commits: the others have no floors when it has some. -/
private theorem inv_commit (h : Inv s) (ht : s.transactions tx = some t) :
    Inv { s.finish tx with committed := s.committed ++ t.rows } := by
  have hfinish := (h.others tx).finish
  refine ⟨fun other u hu => ?_, (h.fits tx t ht).appended⟩
  have hfits := hfinish.fits other u hu
  refine ⟨hfits.covered, hfits.lock, ?_⟩
  simp only [Floors.finish] at hu
  split_ifs at hu with hother
  by_cases hlock : s.lock = some tx
  · have hnone : u.rows = [] := by
      refine h.rows_eq_nil hu ?_
      rw [hlock]
      simpa using Ne.symm hother
    rw [hnone, List.append_nil]
    exact (h.fits tx t ht).appended
  · show Appended (s.committed ++ t.rows ++ u.rows)
    rw [h.rows_eq_nil ht hlock, List.append_nil]
    exact (h.fits other u hu).appended

theorem inv_start : Inv Floors.start := ⟨nofun, List.Pairwise.nil⟩

/-- Every step keeps it. -/
theorem inv_step (h : Inv s) (event : Event) : Inv (s.step collation event) := by
  cases event with
  | begin tx now =>
    rw [Floors.step]
    split
    · refine (h.others tx).put ⟨fun hrows => absurd rfl hrows, trivial⟩ nofun ?_
      show Appended (s.committed ++ [])
      rw [List.append_nil]
      exact h.committed
    · exact h
  | lockChain tx =>
    refine inv_statement h _ fun t hfits => ?_
    cases hchain : s.lockChain tx t with
    | none => exact h
    | some pair => exact (holds_lockChain h hfits hchain).put
  | recordRetention tx bucket runId periodDays id =>
    exact inv_statement h _ fun t hfits =>
      inv_recordRetention h hfits bucket runId periodDays id
  | setRetentionFloor tx bucket days reason memberId id =>
    refine inv_statement h _ fun t hfits => ?_
    split
    · exact h
    · exact h.put ⟨hfits.covered, hfits.lock, hfits.appended⟩
  | flush tx =>
    refine inv_statement h _ fun t hfits => ?_
    cases t.ready with
    | none => exact h
    | some new =>
      exact inv_insert (t := { t with ready := none }) h
        ⟨hfits.covered, hfits.lock, hfits.appended⟩ new
  | insert tx new => exact inv_statement h _ fun t hfits => inv_insert h hfits new
  | savepoint tx => exact inv_statement h _ fun t hfits => h.put (fits_savepoint hfits)
  | release tx => exact inv_statement h _ fun t hfits => h.put (fits_release hfits)
  | rollbackTo tx =>
    rw [Floors.step]
    cases ht : s.transactions tx with
    | none => exact h
    | some t => exact inv_rollbackTo h (h.fits tx t ht)
  | commit tx =>
    rw [Floors.step]
    cases ht : s.transactions tx with
    | none => exact h
    | some t =>
      dsimp only
      split_ifs
      · exact (h.others tx).finish
      · exact inv_commit h ht
  | rollback tx => exact (h.others tx).finish

theorem inv_run (h : Inv s) (events : List Event) : Inv (s.run collation events) := by
  have hrun : Along (Floors.step collation) (fun _ _ => True) s events :=
    along_of_forall (fun _ _ => trivial) s events
  have hstep : ∀ s event, Inv s → True → Inv (s.step collation event) :=
    fun _ event hs _ => inv_step hs event
  exact run_invariant hstep hrun h

/-! ## What the floors of a bucket are -/

/-- The floors of a bucket. -/
def ofBucket (seen : List Floor) (bucket : String) : List Floor :=
  seen.filter fun floor => floor.bucket = bucket

/-- The floors of a bucket are later than each other, and named. -/
private theorem Appended.pairwise (h : Appended seen) (bucket : String) :
    (ofBucket seen bucket).Pairwise fun floor later =>
      floor.setAt < later.setAt ∧ IsNamed later := by
  refine (h.filter _).imp_of_mem ?_
  intro floor later hfloor hlater hfollows
  have hbucket : floor.bucket = bucket := by simpa using (List.mem_filter.mp hfloor).2
  have hbucket' : later.bucket = bucket := by simpa using (List.mem_filter.mp hlater).2
  exact hfollows (hbucket.trans hbucket'.symm)

/-- The floors are in order as they are. -/
private theorem inOrder_eq (h : Appended seen) (bucket : String) :
    inOrder collation seen bucket = ofBucket seen bucket := by
  rw [inOrder]
  refine List.Pairwise.insertionSort_eq ((h.pairwise bucket).imp ?_)
  intro floor later hlater
  rw [isLater, decide_eq_true hlater.1]
  rfl

/-- A floor before the last one is earlier. -/
private theorem setAt_lt_last (h : Appended seen) {last : Floor} (hmem : floor ∈ ofBucket seen bucket)
    (hlast : (ofBucket seen bucket).getLast? = some last) (hne : floor ≠ last) :
    floor.setAt < last.setAt := by
  obtain ⟨front, hfront⟩ := List.getLast?_eq_some_iff.mp hlast
  have hpairwise := h.pairwise bucket
  rw [hfront] at hpairwise hmem
  rcases List.mem_append.mp hmem with hmem | hmem
  · exact ((List.pairwise_append.mp hpairwise).2.2 floor hmem last (List.mem_singleton_self _)).1
  · exact absurd (List.mem_singleton.mp hmem) hne

/-- The members that `retention_floors` returns are the last floor of each bucket. -/
private theorem mem_retentionFloors_iff (h : Appended seen) (bucket : String) (days : Int) :
    (bucket, days) ∈ retentionFloors collation seen
      ↔ (ofBucket seen bucket).getLast?.map Floor.days = some days := by
  rw [retentionFloors, List.mem_map, Option.map_eq_some_iff]
  refine exists_congr fun floor => ?_
  rw [List.mem_filter, Prod.mk.injEq]
  constructor
  · rintro ⟨⟨hmem, hnone⟩, rfl, rfl⟩
    refine ⟨?_, rfl⟩
    have hof : floor ∈ ofBucket seen floor.bucket := List.mem_filter.mpr ⟨hmem, by simp⟩
    obtain ⟨last, hlast⟩ := Option.ne_none_iff_exists'.mp
      (mt List.getLast?_eq_none_iff.mp (List.ne_nil_of_mem hof))
    rw [hlast]
    by_contra hne
    have hless := setAt_lt_last h hof hlast fun heq => hne (congrArg some heq.symm)
    have hlater := List.mem_filter.mp (List.mem_of_getLast? hlast)
    -- The last floor is one that is later.
    have hany : (seen.any fun later => later.bucket = floor.bucket && isLater collation later floor)
        = true := by
      refine List.any_eq_true.mpr ⟨last, hlater.1, ?_⟩
      rw [isLater, decide_eq_true hless]
      simpa using hlater.2
    rw [hany] at hnone
    cases hnone
  · rintro ⟨hlast, rfl⟩
    obtain ⟨hmem, hbucket⟩ := List.mem_filter.mp (List.mem_of_getLast? hlast)
    have hbucket : floor.bucket = bucket := by simpa using hbucket
    refine ⟨⟨hmem, ?_⟩, hbucket, rfl⟩
    rw [Bool.not_eq_true', List.any_eq_false]
    intro other hother hlater
    rw [Bool.and_eq_true, decide_eq_true_eq, isLater] at hlater
    have hof : other ∈ ofBucket seen bucket :=
      List.mem_filter.mpr ⟨hother, by simpa using hlater.1.trans hbucket⟩
    by_cases heq : other = floor
    · simp [heq] at hlater
    · have hless := setAt_lt_last h hof hlast heq
      simp only [Bool.or_eq_true, Bool.and_eq_true, decide_eq_true_eq] at hlater
      omega

/-! ## Lowerings -/

/-- Between a floor of at least some days and a last one of less, two neighbours go below. -/
private theorem neighbours_of_drop {days : Int} (rest : List Floor) {first last : Floor}
    (hfirst : days ≤ first.days) (hlast : (first :: rest).getLast? = some last)
    (hless : last.days < days) :
    ∃ front earlier later back, first :: rest = front ++ earlier :: later :: back
      ∧ days ≤ earlier.days ∧ later.days < days := by
  induction rest generalizing first with
  | nil =>
    have heq : first = last := by simpa using hlast
    rw [heq] at hfirst
    omega
  | cons second rest ih =>
    by_cases hsecond : second.days < days
    · exact ⟨[], first, second, rest, rfl, hfirst, hsecond⟩
    · rw [List.getLast?_cons_cons] at hlast
      obtain ⟨front, earlier, later, back, heq, hdays⟩ := ih (Int.not_lt.mp hsecond) hlast
      exact ⟨first :: front, earlier, later, back, congrArg (first :: ·) heq, hdays⟩

/-- Two neighbours of which the later one is lower are listed. -/
private theorem mem_lowerings (front back : List Floor) {earlier later : Floor}
    (hless : later.days < earlier.days) :
    ⟨earlier.days, later.days, later.setAt, later.setBy, later.reason⟩
      ∈ lowerings (front ++ earlier :: later :: back) := by
  have hzip : (earlier, later) ∈ (front ++ earlier :: later :: back).zip
      (front ++ earlier :: later :: back).tail := by
    induction front with
    | nil => exact List.mem_cons_self
    | cons first front ih =>
      cases front with
      | nil => exact List.mem_cons_of_mem _ ih
      | cons _ _ => exact List.mem_cons_of_mem _ ih
  rw [lowerings, List.mem_filterMap]
  exact ⟨_, hzip, if_pos hless⟩

/-- What is promised of the floors that a statement sees. -/
structure Lawful (collation : String → String → Bool) (seen : List Floor) (bucket : String) :
    Prop where
  /-- The bucket's floors are strictly in the order of `set_at`. -/
  ordered : (ofBucket seen bucket).Pairwise fun floor later => floor.setAt < later.setAt
  /-- Every floor but the first names who set it, and has a reason. -/
  named : ∀ floor ∈ (ofBucket seen bucket).tail, IsNamed floor
  /-- `service.retention_floor` reads the last one. -/
  service : retentionFloor collation seen bucket = (ofBucket seen bucket).getLast?
  /-- `verify.retention_floors` has the days of the last one for the bucket, and nothing else. -/
  verify : ∀ days, (bucket, days) ∈ retentionFloors collation seen
    ↔ (ofBucket seen bucket).getLast?.map Floor.days = some days
  /-- Where the last one is lower than an earlier one, a later row has gone below the earlier one,
  and `verify.retention_floor_history` lists it. -/
  lowered : ∀ earlier ∈ ofBucket seen bucket, ∀ last,
    (ofBucket seen bucket).getLast? = some last → last.days < earlier.days →
      ∃ later ∈ ofBucket seen bucket, earlier.setAt < later.setAt ∧ later.days < earlier.days
        ∧ IsNamed later ∧ ∃ fromDays, earlier.days ≤ fromDays ∧ ∀ firstRun,
          ⟨fromDays, later.days, later.setAt, later.setBy, later.reason⟩
            ∈ (retentionFloorHistory collation seen firstRun bucket).lowerings

/-- A row of the bucket goes below an earlier floor. -/
private theorem lowered_of_appended (h : Appended seen) {earlier last : Floor}
    (hmem : earlier ∈ ofBucket seen bucket)
    (hlast : (ofBucket seen bucket).getLast? = some last) (hless : last.days < earlier.days) :
    ∃ later ∈ ofBucket seen bucket, earlier.setAt < later.setAt ∧ later.days < earlier.days
      ∧ IsNamed later ∧ ∃ fromDays, earlier.days ≤ fromDays ∧ ∀ firstRun,
        ⟨fromDays, later.days, later.setAt, later.setBy, later.reason⟩
          ∈ (retentionFloorHistory collation seen firstRun bucket).lowerings := by
  obtain ⟨before, after, hsplit⟩ := List.append_of_mem hmem
  have hpairwise := h.pairwise bucket
  rw [hsplit, List.getLast?_append_of_ne_nil _ (List.cons_ne_nil _ _)] at hlast
  obtain ⟨front, high, low, back, heq, hhigh, hlow⟩ :=
    neighbours_of_drop after (Int.le_refl _) hlast hless
  have hrows : ofBucket seen bucket = (before ++ front) ++ high :: low :: back := by
    rw [hsplit, heq, List.append_assoc]
  -- The low row comes after the earlier one, since it is another one and behind it.
  have hafter : low ∈ after := by
    cases front with
    | nil =>
      rw [List.nil_append, List.cons.injEq] at heq
      rw [heq.2]
      exact List.mem_cons_self
    | cons _ front =>
      rw [List.cons_append, List.cons.injEq] at heq
      rw [heq.2]
      exact List.mem_append_right _ (List.mem_cons_of_mem _ List.mem_cons_self)
  rw [hsplit] at hpairwise
  obtain ⟨hset, hnamed⟩ :=
    (List.pairwise_cons.mp (List.pairwise_append.mp hpairwise).2.1).1 low hafter
  refine ⟨low, ?_, hset, hlow, hnamed, high.days, hhigh, fun firstRun => ?_⟩
  · rw [hrows]
    exact List.mem_append_right _ (List.mem_cons_of_mem _ List.mem_cons_self)
  · show _ ∈ lowerings (inOrder collation seen bucket)
    rw [inOrder_eq h, hrows]
    exact mem_lowerings _ _ (by omega)

theorem Appended.lawful (h : Appended seen) (bucket : String) : Lawful collation seen bucket where
  ordered := (h.pairwise bucket).imp And.left
  named := by
    intro floor hmem
    have hpairwise := h.pairwise bucket
    cases hfloors : ofBucket seen bucket with
    | nil =>
      rw [hfloors] at hmem
      cases hmem
    | cons first rest =>
      rw [hfloors] at hmem hpairwise
      exact ((List.pairwise_cons.mp hpairwise).1 floor hmem).2
  service := by rw [retentionFloor, inOrder_eq h, List.head?_reverse]
  verify := mem_retentionFloors_iff h bucket
  lowered := fun _ hmem _ hlast hless => lowered_of_appended h hmem hlast hless

/-- For every interleaving of transactions, the floors that are committed and the floors that the
statements of each transaction see are lawful for every bucket. -/
theorem retention_floors_ordered (collation : String → String → Bool) (events : List Event)
    (bucket : String) :
    Lawful collation (Floors.start.run collation events).committed bucket
      ∧ ∀ reader, Lawful collation ((Floors.start.run collation events).visible reader) bucket := by
  have h : Inv (Floors.start.run collation events) := inv_run inv_start events
  exact ⟨h.committed.lawful bucket, fun reader => (h.appended_visible reader).lawful bucket⟩

end

end TrustPortal.Proofs.EvidenceStore.Retention
