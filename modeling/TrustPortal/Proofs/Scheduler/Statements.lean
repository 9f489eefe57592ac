import TrustPortal.Proofs.Scheduler.Threads

/-!
# `TrustPortal.Proofs.Scheduler.Statements`: every statement keeps `Owned`

One lemma for each statement of `Portal.step`, then `next_step` for all of them. A statement
does nothing in another phase than its own, so each lemma has one case for each phase of its
statement, by the kind of what it does there. `owned_run` carries the invariant over a run.
-/

set_option autoImplicit false

namespace TrustPortal.Proofs.Scheduler

open TrustPortal.GitSources
open TrustPortal.Scheduler
open TrustPortal.Sql

/-- Only the execution of a claimed run read it. -/
theorem reads_of_unclaimed {phase : Phase} (h : claimant phase = none) : reads phase = none := by
  cases phase with
  | _ => first | rfl | cases h

section
variable {ι : Type} [DecidableEq ι] {s : Portal ι} {t : ι}

/-- A statement to a phase without a claim. -/
theorem next_free {thread : Thread} (h : Owned s) (hold : quiet (s.threads t).phase = true)
    (hnew : quiet thread.phase = true) (hfree : claimant thread.phase = none) :
    Next s (s.setThread t thread) t := by
  apply next_quiet h hold hnew
  · intro claim hclaim
    rw [hfree] at hclaim
    cases hclaim
  · intro read hread
    rw [reads_of_unclaimed hfree] at hread
    cases hread

/-- A change of a thread in its phase. -/
theorem next_samePhase {thread : Thread} (h : Owned s)
    (hphase : thread.phase = (s.threads t).phase) : Next s (s.setThread t thread) t := by
  apply next_thread
  · rw [hphase]
    exact h.threads t
  · intro claim hclaim
    rw [hphase] at hclaim
    exact hclaim

/-- Two changes of a thread are one. -/
theorem setThread_setThread (s : Portal ι) (t : ι) (first second : Thread) :
    (s.setThread t first).setThread t second = s.setThread t second := by
  unfold Portal.setThread
  simp only [Function.update_idem]

theorem setThread_self (s : Portal ι) (t : ι) (thread : Thread) :
    (s.setThread t thread).threads t = thread := by
  unfold Portal.setThread
  exact Function.update_self t thread s.threads

/-- A change of a thread before it goes on. -/
theorem goto_setThread (s : Portal ι) (t : ι) (thread : Thread) (phase : Phase) :
    (s.setThread t thread).goto t phase
      = s.setThread t { thread with phase, checked := false } := by
  unfold Portal.goto
  rw [setThread_setThread, setThread_self]

/-! ## Enqueueing -/

theorem next_enqueue (h : Owned s) (kind : JobKind) (target : String) :
    Next s (s.enqueue t kind target) t := by
  unfold Portal.enqueue
  split
  · rename_i hphase
    exact next_free h (by rw [hphase]; rfl) rfl rfl
  · exact .refl h

theorem next_readActive (h : Owned s) : Next s (s.readActive t) t := by
  unfold Portal.readActive
  split
  · rename_i kind target attempts hphase
    have hquiet : quiet (s.threads t).phase = true := by rw [hphase]; rfl
    split
    · exact next_free h hquiet rfl rfl
    · cases attempts with
      | zero => exact next_free h hquiet rfl rfl
      | succ left => exact next_free h hquiet rfl rfl
  · exact .refl h

theorem next_insert [Fintype ι] (h : Owned s) (id : String) (now : Int) :
    Next s (s.insert t id now) t := by
  unfold Portal.insert
  split
  · rename_i kind target attempts hphase
    have hquiet : quiet (s.threads t).phase = true := by rw [hphase]; rfl
    simp only
    split
    · exact next_free h hquiet rfl rfl
    · rename_i hfree
      split
      · exact next_free h hquiet rfl rfl
      · split
        · rename_i runs hwrite
          apply next_write hwrite
          · exact ⟨_, rfl, rfl, Option.not_isSome_iff_eq_none.mp hfree⟩
          · exact (writesSource_quiet hquiet).mp (h.threads t).source
          · intro claim hclaim
            cases hclaim
          · intro claim hclaim
            cases hclaim
        · exact .refl h
  · exact .refl h

/-! ## Execution -/

theorem next_execute (h : Owned s) (run : RunId) : Next s (s.execute t run) t := by
  unfold Portal.execute
  split
  · rename_i hphase
    exact next_free h (by rw [hphase]; rfl) rfl rfl
  · exact .refl h

theorem next_readRun (h : Owned s) : Next s (s.readRun t) t := by
  unfold Portal.readRun
  split
  · rename_i id hphase
    have hquiet : quiet (s.threads t).phase = true := by rw [hphase]; rfl
    split
    · split
      · exact next_free h hquiet rfl rfl
      · exact next_free h hquiet rfl rfl
    · exact next_free h hquiet rfl rfl
  · exact .refl h

theorem next_acquire [Fintype ι] (h : Owned s) : Next s (s.acquire t) t := by
  unfold Portal.acquire
  split
  · rename_i run target hphase
    have hquiet : quiet (s.threads t).phase = true := by rw [hphase]; rfl
    simp only
    split
    · rw [Portal.setLock, goto_setThread]
      exact next_free h hquiet rfl rfl
    · exact next_free h hquiet rfl rfl
  · rename_i cutoff run target stale hphase
    have hquiet : quiet (s.threads t).phase = true := by rw [hphase]; rfl
    simp only
    split
    · rw [Portal.setLock, goto_setThread]
      exact next_free h hquiet rfl rfl
    · exact next_free h hquiet rfl rfl
  · exact .refl h

theorem next_claim [Fintype ι] (h : Owned s) (token : String) (now : Int) :
    Next s (s.claim t token now) t := by
  unfold Portal.claim
  split
  · rename_i id hphase
    have hquiet : quiet (s.threads t).phase = true := by rw [hphase]; rfl
    split
    · exact next_free h hquiet rfl rfl
    · rename_i run' hclaimed
      obtain ⟨run, hget, hclaim⟩ := Option.bind_eq_some_iff.mp hclaimed
      split
      · rename_i runs hwrite
        have hkey : run'.key = id := (claim_follows hclaim).1.trans (run_key s.runs _ _ hget)
        apply next_write hwrite
        · exact ⟨run, run', now, hget, hclaim, rfl⟩
        · exact (writesSource_quiet hquiet).mp (h.threads t).source
        · intro claim hholder
          cases hholder
        · -- the claim is of a queued run whose row no other thread holds
          intro claim hclaimant
          cases hclaimant
          refine .inr ⟨⟨run, hget, ?_⟩, ?_⟩
          · unfold Run.claim at hclaim
            split at hclaim
            · assumption
            · cases hclaim
          · intro j row hne hrow heq
            exact Rows.key_ne_of_write hwrite hne hrow (heq.trans hkey.symm)
      · exact .refl h
  · exact .refl h

/-- A statement of the execution of a run between two phases in which it has written nothing. -/
theorem next_keep {phase : Phase} {claim : Claim} (h : Owned s)
    (hold : quiet (s.threads t).phase = true) (hnew : quiet phase = true)
    (hholder : holder (s.threads t).phase = some claim) (hclaimant : claimant phase = some claim)
    (hreads : ∀ read, reads phase = some read → reads (s.threads t).phase = some read) : Next s (s.goto t phase) t := by
  apply next_quiet h hold hnew
  · intro other hother
    cases hclaimant.symm.trans hother
    exact hholder
  · exact hreads

theorem next_enter (h : Owned s) : Next s (s.enter t) t := by
  unfold Portal.enter
  split
  · rename_i claim hphase
    have hok := h.threads t
    rw [hphase] at hok
    obtain ⟨run, hget, hqueued, htoken, _⟩ := hok.holds claim rfl
    rw [hget]
    apply next_thread
    · constructor
      · exact hok.run
      · exact hok.source
      · intro other hother
        cases hother
        refine ⟨run, hget, hqueued, htoken, ?_⟩
        intro token target hread
        cases hread
        refine ⟨htoken, ?_⟩
        intro id hid
        split at hid
        · rename_i hsync
          exact ⟨hsync, Option.some.inj hid⟩
        · cases hid
    · intro other hother
      rw [hphase]
      exact hother
  · exact .refl h

theorem next_load (h : Owned s) : Next s (s.load t) t := by
  unfold Portal.load
  split
  · rename_i claim token target hphase
    have hquiet : quiet (s.threads t).phase = true := by rw [hphase]; rfl
    have hholder : holder (s.threads t).phase = some claim := by rw [hphase]; rfl
    have hread : reads (s.threads t).phase
        = some (token, if claim.run.1 = .gitSync then some target else none) := by
      rw [hphase]
      rfl
    split
    · rename_i hsync
      split
      · rename_i source hget
        rw [if_pos hsync, ← source_key s.sources target source hget] at hread
        exact next_keep h hquiet rfl hholder rfl fun _ hnew => hread.trans hnew
      · exact next_keep h hquiet rfl hholder rfl fun _ hnew => nomatch hnew
    · rename_i hother
      rw [if_neg (by rw [hother]; decide)] at hread
      exact next_keep h hquiet rfl hholder rfl fun _ hnew => hread.trans hnew
    · rename_i hother
      rw [if_neg (by rw [hother]; decide)] at hread
      exact next_keep h hquiet rfl hholder rfl fun _ hnew => hread.trans hnew
  · exact .refl h

/-- A write of the execution of a run. -/
theorem next_writeRun [Fintype ι] {run : Run} {runs : Runs ι} {phase : Phase} {claim : Claim}
    (h : Owned s) (hwrite : s.runs.write t run = some runs)
    (hold : quiet (s.threads t).phase = true)
    (hrun : WritesRun s.runs.get (some run) phase)
    (hsource : ∀ get, WritesSource get none phase)
    (hholder : holder (s.threads t).phase = some claim) (hnew : holder phase = some claim)
    (hreads : ∀ read, reads phase = some read → reads (s.threads t).phase = some read) :
    Next s ({ s with runs }.goto t phase) t := by
  apply next_write hwrite
  · exact hrun
  · rw [(writesSource_quiet hold).mp (h.threads t).source]
    exact hsource _
  · apply holdsRun_of_holder h (fun _ run hget => ⟨run, hget, .refl run⟩)
    · intro other hother
      cases hnew.symm.trans hother
      exact hholder
    · exact hreads
  · intro other hother
    cases (claimant_of_holder hnew).symm.trans hother
    exact .inl (claimant_of_holder hholder)

theorem next_start [Fintype ι] (h : Owned s) (head : String) : Next s (s.start t head) t := by
  unfold Portal.start
  split
  · rename_i work hphase
    split
    · rename_i source run hsource hget
      split
      · rename_i runs hwrite
        have hread : reads (s.threads t).phase
            = some (work.token, work.source.map GitSource.id) := by
          rw [hphase]
          rfl
        exact next_writeRun h hwrite (by rw [hphase]; rfl) ⟨run, _, head, hget, rfl⟩
          (fun _ => rfl) (by rw [hphase]; rfl) rfl fun _ hnew => hread.trans hnew
      · exact .refl h
    · exact .refl h
  · exact .refl h

theorem next_finish [Fintype ι] (h : Owned s) (result : Result) :
    Next s (s.finish t result) t := by
  unfold Portal.finish
  split
  · rename_i work hphase
    have hquiet : quiet (s.threads t).phase = true := by rw [hphase]; rfl
    have hholder : holder (s.threads t).phase = some work.claim := by rw [hphase]; rfl
    have hread : reads (s.threads t).phase
        = some (work.token, work.source.map GitSource.id) := by
      rw [hphase]
      rfl
    split
    · split
      · exact next_keep h hquiet rfl hholder rfl fun _ hnew => hread.trans hnew
      · rename_i run' hrecorded
        obtain ⟨run, hget, hrecord⟩ := Option.bind_eq_some_iff.mp hrecorded
        split
        · rename_i runs hwrite
          exact next_writeRun h hwrite hquiet ⟨run, run', hget, hrecord, rfl⟩ (fun _ => rfl)
            hholder rfl fun _ hnew => hread.trans hnew
        · exact .refl h
    · exact .refl h
  · exact .refl h

theorem next_updateSource [Fintype ι] (h : Owned s) : Next s (s.updateSource t) t := by
  unfold Portal.updateSource
  split
  · rename_i work result hphase
    have hok := h.threads t
    rw [hphase] at hok
    have hclaims : ∀ claim, claimant (.recorded work result) = some claim →
        claimant (s.threads t).phase = some claim := by
      intro claim hclaim
      rw [hphase]
      exact hclaim
    split
    · exact .refl h
    · rename_i snapshot hsnapshot
      split
      · rename_i hnone
        apply next_thread
        · exact ⟨hok.run, ⟨snapshot, hsnapshot, .inl ⟨hok.source, hnone⟩⟩, hok.holds⟩
        · exact hclaims
      · rename_i source hget
        split
        · rename_i sources hwrite
          exact next_writeSource hwrite hok.run
            ⟨snapshot, hsnapshot, .inr ⟨source, hget, rfl⟩⟩ hok.holds hclaims
        · exact .refl h
  · exact .refl h

/-- A ROLLBACK in the execution of a run, which goes on. -/
theorem next_undo {phase : Phase} {claim : Claim} (h : Owned s) (hnew : quiet phase = true)
    (hholder : holder (s.threads t).phase = some claim) (hclaimant : claimant phase = some claim)
    (hreads : ∀ read, reads phase = some read → reads (s.threads t).phase = some read) :
    Next s ((s.rollbackRows t).goto t phase) t := by
  apply next_rollback h hnew
  · intro other hother
    cases hclaimant.symm.trans hother
    exact hholder
  · exact hreads

theorem next_rescue (h : Owned s) : Next s (s.rescue t) t := by
  unfold Portal.rescue
  have hgo : ∀ work : Work, holder (s.threads t).phase = some work.claim →
      reads (s.threads t).phase = some (work.token, work.source.map GitSource.id) →
      Next s ((s.rollbackRows t).goto t (.working work)) t := by
    intro work hholder hread
    exact next_undo h rfl hholder rfl fun _ hnew => hread.trans hnew
  split
  · rename_i work hphase
    exact hgo work (by rw [hphase]; rfl) (by rw [hphase]; rfl)
  · rename_i work hphase
    exact hgo work (by rw [hphase]; rfl) (by rw [hphase]; rfl)
  · rename_i work result applied hphase
    exact hgo work (by rw [hphase]; rfl) (by rw [hphase]; rfl)
  · rename_i work result hphase
    exact hgo work (by rw [hphase]; rfl) (by rw [hphase]; rfl)
  · exact .refl h

/-- The worker of a guarded execution holds its run. -/
theorem holder_of_guarded {phase : Phase} {claim : Claim} (h : phase.guarded = some claim) :
    holder phase = some claim := by
  cases phase with
  | _ => first | exact h | cases h

theorem next_leave (h : Owned s) (error : String) : Next s (s.leave t error) t := by
  unfold Portal.leave
  split
  · rename_i claim hguarded
    exact next_undo h rfl (holder_of_guarded hguarded) rfl fun _ hnew => nomatch hnew
  · exact .refl h

theorem next_verify (h : Owned s) (first second : Answer) : Next s (s.verify t first second) t := by
  unfold Portal.verify
  split
  · rename_i claim hguarded
    split
    · exact next_samePhase h rfl
    · rename_i reason hlost
      rw [Portal.markLost, goto_setThread]
      apply next_rollback h rfl
      · intro other hother
        cases hother
        exact holder_of_guarded hguarded
      · exact fun _ hnew => nomatch hnew
  · exact .refl h

theorem next_failRun [Fintype ι] (h : Owned s) (now : Int) : Next s (s.failRun t now) t := by
  unfold Portal.failRun
  split
  · rename_i claim error hphase
    have hok := h.threads t
    rw [hphase] at hok
    split
    · apply next_thread
      · refine ⟨.inl hok.run, hok.source, ?_⟩
        intro other hother
        obtain ⟨run, hget, hqueued, htoken, _⟩ := hok.holds other hother
        exact ⟨run, hget, hqueued, htoken, fun _ _ hread => nomatch hread⟩
      · intro other hother
        rw [hphase]
        exact hother
    · rename_i run' hfailed
      obtain ⟨run, hget, hfail⟩ := Option.bind_eq_some_iff.mp hfailed
      split
      · rename_i runs hwrite
        exact next_writeRun h hwrite (by rw [hphase]; rfl)
          (.inr ⟨run, run', error, now, hget, hfail, rfl⟩) (fun _ => rfl) (by rw [hphase]; rfl) rfl
          fun _ hread => nomatch hread
      · exact .refl h
  · exact .refl h

theorem next_release (h : Owned s) : Next s (s.release t) t := by
  unfold Portal.release
  split
  · rename_i hphase
    rw [Portal.setLock, goto_setThread]
    exact next_free h (by rw [hphase]; rfl) rfl rfl
  · rename_i cutoff stale hphase
    rw [Portal.setLock, goto_setThread]
    exact next_free h (by rw [hphase]; rfl) rfl rfl
  · exact .refl h

/-! ## Reaping -/

theorem next_reap (h : Owned s) (cutoff : Int) : Next s (s.reap t cutoff) t := by
  unfold Portal.reap
  split
  · rename_i hphase
    exact next_free h (by rw [hphase]; rfl) rfl rfl
  · exact .refl h

theorem next_select (h : Owned s) (kind : Option JobKind) : Next s (s.select t kind) t := by
  unfold Portal.select
  split
  · rename_i cutoff job hphase
    exact next_free h (by rw [hphase]; rfl) rfl rfl
  · rename_i cutoff hphase
    exact next_free h (by rw [hphase]; rfl) rfl rfl
  · exact .refl h

theorem next_close [Fintype ι] (h : Owned s) (now : Int) : Next s (s.close t now) t := by
  unfold Portal.close
  split
  · rename_i cutoff id stale hphase
    have hok := h.threads t
    rw [hphase] at hok
    have hunclaimed : ∀ claim, claimant (.closed cutoff stale) = some claim →
        claimant (s.threads t).phase = some claim := fun _ hclaim => nomatch hclaim
    split
    · apply next_thread
      · exact ⟨.inl hok.run, hok.source, fun _ hholder => nomatch hholder⟩
      · exact hunclaimed
    · rename_i run' hclosed
      obtain ⟨run, hget, hreap⟩ := Option.bind_eq_some_iff.mp hclosed
      split
      · rename_i runs hwrite
        have hkey := run_key s.runs _ _ hget
        apply next_write hwrite
        · exact .inr ⟨run, run', cutoff, now, by rw [hkey]; exact hget, hreap, rfl⟩
        · exact hok.source
        · exact fun _ hholder => nomatch hholder
        · exact fun claim hclaim => .inl (hunclaimed claim hclaim)
      · exact .refl h
  · exact .refl h

/-! ## Administration -/

theorem next_edit (h : Owned s) (id : String) : Next s (s.edit t id) t := by
  unfold Portal.edit
  split
  · rename_i hphase
    split
    · exact next_free h (by rw [hphase]; rfl) rfl rfl
    · exact .refl h
  · exact .refl h

theorem next_configure (h : Owned s) (localAllowed : String → Bool) (data : ConfigData) :
    Next s (s.configure t localAllowed data) t := by
  unfold Portal.configure
  split
  · rename_i loaded hphase
    split
    · exact next_free h (by rw [hphase]; rfl) rfl rfl
    · exact next_free h (by rw [hphase]; rfl) rfl rfl
  · exact .refl h

theorem next_setCommit (h : Owned s) (commit : String) : Next s (s.setCommit t commit) t := by
  unfold Portal.setCommit
  split
  · rename_i loaded hphase
    split
    · exact next_free h (by rw [hphase]; rfl) rfl rfl
    · exact next_free h (by rw [hphase]; rfl) rfl rfl
  · exact .refl h

theorem next_flush [Fintype ι] (h : Owned s) : Next s (s.flush t) t := by
  unfold Portal.flush
  split
  · rename_i loaded edited hphase
    have hquiet : quiet (s.threads t).phase = true := by rw [hphase]; rfl
    split
    · exact next_free h hquiet rfl rfl
    · rename_i current hget
      split
      · rename_i sources hwrite
        apply next_writeSource hwrite
        · exact (writesRun_quiet hquiet).mp (h.threads t).run
        · exact ⟨loaded, edited, current, hget, rfl⟩
        · exact fun _ hholder => nomatch hholder
        · exact fun _ hclaim => nomatch hclaim
      · exact .refl h
  · exact .refl h

/-! ## Commits and failures -/

/-- A COMMIT to a phase without a claim. -/
theorem next_commitFree {phase : Phase} (h : Owned s) (hnew : quiet phase = true)
    (hfree : claimant phase = none) : Next s ((s.commitRows t).goto t phase) t := by
  apply next_commit h hnew
  · intro claim hholder
    rw [claimant_of_holder hholder] at hfree
    cases hfree
  · intro claim hclaim
    rw [hfree] at hclaim
    cases hclaim

/-- A COMMIT of the execution of a run. -/
theorem next_commitKeep {phase : Phase} {claim : Claim} (h : Owned s) (hnew : quiet phase = true)
    (hholder : holder (s.threads t).phase = some claim) (hphase : holder phase = some claim)
    (hreads : ∀ read, reads phase = some read → reads (s.threads t).phase = some read) :
    Next s ((s.commitRows t).goto t phase) t := by
  apply next_commit h hnew
  · apply holdsRun_of_holder h (commit_follows h t)
    · intro other hother
      cases hphase.symm.trans hother
      exact hholder
    · exact hreads
  · intro other hother
    cases (claimant_of_holder hphase).symm.trans hother
    exact claimant_of_holder hholder

theorem next_commit_claimed {claim : Claim} (h : Owned s)
    (hphase : (s.threads t).phase = .claimed claim) :
    Next s (((s.commitRows t).startGuard t).goto t (.entering claim)) t := by
  rw [Portal.startGuard, goto_setThread]
  apply next_commit h rfl
  · intro other hother
    cases hother
    have hrun := (h.threads t).run
    rw [hphase] at hrun
    obtain ⟨run, run', now, hget, hclaim, hwritten⟩ := hrun
    have hkey : run'.key = claim.run := (claim_follows hclaim).1.trans (run_key s.runs _ _ hget)
    refine ⟨run', ?_, ?_⟩
    · rw [Rows.get_commit, hwritten, if_pos (by rw [Option.map_some, hkey])]
    · unfold Run.claim at hclaim
      split at hclaim
      · cases hclaim
        exact ⟨by simp, rfl, fun _ _ hread => nomatch hread⟩
      · cases hclaim
  · intro other hother
    rw [hphase]
    exact hother

theorem next_commitStep (h : Owned s) : Next s (s.commit t) t := by
  unfold Portal.commit
  have hleave : ∀ (work : Work) (error : String), holder (s.threads t).phase = some work.claim →
      Next s ((s.commitRows t).goto t (.leaving work.claim error)) t :=
    fun work error hholder => next_commitKeep h rfl hholder rfl fun _ hread => nomatch hread
  have hwork : ∀ work : Work, holder (s.threads t).phase = some work.claim →
      reads (s.threads t).phase = some (work.token, work.source.map GitSource.id) →
      Next s ((s.commitRows t).goto t (.working work)) t :=
    fun work hholder hread => next_commitKeep h rfl hholder rfl fun _ hnew => hread.trans hnew
  split
  · exact next_commitFree h rfl rfl
  · exact next_commitFree h rfl rfl
  · rename_i claim hphase
    exact next_commit_claimed h hphase
  · rename_i work hphase
    split
    · exact hwork work (by rw [hphase]; rfl) (by rw [hphase]; rfl)
    · exact .refl h
  · rename_i work hphase
    split
    · exact hwork work (by rw [hphase]; rfl) (by rw [hphase]; rfl)
    · exact .refl h
  · rename_i work result hphase
    split
    · exact next_undo h rfl (by rw [hphase]; rfl) rfl fun _ hread => nomatch hread
    · split
      · exact hleave work _ (by rw [hphase]; rfl)
      · exact .refl h
  · rename_i work result hphase
    split
    · exact hleave work _ (by rw [hphase]; rfl)
    · exact .refl h
  · rename_i work result hphase
    split
    · exact hleave work _ (by rw [hphase]; rfl)
    · exact .refl h
  · exact next_commitFree h rfl rfl
  · exact next_commitFree h rfl rfl
  · exact .refl h

/-- A ROLLBACK to a phase without a claim. -/
theorem next_undoFree {thread : Thread} (h : Owned s) (hnew : quiet thread.phase = true)
    (hfree : claimant thread.phase = none) :
    Next s ((s.rollbackRows t).setThread t thread) t := by
  apply next_rollback h hnew
  · intro claim hclaim
    rw [hfree] at hclaim
    cases hclaim
  · intro read hread
    rw [reads_of_unclaimed hfree] at hread
    cases hread

theorem next_abort (h : Owned s) : Next s (s.abort t) t := by
  unfold Portal.abort
  split
  · rename_i hphase
    exact next_free h (by rw [hphase]; rfl) rfl rfl
  · rename_i hphase
    exact next_free h (by rw [hphase]; rfl) rfl rfl
  · rename_i hphase
    exact next_free h (by rw [hphase]; rfl) rfl rfl
  · rename_i hphase
    exact next_free h (by rw [hphase]; rfl) rfl rfl
  · rename_i hphase
    exact next_free h (by rw [hphase]; rfl) rfl rfl
  all_goals first | exact next_undoFree h rfl rfl | exact .refl h

/-- A heartbeat: its row is held by no thread. -/
theorem next_heartbeat [Fintype ι] {claim : Claim} {run run' : Run} {now : Int} {runs : Runs ι}
    (h : Owned s) (hget : s.runs.get claim.run = some run)
    (hbeat : run.heartbeat claim.token now = some run')
    (hwrite : s.runs.autocommit run' = some runs) : Next s { s with runs } t := by
  have hbeats := heartbeat_follows hbeat
  have hkey : run'.key = claim.run := hbeats.1.trans (run_key s.runs _ _ hget)
  have hfollows : ∀ k old, s.runs.get k = some old →
      ∃ new, runs.get k = some new ∧ Follows old new := by
    intro k old hold
    rw [Rows.get_autocommit hwrite]
    split
    · rename_i hk
      rw [← hk, hkey, hget] at hold
      cases hold
      exact ⟨run', rfl, hbeats⟩
    · exact ⟨old, hold, .refl old⟩
  have hstatus : run'.status = run.status := by
    unfold Run.heartbeat at hbeat
    split at hbeat
    · cases hbeat
      rfl
    · cases hbeat
  have hchanges : ∀ k new, runs.get k = some new →
      (∃ old, s.runs.get k = some old ∧ new.status = old.status) ∨
        s.runs.written t = some new := by
    intro k new hnew
    rw [Rows.get_autocommit hwrite] at hnew
    split at hnew
    · rename_i hk
      cases hnew
      rw [← hk, hkey]
      exact .inl ⟨run, hget, hstatus⟩
    · exact .inl ⟨new, hnew, rfl⟩
  have hok := h.threads t
  refine ⟨fun _ _ => rfl, Rows.frame_autocommit hwrite, .refl s.sources t, hfollows, hchanges,
    .inl fun _ => rfl, ?_, fun _ hclaim => .inl hclaim⟩
  constructor
  · rw [Rows.written_autocommit hwrite]
    apply writesRun_kept (run_key s.runs) hok.run
    intro row hrow
    rw [Rows.get_autocommit hwrite, if_neg (Rows.key_ne_of_autocommit hwrite hrow).symm]
  · exact hok.source
  · exact holdsRun_follows hok.holds hfollows

theorem next_beat [Fintype ι] (h : Owned s) (answer : Answer) (now : Int) :
    Next s (s.beat t answer now) t := by
  unfold Portal.beat
  split
  · exact .refl h
  · rename_i claim hguarded
    split
    · exact .refl h
    · exact next_samePhase h rfl
    · exact next_samePhase h rfl
    · rename_i run' hbeat
      have hrow : (s.runs.get claim.run).bind (fun run => run.heartbeat claim.token now)
          = some run' := by
        unfold executeOn at hbeat
        split at hbeat
        · exact Except.ok.inj hbeat
        · cases hbeat
        · cases hbeat
      obtain ⟨run, hget, hheart⟩ := Option.bind_eq_some_iff.mp hrow
      split
      · rename_i runs hwrite
        exact next_heartbeat h hget hheart hwrite
      · exact .refl h

theorem next_loseSession (h : Owned s) : Next s (s.loseSession t) t := next_samePhase h rfl

theorem next_crash (h : Owned s) : Next s (s.crash t) t := next_undoFree h rfl rfl

/-! ## Runs -/

/-- Every statement. -/
theorem next_step [Fintype ι] (h : Owned s) (move : ι × Action) :
    Next s (s.step move) move.1 := by
  obtain ⟨t, action⟩ := move
  unfold Portal.step
  cases action with
  | enqueue kind target => exact next_enqueue h kind target
  | readActive => exact next_readActive h
  | insert id now => exact next_insert h id now
  | execute run => exact next_execute h run
  | readRun => exact next_readRun h
  | acquire => exact next_acquire h
  | claim token now => exact next_claim h token now
  | enter => exact next_enter h
  | load => exact next_load h
  | start head => exact next_start h head
  | finish result => exact next_finish h result
  | updateSource => exact next_updateSource h
  | rescue => exact next_rescue h
  | leave error => exact next_leave h error
  | verify first second => exact next_verify h first second
  | failRun now => exact next_failRun h now
  | release => exact next_release h
  | reap cutoff => exact next_reap h cutoff
  | select kind => exact next_select h kind
  | close now => exact next_close h now
  | edit id => exact next_edit h id
  | configure localAllowed data => exact next_configure h localAllowed data
  | setCommit commit => exact next_setCommit h commit
  | flush => exact next_flush h
  | commit => exact next_commitStep h
  | abort => exact next_abort h
  | beat answer now => exact next_beat h answer now
  | loseSession => exact next_loseSession h
  | crash => exact next_crash h

omit [DecidableEq ι] in
/-- After a restart no thread holds anything. -/
theorem owned_restart (s : Portal ι) : Owned s.restart where
  threads _ := ⟨rfl, rfl, fun _ hholder => nomatch hholder⟩
  exclusive _ _ _ _ hi := nomatch hi

/-- `Owned` over a run. -/
theorem owned_run [Fintype ι] (h : Owned s) (moves : List (ι × Action)) : Owned (s.run moves) := by
  induction moves generalizing s with
  | nil => exact h
  | cons move rest ih => exact ih ((next_step h move).owned h)

end

end TrustPortal.Proofs.Scheduler
