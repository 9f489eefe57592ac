import TrustPortal.Proofs.DecisionLog.Outcomes
import TrustPortal.Lib.Run

/-!
# `TrustPortal.Proofs.DecisionLog.Calls`: what one call does to the database

`upload_spec` says what `_import` gets from the arguments of a call that passes the checks.
`runCall_cases` has the two kinds of a call. A call that raises, or is not made, leaves every
session as it is; it may record an `error` for an object that a sync reads. A call that
returns has an `ImportOutcome` for one session, and a store import records the outcome of its
object.
-/

set_option autoImplicit false

namespace TrustPortal.Proofs.DecisionLog

open TrustPortal.Audit
open TrustPortal.DecisionLog
open TrustPortal.Lib

section
variable {tools : Tools} {call : ImportCall} {upload : Upload} {db : Database} {tx : Transaction}

/-- What `_import` works with. -/
structure UploadOf (tools : Tools) (call : ImportCall) (upload : Upload) : Prop where
  sid : call.sid = some upload.sid
  content : upload.content = call.content
  sha : upload.sha = tools.sha.hexOfBytes call.content
  sourcePath : upload.sourcePath = call.sourcePath
  submittedBy : upload.submittedBy = call.submittedBy
  authority : upload.authority = call.authority
  dryRun : upload.dryRun = call.dryRun
  preparsed : upload.preparsed = call.parsed
  sourceCommit : upload.sourceCommit = if call.authority = .system then call.sourceCommit else none
  storeObjectId : upload.storeObjectId
    = if call.authority = .store then call.storeObjectId else none

/-- The arguments pass the checks unchanged. -/
theorem upload_spec (h : call.upload tools = .ok upload) : UploadOf tools call upload := by
  simp only [ImportCall.upload, ite_error_eq_ok] at h
  obtain ⟨_, _, _, h⟩ := h
  split at h
  · cases h
  · rename_i sid hsid
    simp only [ite_error_eq_ok, Except.ok.injEq] at h
    obtain ⟨_, _, rfl⟩ := h
    exact ⟨hsid, rfl, rfl, rfl, rfl, rfl, rfl, rfl, rfl, rfl⟩

/-- What `_import` gets when a call for the session `sid` passes the checks. -/
def ImportCall.accepted (tools : Tools) (call : ImportCall) (sid : String) : Upload where
  sid := sid
  content := call.content
  sha := tools.sha.hexOfBytes call.content
  size := call.content.length / 2
  sourcePath := call.sourcePath
  exitReason := call.exitReason
  submittedBy := call.submittedBy
  authority := call.authority
  dryRun := call.dryRun
  namedAgent := normalizeAgentType call.agentType
  preparsed := call.parsed
  sourceCommit := call.bound.1
  storeObjectId := call.bound.2

/-- A call passes the checks when it names a submitter or an object as its authority asks, its
path is the path of the session, and its content is small. -/
theorem upload_accepted {sid : String}
    (hobject : decide (call.authority = .store) = truthy call.storeObjectId)
    (hmember : call.authority = .member → truthy call.submittedBy = true)
    (hpath : call.authority.isSource = true → sessionIdFromPath call.sourcePath = call.sid)
    (hsid : call.sid = some sid) (hmatch : sessionIdMatch sid = true)
    (hsize : call.content.length ≤ MAX_TRANSCRIPT_BYTES) :
    call.upload tools = .ok (ImportCall.accepted tools call sid) := by
  have hnamed : ¬(call.authority = .member ∧ truthy call.submittedBy = false) := by
    rintro ⟨hauthority, hnone⟩
    rw [hmember hauthority] at hnone
    cases hnone
  have hown : ¬(call.authority.isSource = true ∧ (call.bound.1 ≠ none ∨ call.bound.2 ≠ none)
      ∧ sessionIdFromPath call.sourcePath ≠ call.sid) :=
    fun h => h.2.2 (hpath h.1)
  have hsmall : ¬MAX_TRANSCRIPT_BYTES < call.content.length / 2 :=
    Nat.not_lt.mpr (Nat.le_trans (Nat.div_le_self _ _) hsize)
  simp only [ImportCall.upload, hobject, ne_eq, not_true_eq_false, if_false, if_neg hnamed]
  rw [if_neg hown]
  simp only [hsid, hmatch, Bool.true_eq_false, if_false, if_neg hsmall, ImportCall.accepted]

/-- The database after an import with arguments that passed the checks. -/
def putUpload (tools : Tools) (tx : Transaction) (upload : Upload) (db : Database) : Database :=
  match importUpload tools tx upload (db.records upload.sid) with
  | .error _ => db
  | .ok (record, _) => db.put upload.sid record

theorem runCall_accepted (hauthority : call.authority ≠ .store)
    (h : call.upload tools = .ok upload) :
    runCall tools db tx call = putUpload tools tx upload db := by
  rw [runCall, if_neg hauthority, importDecisionLog, h, putUpload]
  simp only [bind, Except.bind]
  cases importUpload tools tx upload (db.records upload.sid) <;> rfl

/-- A call that returns. -/
structure Returned (tools : Tools) (db : Database) (tx : Transaction) (call : ImportCall)
    (upload : Upload) (after : SessionRecord) (result : ImportResult) : Prop where
  accepted : call.upload tools = .ok upload
  run : importUpload tools tx upload (db.records upload.sid)
    = .ok (after, result)

/-- `import_decision_log` returns when its arguments pass the checks and `_import` returns. -/
theorem importDecisionLog_eq_ok {after : Database} {result : ImportResult}
    (h : importDecisionLog tools tx call db = .ok (after, result)) :
    ∃ upload record, Returned tools db tx call upload record result
      ∧ after = db.put upload.sid record := by
  obtain ⟨upload, hupload, h⟩ := bind_eq_ok.mp h
  obtain ⟨⟨record, result'⟩, hrun, hreturn⟩ := bind_eq_ok.mp h
  cases hreturn
  exact ⟨upload, record, ⟨hupload, hrun⟩, rfl⟩

/-- The outcome of a call that returns. -/
theorem Returned.outcome {after : SessionRecord} {result : ImportResult}
    (h : Returned tools db tx call upload after result) :
    ImportOutcome tools tx upload (db.records upload.sid) after result :=
  importUpload_outcome h.run

/-- What a call does to the database. -/
inductive CallOutcome (tools : Tools) (db : Database) (tx : Transaction) (call : ImportCall) :
    Database → Prop
  | nothing : CallOutcome tools db tx call db
  | failed (id : String) (object : StoreObject) (hreads : db.reads id = true)
      (hstatus : object.status = .error) :
      CallOutcome tools db tx call (db.recordObject id object)
  | returned (upload : Upload) (after : SessionRecord) (result : ImportResult)
      (hreturned : Returned tools db tx call upload after result)
      (hobject : upload.storeObjectId = none ∨ call.dryRun = true) :
      CallOutcome tools db tx call (db.put upload.sid after)
  | stored (upload : Upload) (after : SessionRecord) (result : ImportResult) (id : String)
      (hreturned : Returned tools db tx call upload after result)
      (hwrites : call.dryRun = false)
      (hobject : upload.storeObjectId = some id) (hreads : db.reads id = true) :
      CallOutcome tools db tx call
        ((db.put upload.sid after).recordObject id
          ⟨outcomeStatus result, call.sid.getD "", call.content⟩)

/-- Every call does one of these. -/
theorem runCall_cases (tools : Tools) (db : Database) (tx : Transaction) (call : ImportCall) :
    CallOutcome tools db tx call (runCall tools db tx call) := by
  unfold runCall
  split
  · rename_i hstore
    cases hid : call.storeObjectId with
    | none => exact .nothing
    | some id =>
      show CallOutcome tools db tx call (runStoreCall tools tx call id db)
      unfold runStoreCall
      split
      · rename_i hreads
        split
        · exact .failed id _ hreads rfl
        · -- The import and the record of its outcome commit together.
          rename_i after result hrun
          obtain ⟨upload, record, hreturned, rfl⟩ := importDecisionLog_eq_ok hrun
          have hspec := upload_spec hreturned.accepted
          have hobject : upload.storeObjectId = some id := by
            rw [hspec.storeObjectId, if_pos hstore, hid]
          split
          · rename_i hdry
            exact .returned upload record result hreturned (.inr hdry)
          · rename_i hdry
            exact .stored upload record result id hreturned (by simpa using hdry) hobject hreads
      · exact .nothing
  · rename_i hstore
    split
    · exact .nothing
    · rename_i after result hrun
      obtain ⟨upload, record, hreturned, rfl⟩ := importDecisionLog_eq_ok hrun
      have hspec := upload_spec hreturned.accepted
      refine .returned upload record result hreturned (.inl ?_)
      rw [hspec.storeObjectId, if_neg hstore]

/-- What a call does to one session: nothing, or one of the outcomes. -/
theorem runCall_record (tools : Tools) (db : Database) (tx : Transaction) (call : ImportCall)
    (sid : String) :
    (runCall tools db tx call).records sid = db.records sid ∨
      ∃ upload result, call.upload tools = .ok upload ∧ upload.sid = sid
        ∧ ImportOutcome tools tx upload (db.records sid)
            ((runCall tools db tx call).records sid) result := by
  have hput : ∀ {upload : Upload} {after : SessionRecord} {result : ImportResult},
      Returned tools db tx call upload after result →
      (db.put upload.sid after).records sid = db.records sid ∨
        ∃ upload' result', call.upload tools = .ok upload' ∧ upload'.sid = sid
          ∧ ImportOutcome tools tx upload' (db.records sid)
              ((db.put upload.sid after).records sid) result' := by
    intro upload after result hreturned
    by_cases hsid : sid = upload.sid
    · right
      refine ⟨upload, result, hreturned.accepted, hsid.symm, ?_⟩
      subst hsid
      have houtcome := hreturned.outcome
      simpa [Database.put] using houtcome
    · left
      simp [Database.put, hsid]
  have hcases := runCall_cases tools db tx call
  generalize runCall tools db tx call = after at hcases ⊢
  cases hcases with
  | nothing => exact .inl rfl
  | failed id object hreads hstatus => exact .inl rfl
  | returned upload after result hreturned hobject => exact hput hreturned
  | stored upload after result id hreturned hwrites hobject hreads => exact hput hreturned

/-- A call keeps what holds of every session, when the outcomes keep it. -/
theorem sessions_call {P : SessionRecord → Prop}
    (houtcome : ∀ {upload : Upload} {after : SessionRecord} {result : ImportResult},
      call.upload tools = .ok upload → P (db.records upload.sid) →
      ImportOutcome tools tx upload (db.records upload.sid) after result → P after)
    (h : ∀ sid, P (db.records sid)) (sid : String) :
    P ((runCall tools db tx call).records sid) := by
  rcases runCall_record tools db tx call sid with hsame | ⟨upload, result, hupload, rfl, hdone⟩
  · rw [hsame]
    exact h sid
  · exact houtcome hupload (h upload.sid) hdone

end

/-- The step function of a run of calls. -/
abbrev callStep (tools : Tools) (db : Database) (step : Transaction × ImportCall) : Database :=
  runCall tools db step.1 step.2

end TrustPortal.Proofs.DecisionLog
