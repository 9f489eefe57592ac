import TrustPortal.Audit.Anchor
import TrustPortal.Proofs.Audit.Clean
import TrustPortal.Proofs.Audit.Trigger

/-!
# `TrustPortal.Proofs.Audit.Written`: what the triggers write, the verifier accepts

`WrittenChain` is the invariant of the table: every row is sealed and the rows are linked
from the start hash on. The empty table has it, with the genesis hash, and the table after
`audit_log_insert_anchor` has it, with the archived chain's head. `writtenChain_step` keeps it
through one firing of the trigger, `writtenChain_run` through any list of them.

The verifier recomputes the hash of a row from its columns and carries the last hash on. On
a written chain both agree with what the trigger wrote (`clean_of_linked`), so a run finds
nothing: `written_verifies`.
-/

set_option autoImplicit false

namespace TrustPortal.Proofs.Audit

open TrustPortal.Sql
open TrustPortal.Audit
open TrustPortal.Lib
open TrustPortal.Lib.HashChain

/-! ## The ANCHOR row -/

private theorem required_eq_ok {value : Option String} {test : String → Bool}
    {message s : String} (h : required value test message = .ok s) :
    value = some s ∧ test s = true := by
  unfold required at h
  split at h
  · cases h
  · split at h
    · rename_i htest
      cases h
      exact ⟨rfl, htest⟩
    · cases h

/-- The arguments of an anchor that passed the checks. -/
structure AnchorArgs.Checked (call : AnchorCall) (args : AnchorArgs) : Prop where
  archiveId : call.archiveId = some args.archiveId
  archiveSha256 : call.archiveSha256 = some args.archiveSha256
  chainHead : call.archivedChainHead = some args.chainHead
  manifestKey : call.manifestKey = some args.manifestKey
  manifestSha256 : call.manifestSha256 = some args.manifestSha256
  archiveId_fits : args.archiveId.length ≤ 36
  archiveSha256_digest : IsHexDigest args.archiveSha256
  chainHead_digest : IsHexDigest args.chainHead
  manifestKey_fits : args.manifestKey.length ≤ 1024
  manifestSha256_digest : IsHexDigest args.manifestSha256

theorem checkAnchor_spec {call : AnchorCall} {args : AnchorArgs}
    (h : checkAnchor call = .ok args) : AnchorArgs.Checked call args := by
  simp only [checkAnchor, bind_eq_ok] at h
  obtain ⟨archiveId, hid, archiveSha, hsha, head, hhead, key, hkey, manifestSha, hmanifest,
    hargs⟩ := h
  cases hargs
  obtain ⟨hid, hfits⟩ := required_eq_ok hid
  obtain ⟨hsha, hshaHex⟩ := required_eq_ok hsha
  obtain ⟨hhead, hheadHex⟩ := required_eq_ok hhead
  obtain ⟨hkey, hkeyFits⟩ := required_eq_ok hkey
  obtain ⟨hmanifest, hmanifestHex⟩ := required_eq_ok hmanifest
  simp only [Bool.and_eq_true, decide_eq_true_eq] at hfits hshaHex hheadHex hkeyFits hmanifestHex
  exact ⟨hid, hsha, hhead, hkey, hmanifest, hfits.2, hshaHex, hheadHex, hkeyFits.1,
    hmanifestHex⟩

/-- The ANCHOR row of checked arguments under an id. -/
def anchorRow (sha : Sha256) (id : Int) (call : AnchorCall) (args : AnchorArgs) : AuditRow where
  id := id
  tableName := some "audit_log"
  recordId := some args.archiveId
  action := some "ANCHOR"
  oldValues := none
  newValues := some (anchorDetails call).text
  changedBy := none
  changedAt := some (.micros call.now)
  previousHash := some args.chainHead
  rowHash := (anchorData args.chainHead args.archiveId (.micros call.now)
    (anchorDetails call).text).map sha.hexOfText
  hashVersion := some 2

/-- The text `audit_log_insert_anchor` hashes is the text `verify_chain` hashes for the row. -/
theorem anchorRow_sealed (sha : Sha256) (id : Int) (call : AnchorCall) (args : AnchorArgs) :
    Sealed sha true (anchorRow sha id call args) := by
  obtain ⟨time, htime⟩ := toCharUtc_micros call.now
  refine ⟨args.chainHead ++ "audit_log" ++ args.archiveId ++ "ANCHOR" ++ time
    ++ (anchorDetails call).text, ?_, ?_⟩
  · simp only [anchorRow, hashedForm, v2Part, AuditRow.changedAtText, Option.bind_some, htime,
      coalesceText_eq, textCat_some, if_true, Option.getD_some, Option.getD_none,
      String.append_assoc, String.empty_append]
  · simp only [anchorRow, anchorData, htime, textCat_some, Option.map_some,
      String.append_assoc, String.empty_append]

/-- What `audit_log_insert_anchor` inserts, and when. -/
theorem insertAnchor_spec {sha : Sha256} {log : AuditLog} {call : AnchorCall} {new : NewRow log}
    (h : insertAnchor sha log call = .ok new) :
    ∃ args, AnchorArgs.Checked call args ∧ log.rows = [] ∧ log.hasHashVersion = true ∧
      nextId log call.gap ≤ maxInteger ∧ new.row = anchorRow sha (nextId log call.gap) call args := by
  simp only [insertAnchor, throw_bind, bind_eq_ok, ite_error_eq_ok] at h
  obtain ⟨args, hargs, hempty, h⟩ := h
  have hchecked := checkAnchor_spec hargs
  refine ⟨args, hchecked, not_not.mp hempty, ?_⟩
  split at h
  · rename_i row hrow
    cases h
    unfold insertRow at hrow
    simp only [throw_bind, ite_error_eq_ok,
      varchar_of_le (show "audit_log".length ≤ 100 by decide), varcharOrNull,
      varchar_of_le hchecked.archiveId_fits,
      varchar_of_le (show "ANCHOR".length ≤ 10 by decide)] at hrow
    obtain ⟨hcolumn, hlimit, hrow⟩ := hrow
    cases hrow
    exact ⟨by simpa using hcolumn, not_lt.mp hlimit, rfl⟩
  · cases h

/-- Checked arguments, an empty table and an id within the column's range: the anchor is
inserted. -/
theorem insertAnchor_of_checked (sha : Sha256) {log : AuditLog} {call : AnchorCall}
    {args : AnchorArgs} (hargs : checkAnchor call = .ok args) (hempty : log.rows = [])
    (hcolumn : log.hasHashVersion = true) (hlimit : nextId log call.gap ≤ maxInteger) :
    ∃ new, insertAnchor sha log call = .ok new := by
  have hchecked := checkAnchor_spec hargs
  have hrow : ∃ row, insertRow log call.gap "audit_log" (some args.archiveId) "ANCHOR" none
      (some (anchorDetails call).text) none (.micros call.now) args.chainHead
      ((anchorData args.chainHead args.archiveId (.micros call.now)
        (anchorDetails call).text).map sha.hexOfText) = .ok row := by
    unfold insertRow
    rw [if_neg (by rw [hcolumn]; decide), if_neg (not_lt.mpr hlimit),
      varchar_of_le (show "audit_log".length ≤ 100 by decide), varcharOrNull,
      varchar_of_le hchecked.archiveId_fits, varchar_of_le (show "ANCHOR".length ≤ 10 by decide)]
    exact ⟨_, rfl⟩
  obtain ⟨row, hrow⟩ := hrow
  refine ⟨row, ?_⟩
  unfold insertAnchor
  simp only [hargs, bind, Except.bind, if_neg (not_not.mpr hempty), hrow]
  rfl

/-! ## The chain of a table -/

/-- The first row stays the first one. -/
theorem first_append (log : AuditLog) (new : NewRow log) :
    (log.append new).first = log.first.or (some new.row) := by
  show (log.rows ++ [new.row]).head? = _
  rw [List.head?_append]
  rfl

/-- A row that is no ANCHOR row does not anchor the table it is appended to. -/
theorem anchored_append {log : AuditLog} {new : NewRow log}
    (h : new.row.action ≠ some "ANCHOR") : anchored (log.append new) = anchored log := by
  unfold anchored
  rw [first_append]
  cases log.first with
  | none => simp [h]
  | some first => rfl

/-- A row that is no ANCHOR row leaves the start hash. -/
theorem startHash_append {log : AuditLog} {new : NewRow log}
    (h : new.row.action ≠ some "ANCHOR") : startHash (log.append new) = startHash log := by
  unfold startHash
  rw [anchored_append h, first_append]
  unfold anchored
  cases log.first with
  | none => rfl
  | some first => rfl

/-- The rows of a table are sealed and linked from a start hash of 64 characters on. -/
structure WrittenChain (sha : Sha256) (log : AuditLog) : Prop where
  start : ∃ hash, startHash log = some hash ∧ hash.length = 64
  sealed : ∀ row ∈ log.rows, Sealed sha log.hasHashVersion row
  linked : RowsLinked (startHash log) log.rows

section
variable {sha : Sha256} {log : AuditLog}

/-- Every row of a written chain is a row of the chain. -/
theorem WrittenChain.chainRows_eq (h : WrittenChain sha log) : chainRows log = log.rows := by
  unfold chainRows
  split
  · rfl
  · cases hrows : log.rows with
    | nil => rfl
    | cons first rest =>
      have hhash := (h.sealed first (hrows ▸ List.mem_cons_self)).rowHash_ne_none
      refine List.dropWhile_cons_of_neg ?_
      simpa [Option.isNone_iff_eq_none] using hhash

/-- The next row names the head of the chain, 64 characters. -/
theorem WrittenChain.lastRowHash (h : WrittenChain sha log) :
    some (lastRowHash log) = head AuditRow.rowHash (startHash log) log.rows ∧
      (TrustPortal.Audit.lastRowHash log).length = 64 := by
  unfold TrustPortal.Audit.lastRowHash AuditLog.last
  rcases List.eq_nil_or_concat log.rows with hrows | ⟨rest, last, hrows⟩
  · have hstart : startHash log = some GENESIS_HASH := by
      simp [startHash, anchored, AuditLog.first, hrows]
    rw [hrows, hstart]
    exact ⟨rfl, length_GENESIS_HASH⟩
  · rw [List.concat_eq_append] at hrows
    obtain ⟨t, _, hhash⟩ := h.sealed last (by rw [hrows]; simp)
    rw [hrows, List.getLast?_concat, head_concat, Option.bind_some, hhash]
    exact ⟨rfl, sha.length_hexOfText t⟩

/-- A row the trigger writes extends the chain. -/
theorem WrittenChain.append (h : WrittenChain sha log) {new : NewRow log}
    (hwritten : Written sha log new.row) : WrittenChain sha (log.append new) := by
  obtain ⟨hhead, hlength⟩ := h.lastRowHash
  obtain ⟨prev, hprev, hrow⟩ := hwritten.previousHash
  rw [varchar_of_le (le_of_eq hlength)] at hprev
  cases hprev
  have hstart := startHash_append hwritten.notAnchor
  refine ⟨hstart ▸ h.start, fun row hmem => ?_, ?_⟩
  · show Sealed sha log.hasHashVersion row
    rcases List.mem_append.mp hmem with hold | hnew
    · exact h.sealed row hold
    · rw [List.mem_singleton.mp hnew, hwritten.hasHashVersion]
      exact hwritten.hashed
  · rw [hstart]
    exact linked_concat.mpr ⟨h.linked, hrow.trans hhead⟩

/-- An empty table. -/
theorem writtenChain_empty (h : log.rows = []) : WrittenChain sha log := by
  have hstart : startHash log = some GENESIS_HASH := by
    simp [startHash, anchored, AuditLog.first, h]
  refine ⟨⟨GENESIS_HASH, hstart, length_GENESIS_HASH⟩, ?_, ?_⟩
  · simp [h]
  · rw [h]
    trivial

/-- The table after `audit_log_insert_anchor`. -/
theorem writtenChain_anchor {call : AnchorCall} {new : NewRow log}
    (h : insertAnchor sha log call = .ok new) : WrittenChain sha (log.append new) := by
  obtain ⟨args, hchecked, hempty, hcolumn, _, hrow⟩ := insertAnchor_spec h
  have hrows : (log.append new).rows = [new.row] := by
    show log.rows ++ [new.row] = [new.row]
    rw [hempty, List.nil_append]
  have hstart : startHash (log.append new) = some args.chainHead := by
    simp [startHash, anchored, AuditLog.first, hrows, hrow, anchorRow]
  refine ⟨⟨args.chainHead, hstart, hchecked.chainHead_digest.1⟩, ?_, ?_⟩
  · intro row hmem
    rw [hrows, List.mem_singleton] at hmem
    rw [hmem, hrow]
    show Sealed sha log.hasHashVersion _
    rw [hcolumn]
    exact anchorRow_sealed ..
  · rw [hrows, hstart, hrow]
    exact ⟨rfl, trivial⟩

end

/-- One firing of the trigger keeps the chain. -/
theorem writtenChain_step {sha : Sha256} {log : AuditLog} (call : TriggerCall)
    (h : WrittenChain sha log) : WrittenChain sha (afterTrigger sha log call) := by
  unfold afterTrigger
  split
  · rename_i new hnew
    exact h.append (auditTrigger_spec hnew)
  · exact h
  · exact h

/-- Any list of firings keeps the chain. -/
theorem writtenChain_run {sha : Sha256} (calls : List TriggerCall) {log : AuditLog}
    (h : WrittenChain sha log) : WrittenChain sha (runTriggers sha log calls) := by
  induction calls generalizing log with
  | nil => exact h
  | cons call rest ih => exact ih (writtenChain_step call h)

/-! ## The verifier finds nothing -/

/-- In a chain of sealed and linked rows the verifier recomputes every hash and expects every
previous hash. -/
theorem agrees_of_linked {sha : Sha256} {hv : Bool} {rows : List AuditRow}
    {start : Option String} (hsealed : ∀ row ∈ rows, Sealed sha hv row)
    (hlinked : RowsLinked start rows) {pre post : List AuditRow} {row : AuditRow}
    (hsplit : rows = pre ++ row :: post) :
    computedHash sha hv row = row.rowHash ∧ row.previousHash = carriedHash start pre := by
  subst hsplit
  obtain ⟨t, hform, hhash⟩ := hsealed row (by simp)
  refine ⟨by rw [computedHash, hform, hhash, Option.map_some], ?_⟩
  have hcarried : carriedHash start pre = head AuditRow.rowHash start pre := by
    -- Every row hands its own hash on, since none of them is empty.
    clear hlinked
    induction pre generalizing start with
    | nil => rfl
    | cons first rest ih =>
      have hfirst := (hsealed first (by simp)).truthy_rowHash
      rw [head_cons, ← ih fun other hother => hsealed other (by
        simp only [List.cons_append, List.mem_cons]
        exact .inr hother)]
      show carriedHash (if truthy first.rowHash then first.rowHash else start) rest = _
      rw [if_pos hfirst]
  rw [hcarried]
  exact (linked_append.mp hlinked).2.1

/-- A chain of sealed and linked rows has no altered row and no link candidate. -/
theorem clean_of_linked {sha : Sha256} {hv : Bool} {rows : List AuditRow}
    {start : Option String} (hsealed : ∀ row ∈ rows, Sealed sha hv row)
    (hlinked : RowsLinked start rows) :
    alteredIds sha hv rows = [] ∧ mislinked start rows = [] := by
  induction rows generalizing start with
  | nil => exact ⟨rfl, rfl⟩
  | cons row rest ih =>
    have hrow := hsealed row List.mem_cons_self
    obtain ⟨haltered, hmislinked⟩ := ih (fun other hother =>
      hsealed other (List.mem_cons_of_mem _ hother)) hlinked.2
    have hagrees := @agrees_of_linked sha hv _ _ hsealed hlinked [] _ _ rfl
    constructor
    · rw [show row :: rest = [row] ++ rest from rfl, alteredIds_append, haltered]
      simp [alteredIds, isAltered, hagrees.1]
    · have hlink : isLinked start row = true := by
        rw [isLinked, hlinked.1, Bool.and_eq_true, Option.isSome_iff_ne_none]
        exact ⟨hrow.rowHash_ne_none, by simp⟩
      rw [mislinked, if_pos hlink, if_pos hrow.truthy_rowHash, hmislinked]

/-- The status of a run without findings and without published heads. -/
def cleanStatus (verification : Option AnchorVerification) : ChainStatus :=
  match verification.map AnchorVerification.status with
  | none => .valid
  | some .verified => .valid
  | some .unverified => .unverified
  | some .failed => .broken

/-- The result of a scan without findings. -/
theorem conclude_clean {log : AuditLog} {args : VerifyArgs} {anchor : Option Anchor}
    {unhashed : Int} {scan : Scan} {complete : Bool} (hmismatches : scan.contentMismatchIds = [])
    (hlinks : scan.linkCandidates = []) :
    let run := conclude log args anchor unhashed scan complete
    run.contentMismatchIds = [] ∧ run.forkIds = [] ∧ run.trueBreakIds = [] ∧
      (args.witnessHeads = none → run.status = cleanStatus (verifyAnchor args anchor)) := by
  refine ⟨hmismatches, by simp [conclude, classifyLinks, hlinks],
    by simp [conclude, classifyLinks, hlinks], fun hwitness => ?_⟩
  simp only [conclude, hmismatches, hlinks, classifyLinks, hwitness, anchorFailed, cleanStatus]
  cases verifyAnchor args anchor with
  | none => rfl
  | some verification => cases hstatus : verification.status <;> simp [hstatus]

section
variable {sha : Sha256} {client : Client} {log : AuditLog}

/-- The result of an unbounded run over a written chain with rows, for any chunk size. -/
theorem WrittenChain.verifyChain_eq (h : WrittenChain sha log) (hread : StartReadable client log)
    (hrows : log.rows ≠ []) (chunkSize : Nat) (witness : Option HeadScan)
    (verifier : Option (Anchor → AnchorVerification)) :
    ∃ anchor unhashed scan,
      verifyChain sha client log (unbounded chunkSize witness verifier)
        = .ok (conclude log (unbounded chunkSize witness verifier) anchor unhashed scan true) ∧
      anchor.isSome = anchored log ∧ scan.contentMismatchIds = [] ∧ scan.linkCandidates = [] := by
  have hchain : chainRows log ≠ [] := h.chainRows_eq ▸ hrows
  by_cases hchunk : 0 < chunkSize
  · obtain ⟨anchor, unhashed, scan, hrun, hanchor, hmismatches, hlinks⟩ :=
      verifyChain_unbounded sha witness verifier hchunk hread hchain
    obtain ⟨haltered, hmislinked⟩ := clean_of_linked h.sealed h.linked
    rw [h.chainRows_eq] at hmismatches hlinks
    exact ⟨anchor, unhashed, scan, hrun, hanchor, hmismatches.trans haltered,
      hlinks.trans hmislinked⟩
  · -- Chunks of no rows: the run ends before its first row.
    rcases findChainStart_readable hread with ⟨hnil, _⟩ | ⟨hnil, _⟩ | ⟨_, start, hstart, hstarts⟩
    · exact absurd hnil hrows
    · exact absurd hnil hchain
    · exact ⟨start.anchor, start.unhashedEntries, _, verifyChain_no_chunk sha
        (show chunkSize = 0 by omega) (fun most hmost => by cases hmost)
        (beginning_unbounded witness verifier hstart hstarts), hstarts.anchor, rfl, rfl⟩

end

/-! ## Reading the first row -/

/-- The driver still reads the first row after a firing whose timestamp it reads. -/
theorem startReadable_step {sha : Sha256} {client : Client} {log : AuditLog} {call : TriggerCall}
    (hread : StartReadable client log)
    (htime : ∃ s, client.isoformat (.micros call.now) = some s) :
    StartReadable client (afterTrigger sha log call) := by
  unfold afterTrigger
  split
  · rename_i new hnew
    intro first hfirst
    rw [first_append] at hfirst
    cases hold : log.first with
    | some old =>
      rw [hold, Option.some_or] at hfirst
      exact hread first (hold.trans hfirst)
    | none =>
      -- The new row is the first one.
      rw [hold, Option.none_or, Option.some_inj] at hfirst
      subst hfirst
      have hwritten := auditTrigger_spec hnew
      obtain ⟨_, _, _, _, _, _, _, _, hrow⟩ := auditTrigger_row hnew
      refine ⟨fun t ht => ?_, fun h => absurd h hwritten.notAnchor⟩
      rw [hrow] at ht
      cases ht
      exact htime
  · exact hread
  · exact hread

theorem startReadable_run {sha : Sha256} {client : Client} (calls : List TriggerCall)
    {log : AuditLog} (hread : StartReadable client log)
    (htimes : ∀ call ∈ calls, ∃ s, client.isoformat (.micros call.now) = some s) :
    StartReadable client (runTriggers sha log calls) := by
  induction calls generalizing log with
  | nil => exact hread
  | cons call rest ih =>
    exact ih (startReadable_step hread (htimes call List.mem_cons_self))
      fun other hother => htimes other (List.mem_cons_of_mem _ hother)

/-! ## Every history -/

/-- Where a history of the table begins: the empty table, or the table after
`audit_log_insert_anchor`. -/
inductive Origin (sha : Sha256) : AuditLog → Prop
  | empty {log : AuditLog} (h : log.rows = []) : Origin sha log
  | anchor {log : AuditLog} {call : AnchorCall} {new : NewRow log}
      (h : insertAnchor sha log call = .ok new) : Origin sha (log.append new)

theorem Origin.writtenChain {sha : Sha256} {log : AuditLog} (h : Origin sha log) :
    WrittenChain sha log := by
  cases h with
  | empty h => exact writtenChain_empty h
  | anchor h => exact writtenChain_anchor h

/-- Whatever the trigger appends, from an empty table or after an anchor, a run finds no
altered row, no fork and no true break: the recomputed hash and the expected previous hash of
every row are the written ones. Without published heads the status is `valid`, or that of
the anchor's verification. -/
theorem written_verifies {sha : Sha256} {client : Client} {origin : AuditLog}
    (horigin : Origin sha origin) (hread : StartReadable client origin)
    (calls : List TriggerCall)
    (htimes : ∀ call ∈ calls, ∃ s, client.isoformat (.micros call.now) = some s)
    (chunkSize : Nat) (witness : Option HeadScan)
    (verifier : Option (Anchor → AnchorVerification)) :
    let log := runTriggers sha origin calls
    (∀ pre row post, log.rows = pre ++ row :: post →
      computedHash sha log.hasHashVersion row = row.rowHash ∧
        row.previousHash = carriedHash (startHash log) pre) ∧
    ∃ run, verifyChain sha client log (unbounded chunkSize witness verifier) = .ok run ∧
      run.contentMismatchIds = [] ∧ run.forkIds = [] ∧ run.trueBreakIds = [] ∧
      (log.rows = [] → run.status = .empty) ∧
      (log.rows ≠ [] → witness = none → anchored log = false → run.status = .valid) ∧
      (log.rows ≠ [] → witness = none → anchored log = true → verifier = none →
        run.status = .unverified) ∧
      (log.rows ≠ [] → witness = none → anchored log = true → ∀ verify, verifier = some verify →
        ∃ anchor, run.anchor = some anchor ∧
          run.status = cleanStatus (some (verify anchor))) := by
  intro log
  have hchain : WrittenChain sha log := writtenChain_run calls horigin.writtenChain
  have hreadable : StartReadable client log := startReadable_run calls hread htimes
  refine ⟨fun pre row post hsplit => agrees_of_linked hchain.sealed hchain.linked hsplit, ?_⟩
  by_cases hrows : log.rows = []
  · have hstart : findChainStart client log = .ok none := by
      have hfirst : log.first = none := by rw [AuditLog.first, hrows]; rfl
      unfold findChainStart
      rw [hfirst]
      rfl
    exact ⟨.nothing .empty, by simp only [verifyChain, beginning, unbounded, hstart]; rfl, rfl, rfl,
      rfl, fun _ => rfl, fun h => absurd hrows h, fun h => absurd hrows h,
      fun h => absurd hrows h⟩
  · obtain ⟨anchor, unhashed, scan, hrun, hanchor, hmismatches, hlinks⟩ :=
      hchain.verifyChain_eq hreadable hrows chunkSize witness verifier
    obtain ⟨h₁, h₂, h₃, hstatus⟩ := @conclude_clean log
      (unbounded chunkSize witness verifier) anchor unhashed scan true hmismatches hlinks
    refine ⟨_, hrun, h₁, h₂, h₃, fun h => absurd h hrows, fun _ hwitness hnot => ?_,
      fun _ hwitness hanch hverifier => ?_, fun _ hwitness hanch verify hverifier => ?_⟩
    · rw [hnot, Option.isSome_eq_false_iff, Option.isNone_iff_eq_none] at hanchor
      rw [hstatus hwitness, hanchor]
      rfl
    · obtain ⟨anchor, rfl⟩ := Option.isSome_iff_exists.mp (hanchor.trans hanch)
      rw [hstatus hwitness, hverifier]
      rfl
    · obtain ⟨anchor, rfl⟩ := Option.isSome_iff_exists.mp (hanchor.trans hanch)
      refine ⟨anchor, rfl, ?_⟩
      rw [hstatus hwitness, hverifier]
      rfl

/-- The anchor of an archived chain of 40 rows. -/
def archiveAnchor : AnchorCall where
  archiveId := some "a1"
  archiveSha256 := some (String.ofList (List.replicate 64 'a'))
  archivedChainHead := some (String.ofList (List.replicate 64 'b'))
  archivedEntries := some 40
  manifestKey := some "archives/0123456789abcdef/a1.manifest.json"
  manifestSha256 := some (String.ofList (List.replicate 64 'c'))
  note := none
  sessionUser := "portal"
  now := 1790596800123456
  gap := 0

/-- The table after `archiveAnchor`. -/
def anchoredLog : AuditLog :=
  match insertAnchor controlSha emptyLog archiveAnchor with
  | .ok new => emptyLog.append new
  | .error _ => emptyLog

/-- `controlClient`, which also reads the details of `archiveAnchor`. -/
def anchorClient : Client := .ofTables
  [(.micros 1790596800123456, "2026-09-28T12:00:00.123456+00:00")]
  [((anchorDetails archiveAnchor).text, .object (anchorDetails archiveAnchor))]

theorem origin_anchoredLog : Origin controlSha anchoredLog := by
  unfold anchoredLog
  split
  · rename_i new hnew
    exact .anchor hnew
  · exact .empty rfl

/-- A client with one text reads it. -/
private theorem loads_ofTables (times : List (Timestamptz × String)) (text : String)
    (value : Json) : (Client.ofTables times [(text, value)]).loads text = some value := by
  show [(text, value)].lookup text = some value
  rw [List.lookup_cons, beq_self_eq_true]

set_option maxRecDepth 16000 in
/-- A chain continued from an archive is `unverified` when nobody checks its anchor. -/
theorem anchored_history_unverified :
    ∃ run, verifyChain controlSha anchorClient
        (runTriggers controlSha anchoredLog [controlInsert]) (unbounded 20000 none none)
          = .ok run ∧ run.status = .unverified := by
  have hfirst : anchoredLog.first
      = some (anchorRow controlSha 1 archiveAnchor ⟨"a1", String.ofList (List.replicate 64 'a'),
          String.ofList (List.replicate 64 'b'), "archives/0123456789abcdef/a1.manifest.json",
          String.ofList (List.replicate 64 'c')⟩) := by decide +kernel
  have hread : StartReadable anchorClient anchoredLog := by
    intro first h
    rw [hfirst, Option.some_inj] at h
    subst h
    refine ⟨fun t ht => ?_, fun _ _ => ⟨anchorDetails archiveAnchor, ?_⟩⟩
    · cases ht
      exact ⟨_, rfl⟩
    · exact loads_ofTables _ _ _
  have htimes : ∀ call ∈ [controlInsert],
      ∃ s, anchorClient.isoformat (.micros call.now) = some s := by
    intro call hcall
    rw [List.mem_singleton.mp hcall]
    exact ⟨_, rfl⟩
  have hanchored : anchored (runTriggers controlSha anchoredLog [controlInsert]) = true := by
    decide +kernel
  obtain ⟨_, run, hrun, _, _, _, _, _, hstatus, _⟩ := written_verifies origin_anchoredLog hread
    [controlInsert] htimes 20000 none none
  exact ⟨run, hrun, hstatus (by decide +kernel) rfl hanchored rfl⟩

end TrustPortal.Proofs.Audit
