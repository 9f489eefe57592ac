import Mathlib.Algebra.GroupWithZero.Nat
import TrustPortal.Audit.Log

/-!
# `TrustPortal.Audit.Witness`: published chain heads against the table

`check_heads`, `resolve_foreign_chains` and `report` of the witness module. A published
head is the id and the `row_hash` of a row, kept where the database cannot change it. A
head whose row is gone or carries another hash is a mismatch. A head of another chain is a
mismatch too, unless the archive lineage of the current chain's anchor explains it.
-/

set_option autoImplicit false

namespace TrustPortal.Audit

open TrustPortal.Sql

/-- A head record that `parse_head` accepted. -/
structure Head where
  id : Int
  rowHash : String
  publishedAt : Option String
  deriving DecidableEq, Repr

/-- A valid entry of a scan. `chainId` is `key_parts(key)[0]`, which `parse_head` compared
with the record. -/
structure HeadEntry where
  key : String
  chainId : String
  head : Head
  deriving DecidableEq, Repr

/-- An object under the heads' prefix that is not a head. -/
structure InvalidHead where
  key : String
  reason : String
  deriving DecidableEq, Repr

/-- The result of a scan of the published heads. -/
structure HeadScan where
  valid : List HeadEntry
  invalid : List InvalidHead

/-- `_mismatch`. -/
structure Mismatch where
  id : Option Int
  chainId : Option String
  publishedRowHash : Option String
  storedRowHash : Option String
  publishedAt : Option String
  key : Option String
  issue : String
  deriving DecidableEq, Repr

/-- The heads of a chain other than the current one. -/
structure ForeignChain where
  chainId : String
  lastPublishedId : Int
  lastPublishedRowHash : String
  lastPublishedAt : Option String
  key : String
  heads : Nat
  deriving DecidableEq, Repr

/-- The result of `check_heads`. -/
structure Witness where
  checked : Nat
  published : Nat
  foreignChains : List ForeignChain
  continuedChains : List ForeignChain
  unverifiedContinuations : List ForeignChain
  otherChain : Nat
  mismatches : List Mismatch
  invalidHeads : List InvalidHead
  latestPublishedId : Option Int

/-- `chain_id`: the first 16 characters of the chain's first `row_hash`. -/
def chainId (log : AuditLog) : Option String :=
  match log.firstHashed.bind AuditRow.rowHash with
  | none => none
  | some hash => if hash = "" then none else some (String.ofList (hash.toList.take 16))

/-- The `row_hash` stored under an id, none when there is no such row or it has no hash. -/
def storedRowHash (log : AuditLog) (id : Int) : Option String :=
  (log.rows.find? fun row => decide (row.id = id)).bind AuditRow.rowHash

/-- The published heads of the current chain. -/
def currentHeads (log : AuditLog) (scan : HeadScan) : List HeadEntry :=
  match chainId log with
  | none => []
  | some ours => scan.valid.filter fun entry => decide (entry.chainId = ours)

/-- The mismatch of a head of the current chain, if there is one. -/
def headMismatch (log : AuditLog) (entry : HeadEntry) : Option Mismatch :=
  let stored := storedRowHash log entry.head.id
  if stored ≠ some entry.head.rowHash then
    some {
      id := some entry.head.id
      chainId := chainId log
      publishedRowHash := some entry.head.rowHash
      storedRowHash := stored
      publishedAt := entry.head.publishedAt
      key := some entry.key
      issue := if stored.isNone then "row missing" else "row_hash differs" }
  else none

/-- Python's `max(entries, key=…)`: the first entry with the largest id. -/
def lastEntry : HeadEntry → List HeadEntry → HeadEntry
  | best, [] => best
  | best, entry :: entries =>
      lastEntry (if best.head.id < entry.head.id then entry else best) entries

/-- The chain ids of a scan other than the current chain's, sorted, each once. -/
def foreignIds (log : AuditLog) (scan : HeadScan) : List String :=
  (((scan.valid.map HeadEntry.chainId).dedup).filter
    fun cid => decide (some cid ≠ chainId log)).insertionSort (· ≤ ·)

/-- The foreign chain of an id. -/
def foreignChain (scan : HeadScan) (cid : String) : Option ForeignChain :=
  match scan.valid.filter fun entry => decide (entry.chainId = cid) with
  | [] => none
  | entry :: entries =>
      let last := lastEntry entry entries
      some {
        chainId := cid
        lastPublishedId := last.head.id
        lastPublishedRowHash := last.head.rowHash
        lastPublishedAt := last.head.publishedAt
        key := last.key
        heads := (entry :: entries).length }

/-- `check_heads`. -/
def checkHeads (log : AuditLog) (scan : HeadScan) : Witness :=
  let current := currentHeads log scan
  let foreign := (foreignIds log scan).filterMap (foreignChain scan)
  let unowned : List Mismatch :=
    if (!scan.valid.isEmpty || !scan.invalid.isEmpty) && current.isEmpty then
      [{ id := none, chainId := chainId log, publishedRowHash := none, storedRowHash := none,
         publishedAt := none, key := none,
         issue := "heads were published but none belongs to the current chain" }]
    else []
  { checked := current.length
    published := scan.valid.length + scan.invalid.length
    foreignChains := foreign
    continuedChains := []
    unverifiedContinuations := []
    otherChain := (foreign.map ForeignChain.heads).sum
    mismatches := current.filterMap (headMismatch log) ++ unowned
    invalidHeads := scan.invalid
    latestPublishedId := (current.map fun entry => entry.head.id).max? }

/-- What `details.get(name)` returns from the parsed `new_values` of an ANCHOR row: the
member, or `None`. -/
def detail (details : List (String × Json)) (name : String) : Json :=
  (details.lookup name).getD .null

/-- The anchor that a verification reports: the first row, when it is an ANCHOR row. -/
structure Anchor where
  id : Int
  archiveId : Json
  archiveSha256 : Json
  archivedChainHead : Option String
  archivedEntries : Json
  archiveManifestKey : Json
  archiveManifestSha256 : Json
  anchoredBy : Json
  note : Json
  anchoredAt : Option String

/-- The standing of an anchor. -/
inductive AnchorStatus
  | verified
  | failed
  | unverified
  deriving DecidableEq, Repr

/-- One archived generation of a chain: its id, its last row's id and `row_hash`. -/
structure Lineage where
  chainId : String
  finalRowId : Int
  finalRowHash : String
  deriving DecidableEq, Repr

/-- What an anchor verifier returns. A failure always comes with an issue. -/
structure AnchorVerification where
  status : AnchorStatus
  issues : List String
  reasons : List String
  lineage : List Lineage
  issue_of_failed : status = .failed → issues ≠ []

/-- `resolve_foreign_chains`, for one foreign chain. -/
def resolveForeignChain (anchor : Option Anchor) (verification : Option AnchorVerification)
    (witness : Witness) (chain : ForeignChain) : Witness :=
  let lineage := (verification.map AnchorVerification.lineage).getD []
  let unverified := anchor.isSome && (verification.map AnchorVerification.status
    == some AnchorStatus.unverified)
  if (⟨chain.chainId, chain.lastPublishedId, chain.lastPublishedRowHash⟩ : Lineage) ∈ lineage
  then { witness with continuedChains := witness.continuedChains ++ [chain] }
  else if unverified
      && anchor.bind Anchor.archivedChainHead == some chain.lastPublishedRowHash then
    { witness with unverifiedContinuations := witness.unverifiedContinuations ++ [chain] }
  else
    { witness with
        mismatches := witness.mismatches ++ [{
          id := none
          chainId := some chain.chainId
          publishedRowHash := some chain.lastPublishedRowHash
          storedRowHash := none
          publishedAt := chain.lastPublishedAt
          key := some chain.key
          issue := "a published chain that no verified archive manifest of the current "
            ++ "chain continues at its last published head: the audit log was replaced" }] }

/-- `resolve_foreign_chains`: the foreign chains leave the result, each into one of the
three lists. -/
def resolveForeignChains (witness : Witness) (anchor : Option Anchor)
    (verification : Option AnchorVerification) : Witness :=
  witness.foreignChains.foldl (resolveForeignChain anchor verification)
    { witness with foreignChains := [] }

/-- `MAX_REPORTED`. -/
def MAX_REPORTED : Nat := 100

/-- The witness block of a verification: long lists truncated, with their counts. -/
structure WitnessReport extends Witness where
  mismatchesCount : Nat
  invalidHeadsCount : Nat
  continuedChainsCount : Nat
  unverifiedContinuationsCount : Nat

/-- `report`. -/
def report (witness : Witness) : WitnessReport where
  checked := witness.checked
  published := witness.published
  foreignChains := witness.foreignChains
  continuedChains := witness.continuedChains.take MAX_REPORTED
  unverifiedContinuations := witness.unverifiedContinuations.take MAX_REPORTED
  otherChain := witness.otherChain
  mismatches := witness.mismatches.take MAX_REPORTED
  invalidHeads := witness.invalidHeads.take MAX_REPORTED
  latestPublishedId := witness.latestPublishedId
  mismatchesCount := witness.mismatches.length
  invalidHeadsCount := witness.invalidHeads.length
  continuedChainsCount := witness.continuedChains.length
  unverifiedContinuationsCount := witness.unverifiedContinuations.length

end TrustPortal.Audit
