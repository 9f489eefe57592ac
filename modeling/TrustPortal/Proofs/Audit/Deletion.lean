import TrustPortal.Proofs.Audit.Clean
import Mathlib.Data.List.MinMax

/-!
# `TrustPortal.Proofs.Audit.Deletion`: which removed rows a verification notices

A removed row is noticed when a later row still names its hash and nothing else in the rest
of the table answers to that name (`LosesPredecessor`): the later row is then a true break.
In a table without forks every row but the newest is in this position, as its successor
names it (`losesPredecessor_of_valid`). The two cases are `removed_row_detected`.

With forks there are rows that no later row names, and the verification tolerates their
removal: `fork_leaf_removed`.
-/

set_option autoImplicit false

namespace TrustPortal.Proofs.Audit

open TrustPortal.Sql
open TrustPortal.Audit
open TrustPortal.Lib
open TrustPortal.Lib.HashChain

/-- A later row names the hash of `row` as its previous hash, and in the rest of the table no
row before that one carries the hash, nor is it a root. -/
def LosesPredecessor (log : AuditLog) (row : AuditRow) : Prop :=
  ∃ later ∈ log.rows, row.id < later.id ∧ later.previousHash = row.rowHash ∧
    (∀ other ∈ log.rows, other.id < later.id → other.rowHash = row.rowHash → other = row) ∧
    ∀ hash, row.rowHash = some hash → hash ∉ chainRoots (log.removeRow row.id)

/-- The hash the chain starts from has 64 characters, and neither it nor the genesis hash is
the hash of a row. -/
def StartsFresh (log : AuditLog) : Prop :=
  ∃ start, startHash log = some start ∧ start.length = 64 ∧
    ∀ row ∈ log.rows, row.rowHash ≠ some start ∧ row.rowHash ≠ some GENESIS_HASH

/-- Only the first row can be an ANCHOR row. -/
def AnchorsFirst (log : AuditLog) : Prop :=
  ∀ row ∈ log.rows.tail, row.action ≠ some "ANCHOR"

/-! ## Mislinked rows -/

theorem carriedHash_cases (e : Option String) (rows : List AuditRow) :
    carriedHash e rows = e ∨ ∃ row ∈ rows, carriedHash e rows = row.rowHash := by
  induction rows using List.reverseRecOn with
  | nil => exact .inl rfl
  | append_singleton rows row ih =>
    have hstep : carriedHash e (rows ++ [row])
        = if truthy row.rowHash then row.rowHash else carriedHash e rows := by
      rw [carriedHash_append]
      rfl
    rw [hstep]
    split
    · exact .inr ⟨row, by simp, rfl⟩
    · exact ih.imp_right fun ⟨other, hother, heq⟩ =>
        ⟨other, List.mem_append_left _ hother, heq⟩

/-- A row that is not linked where it stands is a candidate. -/
theorem mem_mislinked {e : Option String} {pre : List AuditRow} {row : AuditRow}
    (post : List AuditRow) (h : isLinked (carriedHash e pre) row = false) :
    (row.id, if truthy row.rowHash then row.previousHash else none)
      ∈ mislinked e (pre ++ row :: post) := by
  rw [mislinked_append, mislinked, if_neg (by simp [h])]
  exact List.mem_append_right _ List.mem_cons_self

theorem earliestId_mem {log : AuditLog} {hash : String} {id : Int}
    (h : earliestId log hash = some id) :
    ∃ row ∈ log.rows, row.rowHash = some hash ∧ row.id = id := by
  obtain ⟨row, hrow, hid⟩ := List.mem_map.mp (List.min?_mem h)
  obtain ⟨hmem, hhash⟩ := List.mem_filter.mp hrow
  exact ⟨row, hmem, by simpa using hhash, hid⟩

/-- A candidate whose previous hash is no root and no hash of an earlier row is no fork. -/
theorem isFork_eq_false {log : AuditLog} {id : Int} {prev : Option String}
    (hroot : ∀ hash, prev = some hash → hash ∉ chainRoots log)
    (hearlier : ∀ row ∈ log.rows, row.id < id → row.rowHash ≠ prev) :
    isFork log (id, prev) = false := by
  cases prev with
  | none => rfl
  | some hash =>
    have hlate : ¬(earliestId log hash).getD id < id := by
      cases hfound : earliestId log hash with
      | none => simp
      | some first =>
        obtain ⟨row, hrow, hhash, rfl⟩ := earliestId_mem hfound
        exact fun hlt => hearlier row hrow hlt hhash
    simp [isFork, hroot hash rfl, hlate]

/-- A true break makes a run `broken`. -/
theorem conclude_broken {log : AuditLog} (args : VerifyArgs) (anchor : Option Anchor)
    (unhashed : Int) {scan : Scan} (complete : Bool) {candidate : Int × Option String}
    (hmem : candidate ∈ scan.linkCandidates) (hfork : isFork log candidate = false) :
    (conclude log args anchor unhashed scan complete).status = .broken := by
  have hbreak : (classifyLinks log scan.linkCandidates).2 ≠ [] := by
    refine List.ne_nil_of_mem (List.mem_map.mpr ⟨candidate, List.mem_filter.mpr ⟨hmem, ?_⟩,
      rfl⟩)
    simp [hfork]
  exact if_pos (.inr (.inl hbreak))

/-! ## The table after the removal -/

theorem mem_removeRow {log : AuditLog} {id : Int} {row : AuditRow} :
    row ∈ (log.removeRow id).rows ↔ row ∈ log.rows ∧ row.id ≠ id := by
  simp [AuditLog.removeRow, List.mem_filter]

section
variable {sha : Sha256} {client : Client} {log : AuditLog} {chunkSize : Nat}
  {witness : Option HeadScan} {verifier : Option (Anchor → AnchorVerification)}
  {run : Verification}

/-- A run that is not `broken`: its chain has no altered row and every link that is not to the
row before is a fork. -/
theorem chain_of_not_broken (hchunk : 0 < chunkSize)
    (hrun : verifyChain sha client log (unbounded chunkSize witness verifier) = .ok run)
    (hstatus : run.status = .valid ∨ run.status = .intactWithForks) :
    StartReadable client log ∧ alteredIds sha log.hasHashVersion (chainRows log) = [] ∧
      (∀ candidate ∈ mislinked (startHash log) (chainRows log), isFork log candidate = true) ∧
      (run.status = .valid → mislinked (startHash log) (chainRows log) = []) := by
  obtain ⟨hread, hchain⟩ := readable_of_verifyChain hrun
    (by rcases hstatus with h | h <;> rw [h] <;> decide)
    (by rcases hstatus with h | h <;> rw [h] <;> decide)
  obtain ⟨anchor, unhashed, scan, hok, _, hmismatches, hlinks⟩ :=
    verifyChain_unbounded sha witness verifier hchunk hread hchain
  rw [hrun, Except.ok.injEq] at hok
  subst hok
  obtain ⟨h₁, _⟩ := conclude_not_broken (by rcases hstatus with h | h <;> rw [h] <;> decide)
  refine ⟨hread, by rw [← hmismatches, h₁], fun candidate hmem => ?_, fun hvalid => ?_⟩
  · by_contra hfork
    have hbroken := conclude_broken (unbounded chunkSize witness verifier) anchor unhashed true
      (hlinks ▸ hmem) (by simpa using hfork)
    rcases hstatus with h | h <;> rw [h] at hbroken <;> cases hbroken
  · rw [← hlinks, (conclude_valid hvalid).2.1]

/-- Every row of the chain of such a run has a hash. -/
theorem hashed_of_not_broken
    (hforks : ∀ candidate ∈ mislinked (startHash log) (chainRows log),
      isFork log candidate = true) {row : AuditRow} (hrow : row ∈ chainRows log) :
    row.rowHash ≠ none := by
  intro hnone
  obtain ⟨pre, post, heq⟩ := List.append_of_mem hrow
  have hmem := mem_mislinked post (show isLinked (carriedHash (startHash log) pre) row = false by
    simp [isLinked, hnone])
  rw [← heq, hnone, truthy_none] at hmem
  exact absurd (hforks _ hmem) (by simp [isFork])

/-- A row after a row of the chain is a row of the chain. -/
theorem mem_chainRows_of_lt {row later : AuditRow} (hrow : row ∈ chainRows log)
    (hlater : later ∈ log.rows) (hlt : row.id < later.id) : later ∈ chainRows log := by
  obtain ⟨pre, heq, _⟩ := chainRows_eq_drop log
  have hsorted := log.sorted
  rw [heq] at hlater hsorted
  rcases List.mem_append.mp hlater with hmem | hmem
  · have := (List.pairwise_append.mp hsorted).2.2 later hmem row hrow
    omega
  · exact hmem

/-- A row that loses its predecessor is a true break: the run is `broken`. -/
theorem broken_of_losesPredecessor {row : AuditRow} (hchunk : 0 < chunkSize)
    (hsealed : Sealed sha log.hasHashVersion row)
    (hhashed : ∀ later ∈ log.rows, row.id < later.id → later.rowHash ≠ none)
    (hloses : LosesPredecessor log row)
    (hread : StartReadable client (log.removeRow row.id)) :
    ∃ run, verifyChain sha client (log.removeRow row.id) (unbounded chunkSize witness verifier)
      = .ok run ∧ run.status = .broken := by
  obtain ⟨later, hlater, hlt, hlink, hother, hroot⟩ := hloses
  obtain ⟨t, _, hhash⟩ := hsealed
  set rest := log.removeRow row.id with hrest
  have hmem : later ∈ chainRows rest := mem_chainRows_of_hashed
    (mem_removeRow.mpr ⟨hlater, by omega⟩) (hhashed later hlater hlt)
  have hearlier : ∀ other ∈ rest.rows, other.id < later.id → other.rowHash ≠ row.rowHash := by
    intro other hmem' hid heq
    obtain ⟨hold, hne⟩ := mem_removeRow.mp hmem'
    exact hne (by rw [hother other hold hid heq])
  obtain ⟨pre, post, heq⟩ := List.append_of_mem hmem
  have hunlinked : isLinked (carriedHash (startHash rest) pre) later = false := by
    rw [isLinked, Bool.and_eq_false_iff, decide_eq_false_iff_not, hlink]
    refine .inr fun hexpected => ?_
    rcases carriedHash_cases (startHash rest) pre with hstart | ⟨other, hpre, hcarried⟩
    · -- The expected hash is the start hash, which is a root.
      rw [hstart, hhash] at hexpected
      refine hroot _ hhash (mem_chainRoots.mpr ?_)
      cases hanchor : anchored rest with
      | true => exact .inr ⟨rfl, hexpected.symm, (sha.hexOfText_isHexDigest t).ne_empty⟩
      | false =>
        rw [startHash, hanchor] at hexpected
        exact .inl (Option.some.inj hexpected)
    · -- The expected hash is that of an earlier row.
      have hsorted := chainRows_sorted rest
      rw [heq] at hsorted
      have hid := (List.pairwise_append.mp hsorted).2.2 other hpre later List.mem_cons_self
      refine hearlier other (chainRows_subset ?_) hid (hcarried.symm.trans hexpected.symm)
      rw [heq]
      exact List.mem_append_left _ hpre
  have hfork : isFork rest (later.id, if truthy later.rowHash then later.previousHash
      else none) = false := by
    split
    · rw [hlink]
      exact isFork_eq_false hroot hearlier
    · rfl
  obtain ⟨anchor, unhashed, scan, hok, _, _, hlinks⟩ :=
    verifyChain_unbounded sha witness verifier hchunk hread (List.ne_nil_of_mem hmem)
  refine ⟨_, hok, conclude_broken _ _ _ _ ?_ hfork⟩
  rw [hlinks, heq]
  exact mem_mislinked post hunlinked

/-- An anchored rest of a table starts from the table's own start hash, when only the first row
can be an ANCHOR row. -/
theorem startHash_removeRow {row : AuditRow} (hanchors : AnchorsFirst log)
    (hanchor : anchored (log.removeRow row.id) = true) :
    startHash (log.removeRow row.id) = startHash log := by
  have hfirst : ∃ first, (log.removeRow row.id).first = some first ∧
      first.action = some "ANCHOR" := by
    unfold anchored at hanchor
    split at hanchor
    · cases hanchor
    · rename_i first hfirst
      exact ⟨first, hfirst, by simpa using hanchor⟩
  obtain ⟨first, hfirst, haction⟩ := hfirst
  have hmem : first ∈ log.rows := (mem_removeRow.mp (List.mem_of_head? hfirst)).1
  cases hrows : log.rows with
  | nil => simp [hrows] at hmem
  | cons head tail =>
    rw [hrows] at hmem
    rcases List.mem_cons.mp hmem with rfl | htail
    · -- The first row stayed.
      have hsame : log.first = some first := by rw [AuditLog.first, hrows]; rfl
      have hanch : anchored log = true := by simp [anchored, hsame, haction]
      rw [startHash, startHash, if_pos hanchor, if_pos hanch, hfirst, hsame]
    · exact absurd haction (hanchors first (by rw [hrows]; exact htail))

/-- In a table without forks a row of the chain other than the newest loses its predecessor
when it is removed: its successor names it, and no hash of the chain repeats. -/
theorem losesPredecessor_of_valid {row last : AuditRow}
    (haltered : alteredIds sha log.hasHashVersion (chainRows log) = [])
    (hlinks : mislinked (startHash log) (chainRows log) = [])
    (hsha : CollisionFree sha (rowTexts log)) (hfresh : StartsFresh log)
    (hanchors : AnchorsFirst log) (hrow : row ∈ chainRows log) (hlast : log.last = some last)
    (hne : row ≠ last) : LosesPredecessor log row := by
  obtain ⟨start, hstart, hlen, hhashes⟩ := hfresh
  obtain ⟨hsealed, hlinked⟩ := linked_of_clean haltered hlinks
  rw [hstart] at hlinked
  have htexts : ∀ r ∈ chainRows log, ∀ t, hashedForm log.hasHashVersion r = some t →
      t ∈ rowTexts log := fun r hr t ht => ⟨r, chainRows_subset hr, ht⟩
  have hdigests := prevIsDigest_of_linked hlen hsealed hlinked
  have hnodup : ((chainRows log).map AuditRow.rowHash).Nodup :=
    hlinked.nodup_hash
      (commitsPrev_of_sealed hsha hsealed hsealed htexts htexts hdigests hdigests)
      fun hmem => by
        obtain ⟨r, hr, heq⟩ := List.mem_map.mp hmem
        exact (hhashes r (chainRows_subset hr)).1 heq
  obtain ⟨pre, post, heq⟩ := List.append_of_mem hrow
  have hsorted := chainRows_sorted log
  rw [heq] at hsorted hlinked
  -- The successor of `row`: the newest row comes after it.
  obtain ⟨later, rest, rfl⟩ : ∃ later rest, post = later :: rest := by
    cases post with
    | cons later rest => exact ⟨later, rest, rfl⟩
    | nil =>
      obtain ⟨before, hrows, _⟩ := chainRows_eq_drop log
      rw [AuditLog.last, hrows, heq, ← List.append_assoc, List.getLast?_concat,
        Option.some_inj] at hlast
      exact absurd hlast hne
  have hlater : later ∈ chainRows log := by rw [heq]; simp
  have hlt : row.id < later.id := by
    have htail := (List.pairwise_append.mp hsorted).2.1
    exact (List.pairwise_cons.mp htail).1 later List.mem_cons_self
  refine ⟨later, chainRows_subset hlater, hlt, ?_, fun other hother _ hsame => ?_,
    fun hash hhash hroot => ?_⟩
  · rw [show pre ++ row :: later :: rest = (pre ++ [row]) ++ later :: rest by simp] at hlinked
    have hnext := (linked_append.mp hlinked).2.1
    rwa [head_concat] at hnext
  · have hchain : other ∈ chainRows log := mem_chainRows_of_hashed hother
      (hsame ▸ (hsealed row hrow).rowHash_ne_none)
    exact List.inj_on_of_nodup_map hnodup hchain hrow hsame
  · rcases mem_chainRoots.mp hroot with rfl | ⟨hanchor, hrestart, _⟩
    · exact (hhashes row (chainRows_subset hrow)).2 hhash
    · refine (hhashes row (chainRows_subset hrow)).1 (hhash.trans ?_)
      rw [← hstart, ← hrestart]
      exact startHash_removeRow hanchors hanchor

/-- Which removals of a row are detected. Take a table that a run finds `valid` or
`intact_with_forks`, and remove a hashed row. The run over the rest returns `broken` when the
row is missed by a later one. If the run found no fork, the row was not the newest, the chain
starts fresh and only the first row can be an ANCHOR row, this is always so. -/
theorem removed_row_detected {row last : AuditRow} {witness' : Option HeadScan}
    {verifier' : Option (Anchor → AnchorVerification)} (hchunk : 0 < chunkSize)
    (hrun : verifyChain sha client log (unbounded chunkSize witness verifier) = .ok run)
    (hstatus : run.status = .valid ∨ run.status = .intactWithForks) (hrow : row ∈ log.rows)
    (hhash : row.rowHash ≠ none) (hlast : log.last = some last) (hne : row ≠ last)
    (hread : StartReadable client (log.removeRow row.id))
    (hmissed : LosesPredecessor log row ∨ run.status = .valid ∧ StartsFresh log ∧
      AnchorsFirst log ∧ CollisionFree sha (rowTexts log)) :
    ∃ run', verifyChain sha client (log.removeRow row.id)
      (unbounded chunkSize witness' verifier') = .ok run' ∧ run'.status = .broken := by
  obtain ⟨_, haltered, hforks, hvalid⟩ := chain_of_not_broken hchunk hrun hstatus
  have hchain := mem_chainRows_of_hashed hrow hhash
  have hsealed : Sealed sha log.hasHashVersion row := by
    refine sealed_of_not_altered hhash ?_
    by_contra hnot
    have hmem := (mem_alteredIds hchain).mpr (by simpa using hnot)
    rw [haltered] at hmem
    cases hmem
  have hloses : LosesPredecessor log row := by
    rcases hmissed with h | ⟨hstatus, hfresh, hanchors, hsha⟩
    · exact h
    · exact losesPredecessor_of_valid haltered (hvalid hstatus) hsha hfresh hanchors hchain
        hlast hne
  exact broken_of_losesPredecessor hchunk hsealed (fun later hlater hlt =>
    hashed_of_not_broken hforks (mem_chainRows_of_lt hchain hlater hlt)) hloses hread

end

/-! ## A removal that is detected and one that is not -/

set_option maxRecDepth 8000 in
/-- The first of two linked rows is missed. -/
theorem removed_control_detected :
    ∃ run, verifyChain twoControlsSha controlClient (twoControlsLog.removeRow 1)
      (unbounded 20000 none none) = .ok run ∧ run.status = .broken := by
  obtain ⟨run, hrun, hvalid, _⟩ := findings_eq_some
    (show findings (verifyChain twoControlsSha controlClient twoControlsLog
      (unbounded 20000 none none)) = some (.valid, [], [], []) by decide)
  have hread : StartReadable controlClient (twoControlsLog.removeRow controlRow.id) :=
    .of_first secondControlRow "2026-09-28T12:00:00.123456+00:00" (by decide) (by decide) rfl
      (by decide)
  refine removed_row_detected (by decide) hrun (.inl hvalid) (show controlRow ∈ _ by decide)
    (by decide) (show _ = some secondControlRow by decide) (by decide) hread (.inl ?_)
  refine ⟨secondControlRow, by decide, by decide, by decide, by decide, fun hash hhash => ?_⟩
  cases hhash
  decide

/-- A row of the unserialized trigger of migration 014, which inserts a control. -/
def unserializedRow (id : Int) (control previousHash rowHash : String) : AuditRow where
  id := id
  tableName := some "controls"
  recordId := some control
  action := some "INSERT"
  oldValues := none
  newValues := some ("\x7b\"id\": \"" ++ control ++ "\"\x7d")
  changedBy := some "m1"
  changedAt := some (.micros 1790596800123456)
  previousHash := some previousHash
  rowHash := some rowHash
  hashVersion := none

/-- Two writers read the same chain head: the rows 2 and 3 both name row 1. Row 4 names
row 3. -/
def forkedLog : AuditLog where
  hasHashVersion := true
  rows := [
    unserializedRow 1 "c1" GENESIS_HASH
      "9b9498578ab97595d18eacc36e4c810e51f9b9e50fdda84f5c4c1a7b34b44316",
    unserializedRow 2 "c2" "9b9498578ab97595d18eacc36e4c810e51f9b9e50fdda84f5c4c1a7b34b44316"
      "a7ce279c263775acd0e3edc93119a05e17b5f1c9c0c261381738ac4779a2e249",
    unserializedRow 3 "c3" "9b9498578ab97595d18eacc36e4c810e51f9b9e50fdda84f5c4c1a7b34b44316"
      "428892696f6e85e93f452c04c100e775455b1d7018243b6af90fb4c3a170f453",
    unserializedRow 4 "c4" "428892696f6e85e93f452c04c100e775455b1d7018243b6af90fb4c3a170f453"
      "b2363f20c184b7f80f2f83ab01db2c9902fdf34a9d959ffa4be80e0f3c2335b4"]
  sorted := by decide

/-- The digests of the texts of the four rows. -/
def forkedSha : Sha256 := .ofDigests
  [("0000000000000000000000000000000000000000000000000000000000000000"
      ++ "controlsc1INSERT\x7b\"id\": \"c1\"\x7d",
    "9b9498578ab97595d18eacc36e4c810e51f9b9e50fdda84f5c4c1a7b34b44316"),
   ("9b9498578ab97595d18eacc36e4c810e51f9b9e50fdda84f5c4c1a7b34b44316"
      ++ "controlsc2INSERT\x7b\"id\": \"c2\"\x7d",
    "a7ce279c263775acd0e3edc93119a05e17b5f1c9c0c261381738ac4779a2e249"),
   ("9b9498578ab97595d18eacc36e4c810e51f9b9e50fdda84f5c4c1a7b34b44316"
      ++ "controlsc3INSERT\x7b\"id\": \"c3\"\x7d",
    "428892696f6e85e93f452c04c100e775455b1d7018243b6af90fb4c3a170f453"),
   ("428892696f6e85e93f452c04c100e775455b1d7018243b6af90fb4c3a170f453"
      ++ "controlsc4INSERT\x7b\"id\": \"c4\"\x7d",
    "b2363f20c184b7f80f2f83ab01db2c9902fdf34a9d959ffa4be80e0f3c2335b4")] (by decide)

set_option maxRecDepth 16000 in
/-- The removal of row 2, a hashed row of a table with the status `intact_with_forks` and not
its newest, leaves a table with the status `valid`. -/
theorem fork_leaf_removed :
    (∃ run, verifyChain forkedSha controlClient forkedLog (unbounded 20000 none none) = .ok run
      ∧ run.status = .intactWithForks) ∧
    (∃ row ∈ forkedLog.rows, row.id = 2 ∧ row.rowHash ≠ none ∧ forkedLog.last ≠ some row) ∧
    CollisionFree forkedSha (rowTexts forkedLog) ∧
    ∃ run, verifyChain forkedSha controlClient (forkedLog.removeRow 2)
      (unbounded 20000 none none) = .ok run ∧ run.status = .valid := by
  obtain ⟨run, hrun, hforks, _⟩ := findings_eq_some
    (show findings (verifyChain forkedSha controlClient forkedLog (unbounded 20000 none none))
      = some (.intactWithForks, [], [3], []) by decide)
  obtain ⟨run', hrun', hvalid, _⟩ := findings_eq_some
    (show findings (verifyChain forkedSha controlClient (forkedLog.removeRow 2)
      (unbounded 20000 none none)) = some (.valid, [], [], []) by decide)
  refine ⟨⟨run, hrun, hforks⟩, by decide, ?_, run', hrun', hvalid⟩
  exact .of_list (forkedLog.rows.filterMap (hashedForm true)) (by decide)
    fun t ht => mem_rowTexts.mp ht

end TrustPortal.Proofs.Audit
