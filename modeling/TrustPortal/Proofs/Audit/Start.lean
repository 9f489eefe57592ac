import TrustPortal.Proofs.Audit.Scan
import TrustPortal.Lib.Except
import Mathlib.Data.List.Nodup
import Mathlib.Data.List.TakeWhile

/-!
# `TrustPortal.Proofs.Audit.Start`: where a verification begins and what a whole run returns

`chainRows` are the rows of the chain: every row of a table that starts with an ANCHOR row,
else the rows from the first hashed one on. `startHash` is the hash the chain starts from.
`verifyChain_unbounded` states the result of an unbounded run in these terms, and
`verifyChain_unbounded_error` when it raises: the driver cannot return the first row's
`changed_at`, or the details of an ANCHOR row are not a JSON object (`StartReadable`).
-/

set_option autoImplicit false

namespace TrustPortal.Proofs.Audit

open TrustPortal.Sql
open TrustPortal.Audit
open TrustPortal.Lib

/-- The table starts with an ANCHOR row. -/
def anchored (log : AuditLog) : Bool :=
  match log.first with
  | none => false
  | some first => decide (first.action = some "ANCHOR")

/-- The rows of the chain. -/
def chainRows (log : AuditLog) : List AuditRow :=
  if anchored log then log.rows else log.rows.dropWhile fun row => row.rowHash.isNone

/-- The hash the chain starts from. -/
def startHash (log : AuditLog) : Option String :=
  if anchored log then log.first.bind AuditRow.previousHash else some GENESIS_HASH

/-- The verifier can read the first row: the driver returns its `changed_at`, and the
details of an ANCHOR row are empty or a JSON object. -/
def StartReadable (client : Client) (log : AuditLog) : Prop :=
  ∀ first, log.first = some first →
    (∀ t, first.changedAt = some t → ∃ s, client.isoformat t = some s) ∧
    (first.action = some "ANCHOR" → truthy first.newValues →
      ∃ members, client.loads (first.newValues.getD "") = some (.object members))

/-- A first row that is no ANCHOR row is readable when its `changed_at` is. -/
theorem StartReadable.of_first {client : Client} {log : AuditLog} (first : AuditRow)
    {t : Timestamptz} (s : String) (hfirst : log.first = some first)
    (hanchor : first.action ≠ some "ANCHOR") (hchanged : first.changedAt = some t)
    (hiso : client.isoformat t = some s) : StartReadable client log := by
  intro other hother
  cases hfirst.symm.trans hother
  refine ⟨fun u hu => ⟨s, ?_⟩, fun h => absurd h hanchor⟩
  rw [← hiso, ← Option.some.inj (hchanged.symm.trans hu)]

/-- The arguments of an unbounded run from the start of the chain. -/
def unbounded (chunkSize : Nat) (witness : Option HeadScan)
    (verifier : Option (Anchor → AnchorVerification)) : VerifyArgs :=
  ⟨none, none, none, chunkSize, witness, verifier⟩

/-- The roots of a table: the genesis hash, and the start hash of an anchored table. -/
theorem mem_chainRoots {log : AuditLog} {hash : String} :
    hash ∈ chainRoots log ↔
      hash = GENESIS_HASH ∨ anchored log = true ∧ startHash log = some hash ∧ hash ≠ "" := by
  unfold chainRoots startHash anchored
  cases log.first with
  | none => simp
  | some first =>
    by_cases hanchor : first.action = some "ANCHOR"
    · simp only [hanchor, decide_true, Bool.true_and, if_true, Option.bind_some]
      generalize first.previousHash = prev
      cases prev with
      | none => simp
      | some prev =>
        by_cases hempty : prev = ""
        · simp [hempty, eq_comm]
        · simp only [truthy_some, hempty, ne_eq, not_false_eq_true, decide_true, if_true,
            Option.getD_some, List.mem_cons, List.not_mem_nil, or_false, Option.some.injEq,
            true_and]
          refine or_congr_right ⟨fun h => ⟨h.symm, h ▸ hempty⟩, fun h => h.1.symm⟩
    · simp [hanchor]

/-! ## The rows of the chain -/

theorem chainRows_eq_drop (log : AuditLog) :
    ∃ pre, log.rows = pre ++ chainRows log ∧ ∀ row ∈ pre, row.rowHash = none := by
  unfold chainRows
  split
  · exact ⟨[], rfl, by simp⟩
  · refine ⟨log.rows.takeWhile fun row => row.rowHash.isNone,
      List.takeWhile_append_dropWhile.symm, fun row hrow => ?_⟩
    simpa using List.mem_takeWhile_imp hrow

theorem chainRows_subset {log : AuditLog} {row : AuditRow} (h : row ∈ chainRows log) :
    row ∈ log.rows := by
  obtain ⟨pre, heq, _⟩ := chainRows_eq_drop log
  rw [heq]
  exact List.mem_append_right _ h

/-- A hashed row is a row of the chain. -/
theorem mem_chainRows_of_hashed {log : AuditLog} {row : AuditRow} (h : row ∈ log.rows)
    (hhash : row.rowHash ≠ none) : row ∈ chainRows log := by
  obtain ⟨pre, heq, hpre⟩ := chainRows_eq_drop log
  rw [heq] at h
  rcases List.mem_append.mp h with hmem | hmem
  · exact absurd (hpre row hmem) hhash
  · exact hmem

theorem chainRows_sorted (log : AuditLog) :
    (chainRows log).Pairwise fun a b => a.id < b.id := by
  obtain ⟨pre, heq, _⟩ := chainRows_eq_drop log
  have h := log.sorted
  rw [heq] at h
  exact (List.pairwise_append.mp h).2.1

/-- Two rows of a table with one id are the same row. -/
theorem eq_of_id_eq {log : AuditLog} {a b : AuditRow} (ha : a ∈ log.rows) (hb : b ∈ log.rows)
    (h : a.id = b.id) : a = b := by
  have hnodup : (log.rows.map AuditRow.id).Nodup :=
    List.pairwise_map.mpr (log.sorted.imp fun hlt => ne_of_lt hlt)
  exact List.inj_on_of_nodup_map hnodup ha hb h

/-- The rows from a row of the table on are the rows after the id before its id. -/
private theorem rowsAfter_sub_one {log : AuditLog} {p post : List AuditRow} {row : AuditRow}
    (h : log.rows = p ++ row :: post) : log.rowsAfter (row.id - 1) = row :: post := by
  have hsorted := log.sorted
  rw [h] at hsorted
  obtain ⟨_, hrow, hcross⟩ := List.pairwise_append.mp hsorted
  have hpre : p.filter (fun r => decide (row.id - 1 < r.id)) = [] := by
    refine List.filter_eq_nil_iff.mpr fun r hr => ?_
    have := hcross r hr row List.mem_cons_self
    simp only [decide_eq_true_eq]
    omega
  have hpost : (row :: post).filter (fun r => decide (row.id - 1 < r.id)) = row :: post := by
    refine List.filter_eq_self.mpr fun r hr => ?_
    rcases List.mem_cons.mp hr with rfl | hr
    · simp only [decide_eq_true_eq]
      omega
    · have := (List.pairwise_cons.mp hrow).1 r hr
      simp only [decide_eq_true_eq]
      omega
  rw [AuditLog.rowsAfter, h, List.filter_append, hpre, hpost, List.nil_append]

private theorem firstHashed_eq_none {log : AuditLog} :
    log.firstHashed = none ↔ log.rows.dropWhile (fun row => row.rowHash.isNone) = [] := by
  simp [AuditLog.firstHashed, List.find?_eq_none]

private theorem firstHashed_eq_some {log : AuditLog} {hashed : AuditRow}
    (h : log.firstHashed = some hashed) :
    ∃ pre post, log.rows = pre ++ hashed :: post ∧
      log.rows.dropWhile (fun row => row.rowHash.isNone) = hashed :: post := by
  obtain ⟨hhash, pre, post, heq, hpre⟩ := List.find?_eq_some_iff_append.mp h
  refine ⟨pre, post, heq, ?_⟩
  rw [heq, List.dropWhile_append_of_pos (by simpa using hpre), List.dropWhile_cons_of_neg]
  simpa [Option.isSome_iff_ne_none] using hhash

/-! ## `find_chain_start` -/

/-- What a run knows of a table with a chain: the scan starts at the chain's rows, from its
start hash, and an anchor is reported exactly for an anchored table. -/
structure StartsChain (log : AuditLog) (start : ChainStart) : Prop where
  unhashedEntries : start.unhashedEntries ≠ -1
  expected : start.expectedPreviousHash = startHash log
  anchor : start.anchor.isSome = anchored log
  rowsAfter : log.rowsAfter start.afterId = chainRows log

private theorem readChangedAt_readable {client : Client} {row : AuditRow}
    (h : ∀ t, row.changedAt = some t → ∃ s, client.isoformat t = some s) :
    ∃ changedAt, readChangedAt client row = .ok changedAt := by
  unfold readChangedAt
  split
  · exact ⟨_, rfl⟩
  · rename_i t ht
    obtain ⟨s, hs⟩ := h t ht
    exact ⟨some s, by rw [hs]⟩

private theorem readDetails_readable {client : Client} {row : AuditRow}
    (h : truthy row.newValues →
      ∃ members, client.loads (row.newValues.getD "") = some (.object members)) :
    ∃ details, readDetails client row = .ok details := by
  unfold readDetails
  by_cases htruthy : truthy row.newValues
  · obtain ⟨members, hloads⟩ := h htruthy
    exact ⟨members, by rw [if_pos htruthy, hloads]⟩
  · exact ⟨[], by rw [if_neg htruthy]⟩

/-- The start at an ANCHOR row. -/
private theorem findChainStart_anchor {client : Client} {log : AuditLog} {first : AuditRow}
    {rest : List AuditRow} (hrows : log.rows = first :: rest)
    (hanchor : first.action = some "ANCHOR") {changedAt : Option String}
    (hchanged : readChangedAt client first = .ok changedAt) {details : List (String × Json)}
    (hdetails : readDetails client first = .ok details) :
    ∃ start, findChainStart client log = .ok (some start) ∧ StartsChain log start := by
  have hfirst : log.first = some first := by rw [AuditLog.first, hrows]; rfl
  have hanch : anchored log = true := by simp [anchored, hfirst, hanchor]
  have hchain : chainRows log = log.rows := by rw [chainRows, if_pos hanch]
  refine ⟨⟨first.id - 1, first.previousHash, some (readAnchor first details changedAt), 0⟩,
    ?_, ⟨by simp, ?_, by simp [hanch], ?_⟩⟩
  · unfold findChainStart
    rw [hfirst]
    simp only [hchanged, hdetails, hanchor, if_true]
    rfl
  · rw [startHash, if_pos hanch, hfirst]
    rfl
  · rw [hchain, hrows]
    exact rowsAfter_sub_one (p := []) hrows

/-- The start at the first hashed row. -/
private theorem findChainStart_hashed {client : Client} {log : AuditLog} {first : AuditRow}
    (hfirst : log.first = some first) (hanchor : first.action ≠ some "ANCHOR")
    {changedAt : Option String} (hchanged : readChangedAt client first = .ok changedAt)
    {hashed : AuditRow} (hhashed : log.firstHashed = some hashed) :
    ∃ start, findChainStart client log = .ok (some start) ∧ StartsChain log start := by
  have hanch : anchored log = false := by simp [anchored, hfirst, hanchor]
  have hchain : chainRows log = log.rows.dropWhile fun row => row.rowHash.isNone := by
    simp [chainRows, hanch]
  obtain ⟨pre, post, heq, hdrop⟩ := firstHashed_eq_some hhashed
  refine ⟨⟨hashed.id - 1, some GENESIS_HASH, none,
    ((log.rows.filter fun row => decide (row.id < hashed.id)).length : Nat)⟩,
    ?_, ⟨?_, by simp [startHash, hanch], by simp [hanch], ?_⟩⟩
  · unfold findChainStart
    rw [hfirst]
    simp only [hchanged, hanchor, if_false, hhashed]
    rfl
  · show ((_ : Nat) : Int) ≠ -1
    omega
  · rw [hchain, hdrop]
    exact rowsAfter_sub_one heq

/-- What `find_chain_start` returns when it can read the first row: nothing for an empty
table, the count -1 for a table without hashes, and else the start of the chain. -/
theorem findChainStart_readable {client : Client} {log : AuditLog}
    (hread : StartReadable client log) :
    (log.rows = [] ∧ findChainStart client log = .ok none) ∨
    (chainRows log = [] ∧ ∃ start, findChainStart client log = .ok (some start) ∧
      start.unhashedEntries = -1) ∨
    (chainRows log ≠ [] ∧ ∃ start, findChainStart client log = .ok (some start) ∧
      StartsChain log start) := by
  cases hfirst : log.first with
  | none =>
    refine .inl ⟨List.head?_eq_none_iff.mp hfirst, ?_⟩
    unfold findChainStart
    rw [hfirst]
    rfl
  | some first =>
    obtain ⟨rest, hrows⟩ : ∃ rest, log.rows = first :: rest :=
      List.head?_eq_some_iff.mp hfirst
    obtain ⟨htime, hdetails⟩ := hread first hfirst
    obtain ⟨changedAt, hchanged⟩ := readChangedAt_readable htime
    refine .inr ?_
    by_cases hanchor : first.action = some "ANCHOR"
    · obtain ⟨details, hdetails⟩ := readDetails_readable (hdetails hanchor)
      have hanch : anchored log = true := by simp [anchored, hfirst, hanchor]
      exact .inr ⟨by simp [chainRows, hanch, hrows],
        findChainStart_anchor hrows hanchor hchanged hdetails⟩
    · have hanch : anchored log = false := by simp [anchored, hfirst, hanchor]
      have hchain : chainRows log = log.rows.dropWhile fun row => row.rowHash.isNone := by
        simp [chainRows, hanch]
      cases hhashed : log.firstHashed with
      | none =>
        refine .inl ⟨hchain.trans (firstHashed_eq_none.mp hhashed),
          ⟨0, some GENESIS_HASH, none, -1⟩, ?_, rfl⟩
        unfold findChainStart
        rw [hfirst]
        simp only [hchanged, hanchor, if_false, hhashed]
        rfl
      | some hashed =>
        obtain ⟨pre, post, _, hdrop⟩ := firstHashed_eq_some hhashed
        exact .inr ⟨by simp [hchain, hdrop],
          findChainStart_hashed hfirst hanchor hchanged hhashed⟩

private theorem readChangedAt_error {client : Client} {row : AuditRow} {e : VerifyError}
    (h : readChangedAt client row = .error e) :
    e = .unreadable "changed_at" := by
  unfold readChangedAt at h
  split at h
  · cases h
  · split at h <;> cases h
    rfl

private theorem readDetails_error {client : Client} {row : AuditRow} {e : VerifyError}
    (h : readDetails client row = .error e) :
    e = .unreadable "new_values" := by
  unfold readDetails at h
  split at h <;> cases h
  rfl

/-- `find_chain_start` raises when it cannot read the first row. -/
theorem findChainStart_unreadable {client : Client} {log : AuditLog}
    (hread : ¬StartReadable client log) :
    ∃ column, findChainStart client log = .error (.unreadable column) := by
  unfold findChainStart
  cases hfirst : log.first with
  | none => exact absurd (fun first h => by rw [hfirst] at h; cases h) hread
  | some first =>
    cases hchanged : readChangedAt client first with
    | error e =>
      obtain rfl := readChangedAt_error hchanged
      exact ⟨"changed_at", by simp only [hchanged]; rfl⟩
    | ok changedAt =>
      have htime : ∀ t, first.changedAt = some t → ∃ s, client.isoformat t = some s := by
        intro t ht
        rw [readChangedAt, ht] at hchanged
        cases hs : client.isoformat t with
        | none => simp [hs] at hchanged
        | some s => exact ⟨s, rfl⟩
      by_cases hanchor : first.action = some "ANCHOR"
      · cases hdetails : readDetails client first with
        | error e =>
          obtain rfl := readDetails_error hdetails
          exact ⟨"new_values", by simp only [hchanged, hanchor, if_true, hdetails]; rfl⟩
        | ok details =>
          refine absurd (fun first' h => ?_) hread
          cases hfirst.symm.trans h
          refine ⟨htime, fun _ htruthy => ?_⟩
          unfold readDetails at hdetails
          rw [if_pos htruthy] at hdetails
          split at hdetails
          · rename_i members hloads
            exact ⟨members, hloads⟩
          · cases hdetails
      · refine absurd (fun first' h => ?_) hread
        cases hfirst.symm.trans h
        exact ⟨htime, fun h => absurd h hanchor⟩

/-! ## An unbounded run -/

section
variable (sha : Sha256) {client : Client} {log : AuditLog} {chunkSize : Nat}
  (witness : Option HeadScan) (verifier : Option (Anchor → AnchorVerification))

/-- An unbounded run over a table with a chain begins at the start of the chain. -/
theorem beginning_unbounded {start : ChainStart} (hstart : findChainStart client log
    = .ok (some start)) (hchain : StartsChain log start) :
    beginning client log (unbounded chunkSize witness verifier)
      = .ok (.scan start.afterId start.expectedPreviousHash start.anchor
          start.unhashedEntries) := by
  unfold beginning
  simp only [unbounded, hstart, bind, Except.bind, if_neg hchain.unhashedEntries]
  rfl

/-- The result of an unbounded run over a table with a chain. -/
theorem verifyChain_unbounded (hchunk : 0 < chunkSize) (hread : StartReadable client log)
    (hchain : chainRows log ≠ []) :
    ∃ anchor unhashed scan,
      verifyChain sha client log (unbounded chunkSize witness verifier)
        = .ok (conclude log (unbounded chunkSize witness verifier) anchor unhashed scan true) ∧
      anchor.isSome = anchored log ∧
      scan.contentMismatchIds = alteredIds sha log.hasHashVersion (chainRows log) ∧
      scan.linkCandidates = mislinked (startHash log) (chainRows log) := by
  rcases findChainStart_readable hread with ⟨hnil, _⟩ | ⟨hnil, _⟩ | ⟨_, start, hstart, hstarts⟩
  · obtain ⟨pre, heq, _⟩ := chainRows_eq_drop log
    rw [hnil] at heq
    exact absurd (List.append_eq_nil_iff.mp heq.symm).2 hchain
  · exact absurd hnil hchain
  · have hbegin := @beginning_unbounded client log chunkSize witness verifier start
      hstart hstarts
    refine ⟨start.anchor, start.unhashedEntries,
      finalScan sha log (unbounded chunkSize witness verifier) start.afterId
        start.expectedPreviousHash, ?_, hstarts.anchor, ?_, ?_⟩
    · rw [verifyChain_scan sha hchunk hbegin]
      simp [unbounded, within]
    · simp [within, unbounded, hstarts.rowsAfter]
    · simp [within, unbounded, hstarts.rowsAfter, hstarts.expected]

/-- An unbounded run that returns something other than `empty` and `no_hashes` could read
the first row, and the table has a chain. -/
theorem readable_of_verifyChain {sha : Sha256} {witness : Option HeadScan}
    {verifier : Option (Anchor → AnchorVerification)} {result : Verification}
    (h : verifyChain sha client log (unbounded chunkSize witness verifier) = .ok result)
    (hempty : result.status ≠ .empty) (hnone : result.status ≠ .noHashes) :
    StartReadable client log ∧ chainRows log ≠ [] := by
  have hread : StartReadable client log := by
    by_contra hread
    obtain ⟨column, herror⟩ := findChainStart_unreadable hread
    simp [verifyChain, beginning, unbounded, herror, bind, Except.bind] at h
  refine ⟨hread, fun hnil => ?_⟩
  rcases findChainStart_readable hread with ⟨_, hstart⟩ | ⟨_, start, hstart, hunhashed⟩
    | ⟨hne, _⟩
  · simp only [verifyChain, beginning, unbounded, hstart, bind, Except.bind, pure,
      Except.pure, Except.ok.injEq] at h
    exact hempty (by rw [← h]; rfl)
  · simp only [verifyChain, beginning, unbounded, hstart, bind, Except.bind, pure,
      Except.pure, if_pos hunhashed, Except.ok.injEq] at h
    exact hnone (by rw [← h]; rfl)
  · exact hne hnil

/-- A run that cannot read the first row raises. -/
theorem verifyChain_unbounded_error (chunkSize : Nat) (hread : ¬StartReadable client log) :
    ∃ column, verifyChain sha client log (unbounded chunkSize witness verifier)
      = .error (.unreadable column) := by
  obtain ⟨column, herror⟩ := findChainStart_unreadable hread
  exact ⟨column, by simp [verifyChain, beginning, unbounded, herror, bind, Except.bind]⟩

end

end TrustPortal.Proofs.Audit
