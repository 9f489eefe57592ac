import TrustPortal.Proofs.Audit.Clean
import Mathlib.Data.List.Dedup

/-!
# `TrustPortal.Proofs.Audit.PublishedHeads`: a published head fixes the history before it

`GenesisChain` is the invariant of the trigger: the hashed rows come after the unhashed
ones, they are sealed, and they are linked from the genesis hash on. `genesisChain_run`
proves it for every list of firings.

A later table can be any table. Suppose a run over it with the published heads returns
`valid`. Then its chain is sealed and linked from the genesis hash too (`linked_of_clean`),
and it holds the published hash under the published id (`head_stored`). Two chains from one
start that end in one hash carry the same hashes (`Linked.map_hash_eq`), so the hashes up to
the head are the published ones: `head_fixes_history`.
-/

set_option autoImplicit false

namespace TrustPortal.Proofs.Audit

open TrustPortal.Sql
open TrustPortal.Audit
open TrustPortal.Lib
open TrustPortal.Lib.HashChain

/-! ## The chain the trigger writes -/

/-- The hashed rows of a table are a chain from the genesis hash, after the unhashed ones. -/
structure GenesisChain (sha : Sha256) (log : AuditLog) (unhashed chain : List AuditRow) :
    Prop where
  rows : log.rows = unhashed ++ chain
  unhashed : ∀ row ∈ unhashed, row.rowHash = none
  sealed : ∀ row ∈ chain, Sealed sha log.hasHashVersion row
  linked : RowsLinked (some GENESIS_HASH) chain

section
variable {sha : Sha256} {log : AuditLog} {unhashed chain : List AuditRow}

/-- The hash of the last row is the head of the chain. -/
theorem GenesisChain.lastRowHash (h : GenesisChain sha log unhashed chain) :
    some (lastRowHash log) = head AuditRow.rowHash (some GENESIS_HASH) chain := by
  rcases List.eq_nil_or_concat chain with rfl | ⟨rest, last, rfl⟩
  · -- The last row, if there is one, has no hash.
    have hnone : log.last.bind AuditRow.rowHash = none := by
      cases hlast : log.last with
      | none => rfl
      | some last =>
        refine h.unhashed last ?_
        have hmem := List.mem_of_getLast? hlast
        rwa [h.rows, List.append_nil] at hmem
    rw [TrustPortal.Audit.lastRowHash, hnone, head_nil]
    rfl
  · rw [List.concat_eq_append] at h ⊢
    have hlast : log.last = some last := by
      rw [AuditLog.last, h.rows, ← List.append_assoc, List.getLast?_concat]
    obtain ⟨t, _, hhash⟩ := h.sealed last (by simp)
    rw [head_concat, TrustPortal.Audit.lastRowHash, hlast, Option.bind_some, hhash]
    rfl

/-- The hash a next row names has 64 characters. -/
theorem GenesisChain.length_lastRowHash (h : GenesisChain sha log unhashed chain) :
    (TrustPortal.Audit.lastRowHash log).length = 64 := by
  have hhead := h.lastRowHash
  rcases List.eq_nil_or_concat chain with rfl | ⟨rest, last, rfl⟩
  · rw [head_nil, Option.some_inj] at hhead
    rw [hhead, length_GENESIS_HASH]
  · rw [List.concat_eq_append] at h hhead
    obtain ⟨t, _, hhash⟩ := h.sealed last (by simp)
    rw [head_concat, hhash, Option.some_inj] at hhead
    rw [hhead, sha.length_hexOfText]

/-- A row the trigger writes extends the chain. -/
theorem GenesisChain.append (h : GenesisChain sha log unhashed chain) {new : NewRow log}
    (hwritten : Written sha log new.row) :
    GenesisChain sha (log.append new) unhashed (chain ++ [new.row]) := by
  obtain ⟨prev, hprev, hrow⟩ := hwritten.previousHash
  rw [varchar_of_le (le_of_eq h.length_lastRowHash)] at hprev
  cases hprev
  refine ⟨?_, h.unhashed, fun row hmem => ?_, linked_concat.mpr ⟨h.linked, ?_⟩⟩
  · show log.rows ++ [new.row] = _
    rw [h.rows, List.append_assoc]
  · show Sealed sha log.hasHashVersion row
    rcases List.mem_append.mp hmem with hold | hnew
    · exact h.sealed row hold
    · rw [List.mem_singleton.mp hnew, hwritten.hasHashVersion]
      exact hwritten.hashed
  · rw [hrow, h.lastRowHash]

end

/-- One firing keeps the chain. -/
theorem genesisChain_step {sha : Sha256} {log : AuditLog} (call : TriggerCall)
    (h : ∃ unhashed chain, GenesisChain sha log unhashed chain) :
    ∃ unhashed chain, GenesisChain sha (afterTrigger sha log call) unhashed chain := by
  obtain ⟨unhashed, chain, h⟩ := h
  unfold afterTrigger
  split
  · rename_i new hnew
    exact ⟨unhashed, _, h.append (auditTrigger_spec hnew)⟩
  · exact ⟨unhashed, chain, h⟩
  · exact ⟨unhashed, chain, h⟩

/-- Every table that firings of the trigger write after rows without a hash holds a chain from
the genesis hash. -/
theorem genesisChain_run {sha : Sha256} (calls : List TriggerCall) {log : AuditLog}
    (h : ∃ unhashed chain, GenesisChain sha log unhashed chain) :
    ∃ unhashed chain, GenesisChain sha (runTriggers sha log calls) unhashed chain := by
  induction calls generalizing log with
  | nil => exact h
  | cons call rest ih => exact ih (genesisChain_step call h)

theorem genesisChain_start {sha : Sha256} {log : AuditLog}
    (h : ∀ row ∈ log.rows, row.rowHash = none) :
    ∃ unhashed chain, GenesisChain sha log unhashed chain :=
  ⟨log.rows, [], by simp, h, by simp, trivial⟩

/-! ## The heads of a `valid` run -/

/-- A foreign chain is a mismatch when there is no anchor. -/
private theorem resolveForeignChain_none (witness : Witness) (chain : ForeignChain) :
    ∃ mismatch, (resolveForeignChain none none witness chain).mismatches
      = witness.mismatches ++ [mismatch] := by
  unfold resolveForeignChain
  simp

private theorem foldl_resolveForeignChain_length (chains : List ForeignChain)
    (witness : Witness) :
    (chains.foldl (resolveForeignChain none none) witness).mismatches.length
      = witness.mismatches.length + chains.length := by
  induction chains generalizing witness with
  | nil => rfl
  | cons chain rest ih =>
    obtain ⟨mismatch, hmismatch⟩ := resolveForeignChain_none witness chain
    rw [List.foldl_cons, ih, hmismatch]
    simp only [List.length_append, List.length_cons, List.length_nil]
    omega

/-- A chain id of a scan that is not the current chain's makes a foreign chain. -/
private theorem foreignChains_ne_nil {log : AuditLog} {scan : HeadScan} {entry : HeadEntry}
    (hentry : entry ∈ scan.valid) (hchain : some entry.chainId ≠ chainId log) :
    (checkHeads log scan).foreignChains ≠ [] := by
  have hid : entry.chainId ∈ foreignIds log scan := by
    rw [foreignIds, List.mem_insertionSort, List.mem_filter, List.mem_dedup]
    exact ⟨List.mem_map_of_mem hentry, by simpa using hchain⟩
  have hfound : ∃ chain, foreignChain scan entry.chainId = some chain := by
    unfold foreignChain
    split
    · rename_i hnil
      have := List.filter_eq_nil_iff.mp hnil entry hentry
      simp at this
    · exact ⟨_, rfl⟩
  obtain ⟨chain, hchain⟩ := hfound
  exact List.ne_nil_of_mem (List.mem_filterMap.mpr ⟨_, hid, hchain⟩)

/-- Without an anchor and without a mismatch, every published head is stored: the row with its
id carries its hash. -/
theorem head_stored {log : AuditLog} {scan : HeadScan} {entry : HeadEntry}
    (hentry : entry ∈ scan.valid)
    (hnone : (report (resolveForeignChains (checkHeads log scan) none none)).mismatchesCount
      = 0) :
    ∃ row ∈ log.rows, row.id = entry.head.id ∧ row.rowHash = some entry.head.rowHash := by
  have hcount : (checkHeads log scan).mismatches.length
      + (checkHeads log scan).foreignChains.length = 0 := by
    rw [← hnone]
    exact (foldl_resolveForeignChain_length (checkHeads log scan).foreignChains
      { checkHeads log scan with foreignChains := [] }).symm
  have hmismatches := List.length_eq_zero_iff.mp (Nat.add_eq_zero_iff.mp hcount).1
  have hforeign := List.length_eq_zero_iff.mp (Nat.add_eq_zero_iff.mp hcount).2
  have hours : some entry.chainId = chainId log := by
    by_contra hne
    exact foreignChains_ne_nil hentry hne hforeign
  have hcurrent : entry ∈ currentHeads log scan := by
    rw [currentHeads, ← hours, List.mem_filter]
    exact ⟨hentry, by simp⟩
  have hentryNone : headMismatch log entry = none := by
    cases hmismatch : headMismatch log entry with
    | none => rfl
    | some mismatch =>
      have hmem : mismatch ∈ (checkHeads log scan).mismatches :=
        List.mem_append_left _ (List.mem_filterMap.mpr ⟨entry, hcurrent, hmismatch⟩)
      rw [hmismatches] at hmem
      cases hmem
  have hstored : storedRowHash log entry.head.id = some entry.head.rowHash := by
    by_contra hne
    rw [headMismatch] at hentryNone
    simp only [if_pos hne] at hentryNone
    cases hentryNone
  obtain ⟨row, hfind, hhash⟩ := Option.bind_eq_some_iff.mp hstored
  exact ⟨row, List.mem_of_find?_eq_some hfind, by simpa using List.find?_some hfind, hhash⟩

/-! ## The history before a head -/

/-- The hashes of the rows up to an id, in order. -/
def hashesUpTo (log : AuditLog) (id : Int) : List String :=
  (log.rows.filter fun row => decide (row.id ≤ id)).filterMap AuditRow.rowHash

/-- The hashes up to a row of the chain are those of the chain up to it. -/
theorem hashesUpTo_eq {log : AuditLog} {unhashed pre post : List AuditRow} {row : AuditRow}
    (hrows : log.rows = unhashed ++ (pre ++ row :: post))
    (hunhashed : ∀ r ∈ unhashed, r.rowHash = none) :
    hashesUpTo log row.id = ((pre ++ [row]).map AuditRow.rowHash).filterMap id := by
  have hsplit : log.rows = (unhashed ++ pre ++ [row]) ++ post := by
    rw [hrows]
    simp only [List.append_assoc, List.singleton_append]
  have hsorted := log.sorted
  rw [hsplit] at hsorted
  obtain ⟨hbefore, _, hcross⟩ := List.pairwise_append.mp hsorted
  have hkept : (unhashed ++ pre ++ [row]).filter (fun r => decide (r.id ≤ row.id))
      = unhashed ++ pre ++ [row] := by
    refine List.filter_eq_self.mpr fun r hr => ?_
    rw [decide_eq_true_eq]
    exact id_le_getLast hbefore List.getLast?_concat hr
  have hdropped : post.filter (fun r => decide (r.id ≤ row.id)) = [] := by
    refine List.filter_eq_nil_iff.mpr fun r hr => ?_
    have := hcross row (by simp) r hr
    rw [decide_eq_true_eq]
    omega
  have hnone : unhashed.filterMap AuditRow.rowHash = [] :=
    List.filterMap_eq_nil_iff.mpr hunhashed
  rw [hashesUpTo, hsplit, List.filter_append, hkept, hdropped, List.append_nil,
    List.append_assoc, List.filterMap_append, hnone, List.nil_append, List.filterMap_map]
  rfl

/-- A row of the table that carries a hash splits the chain. -/
private theorem GenesisChain.split {sha : Sha256} {log : AuditLog}
    {unhashed chain : List AuditRow} (h : GenesisChain sha log unhashed chain) {row : AuditRow}
    (hrow : row ∈ log.rows) (hhash : row.rowHash ≠ none) :
    ∃ pre post, chain = pre ++ row :: post := by
  rw [h.rows] at hrow
  rcases List.mem_append.mp hrow with hmem | hmem
  · exact absurd (h.unhashed row hmem) hhash
  · exact List.append_of_mem hmem

/-- Two genesis chains that hold one hash under one id carry the same hashes up to it. -/
theorem GenesisChain.hashesUpTo_eq {sha : Sha256} {log log' : AuditLog}
    {unhashed chain unhashed' chain' : List AuditRow}
    (h : GenesisChain sha log unhashed chain) (h' : GenesisChain sha log' unhashed' chain')
    (hsha : CollisionFree sha (rowTexts log ∪ rowTexts log'))
    (hgenesis : ∀ t ∈ rowTexts log ∪ rowTexts log', sha.hexOfText t ≠ GENESIS_HASH)
    {row row' : AuditRow} (hrow : row ∈ log.rows) (hrow' : row' ∈ log'.rows)
    (hid : row'.id = row.id) (hhash : row.rowHash ≠ none) (heq : row'.rowHash = row.rowHash) :
    hashesUpTo log' row.id = hashesUpTo log row.id := by
  obtain ⟨pre, post, rfl⟩ := h.split hrow hhash
  obtain ⟨pre', post', rfl⟩ := h'.split hrow' (heq ▸ hhash)
  rw [← hid, TrustPortal.Proofs.Audit.hashesUpTo_eq h'.rows h'.unhashed, hid,
    TrustPortal.Proofs.Audit.hashesUpTo_eq h.rows h.unhashed]
  -- The chains up to the two rows.
  have hsub : pre ++ [row] ⊆ pre ++ row :: post := by simp
  have hsub' : pre' ++ [row'] ⊆ pre' ++ row' :: post' := by simp
  have hlinked : RowsLinked (some GENESIS_HASH) (pre ++ [row]) :=
    (linked_append.mp (show Linked _ _ _ ((pre ++ [row]) ++ post) by simpa using h.linked)).1
  have hlinked' : RowsLinked (some GENESIS_HASH) (pre' ++ [row']) :=
    (linked_append.mp (show Linked _ _ _ ((pre' ++ [row']) ++ post') by
      simpa using h'.linked)).1
  have hsealed : ∀ r ∈ pre ++ [row], Sealed sha log.hasHashVersion r := fun r hr =>
    h.sealed r (hsub hr)
  have hsealed' : ∀ r ∈ pre' ++ [row'], Sealed sha log'.hasHashVersion r := fun r hr =>
    h'.sealed r (hsub' hr)
  have htexts : ∀ r ∈ pre ++ [row], ∀ t, hashedForm log.hasHashVersion r = some t →
      t ∈ rowTexts log ∪ rowTexts log' := fun r hr t ht =>
    .inl ⟨r, h.rows ▸ List.mem_append_right _ (hsub hr), ht⟩
  have htexts' : ∀ r ∈ pre' ++ [row'], ∀ t, hashedForm log'.hasHashVersion r = some t →
      t ∈ rowTexts log ∪ rowTexts log' := fun r hr t ht =>
    .inr ⟨r, h'.rows ▸ List.mem_append_right _ (hsub' hr), ht⟩
  have hcommits := commitsPrev_of_sealed hsha hsealed' hsealed htexts' htexts
    (prevIsDigest_of_linked length_GENESIS_HASH hsealed' hlinked')
    (prevIsDigest_of_linked length_GENESIS_HASH hsealed hlinked)
  have hstart : some GENESIS_HASH ∉ (pre ++ [row]).map AuditRow.rowHash := by
    intro hmem
    obtain ⟨r, hr, hrhash⟩ := List.mem_map.mp hmem
    obtain ⟨t, hform, hdigest⟩ := hsealed r hr
    rw [hdigest, Option.some_inj] at hrhash
    exact hgenesis t (htexts r hr t hform) hrhash
  have hstart' : some GENESIS_HASH ∉ (pre' ++ [row']).map AuditRow.rowHash := by
    intro hmem
    obtain ⟨r, hr, hrhash⟩ := List.mem_map.mp hmem
    obtain ⟨t, hform, hdigest⟩ := hsealed' r hr
    rw [hdigest, Option.some_inj] at hrhash
    exact hgenesis t (htexts' r hr t hform) hrhash
  rw [Linked.map_hash_eq hlinked' hlinked hcommits hstart' hstart
    (by rw [head_concat, head_concat, heq])]

/-- A `valid` run over a table that does not start with an ANCHOR row: the hashed rows are a
genesis chain. -/
theorem genesisChain_of_valid {sha : Sha256} {client : Client} {log : AuditLog}
    {chunkSize : Nat} {witness : Option HeadScan}
    {verifier : Option (Anchor → AnchorVerification)} {run : Verification}
    (hchunk : 0 < chunkSize) (hanchor : anchored log = false)
    (hrun : verifyChain sha client log (unbounded chunkSize witness verifier) = .ok run)
    (hvalid : run.status = .valid) :
    (∃ unhashed, GenesisChain sha log unhashed (chainRows log)) ∧
      ((witnessOf log (unbounded chunkSize witness verifier) none).map
        WitnessReport.mismatchesCount).getD 0 = 0 := by
  obtain ⟨hread, hchain⟩ := readable_of_verifyChain hrun (by rw [hvalid]; decide)
    (by rw [hvalid]; decide)
  obtain ⟨anchor, unhashed, scan, hok, hanch, hmismatches, hlinks⟩ :=
    verifyChain_unbounded sha witness verifier hchunk hread hchain
  rw [hrun, Except.ok.injEq] at hok
  subst hok
  obtain ⟨h₁, h₂, h₃⟩ := conclude_valid hvalid
  have hnone : anchor = none := by
    rw [hanchor, Option.isSome_eq_false_iff, Option.isNone_iff_eq_none] at hanch
    exact hanch
  rw [h₁] at hmismatches
  rw [h₂, startHash, hanchor] at hlinks
  obtain ⟨hsealed, hlinked⟩ := linked_of_clean hmismatches.symm hlinks.symm
  obtain ⟨pre, hrows, hpre⟩ := chainRows_eq_drop log
  exact ⟨⟨pre, hrows, hpre, hsealed, hlinked⟩, hnone ▸ h₃⟩

/-- A published head fixes the history before it. Take a chain that the trigger wrote after
rows without a hash, a head published from it, and any later table that does not start with
an ANCHOR row. If an unbounded run with that head returns `valid`, the hashes up to the head
are those at its publication. -/
theorem head_fixes_history {sha : Sha256} {client : Client} {start later : AuditLog}
    {calls : List TriggerCall} {published : AuditRow} {hash : String} {scan : HeadScan}
    {entry : HeadEntry} {chunkSize : Nat} {verifier : Option (Anchor → AnchorVerification)}
    {run : Verification} (hstart : ∀ row ∈ start.rows, row.rowHash = none)
    (hpublished : published ∈ (runTriggers sha start calls).rows)
    (hhash : published.rowHash = some hash) (hentry : entry ∈ scan.valid)
    (hentryId : entry.head.id = published.id) (hentryHash : entry.head.rowHash = hash)
    (hanchor : anchored later = false) (hchunk : 0 < chunkSize)
    (hrun : verifyChain sha client later (unbounded chunkSize (some scan) verifier) = .ok run)
    (hvalid : run.status = .valid)
    (hsha : CollisionFree sha (rowTexts (runTriggers sha start calls) ∪ rowTexts later))
    (hgenesis : ∀ t ∈ rowTexts (runTriggers sha start calls) ∪ rowTexts later,
      sha.hexOfText t ≠ GENESIS_HASH) :
    hashesUpTo later published.id = hashesUpTo (runTriggers sha start calls) published.id := by
  obtain ⟨_, _, hchain⟩ := genesisChain_run calls (genesisChain_start hstart)
  obtain ⟨⟨_, hlater⟩, hwitness⟩ := genesisChain_of_valid hchunk hanchor hrun hvalid
  obtain ⟨row, hrow, hrowId, hrowHash⟩ := head_stored hentry hwitness
  exact hchain.hashesUpTo_eq hlater hsha hgenesis hpublished hrow (hrowId.trans hentryId)
    (by simp [hhash]) (by rw [hrowHash, hentryHash, hhash])

/-- The head published after `controlInsert`. -/
def controlHead : HeadEntry where
  key := "chain-heads/4143a1523e2f9a85/2026/09/28/20260928T120000Z-1.json"
  chainId := "4143a1523e2f9a85"
  head := ⟨1, "4143a1523e2f9a8578701da0b4fb4933a602ca5bf7077bd2debb5fc386075b88", none⟩

set_option maxRecDepth 8000 in
theorem head_fixes_history_control :
    hashesUpTo twoControlsLog 1
      = hashesUpTo (runTriggers twoControlsSha emptyLog [controlInsert]) 1 := by
  obtain ⟨run, hrun, hvalid, _⟩ := findings_eq_some
    (show findings (verifyChain twoControlsSha controlClient twoControlsLog
      (unbounded 20000 (some ⟨[controlHead], []⟩) none)) = some (.valid, [], [], []) by decide)
  have hknown : ∀ t ∈ rowTexts (runTriggers twoControlsSha emptyLog [controlInsert])
      ∪ rowTexts twoControlsLog, t ∈ twoControlsLog.rows.filterMap (hashedForm true) := by
    rintro t (h | h)
    · rw [mem_rowTexts] at h
      revert t h
      decide
    · exact mem_rowTexts.mp h
  refine head_fixes_history (by simp [emptyLog])
    (show controlRow ∈ (runTriggers twoControlsSha emptyLog [controlInsert]).rows by decide) rfl
    (List.mem_singleton.mpr rfl) rfl rfl (by decide) (by decide) hrun hvalid
    (.of_list _ (by decide) hknown) fun t ht => ?_
  have hdigests : ∀ t ∈ twoControlsLog.rows.filterMap (hashedForm true),
      twoControlsSha.hexOfText t ≠ GENESIS_HASH := by decide
  exact hdigests t (hknown t ht)

end TrustPortal.Proofs.Audit
