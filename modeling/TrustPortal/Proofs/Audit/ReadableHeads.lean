import TrustPortal.Proofs.Audit.HeadKey
import TrustPortal.Proofs.Audit.Written

/-!
# `TrustPortal.Proofs.Audit.ReadableHeads`: which published heads the readers accept

`publish_head` may move to a later second, but the object it leaves under the key it
returns is always the body of the head it returns, or both are too large to be read back as a
whole (`publishLoop_stored`). The key is of the
form the reader wants, and so are the fields: a chain the triggers write has 64-digit
hashes and positive ids (`DigestRows`), through any history.

The reader also wants at most `MAX_HEAD_BYTES`, and the writer does not look at the size.
The body carries the whole details of the anchor, so its size is that of the anchor, of the
database's name, of the portal's version and of the two numbers, and 247 bytes more
(`size_body`). `published_head_readable_iff` shows that this limit is the only way a
published head can be unreadable.
-/

set_option autoImplicit false

namespace TrustPortal.Proofs.Audit

open TrustPortal.Sql
open TrustPortal.Python
open TrustPortal.Audit
open TrustPortal.Lib

/-! ## What is stored -/

/-- The head under another second. -/
def HeadRecord.atStamp (head : HeadRecord) (stamp : Stamp) : HeadRecord :=
  { head with publishedAt := stamp }

/-- The object has this content, or both are too large for a reader. -/
def Holds (stored : WitnessObject) (content : ByteArray) : Prop :=
  stored.content = content
    ∨ MAX_HEAD_BYTES < content.size ∧ MAX_HEAD_BYTES < stored.content.size

/-- An object that is read back as a content holds it. -/
theorem holds_of_readBack {stored : WitnessObject} {content : ByteArray}
    (h : stored.readBack = content) : Holds stored content := by
  by_cases hsize : stored.content.size ≤ MAX_HEAD_BYTES + 1
  · left
    have hwhole : stored.content.extract 0 (MAX_HEAD_BYTES + 1) = stored.content := by
      rw [ByteArray.ext_iff, ByteArray.data_extract]
      exact Array.extract_eq_self_of_le hsize
    rw [← h, WitnessObject.readBack, hwhole]
  · right
    have hread : content.size = MAX_HEAD_BYTES + 1 := by
      rw [← h, WitnessObject.readBack, ByteArray.size_extract]
      omega
    omega

/-- `_put_once` that did not conflict leaves the body under the key. -/
private theorem putOnce_stored {bucket after : WitnessBucket} {faulty : Bool} {key : String}
    {content : ByteArray} {outcome : PutOutcome}
    (h : putOnce bucket faulty key content = .ok (outcome, after)) (hne : outcome ≠ .conflict) :
    ∃ stored, after key = some stored ∧ stored.readable = true ∧ Holds stored content := by
  unfold putOnce at h
  split at h
  · cases h
  · split at h
    · cases h
      exact ⟨⟨content, true⟩, if_pos rfl, rfl, .inl rfl⟩
    · rename_i stored hstored
      split at h
      · rename_i hsame
        cases h
        rw [Bool.and_eq_true, decide_eq_true_eq] at hsame
        exact ⟨stored, hstored, hsame.1, holds_of_readBack hsame.2⟩
      · cases h
        exact absurd rfl hne

/-- What the loop over the attempts leaves, whatever keys conflict: the body of the head it
returns, under that head's key. Only the second of the head has changed. -/
theorem publishLoop_stored {faults : Nat → Bool} {attempts : Nat} {bucket : WitnessBucket}
    {head : HeadRecord} {conflicts : List String} {result : Publication}
    (h : publishLoop faults attempts bucket head conflicts = .ok result) :
    (∃ stamp, result.head = HeadRecord.atStamp head stamp) ∧
      result.key = objectKey result.head ∧
      ∃ stored, result.bucket result.key = some stored ∧ stored.readable = true ∧
        Holds stored (body result.head) := by
  induction attempts generalizing bucket head conflicts with
  | zero => cases h
  | succ attempts ih =>
    unfold publishLoop at h
    split at h
    · cases h
    · -- A conflict: the next attempt is under the next second's key.
      split at h
      · cases h
      · rename_i stamp _
        obtain ⟨⟨other, hother⟩, hrest⟩ := ih h
        exact ⟨⟨other, hother⟩, hrest⟩
    · rename_i outcome after hne hput
      cases h
      exact ⟨⟨head.publishedAt, rfl⟩, rfl, putOnce_stored hput fun hconflict =>
        hne hconflict⟩

/-! ## The body -/

/-- The members of a head's body, in the order of their names. -/
def bodyMembers (head : HeadRecord) : Sql.Members :=
  [("anchor", sortKeys head.anchor), ("chain_id", .string head.chainId),
    ("database", .string head.database), ("format", .string FORMAT),
    ("hash_version", jsonInt head.hashVersion), ("id", .number head.id 0),
    ("portal_version", jsonText head.portalVersion),
    ("published_at", .string head.publishedAt.text), ("row_hash", .string head.rowHash)]

private theorem sortKeys_jsonInt (n : Option Int) : sortKeys (jsonInt n) = jsonInt n := by
  cases n <;> rfl

private theorem sortKeys_jsonText (s : Option String) : sortKeys (jsonText s) = jsonText s := by
  cases s <;> rfl

theorem sortKeys_headDocument (head : HeadRecord) :
    sortKeys (headDocument head) = .object (bodyMembers head) := by
  simp [headDocument, sortKeys, sortMembers, sortKeys_jsonInt, sortKeys_jsonText, bodyMembers,
    List.insertionSort_cons, List.orderedInsert]

/-- The size of a head's body: what varies, and 247 bytes more. -/
def headSize (head : HeadRecord) : Nat :=
  jsonSize head.anchor + jsonSize (.string head.database) + jsonSize (jsonText head.portalVersion)
    + jsonSize (jsonInt head.hashVersion) + jsonSize (.number head.id 0) + 247

private theorem isPlain_of_isDigit {c : Char} (h : c.isDigit = true) : isPlain c = true := by
  have hrange : 48 ≤ c.toNat ∧ c.toNat ≤ 57 := by
    simpa [Char.isDigit, UInt32.le_iff_toNat_le] using h
  have hne : ∀ d : Char, 57 < d.toNat ∨ d.toNat < 48 → c ≠ d := by
    rintro d hd rfl
    omega
  simp only [isPlain, hne '"' (by decide), hne '\\' (by decide), ne_eq, not_false_eq_true,
    decide_true, Bool.true_and, Bool.and_eq_true, decide_eq_true_eq]
  omega

private theorem isPlain_of_isHexDigit {c : Char} (h : isHexDigit c = true) :
    isPlain c = true := by
  have hrange : 48 ≤ c.toNat ∧ c.toNat ≤ 57 ∨ 97 ≤ c.toNat ∧ c.toNat ≤ 102 := by
    simpa [isHexDigit, Char.le_def, UInt32.le_iff_toNat_le] using h
  have hne : ∀ d : Char, d.toNat < 48 ∨ d.toNat = 92 → c ≠ d := by
    rintro d hd rfl
    omega
  simp only [isPlain, hne '"' (by decide), hne '\\' (by decide), ne_eq, not_false_eq_true,
    decide_true, Bool.true_and, Bool.and_eq_true, decide_eq_true_eq]
  omega

private theorem size_hex {s : String} {n : Nat} (hlen : s.length = n)
    (hall : s.toList.all isHexDigit = true) : (dumpsString s).utf8ByteSize = n + 2 := by
  rw [size_dumpsString_plain, hlen]
  rw [List.all_eq_true] at hall ⊢
  exact fun c hc => isPlain_of_isHexDigit (hall c hc)

private theorem size_stamp (stamp : Stamp) : (dumpsString stamp.text).utf8ByteSize = 22 := by
  obtain ⟨hyear, hmonth, hday, hhour, hminute, hsecond⟩ := stampDigits stamp
  have plain {n : Nat} {s : String} (h : Digits n s) : s.toList.all isPlain = true :=
    h.all fun c hc => isPlain_of_isDigit hc
  have length {n : Nat} {s : String} (h : Digits n s) : s.length = n := by
    rw [← String.length_toList]
    exact h.1
  have hplain : stamp.text.toList.all isPlain = true := by
    simp only [Stamp.text, String.toList_append, List.all_append, plain hyear, plain hmonth,
      plain hday, plain hhour, plain hminute, plain hsecond]
    decide
  rw [size_dumpsString_plain hplain]
  simp only [Stamp.text, String.length_append, length hyear, length hmonth, length hday,
    length hhour, length hminute, length hsecond]
  decide

/-- The size of a head's body. -/
theorem size_body {head : HeadRecord} (hcid : IsChainId head.chainId)
    (hhash : IsHexDigest head.rowHash) : (body head).size = headSize head := by
  have hcidSize := size_hex (String.length_toList ▸ hcid.1) hcid.2
  have hhashSize := size_hex hhash.1 hhash.2
  have hname : ∀ s ∈ ["anchor", "chain_id", "database", "format", "hash_version", "id",
      "portal_version", "published_at", "row_hash", FORMAT],
      (dumpsString s).utf8ByteSize = s.length + 2 := by
    intro s hs
    refine size_dumpsString_plain ?_
    revert s hs
    decide
  show (dumps (headDocument head)).toByteArray.size = _
  rw [String.size_toByteArray, dumps, sortKeys_headDocument, bodyMembers]
  simp only [compact, compactMembers, String.intercalate_cons_cons, String.intercalate_singleton,
    String.utf8ByteSize_append, hcidSize, hhashSize, size_stamp, hname "anchor" (by decide),
    hname "chain_id" (by decide), hname "database" (by decide), hname "format" (by decide),
    hname "hash_version" (by decide), hname "id" (by decide), hname "portal_version" (by decide),
    hname "published_at" (by decide), hname "row_hash" (by decide), hname FORMAT (by decide),
    headSize, jsonSize, dumps, sortKeys, sortKeys_jsonInt, sortKeys_jsonText]
  simp only [show "\x7b".utf8ByteSize = 1 from rfl, show "\x7d".utf8ByteSize = 1 from rfl,
    show ",".utf8ByteSize = 1 from rfl, show ":".utf8ByteSize = 1 from rfl,
    show "anchor".length = 6 from rfl, show "chain_id".length = 8 from rfl,
    show "database".length = 8 from rfl, show "format".length = 6 from rfl,
    show "hash_version".length = 12 from rfl, show "id".length = 2 from rfl,
    show "portal_version".length = 14 from rfl, show "published_at".length = 12 from rfl,
    show "row_hash".length = 8 from rfl, show FORMAT.length = 26 from rfl]
  omega

/-! ## The rows a chain has -/

/-- Every row has an id within its column's range, and every hash is a digest. -/
def DigestRows (log : AuditLog) : Prop :=
  ∀ row ∈ log.rows, 1 ≤ row.id ∧ row.id ≤ maxInteger ∧
    ∀ hash, row.rowHash = some hash → IsHexDigest hash

/-- The sequence gives a positive id. -/
theorem one_le_nextId {log : AuditLog} (h : DigestRows log) (gap : Nat) :
    1 ≤ nextId log gap := by
  unfold nextId
  cases hlast : log.last with
  | none =>
    show (1 : Int) ≤ 0 + 1 + gap
    omega
  | some last =>
    have := (h last (List.mem_of_getLast? hlast)).1
    show 1 ≤ last.id + 1 + gap
    omega

/-- A row with a digest for its hash, under the next id. -/
private theorem DigestRows.append {log : AuditLog} (h : DigestRows log) {new : NewRow log}
    {gap : Nat} (hid : new.row.id = nextId log gap) (hlimit : nextId log gap ≤ maxInteger)
    (hhash : ∀ hash, new.row.rowHash = some hash → IsHexDigest hash) :
    DigestRows (log.append new) := by
  intro row hrow
  rcases List.mem_append.mp hrow with hold | hnew
  · exact h row hold
  · rw [List.mem_singleton.mp hnew, hid]
    exact ⟨one_le_nextId h gap, hlimit, hhash⟩

theorem digestRows_step {sha : Sha256} {log : AuditLog} (call : TriggerCall)
    (h : DigestRows log) : DigestRows (afterTrigger sha log call) := by
  unfold afterTrigger
  split
  · rename_i new hnew
    obtain ⟨_, hlimit, _, _, _, _, _, _, hrow⟩ := auditTrigger_row hnew
    obtain ⟨t, _, hhash⟩ := (auditTrigger_spec hnew).hashed
    refine h.append (by rw [hrow]) hlimit fun hash hsome => ?_
    rw [hhash, Option.some_inj] at hsome
    exact hsome ▸ sha.hexOfText_isHexDigest t
  · exact h
  · exact h

theorem digestRows_run {sha : Sha256} (calls : List TriggerCall) {log : AuditLog}
    (h : DigestRows log) : DigestRows (runTriggers sha log calls) := by
  induction calls generalizing log with
  | nil => exact h
  | cons call rest ih => exact ih (digestRows_step call h)

theorem digestRows_anchor {sha : Sha256} {log : AuditLog} {call : AnchorCall}
    {new : NewRow log} (h : insertAnchor sha log call = .ok new) :
    DigestRows (log.append new) := by
  obtain ⟨args, _, hempty, _, hlimit, hrow⟩ := insertAnchor_spec h
  have hold : DigestRows log := fun row hmem => by
    rw [hempty] at hmem
    cases hmem
  obtain ⟨t, _, hhash⟩ := anchorRow_sealed sha (nextId log call.gap) call args
  refine hold.append (by rw [hrow]; rfl) hlimit fun hash hsome => ?_
  rw [hrow, hhash, Option.some_inj] at hsome
  exact hsome ▸ sha.hexOfText_isHexDigest t

/-- Where a chain begins: the rows of an older trigger, among them none, or an anchor. -/
inductive HeadOrigin (sha : Sha256) : AuditLog → Prop
  | older {log : AuditLog} (h : DigestRows log) : HeadOrigin sha log
  | anchor {log : AuditLog} {call : AnchorCall} {new : NewRow log}
      (h : insertAnchor sha log call = .ok new) : HeadOrigin sha (log.append new)

theorem HeadOrigin.digestRows {sha : Sha256} {log : AuditLog} (h : HeadOrigin sha log) :
    DigestRows log := by
  cases h with
  | older h => exact h
  | anchor h => exact digestRows_anchor h

/-! ## The head -/

/-- The first 16 characters of a digest are a chain id. -/
private theorem isChainId_take {hash : String} (h : IsHexDigest hash) :
    IsChainId (String.ofList (hash.toList.take 16)) := by
  obtain ⟨hlen, hall⟩ := h
  rw [← String.length_toList] at hlen
  rw [IsChainId, String.toList_ofList, List.length_take, hlen]
  refine ⟨rfl, ?_⟩
  rw [List.all_eq_true] at hall ⊢
  exact fun c hc => hall c (List.mem_of_mem_take hc)

/-- What `current_head` reads from a chain: its id, and the newest hashed row's. -/
structure HeadOf (log : AuditLog) (head : HeadRecord) : Prop where
  chainId : TrustPortal.Audit.chainId log = some head.chainId
  chainId_hex : IsChainId head.chainId
  row : ∃ row ∈ log.rows, row.id = head.id ∧ row.rowHash = some head.rowHash
  id_fits : 1 ≤ head.id ∧ head.id ≤ maxInteger
  rowHash_hex : IsHexDigest head.rowHash

theorem currentHead_spec {client : Client} {log : AuditLog} (hrows : DigestRows log)
    {database : String} {version : Option String} {now : Stamp} {head : HeadRecord}
    (h : currentHead client log database version now = .ok (some head)) : HeadOf log head := by
  unfold currentHead at h
  split at h
  · rename_i cid row hash hcid hlast
    rw [bind_eq_ok] at h
    obtain ⟨anchor, _, h⟩ := h
    cases h
    obtain ⟨found, hfound, hhash⟩ := Option.bind_eq_some_iff.mp hlast
    obtain ⟨_, hsome, hpair⟩ := Option.map_eq_some_iff.mp hhash
    cases hpair
    have hrow : row ∈ log.rows := List.mem_reverse.mp (List.mem_of_find?_eq_some hfound)
    obtain ⟨hlow, hhigh, hdigest⟩ := hrows row hrow
    refine ⟨hcid, ?_, ⟨row, hrow, rfl, hsome⟩, ⟨hlow, hhigh⟩, hdigest hash hsome⟩
    -- The chain id is cut from the first hash.
    unfold chainId at hcid
    split at hcid
    · cases hcid
    · rename_i first hfirst
      split at hcid
      · cases hcid
      · cases hcid
        obtain ⟨firstRow, hfirstRow, hfirstHash⟩ := Option.bind_eq_some_iff.mp hfirst
        exact isChainId_take ((hrows firstRow (List.mem_of_find?_eq_some hfirstRow)).2.2 first
          hfirstHash)
  · cases h

/-! ## Reading it back -/

/-- The readers accept the object as the head: its chain id, its row id and its `row_hash`. -/
def ReadsHead (loads : ByteArray → Option Json) (key : String) (stored : WitnessObject)
    (head : HeadRecord) : Prop :=
  ∃ members, parseHead loads key stored.content = .ok members ∧
    scanObject loads key stored = .ok members ∧
    detail members "chain_id" = .string head.chainId ∧
    detail members "id" = .number head.id 0 ∧
    detail members "row_hash" = .string head.rowHash

private theorem hex16Match_of_isChainId {cid : String} (h : IsChainId cid) :
    hex16Match cid = true := by
  have hlast : cid.toList.getLast? ≠ some '\n' := fun hnewline => by
    have := List.all_eq_true.mp h.2 _ (List.mem_of_getLast? hnewline)
    revert this
    decide
  simp only [hex16Match, if_neg hlast, h.1, h.2, decide_true, Bool.and_self]

private theorem hex64Match_of_isHexDigest {hash : String} (h : IsHexDigest hash) :
    hex64Match hash = true := by
  have hlast : hash.toList.getLast? ≠ some '\n' := fun hnewline => by
    have := List.all_eq_true.mp h.2 _ (List.mem_of_getLast? hnewline)
    revert this
    decide
  simp only [hex64Match, if_neg hlast, String.length_toList, h.1, h.2, decide_true,
    Bool.and_self]

/-- The parsed body passes every check of `parse_head`. -/
private theorem checkHead_bodyMembers {head : HeadRecord} (hcid : IsChainId head.chainId)
    (hid : 1 ≤ head.id) (hhash : IsHexDigest head.rowHash) :
    checkHead (head.chainId, head.id) (.object (bodyMembers head)) = .ok (bodyMembers head) := by
  have hshape : headShape (bodyMembers head) = some (head.chainId, head.id) := by
    show (if hex16Match head.chainId && decide (1 ≤ head.id) && hex64Match head.rowHash
      then some (head.chainId, head.id) else none) = _
    rw [hex16Match_of_isChainId hcid, hex64Match_of_isHexDigest hhash]
    simp [hid]
  have hformat : isText FORMAT (detail (bodyMembers head) "format") = true := by
    show decide (FORMAT = FORMAT) = true
    decide
  simp only [checkHead, hshape, hformat, Bool.not_true, Bool.false_eq_true, if_false, ne_eq,
    not_true_eq_false]

private theorem keyParts_of_headOf {log : AuditLog} {head : HeadRecord} (h : HeadOf log head) :
    keyParts (objectKey head) = some (head.chainId, head.id) :=
  keyParts_objectKey h.chainId_hex h.id_fits.1 (lt_of_le_of_lt h.id_fits.2 (by decide))

/-- No reader accepts the object of a head that is too large. -/
theorem large_unreadable {log : AuditLog} {head : HeadRecord} (hhead : HeadOf log head)
    (hlarge : MAX_HEAD_BYTES < headSize head) {stored : WitnessObject}
    (hcontent : Holds stored (body head)) (loads : ByteArray → Option Json) :
    parseHead loads (objectKey head) stored.content = .error "object larger than 4096 bytes" ∧
      scanObject loads (objectKey head) stored = .error "object larger than 4096 bytes" := by
  have hsize : MAX_HEAD_BYTES < stored.content.size := by
    rcases hcontent with hsame | ⟨_, hsize⟩
    · rwa [hsame, size_body hhead.chainId_hex hhead.rowHash_hex]
    · exact hsize
  constructor
  · rw [parseHead, keyParts_of_headOf hhead]
    exact if_pos hsize
  · rw [scanObject, keyParts_of_headOf hhead, if_neg (by simp), if_pos hsize]

/-- A head's object under its key is read as the head exactly when it is not too large. -/
theorem readsHead_iff {loads : ByteArray → Option Json} {log : AuditLog} {head : HeadRecord}
    (hhead : HeadOf log head) {stored : WitnessObject} (hreadable : stored.readable = true)
    (hcontent : Holds stored (body head))
    (hloads : loads (body head) = some (sortKeys (headDocument head))) :
    ReadsHead loads (objectKey head) stored head ↔ headSize head ≤ MAX_HEAD_BYTES := by
  have hkey := keyParts_of_headOf hhead
  have hsize : (body head).size = headSize head := size_body hhead.chainId_hex hhead.rowHash_hex
  constructor
  · rintro ⟨members, hparse, _⟩
    by_contra hlarge
    rw [(large_unreadable hhead (not_le.mp hlarge) hcontent loads).1] at hparse
    cases hparse
  · intro hfits
    have hcontent : stored.content = body head := hcontent.resolve_right fun hlarge => by
      rw [hsize] at hlarge
      omega
    have hparse : parseHead loads (objectKey head) stored.content = .ok (bodyMembers head) := by
      rw [parseHead, hkey, hcontent]
      simp only [hsize, if_neg (not_lt.mpr hfits), hloads, sortKeys_headDocument]
      exact checkHead_bodyMembers hhead.chainId_hex hhead.id_fits.1 hhead.rowHash_hex
    refine ⟨bodyMembers head, hparse, ?_, rfl, rfl, rfl⟩
    rw [scanObject, hkey, hreadable, if_neg (by simp), if_neg (by rw [hcontent]; omega),
      if_neg (by simp)]
    exact hparse

/-- What `publish_head` leaves holds the body of a head that differs from the given one at most in
its second. -/
theorem publishHead_stored {log : AuditLog} {head : HeadRecord} (hhead : HeadOf log head)
    {settings : WitnessSettings} {requireArmed : Bool} {faults : Nat → Bool}
    {bucket : WitnessBucket} {result : Publication}
    (h : publishHead settings requireArmed faults bucket (some head) = .ok (some result)) :
    (∃ stamp, result.head = HeadRecord.atStamp head stamp) ∧ HeadOf log result.head ∧
      result.key = objectKey result.head ∧
      ∃ stored, result.bucket result.key = some stored ∧ stored.readable = true ∧
        Holds stored (body result.head) := by
  unfold publishHead at h
  split at h
  · cases h
  · rw [map_eq_ok] at h
    obtain ⟨publication, hloop, hresult⟩ := h
    cases hresult
    obtain ⟨⟨stamp, hstamp⟩, hstored⟩ := publishLoop_stored hloop
    refine ⟨⟨stamp, hstamp⟩, ?_, hstored⟩
    rw [hstamp]
    exact ⟨hhead.chainId, hhead.chainId_hex, hhead.row, hhead.id_fits, hhead.rowHash_hex⟩

/-- Which published heads are readable. Take any chain that the trigger writes after rows of
an older trigger or after an anchor, and a head `current_head` reads from it. However the
keys conflict, the object that `publish_head` leaves under its key is read as that head
exactly when the anchor's details and the names in the body leave it within
`MAX_HEAD_BYTES`. -/
theorem published_head_readable_iff {sha : Sha256} {client : Client}
    {loads : ByteArray → Option Json} {origin : AuditLog} {calls : List TriggerCall}
    {database : String} {version : Option String} {now : Stamp} {head : HeadRecord}
    {settings : WitnessSettings} {requireArmed : Bool} {faults : Nat → Bool}
    {bucket : WitnessBucket} {result : Publication} (horigin : HeadOrigin sha origin)
    (hhead : currentHead client (runTriggers sha origin calls) database version now
      = .ok (some head))
    (hpublish : publishHead settings requireArmed faults bucket (some head) = .ok (some result))
    (hloads : loads (body result.head) = some (sortKeys (headDocument result.head))) :
    ∃ stored, result.bucket result.key = some stored ∧
      (ReadsHead loads result.key stored head ↔ headSize head ≤ MAX_HEAD_BYTES) := by
  have hof := currentHead_spec (digestRows_run calls horigin.digestRows) hhead
  obtain ⟨⟨stamp, hstamp⟩, hof, hkey, stored, hstored, hreadable, hcontent⟩ :=
    publishHead_stored hof hpublish
  have hiff := readsHead_iff hof hreadable hcontent hloads
  refine ⟨stored, hstored, ?_⟩
  -- Only the second differs between the head that was read and the one that is stored.
  rw [hkey]
  rw [hstamp] at hiff ⊢
  exact hiff

/-! ## An anchor with a long note -/

/-- `archiveAnchor` with a note. -/
def notedAnchor (note : String) : AnchorCall := { archiveAnchor with note := some note }

/-- A client that reads the details of `notedAnchor`. -/
def notedClient (note : String) : Client := .ofTables []
  [((anchorDetails (notedAnchor note)).text, .object (anchorDetails (notedAnchor note)))]

/-- Noon of 28 September 2026. -/
def noon : Stamp := ⟨2026, 9, 28, 12, 0, 0, by decide, by decide, by decide, by decide, by decide,
  by decide⟩

/-- Publishing into an empty bucket succeeds. -/
private theorem publishHead_empty (head : HeadRecord) :
    ∃ result, publishHead ⟨false, true, true⟩ true (fun _ => false) (fun _ => none) (some head)
      = .ok (some result) := ⟨_, rfl⟩

/-- What `current_head` reads from a table with one hashed ANCHOR row. -/
private theorem currentHead_anchor {client : Client} {log : AuditLog} {row : AuditRow}
    {hash details : String} {anchor : Json} (hrows : log.rows = [row])
    (hhash : row.rowHash = some hash) (hne : hash ≠ "") (haction : row.action = some "ANCHOR")
    (hdetails : row.newValues = some details) (hdetailsNe : details ≠ "")
    (hloads : client.loads details = some anchor) (database : String)
    (version : Option String) (now : Stamp) :
    currentHead client log database version now = .ok (some
      ⟨String.ofList (hash.toList.take 16), row.id, hash,
        if log.hasHashVersion then row.hashVersion else none, now, database, anchor, version⟩) := by
  have hcid : chainId log = some (String.ofList (hash.toList.take 16)) := by
    simp [chainId, AuditLog.firstHashed, hrows, hhash, hne]
  have hlast : log.lastHashed = some row := by
    simp [AuditLog.lastHashed, hrows, hhash]
  have hanchor : loadAnchor client log = .ok anchor := by
    simp [loadAnchor, AuditLog.anchorDetailsText, hrows, haction, hdetails, hdetailsNe, hloads]
  unfold currentHead
  rw [hcid, hlast]
  simp only [Option.bind_some, hhash, Option.map_some, hanchor]
  rfl

/-- What the portal publishes for an anchor with a long note is accepted by no reader. -/
private theorem unreadable_of_long_note {note : String} (hplain : note.toList.all isPlain = true)
    (hlong : 4000 ≤ note.length) :
    ∃ new, insertAnchor controlSha emptyLog (notedAnchor note) = .ok new ∧
    ∃ head, currentHead (notedClient note) (emptyLog.append new) "portal" (some "1.0") noon
      = .ok (some head) ∧
    ∃ result, publishHead ⟨false, true, true⟩ true (fun _ => false) (fun _ => none) (some head)
      = .ok (some result) ∧
    ∃ stored, result.bucket result.key = some stored ∧ ∀ loads,
      parseHead loads result.key stored.content = .error "object larger than 4096 bytes" ∧
      scanObject loads result.key stored = .error "object larger than 4096 bytes" := by
  have hargs : checkAnchor (notedAnchor note) = .ok ⟨"a1", String.ofList (List.replicate 64 'a'),
      String.ofList (List.replicate 64 'b'), "archives/0123456789abcdef/a1.manifest.json",
      String.ofList (List.replicate 64 'c')⟩ := by rfl
  obtain ⟨new, hnew⟩ := insertAnchor_of_checked controlSha hargs (show emptyLog.rows = [] from rfl)
    rfl (show nextId emptyLog 0 ≤ maxInteger by decide)
  obtain ⟨args, _, _, _, _, hrow⟩ := insertAnchor_spec hnew
  obtain ⟨t, _, hhash⟩ := anchorRow_sealed controlSha (nextId emptyLog (notedAnchor note).gap)
    (notedAnchor note) args
  have hrows : (emptyLog.append new).rows = [new.row] := rfl
  have hdetails : (anchorDetails (notedAnchor note)).text ≠ "" := by
    intro hempty
    have hsize := congrArg String.utf8ByteSize hempty
    rw [Members.text, Json.text, String.utf8ByteSize_append, String.utf8ByteSize_append] at hsize
    simp at hsize
  have hloads : (notedClient note).loads (anchorDetails (notedAnchor note)).text
      = some (.object (anchorDetails (notedAnchor note))) := by
    simp only [notedClient, Client.ofTables, List.lookup_cons, beq_self_eq_true]
  obtain ⟨head, hhead, hanchor⟩ : ∃ head, currentHead (notedClient note) (emptyLog.append new)
      "portal" (some "1.0") noon = .ok (some head) ∧
      head.anchor = .object (anchorDetails (notedAnchor note)) :=
    ⟨_, currentHead_anchor hrows (by rw [hrow]; exact hhash)
      (controlSha.hexOfText_isHexDigest t).ne_empty (by rw [hrow]; rfl) (by rw [hrow]; rfl)
      hdetails hloads "portal" (some "1.0") noon, rfl⟩
  have hlarge : MAX_HEAD_BYTES < headSize head := by
    -- The note alone takes its characters and two quotes.
    have hnote : jsonSize (.string note) = note.length + 2 := size_dumpsString_plain hplain
    have hmember : ("note", Json.string note) ∈ anchorDetails (notedAnchor note) :=
      List.mem_cons_self
    have hobject := jsonSize_le_object hmember
    rw [← hanchor] at hobject
    unfold headSize MAX_HEAD_BYTES
    omega
  obtain ⟨result, hpublish⟩ := publishHead_empty head
  obtain ⟨⟨stamp, hstamp⟩, hof, hkey, stored, hstored, _, hcontent⟩ :=
    publishHead_stored (currentHead_spec (digestRows_anchor hnew) hhead) hpublish
  refine ⟨new, hnew, head, hhead, result, hpublish, stored, hstored, ?_⟩
  rw [hkey]
  exact large_unreadable hof (by rw [hstamp]; exact hlarge) hcontent

/-- The portal publishes a head whose anchor has a note of 4000 characters, and no reader
accepts it. -/
theorem long_note_unreadable :
    ∃ note : String, note.length = 4000 ∧
    ∃ new, insertAnchor controlSha emptyLog (notedAnchor note) = .ok new ∧
    ∃ head, currentHead (notedClient note) (emptyLog.append new) "portal" (some "1.0") noon
      = .ok (some head) ∧
    ∃ result, publishHead ⟨false, true, true⟩ true (fun _ => false) (fun _ => none) (some head)
      = .ok (some result) ∧
    ∃ stored, result.bucket result.key = some stored ∧ ∀ loads,
      parseHead loads result.key stored.content = .error "object larger than 4096 bytes" ∧
      scanObject loads result.key stored = .error "object larger than 4096 bytes" := by
  have hlength : (String.ofList (List.replicate 4000 'x')).length = 4000 := by
    rw [String.length_ofList, List.length_replicate]
  refine ⟨String.ofList (List.replicate 4000 'x'), hlength,
    unreadable_of_long_note ?_ (le_of_eq hlength.symm)⟩
  rw [String.toList_ofList, List.all_replicate]
  rfl

/-! ## A head without an anchor -/

/-- The head of the chain with one inserted control. -/
def controlHeadRecord : HeadRecord :=
  ⟨"4143a1523e2f9a85", 1, "4143a1523e2f9a8578701da0b4fb4933a602ca5bf7077bd2debb5fc386075b88",
    some 2, noon, "portal", .null, some "1.0"⟩

/-- `json.loads` of the body of `controlHeadRecord`. -/
def controlLoads (content : ByteArray) : Option Json :=
  if content = body controlHeadRecord then some (sortKeys (headDocument controlHeadRecord))
  else none

set_option maxRecDepth 8000 in
/-- The head of a chain without an anchor is read back. -/
theorem control_head_readable :
    ∃ result, publishHead ⟨false, true, true⟩ true (fun _ => false) (fun _ => none)
        (some controlHeadRecord) = .ok (some result) ∧
      ∃ stored, result.bucket result.key = some stored ∧
        ReadsHead controlLoads result.key stored controlHeadRecord := by
  have horigin : HeadOrigin controlSha emptyLog := .older fun row hrow => by cases hrow
  have hhead : currentHead controlClient (runTriggers controlSha emptyLog [controlInsert])
      "portal" (some "1.0") noon = .ok (some controlHeadRecord) := by rfl
  obtain ⟨result, hpublish⟩ := publishHead_empty controlHeadRecord
  have hresult : result.head = controlHeadRecord := by
    cases hpublish
    rfl
  have hsize : headSize controlHeadRecord ≤ MAX_HEAD_BYTES := by decide +kernel
  have hloads : controlLoads (body result.head) = some (sortKeys (headDocument result.head)) :=
    hresult ▸ if_pos rfl
  obtain ⟨stored, hstored, hiff⟩ := published_head_readable_iff horigin hhead hpublish hloads
  exact ⟨result, hpublish, stored, hstored, hiff.mpr hsize⟩

end TrustPortal.Proofs.Audit
