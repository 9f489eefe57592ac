import TrustPortal.Proofs.Audit.Content
import TrustPortal.Lib.HashChain

/-!
# `TrustPortal.Proofs.Audit.Clean`: what a run without findings says about the table

A run with status `valid` found no altered row and no mislinked row. `linked_of_clean` turns
this into the two facts the security properties use: every row of the chain is `Sealed`, its
hash is the digest of its own text, and the rows are linked by their hashes from the start
hash on, a hash chain in the sense of `TrustPortal.Lib.HashChain`.

`commitsPrev_of_sealed` is where the digest comes in. The text of a row starts with its
previous hash, and previous hashes have one length. So, without a collision, equal hashes
come from equal previous hashes.
-/

set_option autoImplicit false

namespace TrustPortal.Proofs.Audit

open TrustPortal.Sql
open TrustPortal.Audit
open TrustPortal.Lib
open TrustPortal.Lib.HashChain

/-- The row's hash is the digest of its text. -/
def Sealed (sha : Sha256) (hv : Bool) (row : AuditRow) : Prop :=
  ∃ t, hashedForm hv row = some t ∧ row.rowHash = some (sha.hexOfText t)

/-- The rows are linked by their hashes. -/
abbrev RowsLinked (start : Option String) (rows : List AuditRow) : Prop :=
  Linked AuditRow.previousHash AuditRow.rowHash start rows

/-- The texts that the rows of a table hash. -/
def rowTexts (log : AuditLog) : Set String :=
  {t | ∃ row ∈ log.rows, hashedForm log.hasHashVersion row = some t}

/-- The texts of a table as a list. -/
theorem mem_rowTexts {log : AuditLog} {t : String} :
    t ∈ rowTexts log ↔ t ∈ log.rows.filterMap (hashedForm log.hasHashVersion) := by
  simp [rowTexts, List.mem_filterMap]

section
variable {sha : Sha256} {hv : Bool}

theorem Sealed.rowHash_ne_none {row : AuditRow} (h : Sealed sha hv row) : row.rowHash ≠ none := by
  obtain ⟨t, _, hhash⟩ := h
  simp [hhash]

theorem Sealed.truthy_rowHash {row : AuditRow} (h : Sealed sha hv row) :
    truthy row.rowHash = true := by
  obtain ⟨t, _, hhash⟩ := h
  rw [hhash, truthy_some, decide_eq_true_eq]
  exact (sha.hexOfText_isHexDigest t).ne_empty

/-- A hashed row that is not altered is sealed. -/
theorem sealed_of_not_altered {row : AuditRow} (hhash : row.rowHash ≠ none)
    (h : isAltered sha hv row = false) : Sealed sha hv row := by
  cases hrow : row.rowHash with
  | none => exact absurd hrow hhash
  | some hash =>
    rw [isAltered, hrow, Option.isSome_some, Bool.true_and, decide_eq_false_iff_not, not_not,
      computedHash, Option.map_eq_some_iff] at h
    obtain ⟨t, hform, hdigest⟩ := h
    exact ⟨t, hform, by rw [hrow, hdigest]⟩

/-- The rows of a chain without findings are sealed and linked. -/
theorem linked_of_clean {rows : List AuditRow} {expected : Option String}
    (haltered : alteredIds sha hv rows = []) (hlinks : mislinked expected rows = []) :
    (∀ row ∈ rows, Sealed sha hv row) ∧ RowsLinked expected rows := by
  induction rows generalizing expected with
  | nil => exact ⟨by simp, trivial⟩
  | cons row rest ih =>
    rw [show row :: rest = [row] ++ rest from rfl, alteredIds_append,
      List.append_eq_nil_iff] at haltered
    have hlinked : isLinked expected row = true := by
      by_contra hnot
      rw [mislinked, if_neg hnot] at hlinks
      cases hlinks
    rw [mislinked, if_pos hlinked] at hlinks
    rw [isLinked, Bool.and_eq_true, decide_eq_true_eq, Option.isSome_iff_ne_none] at hlinked
    have hsealed : Sealed sha hv row := by
      refine sealed_of_not_altered hlinked.1 ?_
      by_contra hnot
      simp [alteredIds, Bool.not_eq_false _ ▸ hnot] at haltered
    rw [if_pos hsealed.truthy_rowHash] at hlinks
    obtain ⟨hrest, hchain⟩ := ih haltered.2 hlinks
    refine ⟨fun other hother => ?_, hlinked.2, hchain⟩
    rcases List.mem_cons.mp hother with rfl | hother
    · exact hsealed
    · exact hrest other hother

/-- A text that a row hashes starts with its previous hash. -/
theorem hashedForm_starts {row : AuditRow} {prev t : String}
    (hprev : row.previousHash = some prev) (hform : hashedForm hv row = some t) :
    ∃ rest, t = prev ++ rest := by
  simp only [hashedForm, hprev, coalesceText_eq, Option.getD_some] at hform
  obtain ⟨x, _, hx, _, rfl⟩ := textCat_eq_some.mp hform
  obtain ⟨y, z, hy, _, rfl⟩ := textCat_eq_some.mp hx
  have hlink : ∃ rest, y = prev ++ rest := by
    have hbase : ∀ w, textCat (textCat (textCat (some prev) row.tableName) row.recordId)
        row.action = some w → ∃ rest, w = prev ++ rest := by
      intro w hw
      obtain ⟨a, b, ha, _, rfl⟩ := textCat_eq_some.mp hw
      obtain ⟨c, d, hc, _, rfl⟩ := textCat_eq_some.mp ha
      obtain ⟨e, f, he, _, rfl⟩ := textCat_eq_some.mp hc
      cases he
      exact ⟨f ++ d ++ b, by simp only [String.append_assoc]⟩
    split at hy
    · obtain ⟨u, v, hu, _, rfl⟩ := textCat_eq_some.mp hy
      obtain ⟨rest, rfl⟩ := hbase u hu
      exact ⟨rest ++ v, by rw [String.append_assoc]⟩
    · exact hbase y hy
  obtain ⟨rest, rfl⟩ := hlink
  exact ⟨rest ++ z ++ _, by simp only [String.append_assoc]; rfl⟩

/-- Texts with equal beginnings of one length begin with the same text. -/
theorem append_eq_append_left {a b c d : String} (hlen : a.length = c.length)
    (h : a ++ b = c ++ d) : a = c := by
  have hlist := congrArg String.toList h
  rw [String.toList_append, String.toList_append] at hlist
  have hleft := (List.append_inj hlist (by rwa [String.length_toList, String.length_toList])).1
  exact String.toList_injective hleft

/-- The previous hash of a row of 64 characters. -/
def PrevIsDigest (row : AuditRow) : Prop :=
  ∃ prev, row.previousHash = some prev ∧ prev.length = 64

/-- In a chain of sealed rows from a start hash of 64 characters every previous hash has 64
characters. -/
theorem prevIsDigest_of_linked {start : String} (hstart : start.length = 64)
    {rows : List AuditRow} (hsealed : ∀ row ∈ rows, Sealed sha hv row)
    (hlinked : RowsLinked (some start) rows) : ∀ row ∈ rows, PrevIsDigest row := by
  refine Linked.forall_prev (P := fun hash => ∃ prev, hash = some prev ∧ prev.length = 64)
    hlinked ⟨start, rfl, hstart⟩ fun row hrow => ?_
  obtain ⟨t, _, hhash⟩ := hsealed row hrow
  exact ⟨_, hhash, sha.length_hexOfText t⟩

end

/-- Without a collision, the hash of a sealed row fixes its previous hash. -/
theorem commitsPrev_of_sealed {sha : Sha256} {hv hw : Bool} {as bs : List AuditRow}
    {texts : Set String} (hsha : CollisionFree sha texts)
    (has : ∀ row ∈ as, Sealed sha hv row) (hbs : ∀ row ∈ bs, Sealed sha hw row)
    (hta : ∀ row ∈ as, ∀ t, hashedForm hv row = some t → t ∈ texts)
    (htb : ∀ row ∈ bs, ∀ t, hashedForm hw row = some t → t ∈ texts)
    (hpa : ∀ row ∈ as, PrevIsDigest row) (hpb : ∀ row ∈ bs, PrevIsDigest row) :
    CommitsPrev AuditRow.previousHash AuditRow.rowHash as bs := by
  intro a ha b hb heq
  obtain ⟨t, hform, hhash⟩ := has a ha
  obtain ⟨u, hform', hhash'⟩ := hbs b hb
  rw [hhash, hhash', Option.some_inj] at heq
  have htu : t = u := hsha (hta a ha t hform) (htb b hb u hform') heq
  obtain ⟨p, hp, hplen⟩ := hpa a ha
  obtain ⟨q, hq, hqlen⟩ := hpb b hb
  obtain ⟨r, hr⟩ := hashedForm_starts hp hform
  obtain ⟨r', hr'⟩ := hashedForm_starts hq hform'
  rw [hp, hq, append_eq_append_left (hplen.trans hqlen.symm) (hr.symm.trans (htu.trans hr'))]

/-! ## The status -/

section
variable {log : AuditLog} {args : VerifyArgs} {anchor : Option Anchor} {unhashed : Int}
  {scan : Scan} {complete : Bool}

/-- The witness block of a run. -/
def witnessOf (log : AuditLog) (args : VerifyArgs) (anchor : Option Anchor) :
    Option WitnessReport :=
  args.witnessHeads.map fun heads =>
    report (resolveForeignChains (checkHeads log heads) anchor (verifyAnchor args anchor))

/-- What a status other than `broken` says. -/
theorem conclude_not_broken
    (h : (conclude log args anchor unhashed scan complete).status ≠ .broken) :
    scan.contentMismatchIds = [] ∧ (classifyLinks log scan.linkCandidates).2 = [] ∧
      ((witnessOf log args anchor).map WitnessReport.mismatchesCount).getD 0 = 0 := by
  by_contra hnot
  refine h (if_pos ?_)
  by_contra hall
  push Not at hall
  exact hnot ⟨hall.1, hall.2.1, hall.2.2.1⟩

/-- What the status `valid` says. -/
theorem conclude_valid
    (h : (conclude log args anchor unhashed scan complete).status = .valid) :
    scan.contentMismatchIds = [] ∧ scan.linkCandidates = [] ∧
      ((witnessOf log args anchor).map WitnessReport.mismatchesCount).getD 0 = 0 := by
  obtain ⟨hmismatches, hbreaks, hwitness⟩ :=
    conclude_not_broken (by rw [h]; decide : (conclude log args anchor unhashed scan
      complete).status ≠ .broken)
  have hforks : (classifyLinks log scan.linkCandidates).1 = [] := by
    by_contra hforks
    simp only [conclude] at h
    split at h
    · cases h
    · split at h
      · cases h
      · cases h
  refine ⟨hmismatches, ?_, hwitness⟩
  simp only [classifyLinks, List.map_eq_nil_iff, List.filter_eq_nil_iff] at hforks hbreaks
  refine List.eq_nil_iff_forall_not_mem.mpr fun candidate hmem => ?_
  have h₁ := hforks candidate hmem
  have h₂ := hbreaks candidate hmem
  simp_all

end

end TrustPortal.Proofs.Audit
