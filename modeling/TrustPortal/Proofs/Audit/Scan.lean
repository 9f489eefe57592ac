import TrustPortal.Audit.VerifyChain

/-!
# `TrustPortal.Proofs.Audit.Scan`: what one run of `verify_chain` reads and finds

The chunks do not matter: `scanLoop_eq` shows that the loop over chunks of any positive
size is one fold of `scanRow` over the rows after the start, as many as `maxRows` allows.
The fold's variables have closed forms: `carriedHash` for `expected`, the altered rows for
the content mismatches, and `mislinked` for the link candidates. `verifyChain_scan`
assembles them into the result of a run.
-/

set_option autoImplicit false

namespace TrustPortal.Proofs.Audit

open TrustPortal.Sql
open TrustPortal.Audit

/-! ## The rows after an id -/

/-- In a list sorted by id, the rows after the id of a row are the rows that follow it. -/
private theorem filter_lt_of_split {pre post : List AuditRow} {row : AuditRow}
    (h : (pre ++ row :: post).Pairwise fun a b => a.id < b.id) :
    (pre ++ row :: post).filter (fun r => decide (row.id < r.id)) = post := by
  obtain ⟨_, hrow, hcross⟩ := List.pairwise_append.mp h
  have hpre : pre.filter (fun r => decide (row.id < r.id)) = [] := by
    refine List.filter_eq_nil_iff.mpr fun r hr => ?_
    have := hcross r hr row List.mem_cons_self
    simp only [decide_eq_true_eq]
    omega
  have hpost : post.filter (fun r => decide (row.id < r.id)) = post :=
    List.filter_eq_self.mpr fun r hr => by simpa using (List.pairwise_cons.mp hrow).1 r hr
  rw [List.filter_append, List.filter_cons, hpre, hpost]
  simp

theorem rowsAfter_sorted (log : AuditLog) (k : Int) :
    (log.rowsAfter k).Pairwise fun a b => a.id < b.id := log.sorted.filter _

theorem mem_rowsAfter {log : AuditLog} {k : Int} {row : AuditRow} :
    row ∈ log.rowsAfter k ↔ row ∈ log.rows ∧ k < row.id := by
  simp [AuditLog.rowsAfter]

/-- The rows after a row that comes after `k` are those that follow it among the rows
after `k`. -/
theorem rowsAfter_id {log : AuditLog} {k : Int} {pre post : List AuditRow} {row : AuditRow}
    (h : log.rowsAfter k = pre ++ row :: post) : log.rowsAfter row.id = post := by
  have hk : k < row.id := (mem_rowsAfter.mp (h ▸ by simp : row ∈ log.rowsAfter k)).2
  have hnest : log.rowsAfter row.id
      = (log.rowsAfter k).filter fun r => decide (row.id < r.id) := by
    rw [AuditLog.rowsAfter, AuditLog.rowsAfter, List.filter_filter]
    refine List.filter_congr fun r _ => ?_
    by_cases hr : row.id < r.id
    · simp [hr, lt_trans hk hr]
    · simp [hr]
  rw [hnest, h]
  exact filter_lt_of_split (h ▸ rowsAfter_sorted log k)

/-! ## The fold over the rows -/

/-- `expected` after a list of rows. -/
def carriedHash (expected : Option String) (rows : List AuditRow) : Option String :=
  rows.foldl (fun e row => if truthy row.rowHash then row.rowHash else e) expected

/-- The link candidates of a list of rows. -/
def mislinked (expected : Option String) : List AuditRow → List (Int × Option String)
  | [] => []
  | row :: rows =>
      let rest := mislinked (if truthy row.rowHash then row.rowHash else expected) rows
      if isLinked expected row then rest
      else (row.id, if truthy row.rowHash then row.previousHash else none) :: rest

/-- The ids of the altered rows. -/
def alteredIds (sha : Sha256) (withHashVersion : Bool) (rows : List AuditRow) : List Int :=
  (rows.filter (isAltered sha withHashVersion)).map AuditRow.id

@[simp] theorem carriedHash_nil (e : Option String) : carriedHash e [] = e := rfl

theorem carriedHash_append (e : Option String) (as bs : List AuditRow) :
    carriedHash e (as ++ bs) = carriedHash (carriedHash e as) bs := List.foldl_append

theorem mislinked_append (e : Option String) (as bs : List AuditRow) :
    mislinked e (as ++ bs) = mislinked e as ++ mislinked (carriedHash e as) bs := by
  induction as generalizing e with
  | nil => rfl
  | cons row rows ih =>
    have hstep : carriedHash e (row :: rows)
        = carriedHash (if truthy row.rowHash then row.rowHash else e) rows := rfl
    simp only [List.cons_append, mislinked, ih, hstep]
    split <;> simp

theorem alteredIds_append (sha : Sha256) (hv : Bool) (as bs : List AuditRow) :
    alteredIds sha hv (as ++ bs) = alteredIds sha hv as ++ alteredIds sha hv bs := by
  simp [alteredIds]

section
variable (sha : Sha256) (hv : Bool)

/-- The scan after a list of rows. -/
abbrev scanRows (scan : Scan) (rows : List AuditRow) : Scan := rows.foldl (scanRow sha hv) scan

theorem scanRows_expected (scan : Scan) (rows : List AuditRow) :
    (scanRows sha hv scan rows).expected = carriedHash scan.expected rows := by
  induction rows generalizing scan with
  | nil => rfl
  | cons row rows ih => exact ih (scanRow sha hv scan row)

theorem scanRows_verified (scan : Scan) (rows : List AuditRow) :
    (scanRows sha hv scan rows).verified = scan.verified + rows.length := by
  induction rows generalizing scan with
  | nil => rfl
  | cons row rows ih =>
    rw [scanRows, List.foldl_cons, ← scanRows, ih, List.length_cons]
    show scan.verified + 1 + rows.length = scan.verified + (rows.length + 1)
    omega

theorem scanRows_contentMismatchIds (scan : Scan) (rows : List AuditRow) :
    (scanRows sha hv scan rows).contentMismatchIds
      = scan.contentMismatchIds ++ alteredIds sha hv rows := by
  induction rows generalizing scan with
  | nil => simp [scanRows, alteredIds]
  | cons row rows ih =>
    rw [scanRows, List.foldl_cons, ← scanRows, ih]
    cases h : isAltered sha hv row <;> simp [scanRow, alteredIds, h]

theorem scanRows_linkCandidates (scan : Scan) (rows : List AuditRow) :
    (scanRows sha hv scan rows).linkCandidates
      = scan.linkCandidates ++ mislinked scan.expected rows := by
  induction rows generalizing scan with
  | nil => simp [scanRows, mislinked]
  | cons row rows ih =>
    rw [scanRows, List.foldl_cons, ← scanRows, ih, mislinked]
    cases h : isLinked scan.expected row <;> simp [scanRow, h]

theorem scanRows_concat_lastId (scan : Scan) (rows : List AuditRow) (row : AuditRow) :
    (scanRows sha hv scan (rows ++ [row])).lastId = row.id := by
  simp [scanRows, scanRow]

/-- After a scan of the first `n` rows that follow `lastId`, the rows that follow are the
other ones. -/
theorem rowsAfter_scanRows (log : AuditLog) (scan : Scan) (n : Nat) :
    log.rowsAfter (scanRows sha hv scan ((log.rowsAfter scan.lastId).take n)).lastId
      = (log.rowsAfter scan.lastId).drop n := by
  rcases List.eq_nil_or_concat ((log.rowsAfter scan.lastId).take n) with hnil | ⟨pre, row, hrow⟩
  · have hlen : n = 0 ∨ log.rowsAfter scan.lastId = [] := List.take_eq_nil_iff.mp hnil
    rcases hlen with rfl | hempty
    · rw [List.take_zero, List.drop_zero]
      rfl
    · rw [hempty, List.take_nil, List.drop_nil]
      exact hempty
  · rw [List.concat_eq_append] at hrow
    have hsplit := List.take_append_drop n (log.rowsAfter scan.lastId)
    rw [hrow] at hsplit ⊢
    rw [scanRows_concat_lastId]
    exact rowsAfter_id (hsplit.symm.trans (List.append_assoc pre [row] _))

/-! ## The loop over the chunks -/

/-- The rows a run reads of the rows that follow. -/
def within (maxRows : Option Nat) (verified : Nat) (rest : List AuditRow) : List AuditRow :=
  match maxRows with
  | none => rest
  | some most => rest.take (most - verified)

/-- A chunk, then the rows a run reads after it, are the rows it reads. -/
private theorem within_split {maxRows : Option Nat} {chunkSize verified limit : Nat}
    (hlimit : scanLimit maxRows chunkSize verified = some limit) (rest : List AuditRow) :
    rest.take limit ++ within maxRows (verified + (rest.take limit).length) (rest.drop limit)
      = within maxRows verified rest := by
  cases maxRows with
  | none => exact List.take_append_drop limit rest
  | some most =>
    simp only [scanLimit] at hlimit
    split at hlimit
    · cases hlimit
    · cases hlimit
      simp only [within, List.length_take]
      rcases Nat.le_total rest.length (min chunkSize (most - verified)) with hle | hle
      · rw [List.drop_eq_nil_of_le hle, List.take_of_length_le hle, List.take_nil,
          List.append_nil, List.take_of_length_le (by omega)]
      · have hsplit : most - verified = min chunkSize (most - verified)
            + (most - (verified + min chunkSize (most - verified))) := by omega
        rw [Nat.min_eq_left hle]
        conv_rhs => rw [hsplit, List.take_add]

/-- The loop over the chunks is one fold over the rows it may read, and it is complete when
it read all rows that follow. The fuel is enough when it exceeds their number. -/
theorem scanLoop_eq (log : AuditLog) (maxRows : Option Nat) {chunkSize : Nat}
    (hchunk : 0 < chunkSize) (fuel : Nat) (scan : Scan)
    (hfuel : (log.rowsAfter scan.lastId).length < fuel) :
    scanLoop sha hv log maxRows chunkSize fuel scan
      = some (scanRows sha hv scan (within maxRows scan.verified (log.rowsAfter scan.lastId)),
          decide ((within maxRows scan.verified (log.rowsAfter scan.lastId)).length
            = (log.rowsAfter scan.lastId).length)) := by
  induction fuel generalizing scan with
  | zero => exact absurd hfuel (Nat.not_lt_zero _)
  | succ fuel ih =>
    rw [scanLoop]
    cases hlimit : scanLimit maxRows chunkSize scan.verified with
    | none =>
      -- `maxRows` rows were read.
      cases maxRows with
      | none => simp [scanLimit] at hlimit
      | some most =>
        have hmost : most - scan.verified = 0 := by
          simp only [scanLimit, ite_eq_left_iff] at hlimit
          by_contra hne
          exact absurd (hlimit (by omega)) (by simp)
        simp only [within, hmost, List.take_zero]
        cases log.rowsAfter scan.lastId <;> simp [scanRows]
    | some limit =>
      have hpos : 0 < limit := by
        cases maxRows with
        | none =>
          simp only [scanLimit, Option.some.injEq] at hlimit
          omega
        | some most =>
          simp only [scanLimit] at hlimit
          split at hlimit
          · cases hlimit
          · cases hlimit
            omega
      have hsplit := within_split hlimit (log.rowsAfter scan.lastId)
      have hrest := rowsAfter_scanRows sha hv log scan limit
      have hverified := scanRows_verified sha hv scan ((log.rowsAfter scan.lastId).take limit)
      simp only [List.isEmpty_iff, List.take_eq_nil_iff]
      split
      · rename_i hempty
        have hnil : log.rowsAfter scan.lastId = [] := by
          rcases hempty with h | h
          · omega
          · exact h
        cases maxRows <;> simp [within, hnil, scanRows]
      · rename_i hsome
        push Not at hsome
        have hlen : 0 < (log.rowsAfter scan.lastId).length :=
          List.length_pos_iff.mpr hsome.2
        split
        · rename_i hshort
          -- The last chunk of an unbounded run is shorter than the limit.
          simp only [List.length_take, Bool.and_eq_true, decide_eq_true_eq,
            Option.isNone_iff_eq_none] at hshort
          obtain ⟨hlt, rfl⟩ := hshort
          rw [List.take_of_length_le (by omega)]
          simp [within, scanRows]
        · rw [← scanRows, ih _ (by rw [hrest, List.length_drop]; omega), hrest, hverified,
            ← hsplit, scanRows, scanRows, scanRows, List.foldl_append]
          congr 2
          rw [decide_eq_decide, List.length_append, List.length_drop, List.length_take]
          omega

end

/-! ## One run -/

section
variable (sha : Sha256) {client : Client} (log : AuditLog) (args : VerifyArgs)

/-- The scan of a run that starts after `afterId`. -/
def finalScan (afterId : Int) (expected : Option String) : Scan :=
  scanRows sha log.hasHashVersion (Scan.start afterId expected)
    (within args.maxRows 0 (log.rowsAfter afterId))

/-- A run that scans ends, whatever the chunk size, and its result is that of one fold. -/
theorem verifyChain_scan {log : AuditLog} {args : VerifyArgs} {afterId : Int}
    {expected : Option String} {anchor : Option Anchor} {unhashed : Int} (hchunk : 0 < args.chunkSize)
    (hbegin : beginning client log args = .ok (.scan afterId expected anchor unhashed)) :
    verifyChain sha client log args
      = .ok (conclude log args anchor unhashed (finalScan sha log args afterId expected)
          (decide ((within args.maxRows 0 (log.rowsAfter afterId)).length
            = (log.rowsAfter afterId).length))) := by
  have hfuel : (log.rowsAfter (Scan.start afterId expected).lastId).length
      < log.rows.length + 1 :=
    Nat.lt_succ_of_le (List.length_filter_le _ _)
  unfold verifyChain
  rw [hbegin]
  simp only [bind, Except.bind]
  rw [scanLoop_eq sha log.hasHashVersion log args.maxRows hchunk _ _ hfuel]
  rfl

/-- With chunks of no rows a run ends before its first row. -/
theorem verifyChain_no_chunk {log : AuditLog} {args : VerifyArgs} {afterId : Int}
    {expected : Option String} {anchor : Option Anchor} {unhashed : Int}
    (hchunk : args.chunkSize = 0) (hmax : ∀ most, args.maxRows = some most → 0 < most)
    (hbegin : beginning client log args = .ok (.scan afterId expected anchor unhashed)) :
    verifyChain sha client log args
      = .ok (conclude log args anchor unhashed (Scan.start afterId expected) true) := by
  have hlimit : scanLimit args.maxRows args.chunkSize (Scan.start afterId expected).verified
      = some 0 := by
    show scanLimit args.maxRows args.chunkSize 0 = some 0
    cases hmost : args.maxRows with
    | none => simp [scanLimit, hchunk]
    | some most =>
      have := hmax most hmost
      rw [scanLimit, if_neg (by omega), hchunk, Nat.zero_min]
  unfold verifyChain
  rw [hbegin]
  simp only [bind, Except.bind, scanLoop, hlimit]
  rfl

@[simp] theorem finalScan_expected (afterId : Int) (expected : Option String) :
    (finalScan sha log args afterId expected).expected
      = carriedHash expected (within args.maxRows 0 (log.rowsAfter afterId)) :=
  scanRows_expected ..

@[simp] theorem finalScan_contentMismatchIds (afterId : Int) (expected : Option String) :
    (finalScan sha log args afterId expected).contentMismatchIds
      = alteredIds sha log.hasHashVersion (within args.maxRows 0 (log.rowsAfter afterId)) := by
  simp [finalScan, scanRows_contentMismatchIds, Scan.start]

@[simp] theorem finalScan_linkCandidates (afterId : Int) (expected : Option String) :
    (finalScan sha log args afterId expected).linkCandidates
      = mislinked expected (within args.maxRows 0 (log.rowsAfter afterId)) := by
  simp [finalScan, scanRows_linkCandidates, Scan.start]

end

end TrustPortal.Proofs.Audit
