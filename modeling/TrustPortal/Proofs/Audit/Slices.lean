import TrustPortal.Proofs.Audit.Content
import Mathlib.Data.PNat.Defs

/-!
# `TrustPortal.Proofs.Audit.Slices`: a verification in slices

A slice hands the next one an id and a hash, the last non-empty `row_hash` so far
(`carriedHash`). The links of a later row are classified against the whole table, so no
finding depends on where the cuts are: `slice_result` gives the findings of one slice, and
their concatenation is what an unbounded run finds.

A slice is refused when the carried hash is not 64 hexadecimal characters. An altered row
at a cut can carry any text as its `row_hash`, and a verification in slices then ends with
an error that an unbounded run does not have. `slices_agree_iff` shows that this is the
only difference.
-/

set_option autoImplicit false

namespace TrustPortal.Proofs.Audit

open TrustPortal.Sql
open TrustPortal.Audit
open TrustPortal.Lib

/-- The number of rows the first `i` slices may read. -/
def cut (sizes : Nat → ℕ+) : Nat → Nat
  | 0 => 0
  | i + 1 => cut sizes i + sizes i

/-- The hash handed on at the cut after `n` rows of the chain. -/
def hashAtCut (log : AuditLog) (n : Nat) : Option String :=
  carriedHash (startHash log) ((chainRows log).take n)

/-- Every cut with rows left after it hands on a hash that the next slice accepts. -/
def CutsResume (log : AuditLog) (sizes : Nat → ℕ+) : Prop :=
  ∀ i, cut sizes (i + 1) < (chainRows log).length →
    ∃ hash, hashAtCut log (cut sizes (i + 1)) = some hash ∧ hex64Match hash = true

/-- The arguments of a slice. -/
def sliceArgs (args : VerifyArgs) (size : ℕ+) (afterId : Option Int) (expected : Option String) :
    VerifyArgs :=
  { args with afterId := afterId, expectedPreviousHash := expected, maxRows := some size }

/-- The findings of `rows` when the hash before them is `expected`. -/
structure FindingsOf (sha : Sha256) (log : AuditLog) (expected : Option String)
    (rows : List AuditRow) (runs : List Verification) : Prop where
  contentMismatchIds : runs.flatMap Verification.contentMismatchIds
    = alteredIds sha log.hasHashVersion rows
  forkIds : runs.flatMap Verification.forkIds
    = (classifyLinks log (mislinked expected rows)).1
  trueBreakIds : runs.flatMap Verification.trueBreakIds
    = (classifyLinks log (mislinked expected rows)).2

/-- The classification of a list of candidates is that of its parts. -/
theorem classifyLinks_append (log : AuditLog) (as bs : List (Int × Option String)) :
    classifyLinks log (as ++ bs)
      = ((classifyLinks log as).1 ++ (classifyLinks log bs).1,
          (classifyLinks log as).2 ++ (classifyLinks log bs).2) := by
  simp [classifyLinks]

/-- The findings of one run over `as` and of the runs over `bs` are those over `as ++ bs`. -/
theorem FindingsOf.cons {sha : Sha256} {log : AuditLog} {expected : Option String}
    {as bs : List AuditRow} {run : Verification} {runs : List Verification}
    (has : FindingsOf sha log expected as [run])
    (hbs : FindingsOf sha log (carriedHash expected as) bs runs) :
    FindingsOf sha log expected (as ++ bs) (run :: runs) := by
  have h := classifyLinks_append log (mislinked expected as)
    (mislinked (carriedHash expected as) bs)
  refine ⟨?_, ?_, ?_⟩
  · rw [alteredIds_append, ← has.contentMismatchIds, ← hbs.contentMismatchIds]
    simp
  · rw [mislinked_append, h]
    simp only [← has.forkIds, ← hbs.forkIds]
    simp
  · rw [mislinked_append, h]
    simp only [← has.trueBreakIds, ← hbs.trueBreakIds]
    simp

/-- The slice `i` begins at its cut: its scan reads the rows of the chain after the first
`cut sizes i`, and it expects the hash of that cut. -/
def BeginsAt (client : Client) (log : AuditLog) (args : VerifyArgs) (sizes : Nat → ℕ+) (i : Nat)
    (afterId : Option Int) (expected : Option String) : Prop :=
  ∃ scanAfter anchor unhashed,
    beginning client log (sliceArgs args (sizes i) afterId expected)
      = .ok (.scan scanAfter (hashAtCut log (cut sizes i)) anchor unhashed) ∧
    log.rowsAfter scanAfter = (chainRows log).drop (cut sizes i)

section
variable (sha : Sha256) {client : Client} {log : AuditLog} {args : VerifyArgs}
  {sizes : Nat → ℕ+} {i : Nat} {afterId : Option Int} {expected : Option String}

/-- The first slice begins at the start of the chain. -/
theorem beginsAt_zero (hread : StartReadable client log) (hchain : chainRows log ≠ []) :
    BeginsAt client log args sizes 0 none none := by
  rcases findChainStart_readable hread with ⟨hnil, _⟩ | ⟨hnil, _⟩ | ⟨_, start, hstart,
    hunhashed, hexpected, _, hafter⟩
  · obtain ⟨pre, heq, _⟩ := chainRows_eq_drop log
    rw [hnil] at heq
    exact absurd (List.append_eq_nil_iff.mp heq.symm).2 hchain
  · exact absurd hnil hchain
  · refine ⟨start.afterId, start.anchor, start.unhashedEntries, ?_, by simpa [cut] using hafter⟩
    unfold beginning
    simp only [sliceArgs, hstart, bind, Except.bind, if_neg hunhashed]
    rw [hashAtCut, cut, List.take_zero, carriedHash_nil, ← hexpected]
    rfl

/-- A later slice that is handed a usable hash and the last id before its cut begins
there. -/
theorem beginsAt_succ (hread : StartReadable client log) {lastId : Int} {hash : String}
    (hhash : hashAtCut log (cut sizes i) = some hash) (hhex : hex64Match hash = true)
    (hafter : log.rowsAfter lastId = (chainRows log).drop (cut sizes i)) :
    BeginsAt client log args sizes i (some lastId) (some hash) := by
  have hstart : ∃ start, findChainStart client log = .ok start := by
    rcases findChainStart_readable hread with ⟨_, h⟩ | ⟨_, _, h, _⟩ | ⟨_, _, h, _⟩
    · exact ⟨_, h⟩
    · exact ⟨_, h⟩
    · exact ⟨_, h⟩
  obtain ⟨start, hstart⟩ := hstart
  refine ⟨lastId, start.bind ChainStart.anchor, 0, ?_, hafter⟩
  unfold beginning
  simp only [sliceArgs, Option.any_some, hhex, hstart, hhash]
  rfl

/-- A later slice that is handed any other hash raises. -/
theorem verifyChain_refused (client : Client) (log : AuditLog) (args : VerifyArgs) (size : ℕ+)
    (lastId : Int) (h : ∀ hash, expected = some hash → hex64Match hash = false) :
    ∃ e, verifyChain sha client log (sliceArgs args size (some lastId) expected)
      = .error e := by
  have hany : (expected.any fun hash => hex64Match hash) = false := by
    cases expected with
    | none => rfl
    | some hash => simpa using h hash rfl
  refine ⟨.auditChain "expected_previous_hash (64 hex chars) is required with after_id", ?_⟩
  unfold verifyChain beginning
  simp only [sliceArgs, hany]
  rfl

/-- The hash at the next cut is carried over the rows of the slice. -/
private theorem hashAtCut_succ (log : AuditLog) (sizes : Nat → ℕ+) (i : Nat) :
    hashAtCut log (cut sizes (i + 1)) = carriedHash (hashAtCut log (cut sizes i))
      (((chainRows log).drop (cut sizes i)).take (sizes i)) := by
  simp only [hashAtCut, cut, List.take_add, carriedHash_append]

/-- One slice: what it finds, whether it is complete, and what it hands on. -/
theorem slice_result (hchunk : 0 < args.chunkSize)
    (hbegin : BeginsAt client log args sizes i afterId expected) :
    ∃ run, verifyChain sha client log (sliceArgs args (sizes i) afterId expected) = .ok run ∧
      FindingsOf sha log (hashAtCut log (cut sizes i))
        (((chainRows log).drop (cut sizes i)).take (sizes i)) [run] ∧
      (run.complete = true ↔ (chainRows log).length ≤ cut sizes (i + 1)) ∧
      (run.complete = false → run.expectedPreviousHash = hashAtCut log (cut sizes (i + 1)) ∧
        ∃ lastId, run.nextAfterId = some lastId ∧
          log.rowsAfter lastId = (chainRows log).drop (cut sizes (i + 1))) := by
  obtain ⟨scanAfter, anchor, unhashed, hbegin, hafter⟩ := hbegin
  have hrun := verifyChain_scan sha
    (show 0 < (sliceArgs args (sizes i) afterId expected).chunkSize from hchunk) hbegin
  have hwithin : within (sliceArgs args (sizes i) afterId expected).maxRows 0
      (log.rowsAfter scanAfter) = ((chainRows log).drop (cut sizes i)).take (sizes i) := by
    rw [hafter]
    rfl
  refine ⟨_, hrun, ⟨?_, ?_, ?_⟩, ?_, ?_⟩
  · simp [conclude, hwithin]
  · simp [conclude, hwithin]
  · simp [conclude, hwithin]
  · show decide ((within (sliceArgs args (sizes i) afterId expected).maxRows 0
      (log.rowsAfter scanAfter)).length = (log.rowsAfter scanAfter).length) = true ↔ _
    rw [hwithin, hafter, decide_eq_true_eq, List.length_take, List.length_drop, cut]
    omega
  · intro hcomplete
    have hfalse : decide ((within (sliceArgs args (sizes i) afterId expected).maxRows 0
        (log.rowsAfter scanAfter)).length = (log.rowsAfter scanAfter).length) = false := hcomplete
    refine ⟨?_, (finalScan sha log (sliceArgs args (sizes i) afterId expected) scanAfter
      (hashAtCut log (cut sizes i))).lastId, ?_, ?_⟩
    · rw [hashAtCut_succ, ← hwithin, ← finalScan_expected sha]
      simp only [conclude, hfalse, Bool.false_eq_true, if_false]
    · simp only [conclude, hfalse, Bool.false_eq_true, if_false]
    · have hrest := rowsAfter_scanRows sha log.hasHashVersion log
        (Scan.start scanAfter (hashAtCut log (cut sizes i))) (sizes i)
      have hstart : (Scan.start scanAfter (hashAtCut log (cut sizes i))).lastId = scanAfter := rfl
      rw [hstart, hafter, List.drop_drop] at hrest
      rw [finalScan, hwithin, hrest, cut]

/-- One slice and the slices after it. -/
theorem verifySlices_succ (fuel : Nat) :
    verifySlices sha client log args sizes (fuel + 1) i afterId expected
      = (verifyChain sha client log (sliceArgs args (sizes i) afterId expected)).bind fun run =>
          if run.complete then .ok (some [run])
          else (verifySlices sha client log args sizes fuel (i + 1) run.nextAfterId
            run.expectedPreviousHash).map fun runs => runs.map (run :: ·) := rfl

/-- The rows from a cut on are those of the slice and those from the next cut on. -/
private theorem drop_cut (sizes : Nat → ℕ+) (i : Nat) (rows : List AuditRow) :
    rows.drop (cut sizes i)
      = (rows.drop (cut sizes i)).take (sizes i) ++ rows.drop (cut sizes (i + 1)) := by
  rw [cut, ← List.drop_drop, List.take_append_drop]

/-- With usable hashes at the cuts the slices end, and together they find what there is from
their first cut on. The induction is on the fuel, more than the rows left: every slice reads
at least one row. -/
theorem slices_end (hchunk : 0 < args.chunkSize) (hread : StartReadable client log)
    (hcuts : CutsResume log sizes) (fuel : Nat)
    (hbegin : BeginsAt client log args sizes i afterId expected)
    (hfuel : (chainRows log).length - cut sizes i < fuel) :
    ∃ runs, verifySlices sha client log args sizes fuel i afterId expected = .ok (some runs) ∧
      FindingsOf sha log (hashAtCut log (cut sizes i)) ((chainRows log).drop (cut sizes i))
        runs := by
  induction fuel generalizing i afterId expected with
  | zero => exact absurd hfuel (Nat.not_lt_zero _)
  | succ fuel ih =>
    obtain ⟨run, hrun, hfindings, hcomplete, hnext⟩ := slice_result sha hchunk hbegin
    rw [verifySlices_succ, hrun, Except.bind]
    have hsize : 0 < (sizes i : Nat) := (sizes i).pos
    have hcut : cut sizes (i + 1) = cut sizes i + sizes i := rfl
    cases hdone : run.complete with
    | true =>
      refine ⟨[run], rfl, ?_⟩
      have hle := hcomplete.mp hdone
      rw [List.take_of_length_le (by rw [List.length_drop]; omega)] at hfindings
      exact hfindings
    | false =>
      have hlt : cut sizes (i + 1) < (chainRows log).length := by
        by_contra hle
        rw [hcomplete.mpr (by omega)] at hdone
        cases hdone
      obtain ⟨hexpected, lastId, hlast, hafter⟩ := hnext hdone
      obtain ⟨hash, hhash, hhex⟩ := hcuts i hlt
      have hbegin' : BeginsAt client log args sizes (i + 1) run.nextAfterId
          run.expectedPreviousHash := by
        rw [hlast, hexpected, hhash]
        exact beginsAt_succ hread hhash hhex hafter
      obtain ⟨runs, hruns, hrest⟩ := ih hbegin' (by omega)
      refine ⟨run :: runs, by simp [hruns, Except.map], ?_⟩
      rw [drop_cut]
      rw [hashAtCut_succ] at hrest
      exact hfindings.cons hrest

/-- When the slices from a cut on end, every later cut with rows after it handed on a usable
hash. -/
theorem cutsResume_of_slices_end (hchunk : 0 < args.chunkSize)
    (hread : StartReadable client log) (fuel : Nat)
    (hbegin : BeginsAt client log args sizes i afterId expected) {runs : List Verification}
    (hend : verifySlices sha client log args sizes fuel i afterId expected = .ok (some runs))
    (j : Nat) (hj : i ≤ j) (hlt : cut sizes (j + 1) < (chainRows log).length) :
    ∃ hash, hashAtCut log (cut sizes (j + 1)) = some hash ∧ hex64Match hash = true := by
  induction fuel generalizing i afterId expected runs with
  | zero => cases hend
  | succ fuel ih =>
    obtain ⟨run, hrun, _, hcomplete, hnext⟩ := slice_result sha hchunk hbegin
    rw [verifySlices_succ, hrun, Except.bind] at hend
    have hmono : cut sizes (i + 1) ≤ cut sizes (j + 1) :=
      monotone_nat_of_le_succ (fun n => Nat.le_add_right _ _) (by omega)
    have hdone : run.complete = false := by
      cases hdone : run.complete with
      | false => rfl
      | true =>
        have := hcomplete.mp hdone
        omega
    obtain ⟨hexpected, lastId, hlast, hafter⟩ := hnext hdone
    simp only [hdone, Bool.false_eq_true, if_false] at hend
    obtain ⟨rest, hrest, hcons⟩ := map_eq_ok.mp hend
    cases rest with
    | none => cases hcons
    | some rest =>
      -- The next slice ran, so it was handed a usable hash.
      have husable : ∃ hash, hashAtCut log (cut sizes (i + 1)) = some hash ∧
          hex64Match hash = true := by
        by_contra hnot
        have hbad : ∀ hash, run.expectedPreviousHash = some hash → hex64Match hash = false := by
          intro hash hhash
          by_contra hhex
          exact hnot ⟨hash, hexpected ▸ hhash, by simpa using hhex⟩
        obtain ⟨e, herror⟩ := verifyChain_refused sha client log args (sizes (i + 1)) lastId hbad
        cases fuel with
        | zero => cases hrest
        | succ fuel =>
          rw [verifySlices_succ, hlast, herror] at hrest
          cases hrest
      rcases Nat.lt_or_ge i j with hij | hij
      · obtain ⟨hash, hhash, hhex⟩ := husable
        have hbegin' : BeginsAt client log args sizes (i + 1) run.nextAfterId
            run.expectedPreviousHash := by
          rw [hlast, hexpected, hhash]
          exact beginsAt_succ hread hhash hhex hafter
        exact ih hbegin' hrest hij
      · obtain rfl : i = j := le_antisymm hj hij
        exact husable

/-! ## The slices and an unbounded run -/

/-- The slices end, an unbounded run ends too, and the slices' findings, one slice after the
other, are those of the unbounded run. -/
def SlicesAgree (sha : Sha256) (client : Client) (log : AuditLog) (chunkSize : Nat)
    (witness : Option HeadScan) (verifier : Option (Anchor → AnchorVerification))
    (sizes : Nat → ℕ+) : Prop :=
  ∃ fuel runs whole,
    verifySlices sha client log (unbounded chunkSize witness verifier) sizes fuel 0 none none
      = .ok (some runs) ∧
    verifyChain sha client log (unbounded chunkSize witness verifier) = .ok whole ∧
    runs.flatMap Verification.contentMismatchIds = whole.contentMismatchIds ∧
    runs.flatMap Verification.forkIds = whole.forkIds ∧
    runs.flatMap Verification.trueBreakIds = whole.trueBreakIds

/-- A run whose chunks hold no row finds nothing and is complete. -/
private theorem findings_no_chunk (args : VerifyArgs) (hread : StartReadable client log)
    (hchunk : args.chunkSize = 0) (hafter : args.afterId = none)
    (hmax : ∀ most, args.maxRows = some most → 0 < most) :
    ∃ run, verifyChain sha client log args = .ok run ∧ run.complete = true ∧
      run.contentMismatchIds = [] ∧ run.forkIds = [] ∧ run.trueBreakIds = [] := by
  rcases findChainStart_readable hread with ⟨_, hstart⟩ | ⟨_, start, hstart, hunhashed⟩
    | ⟨_, start, hstart, hchain⟩
  · exact ⟨.nothing .empty, by simp only [verifyChain, beginning, hafter, hstart]; rfl, rfl, rfl,
      rfl, rfl⟩
  · exact ⟨.nothing .noHashes, by
      simp only [verifyChain, beginning, hafter, hstart, bind, Except.bind, if_pos hunhashed]
      rfl, rfl, rfl, rfl, rfl⟩
  · have hbegin : beginning client log args = .ok (.scan start.afterId
        start.expectedPreviousHash start.anchor start.unhashedEntries) := by
      unfold beginning
      simp only [hafter, hstart, bind, Except.bind, if_neg hchain.unhashedEntries]
      rfl
    exact ⟨_, verifyChain_no_chunk sha hchunk hmax hbegin, rfl, rfl,
      by simp [conclude, classifyLinks, Scan.start],
      by simp [conclude, classifyLinks, Scan.start]⟩

/-- When a verification in slices agrees with an unbounded run: the first row can be read,
and the chunks are empty or every cut hands on a usable hash. -/
theorem slices_agree_iff (sha : Sha256) (client : Client) (log : AuditLog) (chunkSize : Nat)
    (witness : Option HeadScan) (verifier : Option (Anchor → AnchorVerification))
    (sizes : Nat → ℕ+) :
    SlicesAgree sha client log chunkSize witness verifier sizes ↔
      StartReadable client log ∧ (chunkSize = 0 ∨ CutsResume log sizes) := by
  set args := unbounded chunkSize witness verifier with hargs
  constructor
  · rintro ⟨fuel, runs, whole, hslices, hwhole, _⟩
    have hread : StartReadable client log := by
      by_contra hread
      obtain ⟨column, herror⟩ := verifyChain_unbounded_error sha witness verifier
        chunkSize hread
      rw [← hargs, hwhole] at herror
      cases herror
    refine ⟨hread, (Nat.eq_zero_or_pos chunkSize).imp_right fun hchunk j hlt => ?_⟩
    have hchain : chainRows log ≠ [] := fun hnil => by simp [hnil] at hlt
    exact cutsResume_of_slices_end sha (show 0 < args.chunkSize from hchunk) hread fuel
      (beginsAt_zero hread hchain) hslices j (Nat.zero_le j) hlt
  · rintro ⟨hread, hcuts⟩
    rcases Nat.eq_zero_or_pos chunkSize with hzero | hchunk
    · -- Empty chunks: one slice, complete at once.
      obtain ⟨whole, hwhole, _, hw₁, hw₂, hw₃⟩ := findings_no_chunk sha args
        hread hzero rfl (fun most h => by cases h)
      obtain ⟨run, hrun, hdone, hr₁, hr₂, hr₃⟩ := findings_no_chunk sha
        (sliceArgs args (sizes 0) none none) hread hzero rfl
        (fun most h => by cases h; exact (sizes 0).pos)
      refine ⟨1, [run], whole, ?_, hwhole, ?_, ?_, ?_⟩
      · rw [verifySlices_succ, hrun, Except.bind, if_pos hdone]
      · simp [hw₁, hr₁]
      · simp [hw₂, hr₂]
      · simp [hw₃, hr₃]
    · have hcuts : CutsResume log sizes := hcuts.resolve_left (by omega)
      by_cases hchain : chainRows log = []
      · -- No chain: one slice that answers `empty` or `no_hashes`.
        obtain ⟨run, hrun, hdone, hwhole⟩ : ∃ run : Verification,
            verifyChain sha client log (sliceArgs args (sizes 0) none none) = .ok run ∧
            run.complete = true ∧ verifyChain sha client log args = .ok run := by
          rcases findChainStart_readable hread with ⟨_, hstart⟩ | ⟨_, start, hstart, hunhashed⟩
            | ⟨hne, _⟩
          · exact ⟨.nothing .empty, by simp only [verifyChain, beginning, sliceArgs, hstart]; rfl,
              rfl, by simp only [verifyChain, beginning, args, unbounded, hstart]; rfl⟩
          · refine ⟨.nothing .noHashes, ?_, rfl, ?_⟩
            · simp only [verifyChain, beginning, sliceArgs, hstart, bind, Except.bind,
                if_pos hunhashed]
              rfl
            · simp only [verifyChain, beginning, args, unbounded, hstart, bind, Except.bind,
                if_pos hunhashed]
              rfl
          · exact absurd hchain hne
        refine ⟨1, [run], run, ?_, hwhole, by simp, by simp, by simp⟩
        rw [verifySlices_succ, hrun, Except.bind, if_pos hdone]
      · obtain ⟨anchor, unhashed, scan, hwhole, _, hmismatches, hcandidates⟩ :=
          verifyChain_unbounded sha witness verifier hchunk hread hchain
        obtain ⟨runs, hruns, hfindings⟩ := slices_end sha (show 0 < args.chunkSize from hchunk)
          hread hcuts ((chainRows log).length + 1) (beginsAt_zero hread hchain) (by omega)
        have hstart : hashAtCut log (cut sizes 0) = startHash log := rfl
        rw [hstart, cut, List.drop_zero] at hfindings
        refine ⟨_, runs, _, hruns, hwhole, ?_, ?_, ?_⟩
        · rw [hfindings.contentMismatchIds]
          exact hmismatches.symm
        · rw [hfindings.forkIds, ← hcandidates]
          rfl
        · rw [hfindings.trueBreakIds, ← hcandidates]
          rfl

end

/-! ## A hash that stops the slices -/

/-- The two rows, the hash of the first one overwritten with the text `0`. -/
def shortHashLog : AuditLog :=
  ⟨true, [{ controlRow with rowHash := some "0" }, secondControlRow], by decide⟩

set_option maxRecDepth 8000 in
/-- An unbounded run reports both rows. Slices of one row never end with a result: the
second one refuses the hash it is handed. -/
theorem short_hash_stops_slices :
    (∃ run, verifyChain twoControlsSha controlClient shortHashLog (unbounded 20000 none none)
      = .ok run ∧ run.contentMismatchIds = [1] ∧ run.trueBreakIds = [2]) ∧
    (∀ fuel runs, verifySlices twoControlsSha controlClient shortHashLog
      (unbounded 20000 none none) (fun _ => 1) fuel 0 none none ≠ .ok (some runs)) ∧
    ¬SlicesAgree twoControlsSha controlClient shortHashLog 20000 none none fun _ => 1 := by
  obtain ⟨run, hrun, _, hmismatches, _, hbreaks⟩ := findings_eq_some
    (show findings (verifyChain twoControlsSha controlClient shortHashLog
      (unbounded 20000 none none)) = some (.broken, [1], [], [2]) by decide)
  have hread : StartReadable controlClient shortHashLog :=
    .of_first { controlRow with rowHash := some "0" } "2026-09-28T12:00:00.123456+00:00" rfl
      (by decide) rfl (by decide)
  have hstop : ∀ fuel runs, verifySlices twoControlsSha controlClient shortHashLog
      (unbounded 20000 none none) (fun _ => 1) fuel 0 none none ≠ .ok (some runs) := by
    intro fuel runs hend
    obtain ⟨hash, hhash, hhex⟩ := cutsResume_of_slices_end twoControlsSha (by decide) hread
      fuel (beginsAt_zero hread (by decide)) hend 0 (by decide) (by decide)
    cases (show hashAtCut shortHashLog 1 = some "0" by decide).symm.trans hhash
    exact absurd hhex (by decide)
  exact ⟨⟨run, hrun, hmismatches, hbreaks⟩, hstop,
    fun ⟨fuel, runs, _, hend, _⟩ => hstop fuel runs hend⟩

end TrustPortal.Proofs.Audit
