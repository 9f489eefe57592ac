import Mathlib.Data.List.Perm.Basic
import TrustPortal.EvidenceStore.Verify
import TrustPortal.Proofs.EvidenceStore.Groups

/-!
# `TrustPortal.Proofs.EvidenceStore.RecordSlices`: what a slice of the records checks

A slice checks the records of some pages, and what a page notes of a record is in two loops over
the page. `recordNotes` is what it notes of the record alone. `pageNotes_perm` says that a page
notes nothing else, in another order, where no two records name one holder with different version
ids (`OneVersionPerHolder`): `outcome_facts` keeps one version id for each holder.

`Scanned` relates the state before and after some records. One page keeps it (`checkPage_scanned`),
and so does the loop (`recordLoop_scanned`), which also says where it stops: what was left is what
was checked, followed by what the next position leaves. `verifyRecords_slice` is the result.
-/

set_option autoImplicit false

namespace TrustPortal.Proofs.EvidenceStore

open TrustPortal.EvidenceStore
open TrustPortal.Sql
open TrustPortal.Lib

/-! ## Capped lists -/

section
variable {ι α : Type} [DecidableEq ι]

/-- The entries of one list. -/
def named (name : ι) (notes : List (ι × α)) : List α :=
  (notes.filter fun note => decide (note.1 = name)).map Prod.snd

@[simp] theorem named_append (name : ι) (a b : List (ι × α)) :
    named name (a ++ b) = named name a ++ named name b := by
  simp [named]

theorem named_perm {a b : List (ι × α)} (h : a.Perm b) (name : ι) :
    (named name a).Perm (named name b) :=
  (h.filter _).map _

theorem named_flatMap {β : Type} (name : ι) (xs : List β) (f : β → List (ι × α)) :
    named name (xs.flatMap f) = xs.flatMap fun x => named name (f x) := by
  induction xs with
  | nil => rfl
  | cons x xs ih => rw [List.flatMap_cons, named_append, ih, List.flatMap_cons]

theorem add_append (found : Found ι α) (a b : List (ι × α)) :
    (found.add a).add b = found.add (a ++ b) :=
  (List.foldl_append ..).symm

/-- A list keeps the first `MAX_KEPT` of its entries and counts all. -/
theorem add_eq (found : Found ι α) (notes : List (ι × α)) (name : ι)
    (hkept : (found name).items.length ≤ MAX_KEPT) :
    found.add notes name = ⟨((found name).items ++ named name notes).take MAX_KEPT,
      (found name).count + (named name notes).length⟩ := by
  induction notes generalizing found with
  | nil =>
    show found name = _
    rw [named, List.filter_nil, List.map_nil, List.append_nil, List.take_of_length_le hkept]
    rfl
  | cons note notes ih =>
    obtain ⟨other, entry⟩ := note
    show Found.add (fun name => if name = other then (found name).add entry else found name)
      notes name = _
    by_cases hname : name = other
    · subst hname
      have hnamed : named name ((name, entry) :: notes) = entry :: named name notes := by
        simp [named]
      rw [hnamed]
      by_cases hroom : (found name).items.length < MAX_KEPT
      · have hlonger : ((found name).add entry).items.length ≤ MAX_KEPT := by
          rw [Capped.add, if_pos hroom, List.length_append, List.length_singleton]
          exact hroom
        rw [ih _ (by rwa [if_pos rfl])]
        simp [Capped.add, hroom]
        omega
      · -- A full list drops the entry and what comes after it.
        have hfull : (found name).items.length = MAX_KEPT := by omega
        rw [ih _ (by simp [Capped.add, hroom, hkept])]
        simp [Capped.add, ← hfull]
        omega
    · rw [ih _ (by simpa [hname] using hkept)]
      simp [hname, named, Ne.symm hname]

/-- The lists of a run that starts with none. -/
theorem add_empty_eq (notes : List (ι × α)) (name : ι) :
    Found.add (fun _ => Capped.empty) notes name
      = ⟨(named name notes).take MAX_KEPT, (named name notes).length⟩ := by
  rw [add_eq _ _ _ (Nat.zero_le _)]
  simp [Capped.empty]

/-- What is reported of a list. -/
theorem report_eq (notes : List (ι × α)) (name : ι) :
    (Found.add (fun _ => Capped.empty) notes name).report
      = (named name notes).take MAX_REPORTED := by
  rw [add_empty_eq, Capped.report, List.take_take]
  rfl

end

/-! ## One record -/

/-- An ingested pentest record. -/
def IngestedPentest (record : StoreObject) : Prop :=
  record.kind = .pentest ∧ record.status = .ingested

/-- No two ingested pentest records name one holder with different version ids. -/
def OneVersionPerHolder (store : Store) : Prop :=
  ∀ a ∈ store.objects.rows, ∀ b ∈ store.objects.rows,
    IngestedPentest a → IngestedPentest b → ∀ holder, store.holder a = some holder →
      store.holder b = some holder → a.versionId = b.versionId

section
variable (store : Store) (full : Bool)

/-- What the store says of a record, and its re-derivation. -/
def checkedAlone (record : StoreObject) : List CheckedRecord :=
  (toCheck [record]).map (store.checkRecord full (store.outcomeFacts [record]))

/-- What a verification notes of a record. -/
def recordNotes (record : StoreObject) : List Note :=
  store.outcomeNotes (store.outcomeFacts [record]) record
    ++ (checkedAlone store full record).flatMap CheckedRecord.notes

/-- The re-derivations of a record, none or one. -/
def recordRederived (record : StoreObject) : Nat :=
  ((checkedAlone store full record).map CheckedRecord.rederived).sum

/-- The bytes read of a record. -/
def recordBytes (record : StoreObject) : Nat :=
  ((checkedAlone store full record).map CheckedRecord.bytesRead).sum

end

section
variable {store : Store} {full : Bool} {record : StoreObject} {rows : List StoreObject}

/-- The holder of a record has its version id, whatever page the record stands in. -/
private theorem lookup_holder (hone : OneVersionPerHolder store)
    (hrows : ∀ row ∈ rows, row ∈ store.objects.rows) (hrecord : record ∈ rows)
    (hpentest : IngestedPentest record) {holder : String}
    (hholder : store.holder record = some holder) :
    (store.holderVersions rows).reverse.lookup holder = some record.versionId := by
  have hpair : ∀ pair ∈ (store.holderVersions rows).reverse, pair.1 = holder →
      pair.2 = record.versionId := by
    intro pair hpair hname
    obtain ⟨row, hrow, hrowHolder⟩ := List.mem_filterMap.mp (List.mem_reverse.mp hpair)
    obtain ⟨name, hname', rfl⟩ := Option.map_eq_some_iff.mp hrowHolder
    obtain ⟨hmem, hingested⟩ := List.mem_filter.mp hrow
    simp only [Bool.and_eq_true, decide_eq_true_eq] at hingested
    exact hone row (hrows row hmem) record (hrows record hrecord) hingested hpentest holder
      (hname ▸ hname') hholder
  have hmem : (holder, record.versionId) ∈ (store.holderVersions rows).reverse := by
    refine List.mem_reverse.mpr (List.mem_filterMap.mpr ⟨record, ?_, by rw [hholder]; rfl⟩)
    exact List.mem_filter.mpr ⟨hrecord, by simpa [IngestedPentest] using hpentest⟩
  -- The first pair of the holder is there, and every pair of it has this version id.
  generalize (store.holderVersions rows).reverse = pairs at hpair hmem
  induction pairs with
  | nil => exact absurd hmem List.not_mem_nil
  | cons pair pairs ih =>
    obtain ⟨name, version⟩ := pair
    by_cases hname : holder = name
    · have hversion := hpair _ List.mem_cons_self hname.symm
      simp only at hversion
      rw [List.lookup_cons, hname, beq_self_eq_true, hversion]
    · have hrest : (holder, record.versionId) ∈ pairs := by
        rcases List.mem_cons.mp hmem with heq | hmem
        · exact absurd (congrArg Prod.fst heq) hname
        · exact hmem
      rw [List.lookup_cons, beq_eq_false_iff_ne.mpr hname]
      exact ih (fun pair hp => hpair pair (List.mem_cons_of_mem _ hp)) hrest

/-- The facts of a page say of a record what the facts of the record alone say. -/
theorem outcomeIssues_alone (hone : OneVersionPerHolder store)
    (hrows : ∀ row ∈ rows, row ∈ store.objects.rows) (hrecord : record ∈ rows) :
    store.outcomeIssues record (store.outcomeFacts rows)
      = store.outcomeIssues record (store.outcomeFacts [record]) := by
  have hlog : record.kind = .decisionLog ∧ record.status = .ingested →
      (store.outcomeFacts rows).byObject record.id
        = (store.outcomeFacts [record]).byObject record.id := by
    intro hingested
    have hmem : ∀ page : List StoreObject, record ∈ page →
        ((page.filter fun r => r.kind = .decisionLog && r.status = .ingested).map
          StoreObject.id).contains record.id = true := fun page hpage =>
      List.contains_iff_mem.mpr (List.mem_map_of_mem
        (List.mem_filter.mpr ⟨hpage, by simpa using hingested⟩))
    show (if _ then _ else _) = (if _ then _ else _)
    rw [if_pos (hmem rows hrecord), if_pos (hmem [record] (List.mem_singleton_self record))]
  have hpentest : IngestedPentest record →
      (store.holder record).bind (store.outcomeFacts rows).holdings
      = (store.holder record).bind (store.outcomeFacts [record]).holdings := by
    intro hingested
    cases hholder : store.holder record with
    | none => rfl
    | some holder =>
      have hself : ∀ row ∈ [record], row ∈ store.objects.rows := fun row hrow =>
        List.mem_singleton.mp hrow ▸ hrows record hrecord
      show ((store.holderVersions rows).reverse.lookup holder).bind _
        = ((store.holderVersions [record]).reverse.lookup holder).bind _
      rw [lookup_holder hone hrows hrecord hingested hholder,
        lookup_holder hone hself (List.mem_singleton_self record) hingested hholder]
  -- The facts enter two branches, and each only for the records it is about.
  simp only [Store.outcomeIssues]
  refine ite_congr rfl (fun _ => rfl) fun _ => ite_congr rfl (fun _ => rfl) fun _ =>
    ite_congr rfl (fun hingested => ?_) fun _ => ite_congr rfl (fun hingested => ?_) fun _ => rfl
  · rw [hlog hingested]
  · rw [hpentest hingested]

/-- A record of a page is checked as if it were the only one. -/
private theorem checkRecord_alone (hone : OneVersionPerHolder store)
    (hrows : ∀ row ∈ rows, row ∈ store.objects.rows) (hrecord : record ∈ rows) :
    store.checkRecord full (store.outcomeFacts rows) record
      = store.checkRecord full (store.outcomeFacts [record]) record := by
  rw [Store.checkRecord, Store.checkRecord, outcomeIssues_alone hone hrows hrecord]

/-- The entries of a page are those of its records. -/
private theorem entries_eq (hone : OneVersionPerHolder store)
    (hrows : ∀ row ∈ rows, row ∈ store.objects.rows) :
    (toCheck rows).map (store.checkRecord full (store.outcomeFacts rows))
      = rows.flatMap (checkedAlone store full) := by
  have hpart : ∀ part : List StoreObject, (∀ row ∈ part, row ∈ rows) →
      (toCheck part).map (store.checkRecord full (store.outcomeFacts rows))
        = part.flatMap (checkedAlone store full) := by
    intro part hpart
    induction part with
    | nil => rfl
    | cons row part ih =>
      have hrow := hpart row List.mem_cons_self
      rw [List.flatMap_cons, ← ih fun other hother => hpart other (List.mem_cons_of_mem _ hother)]
      by_cases hstatus : row.status = .nonConforming
      · simp [toCheck, checkedAlone, hstatus]
      · simp [toCheck, checkedAlone, hstatus, checkRecord_alone hone hrows hrow]
  exact hpart rows fun _ h => h

/-- **The notes of a page.** Those of its records, in another order. -/
theorem pageNotes_perm (hone : OneVersionPerHolder store)
    (hrows : ∀ row ∈ rows, row ∈ store.objects.rows) :
    (rows.flatMap (store.outcomeNotes (store.outcomeFacts rows))
      ++ ((toCheck rows).map (store.checkRecord full (store.outcomeFacts rows))).flatMap
        CheckedRecord.notes).Perm (rows.flatMap (recordNotes store full)) := by
  have houtcome : rows.flatMap (store.outcomeNotes (store.outcomeFacts rows))
      = rows.flatMap fun record => store.outcomeNotes (store.outcomeFacts [record]) record := by
    apply List.flatMap_congr
    intro record hrecord
    rw [Store.outcomeNotes, Store.outcomeNotes, outcomeIssues_alone hone hrows hrecord]
  rw [houtcome, entries_eq hone hrows, List.flatMap_assoc]
  exact List.flatMap_append_perm rows _ _

end

/-! ## Pages -/

/-- What a scan is after it has checked some records. -/
structure Scanned (store : Store) (full : Bool) (scan scan' : RecordScan)
    (rows : List StoreObject) : Prop where
  visited : scan'.visited = scan.visited ++ rows
  checked : scan'.checked = scan.checked + rows.length
  rederived : scan'.rederived = scan.rederived + (rows.map (recordRederived store full)).sum
  bytesRead : scan'.bytesRead = scan.bytesRead + (rows.map (recordBytes store full)).sum
  found : ∃ notes, notes.Perm (rows.flatMap (recordNotes store full))
    ∧ scan'.found = scan.found.add notes

section
variable {store : Store} {full : Bool} {scan scan' scan'' : RecordScan}
  {rows rows' : List StoreObject}

theorem Scanned.refl : Scanned store full scan scan [] where
  visited := (List.append_nil _).symm
  checked := rfl
  rederived := rfl
  bytesRead := rfl
  found := ⟨[], List.Perm.refl _, rfl⟩

theorem Scanned.trans (h : Scanned store full scan scan' rows)
    (h' : Scanned store full scan' scan'' rows') :
    Scanned store full scan scan'' (rows ++ rows') where
  visited := by rw [h'.visited, h.visited, List.append_assoc]
  checked := by rw [h'.checked, h.checked, List.length_append]; omega
  rederived := by rw [h'.rederived, h.rederived, List.map_append, List.sum_append]; omega
  bytesRead := by rw [h'.bytesRead, h.bytesRead, List.map_append, List.sum_append]; omega
  found := by
    obtain ⟨notes, hnotes, hfound⟩ := h.found
    obtain ⟨notes', hnotes', hfound'⟩ := h'.found
    exact ⟨notes ++ notes', List.flatMap_append ▸ hnotes.append hnotes', by
      rw [hfound', hfound, add_append]⟩

/-- What the entries of the records count. -/
private theorem sum_entries (count : CheckedRecord → Nat) (rows : List StoreObject) :
    ((rows.flatMap (checkedAlone store full)).map count).sum
      = (rows.map fun record => ((checkedAlone store full record).map count).sum).sum := by
  induction rows with
  | nil => rfl
  | cons row rows ih => simp [ih]

/-- One page. -/
theorem checkPage_scanned (hone : OneVersionPerHolder store)
    (hrows : ∀ row ∈ rows, row ∈ store.objects.rows) :
    Scanned store full scan (store.checkPage full rows scan) rows where
  visited := rfl
  checked := rfl
  rederived := by
    show scan.rederived + _ = _
    rw [entries_eq hone hrows, sum_entries]
    rfl
  bytesRead := by
    show scan.bytesRead + _ = _
    rw [entries_eq hone hrows, sum_entries]
    rfl
  found := ⟨_, pageNotes_perm hone hrows, add_append ..⟩

end

/-! ## The loop -/

section
variable {store : Store} {full : Bool}

/-- The records in the order of their ids. -/
private theorem ordered_ids (store : Store) :
    (store.objects.rows.mergeSort fun a b => decide (a.id ≤ b.id)).Pairwise
      fun a b => a.id < b.id := by
  have htrans : ∀ a b c : StoreObject, decide (a.id ≤ b.id) = true →
      decide (b.id ≤ c.id) = true → decide (a.id ≤ c.id) = true := by
    simpa using fun a b c : StoreObject => le_trans (a := a.id) (b := b.id) (c := c.id)
  have htotal : ∀ a b : StoreObject, (decide (a.id ≤ b.id) || decide (b.id ≤ a.id)) = true := by
    simpa using fun a b : StoreObject => le_total a.id b.id
  have hle := List.pairwise_mergeSort htrans htotal store.objects.rows
  have hne : (store.objects.rows.mergeSort fun a b => decide (a.id ≤ b.id)).Pairwise
      fun a b => a.id ≠ b.id :=
    List.pairwise_map.mp
      ((((List.mergeSort_perm _ _).map StoreObject.id).nodup_iff).mpr store.objects.nodup)
  exact (hle.and hne).imp fun hboth => lt_of_le_of_ne (of_decide_eq_true hboth.1) hboth.2

theorem mem_recordsAfter {after : String} {row : StoreObject} :
    row ∈ store.recordsAfter after ↔ row ∈ store.objects.rows ∧ after < row.id := by
  rw [Store.recordsAfter, mem_rowsAfter, List.mem_mergeSort]

/-- A scan that stops at a record leaves those behind it. -/
private theorem recordsAfter_split (after : String) {as bs : List StoreObject}
    {row : StoreObject} (h : store.recordsAfter after = as ++ row :: bs) : store.recordsAfter row.id = bs :=
  rowsAfter_split (ordered_ids store) h

/-- The rows of a page that fit a budget stand at its start. -/
private theorem withinBudget_start (started : Bool) (remaining : Int) (page : List StoreObject) :
    withinBudget full started remaining page <+: page := by
  induction page generalizing started remaining with
  | nil => exact List.prefix_rfl
  | cons record rest ih =>
    rw [withinBudget]
    split
    · exact List.nil_prefix
    · exact List.cons_prefix_cons.mpr ⟨rfl, ih _ _⟩

private theorem pageRows_split (full : Bool) (maxBytes : Option Int) (scan : RecordScan)
    (page : List StoreObject) : pageRows full maxBytes scan page <+: page := by
  cases maxBytes with
  | none => exact List.prefix_rfl
  | some n => exact withinBudget_start _ _ _

/-- Where nothing was checked before, the first row of a page is taken whatever it costs. -/
private theorem pageRows_ne_nil (full : Bool) (maxBytes : Option Int) {scan : RecordScan}
    {page : List StoreObject} (hchecked : scan.checked = 0) (hpage : page ≠ []) :
    pageRows full maxBytes scan page ≠ [] := by
  cases maxBytes with
  | none => exact hpage
  | some n =>
    cases page with
    | nil => exact absurd rfl hpage
    | cons record rest =>
      have hfirst : decide (0 < scan.checked) = false := by simp [hchecked]
      rw [pageRows, withinBudget, hfirst, Bool.and_false]
      exact List.cons_ne_nil _ _

/-- Where the records that are left go on: after a position, or nowhere. -/
def leftAfter (store : Store) (next : Option String) : List StoreObject :=
  (next.map store.recordsAfter).getD []

/-- What the loop gives: the records it checked, and where it goes on. A position is the id of a
record it checked, unless it checked none. -/
structure LoopResult (store : Store) (full : Bool) (scan scan' : RecordScan)
    (next : Option String) (rows : List StoreObject) : Prop where
  scanned : Scanned store full scan scan' rows
  split : store.recordsAfter scan.after = rows ++ leftAfter store next
  next_mem : ∀ after, next = some after → rows = [] ∧ after = scan.after
    ∨ ∃ row ∈ rows, after = row.id

/-- A run that has checked nothing yet asks for at least one record. -/
private theorem pageLimit_ne_zero {maxRecords : Option Nat} {checked : Nat}
    (hpositive : ∀ m, maxRecords = some m → 1 ≤ m) (hchecked : maxRecords = none ∨ checked = 0) :
    pageLimit maxRecords checked ≠ 0 := by
  cases maxRecords with
  | none => exact (by decide : RECORD_PAGE ≠ 0)
  | some m =>
    have hm := hpositive m rfl
    rw [pageLimit, hchecked.resolve_left nofun, RECORD_PAGE]
    omega

/-- The rows of a page that are checked stand at the start of what is left, and what is left then
stands behind them: the rest of the page, and what comes after the page. -/
private theorem checkPage_left (full : Bool) (hone : OneVersionPerHolder store) {scan : RecordScan}
    {limit : Nat} {rows pageRest : List StoreObject} (hrows : rows ≠ [])
    (hpage : rows ++ pageRest = (store.recordsAfter scan.after).take limit) :
    Scanned store full scan (store.checkPage full rows scan) rows
      ∧ store.recordsAfter scan.after
        = rows ++ store.recordsAfter (store.checkPage full rows scan).after
      ∧ store.recordsAfter (store.checkPage full rows scan).after
        = pageRest ++ (store.recordsAfter scan.after).drop limit
      ∧ ∃ last ∈ rows, (store.checkPage full rows scan).after = last.id := by
  obtain ⟨front, last, hfront⟩ := (List.eq_nil_or_concat rows).resolve_left hrows
  have hleft : store.recordsAfter scan.after = rows
      ++ (pageRest ++ (store.recordsAfter scan.after).drop limit) := by
    rw [← List.append_assoc, hpage, List.take_append_drop]
  have hafter : (store.checkPage full rows scan).after = last.id := by
    simp [Store.checkPage, hfront]
  have hnext : store.recordsAfter last.id
      = pageRest ++ (store.recordsAfter scan.after).drop limit := by
    have hsplit : store.recordsAfter scan.after = front
        ++ last :: (pageRest ++ (store.recordsAfter scan.after).drop limit) := by
      refine hleft.trans ?_
      rw [hfront, List.concat_eq_append, List.append_assoc, List.singleton_append]
    exact recordsAfter_split scan.after hsplit
  have hmem : ∀ row ∈ rows, row ∈ store.objects.rows := by
    intro row hrow
    have hrowLeft : row ∈ store.recordsAfter scan.after := by
      rw [hleft]
      exact List.mem_append_left _ hrow
    exact (mem_recordsAfter.mp hrowLeft).1
  rw [hafter, hnext]
  exact ⟨checkPage_scanned hone hmem, hleft, rfl, last, by simp [hfront], rfl⟩

/-- **The loop.** Every run of it checks the records at the start of what was left. -/
theorem recordLoop_scanned (full : Bool) (hone : OneVersionPerHolder store) (maxRecords : Option Nat)
    (maxBytes : Option Int) (n : Nat) : ∀ scan : RecordScan,
    (store.recordsAfter scan.after).length = n →
    ∃ rows, LoopResult store full scan (store.recordLoop full maxRecords maxBytes scan).1
        (store.recordLoop full maxRecords maxBytes scan).2.1 rows
      ∧ (maxRecords = none → maxBytes = none →
        (store.recordLoop full maxRecords maxBytes scan).2.1 = none)
      ∧ (scan.checked = 0 → (∀ m, maxRecords = some m → 1 ≤ m) →
        (store.recordLoop full maxRecords maxBytes scan).2.1 ≠ none → rows ≠ []) := by
  -- By induction on the number of records that are left.
  induction n using Nat.strongRecOn with
  | ind n ih =>
    intro scan hn
    rw [Store.recordLoop]
    have hbounded : maxRecords = none → pageLimit maxRecords scan.checked ≠ 0 := fun hmax =>
      pageLimit_ne_zero (fun m hm => nomatch hmax.symm.trans hm) (.inl hmax)
    have hfirst : scan.checked = 0 → (∀ m, maxRecords = some m → 1 ≤ m) →
        pageLimit maxRecords scan.checked ≠ 0 := fun hchecked hpositive =>
      pageLimit_ne_zero hpositive (.inr hchecked)
    generalize pageLimit maxRecords scan.checked = limit at hbounded hfirst ⊢
    simp only
    by_cases hzero : limit = 0
    · rw [if_pos hzero]
      exact ⟨[], ⟨.refl, rfl, fun after h => .inl ⟨rfl, (Option.some_inj.mp h).symm⟩⟩,
        fun hmax => absurd hzero (hbounded hmax),
        fun hchecked hpositive => absurd hzero (hfirst hchecked hpositive)⟩
    rw [if_neg hzero]
    by_cases hpage : (store.recordsAfter scan.after).take limit = []
    · rw [if_pos hpage]
      have hnil : store.recordsAfter scan.after = [] := by
        rcases List.take_eq_nil_iff.mp hpage with h | h
        · exact absurd h hzero
        · exact h
      exact ⟨[], ⟨.refl, hnil, nofun⟩, fun _ _ => rfl, fun _ _ h => absurd rfl h⟩
    rw [if_neg hpage]
    have hstart := pageRows_split full maxBytes scan
      ((store.recordsAfter scan.after).take limit)
    have hcheckedRows := fun hchecked : scan.checked = 0 => pageRows_ne_nil full maxBytes hchecked hpage
    have hless := @length_recordsAfter_checkPage store full maxBytes scan limit
    have hall : maxBytes = none →
        pageRows full maxBytes scan ((store.recordsAfter scan.after).take limit)
          = (store.recordsAfter scan.after).take limit := by
      rintro rfl
      rfl
    generalize pageRows full maxBytes scan ((store.recordsAfter scan.after).take limit) = rows
      at hstart hcheckedRows hless hall ⊢
    by_cases hrows : rows = []
    · rw [dif_pos hrows]
      exact ⟨[], ⟨.refl, rfl, fun after h => .inl ⟨rfl, (Option.some_inj.mp h).symm⟩⟩,
        fun _ hmax => absurd (hall hmax ▸ hrows) hpage,
        fun hchecked _ _ => absurd hrows (hcheckedRows hchecked)⟩
    rw [dif_neg hrows]
    obtain ⟨pageRest, hpageRest⟩ := hstart
    obtain ⟨hscanned, hleft, hnext, last, hlast, hafter⟩ :=
      checkPage_left full hone hrows hpageRest
    by_cases hshort : rows.length < ((store.recordsAfter scan.after).take limit).length
    · rw [if_pos hshort]
      refine ⟨rows, ⟨hscanned, hleft, fun after h => .inr ⟨last, hlast, ?_⟩⟩, fun _ hmax => ?_,
        fun _ _ _ => hrows⟩
      · rw [← Option.some_inj.mp h, hafter]
      · rw [hall hmax] at hshort
        exact absurd hshort (lt_irrefl _)
    rw [if_neg hshort]
    have hpageNil : pageRest = [] := by
      rw [← hpageRest, List.length_append] at hshort
      exact List.eq_nil_of_length_eq_zero (by omega)
    rw [hpageNil, List.nil_append] at hnext
    rw [hpageNil, List.append_nil] at hpageRest
    by_cases hend : ((store.recordsAfter scan.after).take limit).length < limit
    · rw [if_pos hend]
      have hdrop : (store.recordsAfter scan.after).drop limit = [] := by
        rw [List.length_take] at hend
        exact List.drop_eq_nil_of_le (by omega)
      refine ⟨rows, ⟨hscanned, ?_, nofun⟩, fun _ _ => rfl, fun _ _ _ => hrows⟩
      rwa [hnext, hdrop] at hleft
    · -- A full page: the loop goes on after its last record.
      rw [if_neg hend]
      obtain ⟨more, hmore, hunbounded, -⟩ := ih _ (hn ▸ hless (hpageRest ▸ hrows))
        (store.checkPage full rows scan) (by rw [hpageRest])
      refine ⟨rows ++ more, ⟨hscanned.trans hmore.scanned, ?_, fun after h => ?_⟩, hunbounded,
        fun _ _ _ => by simp [hrows]⟩
      · rw [hleft, hmore.split, List.append_assoc]
      · rcases hmore.next_mem after h with ⟨-, heq⟩ | ⟨row, hrow, heq⟩
        · exact .inr ⟨last, List.mem_append_left _ hlast, heq.trans hafter⟩
        · exact .inr ⟨row, List.mem_append_right _ hrow, heq⟩

/-- What a slice reports of the records it checked. -/
structure RecordSlice (store : Store) (full : Bool) (report : RecordReport) : Prop where
  checked : report.checked = report.visited.length
  rederived : report.rederived = (report.visited.map (recordRederived store full)).sum
  bytesRead : report.bytesRead = (report.visited.map (recordBytes store full)).sum
  lists : ∃ notes : List Note, notes.Perm (report.visited.flatMap (recordNotes store full))
    ∧ (∀ name, report.counts name = (named name notes).length)
    ∧ ∀ name, report.reported name = (named name notes).take MAX_REPORTED

/-- **A slice of the records.** It checks records at the start of those its position leaves, and
its next position leaves the rest. -/
theorem verifyRecords_slice (full : Bool) (hone : OneVersionPerHolder store) (afterId : Option String)
    {maxRecords : Option Nat} (hmax : ∀ m, maxRecords = some m → 1 ≤ m) (maxBytes : Option Int) :
    let report := store.verifyRecords full afterId maxRecords maxBytes
    RecordSlice store full report
    ∧ store.recordsAfter (afterId.getD "") = report.visited ++ leftAfter store report.nextAfterId
    ∧ (∀ after, report.nextAfterId = some after → report.visited ≠ [] ∧ after ≠ "")
    ∧ (maxRecords = none → maxBytes = none → report.nextAfterId = none) := by
  intro report
  let start : RecordScan := ⟨afterId.getD "", 0, 0, 0, 0, fun _ => Capped.empty, []⟩
  obtain ⟨rows, hrows, hunbounded, hprogress⟩ :=
    recordLoop_scanned full hone maxRecords maxBytes _ start rfl
  obtain ⟨notes, hnotes, hfound⟩ := hrows.scanned.found
  have hvisited : report.visited = rows := hrows.scanned.visited
  have hnext : report.nextAfterId = (store.recordLoop full maxRecords maxBytes start).2.1.filter
      fun after => !(store.recordsAfter after).isEmpty := rfl
  refine ⟨⟨?_, ?_, ?_, notes, ?_, fun name => ?_, fun name => ?_⟩, ?_, fun after hafter => ?_,
    fun hrecords hbytes => ?_⟩
  · rw [hvisited]
    exact hrows.scanned.checked.trans (Nat.zero_add _)
  · rw [hvisited]
    exact hrows.scanned.rederived.trans (Nat.zero_add _)
  · rw [hvisited]
    exact hrows.scanned.bytesRead.trans (Nat.zero_add _)
  · rw [hvisited]
    exact hnotes
  · show ((store.recordLoop full maxRecords maxBytes start).1.found name).count = _
    rw [hfound, add_empty_eq]
  · show ((store.recordLoop full maxRecords maxBytes start).1.found name).report = _
    rw [hfound, report_eq]
  · -- A position that leaves nothing is not named.
    rw [hvisited, hnext]
    refine hrows.split.trans (congrArg (rows ++ ·) ?_)
    cases (store.recordLoop full maxRecords maxBytes start).2.1 with
    | none => rfl
    | some after =>
      cases hleft : store.recordsAfter after <;> simp [leftAfter, Option.filter, hleft]
  · rw [hnext, Option.filter_eq_some_iff] at hafter
    have hne := hprogress rfl hmax (by rw [hafter.1]; exact Option.some_ne_none _)
    refine ⟨hvisited ▸ hne, ?_⟩
    rcases hrows.next_mem after hafter.1 with ⟨hnil, -⟩ | ⟨row, hrow, heq⟩
    · exact absurd hnil hne
    · have hlt : afterId.getD "" < row.id := by
        have hrowLeft : row ∈ store.recordsAfter (afterId.getD "") := by
          rw [hrows.split]
          exact List.mem_append_left _ hrow
        exact (mem_recordsAfter.mp hrowLeft).2
      exact heq ▸ (lt_of_le_of_lt (empty_le_text _) hlt).ne'
  · rw [hnext, hunbounded hrecords hbytes]
    rfl

end

end TrustPortal.Proofs.EvidenceStore
