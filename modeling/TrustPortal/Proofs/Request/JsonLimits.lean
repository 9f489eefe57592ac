import TrustPortal.Proofs.Transcript.Depth
import TrustPortal.Request.JsonLimits

/-!
# `TrustPortal.Proofs.Request.JsonLimits`: the limits and the JSON reader

`check_json_limits` jumps from one structural character to the next. `checkFrom_eq` makes one
character of it one step, and a step moves the brackets as `nextScan` does. So the scan stands
where the JSON reader stands for as long as that goes on, and its depth is the number of arrays
and objects that are open. This needs nothing of the text that is not read yet, which may be
malformed.
-/

set_option autoImplicit false

namespace TrustPortal.Proofs.Request

open TrustPortal.Lib
open TrustPortal.Python
open TrustPortal.Request
open TrustPortal.Transcript
open TrustPortal.Proofs.Transcript

/-! ## What the limits are for -/

/-- The reader before a text. -/
def start : Reader := ⟨[], .value⟩

/-- The reader has at most `depth` arrays and objects open wherever it gets to in a text. -/
def OpenAtMost (py : Interpreter) (depth : Nat) (text : Str) : Prop :=
  ∀ read rest reader, text = read ++ rest → read.foldlM (Reader.step py) start = .ok reader →
    reader.stack.length ≤ depth

/-- The character opens an array or object or goes on to another element. -/
def isValueMark (c : CodePoint) : Bool := c.is '[' || c.is '\x7b' || c.is ','

/-- The arrays and objects that the reader opens in a text, and the elements after the first. -/
def jsonValues (py : Interpreter) (reader : Reader) : Str → Nat
  | [] => 0
  | c :: rest =>
    (if scanMode reader.mode = .outside ∧ isValueMark c = true then 1 else 0)
      + match reader.step py c with
        | .ok next => jsonValues py next rest
        | .error _ => 0

/-! ## One character of the check -/

/-- Where the check stands: its counters, and whether in a string. -/
structure Place where
  counters : Counters
  mode : ScanMode

/-- The brackets of a place. -/
def Place.scan (place : Place) : DepthScan := ⟨place.counters.depth, place.mode⟩

/-- One character of the check. -/
def Place.step (limits : Limits) (place : Place) (c : CodePoint) : Except LimitError Place :=
  match place.mode with
  | .outside =>
    if c.is '"' then .ok ⟨place.counters, .string⟩
    else if isStructural c then (place.counters.count limits c).map fun counters => ⟨counters, .outside⟩
    else .ok place
  | .string =>
    if c.is '"' then .ok ⟨place.counters, .outside⟩
    else if c.is '\\' then .ok ⟨place.counters, .escape⟩
    else .ok place
  | .escape => .ok ⟨place.counters, .string⟩

section
variable {limits : Limits} {counters : Counters} {text rest : Str} {c : CodePoint}
  {place place' : Place} {py : Interpreter} {reader reader' : Reader}

private theorem not_quote (h : ¬isStructural c = true) : c.is '"' = false := by
  cases hc : c.is '"' with
  | false => rfl
  | true => simp [isStructural, hc] at h

/-- Characters without structure leave the check where it is. -/
private theorem run_search_none (h : searchStructural text = none) :
    text.foldlM (Place.step limits) ⟨counters, .outside⟩ = .ok ⟨counters, .outside⟩ := by
  induction text with
  | nil => rfl
  | cons d text ih =>
    rw [searchStructural] at h
    split_ifs at h with hstructural
    have hd := not_quote hstructural
    rw [List.foldlM_cons, Place.step]
    simp only [hd, hstructural, Bool.false_eq_true, if_false]
    exact ih h

/-- The check goes on at the next structural character. -/
private theorem run_search_some (h : searchStructural text = some (c, rest)) :
    isStructural c = true
      ∧ text.foldlM (Place.step limits) ⟨counters, .outside⟩
        = (Place.step limits ⟨counters, .outside⟩ c).bind (rest.foldlM (Place.step limits)) := by
  induction text with
  | nil => cases h
  | cons d text ih =>
    rw [searchStructural] at h
    split_ifs at h with hstructural
    · cases h
      exact ⟨hstructural, List.foldlM_cons⟩
    · obtain ⟨hc, hrun⟩ := ih h
      have hd := not_quote hstructural
      refine ⟨hc, ?_⟩
      rw [List.foldlM_cons]
      have hstep : Place.step limits ⟨counters, .outside⟩ d = .ok ⟨counters, .outside⟩ := by
        simp only [Place.step, hd, hstructural, Bool.false_eq_true, if_false]
      rw [hstep]
      exact hrun

/-- A string that does not end takes the rest of the text. -/
private theorem run_string_none (h : stringRest text = none) :
    ∃ mode, text.foldlM (Place.step limits) ⟨counters, .string⟩ = .ok ⟨counters, mode⟩ := by
  induction text using stringRest.induct with
  | case1 => exact ⟨.string, rfl⟩
  | case2 d text hquote =>
    unfold stringRest at h
    rw [if_pos hquote] at h
    cases h
  | case3 d hquote hslash =>
    refine ⟨.escape, ?_⟩
    rw [List.foldlM_cons, Place.step]
    simp only [hquote, hslash, Bool.false_eq_true, if_false, if_true]
    rfl
  | case4 d hquote hslash e text ih =>
    unfold stringRest at h
    rw [if_neg hquote, if_pos hslash] at h
    obtain ⟨mode, hrun⟩ := ih h
    refine ⟨mode, ?_⟩
    rw [List.foldlM_cons, Place.step]
    simp only [hquote, hslash, Bool.false_eq_true, if_false, if_true]
    exact hrun
  | case5 d text hquote hslash ih =>
    unfold stringRest at h
    rw [if_neg hquote, if_neg hslash] at h
    obtain ⟨mode, hrun⟩ := ih h
    refine ⟨mode, ?_⟩
    rw [List.foldlM_cons, Place.step]
    simp only [hquote, hslash, Bool.false_eq_true, if_false]
    exact hrun

/-- A string is skipped as a whole. -/
private theorem run_string_some (h : stringRest text = some rest) :
    text.foldlM (Place.step limits) ⟨counters, .string⟩
      = rest.foldlM (Place.step limits) ⟨counters, .outside⟩ := by
  induction text using stringRest.induct with
  | case1 => cases h
  | case2 d text hquote =>
    unfold stringRest at h
    rw [if_pos hquote] at h
    cases h
    rw [List.foldlM_cons, Place.step]
    simp only [hquote, if_true]
    rfl
  | case3 d hquote hslash =>
    unfold stringRest at h
    rw [if_neg hquote, if_pos hslash] at h
    cases h
  | case4 d hquote hslash e text ih =>
    unfold stringRest at h
    rw [if_neg hquote, if_pos hslash] at h
    rw [List.foldlM_cons, Place.step]
    simp only [hquote, hslash, Bool.false_eq_true, if_false, if_true]
    exact ih h
  | case5 d text hquote hslash ih =>
    unfold stringRest at h
    rw [if_neg hquote, if_neg hslash] at h
    rw [List.foldlM_cons, Place.step]
    simp only [hquote, hslash, Bool.false_eq_true, if_false]
    exact ih h

/-- **The check, one character at a time.** -/
theorem checkFrom_eq (limits : Limits) (counters : Counters) (text : Str) :
    checkFrom limits counters text
      = (text.foldlM (Place.step limits) ⟨counters, .outside⟩).map fun _ => () := by
  -- By induction on the length: a jump is as many steps as it passes characters.
  induction hlength : text.length using Nat.strongRecOn generalizing counters text with
  | ind length ih =>
    rw [checkFrom]
    split
    · next hsearch => rw [run_search_none hsearch]; rfl
    · next c rest hsearch =>
      have hshorter := searchStructural_length hsearch
      obtain ⟨hstructural, hrun⟩ := @run_search_some limits counters _ _ _ hsearch
      rw [hrun, Place.step]
      by_cases hquote : c.is '"' = true
      · simp only [hquote, if_true]
        show _ = (rest.foldlM (Place.step limits) ⟨counters, .string⟩).map _
        split
        · next hstring =>
          obtain ⟨mode, hend⟩ := @run_string_none limits counters _ hstring
          rw [hend]
          rfl
        · next after hstring =>
          have hafter := stringRest_length hstring
          rw [run_string_some hstring]
          exact ih after.length (by omega) counters after rfl
      · simp only [hquote, hstructural, Bool.false_eq_true, if_false, if_true]
        cases hcount : counters.count limits c with
        | error error => rfl
        | ok next => exact ih rest.length (by omega) next rest rfl

theorem checkJsonLimits_ok :
    checkJsonLimits limits text = .ok ()
      ↔ ∃ place, text.foldlM (Place.step limits) ⟨⟨0, 0, 0⟩, .outside⟩ = .ok place := by
  rw [checkJsonLimits, checkFrom_eq]
  cases text.foldlM (Place.step limits) ⟨⟨0, 0, 0⟩, .outside⟩ with
  | error error => simp [Except.map]
  | ok place => simp [Except.map]

/-! ## Counters -/

/-- Where a structural character takes the counters, the limits aside. -/
def moved (counters : Counters) (c : CodePoint) : Counters :=
  if c.is '[' || c.is '\x7b' then
    { counters with values := counters.values + 1, depth := counters.depth + 1 }
  else if c.is ',' then { counters with values := counters.values + 1 }
  else { counters with closers := counters.closers + 1, depth := counters.depth - 1 }

/-- The counters are within the limits. -/
structure Within (limits : Limits) (counters : Counters) : Prop where
  depth : counters.depth ≤ limits.maxDepth
  counts : ∀ limit, limits.maxValues = some limit →
    counters.values ≤ limit ∧ counters.closers ≤ limit

private theorem checkDepth_ok {depth : Int} :
    limits.checkDepth depth = .ok () ↔ depth ≤ limits.maxDepth := by
  rw [Limits.checkDepth]
  by_cases h : depth > limits.maxDepth
  · simp [h]
  · simp [Int.not_lt.mp h]

private theorem checkCount_ok {count : Nat} :
    limits.checkCount count = .ok ()
      ↔ ∀ limit, limits.maxValues = some limit → count ≤ limit := by
  rw [Limits.checkCount]
  cases limits.maxValues with
  | none => simp
  | some limit =>
    by_cases h : count > limit
    · simp [h]
    · simp [Nat.not_lt.mp h]

/-- What is counted is within the depth that the text may have. -/
private theorem count_ok {next : Counters} (h : counters.count limits c = .ok next)
    (hdepth : counters.depth ≤ limits.maxDepth) :
    next = moved counters c ∧ next.depth ≤ limits.maxDepth := by
  rw [Counters.count] at h
  by_cases hopen : (c.is '[' || c.is '\x7b') = true
  · rw [if_pos hopen] at h
    obtain ⟨_, hroom, h⟩ := bind_eq_ok.mp h
    obtain ⟨_, _, h⟩ := bind_eq_ok.mp h
    cases h
    rw [moved, if_pos hopen]
    exact ⟨rfl, checkDepth_ok.mp hroom⟩
  rw [if_neg hopen] at h
  by_cases hcomma : c.is ',' = true
  · rw [if_pos hcomma] at h
    obtain ⟨_, _, h⟩ := bind_eq_ok.mp h
    cases h
    rw [moved, if_neg hopen, if_pos hcomma]
    exact ⟨rfl, hdepth⟩
  · rw [if_neg hcomma] at h
    obtain ⟨_, _, h⟩ := bind_eq_ok.mp h
    cases h
    rw [moved, if_neg hopen, if_neg hcomma]
    exact ⟨rfl, le_trans (Int.sub_le_self _ (by decide)) hdepth⟩

/-- Counters that stay within the limits are counted. -/
private theorem count_within (h : Within limits (moved counters c)) :
    counters.count limits c = .ok (moved counters c) := by
  obtain ⟨hdepth, hcounts⟩ := h
  rw [Counters.count]
  by_cases hopen : (c.is '[' || c.is '\x7b') = true
  · simp only [moved, if_pos hopen] at hdepth hcounts ⊢
    rw [checkDepth_ok.mpr hdepth, checkCount_ok.mpr fun limit hlimit => (hcounts limit hlimit).1]
    rfl
  by_cases hcomma : c.is ',' = true
  · simp only [moved, if_neg hopen, if_pos hcomma] at hcounts ⊢
    rw [checkCount_ok.mpr fun limit hlimit => (hcounts limit hlimit).1]
    rfl
  · simp only [moved, if_neg hopen, if_neg hcomma] at hcounts ⊢
    rw [checkCount_ok.mpr fun limit hlimit => (hcounts limit hlimit).2]
    rfl

/-- A structural character moves the brackets. -/
private theorem moved_scan (hstructural : isStructural c = true) (hquote : ¬c.is '"' = true) :
    Place.scan ⟨moved counters c, .outside⟩ = nextScan ⟨counters.depth, .outside⟩ c := by
  rw [moved]
  simp only [nextScan, if_neg hquote]
  split_ifs with hopen hcomma hclose hclose
  · rfl
  · rcases Bool.or_eq_true _ _ ▸ hclose with hclose | hclose
    all_goals
      have := is_ne hcomma (show _ ≠ ']'.toNat by decide)
      have := is_ne hcomma (show _ ≠ '\x7d'.toNat by decide)
      simp_all
  · rfl
  · rfl
  · simp only [isStructural, Bool.or_eq_true] at hstructural hopen hclose
    tauto

/-! ## Soundness -/

/-- One character takes the check where the brackets go, within the depth. -/
private theorem step_scan (h : place.step limits c = .ok place')
    (hdepth : place.counters.depth ≤ limits.maxDepth) :
    place'.scan = nextScan place.scan c ∧ place'.counters.depth ≤ limits.maxDepth := by
  obtain ⟨counters, mode⟩ := place
  cases mode with
  | outside =>
    simp only [Place.step] at h
    split_ifs at h with hquote hstructural
    · cases h
      exact ⟨by simp [Place.scan, nextScan, hquote], hdepth⟩
    · obtain ⟨next, hnext, rfl⟩ := map_eq_ok.mp h
      obtain ⟨rfl, hroom⟩ := count_ok hnext hdepth
      exact ⟨moved_scan hstructural hquote, hroom⟩
    · cases h
      refine ⟨?_, hdepth⟩
      simp only [isStructural, Bool.or_eq_true, not_or, Bool.not_eq_true] at hstructural
      obtain ⟨⟨⟨⟨⟨_, hlist⟩, hendList⟩, hdict⟩, hendDict⟩, _⟩ := hstructural
      simp [Place.scan, nextScan, hquote, hlist, hendList, hdict, hendDict]
  | string =>
    simp only [Place.step] at h
    simp only [Place.scan, nextScan]
    split_ifs at h ⊢
    all_goals
      cases h
      exact ⟨rfl, hdepth⟩
  | escape =>
    cases h
    exact ⟨rfl, hdepth⟩

/-- While the reader goes on, the check stands where it does. -/
private theorem run_scan (htracks : Tracks reader place.scan)
    (hdepth : place.counters.depth ≤ limits.maxDepth)
    (hcheck : text.foldlM (Place.step limits) place = .ok place')
    (hread : text.foldlM (Reader.step py) reader = .ok reader') :
    reader'.stack.length ≤ limits.maxDepth := by
  induction text generalizing place reader with
  | nil =>
    cases hread
    have hlevel : place.counters.depth = reader'.stack.length := htracks.depth
    omega
  | cons c rest ih =>
    rw [List.foldlM_cons] at hcheck hread
    obtain ⟨next, hnext, hcheck⟩ := bind_eq_ok.mp hcheck
    obtain ⟨nextReader, hnextReader, hread⟩ := bind_eq_ok.mp hread
    obtain ⟨hscan, hroom⟩ := step_scan hnext hdepth
    exact ih (hscan ▸ htracks.next hnextReader) hroom hcheck hread

private theorem start_tracks : Tracks start (Place.scan ⟨⟨0, 0, 0⟩, .outside⟩) :=
  ⟨rfl, rfl, nofun⟩

/-- A text that passes has no more open than the limit, however much of it is read. -/
theorem openAtMost_of_passes (h : checkJsonLimits limits text = .ok ()) :
    OpenAtMost py limits.maxDepth text := by
  rintro read rest reader rfl hread
  obtain ⟨place, hcheck⟩ := checkJsonLimits_ok.mp h
  rw [List.foldlM_append] at hcheck
  obtain ⟨middle, hcheck, _⟩ := bind_eq_ok.mp hcheck
  exact run_scan start_tracks (Int.natCast_nonneg _) hcheck hread

/-! ## Completeness -/

/-- One character of a text within the limits. Each opening bracket is a value, so that there are
no more closing ones. -/
private theorem step_within (htracks : Tracks reader place.scan)
    (hread : reader.step py c = .ok reader') (hdepth : reader'.stack.length ≤ limits.maxDepth)
    (hbalance : place.counters.depth + place.counters.closers ≤ place.counters.values)
    (hvalues : ∀ limit, limits.maxValues = some limit →
      place.counters.values + jsonValues py reader (c :: rest) ≤ limit) :
    ∃ next, place.step limits c = .ok next ∧ Tracks reader' next.scan
      ∧ next.counters.depth + next.counters.closers ≤ next.counters.values
      ∧ ∀ limit, limits.maxValues = some limit →
        next.counters.values + jsonValues py reader' rest ≤ limit := by
  have hnext := htracks.next hread
  have hmode : place.mode = scanMode reader.mode := htracks.mode
  rw [jsonValues, hread] at hvalues
  obtain ⟨counters, mode⟩ := place
  change counters.depth + counters.closers ≤ counters.values at hbalance
  cases mode with
  | outside =>
    simp only [Place.step]
    by_cases hquote : c.is '"' = true
    · refine ⟨_, if_pos hquote, ?_, hbalance, fun limit hlimit => ?_⟩
      · rwa [Place.scan, next_quote hquote] at hnext
      · exact le_trans (by simp only; omega) (hvalues limit hlimit)
    rw [if_neg hquote]
    by_cases hstructural : isStructural c = true
    · rw [if_pos hstructural]
      have hscan := @moved_scan counters c hstructural hquote
      have hopen : Tracks reader' (Place.scan ⟨moved counters c, .outside⟩) := hscan ▸ hnext
      have hlevel : (moved counters c).depth = reader'.stack.length := hopen.depth
      have hmoved : (moved counters c).depth + (moved counters c).closers
          ≤ (moved counters c).values := by
        simp only [moved]
        split_ifs <;> simp only <;> omega
      have hmark : ∀ limit, limits.maxValues = some limit →
          (moved counters c).values + jsonValues py reader' rest ≤ limit := by
        intro limit hlimit
        refine le_trans ?_ (hvalues limit hlimit)
        simp only [moved, isValueMark, Bool.or_eq_true, ← hmode]
        split_ifs <;> simp_all <;> omega
      have hwithin : Within limits (moved counters c) := by
        refine ⟨by omega, fun limit hlimit => ?_⟩
        have := hmark limit hlimit
        omega
      rw [count_within hwithin]
      exact ⟨_, rfl, hopen, hmoved, hmark⟩
    · rw [if_neg hstructural]
      refine ⟨_, rfl, ?_, hbalance, fun limit hlimit => ?_⟩
      · simp only [isStructural, Bool.or_eq_true, not_or, Bool.not_eq_true] at hstructural
        obtain ⟨⟨⟨⟨⟨_, hlist⟩, hendList⟩, hdict⟩, hendDict⟩, _⟩ := hstructural
        simpa [Place.scan, nextScan, hquote, hlist, hendList, hdict, hendDict] using hnext
      · exact le_trans (by simp only; omega) (hvalues limit hlimit)
  | string =>
    simp only [Place.step]
    simp only [Place.scan, nextScan] at hnext
    split_ifs at hnext ⊢
    all_goals
      refine ⟨_, rfl, hnext, hbalance, fun limit hlimit => ?_⟩
      exact le_trans (by simp only; omega) (hvalues limit hlimit)
  | escape =>
    refine ⟨_, rfl, hnext, hbalance, fun limit hlimit => ?_⟩
    exact le_trans (by simp only; omega) (hvalues limit hlimit)

/-- A text that the reader reads to its end, within the limits, passes. -/
private theorem run_within (htracks : Tracks reader place.scan)
    (hread : text.foldlM (Reader.step py) reader = .ok reader')
    (hdepth : ∀ read rest middle, text = read ++ rest →
      read.foldlM (Reader.step py) reader = .ok middle → middle.stack.length ≤ limits.maxDepth)
    (hbalance : place.counters.depth + place.counters.closers ≤ place.counters.values)
    (hvalues : ∀ limit, limits.maxValues = some limit →
      place.counters.values + jsonValues py reader text ≤ limit) :
    ∃ place', text.foldlM (Place.step limits) place = .ok place' := by
  induction text generalizing reader place with
  | nil => exact ⟨place, rfl⟩
  | cons c rest ih =>
    rw [List.foldlM_cons] at hread
    obtain ⟨nextReader, hnextReader, hread⟩ := bind_eq_ok.mp hread
    have hroom : nextReader.stack.length ≤ limits.maxDepth :=
      hdepth [c] rest nextReader rfl (by rw [List.foldlM_cons, hnextReader]; rfl)
    obtain ⟨next, hnext, htracks', hbalance', hvalues'⟩ :=
      step_within htracks hnextReader hroom hbalance hvalues
    obtain ⟨place', hrun⟩ := ih htracks' hread
      (fun read after middle htext hmiddle => hdepth (c :: read) after middle
        (by rw [htext, List.cons_append])
        (by rw [List.foldlM_cons, hnextReader]; exact hmiddle))
      hbalance' hvalues'
    exact ⟨place', by rw [List.foldlM_cons, hnext]; exact hrun⟩

/-- A text that `json.loads` reads within the limits passes. -/
private theorem passes_of_loads {value : Value} (hloads : loads py text = .ok value)
    (hdepth : OpenAtMost py limits.maxDepth text)
    (hvalues : ∀ limit, limits.maxValues = some limit → jsonValues py start text ≤ limit) :
    checkJsonLimits limits text = .ok () := by
  rw [loads] at hloads
  split_ifs at hloads
  · cases hloads
  obtain ⟨reader, hread, _⟩ := bind_eq_ok.mp hloads
  refine checkJsonLimits_ok.mpr (run_within start_tracks hread hdepth (by simp) ?_)
  intro limit hlimit
  have hle := hvalues limit hlimit
  simp only
  omega

/-! ## Digits -/

/-- The text without the digits that stand outside of its strings. -/
def withoutDigits : ScanMode → Str → Str
  | _, [] => []
  | .outside, c :: rest =>
    if c.isDigit then withoutDigits .outside rest
    else c :: withoutDigits (if c.is '"' then .string else .outside) rest
  | .string, c :: rest =>
    c :: withoutDigits (if c.is '"' then .outside else if c.is '\\' then .escape else .string) rest
  | .escape, c :: rest => c :: withoutDigits .string rest

private theorem digit_plain (h : c.isDigit = true) : c.is '"' = false ∧ isStructural c = false := by
  simp only [CodePoint.isDigit, Bool.and_eq_true, decide_eq_true_eq] at h
  have hne : ∀ a : Char, a.toNat < 0x30 ∨ 0x39 < a.toNat → c.is a = false := by
    intro a ha
    rw [CodePoint.is, beq_eq_false_iff_ne]
    omega
  refine ⟨hne _ (by decide), ?_⟩
  rw [isStructural]
  simp only [hne '"' (by decide), hne '[' (by decide), hne ']' (by decide), hne '\x7b' (by decide),
    hne '\x7d' (by decide), hne ',' (by decide), Bool.or_false]

/-- The check passes over digits. -/
private theorem run_withoutDigits (text : Str) (place : Place) :
    text.foldlM (Place.step limits) place
      = (withoutDigits place.mode text).foldlM (Place.step limits) place := by
  induction text generalizing place with
  | nil => cases place.mode <;> rfl
  | cons c rest ih =>
    obtain ⟨counters, mode⟩ := place
    cases mode with
    | outside =>
      rw [withoutDigits]
      split_ifs with hdigit hquote
      · obtain ⟨hquote, hplain⟩ := digit_plain hdigit
        rw [List.foldlM_cons, Place.step]
        simp only [hquote, hplain, Bool.false_eq_true, if_false]
        exact ih _
      · rw [List.foldlM_cons, List.foldlM_cons, Place.step]
        simp only [hquote, if_true]
        exact ih _
      · rw [List.foldlM_cons, List.foldlM_cons, Place.step]
        simp only [hquote, Bool.false_eq_true, if_false]
        split_ifs
        · cases counters.count limits c with
          | error error => rfl
          | ok next => exact ih ⟨next, .outside⟩
        · exact ih _
    | string =>
      rw [withoutDigits, List.foldlM_cons, List.foldlM_cons, Place.step]
      by_cases hquote : c.is '"' = true
      · simp only [hquote, if_true]
        exact ih ⟨counters, .outside⟩
      · by_cases hslash : c.is '\\' = true
        · simp only [hquote, hslash, Bool.false_eq_true, if_false, if_true]
          exact ih ⟨counters, .escape⟩
        · simp only [hquote, hslash, Bool.false_eq_true, if_false]
          exact ih ⟨counters, .string⟩
    | escape => exact ih ⟨counters, .string⟩

/-- The digits of numbers make no difference to the check. -/
theorem checkJsonLimits_withoutDigits (limits : Limits) (text : Str) :
    checkJsonLimits limits text = checkJsonLimits limits (withoutDigits .outside text) := by
  rw [checkJsonLimits, checkFrom_eq, checkJsonLimits, checkFrom_eq, run_withoutDigits]

/-- **The limits are sound and complete.** Whatever passes is never read with more arrays and
objects open than the limit, and a JSON text within the limits passes, also one with ints of more
digits than `json.loads` reads: that with shorter ones in their place does. -/
theorem limits_sound_and_complete (limits : Limits) (py : Interpreter) (text : Str) :
    (checkJsonLimits limits text = .ok () → OpenAtMost py limits.maxDepth text)
    ∧ (∀ value, loads py text = .ok value → OpenAtMost py limits.maxDepth text →
      (∀ limit, limits.maxValues = some limit → jsonValues py start text ≤ limit) →
      checkJsonLimits limits text = .ok ())
    ∧ ∀ short value, withoutDigits .outside short = withoutDigits .outside text →
      loads py short = .ok value → OpenAtMost py limits.maxDepth short →
      (∀ limit, limits.maxValues = some limit → jsonValues py start short ≤ limit) →
      checkJsonLimits limits text = .ok () := by
  refine ⟨openAtMost_of_passes, fun _ => passes_of_loads, fun short value hdigits hloads hdepth hvalues => ?_⟩
  rw [checkJsonLimits_withoutDigits, ← hdigits, ← checkJsonLimits_withoutDigits]
  exact passes_of_loads hloads hdepth hvalues

/-! ## The lines of a transcript -/

/-- Without a limit on values, a character is refused where the brackets are too deep. -/
private theorem step_depthScan (place : Place) (c : CodePoint) :
    place.scan.step c = match place.step ⟨MAX_LINE_DEPTH, none⟩ c with
      | .ok next => some next.scan
      | .error _ => none := by
  obtain ⟨counters, mode⟩ := place
  cases mode with
  | escape => rfl
  | string =>
    simp only [Place.scan, DepthScan.step, Place.step]
    split_ifs <;> rfl
  | outside =>
    show DepthScan.step ⟨counters.depth, .outside⟩ c = _
    simp only [DepthScan.step, Place.step, Counters.count, Limits.checkDepth, Limits.checkCount,
      isStructural]
    by_cases hquote : c.is '"' = true
    · simp only [hquote, if_true]
      rfl
    by_cases hopen : (c.is '[' || c.is '\x7b') = true
    · have hstructural : (c.is '"' || c.is '[' || c.is ']' || c.is '\x7b' || c.is '\x7d'
          || c.is ',') = true := by
        rcases Bool.or_eq_true _ _ ▸ hopen with hopen | hopen <;> simp [hopen]
      rw [if_neg hquote, if_neg hquote, if_pos hopen, if_pos hstructural, if_pos hopen]
      by_cases hdeep : counters.depth + 1 > (MAX_LINE_DEPTH : Int)
      · rw [if_pos hdeep, if_pos hdeep]
        rfl
      · rw [if_neg hdeep, if_neg hdeep]
        rfl
    by_cases hcomma : c.is ',' = true
    · have hlist := is_ne hcomma (show _ ≠ ']'.toNat by decide)
      have hdict := is_ne hcomma (show _ ≠ '\x7d'.toNat by decide)
      simp only [hquote, hopen, hcomma, hlist, hdict, Bool.or_true, Bool.or_self,
        Bool.false_eq_true, if_false, if_true]
      rfl
    by_cases hclose : (c.is ']' || c.is '\x7d') = true
    · have hstructural : (c.is '"' || c.is '[' || c.is ']' || c.is '\x7b' || c.is '\x7d'
          || c.is ',') = true := by
        rcases Bool.or_eq_true _ _ ▸ hclose with hclose | hclose <;> simp [hclose]
      rw [if_neg hquote, if_neg hquote, if_neg hopen, if_pos hclose, if_pos hstructural,
        if_neg hopen, if_neg hcomma]
      rfl
    · simp_all [Place.scan]

/-- The check of a transcript's line is this check without a limit on values. -/
theorem passesDepth_iff (line : Str) :
    passesDepth line = true ↔ checkJsonLimits ⟨MAX_LINE_DEPTH, none⟩ line = .ok () := by
  have hrun : ∀ (text : Str) (place : Place),
      (text.foldlM DepthScan.step place.scan).isSome = true
        ↔ ∃ place', text.foldlM (Place.step ⟨MAX_LINE_DEPTH, none⟩) place = .ok place' := by
    intro text
    induction text with
    | nil => exact fun place => ⟨fun _ => ⟨place, rfl⟩, fun _ => rfl⟩
    | cons c rest ih =>
      intro place
      rw [List.foldlM_cons, List.foldlM_cons, step_depthScan]
      cases place.step ⟨MAX_LINE_DEPTH, none⟩ c with
      | error error => exact ⟨nofun, nofun⟩
      | ok next => exact ih next
  rw [checkJsonLimits_ok]
  exact hrun line ⟨⟨0, 0, 0⟩, .outside⟩

end

end TrustPortal.Proofs.Request
