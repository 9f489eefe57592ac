import TrustPortal.Proofs.Transcript.Brackets

/-!
# `TrustPortal.Proofs.Transcript.Depth`: the depth check and the JSON reader

`check_json_limits` counts brackets outside strings, and the JSON reader keeps a stack of open
arrays and objects. `Tracks` relates the two. So a line that passes the check makes the reader
neither stop at the interpreter's limit (`loads_ne_recursion`) nor return a value nested deeper
than `MAX_LINE_DEPTH` (`loads_depth_le`).

A line with few brackets, or few characters, skips the check. It passes all the same
(`passesDepth_of_check`), since a count never exceeds the brackets that were read.
-/

set_option autoImplicit false

namespace TrustPortal.Proofs.Transcript

open TrustPortal.Lib
open TrustPortal.Python
open TrustPortal.Transcript

section
variable {py : Interpreter} {reader reader' : Reader} {scan scan' : DepthScan} {c : CodePoint}
  {line text : Str}

/-- A scan that passes a character goes where the brackets take it. -/
theorem step_next (hs : scan.step c = some scan') : scan' = nextScan scan c := by
  obtain ⟨depth, mode⟩ := scan
  cases mode with
  | escape => exact (Option.some.inj hs).symm
  | string =>
    simp only [DepthScan.step] at hs
    simp only [nextScan]
    split_ifs at hs ⊢
    all_goals exact (Option.some.inj hs).symm
  | outside =>
    simp only [DepthScan.step] at hs
    simp only [nextScan]
    split_ifs at hs ⊢
    all_goals exact (Option.some.inj hs).symm

theorem Tracks.step (htracks : Tracks reader scan) (hs : scan.step c = some scan')
    (h : reader.step py c = .ok reader') : Tracks reader' scan' :=
  step_next hs ▸ htracks.next h

/-- An opening bracket that passes stays within the limit. -/
theorem step_open (hc : c.is '\x7b' = true ∨ c.is '[' = true) {depth : Int}
    (h : DepthScan.step ⟨depth, .outside⟩ c = some scan') : depth + 1 ≤ MAX_LINE_DEPTH := by
  have hquote : c.is '"' = false := by
    rcases hc with hc | hc <;> exact is_ne hc (by decide)
  have hopen : (c.is '[' || c.is '\x7b') = true := by
    rcases hc with hc | hc <;> simp [hc]
  simp only [DepthScan.step, hquote, hopen, Bool.false_eq_true, if_false, if_true] at h
  split_ifs at h with hroom
  exact Int.not_lt.mp hroom

/-! ## The interpreter's limit -/

private theorem readNumber_errors (n : Number) :
    ErrorsIn (· ≠ .recursion) (readNumber py n) := by
  have hint : ∀ whole, ErrorsIn (· ≠ .recursion) (readInt whole) := by
    intro whole
    rw [readInt]
    split
    · exact .ok _
    · exact .error (by simp)
  rw [readNumber]
  split
  case h_1 | h_2 => exact hint _
  case h_3 | h_4 => exact .ok _
  case h_5 | h_6 | h_7 => exact .bind (hint _) fun _ _ => .error (by simp)
  case h_8 | h_9 | h_10 => exact .error (by simp)

private theorem afterValue_errors (stack : List Frame) (value : Value) (c : CodePoint) :
    ErrorsIn (· ≠ .recursion) (afterValue stack value c) := by
  unfold afterValue
  refine .ite (fun _ => .ok _) fun _ => ?_
  split
  · refine .ite (fun _ => .ok _) fun _ => .ite (fun _ => .ok _) fun _ => .error (by simp)
  · refine .ite (fun _ => .ok _) fun _ => .ite (fun _ => .ok _) fun _ => .error (by simp)
  · exact .error (by simp)

private theorem openFrame_errors {stack : List Frame} {frame : Frame} {mode : Mode}
    (hroom : stack.length < py.readerDepth) :
    ErrorsIn (· ≠ .recursion) (openFrame py stack frame mode) := by
  rw [openFrame, if_pos hroom]
  exact .ok _

private theorem startValue_errors {stack : List Frame}
    (hroom : c.is '\x7b' = true ∨ c.is '[' = true → stack.length < py.readerDepth) :
    ErrorsIn (· ≠ .recursion) (startValue py stack c) := by
  rw [startValue]
  refine .ite (fun _ => .ok _) fun _ => .ite (fun _ => .ok _) fun _ => ?_
  refine .ite (fun hc => openFrame_errors (hroom (.inl hc))) fun _ => ?_
  refine .ite (fun hc => openFrame_errors (hroom (.inr hc))) fun _ => ?_
  refine .ite (fun _ => .ok _) fun _ => .ite (fun _ => .ok _) fun _ => ?_
  refine .ite (fun _ => .ok _) fun _ => .ite (fun _ => .ok _) fun _ => ?_
  refine .ite (fun _ => .ok _) fun _ => ?_
  split
  · exact .ok _
  · exact .error (by simp)

/-- The reader meets the interpreter's limit only where an array or object opens. -/
theorem step_errors (hroom : Mode.isStart reader.mode = true →
      c.is '\x7b' = true ∨ c.is '[' = true → reader.stack.length < py.readerDepth) :
    ErrorsIn (· ≠ .recursion) (reader.step py c) := by
  obtain ⟨stack, mode⟩ := reader
  cases mode with
  | value => exact startValue_errors (hroom rfl)
  | firstItem =>
    refine .ite (fun _ => .ok _) fun _ => .ite (fun _ => ?_) fun _ => startValue_errors (hroom rfl)
    dsimp only
    split
    · exact .ok _
    · exact .error (by simp)
  | firstName =>
    refine .ite (fun _ => .ok _) fun _ => .ite (fun _ => .ok _) fun _ => ?_
    refine .ite (fun _ => ?_) fun _ => .error (by simp)
    dsimp only
    split
    · exact .ok _
    · exact .error (by simp)
  | name =>
    refine .ite (fun _ => .ok _) fun _ => .ite (fun _ => .ok _) fun _ => .error (by simp)
  | string isName pieces =>
    refine .ite (fun _ => .ok _) fun _ => .ite (fun _ => .ok _) fun _ => ?_
    exact .ite (fun _ => .error (by simp)) fun _ => .ok _
  | escape isName pieces =>
    refine .ite (fun _ => .ok _) fun _ => ?_
    split
    · exact .ok _
    · exact .error (by simp)
  | unicode isName pieces count digits =>
    simp only [Reader.step]
    split
    · exact .ite (fun _ => .ok _) fun _ => .ok _
    · exact .error (by simp)
  | colon name =>
    refine .ite (fun _ => .ok _) fun _ => .ite (fun _ => ?_) fun _ => .error (by simp)
    dsimp only
    split
    · exact .ok _
    · exact .error (by simp)
  | literal rest value =>
    simp only [Reader.step]
    split
    · exact afterValue_errors stack value c
    · exact .ite (fun _ => .ok _) fun _ => .error (by simp)
  | number n =>
    simp only [Reader.step]
    refine .ite (fun _ => .ok _) fun _ => ?_
    split
    · exact .ok _
    · exact .bind (readNumber_errors n) fun value _ => afterValue_errors stack value c
  | after value => exact afterValue_errors stack value c

/-- The end of the text does not meet the limit. -/
theorem finish_errors : ErrorsIn (· ≠ .recursion) (reader.finish py) := by
  obtain ⟨stack, mode⟩ := reader
  cases mode with
  | after value => exact .ite (fun _ => .ok _) fun _ => .error nofun
  | number n =>
    exact .bind (readNumber_errors n) fun value _ => .ite (fun _ => .ok _) fun _ => .error nofun
  | _ => exact .error nofun

/-! ## A line that passes -/

/-- Where the scan passes, an array or object that opens is one of at most `MAX_LINE_DEPTH`. -/
theorem Tracks.room (htracks : Tracks reader scan) (hs : scan.step c = some scan')
    (hstart : Mode.isStart reader.mode = true) (hc : c.is '\x7b' = true ∨ c.is '[' = true) :
    reader.stack.length < MAX_LINE_DEPTH := by
  obtain ⟨stack, mode⟩ := reader
  obtain ⟨depth, place⟩ := scan
  obtain ⟨rfl, rfl, _⟩ := htracks
  have houtside : scanMode mode = .outside := by
    cases mode <;> first | rfl | cases hstart
  rw [houtside] at hs
  have hdepth : ((stack.length : Nat) : Int) + 1 ≤ MAX_LINE_DEPTH := step_open hc hs
  show stack.length < MAX_LINE_DEPTH
  omega

/-- The rest of a line that passes: the reader keeps its invariant with `MAX_LINE_DEPTH` for
its room, and does not meet the interpreter's limit if that is no lower. -/
theorem run_tracks (htracks : Tracks reader scan)
    (hfits : Reader.Fits (fun _ => True) (fun _ => True) (fun _ => True) MAX_LINE_DEPTH reader)
    (hpass : (text.foldlM DepthScan.step scan).isSome = true) :
    (∀ reader', text.foldlM (Reader.step py) reader = .ok reader' →
      Reader.Fits (fun _ => True) (fun _ => True) (fun _ => True) MAX_LINE_DEPTH reader')
    ∧ (MAX_LINE_DEPTH ≤ py.readerDepth →
      ErrorsIn (· ≠ .recursion) (text.foldlM (Reader.step py) reader)) := by
  induction text generalizing reader scan with
  | nil =>
    refine ⟨?_, fun _ => .ok _⟩
    rintro reader' ⟨⟩
    exact hfits
  | cons c rest ih =>
    rw [List.foldlM_cons] at hpass
    cases hs : scan.step c with
    | none =>
      rw [hs] at hpass
      cases hpass
    | some scan' =>
      rw [hs] at hpass
      have hopen := htracks.room hs
      have hnext : ∀ next, reader.step py c = .ok next →
          Tracks next scan' ∧ Reader.Fits (fun _ => True) (fun _ => True) (fun _ => True) MAX_LINE_DEPTH next :=
        fun next hnext => ⟨htracks.step hs hnext,
          step_fits anyString anyFloat trivial (fun hstart hc _ => hopen hstart hc) hfits hnext⟩
      constructor
      · intro reader' hrun
        rw [List.foldlM_cons] at hrun
        obtain ⟨next, hstep, hrun⟩ := bind_eq_ok.mp hrun
        obtain ⟨htracks', hfits'⟩ := hnext next hstep
        exact (ih htracks' hfits' hpass).1 reader' hrun
      · intro hlimit
        rw [List.foldlM_cons]
        refine .bind (step_errors fun hstart hc => lt_of_lt_of_le (hopen hstart hc) hlimit) ?_
        intro next hstep
        obtain ⟨htracks', hfits'⟩ := hnext next hstep
        exact (ih htracks' hfits' hpass).2 hlimit

private theorem start_tracks : Tracks ⟨[], .value⟩ ⟨0, .outside⟩ := ⟨rfl, rfl, nofun⟩

private theorem start_fits :
    Reader.Fits (fun _ => True) (fun _ => True) (fun _ => True) MAX_LINE_DEPTH ⟨[], .value⟩ := ⟨trivial, trivial⟩

/-- A line that passes the check decodes to a value of at most `MAX_LINE_DEPTH` levels. -/
theorem loads_depth_le {value : Value} (hpass : passesDepth line = true)
    (h : loads py line = .ok value) : value.depth ≤ MAX_LINE_DEPTH := by
  rw [loads] at h
  split_ifs at h
  · cases h
  obtain ⟨reader, hread, hfinish⟩ := bind_eq_ok.mp h
  exact (finish_fits anyFloat ((run_tracks start_tracks start_fits hpass).1 reader hread) hfinish).2

/-- A line that passes the check does not meet the interpreter's limit, if that is no lower
than `MAX_LINE_DEPTH`. -/
theorem loads_ne_recursion (hlimit : MAX_LINE_DEPTH ≤ py.readerDepth)
    (hpass : passesDepth line = true) : loads py line ≠ .error .recursion := by
  have herrors : ErrorsIn (· ≠ .recursion) (loads py line) := by
    rw [loads]
    refine .ite (fun _ => .error (by simp)) fun _ => ?_
    exact .bind ((run_tracks start_tracks start_fits hpass).2 hlimit) fun _ _ => finish_errors
  exact fun h => herrors _ h rfl

/-! ## A line that is read with little room -/

/-- Outside a string, the reader takes an opening bracket only where it may go deeper. -/
private theorem step_open_room (hc : c.is '\x7b' = true ∨ c.is '[' = true)
    (htracks : Tracks reader scan) (houtside : scan.mode = .outside)
    (h : reader.step py c = .ok reader') : reader.stack.length < py.readerDepth := by
  obtain ⟨stack, mode⟩ := reader
  obtain ⟨_, hmode, hliteral⟩ := htracks
  rw [houtside] at hmode
  have hplain : ¬Plain c := by
    intro hplain
    rcases hc with hc | hc
    · rw [hplain.brace] at hc
      cases hc
    · rw [hplain.bracket] at hc
      cases hc
  have hspace : isJsonSpace c = false := Bool.eq_false_iff.mpr fun h => hplain (plain_of_space h)
  have hne : ∀ a : Char, a.toNat ≠ 0x7B → a.toNat ≠ 0x5B → c.is a = false := by
    intro a hbrace hbracket
    rcases hc with hc | hc
    · exact is_ne hc fun h => hbrace h.symm
    · exact is_ne hc fun h => hbracket h.symm
  have hquote := hne '"' (by decide) (by decide)
  have hlist := hne ']' (by decide) (by decide)
  have hdict := hne '\x7d' (by decide) (by decide)
  have hstart : startValue py stack c = .ok reader' → stack.length < py.readerDepth := by
    intro h
    cases startValue_ok h with
    | space hc' => exact absurd (plain_of_space hc') hplain
    | string hc' =>
      rw [hquote] at hc'
      cases hc'
    | object _ hroom | array _ hroom => exact hroom
    | literal _ _ hc' | number _ hc' => exact absurd hc' hplain
  have hafter : ∀ value, afterValue stack value c ≠ .ok reader' := by
    intro value h
    cases afterValue_ok h with
    | space _ hc' => exact hplain (plain_of_space hc')
    | nextItem _ _ hc' | nextMember _ _ _ hc' => exact hplain hc'
    | endList _ _ hc' =>
      rw [hlist] at hc'
      cases hc'
    | endDict _ _ _ hc' =>
      rw [hdict] at hc'
      cases hc'
  cases mode with
  | value => exact hstart h
  | firstItem =>
    simp only [Reader.step, hspace, hlist, Bool.false_eq_true, if_false] at h
    exact hstart h
  | firstName => simp [Reader.step, hspace, hquote, hdict] at h
  | name => simp [Reader.step, hspace, hquote] at h
  | colon name => simp [Reader.step, hspace, hne ':' (by decide) (by decide)] at h
  | literal rest value =>
    cases rest with
    | nil => exact absurd h (hafter value)
    | cons d rest =>
      simp only [Reader.step] at h
      split_ifs at h with hcd
      all_goals exact absurd (hcd ▸ hliteral _ _ rfl d List.mem_cons_self) hplain
  | number n =>
    simp only [Reader.step, hne 'I' (by decide) (by decide)] at h
    split at h
    · next hinf => cases hinf.2
    · split at h
      · next m hm => exact absurd (plain_of_numberChar (isNumberChar_of_extend hm)) hplain
      · obtain ⟨value, _, hvalue⟩ := bind_eq_ok.mp h
        exact absurd hvalue (hafter value)
  | after value => exact absurd h (hafter value)
  | string | escape | unicode => cases hmode

/-- What is read with no more room than `MAX_LINE_DEPTH` passes the check. -/
theorem passesDepth_of_loads (hlimit : py.readerDepth ≤ MAX_LINE_DEPTH) {value : Value}
    (h : loads py line = .ok value) : passesDepth line = true := by
  have hrun : ∀ (text : Str) (reader reader' : Reader) (scan : DepthScan), Tracks reader scan →
      text.foldlM (Reader.step py) reader = .ok reader' →
      (text.foldlM DepthScan.step scan).isSome = true := by
    intro text
    induction text with
    | nil => exact fun _ _ _ _ _ => rfl
    | cons c rest ih =>
      intro reader reader' scan htracks h
      rw [List.foldlM_cons] at h
      obtain ⟨next, hnext, hrest⟩ := bind_eq_ok.mp h
      cases hs : scan.step c with
      | some scan' =>
        rw [List.foldlM_cons, hs]
        exact ih next reader' scan' (htracks.step hs hnext) hrest
      | none =>
        -- The scan refuses only an opening bracket, for which the reader has room.
        exfalso
        obtain ⟨depth, mode⟩ := scan
        cases mode with
        | escape => cases hs
        | string =>
          simp only [DepthScan.step] at hs
          split_ifs at hs
        | outside =>
          simp only [DepthScan.step] at hs
          split_ifs at hs with _ hopen hdeep
          have hc : c.is '\x7b' = true ∨ c.is '[' = true := by
            rwa [Bool.or_eq_true, or_comm] at hopen
          have hroom := step_open_room hc htracks rfl hnext
          have hlevel : depth = reader.stack.length := htracks.depth
          omega
  rw [loads] at h
  split_ifs at h
  · cases h
  obtain ⟨reader, hread, _⟩ := bind_eq_ok.mp h
  exact hrun line _ reader _ start_tracks hread

/-! ## A line that skips the check -/

/-- A scan passes while the brackets that are left stay within the limit. -/
private theorem scan_passes (hroom : scan.depth + opens line ≤ MAX_LINE_DEPTH) :
    (line.foldlM DepthScan.step scan).isSome = true := by
  induction line generalizing scan with
  | nil => rfl
  | cons c rest ih =>
    rw [opens, List.countP_cons] at hroom
    have hcount : opens rest = rest.countP fun c => c.is '[' || c.is '\x7b' := rfl
    have hstep : ∃ next, scan.step c = some next ∧ next.depth + opens rest ≤ MAX_LINE_DEPTH := by
      obtain ⟨depth, mode⟩ := scan
      rw [hcount]
      have hmore : (0 : Int) ≤ if (c.is '[' || c.is '\x7b') = true then 1 else 0 := by
        split <;> decide
      simp only [Nat.cast_add, Nat.cast_ite, Nat.cast_one, Nat.cast_zero] at hroom
      cases mode with
      | escape => exact ⟨_, rfl, by simp only; omega⟩
      | string =>
        simp only [DepthScan.step]
        split_ifs
        all_goals exact ⟨_, rfl, by simp only; omega⟩
      | outside =>
        simp only [DepthScan.step]
        by_cases hquote : c.is '"' = true
        · rw [if_pos hquote]
          exact ⟨_, rfl, by simp only; omega⟩
        rw [if_neg hquote]
        by_cases hopen : (c.is '[' || c.is '\x7b') = true
        · rw [if_pos hopen] at hroom ⊢
          rw [if_neg (by omega)]
          exact ⟨_, rfl, by simp only; omega⟩
        rw [if_neg hopen] at hroom ⊢
        split_ifs
        all_goals exact ⟨_, rfl, by simp only; omega⟩
    obtain ⟨next, hnext, hrest⟩ := hstep
    rw [List.foldlM_cons, hnext]
    exact ih hrest

/-- A line that `_check_line_depth` lets pass, or that is too short for it, passes the scan. -/
theorem passesDepth_of_check {lineNumber : Nat} (h : checkLineDepth lineNumber line = .ok ()) :
    passesDepth line = true := by
  have hfew : opens line ≤ MAX_LINE_DEPTH → passesDepth line = true := by
    intro hopens
    refine scan_passes ?_
    show (0 : Int) + opens line ≤ MAX_LINE_DEPTH
    omega
  rw [checkLineDepth] at h
  split_ifs at h with hcheck
  by_contra hdeep
  refine hcheck ⟨?_, fun hopens => hdeep (hfew hopens), Bool.eq_false_iff.mpr hdeep⟩
  by_contra hshort
  have hcount : opens line ≤ line.length := List.countP_le_length
  exact hdeep (hfew (by omega))

end

end TrustPortal.Proofs.Transcript
