import TrustPortal.DecisionLog.Verify
import TrustPortal.Lib.Code
import TrustPortal.Proofs.Audit.HeadKey

/-!
# `TrustPortal.Proofs.DecisionLog.Canonical`: one canonical text, one list of entries

`entries_sha256` is taken over the canonical forms of the entries, one after the other.
`canonicalText_injOn` says that the text determines the list. So no edit of an entry gives the
canonical text of another list: neither an edit within a field nor one that looks like the end of
the entry and the beginning of the next.

The parts of a canonical form end by themselves. A string literal ends at its closing quote, since
`json.dumps` escapes the quotes in it (`quote_selfDelimiting`); None is written without quotes; and
the time is in a literal too, so it is enough that `isoformat` is injective on the times a
`datetime` has (`isoformat_injOn`).
-/

set_option autoImplicit false

namespace TrustPortal.Proofs.DecisionLog

open TrustPortal.Sql
open TrustPortal.Audit
open TrustPortal.DecisionLog
open TrustPortal.Lib
open TrustPortal.Proofs.Audit

/-! ## String literals -/

/-- The value of a hexadecimal digit. -/
private def hexValue (c : Char) : Nat :=
  if c.toNat < 58 then c.toNat - 48 else c.toNat - 87

/-- One character of a JSON string literal and what follows it. -/
private def unescape : List Char → Option (Char × List Char)
  | '\\' :: 'u' :: _ :: _ :: high :: low :: rest =>
      some (Char.ofNat (hexValue high * 16 + hexValue low), rest)
  | '\\' :: c :: rest =>
      some (if c = 'b' then '\x08' else if c = 'f' then '\x0c' else if c = 'n' then '\n'
        else if c = 'r' then '\r' else if c = 't' then '\t' else c, rest)
  | c :: rest => some (c, rest)
  | [] => none

/-- The escape of a control character is read back. -/
private theorem hexValue_digits :
    ∀ n < 32, hexValue (Nat.digitChar (n / 16)) * 16 + hexValue (Nat.digitChar (n % 16)) = n := by
  decide

/-- The characters of such an escape. -/
private theorem toList_control (high low : Char) :
    ("\\u00" ++ String.ofList [high, low]).toList = ['\\', 'u', '0', '0', high, low] := by
  simp

private theorem unescape_escapeChar (c : Char) (s : List Char) :
    unescape ((Json.escapeChar c).toList ++ s) = some (c, s) := by
  unfold Json.escapeChar
  split
  · next h => subst h; rfl
  split
  · next h => subst h; rfl
  split
  · next h => subst h; rfl
  split
  · next h => subst h; rfl
  split
  · next h => subst h; rfl
  split
  · next h => subst h; rfl
  split
  · next h => subst h; rfl
  split
  · next hcontrol =>
    rw [toList_control]
    show some (Char.ofNat (hexValue _ * 16 + hexValue _), s) = _
    rw [hexValue_digits c.toNat hcontrol, Char.ofNat_toNat]
  · next hslash _ _ _ _ _ _ =>
    rw [String.toList_singleton]
    show unescape (c :: s) = _
    unfold unescape
    split <;> simp_all

/-- The escapes end by themselves. -/
theorem escapeChar_selfDelimiting :
    SelfDelimiting (fun c => (Json.escapeChar c).toList) Set.univ :=
  .of_decoder unescape fun c _ => unescape_escapeChar c

/-- An escape has a first character, and it is no quote. -/
private theorem head_escapeChar (c : Char) :
    ∃ first rest, (Json.escapeChar c).toList = first :: rest ∧ first ≠ '"' := by
  unfold Json.escapeChar
  by_cases hquote : c = '"'
  · rw [if_pos hquote]
    exact ⟨_, _, rfl, by decide⟩
  · rw [if_neg hquote]
    -- The escapes of two characters start with a backslash.
    iterate 6
      split
      · exact ⟨_, _, rfl, by decide⟩
    split
    · exact ⟨_, _, toList_control _ _, by decide⟩
    · exact ⟨_, _, String.toList_singleton _, hquote⟩

/-- The characters of a string literal. -/
theorem toList_quote (s : String) : (Json.quote s).toList
    = '"' :: (s.toList.flatMap (fun c => (Json.escapeChar c).toList) ++ ['"']) := by
  rw [Json.quote, String.toList_append, String.toList_append, String.toList_join, List.flatMap_map]
  rfl

/-- A string literal ends by itself. -/
theorem quote_selfDelimiting : SelfDelimiting (fun s => (Json.quote s).toList) Set.univ := by
  have hword : ∀ c ∈ (Set.univ : Set Char), (Json.escapeChar c).toList ≠ [] := by
    intro c _
    obtain ⟨first, rest, hchars, _⟩ := head_escapeChar c
    simp [hchars]
  have hstop : ∀ c ∈ (Set.univ : Set Char), (Json.escapeChar c).toList.head? ≠ some '"' := by
    intro c _
    obtain ⟨first, rest, hchars, hfirst⟩ := head_escapeChar c
    simpa [hchars] using hfirst
  intro a _ b _ s t heq
  simp only [toList_quote] at heq
  obtain ⟨hchars, hrest⟩ := escapeChar_selfDelimiting.terminated hword hstop
    a.toList (fun _ _ => trivial) b.toList (fun _ _ => trivial) s t (List.cons.inj heq).2
  exact ⟨String.toList_injective hchars, hrest⟩

/-- A text or None ends by itself. -/
theorem dumpsText_selfDelimiting : SelfDelimiting (fun s => (dumpsText s).toList) Set.univ := by
  have hnull := quote_selfDelimiting.option 'n' ['u', 'l', 'l']
  intro a _ b _ s t heq
  have hcode : ∀ o, (dumpsText o).toList
      = o.elim ['n', 'u', 'l', 'l'] fun s => (Json.quote s).toList := by
    intro o
    cases o <;> rfl
  simp only [hcode] at heq
  refine hnull ?_ ?_ a (fun _ _ => trivial) b (fun _ _ => trivial) s t heq
  · intro s _
    simp [toList_quote]
  · intro s _
    simp [toList_quote]

/-! ## Times -/

/-- The parts of a day number that `civilFromDays` works with: its era of 400 years, the year and
the day in it, counted from March, and the month. -/
private structure CivilParts (day : Int) (era : Int) (yoe doy mp : Nat) : Prop where
  days : day + 719468 = era * 146097 + ((365 * yoe + yoe / 4 - yoe / 100 + doy : Nat) : Int)
  yoe_lt : yoe < 400
  doy_le : doy ≤ 365
  mp_eq : mp = (5 * doy + 2) / 153
  civil : civilFromDays day
    = (yoe + era * 400 + (if (if mp < 10 then mp + 3 else mp - 9) ≤ 2 then 1 else 0),
        (if mp < 10 then mp + 3 else mp - 9), doy - (153 * mp + 2) / 5 + 1)

/-- The year of a day of the era, and the day of that year. -/
private theorem yearOfEra {doe : Nat} (h : doe < 146097) :
    let yoe := (doe - doe / 1460 + doe / 36524 - doe / 146096) / 365
    yoe < 400 ∧ 365 * yoe + yoe / 4 - yoe / 100 ≤ doe
      ∧ doe - (365 * yoe + yoe / 4 - yoe / 100) ≤ 365 := by
  -- the century, the cycle of four years in it, and the day of the cycle
  obtain ⟨c, q, s, hdoe, hc, hq, hs⟩ : ∃ c q s, doe = 36524 * c + 1461 * q + s ∧ c ≤ 3 ∧ q ≤ 24
      ∧ (s < 1460 ∨ s = 1460 ∧ (c = 3 ∨ q < 24)) := by
    obtain ⟨c, hc, hlow, hhigh⟩ : ∃ c ≤ 3, 36524 * c ≤ doe ∧ (c < 3 → doe < 36524 * c + 36524) := by
      refine ⟨min 3 (doe / 36524), ?_, ?_, ?_⟩ <;> omega
    refine ⟨c, (doe - 36524 * c) / 1461, (doe - 36524 * c) % 1461, ?_, hc, ?_, ?_⟩ <;> omega
  have hcycle : doe / 1460 = 25 * c + q + (24 * c + q + s) / 1460 := by omega
  have hcentury : doe / 36524 = c + doe / 146096 := by
    have hin : 1461 * q + s ≤ 36524 := by omega
    have hlast : 1461 * q + s = 36524 → c = 3 := by omega
    by_cases hend : 1461 * q + s = 36524
    · have := hlast hend
      omega
    · have hquarter : doe / 36524 = c := by omega
      have hwhole : doe / 146096 = 0 := by omega
      omega
  intro yoe
  have hyoe : yoe = 100 * c + 4 * q + (s - (24 * c + q + s) / 1460) / 365 := by
    show (doe - doe / 1460 + doe / 36524 - doe / 146096) / 365 = _
    omega
  have hyear : (s - (24 * c + q + s) / 1460) / 365 ≤ 3 := by omega
  generalize yoe = yoe' at hyoe ⊢
  have hleap : yoe' / 4 = 25 * c + q := by omega
  have hhundred : yoe' / 100 = c := by omega
  rw [hleap, hhundred]
  omega

private theorem civilParts (day : Int) : ∃ era yoe doy mp, CivilParts day era yoe doy mp := by
  have hdoe : ((day + 719468) % 146097).toNat < 146097 := by omega
  have hdays : day + 719468 = (day + 719468) / 146097 * 146097
      + (((day + 719468) % 146097).toNat : Nat) := by omega
  obtain ⟨hyoe, hle, hdoy⟩ := yearOfEra hdoe
  refine ⟨(day + 719468) / 146097, _, _, _, ?_, hyoe, hdoy, rfl, rfl⟩
  rw [Nat.add_sub_cancel' hle]
  exact hdays

/-- A date is the date of one day. -/
theorem civilFromDays_injective : Function.Injective civilFromDays := by
  intro a b heq
  obtain ⟨era, yoe, doy, mp, ha⟩ := civilParts a
  obtain ⟨era', yoe', doy', mp', hb⟩ := civilParts b
  rw [ha.civil, hb.civil, Prod.mk.injEq, Prod.mk.injEq] at heq
  obtain ⟨hyear, hmonth, hday⟩ := heq
  have hmp := ha.mp_eq
  have hmp' := hb.mp_eq
  have hdoy := ha.doy_le
  have hdoy' := hb.doy_le
  have hsame : mp = mp' := by
    split at hmonth <;> split at hmonth <;> omega
  subst hsame
  have hsame : doy = doy' := by omega
  subst hsame
  have hyears : (yoe : Int) + era * 400 = yoe' + era' * 400 := by omega
  have hyoe := ha.yoe_lt
  have hyoe' := hb.yoe_lt
  have hera : era = era' := by omega
  have hsame : yoe = yoe' := by omega
  subst hera hsame
  have hdays := ha.days
  have hdays' := hb.days
  omega

/-- The month and the day of a date have at most two digits. -/
private theorem civil_lt (day : Int) :
    (civilFromDays day).2.1 < 10 ^ 2 ∧ (civilFromDays day).2.2 < 10 ^ 2 := by
  obtain ⟨era, yoe, doy, mp, h⟩ := civilParts day
  have hmp := h.mp_eq
  have hdoy := h.doy_le
  rw [h.civil]
  refine ⟨?_, ?_⟩
  · show (if mp < 10 then mp + 3 else mp - 9) < 10 ^ 2
    split <;> omega
  · show doy - (153 * mp + 2) / 5 + 1 < 10 ^ 2
    omega

/-- The hour, the minute and the second of a time have at most two digits. -/
private theorem clock_lt (us : Int) :
    (us % 86400000000).toNat / 3600000000 < 10 ^ 2
      ∧ (us % 86400000000).toNat / 60000000 % 60 < 10 ^ 2
      ∧ (us % 86400000000).toNat / 1000000 % 60 < 10 ^ 2 := by
  have hday : (us % 86400000000).toNat < 86400000000 := by omega
  generalize (us % 86400000000).toNat = time at hday
  omega

/-- Padding keeps the number. -/
theorem zeroPad_injective (width : Nat) : Function.Injective (zeroPad width) := by
  have hvalue : ∀ n, Nat.ofDigitChars 10 (zeroPad width n).toList 0 = n := by
    intro n
    have hlist : (zeroPad width n).toList
        = List.replicate (width - (Nat.toDigits 10 n).length) '0' ++ Nat.toDigits 10 n := by
      simp [zeroPad, ← String.length_toList]
    rw [hlist, Nat.ofDigitChars_append, Nat.ofDigitChars_replicate_zero, Nat.mul_zero,
      Nat.ofDigitChars_ten_toDigits]
  intro m n heq
  rw [← hvalue m, ← hvalue n, heq]

/-- A padded number that fits its width ends by itself. -/
theorem zeroPad_selfDelimiting {width : Nat} (hwidth : 0 < width) :
    SelfDelimiting (fun n => (zeroPad width n).toList) {n | n < 10 ^ width} := by
  refine .of_length width ?_ ?_
  · intro m _ n _ heq
    exact zeroPad_injective width (String.toList_injective heq)
  · intro n hn
    exact (digits_zeroPad hwidth hn).1

/-- The characters of a time. -/
private theorem toList_isoformat (us : Int) : (isoformat us).toList
    = (yearText (civilFromDays (us / 86400000000)).1).toList ++ ("-".toList
      ++ ((zeroPad 2 (civilFromDays (us / 86400000000)).2.1).toList ++ ("-".toList
      ++ ((zeroPad 2 (civilFromDays (us / 86400000000)).2.2).toList ++ ("T".toList
      ++ ((zeroPad 2 ((us % 86400000000).toNat / 3600000000)).toList ++ (":".toList
      ++ ((zeroPad 2 ((us % 86400000000).toNat / 60000000 % 60)).toList ++ (":".toList
      ++ ((zeroPad 2 ((us % 86400000000).toNat / 1000000 % 60)).toList
      ++ ((if (us % 86400000000).toNat % 1000000 = 0 then ""
          else "." ++ zeroPad 6 ((us % 86400000000).toNat % 1000000)).toList
        ++ "+00:00".toList))))))))))) := by
  unfold isoformat
  simp only [String.toList_append, List.append_assoc]

/-- The fraction of a second is written when it is not zero. -/
private theorem fraction_eq {m n : Nat}
    (h : (if m = 0 then "" else "." ++ zeroPad 6 m).toList ++ "+00:00".toList
      = (if n = 0 then "" else "." ++ zeroPad 6 n).toList ++ "+00:00".toList) : m = n := by
  have htext := String.toList_injective (List.append_cancel_right h)
  split at htext
  · split at htext
    · omega
    · simp [String.ext_iff] at htext
  · split at htext
    · simp [String.ext_iff] at htext
    · exact zeroPad_injective 6 ((String.append_right_inj ".").mp htext)

/-- Two times of a `datetime` are written differently. -/
theorem isoformat_injOn : Set.InjOn isoformat {us | InDatetime us} := by
  intro a ha b hb heq
  have hchars := congrArg String.toList heq
  rw [toList_isoformat, toList_isoformat] at hchars
  have hyear : ∀ us, InDatetime us → yearText (civilFromDays (us / 86400000000)).1
      = zeroPad 4 (civilFromDays (us / 86400000000)).1.toNat
        ∧ (civilFromDays (us / 86400000000)).1.toNat < 10 ^ 4 := by
    intro us hus
    obtain ⟨hlow, hhigh⟩ := hus
    refine ⟨?_, by omega⟩
    rw [yearText, if_neg (by omega)]
  obtain ⟨hyearA, hltA⟩ := hyear a ha
  obtain ⟨hyearB, hltB⟩ := hyear b hb
  rw [hyearA, hyearB] at hchars
  -- the parts have fixed widths, so they are equal one after the other
  have hfour := @zeroPad_selfDelimiting 4 (by decide)
  have htwo := @zeroPad_selfDelimiting 2 (by decide)
  obtain ⟨hy, hchars⟩ := hfour _ hltA _ hltB _ _ hchars
  obtain ⟨hmonth, hchars⟩ := htwo _ (civil_lt _).1 _ (civil_lt _).1 _ _
    (List.append_cancel_left hchars)
  obtain ⟨hday, hchars⟩ := htwo _ (civil_lt _).2 _ (civil_lt _).2 _ _
    (List.append_cancel_left hchars)
  obtain ⟨hhour, hchars⟩ := htwo _ (clock_lt a).1 _ (clock_lt b).1 _ _
    (List.append_cancel_left hchars)
  obtain ⟨hminute, hchars⟩ := htwo _ (clock_lt a).2.1 _ (clock_lt b).2.1 _ _
    (List.append_cancel_left hchars)
  obtain ⟨hsecond, hchars⟩ := htwo _ (clock_lt a).2.2 _ (clock_lt b).2.2 _ _
    (List.append_cancel_left hchars)
  have hmicros := fraction_eq hchars
  have hdays : a / 86400000000 = b / 86400000000 := by
    refine civilFromDays_injective (Prod.ext ?_ (Prod.ext hmonth hday))
    have := ha.1
    have := hb.1
    omega
  omega

/-! ## Entries -/

/-- The time of an entry is the time of a `datetime`. -/
def Dated (entry : Entry) : Prop := ∀ us, entry.timestamp = some us → InDatetime us

/-- The text that `entries_sha256` is taken over. -/
def canonicalText (entries : List Entry) : String := String.join (entries.map canonicalEntry)

/-- The digest of a list of entries is that of its canonical text. -/
theorem entriesDigest_eq (sha : Sha256) (entries : List Entry) :
    entriesDigest sha entries = sha.hexOfText (canonicalText entries) := by
  have hfed : ∀ (digest : Hasher) (entries : List Entry),
      (digest.updateEntries entries).fed = digest.fed ++ canonicalText entries := by
    intro digest entries
    induction entries generalizing digest with
    | nil => simp [Hasher.updateEntries, canonicalText]
    | cons entry rest ih =>
      show ((digest.update (canonicalEntry entry)).updateEntries rest).fed = _
      rw [ih, canonicalText, canonicalText, List.map_cons, String.join_cons, Hasher.update,
        String.append_assoc]
  rw [entriesDigest, Hasher.hexdigest, hfed, Hasher.new, String.empty_append]

/-- The characters of a canonical form. -/
private theorem toList_canonicalEntry (entry : Entry) : (canonicalEntry entry).toList
    = '[' :: ((dumpsText entry.role).toList ++ (',' :: ((dumpsText entry.contentText).toList
      ++ (',' :: ((dumpsText entry.toolCalls).toList
      ++ (',' :: ((dumpsText (entry.timestamp.map isoformat)).toList
      ++ (',' :: ((dumpsText entry.messageId).toList
      ++ (',' :: ((if entry.isVerification then "true" else "false").toList
        ++ [']', '\n']))))))))))) := by
  simp [canonicalEntry, String.intercalate_cons_cons, String.intercalate_singleton]

/-- The time of an entry is read back from its text. -/
private theorem timestamp_eq {a b : Option Int} (ha : ∀ us, a = some us → InDatetime us)
    (hb : ∀ us, b = some us → InDatetime us) (h : a.map isoformat = b.map isoformat) : a = b := by
  cases a with
  | none =>
    cases b with
    | none => rfl
    | some b => cases h
  | some a =>
    cases b with
    | none => cases h
    | some b => rw [isoformat_injOn (ha a rfl) (hb b rfl) (Option.some.inj h)]

/-- The flag of an entry and the end of its line. -/
private theorem flag_eq {x y : Bool} {s t : List Char}
    (h : (if x then "true" else "false").toList ++ (']' :: '\n' :: s)
      = (if y then "true" else "false").toList ++ (']' :: '\n' :: t)) : x = y ∧ s = t := by
  cases x <;> cases y <;> simp at h ⊢
  · exact h
  · exact h

/-- A canonical form ends by itself. -/
theorem canonicalEntry_selfDelimiting :
    SelfDelimiting (fun entry => (canonicalEntry entry).toList) {entry | Dated entry} := by
  intro a ha b hb s t heq
  have htext : ∀ (c : Char) (x y : Option String) (s t : List Char),
      c :: ((dumpsText x).toList ++ s) = c :: ((dumpsText y).toList ++ t) → x = y ∧ s = t := by
    intro c x y s t h
    exact dumpsText_selfDelimiting x trivial y trivial s t (List.cons.inj h).2
  simp only [toList_canonicalEntry, List.cons_append, List.append_assoc, List.nil_append] at heq
  obtain ⟨hrole, heq⟩ := htext _ _ _ _ _ heq
  obtain ⟨hcontent, heq⟩ := htext _ _ _ _ _ heq
  obtain ⟨hcalls, heq⟩ := htext _ _ _ _ _ heq
  obtain ⟨htime, heq⟩ := htext _ _ _ _ _ heq
  obtain ⟨hid, heq⟩ := htext _ _ _ _ _ heq
  have hflag := flag_eq (List.cons.inj heq).2
  have hinstant := timestamp_eq ha hb htime
  obtain ⟨_, _, _, _, _, _⟩ := a
  obtain ⟨_, _, _, _, _, _⟩ := b
  exact ⟨by rw [Entry.mk.injEq]; exact ⟨hrole, hcontent, hcalls, hinstant, hid, hflag.1⟩, hflag.2⟩

/-- The canonical text determines the entries. -/
theorem canonicalText_injOn :
    Set.InjOn canonicalText {entries | ∀ entry ∈ entries, Dated entry} := by
  intro as has bs hbs heq
  refine canonicalEntry_selfDelimiting.flatMap_injOn ?_ has hbs ?_
  · intro entry _
    rw [toList_canonicalEntry]
    exact List.cons_ne_nil _ _
  · have hchars := congrArg String.toList heq
    simp only [canonicalText, String.toList_join, List.flatMap_map] at hchars
    exact hchars

end TrustPortal.Proofs.DecisionLog
