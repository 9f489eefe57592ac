import TrustPortal.EvidenceStore.KeyText
import TrustPortal.Proofs.Transcript.EntryLine
import TrustPortal.Proofs.Transcript.Records

/-!
# `TrustPortal.Proofs.EvidenceStore.KeyText`: recorded keys

`stored_keys_decode` is the main fact. `raw_key` gives every key back from the form it is recorded
in, so two keys are never recorded alike. A key that is recorded escaped is of no kind, and a
recorded key has no control character and at most three characters for each byte of the key.

`unescapeText` undoes an escape (`unescapeText_percentEncoded`) and leaves any character but `%`
(`unescapeText_plain`); an escaped text has a `%` only where an escape starts.

The functions on strings without surrogates are the same ones (`storedKeyText_str`,
`rawKeyText_str`, `classifyText_str`), and `rawKey_storedKey` is the result for them.
-/

set_option autoImplicit false

namespace TrustPortal.Proofs.EvidenceStore

open TrustPortal.EvidenceStore
open TrustPortal.Proofs.Transcript
open TrustPortal.Python (CodePoint Str str)

/-! ## Escapes -/

private theorem upperHexValueText_upperHex :
    ∀ n < 16, upperHexValueText (upperHexText n) = some n := by
  decide

/-- An escape is read back. -/
private theorem unescapeText_percentEncoded {c : CodePoint} (hc : c.val < 256) (rest : Str) :
    unescapeText (percentEncodedText c ++ rest) = c :: unescapeText rest := by
  have hhigh := upperHexValueText_upperHex (c.val / 16) (by omega)
  have hlow := upperHexValueText_upperHex (c.val % 16) (by omega)
  have hchar : CodePoint.ofNat (16 * (c.val / 16) + c.val % 16) = c := by
    rw [Nat.div_add_mod, CodePoint.ofNat_val]
  have hpercent : (CodePoint.ofChar '%').is '%' = true := rfl
  simp only [percentEncodedText, List.cons_append, List.nil_append, unescapeText, hhigh, hlow,
    hchar, hpercent, if_true]

/-- A character that is no `%` stays. -/
private theorem unescapeText_plain {c : CodePoint} (hc : c.is '%' = false) (rest : Str) :
    unescapeText (c :: rest) = c :: unescapeText rest := by
  match rest with
  | [] => rfl
  | [a] => rfl
  | a :: b :: rest =>
    rw [unescapeText]
    split
    · rw [if_neg (by simp [hc])]
    · rfl

/-- What is escaped has a number of two digits. -/
private theorem escaped_lt {c : CodePoint} (h : (c.is '%' || controlText c) = true) :
    c.val < 256 := by
  have hpercent : '%'.toNat = 37 := rfl
  simp only [CodePoint.is, hpercent, controlText, Bool.or_eq_true, Bool.and_eq_true, beq_iff_eq,
    decide_eq_true_eq] at h
  omega

/-- An escaped text is read back. -/
private theorem unescapeText_escape (text : Str) :
    unescapeText (text.flatMap fun c =>
      if c.is '%' || controlText c then percentEncodedText c else [c]) = text := by
  induction text with
  | nil => rfl
  | cons c rest ih =>
    rw [List.flatMap_cons]
    split
    · rename_i hescaped
      rw [unescapeText_percentEncoded (escaped_lt hescaped), ih]
    · rename_i hplain
      rw [Bool.not_eq_true, Bool.or_eq_false_iff] at hplain
      rw [List.singleton_append, unescapeText_plain hplain.1, ih]

/-- The form a key is recorded in gives the key back. -/
theorem rawKeyText_storedKeyText (key : Str) :
    rawKeyText (storedKeyText key).1 (storedKeyText key).2 = key := by
  rw [storedKeyText]
  split
  · exact unescapeText_escape key
  · rfl

/-! ## What is recorded -/

private theorem upperHexText_plain : ∀ n < 16, controlText (upperHexText n) = false := by
  decide

/-- A recorded key has no control character. -/
private theorem storedKeyText_plain (key : Str) :
    ∀ c ∈ (storedKeyText key).1, controlText c = false := by
  rw [storedKeyText]
  split
  · intro c hc
    obtain ⟨source, -, hsource⟩ := List.mem_flatMap.mp hc
    split at hsource
    · rename_i hescaped
      have hlt := escaped_lt hescaped
      rcases List.mem_cons.mp hsource with rfl | hdigit
      · rfl
      rcases List.mem_cons.mp hdigit with rfl | hdigit
      · exact upperHexText_plain _ (by omega)
      · rw [List.mem_singleton.mp hdigit]
        exact upperHexText_plain _ (by omega)
    · rename_i hplain
      rw [Bool.not_eq_true, Bool.or_eq_false_iff] at hplain
      rw [List.mem_singleton.mp hsource]
      exact hplain.2
  · rename_i hnone
    intro c hc
    rw [Bool.not_eq_true, List.any_eq_false] at hnone
    simpa using hnone c hc

/-- An escape has three characters. -/
private theorem length_escape (text : Str) :
    (text.flatMap fun c =>
      if c.is '%' || controlText c then percentEncodedText c else [c]).length
      ≤ 3 * text.length := by
  induction text with
  | nil => exact Nat.le_refl _
  | cons c rest ih =>
    have hone : (if c.is '%' || controlText c then percentEncodedText c else [c]).length ≤ 3 := by
      split <;> simp [percentEncodedText]
    rw [List.flatMap_cons, List.length_append, List.length_cons]
    omega

/-- A recorded key has at most three characters for each byte of the key. -/
private theorem length_storedKeyText (key : Str) :
    (storedKeyText key).1.length ≤ 3 * (Python.encodePass key).length := by
  have hbytes := length_le_encodePass key
  rw [storedKeyText]
  split
  · exact (length_escape key).trans (Nat.mul_le_mul_left 3 hbytes)
  · show key.length ≤ _
    omega

/-- A key that is recorded escaped has a problem. -/
private theorem keyProblemText_of_escaped {key : Str} (h : (storedKeyText key).2 = true) :
    ∃ problem, keyProblemText key = some problem := by
  have hcontrol : key.any controlText = true := by
    rw [storedKeyText] at h
    split at h
    · assumption
    · cases h
  rw [keyProblemText]
  split_ifs <;> exact ⟨_, rfl⟩

/-- **Recorded keys.** Every key is given back from the form it is recorded in, and two keys are
never recorded alike. A key that is recorded escaped is unmapped. A recorded key has no control
character, and it fits its column when the key is at most 1,024 bytes long. -/
theorem stored_keys_decode :
    (∀ key, rawKeyText (storedKeyText key).1 (storedKeyText key).2 = key)
    ∧ (∀ key other, storedKeyText key = storedKeyText other → key = other)
    ∧ (∀ key, (storedKeyText key).2 = true → (classifyText key).kind = .unmapped)
    ∧ ∀ key, (Python.encodePass key).length ≤ MAX_KEY_BYTES →
      (∀ c ∈ (storedKeyText key).1, controlText c = false)
      ∧ (storedKeyText key).1.length ≤ 3072 := by
  refine ⟨rawKeyText_storedKeyText, fun key other hsame => ?_, fun key hescaped => ?_,
    fun key hbytes => ⟨storedKeyText_plain key, ?_⟩⟩
  · rw [← rawKeyText_storedKeyText key, hsame, rawKeyText_storedKeyText]
  · obtain ⟨problem, hproblem⟩ := keyProblemText_of_escaped hescaped
    rw [classifyText, hproblem]
    rfl
  · have hlength := length_storedKeyText key
    rw [MAX_KEY_BYTES] at hbytes
    omega

/-- `stored_keys_decode` for a key with a line feed and a `%`. -/
theorem stored_keys_decode_line :
    (classifyText (str "a%\n")).kind = .unmapped
    ∧ rawKeyText (storedKeyText (str "a%\n")).1 (storedKeyText (str "a%\n")).2 = str "a%\n"
    ∧ (storedKeyText (str "a%\n")).1.length ≤ 3072 :=
  ⟨stored_keys_decode.2.2.1 _ (by decide), stored_keys_decode.1 _,
    (stored_keys_decode.2.2.2 _ (by decide)).2⟩

/-! ## Strings without surrogates -/

/-- A text of Python that was a text. -/
theorem textOf_str (text : String) : textOf (str text) = some text := by
  have hnone : (str text).any Python.CodePoint.isSurrogate = false := by
    rw [List.any_eq_false]
    intro c hc
    simp [str_not_surrogate text c hc]
  have hchars : (str text).map (fun c => Char.ofNat c.val) = text.toList := by
    rw [str, List.map_map]
    refine (List.map_congr_left fun c _ => ?_).trans (List.map_id _)
    rw [Function.comp_apply, ofChar_val, Char.ofNat_toNat]
    rfl
  rw [textOf, hnone, hchars, String.ofList_toList]
  rfl

private theorem ofChar_injective : Function.Injective CodePoint.ofChar := by
  intro c d h
  have hval := congrArg CodePoint.val h
  rw [ofChar_val, ofChar_val] at hval
  exact Char.toNat_inj.mp hval

@[simp] private theorem is_ofChar (c char : Char) :
    (CodePoint.ofChar c).is char = decide (c = char) := by
  rw [CodePoint.is, ofChar_val, Bool.eq_iff_iff, beq_iff_eq, decide_eq_true_eq, Char.toNat_inj]

@[simp] private theorem controlText_ofChar (c : Char) :
    controlText (CodePoint.ofChar c) = EvidenceStore.control c := by
  rw [controlText, ofChar_val, EvidenceStore.control]

private theorem any_controlText_str (key : String) :
    (str key).any controlText = key.toList.any EvidenceStore.control := by
  rw [str, List.any_map]
  exact congrArg key.toList.any (funext controlText_ofChar)

private theorem upperHexText_eq : ∀ n < 16, upperHexText n = CodePoint.ofChar (upperHex n) := by
  decide

private theorem percentEncodedText_ofChar {c : Char} (hc : c.toNat < 256) :
    percentEncodedText (CodePoint.ofChar c) = (percentEncoded c).map CodePoint.ofChar := by
  rw [percentEncodedText, ofChar_val, upperHexText_eq _ (by omega), upperHexText_eq _ (by omega)]
  rfl

theorem storedKeyText_str (key : String) :
    storedKeyText (str key) = (str (storedKey key).1, (storedKey key).2) := by
  rw [storedKeyText, storedKey, any_controlText_str]
  split
  · refine congrArg (·, true) ?_
    rw [str, str, String.toList_ofList, List.flatMap_map, List.map_flatMap]
    refine List.flatMap_congr fun c _ => ?_
    simp only [is_ofChar, controlText_ofChar, Bool.or_eq_true, decide_eq_true_eq]
    split
    · rename_i hescaped
      refine percentEncodedText_ofChar ?_
      have hlt := @escaped_lt (CodePoint.ofChar c) (by simpa using hescaped)
      rwa [ofChar_val] at hlt
    · rfl
  · rfl

private theorem upperHexValueText_ofChar (c : Char) :
    upperHexValueText (CodePoint.ofChar c) = upperHexValue c := by
  have hle : ∀ a b : Char, a ≤ b ↔ a.toNat ≤ b.toNat := fun a b => UInt32.le_iff_toNat_le
  rw [upperHexValueText, upperHexValue, ofChar_val]
  simp only [hle]
  rfl

private theorem upperHexValue_lt {c : Char} {n : Nat} (h : upperHexValue c = some n) : n < 16 := by
  rw [← upperHexValueText_ofChar, upperHexValueText] at h
  split_ifs at h <;> · obtain rfl := Option.some_inj.mp h; omega

private theorem ofNat_eq_ofChar {n : Nat} (h : n < 256) :
    CodePoint.ofNat n = CodePoint.ofChar (Char.ofNat n) := by
  have hvalid : n.isValidChar := .inl (by omega)
  have hval : (Char.ofNat n).toNat = n := by
    rw [Char.ofNat, dif_pos hvalid]
    rfl
  rw [CodePoint.ofChar, hval]

private theorem unescapeText_map : ∀ chars : List Char,
    unescapeText (chars.map CodePoint.ofChar) = (unescape chars).map CodePoint.ofChar
  | [] => rfl
  | [_] => rfl
  | [_, _] => rfl
  | c :: a :: b :: rest => by
    have hrest := unescapeText_map rest
    have htail := unescapeText_map (a :: b :: rest)
    simp only [List.map_cons] at htail ⊢
    rw [unescapeText, unescape, upperHexValueText_ofChar, upperHexValueText_ofChar, is_ofChar]
    cases hhigh : upperHexValue a with
    | none => simp only [htail, List.map_cons]
    | some high =>
      cases hlow : upperHexValue b with
      | none => simp only [htail, List.map_cons]
      | some low =>
        have hlt := upperHexValue_lt hhigh
        have hlt' := upperHexValue_lt hlow
        have hchar := @ofNat_eq_ofChar (16 * high + low) (by omega)
        by_cases hc : c = '%'
        · simp only [hc, decide_true, if_true, hrest, hchar, List.map_cons]
        · simp only [hc, decide_false, Bool.false_eq_true, if_false, htail, List.map_cons]

theorem rawKeyText_str (key : String) (escaped : Bool) :
    rawKeyText (str key) escaped = str (rawKey key escaped) := by
  cases escaped with
  | false => rfl
  | true =>
    show unescapeText (key.toList.map CodePoint.ofChar)
      = (String.ofList (unescape key.toList)).toList.map CodePoint.ofChar
    rw [unescapeText_map, String.toList_ofList]

/-- The form a key is recorded in gives the key back. -/
theorem rawKey_storedKey (key : String) : rawKey (storedKey key).1 (storedKey key).2 = key := by
  have htext := rawKeyText_storedKeyText (str key)
  rw [storedKeyText_str, rawKeyText_str] at htext
  exact str_inj.mp htext

private theorem length_encodeChar_ofChar (c : Char) :
    (Python.encodeChar (CodePoint.ofChar c)).length = c.utf8Size := by
  have hsize : c.utf8Size = if c.toNat ≤ 0x7F then 1 else if c.toNat ≤ 0x7FF then 2
      else if c.toNat ≤ 0xFFFF then 3 else 4 := by
    rw [Char.utf8Size]
    simp only [UInt32.le_iff_toNat_le]
    rfl
  rw [hsize, Python.encodeChar, ofChar_val]
  split_ifs <;> first | rfl | omega

private theorem length_encodePass_str (key : String) :
    (Python.encodePass (str key)).length = key.utf8ByteSize := by
  have hall : ∀ chars : List Char, (Python.encodePass (chars.map CodePoint.ofChar)).length
      = (String.ofList chars).utf8ByteSize := by
    intro chars
    induction chars with
    | nil => rfl
    | cons c rest ih =>
      rw [String.ofList_cons, String.utf8ByteSize_append, String.utf8ByteSize_singleton, ← ih,
        ← length_encodeChar_ofChar]
      exact List.length_append
  rw [str, hall, String.ofList_toList]

private theorem isPrefixOf_str (a b : String) :
    (str a).isPrefixOf (str b) = a.toList.isPrefixOf b.toList := by
  rw [Bool.eq_iff_iff, List.isPrefixOf_iff_prefix, List.isPrefixOf_iff_prefix]
  exact List.prefix_map_iff_of_injective ofChar_injective

private theorem splitOnP_map (chars : List Char) :
    (chars.map CodePoint.ofChar).splitOnP (fun c => c.is '/')
      = (chars.splitOn '/').map (List.map CodePoint.ofChar) := by
  rw [List.splitOn_eq_splitOnP]
  induction chars with
  | nil => rfl
  | cons c rest ih =>
    rw [List.map_cons, List.splitOnP_cons_eq_if_modifyHead, List.splitOnP_cons_eq_if_modifyHead, ih,
      is_ofChar]
    by_cases hc : c = '/'
    · simp [hc]
    · have hne := List.splitOnP_ne_nil (· == '/') rest
      obtain ⟨first, others, hsplit⟩ := List.exists_cons_of_ne_nil hne
      simp [hc, hsplit]

private theorem any_is_str (key : String) (char : Char) :
    (str key).any (fun c => c.is char) = key.toList.contains char := by
  rw [str, List.any_map, Bool.eq_iff_iff, List.any_eq_true, List.contains_iff_mem]
  simp

theorem keyProblemText_str (key : String) : keyProblemText (str key) = keyProblem key := by
  have hempty : str key = [] ↔ key = "" := by
    rw [← String.toList_eq_nil_iff, str, List.map_eq_nil_iff]
  have hsegments : ((str key).splitOnP fun c => c.is '/').any
      (fun segment => [[], str ".", str ".."].contains segment)
      = (key.toList.splitOn '/').any fun segment => [[], ['.'], ['.', '.']].contains segment := by
    rw [str, splitOnP_map, List.any_map]
    congr 1
    funext segment
    have hmap : [[], str ".", str ".."]
        = [[], ['.'], ['.', '.']].map (List.map CodePoint.ofChar) := rfl
    rw [Function.comp_apply, hmap, Bool.eq_iff_iff, List.contains_iff_mem, List.contains_iff_mem,
      List.mem_map_of_injective (List.map_injective_iff.mpr ofChar_injective)]
  rw [keyProblemText, keyProblem, length_encodePass_str, isPrefixOf_str, any_is_str,
    any_controlText_str, hsegments]
  simp only [hempty]

private theorem pentestMatchText_str (key : String) :
    pentestMatchText (str key) = pentestMatch key := by
  have hlayer : ∀ c : Char, (decide (49 ≤ c.toNat) && decide (c.toNat ≤ 57))
      = (decide ('1' ≤ c) && decide (c ≤ '9')) := by
    intro c
    simp only [Char.le_def, UInt32.le_iff_toNat_le]
    rfl
  have hsuffix : ∀ a b : List Char,
      (a.map CodePoint.ofChar).isSuffixOf (b.map CodePoint.ofChar) = a.isSuffixOf b := by
    intro a b
    rw [Bool.eq_iff_iff, List.isSuffixOf_iff_suffix, List.isSuffixOf_iff_suffix]
    exact List.suffix_map_iff_of_injective ofChar_injective
  have hslash : ∀ c : Option Char, c.any (fun c => decide (c = '/')) = decide (c = some '/') := by
    rintro (_ | c) <;> simp
  rw [pentestMatchText, pentestMatch, isPrefixOf_str]
  simp only [str, List.length_map, ← List.map_drop, ← List.map_take, List.head?_map, hsuffix,
    Option.any_map, List.all_map, Function.comp_def, is_ofChar, ofChar_val, hlayer, hslash]
  simp

/-- `classify` of a text is the same function. -/
theorem classifyText_str (key : String) : classifyText (str key) = classify key := by
  have hdecision : ∀ suffix, decisionLogMatchText suffix (str key) = decisionLogMatch suffix key := by
    intro suffix
    rw [decisionLogMatchText, textOf_str, Option.bind_some]
  have hlength : (str key).length = key.length := by
    rw [str, List.length_map, String.length_toList]
  rw [classifyText, keyProblemText_str]
  simp only [hdecision, pentestMatchText_str, isPrefixOf_str, hlength]
  rfl

end TrustPortal.Proofs.EvidenceStore
