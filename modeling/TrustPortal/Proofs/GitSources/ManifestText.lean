import TrustPortal.GitSources.ChunkedFiles
import TrustPortal.Proofs.Transcript.Written

/-!
# `TrustPortal.Proofs.GitSources.ManifestText`: the text of a manifest

The manifest that `split` writes is ASCII, of a length that the escaped name, the size and the part
size decide (`length_manifestText`). It reads as the same record with one change (`loads_manifest`):
a high surrogate and the low one after it are one character when they are read, because the two
escapes of a character above U+FFFF look the same. `joinPairs` makes this change.
-/

set_option autoImplicit false

namespace TrustPortal.Proofs.GitSources

open TrustPortal.Python
open TrustPortal.GitSources
open TrustPortal.Proofs.Transcript

/-- A name as it is read back: a pair of surrogates is one character. -/
def joinPairs : Str → Str
  | [] => []
  | [c] => [c]
  | c :: d :: rest =>
    if c.isHighSurrogate && d.isLowSurrogate then
      .ofNat (0x10000 + (c.val - 0xD800) * 0x400 + (d.val - 0xDC00)) :: joinPairs rest
    else c :: joinPairs (d :: rest)

section
variable {s t : Str} {c : CodePoint}

/-! ## Pairs of surrogates -/

private theorem joinPairs_eq (s : Str) : joinPairs s = joinSurrogates (s.map (·, true)) := by
  induction s using joinPairs.induct with
  | case1 => rfl
  | case2 c => rfl
  | case3 c d rest hpair ih => simp [joinPairs, joinSurrogates, hpair, ih]
  | case4 c d rest hpair ih => simp [joinPairs, joinSurrogates, hpair, ih]

/-- No pair is left. -/
theorem noPair_joinPairs (s : Str) : NoPair (joinPairs s) := by
  rw [joinPairs_eq]
  refine joinSurrogates_noPair _ _ (Nat.le_refl _) fun p hp => ?_
  obtain ⟨c, _, rfl⟩ := List.mem_map.mp hp
  nofun

/-- A text without pairs stays. -/
theorem joinPairs_of_noPair (h : NoPair s) : joinPairs s = s := by
  induction s using joinPairs.induct with
  | case1 => rfl
  | case2 c => rfl
  | case3 c d rest hpair ih =>
    obtain ⟨hnext, _⟩ := List.isChain_cons.mp h
    exact absurd (by simpa using hpair) (hnext d rfl)
  | case4 c d rest hpair ih =>
    rw [joinPairs, if_neg hpair, ih (List.isChain_cons.mp h).2]

theorem joinPairs_eq_self : joinPairs s = s ↔ NoPair s :=
  ⟨fun h => h ▸ noPair_joinPairs s, joinPairs_of_noPair⟩

/-- The character of a pair. -/
private theorem val_pair {d : CodePoint} (h : (c.isHighSurrogate && d.isLowSurrogate) = true) :
    0xD800 ≤ c.val ∧ c.val ≤ 0xDBFF ∧ 0xDC00 ≤ d.val ∧ d.val ≤ 0xDFFF
      ∧ (CodePoint.ofNat (0x10000 + (c.val - 0xD800) * 0x400 + (d.val - 0xDC00))).val
        = 0x10000 + (c.val - 0xD800) * 0x400 + (d.val - 0xDC00) := by
  simp only [Bool.and_eq_true, CodePoint.isHighSurrogate, CodePoint.isLowSurrogate,
    decide_eq_true_eq] at h
  exact ⟨h.1.1, h.1.2, h.2.1, h.2.2, CodePoint.val_ofNat (by omega)⟩

/-- A pair and its character have the same escapes. -/
theorem flatMap_joinPairs (s : Str) :
    (joinPairs s).flatMap escapeCharAscii = s.flatMap escapeCharAscii := by
  induction s using joinPairs.induct with
  | case1 => rfl
  | case2 c => rfl
  | case3 c d rest hpair ih =>
    obtain ⟨hc, hc', hd, hd', hval⟩ := val_pair hpair
    rw [joinPairs, if_pos hpair, List.flatMap_cons, List.flatMap_cons, List.flatMap_cons, ih,
      ← List.append_assoc]
    refine congrArg (· ++ rest.flatMap escapeCharAscii) ?_
    have hhigh : 0xD800 + (0x10000 + (c.val - 0xD800) * 0x400 + (d.val - 0xDC00) - 0x10000) / 0x400
        = c.val := by omega
    have hlow : 0xDC00 + (0x10000 + (c.val - 0xD800) * 0x400 + (d.val - 0xDC00) - 0x10000) % 0x400
        = d.val := by omega
    rw [escapeCharAscii, escapeCharAscii, escapeCharAscii, hval, hhigh, hlow, if_neg (by omega),
      if_neg (by omega), if_neg (by omega), if_pos (by omega), if_neg (by omega),
      if_pos (by omega)]
  | case4 c d rest hpair ih =>
    rw [joinPairs, if_neg hpair, List.flatMap_cons, List.flatMap_cons, ih]

/-- A text without characters that are escaped. -/
private theorem flatMap_escape_self (h : ∀ c ∈ t, escapeCharAscii c = [c]) :
    t.flatMap escapeCharAscii = t := by
  induction t with
  | nil => rfl
  | cons c rest ih =>
    rw [List.flatMap_cons, h c List.mem_cons_self, ih fun d hd => h d (List.mem_cons_of_mem c hd)]
    rfl

theorem renderString_joinPairs (s : Str) :
    renderString escapeCharAscii (joinPairs s) = renderString escapeCharAscii s := by
  rw [renderString, renderString, flatMap_joinPairs]

/-- A text that starts with no low surrogate is read by itself. -/
theorem joinPairs_append (h : ∀ d ∈ t.head?, d.isLowSurrogate = false) :
    joinPairs (s ++ t) = joinPairs s ++ joinPairs t := by
  induction s using joinPairs.induct with
  | case1 => rfl
  | case2 c =>
    cases t with
    | nil => rfl
    | cons d rest =>
      show joinPairs (c :: d :: rest) = c :: joinPairs (d :: rest)
      rw [joinPairs, if_neg (by rw [h d rfl, Bool.and_false]; nofun)]
  | case3 c d rest hpair ih =>
    show joinPairs (c :: d :: (rest ++ t)) = _
    rw [joinPairs, if_pos hpair, ih, joinPairs, if_pos hpair, List.cons_append]
  | case4 c d rest hpair ih =>
    show joinPairs (c :: d :: (rest ++ t)) = _
    rw [joinPairs, if_neg hpair, joinPairs, if_neg hpair, List.cons_append]
    exact congrArg _ ih

/-- What is false of surrogates and of what they are joined to. -/
theorem any_joinPairs {p : CodePoint → Bool} (h : ∀ c : CodePoint, 0xD800 ≤ c.val → p c = false)
    (s : Str) : (joinPairs s).any p = s.any p := by
  induction s using joinPairs.induct with
  | case1 => rfl
  | case2 c => rfl
  | case3 c d rest hpair ih =>
    obtain ⟨hc, _, hd, _, hval⟩ := val_pair hpair
    rw [joinPairs, if_pos hpair, List.any_cons, List.any_cons, List.any_cons, ih, h c hc,
      h d (by omega), h _ (by rw [hval]; omega)]
    rfl
  | case4 c d rest hpair ih => rw [joinPairs, if_neg hpair, List.any_cons, List.any_cons, ih]

/-! ## Dots -/

/-- The name ends in a dot. -/
def endsInDot (name : Str) : Bool := name.getLast?.any (CodePoint.is · '.')

/-- The text starts with a dot. -/
private def startsInDot (t : Str) : Bool := t.head?.any (CodePoint.is · '.')

private theorem is_dot_of_surrogate (h : 0xD800 ≤ c.val) : c.is '.' = false := by
  rw [CodePoint.is, beq_eq_false_iff_ne]
  show c.val ≠ 46
  omega

private theorem startsInDot_cons : startsInDot (c :: t) = c.is '.' := rfl

private theorem startsInDot_joinPairs (s : Str) : startsInDot (joinPairs s) = startsInDot s := by
  induction s using joinPairs.induct with
  | case1 => rfl
  | case2 c => rfl
  | case3 c d rest hpair ih =>
    obtain ⟨hc, _, _, _, hval⟩ := val_pair hpair
    rw [joinPairs, if_pos hpair, startsInDot_cons, startsInDot_cons, is_dot_of_surrogate hc,
      is_dot_of_surrogate (by rw [hval]; omega)]
  | case4 c d rest hpair ih => rw [joinPairs, if_neg hpair]; rfl

private theorem hasDots_cons : hasDots (c :: t) = ((c.is '.' && startsInDot t) || hasDots t) := rfl

/-- Reading changes nothing about two dots in a row. -/
theorem hasDots_joinPairs (s : Str) : hasDots (joinPairs s) = hasDots s := by
  induction s using joinPairs.induct with
  | case1 => rfl
  | case2 c => rfl
  | case3 c d rest hpair ih =>
    obtain ⟨hc, _, hd, _, hval⟩ := val_pair hpair
    rw [joinPairs, if_pos hpair, hasDots_cons, hasDots_cons, hasDots_cons, ih,
      is_dot_of_surrogate hc, is_dot_of_surrogate (c := d) (by omega),
      is_dot_of_surrogate (by rw [hval]; omega)]
    rfl
  | case4 c d rest hpair ih =>
    rw [joinPairs, if_neg hpair, hasDots_cons, ih, startsInDot_joinPairs, @hasDots_cons _ c]

/-- Two dots in a row in a text of two parts: in one of them, or where they meet. -/
theorem hasDots_append (s t : Str) :
    hasDots (s ++ t) = (hasDots s || (endsInDot s && startsInDot t) || hasDots t) := by
  induction s with
  | nil => rfl
  | cons c rest ih =>
    cases rest with
    | nil =>
      show hasDots (c :: t) = _
      rw [hasDots_cons]
      show _ = (((c.is '.' && false) || false) || (c.is '.' && startsInDot t) || hasDots t)
      rw [Bool.and_false, Bool.or_false, Bool.false_or]
    | cons d rest =>
      have hlast : endsInDot (c :: d :: rest) = endsInDot (d :: rest) := by
        rw [endsInDot, endsInDot, List.getLast?_cons_cons]
      show hasDots (c :: (d :: rest ++ t)) = _
      rw [@hasDots_cons _ c, ih, @hasDots_cons (d :: rest) c, hlast, Bool.or_assoc, Bool.or_assoc,
        Bool.or_assoc]
      rfl

/-! ## The names of parts -/

/-- What stands after the name of the file in the name of a part. -/
private theorem tail_facts : ∀ index < 33, (str ".part-" ++ fourDigits index).all
      (fun c => decide (c.val < 0x7F) && !isSeparating c && decide (escapeCharAscii c = [c])) = true
    ∧ hasDots (str ".part-" ++ fourDigits index) = false
    ∧ (str ".part-" ++ fourDigits index).length = 10
    ∧ digitsValue (fourDigits index) = index := by
  decide +kernel

section
variable {name : Str} {index : Nat} (hindex : index < 33)
include hindex

private theorem tail_char : ∀ c ∈ str ".part-" ++ fourDigits index, c.val < 0x7F
    ∧ isSeparating c = false ∧ escapeCharAscii c = [c] := by
  intro c hc
  have h := List.all_eq_true.mp (tail_facts index hindex).1 c hc
  simp only [Bool.and_eq_true, decide_eq_true_eq, Bool.not_eq_true'] at h
  exact ⟨h.1.1, h.1.2, h.2⟩

private theorem tail_noPair : NoPair (str ".part-" ++ fourDigits index) := by
  refine noPair_of_not_surrogate fun c hc => ?_
  have := (tail_char hindex c hc).1
  rw [CodePoint.isSurrogate, Bool.and_eq_false_iff, decide_eq_false_iff_not]
  exact .inl (by omega)

/-- The name of a part as it is read. -/
theorem joinPairs_partName : joinPairs (partName name index) = partName (joinPairs name) index := by
  rw [partName, joinPairs_append, joinPairs_of_noPair (tail_noPair hindex), partName]
  rintro d ⟨⟩
  decide

/-- The name of a part has two dots in a row where the name of the file ends in one. -/
theorem hasDots_partName : hasDots (partName name index) = (hasDots name || endsInDot name) := by
  rw [partName, hasDots_append, (tail_facts index hindex).2.1, Bool.or_false]
  show (hasDots name || (endsInDot name && true)) = _
  rw [Bool.and_true]

theorem any_partName : (partName name index).any isSeparating = name.any isSeparating := by
  rw [partName, List.any_append]
  have htail : (str ".part-" ++ fourDigits index).any isSeparating = false := by
    rw [List.any_eq_false]
    intro c hc
    rw [(tail_char hindex c hc).2.1]
    nofun
  rw [htail, Bool.or_false]

/-- The name of a part has ten characters more, none of which is escaped. -/
theorem length_escaped_partName : ((partName name index).flatMap escapeCharAscii).length
    = (name.flatMap escapeCharAscii).length + 10 := by
  have htail : (str ".part-" ++ fourDigits index).flatMap escapeCharAscii
      = str ".part-" ++ fourDigits index :=
    flatMap_escape_self fun c hc => (tail_char hindex c hc).2.2
  rw [partName, List.flatMap_append, List.length_append, htail, (tail_facts index hindex).2.2.1]

/-- A part's name is one file's and one part's. -/
theorem partName_inj {name' : Str} {index' : Nat} (hindex' : index' < 33)
    (h : partName name index = partName name' index') : name = name' ∧ index = index' := by
  have hlength : (str ".part-" ++ fourDigits index).length
      = (str ".part-" ++ fourDigits index').length := by
    rw [(tail_facts index hindex).2.2.1, (tail_facts index' hindex').2.2.1]
  obtain ⟨hname, htail⟩ := List.append_inj' h hlength
  refine ⟨hname, ?_⟩
  have hdigits : fourDigits index = fourDigits index' := List.append_cancel_left htail
  rw [← (tail_facts index hindex).2.2.2, hdigits, (tail_facts index' hindex').2.2.2]

end

/-! ## The length of the text -/

/-- The number of characters of a name in JSON text. -/
def escapedLength (name : Str) : Nat := (name.flatMap escapeCharAscii).length

/-- The number of decimal digits in the text of a size. -/
def decimalLength (size : Nat) : Nat := (natText size).length

/-- The length of the manifest of a file, its last line feed included. -/
def manifestLength (name : Str) (size partSize : Nat) : Nat :=
  let header := 153 + escapedLength name + decimalLength size
  if size = 0 then header + 2
  else header + 4 + ((List.range (partCount size partSize)).map fun i =>
    140 + escapedLength name + decimalLength (min partSize (size - i * partSize))).sum

section
variable {hash : HexDigest} {name : Str} {data : Sized} {part : Str × Sized}
  {parts : List (Str × Sized)}

/-- A digest is hexadecimal, so none of it is escaped. -/
theorem sha_char (data : Bytes) : ∀ c ∈ hash.sha256 data,
    isLowerHex c = true ∧ c.isSurrogate = false ∧ escapeCharAscii c = [c] := by
  intro c hc
  have hval : 0x30 ≤ c.val ∧ c.val ≤ 0x39 ∨ 0x61 ≤ c.val ∧ c.val ≤ 0x66 := by
    rcases hash.digits_sha256 data c hc with h | h
    · simp only [CodePoint.isDigit, Bool.and_eq_true, decide_eq_true_eq] at h
      exact .inl h
    · exact .inr h
  have hall : ∀ n < 0x67, 0x30 ≤ n ∧ n ≤ 0x39 ∨ 0x61 ≤ n ∧ n ≤ 0x66 →
      isLowerHex (.ofNat n) = true ∧ (CodePoint.ofNat n).isSurrogate = false
        ∧ escapeCharAscii (.ofNat n) = [.ofNat n] := by
    decide +kernel
  have h := hall c.val (by omega) hval
  rwa [CodePoint.ofNat_val] at h

private theorem length_escaped_sha (data : Bytes) :
    ((hash.sha256 data).flatMap escapeCharAscii).length = 64 := by
  rw [flatMap_escape_self fun c hc => (sha_char data c hc).2.2, hash.length_sha256]

private theorem length_renderString_escaped (s : Str) :
    (renderString escapeCharAscii s).length = escapedLength s + 2 := by
  rw [renderString, List.length_append, List.length_append, escapedLength]
  show 1 + _ + 1 = _
  omega

/-- The text of a size is its digits. -/
private theorem text_size (data : Sized) : data.size.text = natText data.bytes.length := by
  rw [Integer.text, if_neg]
  · rfl
  · show ¬(data.bytes.length : Int) < 0
    omega

/-- A joined text has its parts and a separator between two of them. -/
private theorem length_join (separator first : Str) (rest : List Str) :
    (join separator (first :: rest)).length + separator.length
      = ((first :: rest).map fun t => t.length + separator.length).sum := by
  induction rest generalizing first with
  | nil => rw [join, List.intercalate_singleton, List.map_singleton, List.sum_singleton]
  | cons second rest ih =>
    have h := ih second
    rw [List.map_cons, List.sum_cons, ← h, join, List.intercalate_cons_cons, List.length_append,
      List.length_append, ← join]
    omega

/-- The text of one part. -/
private theorem length_partText (hash : HexDigest) (part : Str × Sized) :
    ((Layout.indent 2).render escapeCharAscii 2 (partRecord hash part)).length
      = 124 + escapedLength part.1 + decimalLength part.2.bytes.length := by
  have hnames : (renderString escapeCharAscii (str "name")).length = 6
      ∧ (renderString escapeCharAscii (str "size")).length = 6
      ∧ (renderString escapeCharAscii (str "sha256")).length = 8 := by
    decide +kernel
  have hmarks : ((Layout.indent 2).opening 2).length = 7 ∧ ((Layout.indent 2).closing 2).length = 5
      ∧ (str "," ++ (Layout.indent 2).comma 2).length = 8 ∧ (str ": ").length = 2
      ∧ (str "\x7b").length = 1 ∧ (str "\x7d").length = 1 := by
    decide
  rw [partRecord, Layout.render, Layout.enclose]
  simp only [Layout.renderMembers, Layout.render, join, List.intercalate_cons_cons,
    List.intercalate_singleton, List.length_append, hnames, length_renderString_escaped, text_size]
  simp only [List.length_append] at hmarks
  rw [escapedLength, escapedLength, length_escaped_sha, decimalLength]
  omega

private theorem renderItems_map {α : Type} (layout : Layout) (escape : CodePoint → Str)
    (level : Nat) (f : α → Value) (items : List α) :
    layout.renderItems escape level (items.map f)
      = items.map fun item => layout.render escape level (f item) := by
  induction items with
  | nil => rfl
  | cons item rest ih => rw [List.map_cons, Layout.renderItems, ih, List.map_cons]

/-- The text of the list of parts. -/
private theorem length_partsText (hash : HexDigest) (parts : List (Str × Sized)) :
    ((Layout.indent 2).render escapeCharAscii 1 (.list (parts.map (partRecord hash)))).length
      = if parts = [] then 2 else 4 + (parts.map fun part =>
        130 + escapedLength part.1 + decimalLength part.2.bytes.length).sum := by
  cases parts with
  | nil => rfl
  | cons part rest =>
    have hmarks : ((Layout.indent 2).opening 1).length = 5
        ∧ ((Layout.indent 2).closing 1).length = 3
        ∧ (str "," ++ (Layout.indent 2).comma 1).length = 6
        ∧ (str "[").length = 1 ∧ (str "]").length = 1 := by
      decide
    have hjoin := length_join (str "," ++ (Layout.indent 2).comma 1)
      ((Layout.indent 2).render escapeCharAscii 2 (partRecord hash part))
      (rest.map fun part => (Layout.indent 2).render escapeCharAscii 2 (partRecord hash part))
    have hsum : ((part :: rest).map fun part => 130 + escapedLength part.1
          + decimalLength part.2.bytes.length).sum
        = (((Layout.indent 2).render escapeCharAscii 2 (partRecord hash part)
          :: rest.map fun part => (Layout.indent 2).render escapeCharAscii 2
            (partRecord hash part)).map fun t =>
            t.length + (str "," ++ (Layout.indent 2).comma 1).length).sum := by
      rw [← List.map_cons (f := fun part => (Layout.indent 2).render escapeCharAscii 2
        (partRecord hash part)), List.map_map]
      congr 1
      refine List.map_congr_left fun part _ => ?_
      rw [Function.comp_apply, length_partText, hmarks.2.2.1]
      omega
    rw [if_neg nofun, hsum, ← hjoin, hmarks.2.2.1, List.map_cons, Layout.render, Layout.enclose,
      ← List.map_cons, renderItems_map, List.map_cons, show 1 + 1 = 2 from rfl]
    simp only [List.length_append] at hmarks ⊢
    omega

/-- The length of a manifest by its parts. -/
private theorem length_recordText (hash : HexDigest) (name : Str) (data : Sized)
    (parts : List (Str × Sized)) :
    ((Layout.indent 2).render escapeCharAscii 0 (manifestRecord hash name data parts)).length
      = 152 + escapedLength name + decimalLength data.bytes.length
        + if parts = [] then 2 else 4 + (parts.map fun part =>
          130 + escapedLength part.1 + decimalLength part.2.bytes.length).sum := by
  have hnames : (renderString escapeCharAscii (str "format")).length = 8
      ∧ (renderString escapeCharAscii (str "name")).length = 6
      ∧ (renderString escapeCharAscii (str "size")).length = 6
      ∧ (renderString escapeCharAscii (str "sha256")).length = 8
      ∧ (renderString escapeCharAscii (str "parts")).length = 7
      ∧ (renderString escapeCharAscii (str FORMAT)).length = 17 := by
    decide +kernel
  have hmarks : ((Layout.indent 2).opening 0).length = 3 ∧ ((Layout.indent 2).closing 0).length = 1
      ∧ (str "," ++ (Layout.indent 2).comma 0).length = 4 ∧ (str ": ").length = 2
      ∧ (str "\x7b").length = 1 ∧ (str "\x7d").length = 1 := by
    decide
  have hparts := length_partsText hash parts
  rw [manifestRecord, Layout.render, Layout.enclose]
  generalize Value.list (parts.map (partRecord hash)) = list at hparts ⊢
  simp only [Layout.renderMembers, Layout.render, join, List.intercalate_cons_cons,
    List.intercalate_singleton, List.length_append, hnames, hparts, text_size]
  have hsha : escapedLength (hash.sha256 data.bytes) = 64 := length_escaped_sha _
  rw [length_renderString_escaped, length_renderString_escaped, hsha, decimalLength]
  simp only [List.length_append] at hmarks
  omega

/-- **The length of a manifest.** The text that `split` writes for data of this size. -/
theorem length_manifestText (hash : HexDigest) (name : Str) {partSize : Nat}
    (hpositive : 0 < partSize)
    (hcount : partCount data.bytes.length partSize < 33) :
    ((Layout.indent 2).render escapeCharAscii 0
      (manifestRecord hash name data (slices name data partSize)) ++ str "\n").length
      = manifestLength name data.bytes.length partSize := by
  have hempty : slices name data partSize = [] ↔ data.bytes.length = 0 := by
    rw [slices, List.map_eq_nil_iff, List.range_eq_nil, partCount, Nat.div_eq_zero_iff]
    omega
  have hparts : ((slices name data partSize).map fun part =>
        130 + escapedLength part.1 + decimalLength part.2.bytes.length)
      = (List.range (partCount data.bytes.length partSize)).map fun i =>
        140 + escapedLength name + decimalLength (min partSize (data.bytes.length - i * partSize)) := by
    rw [slices, List.map_map]
    refine List.map_congr_left fun i hi => ?_
    have hi' := List.mem_range.mp hi
    show 130 + escapedLength (partName name (i + 1))
      + decimalLength ((data.bytes.drop (i * partSize)).take partSize).length = _
    rw [escapedLength, length_escaped_partName (by omega), List.length_take, List.length_drop,
      escapedLength]
    omega
  rw [List.length_append, length_recordText, hparts, manifestLength]
  have hline : (str "\n").length = 1 := rfl
  simp only [hempty]
  split_ifs with hsize <;> omega

/-! ## Reading the text -/

private theorem newlineIndent_char (width level : Nat) :
    ∀ c ∈ newlineIndent width level, isJsonSpace c = true ∧ c.val < 0x80 := by
  intro c hc
  rcases List.mem_append.mp hc with hc | hc
  · rw [show c = .ofChar '\n' from List.mem_singleton.mp hc]
    decide
  · rw [List.eq_of_mem_replicate hc]
    decide

private theorem indent_blank (width : Nat) : IsBlank (.indent width) where
  opening level c hc := (newlineIndent_char width (level + 1) c hc).1
  comma level c hc := (newlineIndent_char width (level + 1) c hc).1
  closing level c hc := (newlineIndent_char width level c hc).1

/-- The text of a manifest is ASCII. -/
theorem manifestText_ascii (value : Value) : ∀ c ∈ (Layout.indent 2).render escapeCharAscii 0 value
    ++ str "\n", c.val < 0x80 := by
  intro c hc
  rcases List.mem_append.mp hc with hc | hc
  · refine layoutRender_chars (Q := fun c => c.val < 0x80) ⟨fun level d hd =>
      (newlineIndent_char 2 (level + 1) d hd).2, fun level d hd =>
      (newlineIndent_char 2 (level + 1) d hd).2, fun level d hd =>
      (newlineIndent_char 2 level d hd).2⟩ (fun d hd => hd.2.trans (by decide)) 0 value ?_ c hc
    intro s _ d _ e he
    exact (escapeCharAscii_chars d e he).2.trans (by decide)
  · rw [show c = .ofChar '\n' from List.mem_singleton.mp hc]
    decide

theorem not_isSurrogate_of_ascii {c : CodePoint} (h : c.val < 0x80) : c.isSurrogate = false := by
  rw [CodePoint.isSurrogate, Bool.and_eq_false_iff, decide_eq_false_iff_not]
  exact .inl (by omega)

/-- A part as its record is read. -/
def joinedPart (part : Str × Sized) : Str × Sized := (joinPairs part.1, part.2)

/-- The record with the names as they are read has the same text. -/
private theorem text_joined (hash : HexDigest) (name : Str) (data : Sized)
    (parts : List (Str × Sized)) :
    (Layout.indent 2).render escapeCharAscii 0
        (manifestRecord hash (joinPairs name) data (parts.map joinedPart))
      = (Layout.indent 2).render escapeCharAscii 0 (manifestRecord hash name data parts) := by
  have hpart : ∀ part, (Layout.indent 2).render escapeCharAscii 2 (partRecord hash (joinedPart part))
      = (Layout.indent 2).render escapeCharAscii 2 (partRecord hash part) := by
    intro part
    simp only [partRecord, joinedPart, Layout.render, Layout.renderMembers, renderString_joinPairs]
  have hlist : (Layout.indent 2).render escapeCharAscii 1
        (.list ((parts.map joinedPart).map (partRecord hash)))
      = (Layout.indent 2).render escapeCharAscii 1 (.list (parts.map (partRecord hash))) := by
    cases parts with
    | nil => rfl
    | cons part rest =>
      rw [List.map_cons, List.map_cons, List.map_cons, Layout.render, Layout.render,
        ← List.map_cons (f := partRecord hash), ← List.map_cons (f := joinedPart),
        ← List.map_cons (f := partRecord hash), List.map_map, renderItems_map, renderItems_map]
      simp only [Function.comp_apply, hpart, show 1 + 1 = 2 from rfl]
  have hname : (Layout.indent 2).render escapeCharAscii 1 (.str (joinPairs name))
      = (Layout.indent 2).render escapeCharAscii 1 (.str name) := renderString_joinPairs name
  rw [manifestRecord, manifestRecord, Layout.render, Layout.render, Nat.zero_add]
  simp only [Layout.renderMembers, hname, hlist]

/-- A manifest is a value that its text reads as, where its names have no pairs. -/
private theorem manifestRecord_good {py : Interpreter} (hname : NoPair name)
    (hparts : ∀ part ∈ parts, NoPair part.1) :
    Good NoPair (ReadsBack py) (manifestRecord hash name data parts)
      ∧ (manifestRecord hash name data parts).depth ≤ 3 := by
  have hsha : ∀ data, NoPair (hash.sha256 data) := fun data =>
    noPair_of_not_surrogate fun c hc => (sha_char data c hc).2.1
  have hpart : ∀ part ∈ parts, Good NoPair (ReadsBack py) (partRecord hash part)
      ∧ (partRecord hash part).depth = 1 := by
    refine fun part hpart => ⟨⟨⟨⟨noPair_str _, hparts part hpart⟩, ⟨noPair_str _, trivial⟩,
      ⟨noPair_str _, hsha _⟩, trivial⟩, ?_⟩, rfl⟩
    show [str "name", str "size", str "sha256"].Nodup
    decide
  have hlist : GoodItems NoPair (ReadsBack py) (parts.map (partRecord hash))
      ∧ Value.depthItems (parts.map (partRecord hash)) ≤ 1 := by
    clear hparts
    induction parts with
    | nil => exact ⟨trivial, Nat.zero_le 1⟩
    | cons part rest ih =>
      obtain ⟨hgood, hdepth⟩ := hpart part List.mem_cons_self
      obtain ⟨hrest, hrest'⟩ := ih fun p hp => hpart p (List.mem_cons_of_mem part hp)
      exact ⟨⟨hgood, hrest⟩, max_le hdepth.le hrest'⟩
  refine ⟨⟨⟨⟨noPair_str _, noPair_str _⟩, ⟨noPair_str _, hname⟩, ⟨noPair_str _, trivial⟩,
    ⟨noPair_str _, hsha _⟩, ⟨noPair_str _, hlist.1⟩, trivial⟩, ?_⟩, ?_⟩
  · show [str "format", str "name", str "size", str "sha256", str "parts"].Nodup
    decide
  · have hdepth := hlist.2
    simp only [manifestRecord, Value.depth, Value.depthMembers]
    omega

/-- **Reading a manifest.** The text of a manifest reads as the manifest with its names joined. -/
theorem loads_manifest {py : Interpreter} (hdepth : 3 ≤ py.readerDepth) (hash : HexDigest)
    (name : Str) (data : Sized) (parts : List (Str × Sized)) :
    loads py ((Layout.indent 2).render escapeCharAscii 0 (manifestRecord hash name data parts)
      ++ str "\n") = .ok (manifestRecord hash (joinPairs name) data (parts.map joinedPart)) := by
  obtain ⟨hgood, hlevels⟩ := @manifestRecord_good hash (joinPairs name) data (parts.map joinedPart)
    py (noPair_joinPairs name) fun part hpart => by
      obtain ⟨part, _, rfl⟩ := List.mem_map.mp hpart
      exact noPair_joinPairs part.1
  rw [← text_joined]
  refine loads_layout (indent_blank 2) escapes_ascii hgood (hlevels.trans hdepth) fun c hc => ?_
  rw [show c = .ofChar '\n' from List.mem_singleton.mp hc]
  decide

end

end

end TrustPortal.Proofs.GitSources
