import TrustPortal.Proofs.GitSources.ManifestText
import TrustPortal.Proofs.Transcript.OnePass

/-!
# `TrustPortal.Proofs.GitSources.ChunkedFiles`: what was split is put together again

`reassemble` is proved for every manifest and every part reader: it asks for the parts in order,
each with one byte more than declared, and it returns exactly where every part and the whole file
have the declared size and digest (`reassemble_sound`).

A file that `split` accepted is not always read back. `parse_manifest` checks the name of a part as
it checks the name of the file, and refuses two dots in a row: the parts of a file whose name ends
in a dot have them. `parse_manifest` also has a limit on the manifest that `split` does not have,
and the JSON reader joins a pair of surrogates in a name, after which the parts are looked for
under another name. Apart from these three, what was split is put together again
(`roundTrips_iff`).
-/

set_option autoImplicit false

namespace TrustPortal.Proofs.GitSources

open TrustPortal.Lib
open TrustPortal.Python
open TrustPortal.GitSources
open TrustPortal.Proofs.Transcript

/-- What is passed to `read_part` for a part. -/
def asked (part : ChunkPart) : Str × Nat := (part.name, part.size + 1)

/-- What was passed to `read_part`. -/
def callOf (read : PartRead) : Str × Nat := (read.name, read.maxBytes)

/-- Bytes of the size and the digest that a manifest has for a part. -/
def IsPart (hash : HexDigest) (part : ChunkPart) (data : Bytes) : Prop :=
  data.length = part.size ∧ hash.sha256 data = part.sha256

/-- Every part was read and is right, and so is the whole file. -/
def Verified (hash : HexDigest) (manifest : ChunkManifest) (reads : List PartRead)
    (whole : Bytes) : Prop :=
  ∃ chunks, reads.map PartRead.result = chunks.map .bytes
    ∧ List.Forall₂ (IsPart hash) manifest.parts chunks
    ∧ whole = chunks.flatten ∧ whole.length = manifest.size ∧ hash.sha256 whole = manifest.sha256

/-- A reader that returns at most the bytes it is asked for. -/
def Bounded (reader : PartReader) : Prop :=
  ∀ reads name maxBytes data, reader reads name maxBytes = .bytes data → data.length ≤ maxBytes

section
variable {hash : HexDigest} {manifest : ChunkManifest} {reader : PartReader}
  {reads : List PartRead} {parts : List ChunkPart} {chunks : List Bytes} {part : ChunkPart}

/-! ## Reading the parts -/

/-- A part passes where its bytes are the ones that the manifest describes. -/
private theorem checkPart_eq_ok {result : ReadResult} {data : Bytes} :
    checkPart hash part result = .ok data ↔ result = .bytes data ∧ IsPart hash part data := by
  cases result with
  | bytes bytes =>
    rw [checkPart, ReadResult.bytes.injEq, IsPart]
    split_ifs with hlong hshort hdigest
    · refine iff_of_false nofun ?_
      rintro ⟨rfl, hlength, _⟩
      omega
    · refine iff_of_false nofun ?_
      rintro ⟨rfl, hlength, _⟩
      exact hshort hlength
    · refine iff_of_false nofun ?_
      rintro ⟨rfl, _, hsha⟩
      exact hdigest hsha
    · rw [Except.ok.injEq]
      refine ⟨?_, And.left⟩
      rintro rfl
      exact ⟨rfl, not_not.mp hshort, not_not.mp hdigest⟩
  | notBytes => exact iff_of_false nofun fun h => nomatch h.1
  | missing exc => exact iff_of_false nofun fun h => nomatch h.1
  | raised => exact iff_of_false nofun fun h => nomatch h.1

/-- The loop over the parts: what it asks, what its reads are, and when it ends well. -/
private theorem readParts_spec (parts : List ChunkPart) : ∀ (reads : List PartRead)
    (chunks : List Bytes), ∃ made result,
    readParts hash reader reads chunks parts = (reads ++ made, result)
      ∧ made.map callOf <+: parts.map asked
      ∧ (∀ read ∈ made, ∃ before, read.result = reader before read.name read.maxBytes)
      ∧ ∀ out, result = .ok out ↔ ∃ datas, out = chunks ++ datas
        ∧ made.map PartRead.result = datas.map .bytes ∧ List.Forall₂ (IsPart hash) parts datas := by
  induction parts with
  | nil =>
    refine fun reads chunks => ⟨[], _, by rw [readParts, List.append_nil], List.nil_prefix, nofun,
      fun out => ?_⟩
    rw [Except.ok.injEq]
    constructor
    · rintro rfl
      exact ⟨[], (List.append_nil _).symm, rfl, .nil⟩
    · rintro ⟨datas, rfl, _, hparts⟩
      cases hparts
      exact (List.append_nil _).symm
  | cons part rest ih =>
    intro reads chunks
    rw [readParts]
    generalize hresult : reader reads part.name (part.size + 1) = result
    cases hcheck : checkPart hash part result with
    | error failure =>
      -- The loop stops at this part.
      refine ⟨[⟨part.name, part.size + 1, result⟩], _, rfl, ?_, ?_, fun out =>
        iff_of_false nofun ?_⟩
      · exact List.prefix_append [asked part] (rest.map asked)
      · rintro read hread
        rw [List.mem_singleton.mp hread]
        exact ⟨reads, hresult.symm⟩
      · rintro ⟨datas, _, hmade, hparts⟩
        cases hparts with
        | cons hpart _ =>
          rw [checkPart_eq_ok.mpr ⟨(List.cons.inj hmade).1, hpart⟩] at hcheck
          cases hcheck
    | ok data =>
      obtain ⟨hbytes, hpart⟩ := checkPart_eq_ok.mp hcheck
      obtain ⟨made, out, hrun, hinOrder, hreads, hout⟩ :=
        ih (reads ++ [⟨part.name, part.size + 1, result⟩]) (chunks ++ [data])
      refine ⟨⟨part.name, part.size + 1, result⟩ :: made, out, ?_, ?_, ?_, fun whole => ?_⟩
      · show readParts hash reader (reads ++ [⟨part.name, part.size + 1, result⟩]) (chunks ++ [data])
          rest = _
        rw [hrun, List.append_assoc, List.singleton_append]
      · exact List.cons_prefix_cons.mpr ⟨rfl, hinOrder⟩
      · rintro read (_ | ⟨_, hread⟩)
        · exact ⟨reads, hresult.symm⟩
        · exact hreads read hread
      · rw [hout]
        constructor
        · rintro ⟨datas, rfl, hmade, hparts⟩
          refine ⟨data :: datas, ?_, ?_, .cons hpart hparts⟩
          · rw [List.append_assoc, List.singleton_append]
          · rw [List.map_cons, List.map_cons, hmade, hbytes]
        · rintro ⟨datas, rfl, hmade, hparts⟩
          cases hparts with
          | cons hpart' hparts =>
            rename_i data' datas
            obtain ⟨hhead, htail⟩ := List.cons.inj hmade
            have hdata : data = data' := ReadResult.bytes.inj (hbytes.symm.trans hhead)
            subst hdata
            exact ⟨datas, by rw [List.append_assoc, List.singleton_append], htail, hparts⟩

private theorem checkWhole_eq_ok {whole : Bytes} : checkWhole hash manifest chunks = .ok whole
    ↔ whole = chunks.flatten ∧ whole.length = manifest.size
      ∧ hash.sha256 whole = manifest.sha256 := by
  rw [checkWhole]
  split_ifs with h
  · refine iff_of_false nofun ?_
    rintro ⟨rfl, hsize, hsha⟩
    exact h.elim (fun hne => hne hsize) fun hne => hne hsha
  · rw [not_or, not_not, not_not] at h
    rw [Except.ok.injEq]
    constructor
    · rintro rfl
      exact ⟨rfl, h⟩
    · rintro ⟨rfl, _⟩
      rfl

/-- What `reassemble` reads and returns. -/
theorem reassemble_spec (manifest : ChunkManifest) (reader : PartReader) :
    (reassemble hash manifest reader).1.map callOf <+: manifest.parts.map asked
      ∧ (Bounded reader → ∀ read ∈ (reassemble hash manifest reader).1, ∀ data,
        read.result = .bytes data → data.length ≤ read.maxBytes)
      ∧ ∀ whole, (reassemble hash manifest reader).2 = .ok whole
        ↔ Verified hash manifest (reassemble hash manifest reader).1 whole := by
  obtain ⟨made, result, hrun, hinOrder, hreads, hout⟩ :=
    @readParts_spec hash reader manifest.parts [] []
  have hreassemble : reassemble hash manifest reader
      = (made, result.bind (checkWhole hash manifest)) := by
    rw [reassemble, hrun, List.nil_append]
  rw [hreassemble]
  refine ⟨hinOrder, fun hbounded read hread data hdata => ?_, fun whole => ?_⟩
  · obtain ⟨before, hread⟩ := hreads read hread
    exact hbounded before read.name read.maxBytes data (hread ▸ hdata)
  · have hbind : result.bind (checkWhole hash manifest) = .ok whole
        ↔ ∃ chunks, result = .ok chunks ∧ checkWhole hash manifest chunks = .ok whole := bind_eq_ok
    dsimp only
    rw [hbind]
    constructor
    · rintro ⟨chunks, hresult, hwhole⟩
      obtain ⟨datas, rfl, hmade, hparts⟩ := (hout chunks).mp hresult
      exact ⟨chunks, hmade, hparts, checkWhole_eq_ok.mp hwhole⟩
    · rintro ⟨chunks, hmade, hparts, hwhole⟩
      exact ⟨chunks, (hout chunks).mpr ⟨chunks, rfl, hmade, hparts⟩, checkWhole_eq_ok.mpr hwhole⟩

/-- A reader that has every part gives the chunks. -/
private theorem readParts_ok {datas : List Bytes}
    (h : List.Forall₂ (fun part data => (∀ reads, reader reads part.name (part.size + 1)
      = .bytes data) ∧ IsPart hash part data) parts datas) (reads : List PartRead)
    (chunks : List Bytes) :
    (readParts hash reader reads chunks parts).2 = .ok (chunks ++ datas) := by
  induction h generalizing reads chunks with
  | nil => rw [readParts, List.append_nil]
  | cons hpart _ ih =>
    have hcheck := checkPart_eq_ok.mpr ⟨hpart.1 reads, hpart.2⟩
    rw [readParts]
    simp only [hcheck]
    rw [ih, List.append_assoc, List.singleton_append]

end

/-! ## Slices -/

section
variable {py : Interpreter} {hash : HexDigest} {name : Str} {data : Sized} {partSize : Nat}
  {parts : List (Str × Sized)} {index : Nat}

/-- Parts that are named one after the other, none of them empty. -/
def Numbered (name : Str) : Nat → List (Str × Sized) → Prop
  | _, [] => True
  | index, part :: rest => part.1 = partName name index ∧ index < 33
      ∧ 0 < part.2.bytes.length ∧ Numbered name (index + 1) rest

private theorem numbered_map {f : Nat → Str × Sized} (count : Nat) : ∀ start,
    (∀ i, start ≤ i → i < start + count → (f i).1 = partName name (i + 1) ∧ i + 1 < 33
      ∧ 0 < (f i).2.bytes.length) →
    Numbered name (start + 1) ((List.range' start count).map f) := by
  induction count with
  | zero => exact fun _ _ => trivial
  | succ count ih =>
    intro start h
    obtain ⟨hname, hindex, hbytes⟩ := h start (Nat.le_refl _) (by omega)
    refine ⟨hname, hindex, hbytes, ih (start + 1) fun i hi hi' => h i (by omega) (by omega)⟩

/-- The slices of a file are numbered from one. -/
private theorem slices_numbered (name : Str) (hpositive : 0 < partSize)
    (hcount : partCount data.bytes.length partSize < 33) :
    Numbered name 1 (slices name data partSize) := by
  rw [slices, List.range_eq_range']
  refine numbered_map _ 0 fun i _ hi => ⟨rfl, by omega, ?_⟩
  have hoffset : i * partSize < data.bytes.length := by
    have hle : (i + 1) * partSize ≤ data.bytes.length + partSize - 1 :=
      (Nat.le_div_iff_mul_le hpositive).mp (by rw [← partCount]; omega)
    rw [Nat.succ_mul] at hle
    omega
  show 0 < ((data.bytes.drop (i * partSize)).take partSize).length
  rw [List.length_take, List.length_drop]
  omega

/-- The slices are the data. -/
private theorem slices_flatten (name : Str) (data : Sized) (hpositive : 0 < partSize) :
    ((slices name data partSize).map fun part => part.2.bytes).flatten = data.bytes := by
  have htake : ∀ count, ((List.range count).map fun i =>
      (data.bytes.drop (i * partSize)).take partSize).flatten
        = data.bytes.take (count * partSize) := by
    intro count
    induction count with
    | zero => rw [Nat.zero_mul, List.take_zero]; rfl
    | succ count ih =>
      rw [List.range_succ, List.map_append, List.flatten_append, ih, Nat.succ_mul, List.take_add]
      simp
  have hall : data.bytes.length ≤ partCount data.bytes.length partSize * partSize := by
    have := Nat.lt_div_mul_add (a := data.bytes.length + partSize - 1) hpositive
    rw [partCount]
    omega
  have hmap : (slices name data partSize).map (fun part => part.2.bytes)
      = (List.range (partCount data.bytes.length partSize)).map fun i =>
        (data.bytes.drop (i * partSize)).take partSize := by
    rw [slices, List.map_map]
    rfl
  rw [hmap, htake, List.take_of_length_le hall]

/-! ## The manifest as it is parsed -/

/-- A part of the manifest of these slices. -/
def parsedPart (hash : HexDigest) (part : Str × Sized) : ChunkPart :=
  ⟨part.1, part.2.bytes.length, hash.sha256 part.2.bytes⟩

private theorem checkSha_sha256 (data : Bytes) (what : Checked) :
    checkSha (.str (hash.sha256 data)) what = .ok (hash.sha256 data) := by
  have hlength := hash.length_sha256 data
  have htake : (hash.sha256 data).take 64 = hash.sha256 data :=
    List.take_of_length_le hlength.le
  have hdrop : (hash.sha256 data).drop 64 = [] := List.drop_eq_nil_of_le hlength.le
  have hhex : (hash.sha256 data).all isLowerHex = true :=
    List.all_eq_true.mpr fun c hc => (sha_char data c hc).1
  have hmatch : matchesSha (hash.sha256 data) = true := by
    rw [matchesSha, htake, hdrop, hlength, hhex]
    rfl
  rw [checkSha, if_pos hmatch]

private theorem checkSize_size (data : Sized) (what : Checked) :
    checkSize (.int data.size) what = .ok data.bytes.length := by
  have hsize : ¬data.size.value < 0 := Int.not_lt.mpr (Int.natCast_nonneg _)
  rw [checkSize, if_neg hsize]
  rfl

private theorem checkBasename_eq {what : Checked} (hname : name ≠ []) :
    checkBasename (.str name) what = if name.any isSeparating || hasDots name then
      .error (.notPlain what name) else .ok name := by
  rw [checkBasename, if_neg (by simpa using hname)]

private theorem partName_ne_nil (name : Str) (index : Nat) : partName name index ≠ [] := by
  rw [partName]
  exact List.append_ne_nil_of_right_ne_nil name (List.cons_ne_nil _ _)

/-- A part is refused where the name of the file ends in a dot, and else it is parsed. -/
private theorem parsePart_eq {part : Str × Sized} (hsep : name.any isSeparating = false)
    (hdots : hasDots name = false) (hname : part.1 = partName name index) (hindex : index < 33)
    (hbytes : 0 < part.2.bytes.length) :
    parsePart name index (partRecord hash part) = if endsInDot name = true then
      .error (.notPlain (.partName index) (partName name index))
      else .ok (parsedPart hash part) := by
  have hmembers : get [(str "name", Value.str part.1), (str "size", .int part.2.size),
      (str "sha256", .str (hash.sha256 part.2.bytes))] "name" = .str part.1
      ∧ get [(str "name", Value.str part.1), (str "size", .int part.2.size),
      (str "sha256", .str (hash.sha256 part.2.bytes))] "size" = .int part.2.size
      ∧ get [(str "name", Value.str part.1), (str "size", .int part.2.size),
      (str "sha256", .str (hash.sha256 part.2.bytes))] "sha256"
        = .str (hash.sha256 part.2.bytes) := ⟨rfl, rfl, rfl⟩
  obtain ⟨pname, bytes⟩ := part
  dsimp only at hname hbytes hmembers
  subst hname
  rw [partRecord, parsePart]
  simp only [hmembers]
  rw [checkBasename_eq (partName_ne_nil name index), any_partName hindex, hsep,
    hasDots_partName hindex, hdots, Bool.false_or, Bool.false_or]
  split_ifs with hend
  · rfl
  · rw [checkSize_size, checkSha_sha256]
    show (if partName name index ≠ partName name index then _ else _) = _
    rw [if_neg (not_not.mpr rfl)]
    show (if bytes.bytes.length = 0 then _ else _) = _
    rw [if_neg (by omega)]
    rfl

/-- The parts are parsed where the name does not end in a dot. -/
private theorem parseParts_numbered (hsep : name.any isSeparating = false)
    (hdots : hasDots name = false) (hend : endsInDot name = false) :
    ∀ (parts : List (Str × Sized)) (index : Nat), Numbered name index parts →
      parseParts name index (parts.map (partRecord hash)) = .ok (parts.map (parsedPart hash)) := by
  intro parts
  induction parts with
  | nil => exact fun _ _ => rfl
  | cons part rest ih =>
    rintro index ⟨hname, hindex, hbytes, hrest⟩
    rw [List.map_cons, parseParts, parsePart_eq hsep hdots hname hindex hbytes, hend,
      if_neg nofun, ih (index + 1) hrest]
    rfl

/-- The slices as they are read are those of the name as it is read. -/
private theorem slices_joined (hcount : partCount data.bytes.length partSize < 33) :
    (slices name data partSize).map joinedPart = slices (joinPairs name) data partSize := by
  rw [slices, slices, List.map_map]
  refine List.map_congr_left fun i hi => ?_
  have hi' := List.mem_range.mp hi
  show (joinPairs (partName name (i + 1)), _) = (partName (joinPairs name) (i + 1), _)
  rw [joinPairs_partName (by omega)]

/-- The members of a manifest. -/
private def members (hash : HexDigest) (name : Str) (data : Sized) (parts : List (Str × Sized)) :
    Members :=
  [(str "format", .str (str FORMAT)), (str "name", .str name), (str "size", .int data.size),
    (str "sha256", .str (hash.sha256 data.bytes)),
    (str "parts", .list (parts.map (partRecord hash)))]

/-- The checks of a manifest come down to the ones of its parts. -/
private theorem parseDocument_members (hname : name ≠ []) (hsep : name.any isSeparating = false)
    (hdots : hasDots name = false) (hcount : parts.length ≤ MAX_PARTS)
    (hempty : parts = [] → data.bytes.length = 0) :
    parseDocument (members hash name data parts)
      = (parseParts name 1 (parts.map (partRecord hash))).bind fun parsed =>
        if (parsed.map ChunkPart.size).sum ≠ data.bytes.length then .error .sizesDiffer
        else .ok ⟨name, data.bytes.length, hash.sha256 data.bytes, parsed⟩ := by
  have hformat : (get (members hash name data parts) "format").isText FORMAT = true := by
    show decide (str FORMAT = str FORMAT) = true
    exact decide_eq_true rfl
  have hget : get (members hash name data parts) "name" = .str name
      ∧ get (members hash name data parts) "size" = .int data.size
      ∧ get (members hash name data parts) "sha256" = .str (hash.sha256 data.bytes)
      ∧ get (members hash name data parts) "parts" = .list (parts.map (partRecord hash)) :=
    ⟨rfl, rfl, rfl, rfl⟩
  have hlist : checkParts (.list (parts.map (partRecord hash))) data.bytes.length
      = .ok (parts.map (partRecord hash)) := by
    have hnone : ¬((parts.map (partRecord hash)).isEmpty && data.bytes.length != 0) = true := by
      rw [Bool.and_eq_true, List.isEmpty_iff, List.map_eq_nil_iff, bne_iff_ne]
      exact fun h => h.2 (hempty h.1)
    rw [checkParts, List.length_map, if_neg (by omega), if_neg hnone]
  rw [parseDocument, if_neg (not_not.mpr hformat)]
  simp only [hget, checkSize_size, checkSha_sha256, checkBasename_eq hname, hsep, hdots,
    Bool.or_self, Bool.false_eq_true, if_false]
  show (if data.bytes.length > MAX_TOTAL_BYTES then _ else _) = _
  rw [if_neg (Nat.not_lt.mpr data.fits)]
  show (checkParts (.list (parts.map (partRecord hash))) data.bytes.length >>= _) = _
  rw [hlist]
  rfl

/-- The manifest of a name that does not end in a dot, or of no data, is parsed. -/
private theorem parseDocument_ok (hname : name ≠ []) (hsep : name.any isSeparating = false)
    (hdots : hasDots name = false) (hcount : parts.length ≤ MAX_PARTS)
    (hnumbered : Numbered name 1 parts)
    (hdata : (parts.map fun part => part.2.bytes).flatten = data.bytes)
    (hend : parts = [] ∨ endsInDot name = false) :
    parseDocument (members hash name data parts)
      = .ok ⟨name, data.bytes.length, hash.sha256 data.bytes, parts.map (parsedPart hash)⟩ := by
  have hparse : parseParts name 1 (parts.map (partRecord hash))
      = .ok (parts.map (parsedPart hash)) := by
    rcases hend with rfl | hend
    · rfl
    · exact parseParts_numbered hsep hdots hend parts 1 hnumbered
  have hsum : ((parts.map (parsedPart hash)).map ChunkPart.size).sum = data.bytes.length := by
    rw [← hdata, List.length_flatten, List.map_map, List.map_map]
    rfl
  rw [parseDocument_members hname hsep hdots hcount, hparse]
  · show (if _ then _ else _) = _
    rw [if_neg (not_not.mpr hsum)]
  · rintro rfl
    rw [← hdata]
    rfl

/-- The manifest of a name that ends in a dot is refused, where it has parts. -/
private theorem parseDocument_dot (hname : name ≠ []) (hsep : name.any isSeparating = false)
    (hdots : hasDots name = false) (hcount : parts.length ≤ MAX_PARTS)
    (hnumbered : Numbered name 1 parts) (hne : parts ≠ []) (hend : endsInDot name = true) :
    parseDocument (members hash name data parts)
      = .error (.notPlain (.partName 1) (partName name 1)) := by
  rw [parseDocument_members hname hsep hdots hcount fun h => absurd h hne]
  cases parts with
  | nil => exact absurd rfl hne
  | cons part rest =>
    obtain ⟨hpart, hindex, hbytes, _⟩ := hnumbered
    rw [List.map_cons, parseParts, parsePart_eq hsep hdots hpart hindex hbytes, if_pos hend]
    rfl

/-! ## What `split` returns -/

/-- What `split` checked, and what it returns. -/
private theorem split_eq_ok {bytes manifest : Bytes} {size : Int} {written : List (Str × Bytes)}
    (h : split py hash name bytes size = .ok (manifest, written)) :
    ∃ (data : Sized) (partSize : Nat), data.bytes = bytes ∧ size = partSize ∧ 0 < partSize
      ∧ partCount data.bytes.length partSize < 33
      ∧ name ≠ [] ∧ name.any isSeparating = false ∧ hasDots name = false
      ∧ manifest = encodePass ((Layout.indent 2).render escapeCharAscii 0
        (manifestRecord hash name data (slices name data partSize)) ++ str "\n")
      ∧ written = (slices name data partSize).map fun part => (part.1, part.2.bytes) := by
  rw [split] at h
  cases hcheck : checkBasename (.str name) .fileName with
  | error failure => rw [hcheck] at h; cases h
  | ok checked =>
    rw [hcheck] at h
    dsimp only at h
    split_ifs at h with hsize hlength hcount
    -- The name is plain, the part size positive, and the parts are few enough.
    have hname : name ≠ [] := by
      rintro rfl
      cases hcheck
    rw [checkBasename_eq hname] at hcheck
    split_ifs at hcheck with hplain
    rw [Bool.or_eq_true, not_or, Bool.not_eq_true, Bool.not_eq_true] at hplain
    obtain ⟨partSize, rfl⟩ := Int.eq_ofNat_of_zero_le (Int.le_of_lt (Int.not_le.mp hsize))
    have hpositive : 0 < partSize := by omega
    have hparts : partCount bytes.length partSize < 33 := by
      have hle : -32 ≤ (-(bytes.length : Int)) / partSize := by
        rw [Int.fdiv_eq_ediv_of_nonneg _ (by omega), show ((MAX_PARTS : Nat) : Int) = 32 from rfl]
          at hcount
        omega
      rw [Int.le_ediv_iff_mul_le (by omega)] at hle
      rw [partCount, Nat.div_lt_iff_lt_mul hpositive]
      omega
    refine ⟨⟨bytes, hlength⟩, partSize, rfl, rfl, hpositive, hparts, hname, hplain.1, hplain.2, ?_⟩
    rw [Int.toNat_natCast, splitSized, Value.dumpsIndent] at h
    split_ifs at h with hdepth
    · have hencode := encode_of_not_surrogate fun c hc => not_isSurrogate_of_ascii
        (manifestText_ascii (manifestRecord hash name ⟨bytes, hlength⟩
          (slices name ⟨bytes, hlength⟩ partSize)) c hc)
      dsimp only at h
      rw [hencode] at h
      cases h
      exact ⟨rfl, rfl⟩

/-- What is parsed of the manifest that `split` wrote. -/
private theorem parseManifest_written (hdepth : 3 ≤ py.readerDepth) (hpositive : 0 < partSize)
    (hcount : partCount data.bytes.length partSize < 33) :
    parseManifest py (.bytes (encodePass ((Layout.indent 2).render escapeCharAscii 0
        (manifestRecord hash name data (slices name data partSize)) ++ str "\n")))
      = if manifestLength name data.bytes.length partSize > MAX_MANIFEST_BYTES then
        .error .manifestTooLarge
      else parseDocument (members hash (joinPairs name) data
        (slices (joinPairs name) data partSize)) := by
  have hlength := length_manifestText hash name hpositive hcount
  have hread := loads_manifest hdepth hash name data (slices name data partSize)
  have hascii := manifestText_ascii (manifestRecord hash name data (slices name data partSize))
  rw [slices_joined hcount] at hread
  generalize (Layout.indent 2).render escapeCharAscii 0
    (manifestRecord hash name data (slices name data partSize)) ++ str "\n" = text
    at hlength hread hascii ⊢
  have hdecode : decodeStrict (encodePass text) = some text := by
    have hself := decode_encodePass fun c hc => not_isSurrogate_of_ascii (hascii c hc)
    rw [decodeStrict, hself, if_pos rfl]
  have hloads : (ManifestData.bytes (encodePass text)).loads py
      = .ok (.dict (members hash (joinPairs name) data (slices (joinPairs name) data partSize))) := by
    rw [ManifestData.loads]
    simp only [hdecode, hread]
    rfl
  rw [parseManifest]
  show (if (encodePass text).length > MAX_MANIFEST_BYTES then _ else _) = _
  rw [length_encodePass_ascii hascii, hlength]
  split_ifs with hlong
  · rfl
  · rw [hloads]
    rfl

/-! ## Reading the slices back -/

/-- A key that stands once in a list is found. -/
private theorem lookup_of_nodup {α β : Type} [BEq α] [LawfulBEq α] {entries : List (α × β)}
    {key : α} {value : β} (hnodup : (entries.map Prod.fst).Nodup) (h : (key, value) ∈ entries) :
    entries.lookup key = some value := by
  induction entries with
  | nil => cases h
  | cons entry rest ih =>
    obtain ⟨key', value'⟩ := entry
    rw [List.map_cons, List.nodup_cons] at hnodup
    rcases List.mem_cons.mp h with heq | hrest
    · cases heq
      rw [List.lookup_cons, beq_self_eq_true]
    · have hne : key ≠ key' := by
        intro heq
        have hkey : key ∈ rest.map Prod.fst := List.mem_map_of_mem (f := Prod.fst) hrest
        exact hnodup.1 (heq ▸ hkey)
      rw [List.lookup_cons, beq_eq_false_iff_ne.mpr hne]
      exact ih hnodup.2 hrest

/-- What the parts of a file are written as. -/
private def written (name : Str) (data : Sized) (partSize : Nat) : List (Str × Bytes) :=
  (slices name data partSize).map fun part => (part.1, part.2.bytes)

private theorem names_nodup (hcount : partCount data.bytes.length partSize < 33) :
    ((written name data partSize).map Prod.fst).Nodup := by
  have hnames : (written name data partSize).map Prod.fst
      = (List.range (partCount data.bytes.length partSize)).map fun i => partName name (i + 1) := by
    rw [written, slices, List.map_map, List.map_map]
    rfl
  rw [hnames]
  refine List.Nodup.map_on (fun i hi j hj h => ?_) List.nodup_range
  have hi' := List.mem_range.mp hi
  have hj' := List.mem_range.mp hj
  have hindex := (partName_inj (show i + 1 < 33 by omega) (show j + 1 < 33 by omega) h).2
  omega

/-- The slices are put together again, by the names they were written under. -/
private theorem reassemble_slices (hash : HexDigest) (name : Str) (hpositive : 0 < partSize)
    (hcount : partCount data.bytes.length partSize < 33) :
    (reassemble hash ⟨name, data.bytes.length, hash.sha256 data.bytes,
        (slices name data partSize).map (parsedPart hash)⟩
      (partReader (written name data partSize))).2 = .ok data.bytes := by
  have hparts : List.Forall₂ (fun part bytes => (∀ reads, partReader (written name data partSize)
        reads part.name (part.size + 1) = .bytes bytes) ∧ IsPart hash part bytes)
      ((slices name data partSize).map (parsedPart hash))
      ((slices name data partSize).map fun part => part.2.bytes) := by
    rw [List.forall₂_map_left_iff, List.forall₂_map_right_iff, List.forall₂_same]
    refine fun part hpart => ⟨fun reads => ?_, rfl, rfl⟩
    have hfound : (written name data partSize).lookup part.1 = some part.2.bytes :=
      lookup_of_nodup (names_nodup hcount) (List.mem_map_of_mem hpart)
    have htake : part.2.bytes.take (part.2.bytes.length + 1) = part.2.bytes :=
      List.take_of_length_le (Nat.le_succ _)
    simp [partReader, parsedPart, hfound, htake]
  have hread := readParts_ok hparts [] []
  rw [reassemble]
  show Except.bind (readParts hash _ [] [] _).2 _ = _
  rw [hread, List.nil_append]
  show checkWhole _ _ _ = _
  rw [checkWhole_eq_ok, slices_flatten name data hpositive]
  exact ⟨rfl, rfl, rfl⟩

private theorem slices_ne_nil (hpositive : 0 < partSize) (hdata : data.bytes ≠ []) :
    slices name data partSize ≠ [] := by
  intro hnil
  have hflatten := slices_flatten name data hpositive
  rw [hnil] at hflatten
  exact hdata hflatten.symm

/-- Under another name, no part is found. -/
private theorem reassemble_missing {name' : Str} {size : Nat} {sha : Str} (hne : name' ≠ name)
    (hpositive : 0 < partSize) (hcount : partCount data.bytes.length partSize < 33)
    (hdata : data.bytes ≠ []) (whole : Bytes) :
    (reassemble hash ⟨name', size, sha, (slices name' data partSize).map (parsedPart hash)⟩
      (partReader (written name data partSize))).2 ≠ .ok whole := by
  have hnumbered := slices_numbered name' hpositive hcount
  cases hslices : slices name' data partSize with
  | nil => exact absurd hslices (slices_ne_nil hpositive hdata)
  | cons part rest =>
    rw [hslices] at hnumbered
    obtain ⟨hname, hindex, _, _⟩ := hnumbered
    have hmissing : (written name data partSize).lookup part.1 = none := by
      rw [List.lookup_eq_none_iff]
      intro entry hentry
      simp only [written, slices, List.map_map, List.mem_map, List.mem_range] at hentry
      obtain ⟨i, hi, rfl⟩ := hentry
      rw [bne_iff_ne, hname]
      exact fun heq => hne (partName_inj hindex (show i + 1 < 33 by omega) heq).1
    have hread : partReader (written name data partSize) [] part.1 (part.2.bytes.length + 1)
        = .missing "KeyError" := by
      rw [partReader, hmissing]
    have hcheck : checkPart hash (parsedPart hash part) (partReader (written name data partSize) []
        (parsedPart hash part).name ((parsedPart hash part).size + 1))
        = .error (.unreadable part.1 "KeyError") := by
      show checkPart hash (parsedPart hash part) (partReader (written name data partSize) [] part.1
        (part.2.bytes.length + 1)) = _
      rw [hread]
      rfl
    rw [reassemble, List.map_cons, readParts, hcheck]
    simp [Except.bind]

end

/-! ## The round trip -/

/-- The manifest is accepted, and the parts are put together to the data. -/
def RoundTrips (py : Interpreter) (hash : HexDigest) (data manifest : Bytes)
    (parts : List (Str × Bytes)) : Prop :=
  ∃ parsed, parseManifest py (.bytes manifest) = .ok parsed
    ∧ (reassemble hash parsed (partReader parts)).2 = .ok data

section
variable {py : Interpreter} {hash : HexDigest} {name : Str} {data : Sized} {partSize : Nat}

private theorem joinPairs_ne_nil {s : Str} (h : s ≠ []) : joinPairs s ≠ [] := by
  intro hnil
  have hescaped := flatMap_joinPairs s
  cases s with
  | nil => exact h rfl
  | cons c rest =>
    cases rest with
    | nil => cases hnil
    | cons d rest =>
      rw [joinPairs] at hnil
      split_ifs at hnil

private theorem isSeparating_of_surrogate {c : CodePoint} (h : 0xD800 ≤ c.val) :
    isSeparating c = false := by
  simp only [isSeparating, CodePoint.is, Bool.or_eq_false_iff, beq_eq_false_iff_ne]
  refine ⟨⟨?_, ?_⟩, by omega⟩
  · show c.val ≠ 47
    omega
  · show c.val ≠ 92
    omega

/-- The parts of a file are put together again exactly where the manifest is within its limit, and
where there is no part whose name is refused or read as another. -/
private theorem roundTrips_written (hdepth : 3 ≤ py.readerDepth) (hpositive : 0 < partSize)
    (hcount : partCount data.bytes.length partSize < 33) (hname : name ≠ [])
    (hsep : name.any isSeparating = false) (hdots : hasDots name = false) :
    RoundTrips py hash data.bytes (encodePass ((Layout.indent 2).render escapeCharAscii 0
        (manifestRecord hash name data (slices name data partSize)) ++ str "\n"))
      (written name data partSize)
      ↔ manifestLength name data.bytes.length partSize ≤ MAX_MANIFEST_BYTES
        ∧ (data.bytes = [] ∨ NoPair name ∧ endsInDot name = false) := by
  have hname' := joinPairs_ne_nil hname
  have hsep' : (joinPairs name).any isSeparating = false :=
    (any_joinPairs (fun c hc => isSeparating_of_surrogate hc) name).trans hsep
  have hdots' : hasDots (joinPairs name) = false := (hasDots_joinPairs name).trans hdots
  have hlength : (slices (joinPairs name) data partSize).length ≤ MAX_PARTS := by
    rw [slices, List.length_map, List.length_range]
    exact Nat.le_of_lt_succ hcount
  have hnumbered := slices_numbered (joinPairs name) hpositive hcount
  have hflatten := slices_flatten (joinPairs name) data hpositive
  rw [RoundTrips, parseManifest_written hdepth hpositive hcount]
  by_cases hlong : manifestLength name data.bytes.length partSize > MAX_MANIFEST_BYTES
  · rw [if_pos hlong]
    refine iff_of_false ?_ fun h => absurd h.1 (Nat.not_le.mpr hlong)
    rintro ⟨_, h, _⟩
    cases h
  rw [if_neg hlong]
  by_cases hdata : data.bytes = []
  · -- Without data there are no parts, so the name of a part does not matter.
    have hnone : ∀ name, slices name data partSize = [] := by
      intro name
      rw [slices, hdata, List.map_eq_nil_iff, List.range_eq_nil, partCount]
      exact Nat.div_eq_of_lt (by rw [List.length_nil]; omega)
    refine iff_of_true ⟨_, parseDocument_ok hname' hsep' hdots' hlength hnumbered hflatten
      (.inl (hnone _)), ?_⟩ ⟨Nat.not_lt.mp hlong, .inl hdata⟩
    have hempty := reassemble_slices hash (joinPairs name) hpositive hcount
    rwa [show written (joinPairs name) data partSize = written name data partSize by
      rw [written, written, hnone, hnone]] at hempty
  cases hend : endsInDot (joinPairs name) with
  | true =>
    rw [parseDocument_dot hname' hsep' hdots' hlength hnumbered (slices_ne_nil hpositive hdata) hend]
    refine iff_of_false ?_ ?_
    · rintro ⟨_, h, _⟩
      cases h
    rintro ⟨_, h | ⟨hpair, hdot⟩⟩
    · exact hdata h
    · rw [joinPairs_of_noPair hpair, hdot] at hend
      cases hend
  | false =>
    rw [parseDocument_ok hname' hsep' hdots' hlength hnumbered hflatten (.inr hend)]
    by_cases hpair : joinPairs name = name
    · rw [hpair] at hend ⊢
      exact iff_of_true ⟨_, rfl, reassemble_slices hash name hpositive hcount⟩
        ⟨Nat.not_lt.mp hlong, .inr ⟨joinPairs_eq_self.mp hpair, hend⟩⟩
    · refine iff_of_false ?_ ?_
      · rintro ⟨parsed, ⟨⟩, hwhole⟩
        exact reassemble_missing hpair hpositive hcount hdata _ hwhole
      · rintro ⟨_, h | ⟨hnoPair, _⟩⟩
        · exact hdata h
        · exact hpair (joinPairs_of_noPair hnoPair)

/-- **Chunked files.** What `split` accepted is read back exactly where the manifest is within
`MAX_MANIFEST_BYTES` and, where there is data, the name has no pair of surrogates and does not end
in a dot. For every manifest and reader, `reassemble` asks for the parts in order, one byte more
than each declares, returns bytes of the manifest's size and digest, and returns nothing unless
every part was read and has its declared size and digest. -/
theorem roundTrips_iff (py : Interpreter) (hash : HexDigest) (hdepth : 3 ≤ py.readerDepth) :
    (∀ (name : Str) (data : Bytes) (partSize : Int) (manifest : Bytes) (parts : List (Str × Bytes)),
      split py hash name data partSize = .ok (manifest, parts) →
      (RoundTrips py hash data manifest parts
        ↔ manifestLength name data.length partSize.toNat ≤ MAX_MANIFEST_BYTES
          ∧ (data = [] ∨ NoPair name ∧ endsInDot name = false)))
    ∧ ∀ (manifest : ChunkManifest) (reader : PartReader),
      (reassemble hash manifest reader).1.map callOf <+: manifest.parts.map asked
      ∧ (Bounded reader → ∀ read ∈ (reassemble hash manifest reader).1, ∀ data,
        read.result = .bytes data → data.length ≤ read.maxBytes)
      ∧ (∀ whole, (reassemble hash manifest reader).2 = .ok whole
        → whole.length = manifest.size ∧ hash.sha256 whole = manifest.sha256)
      ∧ ∀ whole, (reassemble hash manifest reader).2 = .ok whole
        ↔ Verified hash manifest (reassemble hash manifest reader).1 whole := by
  refine ⟨fun name data partSize manifest parts h => ?_, fun manifest reader => ?_⟩
  · obtain ⟨data, partSize, rfl, rfl, hpositive, hcount, hname, hsep, hdots, rfl, rfl⟩ :=
      split_eq_ok h
    rw [Int.toNat_natCast]
    exact roundTrips_written hdepth hpositive hcount hname hsep hdots
  · obtain ⟨hcalls, hbounded, hwhole⟩ := @reassemble_spec hash manifest reader
    refine ⟨hcalls, hbounded, fun whole h => ?_, hwhole⟩
    obtain ⟨_, _, _, _, hsize, hsha⟩ := (hwhole whole).mp h
    exact ⟨hsize, hsha⟩

/-- SHA-256 of `hello`, its slices of three bytes and `x`, and for all else of the empty bytes. -/
def sampleDigest : HexDigest where
  sha256 data :=
    if data = [0x68, 0x65, 0x6C, 0x6C, 0x6F] then
      str "2cf24dba5fb0a30e26e83b2ac5b9e29e1b161e5c1fa7425e73043362938b9824"
    else if data = [0x68, 0x65, 0x6C] then
      str "d6a81f224bbf2f7c22baddbd5d40730eb20cfb0b3d74e10cab61788214caceb1"
    else if data = [0x6C, 0x6F] then
      str "9294ab38039f60d2ec53822fb46b52c663af7ea478f4d17bf43da44ede5e166c"
    else if data = [0x78] then
      str "2d711642b726b04401627ca9fbac32f5c8530fb1903cc4db02258717921a4881"
    else str "e3b0c44298fc1c149afbf4c8996fb92427ae41e4649b934ca495991b7852b855"
  length_sha256 data := by
    split_ifs <;> decide +kernel
  digits_sha256 data := by
    split_ifs <;> decide +kernel

/-- `roundTrips_iff` for five bytes in two parts. -/
theorem roundTrips_hello : ∃ manifest parts,
    split plainInterpreter sampleDigest (str "t.jsonl") [0x68, 0x65, 0x6C, 0x6C, 0x6F] 3
      = .ok (manifest, parts)
    ∧ RoundTrips plainInterpreter sampleDigest [0x68, 0x65, 0x6C, 0x6C, 0x6F] manifest parts := by
  have haccepted : (split plainInterpreter sampleDigest (str "t.jsonl")
      [0x68, 0x65, 0x6C, 0x6C, 0x6F] 3).toOption.isSome = true := by
    decide +kernel
  cases h : split plainInterpreter sampleDigest (str "t.jsonl") [0x68, 0x65, 0x6C, 0x6C, 0x6F] 3 with
  | error failure =>
    rw [h] at haccepted
    cases haccepted
  | ok output =>
    have hiff := (roundTrips_iff plainInterpreter sampleDigest (by decide)).1 _ _ _ _ _ h
    exact ⟨_, _, rfl, hiff.mpr ⟨by decide +kernel, .inr ⟨noPair_str "t.jsonl", by decide⟩⟩⟩

/-- The name `a.` is accepted, and its part `a..part-0001` is refused. -/
theorem dot_name_not_read : ∃ manifest parts,
    split plainInterpreter sampleDigest (str "a.") [0x78] 4 = .ok (manifest, parts)
    ∧ ¬RoundTrips plainInterpreter sampleDigest [0x78] manifest parts := by
  have haccepted : (split plainInterpreter sampleDigest (str "a.") [0x78] 4).toOption.isSome
      = true := by
    decide +kernel
  cases h : split plainInterpreter sampleDigest (str "a.") [0x78] 4 with
  | error failure =>
    rw [h] at haccepted
    cases haccepted
  | ok output =>
    refine ⟨_, _, rfl, ?_⟩
    obtain ⟨data, partSize, hbytes, _, hpositive, hcount, hname, hsep, hdots, hmanifest, hparts⟩ :=
      split_eq_ok h
    rw [hmanifest, hparts, ← hbytes]
    intro hread
    rcases ((roundTrips_written (by decide) hpositive hcount hname hsep hdots).mp hread).2
      with hempty | ⟨_, hdot⟩
    · rw [hbytes] at hempty
      cases hempty
    · exact absurd hdot (by decide)

end

end TrustPortal.Proofs.GitSources
