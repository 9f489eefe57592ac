import TrustPortal.Python.Layout
import Mathlib.Data.Nat.Digits.Lemmas

/-!
# `TrustPortal.GitSources.ChunkedFiles`: a file as a manifest and its slices

`split` cuts the data of a file into parts of at most `part_size` bytes and writes a manifest that
names each part with its size and digest. `parseManifest` reads and checks a manifest, and
`reassemble` reads the parts it lists, in order, through a reader that is asked for one byte more
than the part declares.

The data that `split` accepts has at most `MAX_TOTAL_BYTES` bytes, which `Sized` carries: the
sizes in a manifest are ints that can be written. A part reader may answer by what it was asked
before, so it gets the reads so far.
-/

set_option autoImplicit false

namespace TrustPortal.GitSources

open TrustPortal.Python

/-- `MAX_MANIFEST_BYTES` -/
def MAX_MANIFEST_BYTES : Nat := 1024 * 1024

/-- `MAX_PARTS` -/
def MAX_PARTS : Nat := 32

/-- `MAX_TOTAL_BYTES` -/
def MAX_TOTAL_BYTES : Nat := 128 * 1024 * 1024

/-- `FORMAT` -/
def FORMAT : String := "chunked-file/v1"

/-- `ChunkPart` -/
structure ChunkPart where
  name : Str
  size : Nat
  sha256 : Str
  deriving DecidableEq

/-- `ChunkManifest` -/
structure ChunkManifest where
  name : Str
  size : Nat
  sha256 : Str
  parts : List ChunkPart
  deriving DecidableEq

/-- What a check is about, the `what` of its message. -/
inductive Checked
  | fileName
  | manifestName
  | manifestSize
  | manifestSha
  | partName (index : Nat)
  | partSize (index : Nat)
  | partSha (index : Nat)
  deriving DecidableEq

/-- What can be raised. All but the last three are a `ChunkedFileError`, `partTooLarge` the
`ChunkedPartTooLargeError` among them. -/
inductive Failure
  /-- `{what} must be a non-empty string` -/
  | notText (what : Checked)
  /-- `{what} must be a plain file name: {value!r}` -/
  | notPlain (what : Checked) (value : Str)
  /-- `{what} must be a non-negative integer` -/
  | notSize (what : Checked)
  /-- `{what} must be a lowercase hex SHA-256 digest` -/
  | notSha (what : Checked)
  /-- `manifest is larger than {MAX_MANIFEST_BYTES} bytes` -/
  | manifestTooLarge
  /-- `manifest is not valid JSON: {exc}` -/
  | notJson
  /-- `manifest must be a JSON object` -/
  | notObject
  /-- `unsupported manifest format: {doc.get('format')!r}` -/
  | unsupportedFormat (value : Value)
  /-- `manifest size {size} exceeds the {MAX_TOTAL_BYTES} byte limit` -/
  | sizeExceeds (size : Nat)
  /-- `manifest parts must be a list` -/
  | partsNotList
  /-- `manifest lists {len(raw_parts)} parts; at most {MAX_PARTS} are allowed` -/
  | tooManyParts (count : Nat)
  /-- `manifest lists no parts for a non-empty file` -/
  | noParts
  /-- `part {index} must be an object` -/
  | partNotObject (index : Nat)
  /-- `part {index} must be named {part_name(name, index)!r}, not {pname!r}` -/
  | misnamed (index : Nat) (expected found : Str)
  /-- `part {index} is empty` -/
  | partEmpty (index : Nat)
  /-- `part sizes do not add up to the manifest size` -/
  | sizesDiffer
  /-- `part {part.name} could not be read: {type(exc).__name__}` -/
  | unreadable (part : Str) (exc : String)
  /-- `part {part.name} was not returned as bytes` -/
  | notBytes (part : Str)
  /-- `part {part} is larger than the {declared} bytes its manifest declares` -/
  | partTooLarge (part : Str) (declared read : Nat)
  /-- `part {part.name} is {len(data)} bytes, the manifest says {part.size}` -/
  | partTruncated (part : Str) (read declared : Nat)
  /-- `part {part.name} does not match its SHA-256` -/
  | partCorrupted (part : Str)
  /-- `reassembled {manifest.name} does not match the manifest SHA-256` -/
  | wholeDiffers (name : Str)
  /-- A `UnicodeEncodeError`, from a manifest text with a surrogate. -/
  | unicodeEncode
  /-- A `RecursionError`. -/
  | recursion
  /-- Another exception of the part reader. -/
  | raised

/-- `hashlib.sha256(data).hexdigest()`: 64 digits, lowercase. -/
structure HexDigest where
  sha256 : Bytes → Str
  length_sha256 : ∀ data, (sha256 data).length = 64
  digits_sha256 : ∀ data, ∀ c ∈ sha256 data,
    c.isDigit = true ∨ 0x61 ≤ c.val ∧ c.val ≤ 0x66

/-! ## Names, sizes and digests -/

/-- `f"{index:04d}"` -/
def fourDigits (index : Nat) : Str :=
  List.replicate (4 - (natText index).length) (.ofChar '0') ++ natText index

/-- `part_name`: the name of the `index`-th part, counted from one. -/
def partName (name : Str) (index : Nat) : Str := name ++ (str ".part-" ++ fourDigits index)

/-- `".." in value` -/
def hasDots : Str → Bool
  | [] => false
  | c :: rest => (c.is '.' && rest.head?.any (CodePoint.is · '.')) || hasDots rest

/-- A character that no plain file name has. -/
def isSeparating (c : CodePoint) : Bool := c.is '/' || c.is '\\' || c.val == 0

/-- `_check_basename` -/
def checkBasename (value : Value) (what : Checked) : Except Failure Str :=
  match value with
  | .str name =>
    if name.isEmpty then .error (.notText what)
    else if name.any isSeparating || hasDots name then .error (.notPlain what name)
    else .ok name
  | _ => .error (.notText what)

/-- `_check_size` -/
def checkSize (value : Value) (what : Checked) : Except Failure Nat :=
  match value with
  | .int n => if n.value < 0 then .error (.notSize what) else .ok n.value.toNat
  | _ => .error (.notSize what)

/-- `[0-9a-f]` -/
def isLowerHex (c : CodePoint) : Bool :=
  c.isDigit || (decide (0x61 ≤ c.val) && decide (c.val ≤ 0x66))

/-- `_SHA256_RE.match(value)`. `$` also matches before a line feed at the end. -/
def matchesSha (value : Str) : Bool :=
  (value.take 64).length = 64 && (value.take 64).all isLowerHex
    && (value.drop 64 = [] || value.drop 64 = str "\n")

/-- `_check_sha` -/
def checkSha (value : Value) (what : Checked) : Except Failure Str :=
  match value with
  | .str sha => if matchesSha sha then .ok sha else .error (.notSha what)
  | _ => .error (.notSha what)

/-! ## Reading a manifest -/

/-- A manifest as it was read, in bytes or as text. -/
inductive ManifestData
  | bytes (data : Bytes)
  | text (data : Str)

/-- The number of bytes of a manifest. -/
def ManifestData.length : ManifestData → Except Failure Nat
  | .bytes data => .ok data.length
  | .text data =>
    match encode data with
    | some encoded => .ok encoded.length
    | none => .error .unicodeEncode

/-- `json.loads` of a manifest, bytes decoded first. -/
def ManifestData.loads (py : Interpreter) (data : ManifestData) : Except Failure Value :=
  let text := match data with
    | .bytes data => decodeStrict data
    | .text data => some data
  match text with
  | none => .error .notJson
  | some text =>
    match Python.loads py text with
    | .ok doc => .ok doc
    | .error .malformed | .error .number => .error .notJson
    | .error .recursion => .error .recursion

/-- A part of a manifest, the `index`-th one. -/
def parsePart (name : Str) (index : Nat) (raw : Value) : Except Failure ChunkPart :=
  match raw with
  | .dict members => do
    let pname ← checkBasename (get members "name") (.partName index)
    if pname ≠ partName name index then .error (.misnamed index (partName name index) pname)
    let psize ← checkSize (get members "size") (.partSize index)
    if psize = 0 then .error (.partEmpty index)
    let sha ← checkSha (get members "sha256") (.partSha index)
    .ok ⟨pname, psize, sha⟩
  | _ => .error (.partNotObject index)

/-- The parts of a manifest from the `index`-th one on. -/
def parseParts (name : Str) (index : Nat) : List Value → Except Failure (List ChunkPart)
  | [] => .ok []
  | raw :: rest => do
    let part ← parsePart name index raw
    let parts ← parseParts name (index + 1) rest
    .ok (part :: parts)

/-- `raw_parts` where it is a list that can describe a file of this size. -/
def checkParts (value : Value) (size : Nat) : Except Failure (List Value) :=
  match value with
  | .list raws =>
    if raws.length > MAX_PARTS then .error (.tooManyParts raws.length)
    else if raws.isEmpty && size != 0 then .error .noParts
    else .ok raws
  | _ => .error .partsNotList

/-- The checks of a manifest that is a JSON object. -/
def parseDocument (doc : Members) : Except Failure ChunkManifest := do
  if ¬(get doc "format").isText FORMAT then .error (.unsupportedFormat (get doc "format"))
  let name ← checkBasename (get doc "name") .manifestName
  let size ← checkSize (get doc "size") .manifestSize
  if size > MAX_TOTAL_BYTES then .error (.sizeExceeds size)
  let sha ← checkSha (get doc "sha256") .manifestSha
  let raws ← checkParts (get doc "parts") size
  let parts ← parseParts name 1 raws
  if (parts.map ChunkPart.size).sum ≠ size then .error .sizesDiffer
  .ok ⟨name, size, sha, parts⟩

/-- `parse_manifest` -/
def parseManifest (py : Interpreter) (data : ManifestData) : Except Failure ChunkManifest := do
  let length ← data.length
  if length > MAX_MANIFEST_BYTES then .error .manifestTooLarge
  match ← data.loads py with
  | .dict doc => parseDocument doc
  | _ => .error .notObject

/-! ## Reading the parts -/

/-- What `read_part` does. -/
inductive ReadResult
  /-- It returns bytes. -/
  | bytes (data : Bytes)
  /-- It returns something else. -/
  | notBytes
  /-- It raises an `OSError` or a `LookupError` of this type. -/
  | missing (exc : String)
  /-- It raises another exception. -/
  | raised

/-- A call of `read_part` and what it did. -/
structure PartRead where
  name : Str
  maxBytes : Nat
  result : ReadResult

/-- `read_part`, by the calls before. -/
abbrev PartReader := List PartRead → Str → Nat → ReadResult

/-- The checks of a part that was read. -/
def checkPart (hash : HexDigest) (part : ChunkPart) (result : ReadResult) : Except Failure Bytes :=
  match result with
  | .missing exc => .error (.unreadable part.name exc)
  | .raised => .error .raised
  | .notBytes => .error (.notBytes part.name)
  | .bytes data =>
    if data.length > part.size then .error (.partTooLarge part.name part.size data.length)
    else if data.length ≠ part.size then .error (.partTruncated part.name data.length part.size)
    else if hash.sha256 data ≠ part.sha256 then .error (.partCorrupted part.name)
    else .ok data

/-- The loop over the parts: the reads that were made, and the chunks. -/
def readParts (hash : HexDigest) (reader : PartReader) (reads : List PartRead)
    (chunks : List Bytes) : List ChunkPart → List PartRead × Except Failure (List Bytes)
  | [] => (reads, .ok chunks)
  | part :: parts =>
    let result := reader reads part.name (part.size + 1)
    let reads := reads ++ [⟨part.name, part.size + 1, result⟩]
    match checkPart hash part result with
    | .error failure => (reads, .error failure)
    | .ok data => readParts hash reader reads (chunks ++ [data]) parts

/-- The check of the whole file. -/
def checkWhole (hash : HexDigest) (manifest : ChunkManifest) (chunks : List Bytes) :
    Except Failure Bytes :=
  if chunks.flatten.length ≠ manifest.size ∨ hash.sha256 chunks.flatten ≠ manifest.sha256 then
    .error (.wholeDiffers manifest.name)
  else .ok chunks.flatten

/-- `reassemble`, with the reads it makes. -/
def reassemble (hash : HexDigest) (manifest : ChunkManifest) (reader : PartReader) :
    List PartRead × Except Failure Bytes :=
  let (reads, chunks) := readParts hash reader [] [] manifest.parts
  (reads, chunks.bind (checkWhole hash manifest))

/-! ## Splitting -/

/-- Data within the limit on a chunked file. -/
structure Sized where
  bytes : Bytes
  fits : bytes.length ≤ MAX_TOTAL_BYTES

namespace Sized

/-- `data[offset:offset + count]` -/
def slice (data : Sized) (offset count : Nat) : Sized where
  bytes := (data.bytes.drop offset).take count
  fits := by
    have hfits := data.fits
    rw [List.length_take, List.length_drop]
    omega

/-- `len(data)`, which has nine digits at most. -/
def size (data : Sized) : Integer where
  value := data.bytes.length
  short := by
    have hlimit : data.bytes.length < 10 ^ 9 := Nat.lt_of_le_of_lt data.fits (by decide)
    have hlength := (Nat.digits_length_le_iff (by decide : 1 < 10) data.bytes.length).mpr hlimit
    rw [digitCount, Int.natAbs_natCast]
    exact hlength.trans (by decide)

end Sized

/-- The number of steps of `range(0, size, part_size)`. -/
def partCount (size partSize : Nat) : Nat := (size + partSize - 1) / partSize

/-- The parts of a file and their names. -/
def slices (name : Str) (data : Sized) (partSize : Nat) : List (Str × Sized) :=
  (List.range (partCount data.bytes.length partSize)).map fun i =>
    (partName name (i + 1), data.slice (i * partSize) partSize)

/-- A part in a manifest. -/
def partRecord (hash : HexDigest) (part : Str × Sized) : Value :=
  .dict [(str "name", .str part.1), (str "size", .int part.2.size),
    (str "sha256", .str (hash.sha256 part.2.bytes))]

/-- The manifest of a file. -/
def manifestRecord (hash : HexDigest) (name : Str) (data : Sized) (parts : List (Str × Sized)) :
    Value :=
  .dict [(str "format", .str (str FORMAT)), (str "name", .str name), (str "size", .int data.size),
    (str "sha256", .str (hash.sha256 data.bytes)),
    (str "parts", .list (parts.map (partRecord hash)))]

/-- What `split` raises. -/
inductive SplitError
  /-- The `ChunkedFileError` of the name. -/
  | name (failure : Failure)
  /-- `part_size must be a positive integer` -/
  | partSize
  /-- `{name} is larger than the {MAX_TOTAL_BYTES} byte chunked-file limit` -/
  | tooLarge
  /-- `{name} would need more than {MAX_PARTS} parts of {part_size} bytes` -/
  | tooManyParts
  /-- A `RecursionError` of the JSON writer. -/
  | recursion
  /-- A `UnicodeEncodeError`. -/
  | unicodeEncode

/-- The manifest and the parts of data within the limits. -/
def splitSized (py : Interpreter) (hash : HexDigest) (name : Str) (data : Sized) (partSize : Nat) :
    Except SplitError (Bytes × List (Str × Bytes)) :=
  let parts := slices name data partSize
  match (manifestRecord hash name data parts).dumpsIndent py 2 with
  | none => .error .recursion
  | some text =>
    match encode (text ++ str "\n") with
    | none => .error .unicodeEncode
    | some manifest => .ok (manifest, parts.map fun part => (part.1, part.2.bytes))

/-- `split`: the manifest's bytes, and the parts. -/
def split (py : Interpreter) (hash : HexDigest) (name : Str) (data : Bytes) (partSize : Int) :
    Except SplitError (Bytes × List (Str × Bytes)) :=
  match checkBasename (.str name) .fileName with
  | .error failure => .error (.name failure)
  | .ok _ =>
    if partSize ≤ 0 then .error .partSize
    else if h : data.length ≤ MAX_TOTAL_BYTES then
      if -(Int.fdiv (-(data.length : Int)) partSize) > MAX_PARTS then .error .tooManyParts
      else splitSized py hash name ⟨data, h⟩ partSize.toNat
    else .error .tooLarge

/-- The reader over parts that `split` produced: the first `max_bytes` bytes of a part, a
`KeyError` where there is none of the name. -/
def partReader (parts : List (Str × Bytes)) : PartReader := fun _ name maxBytes =>
  match parts.lookup name with
  | some data => .bytes (data.take maxBytes)
  | none => .missing "KeyError"

end TrustPortal.GitSources
