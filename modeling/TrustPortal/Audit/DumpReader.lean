import TrustPortal.Python.Text

/-!
# `TrustPortal.Audit.DumpReader`: the custom format of `pg_dump`

`CustomArchive` reads a dump from its first byte to its last: a header, the table of contents, and
then the data blocks in the order in which they stand in the file. It skips the blocks before the
one it looks for. A block is a list of chunks, each behind its length, with a length of 0 at the
end, and `_DecompressedStream` gives the data out in pieces of any size, one chunk at a time.

Every byte that is read goes through `HashingReader`, which hashes it. `zlib` is a parameter. A
loop has the number of bytes left as its fuel, since each round reads one at least.
-/

set_option autoImplicit false

namespace TrustPortal.Audit.Dump

open TrustPortal.Python

/-! ## The file -/

/-- `DumpError`, and `zlib.error`. -/
inductive DumpError
  | truncated
  | notCustomArchive
  /-- `unsupported archive version {version}` -/
  | unsupportedVersion (major minor : Nat)
  | notCustomFormat
  /-- `the dump is {compression}-compressed; dump with --compress=gzip or none` -/
  | unsupportedCompression (name : String)
  /-- `the dump has no data for {namespace}.{tag}` -/
  | noData (namespaceName tag : Str)
  | endsBeforeData
  | zlib
  deriving DecidableEq, Repr

/-- `HashingReader`: the rest of the file, the bytes that `sha256` has been given, and their
number. -/
structure HashingReader where
  rest : Bytes
  hashed : Bytes
  size : Nat
  deriving DecidableEq, Repr

/-- A reader at the start of a file. -/
def HashingReader.start (file : Bytes) : HashingReader := ⟨file, [], 0⟩

/-- A step that reads from the file, and may fail. -/
abbrev Read (α : Type) := StateT HashingReader (Except DumpError) α

/-- `read`. -/
def read (count : Nat) : Read Bytes := fun r =>
  let data := r.rest.take count
  .ok (data, ⟨r.rest.drop count, r.hashed ++ data, r.size + data.length⟩)

/-- `exact`. -/
def exact (count : Nat) : Read Bytes := do
  let data ← read count
  if data.length ≠ count then throw .truncated
  return data

/-- `exact(1)[0]`. -/
def readByte : Read UInt8 := do
  let data ← exact 1
  return data.headD 0

/-- `READ_CHUNK`. -/
def READ_CHUNK : Nat := 1024 * 1024

/-- `finish`. -/
def finish : Nat → Read Unit
  | 0 => pure ()
  | fuel + 1 => do
    let data ← read READ_CHUNK
    if data = [] then pure () else finish fuel

/-! ## The header -/

/-- `COMPRESSION`. -/
def COMPRESSION (code : Nat) : String :=
  match code with
  | 0 => "none"
  | 1 => "gzip"
  | 2 => "lz4"
  | 3 => "zstd"
  | _ => "unknown"

/-- An entry of the table of contents. -/
structure TocEntry where
  dumpId : Int
  hadDumper : Int
  tag : Option Str
  desc : Option Str
  defn : Option Str
  copyStmt : Option Str
  namespaceName : Option Str
  dataState : UInt8
  deriving DecidableEq, Repr

/-- What the header says of the format: the version, the sizes of an integer and of an offset, and
the compression. -/
structure Format where
  major : Nat
  minor : Nat
  intSize : Nat
  offSize : Nat
  deriving DecidableEq, Repr

/-- `CustomArchive`. -/
structure CustomArchive where
  format : Format
  compression : String
  database : Option Str
  serverVersion : Option Str
  dumpVersion : Option Str
  toc : List TocEntry
  deriving DecidableEq, Repr

/-- `int.from_bytes(data, "little")`. -/
def fromLittle (data : Bytes) : Nat := data.foldr (fun b n => b.toNat + 256 * n) 0

/-- The version is at least this one. -/
def Format.atLeast (format : Format) (major minor : Nat) : Bool :=
  decide (major < format.major) || (format.major == major && decide (minor ≤ format.minor))

section
variable (format : Format)

/-- `read_int`. -/
def readInt : Read Int := do
  let sign ← readByte
  let data ← exact format.intSize
  let value := fromLittle data
  return if sign ≠ 0 then -(value : Int) else value

/-- `read_str`. -/
def readStr : Read (Option Str) := do
  let length ← readInt format
  if length < 0 then return none
  let data ← exact length.toNat
  return some (decode data)

/-- The loop over the dependencies of an entry. -/
def readDependencies : Nat → Read Unit
  | 0 => throw .truncated
  | fuel + 1 => do
    let dependency ← readStr format
    if dependency.isSome then readDependencies fuel else pure ()

/-- The number of bytes that are left. -/
def bytesLeft : Read Nat := fun r => .ok (r.rest.length, r)

/-- `_read_toc_entry`. -/
def readTocEntry : Read TocEntry := do
  let dumpId ← readInt format
  let hadDumper ← readInt format
  let _ ← readStr format  -- table oid
  let _ ← readStr format  -- oid
  let tag ← readStr format
  let desc ← readStr format
  let _ ← readInt format  -- section
  let defn ← readStr format
  let _ ← readStr format  -- drop statement
  let copyStmt ← readStr format
  let namespaceName ← readStr format
  let _ ← readStr format  -- tablespace
  let _ ← readStr format  -- table access method
  if format.atLeast 1 16 then
    let _ ← readInt format  -- relkind
  let _ ← readStr format  -- owner
  let _ ← readStr format  -- "with oids"
  let left ← bytesLeft
  readDependencies format (left + 1)
  let dataState ← readByte
  let _ ← exact format.offSize  -- data offset (the file is read sequentially)
  return ⟨dumpId, hadDumper, tag, desc, defn, copyStmt, namespaceName, dataState⟩

/-- A list of entries. -/
def readEntries : Nat → Read (List TocEntry)
  | 0 => pure []
  | count + 1 => do
    let entry ← readTocEntry format
    let rest ← readEntries count
    return entry :: rest

/-- Some integers that nothing uses. -/
def skipInts : Nat → Read Unit
  | 0 => pure ()
  | count + 1 => do
    let _ ← readInt format
    skipInts count

/-- The compression of the data, by its name. -/
def readCompression : Read String := do
  if format.atLeast 1 15 then
    let code ← readByte
    return COMPRESSION code.toNat
  else
    let level ← readInt format
    return if level = 0 then "none" else "gzip"

end

/-- `MAGIC`. -/
def MAGIC : Bytes := [0x50, 0x47, 0x44, 0x4D, 0x50]

/-- `FORMAT_CUSTOM`. -/
def FORMAT_CUSTOM : UInt8 := 1

/-- `CustomArchive.__init__`. -/
def openArchive : Read CustomArchive := do
  let magic ← exact 5
  if magic ≠ MAGIC then throw .notCustomArchive
  let major ← readByte
  let minor ← readByte
  let _ ← readByte  -- the revision is always 0
  let version : Format := ⟨major.toNat, minor.toNat, 0, 0⟩
  if !version.atLeast 1 12 || version.atLeast 1 17 then
    throw (.unsupportedVersion version.major version.minor)
  let intSize ← readByte
  let offSize ← readByte
  let format : Format := ⟨major.toNat, minor.toNat, intSize.toNat, offSize.toNat⟩
  let custom ← readByte
  if custom ≠ FORMAT_CUSTOM then throw .notCustomFormat
  let compression ← readCompression format
  if compression ≠ "none" ∧ compression ≠ "gzip" then throw (.unsupportedCompression compression)
  skipInts format 7  -- creation time
  let database ← readStr format
  let serverVersion ← readStr format
  let dumpVersion ← readStr format
  let count ← readInt format
  let toc ← readEntries format count.toNat
  return ⟨format, compression, database, serverVersion, dumpVersion, toc⟩

/-- The first entry of a table with a description. -/
def findEntry (archive : CustomArchive) (desc namespaceName tag : Str) : Option TocEntry :=
  archive.toc.find? fun e =>
    e.desc = some desc && e.namespaceName = some namespaceName && e.tag = some tag

/-- `find`. -/
def find (archive : CustomArchive) (namespaceName tag : Str) :
    Except DumpError (TocEntry × TocEntry) :=
  match findEntry archive (str "TABLE") namespaceName tag,
    findEntry archive (str "TABLE DATA") namespaceName tag with
  | some table, some data => .ok (table, data)
  | _, _ => .error (.noData namespaceName tag)

/-! ## The data -/

/-- `BLK_DATA`. -/
def BLK_DATA : UInt8 := 1

/-- `BLK_BLOBS`. -/
def BLK_BLOBS : UInt8 := 3

section
variable (format : Format)

/-- The next chunk of `_chunks`, none at the end of the block. -/
def nextChunk : Read (Option Bytes) := do
  let length ← readInt format
  if length ≤ 0 then return none
  let data ← exact length.toNat
  return some data

/-- The loop over the chunks of a block that is skipped. -/
def skipChunks : Nat → Read Unit
  | 0 => throw .truncated
  | fuel + 1 => do
    let chunk ← nextChunk format
    if chunk.isSome then skipChunks fuel else pure ()

/-- The loop over the objects of a block of large objects. -/
def skipObjects : Nat → Read Unit
  | 0 => throw .truncated
  | fuel + 1 => do
    let oid ← readInt format
    if oid ≠ 0 then
      let left ← bytesLeft
      skipChunks format (left + 1)
      skipObjects fuel
    else pure ()

/-- The loop of `data_stream`: the blocks before the one with the id are skipped. -/
def seekData (dumpId : Int) : Nat → Read Unit
  | 0 => throw .truncated
  | fuel + 1 => do
    let kind ← read 1
    if kind = [] then throw .endsBeforeData
    let blockId ← readInt format
    if kind = [BLK_DATA] ∧ blockId = dumpId then pure ()
    else do
      let left ← bytesLeft
      if kind = [BLK_BLOBS] then skipObjects format (left + 1) else skipChunks format (left + 1)
      seekData dumpId fuel

end

/-- `zlib.decompressobj`. -/
structure Zlib where
  State : Type
  start : State
  /-- `decompress`, none for a `zlib.error`. -/
  decompress : State → Bytes → Option (Bytes × State)
  flush : State → Bytes

section
variable (zlib : Zlib)

/-- `_DecompressedStream`, with the reader that its chunks come from. -/
structure DecompressedStream where
  reader : HashingReader
  inflate : Option zlib.State
  buffer : Bytes
  done : Bool

/-- `data_stream`. -/
def dataStream (archive : CustomArchive) (dumpId : Int) (r : HashingReader) :
    Except DumpError (DecompressedStream zlib) := do
  let (_, r) ← seekData archive.format dumpId (r.rest.length + 1) r
  return ⟨r, if archive.compression = "gzip" then some zlib.start else none, [], false⟩

variable {zlib}

/-- The loop of `_DecompressedStream.read`, up to a number of bytes or to the end. -/
def DecompressedStream.fill (format : Format) (size : Option Nat) :
    Nat → DecompressedStream zlib → Except DumpError (DecompressedStream zlib)
  | 0, _ => .error .truncated
  | fuel + 1, s =>
    if s.done || size.any fun count => count ≤ s.buffer.length then .ok s
    else do
      let (chunk, r) ← nextChunk format s.reader
      match chunk, s.inflate with
      | none, none => return { s with reader := r, done := true }
      | none, some state =>
        return { s with reader := r, buffer := s.buffer ++ zlib.flush state, done := true }
      | some chunk, none =>
        DecompressedStream.fill format size fuel { s with reader := r, buffer := s.buffer ++ chunk }
      | some chunk, some state =>
        match zlib.decompress state chunk with
        | none => .error .zlib
        | some (data, state) =>
          DecompressedStream.fill format size fuel
            { s with reader := r, inflate := some state, buffer := s.buffer ++ data }

/-- `_DecompressedStream.read`. -/
def DecompressedStream.read (format : Format) (s : DecompressedStream zlib) (size : Int) :
    Except DumpError (Bytes × DecompressedStream zlib) := do
  let count := if size < 0 then none else some size.toNat
  let s ← s.fill format count (s.reader.rest.length + 2)
  match count with
  | none => return (s.buffer, { s with buffer := [] })
  | some count => return (s.buffer.take count, { s with buffer := s.buffer.drop count })

/-- A sequence of calls of `read`. -/
def DecompressedStream.reads (format : Format) (s : DecompressedStream zlib) :
    List Int → Except DumpError (List Bytes × DecompressedStream zlib)
  | [] => .ok ([], s)
  | size :: sizes => do
    let (data, s) ← s.read format size
    let (rest, s) ← s.reads format sizes
    return (data :: rest, s)

end

end TrustPortal.Audit.Dump
