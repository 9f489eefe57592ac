import Mathlib.Algebra.Group.Nat.Defs
import TrustPortal.Python.Text

/-!
# `TrustPortal.Audit.DumpFormat`: what `pg_dump --format=custom` writes

A dump in the custom format, and the bytes it has in the archive versions 1.12 to 1.16. This is the
format as `pg_dump` documents it in its version numbers, not as the reader takes it: 1.14 added the
table access method to an entry of the table of contents, 1.15 made the compression a code instead
of a level, and 1.16 added the kind of the relation.

An integer is a byte for the sign and the magnitude, the least significant byte first. A text is its
length and its bytes, and a missing text has the length -1.
-/

set_option autoImplicit false

namespace TrustPortal.Audit.DumpFormat

open TrustPortal.Python

/-! ## Numbers and texts -/

/-- The last `size` digits of a number to the base 256, the least significant one first. -/
def littleEndian : Nat → Nat → Bytes
  | 0, _ => []
  | size + 1, n => UInt8.ofNat (n % 256) :: littleEndian size (n / 256)

/-- An integer. -/
def writeInt (size : Nat) (n : Int) : Bytes :=
  (if n < 0 then 1 else 0) :: littleEndian size n.natAbs

/-- A text, or none. -/
def writeStr (size : Nat) : Option Bytes → Bytes
  | none => writeInt size (-1)
  | some text => writeInt size text.length ++ text

/-- An integer that the size has room for. -/
def Fits (size : Nat) (n : Int) : Prop := n.natAbs < 256 ^ size

instance (size : Nat) (n : Int) : Decidable (Fits size n) :=
  inferInstanceAs (Decidable (n.natAbs < 256 ^ size))

/-- A text whose length the size has room for. -/
def TextFits (size : Nat) (text : Option Bytes) : Prop := ∀ t, text = some t → Fits size t.length

instance (size : Nat) : (text : Option Bytes) → Decidable (TextFits size text)
  | none => isTrue fun _ h => by cases h
  | some t => decidable_of_iff (Fits size t.length)
      ⟨fun h _ ht => by cases ht; exact h, fun h => h t rfl⟩

/-! ## Dumps -/

/-- An entry of the table of contents. -/
structure DumpEntry where
  dumpId : Int
  hadDumper : Int
  tableOid : Option Bytes
  oid : Option Bytes
  tag : Option Bytes
  desc : Option Bytes
  section_ : Int
  defn : Option Bytes
  dropStmt : Option Bytes
  copyStmt : Option Bytes
  namespaceName : Option Bytes
  tablespace : Option Bytes
  /-- Since 1.14. -/
  tableam : Option Bytes
  /-- Since 1.16. -/
  relkind : Int
  owner : Option Bytes
  withOids : Option Bytes
  dependencies : List Bytes
  dataState : UInt8
  offset : Bytes

/-- A data block: its chunks, or the chunks of several large objects. -/
inductive DumpBlock
  | data (dumpId : Int) (chunks : List Bytes)
  | blobs (dumpId : Int) (objects : List (Int × List Bytes))

/-- The entry that a block is the data of. -/
def DumpBlock.dumpId : DumpBlock → Int
  | .data dumpId _ => dumpId
  | .blobs dumpId _ => dumpId

/-- The algorithms that `pg_dump` compresses with. -/
inductive Compression
  | none
  | gzip
  | lz4
  | zstd
  deriving DecidableEq, Repr

/-- The code of an algorithm, since 1.15. -/
def Compression.code : Compression → UInt8
  | .none => 0
  | .gzip => 1
  | .lz4 => 2
  | .zstd => 3

/-- A dump. -/
structure Dump where
  minor : UInt8
  revision : UInt8
  intSize : UInt8
  offSize : UInt8
  compression : Compression
  /-- The level, before 1.15. -/
  level : Int
  created : List Int
  database : Option Bytes
  serverVersion : Option Bytes
  dumpVersion : Option Bytes
  toc : List DumpEntry
  blocks : List DumpBlock

/-! ## Bytes -/

/-- An entry. -/
def DumpEntry.write (minor : UInt8) (size : Nat) (e : DumpEntry) : Bytes :=
  [writeInt size e.dumpId, writeInt size e.hadDumper, writeStr size e.tableOid,
    writeStr size e.oid, writeStr size e.tag, writeStr size e.desc, writeInt size e.section_,
    writeStr size e.defn, writeStr size e.dropStmt, writeStr size e.copyStmt,
    writeStr size e.namespaceName, writeStr size e.tablespace,
    if 14 ≤ minor then writeStr size e.tableam else [],
    if 16 ≤ minor then writeInt size e.relkind else [],
    writeStr size e.owner, writeStr size e.withOids,
    e.dependencies.flatMap fun dependency => writeStr size (some dependency),
    writeStr size none, [e.dataState], e.offset].flatten

/-- Chunks with their lengths, and the length 0 at the end. -/
def writeChunks (size : Nat) (chunks : List Bytes) : Bytes :=
  (chunks.flatMap fun chunk => writeInt size chunk.length ++ chunk) ++ writeInt size 0

/-- A block. -/
def DumpBlock.write (size : Nat) : DumpBlock → Bytes
  | .data dumpId chunks => 1 :: (writeInt size dumpId ++ writeChunks size chunks)
  | .blobs dumpId objects =>
    3 :: (writeInt size dumpId
      ++ ((objects.flatMap fun object => writeInt size object.1 ++ writeChunks size object.2)
        ++ writeInt size 0))

/-- The bytes of a dump. -/
def Dump.write (d : Dump) : Bytes :=
  let size := d.intSize.toNat
  [[0x50, 0x47, 0x44, 0x4D, 0x50], [1], [d.minor], [d.revision], [d.intSize], [d.offSize], [1],
    if 15 ≤ d.minor then [d.compression.code] else writeInt size d.level,
    d.created.flatMap (writeInt size),
    writeStr size d.database, writeStr size d.serverVersion, writeStr size d.dumpVersion,
    writeInt size d.toc.length, d.toc.flatMap (DumpEntry.write d.minor size),
    d.blocks.flatMap (DumpBlock.write size)].flatten

/-! ## Well-formed dumps -/

/-- An entry whose fields there is room for. -/
structure DumpEntry.WellFormed (intSize offSize : Nat) (e : DumpEntry) : Prop where
  ints : ∀ n ∈ [e.dumpId, e.hadDumper, e.section_, e.relkind], Fits intSize n
  texts : ∀ text ∈ [e.tableOid, e.oid, e.tag, e.desc, e.defn, e.dropStmt, e.copyStmt,
    e.namespaceName, e.tablespace, e.tableam, e.owner, e.withOids], TextFits intSize text
  dependencies : ∀ dependency ∈ e.dependencies, Fits intSize dependency.length
  offset : e.offset.length = offSize

/-- Chunks that are not empty and whose length there is room for. -/
def ChunksFit (intSize : Nat) (chunks : List Bytes) : Prop :=
  ∀ chunk ∈ chunks, chunk ≠ [] ∧ Fits intSize chunk.length

instance (intSize : Nat) (chunks : List Bytes) : Decidable (ChunksFit intSize chunks) :=
  inferInstanceAs (Decidable (∀ chunk ∈ chunks, chunk ≠ [] ∧ Fits intSize chunk.length))

/-- A block whose parts there is room for. The id 0 would end a block of large objects. -/
def DumpBlock.WellFormed (intSize : Nat) : DumpBlock → Prop
  | .data dumpId chunks => Fits intSize dumpId ∧ ChunksFit intSize chunks
  | .blobs dumpId objects => Fits intSize dumpId
      ∧ ∀ object ∈ objects, object.1 ≠ 0 ∧ Fits intSize object.1 ∧ ChunksFit intSize object.2

/-- A dump that `pg_dump` can write, with the blocks in any order. -/
structure Dump.WellFormed (d : Dump) : Prop where
  version : 12 ≤ d.minor ∧ d.minor ≤ 16
  /-- A missing text can be written. -/
  intSize : Fits d.intSize.toNat (-1)
  /-- Before 1.15 there was no other algorithm, and the level says whether it is used. -/
  level : d.minor < 15 → Fits d.intSize.toNat d.level
    ∧ (d.compression = .none ∧ d.level = 0 ∨ d.compression = .gzip ∧ d.level ≠ 0)
  created : d.created.length = 7 ∧ ∀ n ∈ d.created, Fits d.intSize.toNat n
  texts : ∀ text ∈ [d.database, d.serverVersion, d.dumpVersion], TextFits d.intSize.toNat text
  count : Fits d.intSize.toNat d.toc.length
  toc : ∀ e ∈ d.toc, e.WellFormed d.intSize.toNat d.offSize.toNat
  blocks : ∀ b ∈ d.blocks, b.WellFormed d.intSize.toNat
  ids : (d.blocks.map DumpBlock.dumpId).Nodup

/-- The first entry of a table with a description. -/
def Dump.entry (d : Dump) (desc namespaceName tag : Bytes) : Option DumpEntry :=
  d.toc.find? fun e =>
    e.desc = some desc && e.namespaceName = some namespaceName && e.tag = some tag

end TrustPortal.Audit.DumpFormat
