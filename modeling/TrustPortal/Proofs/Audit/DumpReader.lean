import TrustPortal.Audit.DumpFormat
import TrustPortal.Audit.DumpReader

/-!
# `TrustPortal.Proofs.Audit.DumpReader`: the data of one table in a dump

`Reads p bytes a` says that a step of the reader takes exactly these bytes, whatever follows them,
hashes them and gives `a`. The rule for a sequence (`Reads.bind`) follows the format part by part,
so each function of the reader has one lemma about what `pg_dump` writes.

The reader takes a table access method from every entry of the table of contents. An archive before
1.14 has none, and the texts behind it move up by one place. An entry with a dependency comes out
right even so, since the list of the dependencies ends where it did (`reads_readTocEntry`). Without
one the reader takes the end of that list for another text and is out of step from there on.

`streams_auditLog` is the result for the archives that are read in step: the stream gives the data
of `audit_log` for every sequence of read sizes, and the hash covers the file.
`old_archive_is_misread` is an archive of version 1.13 that is not.
-/

set_option autoImplicit false

namespace TrustPortal.Proofs.Audit.Dump

open TrustPortal.Python
open TrustPortal.Audit.Dump
open TrustPortal.Audit.DumpFormat

/-! ## Steps of the reader -/

/-- The step takes these bytes and gives `a`. -/
def Reads {α : Type} (p : Read α) (bytes : Bytes) (a : α) : Prop :=
  ∀ r rest, r.rest = bytes ++ rest →
    p r = .ok (a, ⟨rest, r.hashed ++ bytes, r.size + bytes.length⟩)

section
variable {α β : Type} {p : Read α} {f : α → Read β} {bytes bytes' : Bytes} {a : α} {b : β}

/-- Nothing is taken. -/
private theorem Reads.pure : Reads (pure a : Read α) [] a := by
  intro r rest h
  show Except.ok (a, r) = _
  rw [← show r.rest = rest from h, List.append_nil, List.length_nil, Nat.add_zero]

/-- One step after another. -/
private theorem Reads.bind (hp : Reads p bytes a) (hf : Reads (f a) bytes' b) :
    Reads (p >>= f) (bytes ++ bytes') b := by
  intro r rest h
  rw [List.append_assoc] at h
  show (p r >>= fun (a, r) => f a r) = _
  rw [hp r (bytes' ++ rest) h]
  show f a _ = _
  rw [hf _ rest rfl, List.append_assoc, List.length_append, Nat.add_assoc]

/-- A step after which nothing is taken. -/
private theorem Reads.last (hp : Reads p bytes a) (hf : Reads (f a) [] b) :
    Reads (p >>= f) bytes b := by
  have h := hp.bind hf
  rwa [List.append_nil] at h

/-- A step that depends on the number of bytes that are left. -/
private theorem Reads.bytesLeft {f : Nat → Read β}
    (h : ∀ left, bytes.length ≤ left → Reads (f left) bytes b) : Reads (bytesLeft >>= f) bytes b := by
  intro r rest hrest
  show f r.rest.length r = _
  refine h _ ?_ r rest hrest
  rw [hrest, List.length_append]
  exact Nat.le_add_right _ _

/-- A step that raises under a condition. -/
private theorem Reads.ite_neg {c : Prop} [Decidable c] {q : Read α} (hc : ¬c)
    (hp : Reads p bytes a) : Reads (if c then q else p) bytes a := by
  rw [if_neg hc]
  exact hp

/-- `read` of as many bytes as there are. -/
private theorem reads_read (bytes : Bytes) : Reads (read bytes.length) bytes bytes := by
  intro r rest h
  show Except.ok _ = _
  rw [h, List.take_left, List.drop_left]

/-- `exact` of as many bytes as there are. -/
private theorem reads_exact {count : Nat} (h : bytes.length = count) :
    Reads (exact count) bytes bytes := by
  subst h
  refine (reads_read bytes).last ?_
  rw [if_neg (not_not_intro rfl)]
  exact Reads.pure

/-- A byte. -/
private theorem reads_readByte (b : UInt8) : Reads readByte [b] b :=
  (@reads_exact [b] 1 rfl).last Reads.pure

end

/-! ## Numbers and texts -/

/-- The digits of a number give it back. -/
private theorem fromLittle_littleEndian (size n : Nat) (h : n < 256 ^ size) :
    fromLittle (littleEndian size n) = n := by
  induction size generalizing n with
  | zero =>
    rw [Nat.pow_zero] at h
    show 0 = n
    omega
  | succ size ih =>
    have hrest : n / 256 < 256 ^ size := by
      rw [Nat.div_lt_iff_lt_mul (by decide)]
      rwa [Nat.pow_succ] at h
    show (UInt8.ofNat (n % 256)).toNat + 256 * fromLittle (littleEndian size (n / 256)) = n
    rw [ih _ hrest, UInt8.toNat_ofNat_of_lt' (by
      show n % 256 < 256
      omega)]
    omega

private theorem length_littleEndian (size n : Nat) : (littleEndian size n).length = size := by
  induction size generalizing n with
  | zero => rfl
  | succ size ih =>
    show (littleEndian size (n / 256)).length + 1 = size + 1
    rw [ih]

section
variable {format : Format}

/-- `read_int` reads an integer. -/
private theorem reads_readInt {n : Int} (h : Fits format.intSize n) :
    Reads (readInt format) (writeInt format.intSize n) n := by
  refine (reads_readByte (if n < 0 then 1 else 0)).bind
    ((reads_exact (length_littleEndian format.intSize n.natAbs)).last ?_)
  have hvalue : (if (if n < 0 then (1 : UInt8) else 0) ≠ 0
      then -(fromLittle (littleEndian format.intSize n.natAbs) : Int)
      else fromLittle (littleEndian format.intSize n.natAbs)) = n := by
    rw [fromLittle_littleEndian _ _ h]
    by_cases hneg : n < 0
    · rw [if_pos hneg, if_pos (by decide)]
      omega
    · rw [if_neg hneg, if_neg (by decide)]
      omega
  show Reads (Pure.pure (if (if n < 0 then (1 : UInt8) else 0) ≠ 0
    then -(fromLittle (littleEndian format.intSize n.natAbs) : Int)
    else fromLittle (littleEndian format.intSize n.natAbs))) [] n
  rw [hvalue]
  exact Reads.pure

/-- `read_str` reads a text. -/
private theorem reads_readStr (hone : Fits format.intSize (-1)) {text : Option Bytes}
    (h : TextFits format.intSize text) :
    Reads (readStr format) (writeStr format.intSize text) (text.map decode) := by
  cases text with
  | none => exact (reads_readInt hone).last Reads.pure
  | some t =>
    refine (reads_readInt (h t rfl)).bind ?_
    rw [if_neg (by omega)]
    exact (reads_exact (by rw [Int.toNat_natCast])).last Reads.pure

/-! ## The table of contents -/

/-- An integer has a byte. -/
private theorem length_writeInt (size : Nat) (n : Int) : (writeInt size n).length = size + 1 := by
  show (littleEndian size n.natAbs).length + 1 = size + 1
  rw [length_littleEndian]

/-- There is room for a missing text. -/
private theorem textFits_none {size : Nat} : TextFits size none := by
  intro t ht
  cases ht

/-- The dependencies are read up to the missing text behind them. -/
private theorem reads_readDependencies (hone : Fits format.intSize (-1)) {dependencies : List Bytes}
    (h : ∀ dependency ∈ dependencies, Fits format.intSize dependency.length) {fuel : Nat}
    (hfuel : dependencies.length < fuel) :
    Reads (readDependencies format fuel)
      ((dependencies.flatMap fun dependency => writeStr format.intSize (some dependency))
        ++ writeStr format.intSize none) () := by
  induction dependencies generalizing fuel with
  | nil =>
    cases fuel with
    | zero => cases hfuel
    | succ fuel => exact (reads_readStr hone textFits_none).last Reads.pure
  | cons dependency rest ih =>
    cases fuel with
    | zero => cases hfuel
    | succ fuel =>
      rw [List.flatMap_cons, List.append_assoc]
      refine (@reads_readStr format hone (some dependency) fun t ht => ?_).bind ?_
      · cases ht
        exact h dependency List.mem_cons_self
      · exact ih (fun d hd => h d (List.mem_cons_of_mem dependency hd))
          (Nat.lt_of_succ_lt_succ hfuel)

/-- Each dependency takes a byte. -/
private theorem length_dependencies (size : Nat) (dependencies : List Bytes) :
    dependencies.length
      ≤ (dependencies.flatMap fun dependency => writeStr size (some dependency)).length := by
  induction dependencies with
  | nil => exact Nat.le_refl 0
  | cons dependency rest ih =>
    rw [List.flatMap_cons, List.length_append, List.length_cons, writeStr, List.length_append,
      length_writeInt]
    omega

/-- What the reader keeps of an entry. -/
def keptEntry (e : DumpEntry) : TocEntry where
  dumpId := e.dumpId
  hadDumper := e.hadDumper
  tag := e.tag.map decode
  desc := e.desc.map decode
  defn := e.defn.map decode
  copyStmt := e.copyStmt.map decode
  namespaceName := e.namespaceName.map decode
  dataState := e.dataState

/-- The end of an entry: the dependencies, the state of the data and its offset. -/
private theorem reads_tail (hone : Fits format.intSize (-1)) {dependencies : List Bytes}
    (h : ∀ dependency ∈ dependencies, Fits format.intSize dependency.length) {state : UInt8}
    {offset : Bytes} (hoffset : offset.length = format.offSize) {entry : UInt8 → TocEntry} :
    Reads (do
        let left ← bytesLeft
        readDependencies format (left + 1)
        let dataState ← readByte
        let _ ← exact format.offSize
        return entry dataState)
      ((dependencies.flatMap fun dependency => writeStr format.intSize (some dependency))
        ++ (writeStr format.intSize none ++ ([state] ++ offset))) (entry state) := by
  refine Reads.bytesLeft fun left hleft => ?_
  have hlength := length_dependencies format.intSize dependencies
  rw [List.length_append] at hleft
  rw [← List.append_assoc]
  refine (reads_readDependencies hone h (by omega)).bind ?_
  exact (reads_readByte state).bind ((reads_exact hoffset).last Reads.pure)

/-- An entry is read in step when the archive is of 1.14 or later, or the entry has a
dependency. -/
private theorem reads_readTocEntry {minor : UInt8} (hformat : format.minor = minor.toNat)
    (hmajor : format.major = 1) (hone : Fits format.intSize (-1)) {e : DumpEntry}
    (h : e.WellFormed format.intSize format.offSize)
    (hstep : 14 ≤ minor ∨ e.dependencies ≠ []) :
    Reads (readTocEntry format) (e.write minor format.intSize) (keptEntry e) := by
  have htext : ∀ {text : Option Bytes}, text ∈ [e.tableOid, e.oid, e.tag, e.desc, e.defn,
      e.dropStmt, e.copyStmt, e.namespaceName, e.tablespace, e.tableam, e.owner, e.withOids] →
      Reads (readStr format) (writeStr format.intSize text) (text.map decode) :=
    fun hmem => reads_readStr hone (h.texts _ hmem)
  have hint : ∀ {n : Int}, n ∈ [e.dumpId, e.hadDumper, e.section_, e.relkind] →
      Reads (readInt format) (writeInt format.intSize n) n := fun hmem =>
    reads_readInt (h.ints _ hmem)
  rw [readTocEntry, DumpEntry.write]
  simp only [List.flatten_cons, List.flatten_nil, List.append_nil]
  refine (hint (by simp)).bind ((hint (by simp)).bind ((htext (by simp)).bind ((htext (by simp)).bind
    ((htext (by simp)).bind ((htext (by simp)).bind ((hint (by simp)).bind ((htext (by simp)).bind
    ((htext (by simp)).bind ((htext (by simp)).bind ((htext (by simp)).bind ((htext (by simp)).bind
      ?_)))))))))))
  have hsixteen : format.atLeast 1 16 = true ↔ 16 ≤ minor := by
    rw [Format.atLeast, hmajor, hformat, UInt8.le_iff_toNat_le]
    simp
  have hfourteen : 16 ≤ minor → 14 ≤ minor := by
    rw [UInt8.le_iff_toNat_le, UInt8.le_iff_toNat_le]
    exact fun hle => Nat.le_trans (by decide) hle
  by_cases htableam : 14 ≤ minor
  · rw [if_pos htableam]
    refine (htext (by simp)).bind ?_
    by_cases hrelkind : 16 ≤ minor
    · rw [if_pos (hsixteen.mpr hrelkind), if_pos hrelkind]
      exact (hint (by simp)).bind ((htext (by simp)).bind ((htext (by simp)).bind
        (reads_tail hone h.dependencies h.offset)))
    · rw [if_neg (mt hsixteen.mp hrelkind), if_neg hrelkind, List.nil_append]
      exact (htext (by simp)).bind ((htext (by simp)).bind
        (reads_tail hone h.dependencies h.offset))
  · -- the owner is read for the access method, and the first dependency for the last text
    obtain ⟨dependency, rest, hdependencies⟩ :=
      List.exists_cons_of_ne_nil (hstep.resolve_left htableam)
    have hdependency := h.dependencies
    rw [hdependencies] at hdependency
    have hrelkind : ¬16 ≤ minor := mt hfourteen htableam
    rw [if_neg htableam, List.nil_append, if_neg hrelkind, List.nil_append, hdependencies,
      List.flatMap_cons, List.append_assoc]
    refine (htext (by simp)).bind ?_
    rw [if_neg (mt hsixteen.mp hrelkind)]
    refine (htext (by simp)).bind ((@reads_readStr format hone (some dependency) ?_).bind
      (reads_tail hone (fun d hd => hdependency d (List.mem_cons_of_mem dependency hd)) h.offset))
    intro t ht
    cases ht
    exact hdependency dependency List.mem_cons_self

/-- The entries one after the other. -/
private theorem reads_readEntries {minor : UInt8} (hformat : format.minor = minor.toNat)
    (hmajor : format.major = 1) (hone : Fits format.intSize (-1)) {toc : List DumpEntry}
    (h : ∀ e ∈ toc, e.WellFormed format.intSize format.offSize)
    (hstep : ∀ e ∈ toc, 14 ≤ minor ∨ e.dependencies ≠ []) :
    Reads (readEntries format toc.length) (toc.flatMap (DumpEntry.write minor format.intSize))
      (toc.map keptEntry) := by
  induction toc with
  | nil => exact Reads.pure
  | cons e rest ih =>
    rw [List.flatMap_cons, List.map_cons]
    refine (reads_readTocEntry hformat hmajor hone (h e List.mem_cons_self)
      (hstep e List.mem_cons_self)).bind ?_
    exact (ih (fun e he => h e (List.mem_cons_of_mem _ he))
      fun e he => hstep e (List.mem_cons_of_mem _ he)).last Reads.pure

/-! ## The header -/

/-- Integers that are not kept. -/
private theorem reads_skipInts {ints : List Int} (h : ∀ n ∈ ints, Fits format.intSize n) :
    Reads (skipInts format ints.length) (ints.flatMap (writeInt format.intSize)) () := by
  induction ints with
  | nil => exact Reads.pure
  | cons n rest ih =>
    rw [List.flatMap_cons]
    exact (reads_readInt (h n List.mem_cons_self)).bind
      (ih fun m hm => h m (List.mem_cons_of_mem n hm))

end

/-- The reader's name for an algorithm. -/
def compressionName : Compression → String
  | .none => "none"
  | .gzip => "gzip"
  | .lz4 => "lz4"
  | .zstd => "zstd"

section
variable {d : Dump}

/-- The format of a dump. -/
def dumpFormat (d : Dump) : Format := ⟨1, d.minor.toNat, d.intSize.toNat, d.offSize.toNat⟩

/-- What the reader keeps of a dump. -/
def keptArchive (d : Dump) : CustomArchive where
  format := dumpFormat d
  compression := compressionName d.compression
  database := d.database.map decode
  serverVersion := d.serverVersion.map decode
  dumpVersion := d.dumpVersion.map decode
  toc := d.toc.map keptEntry

/-- The dump is of a version or with dependencies that the reader keeps in step with, and it is
not compressed or with gzip. -/
structure InStep (d : Dump) : Prop where
  entries : 14 ≤ d.minor ∨ ∀ e ∈ d.toc, e.dependencies ≠ []
  compression : d.compression = .none ∨ d.compression = .gzip

/-- The version is at least a minor one. -/
private theorem atLeast_iff {minor : Nat} :
    (dumpFormat d).atLeast 1 minor = true ↔ minor ≤ d.minor.toNat := by
  rw [Format.atLeast, dumpFormat]
  simp only [Nat.lt_irrefl, decide_false, Bool.false_or, beq_self_eq_true, Bool.true_and,
    decide_eq_true_eq]

/-- The compression, as a code or as a level. -/
private theorem reads_readCompression (h : d.WellFormed) :
    Reads (readCompression (dumpFormat d))
      (if 15 ≤ d.minor then [d.compression.code] else writeInt d.intSize.toNat d.level)
      (compressionName d.compression) := by
  have hfifteen : (dumpFormat d).atLeast 1 15 = true ↔ 15 ≤ d.minor := by
    rw [atLeast_iff, UInt8.le_iff_toNat_le]
    rfl
  rw [readCompression]
  by_cases hcode : 15 ≤ d.minor
  · rw [if_pos hcode, if_pos (hfifteen.mpr hcode)]
    refine (reads_readByte d.compression.code).last ?_
    cases d.compression <;> exact Reads.pure
  · rw [if_neg hcode, if_neg (mt hfifteen.mp hcode)]
    obtain ⟨hfits, hlevel⟩ := h.level (UInt8.not_le.mp hcode)
    refine (@reads_readInt (dumpFormat d) d.level hfits).last ?_
    rcases hlevel with ⟨hnone, hzero⟩ | ⟨hgzip, hpositive⟩
    · rw [hnone, if_pos hzero]
      exact Reads.pure
    · rw [hgzip, if_neg hpositive]
      exact Reads.pure

/-- The blocks of a dump. -/
def blockBytes (d : Dump) : Bytes := d.blocks.flatMap (DumpBlock.write d.intSize.toNat)

/-- The bytes before the blocks. -/
def headBytes (d : Dump) : Bytes :=
  [MAGIC, [1], [d.minor], [d.revision], [d.intSize], [d.offSize], [FORMAT_CUSTOM],
    if 15 ≤ d.minor then [d.compression.code] else writeInt d.intSize.toNat d.level,
    d.created.flatMap (writeInt d.intSize.toNat),
    writeStr d.intSize.toNat d.database, writeStr d.intSize.toNat d.serverVersion,
    writeStr d.intSize.toNat d.dumpVersion,
    writeInt d.intSize.toNat d.toc.length,
    d.toc.flatMap (DumpEntry.write d.minor d.intSize.toNat)].flatten

private theorem write_eq : d.write = headBytes d ++ blockBytes d := by
  simp only [Dump.write, headBytes, blockBytes, MAGIC, FORMAT_CUSTOM, List.flatten_cons,
    List.flatten_nil, List.append_nil, List.append_assoc]

/-- The header and the table of contents of a dump that is read in step. -/
private theorem reads_openArchive (h : d.WellFormed) (hstep : InStep d) :
    Reads openArchive (headBytes d) (keptArchive d) := by
  have htext : ∀ {text : Option Bytes}, text ∈ [d.database, d.serverVersion, d.dumpVersion] →
      Reads (readStr (dumpFormat d)) (writeStr d.intSize.toNat text) (text.map decode) :=
    fun hmem => @reads_readStr (dumpFormat d) h.intSize _ (h.texts _ hmem)
  have hversion : (!(dumpFormat d).atLeast 1 12 || (dumpFormat d).atLeast 1 17) = false := by
    have h12 : 12 ≤ d.minor.toNat := UInt8.le_iff_toNat_le.mp h.version.1
    have h16 : d.minor.toNat ≤ 16 := UInt8.le_iff_toNat_le.mp h.version.2
    have h17 : (dumpFormat d).atLeast 1 17 = false := by
      rw [← Bool.not_eq_true, atLeast_iff]
      omega
    rw [atLeast_iff.mpr h12, h17]
    rfl
  have hcompression : ¬(compressionName d.compression ≠ "none"
      ∧ compressionName d.compression ≠ "gzip") := by
    rcases hstep.compression with hnone | hgzip
    · rw [hnone]
      decide
    · rw [hgzip]
      decide
  have hints := @reads_skipInts (dumpFormat d) d.created h.created.2
  rw [h.created.1] at hints
  have hcount := @reads_readInt (dumpFormat d) d.toc.length h.count
  have htoc := @reads_readEntries (dumpFormat d) d.minor rfl rfl h.intSize d.toc h.toc
    fun e he => hstep.entries.imp_right fun hdependencies => hdependencies e he
  rw [openArchive, headBytes]
  simp only [List.flatten_cons, List.flatten_nil, List.append_nil]
  refine (reads_exact (by rfl)).bind ?_
  refine Reads.ite_neg (not_not_intro rfl) ?_
  refine (reads_readByte 1).bind ((reads_readByte d.minor).bind ((reads_readByte d.revision).bind ?_))
  refine Reads.ite_neg (fun hbad => Bool.false_ne_true (hversion.symm.trans hbad)) ?_
  refine (reads_readByte d.intSize).bind ((reads_readByte d.offSize).bind
    ((reads_readByte FORMAT_CUSTOM).bind ?_))
  refine Reads.ite_neg (not_not_intro rfl) ?_
  refine (reads_readCompression h).bind ?_
  refine Reads.ite_neg hcompression ?_
  exact hints.bind ((htext (by simp)).bind ((htext (by simp)).bind ((htext (by simp)).bind
    (hcount.bind (htoc.last Reads.pure)))))

end

/-! ## Blocks -/

section
variable {format : Format}

/-- There is room for the number 0. -/
private theorem fits_zero {size : Nat} : Fits size 0 := Nat.pow_pos (by decide)

/-- A chunk with its length. -/
private theorem reads_chunk {chunk : Bytes} (hne : chunk ≠ [])
    (h : Fits format.intSize chunk.length) :
    Reads (nextChunk format) (writeInt format.intSize chunk.length ++ chunk) (some chunk) := by
  have hpos := List.length_pos_of_ne_nil hne
  refine (reads_readInt h).bind ?_
  refine Reads.ite_neg (by omega) ?_
  exact (reads_exact (by rw [Int.toNat_natCast])).last Reads.pure

/-- The end of the chunks. -/
private theorem reads_lastChunk :
    Reads (nextChunk format) (writeInt format.intSize 0) none :=
  (reads_readInt fits_zero).last Reads.pure

/-- The chunks of a block, to its end. -/
private theorem reads_skipChunks {chunks : List Bytes} (h : ChunksFit format.intSize chunks)
    {fuel : Nat} (hfuel : chunks.length < fuel) :
    Reads (skipChunks format fuel) (writeChunks format.intSize chunks) () := by
  rw [writeChunks]
  induction chunks generalizing fuel with
  | nil =>
    cases fuel with
    | zero => cases hfuel
    | succ fuel => exact reads_lastChunk.last Reads.pure
  | cons chunk rest ih =>
    cases fuel with
    | zero => cases hfuel
    | succ fuel =>
      obtain ⟨hne, hfits⟩ := h chunk List.mem_cons_self
      rw [List.flatMap_cons, List.append_assoc]
      exact (reads_chunk hne hfits).bind
        (ih (fun c hc => h c (List.mem_cons_of_mem chunk hc)) (Nat.lt_of_succ_lt_succ hfuel))

/-- Each part takes a byte. -/
private theorem length_le_flatMap {α : Type} (write : α → Bytes) (h : ∀ a, 1 ≤ (write a).length)
    (parts : List α) : parts.length ≤ (parts.flatMap write).length := by
  induction parts with
  | nil => exact Nat.le_refl 0
  | cons part rest ih =>
    have hpart := h part
    rw [List.flatMap_cons, List.length_append, List.length_cons]
    omega

/-- Chunks take more bytes than they are. -/
private theorem length_writeChunks (size : Nat) (chunks : List Bytes) :
    chunks.length ≤ (writeChunks size chunks).length := by
  have h := length_le_flatMap (fun chunk : Bytes => writeInt size chunk.length ++ chunk)
    (fun chunk => by rw [List.length_append, length_writeInt]; omega) chunks
  rw [writeChunks, List.length_append]
  omega

/-- The large objects of a block, to its end. -/
private theorem reads_skipObjects {objects : List (Int × List Bytes)}
    (h : ∀ object ∈ objects, object.1 ≠ 0 ∧ Fits format.intSize object.1
      ∧ ChunksFit format.intSize object.2) {fuel : Nat} (hfuel : objects.length < fuel) :
    Reads (skipObjects format fuel)
      ((objects.flatMap fun object => writeInt format.intSize object.1
        ++ writeChunks format.intSize object.2) ++ writeInt format.intSize 0) () := by
  induction objects generalizing fuel with
  | nil =>
    cases fuel with
    | zero => cases hfuel
    | succ fuel =>
      refine (reads_readInt fits_zero).last ?_
      rw [if_neg (not_not_intro rfl)]
      exact Reads.pure
  | cons object rest ih =>
    cases fuel with
    | zero => cases hfuel
    | succ fuel =>
      obtain ⟨hne, hfits, hchunks⟩ := h object List.mem_cons_self
      rw [List.flatMap_cons, List.append_assoc, List.append_assoc]
      refine (reads_readInt hfits).bind ?_
      rw [if_pos hne]
      refine Reads.bytesLeft fun left hleft => ?_
      have hlength := length_writeChunks format.intSize object.2
      rw [List.length_append] at hleft
      exact (reads_skipChunks hchunks (by omega)).bind
        (ih (fun o ho => h o (List.mem_cons_of_mem object ho)) (Nat.lt_of_succ_lt_succ hfuel))

/-- The blocks before the one with the id are skipped. -/
private theorem reads_seekData {dumpId : Int} (hid : Fits format.intSize dumpId)
    {before : List DumpBlock} (h : ∀ b ∈ before, b.WellFormed format.intSize)
    (hother : ∀ b ∈ before, b.dumpId ≠ dumpId) {fuel : Nat} (hfuel : before.length < fuel) :
    Reads (seekData format dumpId fuel)
      (before.flatMap (DumpBlock.write format.intSize) ++ (1 :: writeInt format.intSize dumpId))
      () := by
  induction before generalizing fuel with
  | nil =>
    cases fuel with
    | zero => cases hfuel
    | succ fuel =>
      refine (reads_read [BLK_DATA]).bind ?_
      refine Reads.ite_neg (by decide) ?_
      refine (reads_readInt hid).last ?_
      rw [if_pos ⟨rfl, rfl⟩]
      exact Reads.pure
  | cons block rest ih =>
    cases fuel with
    | zero => cases hfuel
    | succ fuel =>
      have hrest := ih (fun b hb => h b (List.mem_cons_of_mem block hb))
        (fun b hb => hother b (List.mem_cons_of_mem block hb)) (Nat.lt_of_succ_lt_succ hfuel)
      have hblock := h block List.mem_cons_self
      have hne := hother block List.mem_cons_self
      rw [List.flatMap_cons, List.append_assoc]
      cases block with
      | data blockId chunks =>
        rw [show ∀ tail, DumpBlock.write format.intSize (.data blockId chunks) ++ tail
          = [BLK_DATA] ++ (writeInt format.intSize blockId
            ++ (writeChunks format.intSize chunks ++ tail)) from fun tail => by
          simp [DumpBlock.write, BLK_DATA]]
        refine (reads_read [BLK_DATA]).bind ?_
        refine Reads.ite_neg (by decide) ?_
        refine (reads_readInt hblock.1).bind ?_
        refine Reads.ite_neg (fun hsame => hne hsame.2) ?_
        refine Reads.bytesLeft fun left hleft => ?_
        have hlength := length_writeChunks format.intSize chunks
        rw [List.length_append] at hleft
        refine Reads.ite_neg (by decide) ?_
        exact (reads_skipChunks hblock.2 (by omega)).bind hrest
      | blobs blockId objects =>
        rw [show ∀ tail, DumpBlock.write format.intSize (.blobs blockId objects) ++ tail
          = [BLK_BLOBS] ++ (writeInt format.intSize blockId
            ++ (((objects.flatMap fun object => writeInt format.intSize object.1
              ++ writeChunks format.intSize object.2) ++ writeInt format.intSize 0) ++ tail)) from
          fun tail => by simp [DumpBlock.write, BLK_BLOBS]]
        refine (reads_read [BLK_BLOBS]).bind ?_
        refine Reads.ite_neg (by decide) ?_
        refine (reads_readInt hblock.1).bind ?_
        refine Reads.ite_neg (fun hsame => absurd hsame.1 (by decide)) ?_
        refine Reads.bytesLeft fun left hleft => ?_
        have hlength := length_le_flatMap (fun object : Int × List Bytes =>
          writeInt format.intSize object.1 ++ writeChunks format.intSize object.2)
          (fun object => by rw [List.length_append, length_writeInt]; omega) objects
        rw [List.length_append, List.length_append] at hleft
        rw [if_pos rfl]
        exact (reads_skipObjects hblock.2 (by omega)).bind hrest

end

/-! ## Names -/

/-- The character of a number from 0x80 on is not ASCII. -/
private theorem le_val_ofNat {n : Nat} (h : 0x80 ≤ n) : 0x80 ≤ (CodePoint.ofNat n).val := by
  by_cases hlt : n < 0x110000
  · rw [CodePoint.val_ofNat hlt]
    exact h
  · rw [CodePoint.ofNat, dif_neg hlt]
    decide

/-- A byte below 0x80 is the only way to an ASCII character. -/
private theorem decode_cons {bytes : Bytes} {c : CodePoint} {text : Str} (hc : c.val < 0x80)
    (h : decode bytes = c :: text) :
    ∃ a rest, bytes = a :: rest ∧ a.toNat = c.val ∧ decode rest = text := by
  cases bytes with
  | nil => cases h
  | cons a rest =>
    by_cases ha : a.toNat < 0x80
    · rw [decode.eq_def] at h
      simp only [ha, if_true] at h
      obtain ⟨hhead, htail⟩ := List.cons.inj h
      refine ⟨a, rest, rfl, ?_, htail⟩
      rw [← hhead, CodePoint.val_ofNat (by omega)]
    · exfalso
      -- every other byte leads to U+FFFD or to a number from 0x80 on
      have hbig : ∀ {n : Nat} {t : Str}, 0x80 ≤ n → CodePoint.ofNat n :: t ≠ c :: text := by
        intro n t hn heq
        have := le_val_ofNat hn
        rw [(List.cons.inj heq).1] at this
        omega
      have hreplaced : ∀ {t : Str}, CodePoint.replacement :: t ≠ c :: text := by
        intro t heq
        rw [← (List.cons.inj heq).1] at hc
        exact absurd hc (by decide)
      rw [decode.eq_def] at h
      simp only [ha, if_false] at h
      split_ifs at h
      · exact hreplaced h
      · split at h
        · exact hreplaced h
        · split_ifs at h
          · exact hbig (by omega) h
          · exact hreplaced h
      · split at h
        · exact hreplaced h
        · split_ifs at h with hb
          · split at h
            · exact hreplaced h
            · split_ifs at h
              · refine hbig ?_ h
                simp only [isSecond, isTail, Bool.and_eq_true, decide_eq_true_eq] at hb
                obtain ⟨_, hb⟩ := hb
                split_ifs at hb <;> simp only [decide_eq_true_eq] at hb <;> omega
              · exact hreplaced h
          · exact hreplaced h
      · split at h
        · exact hreplaced h
        · split_ifs at h with hb
          · split at h
            · exact hreplaced h
            · split_ifs at h
              · split at h
                · exact hreplaced h
                · split_ifs at h
                  · refine hbig ?_ h
                    simp only [isSecond, isTail, Bool.and_eq_true, decide_eq_true_eq] at hb
                    obtain ⟨_, hb⟩ := hb
                    split_ifs at hb <;> simp only [decide_eq_true_eq] at hb <;> omega
                  · exact hreplaced h
              · exact hreplaced h
          · exact hreplaced h
      · exact hreplaced h

/-- The bytes of an ASCII name. -/
def asciiBytes (name : Str) : Bytes := name.map fun c => UInt8.ofNat c.val

/-- Only the bytes of an ASCII name are read as the name. -/
private theorem decode_eq_iff {bytes : Bytes} {name : Str} (hname : ∀ c ∈ name, c.val < 0x80) :
    decode bytes = name ↔ bytes = asciiBytes name := by
  induction name generalizing bytes with
  | nil =>
    constructor
    · intro h
      cases bytes with
      | nil => rfl
      | cons a rest =>
        exfalso
        rw [decode.eq_def] at h
        simp only at h
        repeat' split at h
        all_goals cases h
    · rintro rfl
      rfl
  | cons c text ih =>
    have hc := hname c List.mem_cons_self
    have htext := fun d hd => hname d (List.mem_cons_of_mem c hd)
    have hbyte : (UInt8.ofNat c.val).toNat = c.val :=
      UInt8.toNat_ofNat_of_lt' (Nat.lt_of_lt_of_le hc (by decide))
    constructor
    · intro h
      obtain ⟨a, rest, rfl, ha, hrest⟩ := decode_cons hc h
      rw [(ih htext).mp hrest]
      show a :: _ = UInt8.ofNat c.val :: _
      rw [← ha, UInt8.ofNat_toNat]
      rfl
    · rintro rfl
      show decode (UInt8.ofNat c.val :: asciiBytes text) = c :: text
      rw [decode.eq_def]
      simp only [hbyte, hc, if_true]
      rw [CodePoint.ofNat_val, (ih htext).mpr rfl]

/-- The reader finds the entries that the dump has. -/
private theorem findEntry_keptArchive {d : Dump} {desc namespaceName tag : Str}
    (hdesc : ∀ c ∈ desc, c.val < 0x80) (hnamespace : ∀ c ∈ namespaceName, c.val < 0x80)
    (htag : ∀ c ∈ tag, c.val < 0x80) :
    findEntry (keptArchive d) desc namespaceName tag
      = (d.entry (asciiBytes desc) (asciiBytes namespaceName) (asciiBytes tag)).map keptEntry := by
  have hsome : ∀ {name : Str} (text : Option Bytes), (∀ c ∈ name, c.val < 0x80) →
      (text.map decode = some name ↔ text = some (asciiBytes name)) := by
    intro name text hname
    cases text with
    | none => simp
    | some bytes => rw [Option.map_some, Option.some_inj, Option.some_inj, decode_eq_iff hname]
  rw [findEntry, keptArchive, Dump.entry, List.find?_map]
  congr 1
  refine congrArg (List.find? · d.toc) (funext fun e => ?_)
  simp only [Function.comp_apply, keptEntry, hsome _ hdesc, hsome _ hnamespace, hsome _ htag]

/-! ## The stream -/

section
variable {zlib : Zlib} {format : Format}

/-- What `zlib` gives out for chunks and at the end. -/
def outputs (zlib : Zlib) : zlib.State → List Bytes → Option Bytes
  | state, [] => some (zlib.flush state)
  | state, chunk :: rest => (zlib.decompress state chunk).bind fun (data, state) =>
    (outputs zlib state rest).map fun tail => data ++ tail

/-- What `zlib` documents: a compressed text that comes in any chunks is given out in full, and an
object that has been given nothing has nothing left. -/
structure ZlibDocumented (zlib : Zlib) (compressed : Compression → Bytes → Bytes → Prop) :
    Prop where
  inflates : ∀ data chunks, compressed .gzip data chunks.flatten → (∀ c ∈ chunks, c ≠ []) →
    outputs zlib zlib.start chunks = some data
  empty : zlib.flush zlib.start = []

/-- The chunks of a block have the data of a table, compressed as the dump says. An empty table has
no chunk. -/
def BlockData (compressed : Compression → Bytes → Bytes → Prop) (compression : Compression)
    (chunks : List Bytes) (data : Bytes) : Prop :=
  match compression with
  | .none => chunks.flatten = data
  | algorithm => (chunks = [] ∧ data = []) ∨ compressed algorithm data chunks.flatten

/-- What the chunks that are left give out. -/
private def Gives (zlib : Zlib) (inflate : Option zlib.State) (chunks : List Bytes) (tail : Bytes) :
    Prop :=
  match inflate with
  | none => chunks.flatten = tail
  | some state => outputs zlib state chunks = some tail

/-- The reader has hashed all of the file that it has passed. -/
private def Hashes (file : Bytes) (r : HashingReader) : Prop :=
  r.hashed ++ r.rest = file ∧ r.size = r.hashed.length

/-- A stream that still has to give out this data. -/
private structure Streams (format : Format) (file : Bytes) (s : DecompressedStream zlib)
    (data : Bytes) : Prop where
  hashes : Hashes file s.reader
  left : (s.done = true ∧ s.buffer = data)
    ∨ (s.done = false ∧ ∃ chunks after tail, ChunksFit format.intSize chunks
      ∧ s.reader.rest = writeChunks format.intSize chunks ++ after
      ∧ Gives zlib s.inflate chunks tail ∧ s.buffer ++ tail = data)

/-- A step that takes bytes hashes them. -/
private theorem Reads.hashes {α : Type} {p : Read α} {bytes rest file : Bytes} {a : α}
    {r : HashingReader} (h : Reads p bytes a) (hrest : r.rest = bytes ++ rest)
    (hfile : Hashes file r) : ∃ r', p r = .ok (a, r') ∧ r'.rest = rest ∧ Hashes file r' := by
  refine ⟨_, h r rest hrest, rfl, ?_, ?_⟩
  · rw [List.append_assoc, ← hrest]
    exact hfile.1
  · rw [List.length_append, hfile.2]

/-- The loop of `read` gives nothing away, and ends with as many bytes as it was asked for or at the
end of the data. -/
private theorem fill_streams {file data : Bytes} (size : Option Nat) {s : DecompressedStream zlib}
    (h : Streams format file s data) {fuel : Nat} (hfuel : s.reader.rest.length + 1 < fuel) :
    ∃ s', s.fill format size fuel = .ok s' ∧ Streams format file s' data
      ∧ (s'.done = true ∨ ∃ count, size = some count ∧ count ≤ s'.buffer.length) := by
  induction fuel generalizing s with
  | zero => cases hfuel
  | succ fuel ih =>
    rw [DecompressedStream.fill]
    by_cases hstop : (s.done || size.any fun count => count ≤ s.buffer.length) = true
    · rw [if_pos hstop]
      refine ⟨s, rfl, h, ?_⟩
      rw [Bool.or_eq_true, Option.any_eq_true] at hstop
      refine hstop.imp_right ?_
      rintro ⟨count, hcount, hle⟩
      exact ⟨count, hcount, of_decide_eq_true hle⟩
    · rw [if_neg hstop]
      have hopen : s.done ≠ true := fun hdone => hstop (by rw [hdone]; rfl)
      obtain ⟨_, chunks, after, tail, hchunks, hrest, hgives, hdata⟩ :=
        h.left.resolve_left fun hdone => hopen hdone.1
      cases chunks with
      | nil =>
        -- the end of the block: what zlib still holds is the rest of the data
        obtain ⟨r, hread, _, hhashes⟩ := reads_lastChunk.hashes hrest h.hashes
        rw [hread]
        cases hinflate : s.inflate with
        | none =>
          rw [hinflate] at hgives
          have htail : tail = [] := hgives.symm
          refine ⟨_, rfl, ⟨hhashes, .inl ⟨rfl, ?_⟩⟩, .inl rfl⟩
          rw [htail, List.append_nil] at hdata
          exact hdata
        | some state =>
          rw [hinflate] at hgives
          have htail : zlib.flush state = tail := Option.some.inj hgives
          exact ⟨_, rfl, ⟨hhashes, .inl ⟨rfl, htail ▸ hdata⟩⟩, .inl rfl⟩
      | cons chunk rest =>
        obtain ⟨hne, hfits⟩ := hchunks chunk List.mem_cons_self
        have hchunksRest : ChunksFit format.intSize rest := fun c hc =>
          hchunks c (List.mem_cons_of_mem chunk hc)
        have hbytes : s.reader.rest = (writeInt format.intSize chunk.length ++ chunk)
            ++ (writeChunks format.intSize rest ++ after) := by
          rw [hrest]
          simp [writeChunks]
        obtain ⟨r, hread, hrestReader, hhashes⟩ := (reads_chunk hne hfits).hashes hbytes h.hashes
        have hlength : r.rest.length + 1 < fuel := by
          have hpos := List.length_pos_of_ne_nil hne
          rw [hbytes, List.length_append, List.length_append, ← hrestReader] at hfuel
          omega
        rw [hread]
        cases hinflate : s.inflate with
        | none =>
          rw [hinflate] at hgives
          refine @ih { s with reader := r, inflate := none, buffer := s.buffer ++ chunk }
            ⟨hhashes, .inr ⟨Bool.eq_false_iff.mpr hopen, rest, after, rest.flatten, hchunksRest,
              hrestReader, rfl, ?_⟩⟩ hlength
          rw [List.append_assoc, ← List.flatten_cons, show (chunk :: rest).flatten = tail from hgives]
          exact hdata
        | some state =>
          rw [hinflate] at hgives
          obtain ⟨⟨out, next⟩, hout, hgives⟩ := Option.bind_eq_some_iff.mp hgives
          obtain ⟨tail', hgives, htail⟩ := Option.map_eq_some_iff.mp hgives
          simp only [bind, Except.bind, hout]
          refine @ih { s with reader := r, inflate := some next, buffer := s.buffer ++ out }
            ⟨hhashes, .inr ⟨Bool.eq_false_iff.mpr hopen, rest, after, tail', hchunksRest,
              hrestReader, hgives, ?_⟩⟩ hlength
          rw [List.append_assoc, htail]
          exact hdata

/-- What a sequence of reads gives: a negative size takes all that is left. -/
def slices (data : Bytes) : List Int → List Bytes
  | [] => []
  | size :: sizes =>
    let count := if size < 0 then data.length else size.toNat
    data.take count :: slices (data.drop count) sizes

/-- One read. -/
private theorem read_streams {file data : Bytes} {s : DecompressedStream zlib}
    (h : Streams format file s data) (size : Int) :
    let count := if size < 0 then data.length else size.toNat
    ∃ s', s.read format size = .ok (data.take count, s')
      ∧ Streams format file s' (data.drop count) := by
  intro count
  obtain ⟨s', hfill, hs', hend⟩ := fill_streams (if size < 0 then none else some size.toNat) h
    (Nat.lt_succ_self (s.reader.rest.length + 1))
  rw [DecompressedStream.read]
  simp only [hfill, bind, Except.bind]
  by_cases hneg : size < 0
  · -- the whole rest of the data
    have hcount : count = data.length := if_pos hneg
    rw [if_pos hneg] at hend ⊢
    have hdone : s'.done = true := hend.resolve_right fun ⟨_, hnone, _⟩ => by cases hnone
    have hbuffer : s'.buffer = data := by
      rcases hs'.left with ⟨_, hbuffer⟩ | ⟨hopen, _⟩
      · exact hbuffer
      · rw [hdone] at hopen
        cases hopen
    rw [hcount, List.take_length, List.drop_length]
    refine ⟨{ s' with buffer := [] }, ?_, hs'.hashes, .inl ⟨hdone, rfl⟩⟩
    show Except.ok (s'.buffer, { s' with buffer := [] }) = _
    rw [hbuffer]
  · have hcount : count = size.toNat := if_neg hneg
    rw [if_neg hneg] at hend ⊢
    rw [hcount]
    refine ⟨{ s' with buffer := s'.buffer.drop size.toNat }, ?_, hs'.hashes, ?_⟩
    · show Except.ok (s'.buffer.take size.toNat, { s' with buffer := s'.buffer.drop size.toNat }) = _
      congr 2
      rcases hs'.left with ⟨_, hbuffer⟩ | ⟨hopen, _, _, tail, _, _, _, hdata⟩
      · rw [hbuffer]
      · obtain ⟨_, hsome, hle⟩ := hend.resolve_left (by rw [hopen]; exact Bool.false_ne_true)
        cases hsome
        rw [← hdata, List.take_append_of_le_length hle]
    · rcases hs'.left with ⟨hdone, hbuffer⟩ | ⟨hopen, chunks, after, tail, hfit, hrest, hgives, hdata⟩
      · exact .inl ⟨hdone, by rw [hbuffer]⟩
      · obtain ⟨_, hsome, hle⟩ := hend.resolve_left (by rw [hopen]; exact Bool.false_ne_true)
        cases hsome
        refine .inr ⟨hopen, chunks, after, tail, hfit, hrest, hgives, ?_⟩
        rw [← hdata, List.drop_append_of_le_length hle]

/-- Reads of any sizes. -/
private theorem reads_streams {file data : Bytes} {s : DecompressedStream zlib}
    (h : Streams format file s data) (sizes : List Int) :
    ∃ s', s.reads format sizes = .ok (slices data sizes, s') ∧ Hashes file s'.reader := by
  induction sizes generalizing s data with
  | nil => exact ⟨s, rfl, h.hashes⟩
  | cons size sizes ih =>
    obtain ⟨s₁, hread, h₁⟩ := read_streams h size
    obtain ⟨s₂, hreads, h₂⟩ := ih h₁
    refine ⟨s₂, ?_, h₂⟩
    rw [DecompressedStream.reads]
    simp only [hread, hreads, bind, Except.bind]
    rfl

/-- `finish` hashes the rest of the file. -/
private theorem finish_all {file : Bytes} {fuel : Nat} {r : HashingReader} (h : Hashes file r)
    (hfuel : r.rest.length < fuel) : ∃ r', finish fuel r = .ok ((), r')
      ∧ r'.rest = [] ∧ r'.hashed = file ∧ r'.size = file.length := by
  induction fuel generalizing r with
  | zero => cases hfuel
  | succ fuel ih =>
    obtain ⟨hfile, hsize⟩ := h
    let r₁ : HashingReader := ⟨r.rest.drop READ_CHUNK, r.hashed ++ r.rest.take READ_CHUNK,
      r.size + (r.rest.take READ_CHUNK).length⟩
    have h₁ : Hashes file r₁ := by
      constructor
      · show (r.hashed ++ r.rest.take READ_CHUNK) ++ r.rest.drop READ_CHUNK = file
        rw [List.append_assoc, List.take_append_drop]
        exact hfile
      · show r.size + _ = (r.hashed ++ r.rest.take READ_CHUNK).length
        rw [List.length_append, hsize]
    show ∃ r', (if r.rest.take READ_CHUNK = [] then (pure () : Read Unit) else finish fuel) r₁
      = .ok ((), r') ∧ _
    by_cases hempty : r.rest.take READ_CHUNK = []
    · have hrest : r₁.rest = [] := by
        rcases List.take_eq_nil_iff.mp hempty with hzero | hnil
        · cases hzero
        · show r.rest.drop READ_CHUNK = []
          rw [hnil, List.drop_nil]
      rw [if_pos hempty]
      refine ⟨r₁, rfl, hrest, ?_, ?_⟩
      · rw [← h₁.1, hrest, List.append_nil]
      · rw [h₁.2, ← h₁.1, hrest, List.append_nil]
    · rw [if_neg hempty]
      refine ih h₁ ?_
      have hpos := List.length_pos_of_ne_nil fun hnil : r.rest = [] =>
        hempty (by rw [hnil, List.take_nil])
      show (r.rest.drop READ_CHUNK).length < fuel
      rw [List.length_drop]
      have hchunk : 0 < READ_CHUNK := by decide
      omega

end

/-! ## A whole dump -/

/-- The reader finds the table in the file, its stream gives the contents for these sizes, and the
hash covers the file. -/
def Delivers (zlib : Zlib) (file contents : Bytes) (sizes : List Int) : Prop :=
  ∃ archive r table data s s' r', openArchive (HashingReader.start file) = .ok (archive, r)
    ∧ find archive (str "public") (str "audit_log") = .ok (table, data)
    ∧ dataStream zlib archive data.dumpId r = .ok s
    ∧ s.reads archive.format sizes = .ok (slices contents sizes, s')
    ∧ finish (s'.reader.rest.length + 1) s'.reader = .ok ((), r')
    ∧ r'.rest = [] ∧ r'.hashed = file ∧ r'.size = file.length

/-- The dump has the table `audit_log`, and this is its data. -/
structure HasAuditLog (compressed : Compression → Bytes → Bytes → Prop) (d : Dump)
    (contents : Bytes) : Prop where
  table : d.entry (asciiBytes (str "TABLE")) (asciiBytes (str "public"))
    (asciiBytes (str "audit_log")) ≠ none
  data : ∃ e chunks, d.entry (asciiBytes (str "TABLE DATA")) (asciiBytes (str "public"))
      (asciiBytes (str "audit_log")) = some e
    ∧ DumpBlock.data e.dumpId chunks ∈ d.blocks ∧ BlockData compressed d.compression chunks contents

section
variable {zlib : Zlib} {compressed : Compression → Bytes → Bytes → Prop} {d : Dump}
  {contents : Bytes}

/-- The names the reader looks for are ASCII. -/
private theorem ascii_names : (∀ c ∈ str "TABLE", c.val < 0x80) ∧ (∀ c ∈ str "TABLE DATA", c.val < 0x80)
    ∧ (∀ c ∈ str "public", c.val < 0x80) ∧ ∀ c ∈ str "audit_log", c.val < 0x80 := by
  decide

/-- What a new stream has to give out, for a dump that is not compressed or with gzip. -/
private theorem gives_start (hzlib : ZlibDocumented zlib compressed) {compression : Compression}
    (hknown : compression = .none ∨ compression = .gzip) {size : Nat} {chunks : List Bytes}
    (hchunks : ChunksFit size chunks) (h : BlockData compressed compression chunks contents) :
    Gives zlib (if compressionName compression = "gzip" then some zlib.start else none) chunks
      contents := by
  rcases hknown with rfl | rfl
  · exact h
  · rcases h with ⟨rfl, rfl⟩ | hcompressed
    · show some (zlib.flush zlib.start) = some []
      rw [hzlib.empty]
    · exact hzlib.inflates contents chunks hcompressed fun c hc => (hchunks c hc).1

/-- A dump that is read in step gives the data of `audit_log`, whatever the order of its blocks, the
chunks of a block and the sizes of the reads, and the hash covers every byte of it. -/
theorem streams_auditLog (hzlib : ZlibDocumented zlib compressed) (h : d.WellFormed)
    (hstep : InStep d) (hlog : HasAuditLog compressed d contents) (sizes : List Int) :
    Delivers zlib d.write contents sizes := by
  obtain ⟨hascii, hasciiData, hasciiPublic, hasciiLog⟩ := ascii_names
  obtain ⟨e, chunks, hentry, hblock, hcontents⟩ := hlog.data
  obtain ⟨table, htable⟩ := Option.ne_none_iff_exists'.mp hlog.table
  -- the header and the table of contents
  obtain ⟨r, hopen, hrest, hhashes⟩ := @Reads.hashes _ _ _ (blockBytes d) d.write _
    (HashingReader.start d.write) (reads_openArchive h hstep) write_eq ⟨rfl, rfl⟩
  have hfind : find (keptArchive d) (str "public") (str "audit_log")
      = .ok (keptEntry table, keptEntry e) := by
    rw [find, findEntry_keptArchive hascii hasciiPublic hasciiLog, htable,
      findEntry_keptArchive hasciiData hasciiPublic hasciiLog, hentry]
    rfl
  -- the blocks before the one of the table
  obtain ⟨before, after, hblocks⟩ := List.append_of_mem hblock
  obtain ⟨hid, hfit⟩ : Fits d.intSize.toNat e.dumpId ∧ ChunksFit d.intSize.toNat chunks :=
    h.blocks _ hblock
  have hother : ∀ b ∈ before, b.dumpId ≠ e.dumpId := by
    have hids := h.ids
    rw [hblocks, List.map_append, List.map_cons] at hids
    intro b hb hsame
    refine (List.nodup_append.mp hids).2.2 b.dumpId (List.mem_map_of_mem hb) e.dumpId ?_ hsame
    exact List.mem_cons_self
  have hbytes : r.rest = (before.flatMap (DumpBlock.write d.intSize.toNat)
      ++ (1 :: writeInt d.intSize.toNat e.dumpId))
      ++ (writeChunks d.intSize.toNat chunks
        ++ after.flatMap (DumpBlock.write d.intSize.toNat)) := by
    rw [hrest, blockBytes, hblocks, List.flatMap_append, List.flatMap_cons, DumpBlock.write]
    simp
  have hfuel : before.length < r.rest.length + 1 := by
    have hlength := length_le_flatMap (DumpBlock.write d.intSize.toNat)
      (fun b => by cases b <;> exact Nat.le_add_left 1 _) before
    rw [hbytes, List.length_append, List.length_append]
    omega
  obtain ⟨r₂, hseek, hrest₂, hhashes₂⟩ := (@reads_seekData (dumpFormat d) e.dumpId hid before
    (fun b hb => h.blocks b (by rw [hblocks]; exact List.mem_append_left _ hb)) hother _
    hfuel).hashes hbytes hhashes
  -- the stream
  let s : DecompressedStream zlib := ⟨r₂,
    if (keptArchive d).compression = "gzip" then some zlib.start else none, [], false⟩
  have hstream : dataStream zlib (keptArchive d) (keptEntry e).dumpId r = .ok s := by
    have hseek' : seekData (keptArchive d).format (keptEntry e).dumpId (r.rest.length + 1) r
        = .ok ((), r₂) := hseek
    rw [dataStream, hseek']
    rfl
  have hs : Streams (dumpFormat d) d.write s contents := ⟨hhashes₂, .inr ⟨rfl, chunks, _, contents,
    hfit, hrest₂, gives_start hzlib hstep.compression hfit hcontents, rfl⟩⟩
  obtain ⟨s', hreads, hhashes'⟩ := reads_streams hs sizes
  obtain ⟨r', hfinish, hr'⟩ := finish_all hhashes' (Nat.lt_succ_self s'.reader.rest.length)
  exact ⟨keptArchive d, r, keptEntry table, keptEntry e, s, s', r', hopen, hfind, hstream, hreads,
    hfinish, hr'⟩

end

/-! ## A dump of 1.13 and a dump of 1.16 -/

/-- An entry of the table `audit_log`. -/
def auditLogEntry (dumpId : Int) (desc : String) (dependencies : List Bytes) : DumpEntry where
  dumpId := dumpId
  hadDumper := 1
  tableOid := some (asciiBytes (str "0"))
  oid := some (asciiBytes (str "0"))
  tag := some (asciiBytes (str "audit_log"))
  desc := some (asciiBytes (str desc))
  section_ := 2
  defn := some []
  dropStmt := some []
  copyStmt := none
  namespaceName := some (asciiBytes (str "public"))
  tablespace := some []
  tableam := some (asciiBytes (str "heap"))
  relkind := 114
  owner := some (asciiBytes (str "portal"))
  withOids := some (asciiBytes (str "false"))
  dependencies := dependencies
  dataState := 1
  offset := [0, 0, 0, 0, 0, 0, 0, 0]

/-- A row of the table. -/
def auditLogRow : Bytes := asciiBytes (str "1\t2\n")

/-- A dump of the table with one row. -/
def auditLogDump (minor : UInt8) (compression : Compression) (chunks : List Bytes) : Dump where
  minor := minor
  revision := 0
  intSize := 4
  offSize := 8
  compression := compression
  level := 0
  created := [0, 0, 12, 1, 0, 126, 0]
  database := some (asciiBytes (str "portal"))
  serverVersion := some (asciiBytes (str "11.2"))
  dumpVersion := some (asciiBytes (str "11.2"))
  toc := [auditLogEntry 1 "TABLE" [], auditLogEntry 2 "TABLE DATA" [asciiBytes (str "1")]]
  blocks := [.data 2 chunks]

/-- It is well formed. -/
private theorem auditLogDump_wellFormed {minor : UInt8} {compression : Compression}
    {chunks : List Bytes} (hversion : 12 ≤ minor ∧ minor ≤ 16)
    (hlevel : minor < 15 → compression = .none) (hchunks : ChunksFit 4 chunks) :
    (auditLogDump minor compression chunks).WellFormed where
  version := hversion
  intSize := show Fits 4 (-1) by decide
  level := fun hminor => ⟨show Fits 4 0 by decide, .inl ⟨hlevel hminor, rfl⟩⟩
  created := ⟨rfl, show ∀ n ∈ ([0, 0, 12, 1, 0, 126, 0] : List Int), Fits 4 n by decide⟩
  texts := show ∀ text ∈ [some (asciiBytes (str "portal")), some (asciiBytes (str "11.2")),
    some (asciiBytes (str "11.2"))], TextFits 4 text by decide +kernel
  count := show Fits 4 2 by decide
  toc := by
    show ∀ e ∈ [auditLogEntry 1 "TABLE" [],
      auditLogEntry 2 "TABLE DATA" [asciiBytes (str "1")]], e.WellFormed 4 8
    intro e he
    rcases List.mem_cons.mp he with rfl | he
    · exact ⟨by decide +kernel, by decide +kernel, by decide +kernel, by decide +kernel⟩
    · rw [List.mem_singleton.mp he]
      exact ⟨by decide +kernel, by decide +kernel, by decide +kernel, by decide +kernel⟩
  blocks := by
    intro b hb
    rw [List.mem_singleton.mp hb]
    exact ⟨show Fits 4 2 by decide, hchunks⟩
  ids := show [(2 : Int)].Nodup by decide

/-- Its chunks are the data of the table. -/
private theorem auditLogDump_hasAuditLog {compressed : Compression → Bytes → Bytes → Prop}
    {minor : UInt8} {compression : Compression} {chunks : List Bytes} {contents : Bytes}
    (h : BlockData compressed compression chunks contents) :
    HasAuditLog compressed (auditLogDump minor compression chunks) contents where
  table := by
    rw [show (auditLogDump minor compression chunks).entry _ _ _
      = some (auditLogEntry 1 "TABLE" []) by rfl]
    exact Option.some_ne_none _
  data := ⟨auditLogEntry 2 "TABLE DATA" [asciiBytes (str "1")], chunks, by rfl,
    List.mem_singleton.mpr rfl, h⟩

/-- The table is not found in an archive of 1.13: its entry has no dependency, and the reader is out
of step behind it. -/
theorem old_archive_is_misread :
    let d := auditLogDump 13 .none [auditLogRow]
    d.WellFormed ∧ HasAuditLog (fun _ _ _ => False) d auditLogRow
      ∧ ∀ zlib sizes, ¬Delivers zlib d.write auditLogRow sizes := by
  refine ⟨auditLogDump_wellFormed (by decide) (fun _ => rfl) (by decide),
    auditLogDump_hasAuditLog (List.append_nil auditLogRow), ?_⟩
  intro zlib sizes
  rintro ⟨archive, r, _, _, _, _, _, hopen, _⟩
  have herror : (openArchive (HashingReader.start
      (auditLogDump 13 .none [auditLogRow]).write)).isOk = false := by decide +kernel
  rw [hopen] at herror
  cases herror

/-- The row as `zlib` stores it without compressing it. -/
def storedRow : Bytes :=
  [0x78, 0x01, 0x01, 0x04, 0x00, 0xFB, 0xFF] ++ auditLogRow ++ [0x01, 0x51, 0x00, 0x77]

/-- The bytes of a chunk that are in the row, when the chunk starts at this place of the text. -/
def storedBytes (place : Nat) (chunk : Bytes) : Bytes :=
  (chunk.zipIdx place).filterMap fun byte => if 7 ≤ byte.2 ∧ byte.2 < 11 then some byte.1 else none

/-- `zlib` for this one text: every byte of the row comes out with its chunk. -/
def storedZlib : Zlib where
  State := Nat
  start := 0
  decompress := fun place chunk => some (storedBytes place chunk, place + chunk.length)
  flush := fun _ => []

/-- The texts that it knows. -/
def Stored (_ : Compression) (data bytes : Bytes) : Prop := data = auditLogRow ∧ bytes = storedRow

/-- It gives the same for any chunks. -/
private theorem outputs_storedZlib (chunks : List Bytes) (place : Nat) :
    outputs storedZlib place chunks = some (storedBytes place chunks.flatten) := by
  induction chunks generalizing place with
  | nil => rfl
  | cons chunk rest ih =>
    have hsplit : storedBytes place (chunk ++ rest.flatten)
        = storedBytes place chunk ++ storedBytes (place + chunk.length) rest.flatten := by
      rw [storedBytes, List.zipIdx_append, List.filterMap_append]
      rfl
    show (outputs storedZlib (place + chunk.length) rest).map _ = _
    rw [ih, List.flatten_cons, hsplit]
    rfl

private theorem storedZlib_documented : ZlibDocumented storedZlib Stored where
  inflates := by
    rintro data chunks ⟨rfl, hbytes⟩ _
    exact (outputs_storedZlib chunks 0).trans (by rw [hbytes]; rfl)
  empty := rfl

/-- An archive of 1.16 with a compressed block in two chunks, read byte by byte and to the end. -/
theorem streams_auditLog_gzip :
    Delivers storedZlib
      (auditLogDump 16 .gzip [storedRow.take 9, storedRow.drop 9]).write auditLogRow [1, 1, -1] :=
  streams_auditLog storedZlib_documented
    (auditLogDump_wellFormed (by decide) (fun h => absurd h (by decide)) (by decide))
    ⟨.inl (by decide), .inr rfl⟩
    (auditLogDump_hasAuditLog (.inr ⟨rfl, by decide⟩)) [1, 1, -1]

end TrustPortal.Proofs.Audit.Dump
