import TrustPortal.Proofs.EvidenceStore.KeyText
import TrustPortal.Proofs.Transcript.Utf8
import TrustPortal.Proofs.Transcript.Written

/-!
# `TrustPortal.Proofs.EvidenceStore.Cursor`: a cursor is read as the position it was written from

A cursor is the base64 of the UTF-8 of a JSON text. Each of the three steps is undone:
`loads_render` reads the text, `decode_encodePass` its bytes and `urlsafeB64decode_encode` the
characters. `decodeCursor_encode` puts them together. The reader needs one level of nesting.
-/

set_option autoImplicit false

namespace TrustPortal.Proofs.EvidenceStore

open TrustPortal.EvidenceStore
open TrustPortal.Python (Interpreter Value Str str escapeCharAscii)
open TrustPortal.Proofs.Transcript

section
variable {py : Interpreter}

private theorem optionalTextOf_optionalText (text : Option String) :
    optionalTextOf (optionalText text) = .ok text := by
  cases text with
  | none => rfl
  | some text =>
    simp only [optionalTextOf, optionalText, textOf_str]

private theorem prefixIndexOf_int (index : Fin PREFIXES.length) {short} :
    prefixIndexOf (.int ⟨index.val, short⟩) = .ok index := by
  have hrange : 0 ≤ (index.val : Int) ∧ (index.val : Int).toNat < PREFIXES.length :=
    ⟨Int.natCast_nonneg _, by rw [Int.toNat_natCast]; exact index.isLt⟩
  rw [prefixIndexOf, dif_pos hrange]
  exact congrArg Except.ok (Fin.ext (Int.toNat_natCast _))

/-- An object of a position names the position. -/
private theorem positionOf_value (position : Position) :
    positionOf position.value = .ok position := by
  cases position with
  | records afterId =>
    have hlisting : (Python.get [(str "after_id", optionalText afterId),
        (str "phase", .str (str "records"))] "phase").isText "listing" = false := rfl
    have hrecords : (Python.get [(str "after_id", optionalText afterId),
        (str "phase", .str (str "records"))] "phase").isText "records" = true := rfl
    have hid : Python.get [(str "after_id", optionalText afterId),
        (str "phase", .str (str "records"))] "after_id" = optionalText afterId := rfl
    rw [Position.value, positionOf, hlisting, hrecords, hid, optionalTextOf_optionalText]
    rfl
  | listing index afterKey =>
    obtain ⟨number, hvalue, hread⟩ : ∃ number : Python.Integer,
        (Position.listing index afterKey).value = .dict [(str "after_key", optionalText afterKey),
          (str "phase", .str (str "listing")), (str "prefix", .int number)]
        ∧ prefixIndexOf (.int number) = .ok index :=
      ⟨_, rfl, prefixIndexOf_int index⟩
    have hlisting : (Python.get [(str "after_key", optionalText afterKey),
        (str "phase", .str (str "listing")), (str "prefix", .int number)] "phase").isText "listing"
        = true := rfl
    have hkey : Python.get [(str "after_key", optionalText afterKey),
        (str "phase", .str (str "listing")), (str "prefix", .int number)] "after_key"
        = optionalText afterKey := rfl
    have hindex : Python.get [(str "after_key", optionalText afterKey),
        (str "phase", .str (str "listing")), (str "prefix", .int number)] "prefix"
        = .int number := rfl
    rw [hvalue, positionOf, hlisting, hkey, hindex, hread, optionalTextOf_optionalText]
    rfl

private theorem value_good (position : Position) :
    Good NoPair (ReadsBack py) position.value ∧ position.value.depth = 1 := by
  have htext : ∀ text, Good NoPair (ReadsBack py) (optionalText text)
      ∧ (optionalText text).depth = 0 := by
    rintro (_ | text)
    · exact ⟨trivial, rfl⟩
    · exact ⟨noPair_str text, rfl⟩
  cases position with
  | records afterId =>
    have hnames : [str "after_id", str "phase"].Nodup := by decide
    refine ⟨⟨⟨⟨noPair_str _, (htext afterId).1⟩, ⟨noPair_str _, noPair_str _⟩, trivial⟩,
      hnames⟩, ?_⟩
    simp [Position.value, Value.depth, Value.depthMembers, (htext afterId).2]
  | listing index afterKey =>
    have hnames : [str "after_key", str "phase", str "prefix"].Nodup := by decide
    refine ⟨⟨⟨⟨noPair_str _, (htext afterKey).1⟩, ⟨noPair_str _, noPair_str _⟩,
      ⟨noPair_str _, trivial⟩, trivial⟩, hnames⟩, ?_⟩
    simp [Position.value, Value.depth, Value.depthMembers, (htext afterKey).2]

/-- The text of a position is ASCII. -/
private theorem text_not_surrogate (value : Value) :
    ∀ c ∈ Python.render escapeCharAscii value, c.isSurrogate = false := by
  have hprintable := render_chars (Q := Printable) (fun _ h => h) value
    fun _ _ c _ => escapeCharAscii_chars c
  intro c hc
  have hlow := (hprintable c hc).2
  rw [Python.CodePoint.isSurrogate, Bool.and_eq_false_iff, decide_eq_false_iff_not]
  exact .inl (by omega)

private theorem encode_ne_nil {data : Python.Bytes} (h : data ≠ []) :
    Python.urlsafeB64encode data ≠ [] := by
  match data with
  | [] => exact absurd rfl h
  | [a] => exact List.cons_ne_nil _ _
  | [a, b] => exact List.cons_ne_nil _ _
  | a :: b :: c :: rest => exact List.cons_ne_nil _ _

private theorem bytes_ne_nil (position : Position) :
    Python.encodePass (Python.render escapeCharAscii position.value) ≠ [] := by
  cases position <;> exact List.cons_ne_nil _ _

/-- **Cursors.** A cursor is read as the position it was written from. -/
theorem decodeCursor_encode (hdepth : 1 ≤ py.readerDepth) (position : Position) :
    decodeCursor py (encodeCursor (some position)) = .ok position := by
  obtain ⟨hgood, hlevels⟩ := @value_good py position
  have hread := loads_render escapes_ascii hgood (hlevels.le.trans hdepth)
  have hdecode : Python.decodeStrict
      (Python.encodePass (Python.render escapeCharAscii position.value))
      = some (Python.render escapeCharAscii position.value) := by
    rw [Python.decodeStrict, decode_encodePass (text_not_surrogate position.value), if_pos rfl]
  have hbase := Python.urlsafeB64decode_encode
    (Python.encodePass (Python.render escapeCharAscii position.value))
  have hne := encode_ne_nil (bytes_ne_nil position)
  show decodeCursor py (some (Python.urlsafeB64encode
    (Python.encodePass (Python.render escapeCharAscii position.value)))) = _
  generalize Python.urlsafeB64encode _ = cursor at hbase hne ⊢
  cases cursor with
  | nil => exact absurd rfl hne
  | cons c rest =>
    simp only [decodeCursor, hbase, Option.bind_some, hdecode, hread]
    exact positionOf_value position

end

end TrustPortal.Proofs.EvidenceStore
