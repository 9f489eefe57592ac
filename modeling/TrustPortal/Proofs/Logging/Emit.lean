import TrustPortal.Logging.CloudWatch
import TrustPortal.Proofs.Transcript.Separators

/-!
# `TrustPortal.Proofs.Logging.Emit`: when `emit` returns

What the queue holds does not matter: `emit` raises where `prepare` does. Formatting fails at the
first of the record's parts that cannot be read (`format_eq_error_iff`), and the handler catches
an `Exception`. A text that was formatted can be encoded when none of the record's own texts has
a surrogate (`encode_isSome_iff`), since JSON text holds every other character as itself. The
encoding stands outside the `try`, so such a record makes `emit` raise (`emit_returns_iff`).
-/

set_option autoImplicit false

namespace TrustPortal.Proofs.Logging

open TrustPortal.Python
open TrustPortal.Logging
open TrustPortal.Proofs.Transcript

/-- What the first part of the record that cannot be read raises, in the order in which `format`
reads them. -/
def failure (record : LogRecord) : Option Raised :=
  match record.ts, record.message, record.excInfo with
  | .error raised, _, _ => some raised
  | .ok _, .error raised, _ => some raised
  | .ok _, .ok _, some (.error raised) => some raised
  | _, _, _ => none

/-- The texts of a record that the caller chooses: the level's and the logger's name, the message
and the traceback. -/
def recordTexts (record : LogRecord) : List Str :=
  [record.levelname, record.name] ++ record.message.toOption.toList
    ++ (record.excInfo.bind Except.toOption).toList

/-- No text of the record has a surrogate. -/
def IsUnicode (record : LogRecord) : Prop :=
  ∀ text ∈ recordTexts record, ∀ c ∈ text, c.isSurrogate = false

instance (record : LogRecord) : Decidable (IsUnicode record) := by
  unfold IsUnicode
  infer_instance

section
variable {record : LogRecord} {message : Str}

/-! ## Formatting -/

/-- The JSON object of a record that can be read. -/
private def payload (record : LogRecord) (ts : AsciiText) (message : Str)
    (excInfo : Option Str) : Value :=
  .dict ([(str "ts", .str ts.val), (str "level", .str record.levelname),
    (str "logger", .str record.name), (str "message", .str message),
    (str "pid", record.process.elim .none .int)]
      ++ (excInfo.map fun text => (str "exc_info", Value.str text)).toList)

/-- Formatting fails with what the first part that cannot be read raises. -/
theorem format_eq_error_iff {raised : Raised} :
    format record = .error raised ↔ failure record = some raised := by
  obtain ⟨name, level, ts, millis, message, process, excInfo⟩ := record
  rcases ts with e | ts
  · simp [format, failure, bind, Except.bind]
  rcases message with e | message
  · simp [format, failure, bind, Except.bind]
  rcases excInfo with _ | e | text
  · simp [format, failure, LogRecord.excInfoMember, bind, Except.bind, pure, Except.pure]
  · simp [format, failure, LogRecord.excInfoMember, Except.map, bind, Except.bind]
  · simp [format, failure, LogRecord.excInfoMember, Except.map, bind, Except.bind, pure,
      Except.pure]

/-- What a record that can be read is formatted to, and its texts. -/
private theorem format_ok (h : format record = .ok message) :
    ∃ ts text excInfo, message = render escapeChar (payload record ts text excInfo)
      ∧ recordTexts record = [record.levelname, record.name, text] ++ excInfo.toList := by
  obtain ⟨name, level, ts, millis, text, process, excInfo⟩ := record
  rcases ts with e | ts
  · exact nomatch h
  rcases text with e | text
  · exact nomatch h
  rcases excInfo with _ | e | trace
  · exact ⟨ts, text, none, (Except.ok.inj h).symm, rfl⟩
  · exact nomatch h
  · exact ⟨ts, text, some trace, (Except.ok.inj h).symm, rfl⟩

/-! ## Surrogates -/

/-- A surrogate is written as itself. -/
private theorem escapeChar_surrogate {c : CodePoint} (h : c.isSurrogate = true) :
    escapeChar c = [c] := by
  rcases escapeChar_chars c with hprintable | ⟨hself, _⟩
  · simp only [CodePoint.isSurrogate, Bool.and_eq_true, decide_eq_true_eq] at h
    rw [escapeChar] at hprintable ⊢
    simp only [CodePoint.is, beq_iff_eq] at hprintable ⊢
    have hquote : '"'.toNat = 0x22 := rfl
    have hslash : '\\'.toNat = 0x5C := rfl
    rw [hquote, hslash]
    split_ifs <;> first | rfl | omega
  · exact hself

/-- The text of a value has a surrogate when one of its strings has. -/
theorem surrogate_render_iff (value : Value) :
    (∀ c ∈ render escapeChar value, c.isSurrogate = false)
      ↔ ∀ s ∈ strings value, ∀ c ∈ s, c.isSurrogate = false := by
  constructor
  · intro h s hs c hc
    cases hsurrogate : c.isSurrogate with
    | false => rfl
    | true =>
      have hself : c ∈ escapeChar c := by
        rw [escapeChar_surrogate hsurrogate]
        exact List.mem_singleton_self c
      exact hsurrogate.symm.trans (h c (mem_render value s hs c hc hself))
  · intro h
    refine render_chars (fun c hc => printable_not_surrogate hc) value fun s hs c hc d hd => ?_
    rcases escapeChar_chars c with hprintable | ⟨hself, _⟩
    · exact printable_not_surrogate (hprintable d hd)
    · rw [hself, List.mem_singleton] at hd
      rw [hd]
      exact h s hs c hc

private theorem not_surrogate_of_ascii {c : CodePoint} (h : c.val < 0x80) :
    c.isSurrogate = false := by
  simp only [CodePoint.isSurrogate, Bool.and_eq_false_iff, decide_eq_false_iff_not]
  omega

/-- The strings of a record's object that can have a surrogate are the record's texts. -/
private theorem surrogate_payload_iff (ts : AsciiText) (text : Str) (excInfo : Option Str) :
    (∀ s ∈ strings (payload record ts text excInfo), ∀ c ∈ s, c.isSurrogate = false)
      ↔ ∀ s ∈ [record.levelname, record.name, text] ++ excInfo.toList,
          ∀ c ∈ s, c.isSurrogate = false := by
  have hascii : ∀ name ∈ [str "ts", str "level", str "logger", str "message", str "pid",
      str "exc_info"], ∀ c ∈ name, c.isSurrogate = false := by decide
  have hts : ∀ c ∈ ts.val, c.isSurrogate = false := fun c hc =>
    not_surrogate_of_ascii (ts.property c hc)
  have hpid : strings (record.process.elim .none .int) = [] := by
    cases record.process <;> rfl
  cases excInfo with
  | none =>
    simp only [List.mem_cons, List.not_mem_nil, or_false, forall_eq_or_imp, forall_eq] at hascii
    simp only [payload, Option.map_none, Option.toList_none, List.append_nil, strings,
      stringsMembers, hpid, List.cons_append, List.nil_append, List.mem_cons, List.not_mem_nil,
      or_false, forall_eq_or_imp, forall_eq]
    tauto
  | some trace =>
    simp only [List.mem_cons, List.not_mem_nil, or_false, forall_eq_or_imp, forall_eq] at hascii
    simp only [payload, Option.map_some, Option.toList_some, strings, stringsMembers, hpid,
      List.cons_append, List.nil_append, List.mem_cons, List.not_mem_nil, or_false,
      forall_eq_or_imp, forall_eq]
    tauto

/-- A text is encoded when it has no surrogate. -/
theorem encode_isSome_iff {text : Str} :
    (encode text).isSome = true ↔ ∀ c ∈ text, c.isSurrogate = false := by
  rw [encode]
  split_ifs with hany
  · rw [List.any_eq_true] at hany
    obtain ⟨c, hc, hsurrogate⟩ := hany
    refine ⟨(by simp), fun h => ?_⟩
    rw [h c hc] at hsurrogate
    cases hsurrogate
  · refine ⟨fun _ c hc => ?_, fun _ => rfl⟩
    rw [Bool.not_eq_true, List.any_eq_false] at hany
    exact Bool.eq_false_iff.mpr (hany c hc)

/-- The text that a record is formatted to is encoded when no text of the record has a
surrogate. -/
theorem encode_format_iff (h : format record = .ok message) :
    (encode message).isSome = true ↔ IsUnicode record := by
  obtain ⟨ts, text, excInfo, rfl, htexts⟩ := format_ok h
  rw [encode_isSome_iff, surrogate_render_iff, surrogate_payload_iff, IsUnicode, htexts]

/-! ## `emit` -/

/-- A record is formatted when each of its parts can be read. -/
theorem format_isOk_iff : (∃ message, format record = .ok message) ↔ failure record = none := by
  cases hformat : format record with
  | error raised => simp [format_eq_error_iff.mp hformat]
  | ok message =>
    simp only [Except.ok.injEq, exists_eq', true_iff]
    cases hfailure : failure record with
    | none => rfl
    | some raised =>
      rw [format_eq_error_iff.mpr hfailure] at hformat
      cases hformat

/-- `emit` returns, whatever the queue holds, when the logger is not shipped, or formatting raises
an `Exception` and handling it raises nothing, or the record is formatted and none of its texts
has a surrogate. -/
theorem emit_returns_iff (handleError : LogRecord → Except Raised Unit) (buffer : Buffer)
    (record : LogRecord) :
    (∃ after, emit handleError buffer record = .ok after)
      ↔ record.isShipped = false
        ∨ (failure record = some .exception ∧ handleError record = .ok ())
        ∨ (failure record = none ∧ IsUnicode record) := by
  rw [emit, prepare]
  cases hshipped : record.isShipped with
  | false => simp [Except.map]
  | true =>
    cases hformat : format record with
    | error raised =>
      rw [format_eq_error_iff.mp hformat]
      cases raised with
      | other => simp [Except.map]
      | exception =>
        cases hhandle : handleError record with
        | error _ => simp [Except.map]
        | ok _ => simp [Except.map]
    | ok message =>
      rw [format_isOk_iff.mp ⟨message, hformat⟩, ← encode_format_iff hformat]
      cases hencode : encode message with
      | none => simp [hencode, Except.map]
      | some _ => simp [hencode, Except.map]

/-- A record whose message has an unpaired surrogate, as a request can bring one. -/
def surrogateRecord : LogRecord :=
  ⟨str "app", str "ERROR", .ok ⟨[], nofun⟩, 0, .ok [⟨0xD800, by decide⟩], none, none⟩

/-- It makes `emit` raise although `handleError` never does. -/
theorem emit_raises_of_surrogate :
    ¬∀ (buffer : Buffer) (record : LogRecord),
      ∃ after, emit (fun _ => .ok ()) buffer record = .ok after := by
  intro h
  obtain ⟨after, hafter⟩ := h ⟨[], 0, none, 0⟩ surrogateRecord
  have hraises : prepare (fun _ => .ok ()) surrogateRecord = .error .exception := by decide
  rw [emit, hraises] at hafter
  cases hafter

end

end TrustPortal.Proofs.Logging
