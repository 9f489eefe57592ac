import TrustPortal.EvidenceStore.VerifyStore

/-!
# `TrustPortal.EvidenceStore.KeyText`: keys as Python strings

The functions of `TrustPortal.EvidenceStore.Keys` on any Python string. A string of S3 has no
unpaired surrogate, and there `storedKey`, `rawKey` and `classify` are these functions; what is
said of every string is said of these.
-/

set_option autoImplicit false

namespace TrustPortal.EvidenceStore

open TrustPortal.Python (CodePoint Str str)

/-- `_control`. -/
def controlText (c : CodePoint) : Bool :=
  decide (c.val < 0x20) || (decide (0x7f ≤ c.val) && decide (c.val ≤ 0x9f))

/-- A hexadecimal digit in upper case. -/
def upperHexText (n : Nat) : CodePoint :=
  if n < 10 then CodePoint.ofNat (48 + n) else CodePoint.ofNat (55 + n)

/-- `%XX` for a code point below U+0100. -/
def percentEncodedText (c : CodePoint) : Str :=
  [CodePoint.ofChar '%', upperHexText (c.val / 16), upperHexText (c.val % 16)]

/-- `stored_key`. -/
def storedKeyText (key : Str) : Str × Bool :=
  if key.any controlText then
    (key.flatMap fun c => if c.is '%' || controlText c then percentEncodedText c else [c], true)
  else (key, false)

/-- The value of a hexadecimal digit in upper case. -/
def upperHexValueText (c : CodePoint) : Option Nat :=
  if 48 ≤ c.val ∧ c.val ≤ 57 then some (c.val - 48)
  else if 65 ≤ c.val ∧ c.val ≤ 70 then some (c.val - 55)
  else none

/-- `_ESCAPED_RE.sub`. -/
def unescapeText : Str → Str
  | c :: a :: b :: rest =>
      match upperHexValueText a, upperHexValueText b with
      | some high, some low =>
          if c.is '%' then CodePoint.ofNat (16 * high + low) :: unescapeText rest
          else c :: unescapeText (a :: b :: rest)
      | _, _ => c :: unescapeText (a :: b :: rest)
  | c :: rest => c :: unescapeText rest
  | [] => []

/-- `raw_key`. -/
def rawKeyText (key : Str) (escaped : Bool) : Str := if escaped then unescapeText key else key

/-- `key_problem`. -/
def keyProblemText (key : Str) : Option String :=
  if key = [] then some "the key is empty"
  else if MAX_KEY_BYTES < (Python.encodePass key).length then
    some "the key is longer than 1,024 bytes"
  else if (str "/").isPrefixOf key then some "the key starts with /"
  else if key.any fun c => c.is '\\' then some "the key contains a backslash"
  else if key.any controlText then some "the key contains a control character"
  else if (key.splitOnP fun c => c.is '/').any fun segment =>
      [[], str ".", str ".."].contains segment then
    some "the key has an empty, . or .. segment"
  else none

/-- `_decision_log_match`. The patterns match ASCII only, so no text with a surrogate. -/
def decisionLogMatchText (suffix : String) (key : Str) : Option String :=
  (textOf key).bind (decisionLogMatch suffix)

/-- `PENTEST_RE.match`. -/
def pentestMatchText (key : Str) : Bool :=
  let start := str "pentest-evidence/layer"
  let rest := key.drop start.length
  let file := rest.drop 2
  let name := file.take (file.length - ".json".length)
  start.isPrefixOf key && (rest.head?.any fun c => decide (49 ≤ c.val) && decide (c.val ≤ 57))
    && ((rest.drop 1).head?.any fun c => c.is '/') && (str ".json").isSuffixOf file
    && 1 ≤ name.length && name.length ≤ 200 && name.all fun c => !c.is '/'

/-- `classify`. -/
def classifyText (key : Str) : Classified :=
  match keyProblemText key with
  | some problem => .unmapped problem
  | none =>
      match decisionLogMatchText ".jsonl" key with
      | some sessionId => ⟨.decisionLog, none, some sessionId, none⟩
      | none =>
          if (decisionLogMatchText ".meta.json" key).isSome then ⟨.sidecar, none, none, none⟩
          else if pentestMatchText key then ⟨.pentest, none, none, none⟩
          else
            match DOCUMENT_PREFIXES.find? fun entry =>
              (str entry.1).isPrefixOf key && entry.1.length < key.length with
            | some entry => ⟨.document, some entry.2, none, none⟩
            | none =>
                if (str "decision-logs/").isPrefixOf key then
                  .unmapped ("not a decision-log key "
                    ++ "(<YYYY-MM-DD>T<HHMMSS>Z_<session id>.jsonl or .meta.json)")
                else if (str "pentest-evidence/").isPrefixOf key then
                  .unmapped "not a pentest-evidence key (layer<1-9>/<name>.json)"
                else .unmapped "no evidence-store kind maps this key"

end TrustPortal.EvidenceStore
