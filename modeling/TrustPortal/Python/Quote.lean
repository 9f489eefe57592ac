import TrustPortal.Python.Text

/-!
# `TrustPortal.Python.Quote`: percent-decoding

`unquote` is `urllib.parse.unquote`: it decodes each run of ASCII characters to bytes and reads
them as UTF-8, and leaves the other characters as they are.
-/

set_option autoImplicit false

namespace TrustPortal.Python

/-- The number of a hexadecimal digit. -/
def hexByteValue (b : UInt8) : Option Nat :=
  let n := b.toNat
  if 48 ≤ n ∧ n ≤ 57 then some (n - 48)
  else if 97 ≤ n ∧ n ≤ 102 then some (n - 87)
  else if 65 ≤ n ∧ n ≤ 70 then some (n - 55)
  else none

/-- `unquote_to_bytes`: a percent sign that two hexadecimal digits follow is one byte. -/
def unquoteToBytes : Bytes → Bytes
  | [] => []
  | [a] => [a]
  | [a, b] => [a, b]
  | a :: b :: c :: rest =>
    if a = 0x25 then
      match hexByteValue b, hexByteValue c with
      | some high, some low => UInt8.ofNat (16 * high + low) :: unquoteToBytes rest
      | _, _ => a :: unquoteToBytes (b :: c :: rest)
    else a :: unquoteToBytes (b :: c :: rest)

/-- The part of `unquote` for characters that are all ASCII, or all not. -/
def unquoteRun (run : Str) : Str :=
  if run.all fun c => decide (c.val < 0x80) then
    decode (unquoteToBytes (run.map fun c => UInt8.ofNat c.val))
  else run

/-- `unquote(text)`. -/
def unquote (text : Str) : Str :=
  if text.any fun c => c.is '%' then
    (text.splitBy fun a b => decide (a.val < 0x80) == decide (b.val < 0x80)).flatMap unquoteRun
  else text

example : unquote (str "/a%2Fb%%41%zz%e2%82%ac") = str "/a/b%A%zz€" := by decide +kernel

end TrustPortal.Python
