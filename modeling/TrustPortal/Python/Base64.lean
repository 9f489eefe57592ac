import TrustPortal.Python.Text

/-!
# `TrustPortal.Python.Base64`: base64 with the URL-safe alphabet

`urlsafeB64encode` writes three bytes as four characters and pads the last group with `=`.
`urlsafeB64decode` is the loop of `binascii.a2b_base64`, which skips every character outside the
alphabet and stops at padding that completes a group. `urlsafeB64decode_encode` is the round trip.
-/

set_option autoImplicit false

namespace TrustPortal.Python

/-- The character of six bits. -/
def base64Digit (n : Nat) : CodePoint :=
  if n < 26 then .ofNat (0x41 + n)
  else if n < 52 then .ofNat (0x61 + (n - 26))
  else if n < 62 then .ofNat (0x30 + (n - 52))
  else if n = 62 then .ofChar '-'
  else .ofChar '_'

/-- `base64.urlsafe_b64encode(data).decode("ascii")`. -/
def urlsafeB64encode : Bytes → Str
  | [] => []
  | [a] =>
    [base64Digit (a.toNat / 4), base64Digit (a.toNat % 4 * 16), .ofChar '=', .ofChar '=']
  | [a, b] =>
    [base64Digit (a.toNat / 4), base64Digit (a.toNat % 4 * 16 + b.toNat / 16),
      base64Digit (b.toNat % 16 * 4), .ofChar '=']
  | a :: b :: c :: rest =>
    base64Digit (a.toNat / 4) :: base64Digit (a.toNat % 4 * 16 + b.toNat / 16)
      :: base64Digit (b.toNat % 16 * 4 + c.toNat / 64) :: base64Digit (c.toNat % 64)
      :: urlsafeB64encode rest

/-- The six bits of a character. `-` is read as `+` and `_` as `/`. -/
def base64Value (c : CodePoint) : Option Nat :=
  if 0x41 ≤ c.val ∧ c.val ≤ 0x5A then some (c.val - 0x41)
  else if 0x61 ≤ c.val ∧ c.val ≤ 0x7A then some (c.val - 0x61 + 26)
  else if 0x30 ≤ c.val ∧ c.val ≤ 0x39 then some (c.val - 0x30 + 52)
  else if c.is '+' || c.is '-' then some 62
  else if c.is '/' || c.is '_' then some 63
  else none

/-- Where `a2b_base64` stands: how many characters of a group it has read and how many pads, the
bits it carries, the bytes so far, and whether it has stopped. -/
structure Base64Reader where
  quad : Nat
  pads : Nat
  carried : Nat
  bytes : Bytes
  done : Bool

/-- One character. -/
def Base64Reader.step (reader : Base64Reader) (c : CodePoint) : Base64Reader :=
  if reader.done then reader
  else if c.is '=' then
    -- A pad counts only from the third character of a group on.
    if reader.quad < 2 then reader
    else if reader.quad + reader.pads + 1 < 4 then { reader with pads := reader.pads + 1 }
    else { reader with pads := reader.pads + 1, done := true }
  else
    match base64Value c with
    | none => reader
    | some value =>
      if reader.quad = 0 then ⟨1, 0, value, reader.bytes, false⟩
      else if reader.quad = 1 then
        ⟨2, 0, value % 16, reader.bytes ++ [.ofNat (reader.carried * 4 + value / 16)], false⟩
      else if reader.quad = 2 then
        ⟨3, 0, value % 4, reader.bytes ++ [.ofNat (reader.carried * 16 + value / 4)], false⟩
      else ⟨0, 0, 0, reader.bytes ++ [.ofNat (reader.carried * 64 + value)], false⟩

/-- `base64.urlsafe_b64decode(text.encode("ascii"))`, none where one of the two raises. -/
def urlsafeB64decode (text : Str) : Option Bytes :=
  if text.all fun c => decide (c.val < 0x80) then
    let reader := text.foldl Base64Reader.step ⟨0, 0, 0, [], false⟩
    if reader.done || reader.quad = 0 then some reader.bytes else none
  else none

example : urlsafeB64encode [0xFB, 0xFF, 0x00, 0x4D] = str "-_8ATQ=="
    ∧ urlsafeB64decode (str "+/8A TQ==") = some [0xFB, 0xFF, 0x00, 0x4D]
    ∧ urlsafeB64decode (str "TQ=") = none := by
  decide

/-! ## The round trip -/

private theorem digit_facts : ∀ n < 64, base64Value (base64Digit n) = some n
    ∧ (base64Digit n).is '=' = false ∧ (base64Digit n).val < 0x80 := by
  decide

section
variable {bytes : Bytes} {p n : Nat}

private theorem step_zero (h : n < 64) :
    (Base64Reader.step ⟨0, p, 0, bytes, false⟩ (base64Digit n)) = ⟨1, 0, n, bytes, false⟩ := by
  obtain ⟨hvalue, hpad, -⟩ := digit_facts n h
  simp [Base64Reader.step, hvalue, hpad]

private theorem step_one (h : n < 64) {carried : Nat} :
    (Base64Reader.step ⟨1, p, carried, bytes, false⟩ (base64Digit n))
      = ⟨2, 0, n % 16, bytes ++ [.ofNat (carried * 4 + n / 16)], false⟩ := by
  obtain ⟨hvalue, hpad, -⟩ := digit_facts n h
  simp [Base64Reader.step, hvalue, hpad]

private theorem step_two (h : n < 64) {carried : Nat} :
    (Base64Reader.step ⟨2, p, carried, bytes, false⟩ (base64Digit n))
      = ⟨3, 0, n % 4, bytes ++ [.ofNat (carried * 16 + n / 4)], false⟩ := by
  obtain ⟨hvalue, hpad, -⟩ := digit_facts n h
  simp [Base64Reader.step, hvalue, hpad]

private theorem step_three (h : n < 64) {carried : Nat} :
    (Base64Reader.step ⟨3, p, carried, bytes, false⟩ (base64Digit n))
      = ⟨0, 0, 0, bytes ++ [.ofNat (carried * 64 + n)], false⟩ := by
  obtain ⟨hvalue, hpad, -⟩ := digit_facts n h
  simp [Base64Reader.step, hvalue, hpad]

/-- Bits that were cut apart make the byte again. -/
private theorem ofNat_eq {m : Nat} {a : UInt8} (h : m = a.toNat) : UInt8.ofNat m = a := by
  rw [h, UInt8.ofNat_toNat]

end

/-- Reading what was written, from the start of a group on: by induction on the groups. -/
private theorem run_encode (data : Bytes) : ∀ (before : Bytes) (p : Nat),
    let reader := (urlsafeB64encode data).foldl Base64Reader.step ⟨0, p, 0, before, false⟩
    reader.bytes = before ++ data ∧ (reader.done = true ∨ reader.quad = 0) := by
  induction data using urlsafeB64encode.induct with
  | case1 => intro before p; simp [urlsafeB64encode]
  | case2 a =>
    intro before p
    have ha := a.toNat_lt
    -- The last group is one byte, and its second pad stops the loop.
    simp only [urlsafeB64encode, List.foldl_cons, List.foldl_nil]
    rw [step_zero (by omega), step_one (by omega), ofNat_eq (a := a) (by omega)]
    exact ⟨rfl, .inl rfl⟩
  | case3 a b =>
    intro before p
    have ha := a.toNat_lt
    have hb := b.toNat_lt
    simp only [urlsafeB64encode, List.foldl_cons, List.foldl_nil]
    rw [step_zero (by omega), step_one (by omega), step_two (by omega),
      ofNat_eq (a := a) (by omega), ofNat_eq (a := b) (by omega)]
    exact ⟨by simp [Base64Reader.step, CodePoint.is, CodePoint.ofChar, CodePoint.ofNat],
      .inl rfl⟩
  | case4 a b c rest ih =>
    intro before p
    have ha := a.toNat_lt
    have hb := b.toNat_lt
    have hc := c.toNat_lt
    simp only [urlsafeB64encode, List.foldl_cons]
    rw [step_zero (by omega), step_one (by omega), step_two (by omega), step_three (by omega),
      ofNat_eq (a := a) (by omega), ofNat_eq (a := b) (by omega), ofNat_eq (a := c) (by omega)]
    have hrest := ih (before ++ [a] ++ [b] ++ [c]) 0
    rw [show before ++ a :: b :: c :: rest = before ++ [a] ++ [b] ++ [c] ++ rest by simp]
    exact hrest

private theorem encode_ascii (data : Bytes) :
    ∀ c ∈ urlsafeB64encode data, c.val < 0x80 := by
  have hpad : (CodePoint.ofChar '=').val < 0x80 := by decide
  have hdigit : ∀ n < 64, (base64Digit n).val < 0x80 := fun n hn => (digit_facts n hn).2.2
  induction data using urlsafeB64encode.induct with
  | case1 => simp [urlsafeB64encode]
  | case2 a =>
    have ha := a.toNat_lt
    simp only [urlsafeB64encode, List.forall_mem_cons]
    exact ⟨hdigit _ (by omega), hdigit _ (by omega), hpad, hpad, nofun⟩
  | case3 a b =>
    have ha := a.toNat_lt
    have hb := b.toNat_lt
    simp only [urlsafeB64encode, List.forall_mem_cons]
    exact ⟨hdigit _ (by omega), hdigit _ (by omega), hdigit _ (by omega), hpad, nofun⟩
  | case4 a b c rest ih =>
    have ha := a.toNat_lt
    have hb := b.toNat_lt
    have hc := c.toNat_lt
    simp only [urlsafeB64encode, List.forall_mem_cons]
    exact ⟨hdigit _ (by omega), hdigit _ (by omega), hdigit _ (by omega), hdigit _ (by omega), ih⟩

/-- **Round trip.** What was written is read back. -/
theorem urlsafeB64decode_encode (data : Bytes) :
    urlsafeB64decode (urlsafeB64encode data) = some data := by
  obtain ⟨hbytes, hend⟩ := run_encode data [] 0
  have hascii : (urlsafeB64encode data).all (fun c => decide (c.val < 0x80)) = true :=
    List.all_eq_true.mpr fun c hc => decide_eq_true (encode_ascii data c hc)
  rw [urlsafeB64decode, if_pos hascii, if_pos (by simpa using hend), hbytes, List.nil_append]

end TrustPortal.Python
