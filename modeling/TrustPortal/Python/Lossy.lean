import TrustPortal.Python.Text

/-!
# `TrustPortal.Python.Lossy`: decoding that leaves out what is no text

`decodeIgnore` is `bytes.decode("utf-8", "ignore")`: it reads the same parts as `decode`, and a
part that `decode` replaces is left out. Nothing that it writes was not in the bytes, so the
decoded text has no more bytes than were read (`length_encodePass_decodeIgnore`).
-/

set_option autoImplicit false

namespace TrustPortal.Python

/-- `bytes.decode("utf-8", errors="ignore")`. -/
def decodeIgnore : Bytes → Str
  | [] => []
  | a :: rest =>
    if a.toNat < 0x80 then .ofNat a.toNat :: decodeIgnore rest
    else if a.toNat < 0xC2 then decodeIgnore rest
    else if a.toNat < 0xE0 then
      match rest with
      | [] => []
      | b :: rest' =>
        if isTail b then .ofNat ((a.toNat - 0xC0) * 0x40 + (b.toNat - 0x80)) :: decodeIgnore rest'
        else decodeIgnore (b :: rest')
    else if a.toNat < 0xF0 then
      match rest with
      | [] => []
      | b :: rest' =>
        if isSecond a b then
          match rest' with
          | [] => []
          | c :: rest'' =>
            if isTail c then
              .ofNat ((a.toNat - 0xE0) * 0x1000 + (b.toNat - 0x80) * 0x40 + (c.toNat - 0x80))
                :: decodeIgnore rest''
            else decodeIgnore (c :: rest'')
        else decodeIgnore (b :: rest')
    else if a.toNat < 0xF5 then
      match rest with
      | [] => []
      | b :: rest' =>
        if isSecond a b then
          match rest' with
          | [] => []
          | c :: rest'' =>
            if isTail c then
              match rest'' with
              | [] => []
              | d :: rest''' =>
                if isTail d then
                  .ofNat ((a.toNat - 0xF0) * 0x40000 + (b.toNat - 0x80) * 0x1000
                    + (c.toNat - 0x80) * 0x40 + (d.toNat - 0x80)) :: decodeIgnore rest'''
                else decodeIgnore (d :: rest''')
            else decodeIgnore (c :: rest'')
        else decodeIgnore (b :: rest')
    else decodeIgnore rest

example : decodeIgnore [0x61, 0xE2, 0x82, 0xAC, 0xF0, 0x9F, 0x98, 0xFF, 0xED, 0xA0, 0x80, 0x62]
    = [.ofNat 0x61, .ofNat 0x20AC, .ofNat 0x62] := by
  decide

/-! ## Lengths -/

section
variable {n : Nat} {a b : UInt8}

/-- A code point has at most four bytes. -/
theorem length_encodeChar_le (c : CodePoint) : (encodeChar c).length ≤ 4 := by
  rw [encodeChar]
  split_ifs <;> simp

/-- A code point below U+10000 has at most three bytes. -/
private theorem length_encodeChar_three (h : n < 0x10000) :
    (encodeChar (.ofNat n)).length ≤ 3 := by
  rw [encodeChar, CodePoint.val_ofNat (by omega)]
  split_ifs <;> simp

/-- A code point below U+0800 has at most two bytes. -/
private theorem length_encodeChar_two (h : n < 0x800) : (encodeChar (.ofNat n)).length ≤ 2 := by
  rw [encodeChar, CodePoint.val_ofNat (by omega)]
  split_ifs <;> simp

/-- An ASCII code point has one byte. -/
private theorem length_encodeChar_one (h : n < 0x80) : (encodeChar (.ofNat n)).length ≤ 1 := by
  rw [encodeChar, CodePoint.val_ofNat (by omega), if_pos h]
  exact Nat.le_refl 1

private theorem isTail_bounds (h : isTail b = true) : 0x80 ≤ b.toNat ∧ b.toNat ≤ 0xBF := by
  simpa [isTail] using h

private theorem isSecond_isTail (h : isSecond a b = true) : isTail b = true := by
  rw [isSecond, Bool.and_eq_true] at h
  exact h.1

private theorem length_encodePass_cons (c : CodePoint) (text : Str) :
    (encodePass (c :: text)).length = (encodeChar c).length + (encodePass text).length := by
  rw [encodePass, List.flatMap_cons, List.length_append]
  rfl

private theorem length_encodePass_nil : (encodePass []).length = 0 := rfl

/-- The decoded text has no more bytes than were read. -/
theorem length_encodePass_decodeIgnore (bytes : Bytes) :
    (encodePass (decodeIgnore bytes)).length ≤ bytes.length := by
  fun_induction decodeIgnore bytes
  -- A part that is left out has bytes of its own; four cases write a character.
  all_goals simp only [List.length_cons, length_encodePass_cons, length_encodePass_nil] at *
  case case2 a rest hascii ih =>
    have := length_encodeChar_one hascii
    omega
  case case5 a _ _ ha b rest hb ih =>
    have := isTail_bounds hb
    have := length_encodeChar_two (n := (a.toNat - 0xC0) * 0x40 + (b.toNat - 0x80)) (by omega)
    omega
  case case9 a _ _ _ ha b hb c rest hc ih =>
    have := isTail_bounds (isSecond_isTail hb)
    have := isTail_bounds hc
    have := length_encodeChar_three
      (n := (a.toNat - 0xE0) * 0x1000 + (b.toNat - 0x80) * 0x40 + (c.toNat - 0x80)) (by omega)
    omega
  case case15 a _ _ _ _ ha b hb c hc d rest hd ih =>
    have := length_encodeChar_le (.ofNat ((a.toNat - 0xF0) * 0x40000 + (b.toNat - 0x80) * 0x1000
      + (c.toNat - 0x80) * 0x40 + (d.toNat - 0x80)))
    omega
  all_goals omega

end

end TrustPortal.Python
