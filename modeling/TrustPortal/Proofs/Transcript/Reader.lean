import TrustPortal.Lib.Fold
import TrustPortal.Python.Loads
import Mathlib.Data.List.Nodup

/-!
# `TrustPortal.Proofs.Transcript.Reader`: what the JSON reader can return

The reader is a fold of `Reader.step` over the characters, so what it returns is an invariant
of its state. `Reader.Fits` is that invariant: no value that has been read, and none that is
being built, is nested deeper than the scanner may go, the names of an object are distinct,
and every string and every float meets a rule. The rules are parameters: `StringRule` says what
the pieces of a literal must be for their string to meet it, `FloatRule` which floats the
interpreter reads. `loads_fits` is the result for a whole text.
-/

set_option autoImplicit false

namespace TrustPortal.Proofs.Transcript

open TrustPortal.Lib
open TrustPortal.Python

/-! ## Values -/

mutual

/-- Every string of the value, names included, meets `S`, every float meets `F`, and the names
of each object are distinct. -/
def Good (S : Str → Prop) (F : FloatText → Prop) : Value → Prop
  | .str s => S s
  | .list items => GoodItems S F items
  | .dict members => GoodMembers S F members ∧ (members.map Prod.fst).Nodup
  | .float x => F x
  | .none | .bool _ | .int _ => True

/-- `Good` of every item. -/
def GoodItems (S : Str → Prop) (F : FloatText → Prop) : List Value → Prop
  | [] => True
  | item :: items => Good S F item ∧ GoodItems S F items

/-- `Good` of every member. -/
def GoodMembers (S : Str → Prop) (F : FloatText → Prop) : List (Str × Value) → Prop
  | [] => True
  | (name, value) :: members => (S name ∧ Good S F value) ∧ GoodMembers S F members

end

/-- A value with `n` arrays and objects around it, in a text that may nest `room` of them. -/
def Fits (S : Str → Prop) (F : FloatText → Prop) (room n : Nat) (value : Value) : Prop :=
  Good S F value ∧ value.depth + n ≤ room

section
variable {S : Str → Prop} {F : FloatText → Prop} {room n : Nat}

theorem goodItems_append {items : List Value} {value : Value} (h : GoodItems S F items)
    (hvalue : Good S F value) : GoodItems S F (items ++ [value]) := by
  induction items with
  | nil => exact ⟨hvalue, trivial⟩
  | cons item rest ih => exact ⟨h.1, ih h.2⟩

theorem depthItems_append (items : List Value) (value : Value) :
    Value.depthItems (items ++ [value]) = max (Value.depthItems items) value.depth := by
  induction items with
  | nil =>
    show max value.depth 0 = max 0 value.depth
    exact max_comm _ _
  | cons item rest ih =>
    show max item.depth (Value.depthItems (rest ++ [value])) = _
    rw [ih]
    exact (max_assoc _ _ _).symm

theorem setMember_names (members : Members) (name : Str) (value : Value) :
    (setMember members name value).map Prod.fst
      = if name ∈ members.map Prod.fst then members.map Prod.fst
        else members.map Prod.fst ++ [name] := by
  induction members with
  | nil => rfl
  | cons member rest ih =>
    obtain ⟨key, old⟩ := member
    by_cases hkey : key = name
    · simp [setMember, hkey]
    · rw [setMember, if_neg hkey, List.map_cons, ih]
      by_cases hmem : name ∈ rest.map Prod.fst
      · rw [if_pos hmem, List.map_cons, if_pos (List.mem_cons_of_mem _ hmem)]
      · rw [if_neg hmem, List.map_cons, if_neg]
        · rfl
        · rintro (_ | ⟨_, h⟩)
          · exact hkey rfl
          · exact hmem h

theorem setMember_nodup {members : Members} (name : Str) (value : Value)
    (h : (members.map Prod.fst).Nodup) : ((setMember members name value).map Prod.fst).Nodup := by
  rw [setMember_names]
  by_cases hmem : name ∈ members.map Prod.fst
  · rw [if_pos hmem]
    exact h
  · rw [if_neg hmem, List.nodup_append]
    refine ⟨h, List.nodup_singleton name, ?_⟩
    rintro a ha b hb rfl
    exact hmem (List.mem_singleton.mp hb ▸ ha)

theorem goodMembers_set {members : Members} {name : Str} {value : Value}
    (h : GoodMembers S F members) (hname : S name) (hvalue : Good S F value) :
    GoodMembers S F (setMember members name value) := by
  induction members with
  | nil => exact ⟨⟨hname, hvalue⟩, trivial⟩
  | cons member rest ih =>
    obtain ⟨key, old⟩ := member
    rw [setMember]
    by_cases hkey : key = name
    · rw [if_pos hkey]
      exact ⟨⟨h.1.1, hvalue⟩, h.2⟩
    · rw [if_neg hkey]
      exact ⟨h.1, ih h.2⟩

theorem depthMembers_set (members : Members) (name : Str) (value : Value) :
    Value.depthMembers (setMember members name value)
      ≤ max (Value.depthMembers members) value.depth := by
  induction members with
  | nil =>
    show max value.depth 0 ≤ max 0 value.depth
    omega
  | cons member rest ih =>
    obtain ⟨key, old⟩ := member
    rw [setMember]
    by_cases hkey : key = name
    · rw [if_pos hkey]
      show max value.depth (Value.depthMembers rest)
        ≤ max (max old.depth (Value.depthMembers rest)) value.depth
      omega
    · rw [if_neg hkey]
      show max old.depth (Value.depthMembers (setMember rest name value))
        ≤ max (max old.depth (Value.depthMembers rest)) value.depth
      omega

end

/-! ## The invariant of the reader -/

/-- Which strings a text can hold, by the pieces they are read from. -/
structure StringRule (S : Str → Prop) (Pc : Piece → Prop) : Prop where
  join : ∀ pieces, (∀ p ∈ pieces, Pc p) → S (joinSurrogates pieces)
  escaped : ∀ c, Pc (c, true)
  unescaped : ∀ c d, unescape c = some d → Pc (d, false)

/-- Which floats a text can hold: what a literal stands for, and the three names. -/
structure FloatRule (py : Interpreter) (F : FloatText → Prop) : Prop where
  read : ∀ literal, F (py.float literal)
  nan : F floatNaN
  infinity : F floatInfinity
  negInfinity : F floatNegInfinity

section
variable (S : Str → Prop) (F : FloatText → Prop) (Pc : Piece → Prop) (room : Nat)

/-- An open array or object with `n` of them around what it holds, itself included. -/
def FrameFits (n : Nat) : Frame → Prop
  | .list items => GoodItems S F items ∧ Value.depthItems items + n ≤ room
  | .dict members =>
    (GoodMembers S F members ∧ (members.map Prod.fst).Nodup) ∧ Value.depthMembers members + n ≤ room
  | .member members name =>
    ((GoodMembers S F members ∧ (members.map Prod.fst).Nodup)
      ∧ Value.depthMembers members + n ≤ room) ∧ S name

/-- Every open array and object, the outermost last. -/
def StackFits : List Frame → Prop
  | [] => True
  | frame :: rest =>
    FrameFits S F room (rest.length + 1) frame ∧ rest.length + 1 ≤ room ∧ StackFits rest

/-- What the reader holds besides its stack. -/
def ModeFits (n : Nat) : Mode → Prop
  | .string _ pieces | .escape _ pieces | .unicode _ pieces _ _ => ∀ p ∈ pieces, Pc p
  | .colon name => S name
  | .literal _ value | .after value => Fits S F room n value
  | .value | .firstItem | .firstName | .name | .number _ => True

/-- The invariant of the reader. -/
structure Reader.Fits (reader : Reader) : Prop where
  stack : StackFits S F room reader.stack
  mode : ModeFits S F Pc room reader.stack.length reader.mode

end

section
variable {S : Str → Prop} {F : FloatText → Prop} {Pc : Piece → Prop} {py : Interpreter} {stack : List Frame}
  {reader reader' : Reader} {value : Value} {c : CodePoint}

theorem StackFits.length_le {room : Nat} (h : StackFits S F room stack) : stack.length ≤ room := by
  cases stack with
  | nil => exact Nat.zero_le room
  | cons frame rest => exact h.2.1

/-- A value that is no array and no object fits wherever the reader can be. -/
private theorem fits_scalar {room : Nat} (h : StackFits S F room stack) (hgood : Good S F value)
    (hdepth : value.depth = 0) : Fits S F room stack.length value := by
  refine ⟨hgood, ?_⟩
  have := h.length_le
  omega

/-- What a number literal becomes has no parts. -/
theorem readNumber_ok (hfloat : FloatRule py F) {n : Number} (h : readNumber py n = .ok value) :
    Good S F value ∧ value.depth = 0 := by
  have hint : ∀ {whole : Str}, readInt whole = .ok value → Good S F value ∧ value.depth = 0 := by
    intro whole hread
    rw [readInt] at hread
    by_cases hshort : digitCount (intOfText whole).natAbs ≤ MAX_STR_DIGITS
    · rw [dif_pos hshort] at hread
      cases hread
      exact ⟨trivial, rfl⟩
    · rw [dif_neg hshort] at hread
      cases hread
  rw [readNumber] at h
  split at h
  case h_1 | h_2 => exact hint h
  case h_3 | h_4 =>
    cases h
    exact ⟨hfloat.read _, rfl⟩
  case h_5 | h_6 | h_7 =>
    obtain ⟨_, _, herror⟩ := bind_eq_ok.mp h
    cases herror
  case h_8 | h_9 | h_10 => cases h

/-- An array or object opens only where the scanner may go deeper. -/
theorem openFrame_ok {frame : Frame} {mode : Mode} (h : openFrame py stack frame mode = .ok reader') :
    stack.length < py.readerDepth ∧ reader' = ⟨frame :: stack, mode⟩ := by
  rw [openFrame] at h
  by_cases hroom : stack.length < py.readerDepth
  · rw [if_pos hroom] at h
    cases h
    exact ⟨hroom, rfl⟩
  · rw [if_neg hroom] at h
    cases h

/-- A character that neither opens nor closes a string, an array or an object. -/
structure Plain (c : CodePoint) : Prop where
  quote : c.is '"' = false
  brace : c.is '\x7b' = false
  bracket : c.is '[' = false
  endBracket : c.is ']' = false
  endBrace : c.is '\x7d' = false

instance (c : CodePoint) : Decidable (Plain c) :=
  decidable_of_iff (c.is '"' = false ∧ c.is '\x7b' = false ∧ c.is '[' = false ∧ c.is ']' = false
    ∧ c.is '\x7d' = false)
    ⟨fun ⟨h₁, h₂, h₃, h₄, h₅⟩ => ⟨h₁, h₂, h₃, h₄, h₅⟩,
      fun ⟨h₁, h₂, h₃, h₄, h₅⟩ => ⟨h₁, h₂, h₃, h₄, h₅⟩⟩

/-- Two characters at one code point are the same. -/
theorem is_unique {a b : Char} (ha : c.is a = true) (hb : c.is b = true) : a.toNat = b.toNat := by
  simp only [CodePoint.is, beq_iff_eq] at ha hb
  exact ha.symm.trans hb

/-- A character that is this one is no other one. -/
theorem is_ne {a b : Char} (ha : c.is a = true) (h : a.toNat ≠ b.toNat) : c.is b = false := by
  cases hb : c.is b with
  | false => rfl
  | true => exact absurd (is_unique ha hb) h

/-- A character is plain when it is another one than the five. -/
theorem plain_of_is {a : Char} (ha : c.is a = true)
    (h : a.toNat ≠ 34 ∧ a.toNat ≠ 123 ∧ a.toNat ≠ 91 ∧ a.toNat ≠ 93 ∧ a.toNat ≠ 125) :
    Plain c :=
  ⟨is_ne ha h.1, is_ne ha h.2.1, is_ne ha h.2.2.1, is_ne ha h.2.2.2.1, is_ne ha h.2.2.2.2⟩

theorem plain_of_space (h : isJsonSpace c = true) : Plain c := by
  simp only [isJsonSpace, Bool.or_eq_true] at h
  rcases h with ((h | h) | h) | h <;> exact plain_of_is h (by decide)

/-- A digit is plain. -/
theorem plain_of_digit (h : c.isDigit = true) : Plain c := by
  simp only [CodePoint.isDigit, Bool.and_eq_true, decide_eq_true_eq] at h
  constructor <;> simp only [CodePoint.is, beq_eq_false_iff_ne] <;> simp <;> omega

/-- What `startValue` leaves. -/
inductive Started (py : Interpreter) (stack : List Frame) (c : CodePoint) : Reader → Prop
  | space (h : isJsonSpace c = true) : Started py stack c ⟨stack, .value⟩
  | string (h : c.is '"' = true) : Started py stack c ⟨stack, .string false []⟩
  | object (h : c.is '\x7b' = true) (hroom : stack.length < py.readerDepth) :
      Started py stack c ⟨.dict [] :: stack, .firstName⟩
  | array (h : c.is '[' = true) (hroom : stack.length < py.readerDepth) :
      Started py stack c ⟨.list [] :: stack, .firstItem⟩
  | literal (rest : Str) (value : Value) (h : Plain c) (hgood : ∀ S F, FloatRule py F → Good S F value)
      (hdepth : value.depth = 0) (hrest : ∀ d ∈ rest, Plain d) :
      Started py stack c ⟨stack, .literal rest value⟩
  | number (n : Number) (h : Plain c) : Started py stack c ⟨stack, .number n⟩

theorem startValue_ok (h : startValue py stack c = .ok reader') : Started py stack c reader' := by
  rw [startValue] at h
  have literal := @Started.literal py stack c
  split_ifs at h with hspace hquote hbrace hbracket hn ht hf hN hI
  case pos => cases h; exact .space hspace
  case pos => cases h; exact .string hquote
  case pos =>
    obtain ⟨hroom, rfl⟩ := openFrame_ok h
    exact .object hbrace hroom
  case pos =>
    obtain ⟨hroom, rfl⟩ := openFrame_ok h
    exact .array hbracket hroom
  case pos =>
    cases h
    exact literal _ _ (plain_of_is hn (by decide)) (fun _ _ _ => trivial) rfl (by decide)
  case pos =>
    cases h
    exact literal _ _ (plain_of_is ht (by decide)) (fun _ _ _ => trivial) rfl (by decide)
  case pos =>
    cases h
    exact literal _ _ (plain_of_is hf (by decide)) (fun _ _ _ => trivial) rfl (by decide)
  case pos =>
    cases h
    exact literal _ _ (plain_of_is hN (by decide)) (fun _ _ hfloat => hfloat.nan) rfl (by decide)
  case pos =>
    cases h
    exact literal _ _ (plain_of_is hI (by decide)) (fun _ _ hfloat => hfloat.infinity) rfl
      (by decide)
  case neg =>
    cases hstart : Number.start c with
    | none =>
      rw [hstart] at h
      cases h
    | some n =>
      rw [hstart] at h
      cases h
      refine .number n ?_
      rw [Number.start] at hstart
      split_ifs at hstart with hminus hzero hdigit
      · exact plain_of_is hminus (by decide)
      · exact plain_of_is hzero (by decide)
      · exact plain_of_digit hdigit

/-- What `afterValue` leaves. -/
inductive Finished (value : Value) (c : CodePoint) : List Frame → Reader → Prop
  | space (stack : List Frame) (h : isJsonSpace c = true) :
      Finished value c stack ⟨stack, .after value⟩
  | nextItem (items : List Value) (rest : List Frame) (h : Plain c) :
      Finished value c (.list items :: rest) ⟨.list (items ++ [value]) :: rest, .value⟩
  | endList (items : List Value) (rest : List Frame) (h : c.is ']' = true) :
      Finished value c (.list items :: rest) ⟨rest, .after (.list (items ++ [value]))⟩
  | nextMember (members : Members) (name : Str) (rest : List Frame) (h : Plain c) :
      Finished value c (.member members name :: rest)
        ⟨.dict (setMember members name value) :: rest, .name⟩
  | endDict (members : Members) (name : Str) (rest : List Frame) (h : c.is '\x7d' = true) :
      Finished value c (.member members name :: rest)
        ⟨rest, .after (.dict (setMember members name value))⟩

theorem afterValue_ok (h : afterValue stack value c = .ok reader') :
    Finished value c stack reader' := by
  by_cases hspace : isJsonSpace c = true
  · unfold afterValue at h
    rw [if_pos hspace] at h
    cases h
    exact .space stack hspace
  match stack with
  | .list items :: rest =>
    simp only [afterValue, if_neg hspace] at h
    split_ifs at h with hcomma hend
    · cases h
      exact .nextItem items rest (plain_of_is hcomma (by decide))
    · cases h
      exact .endList items rest hend
  | .member members name :: rest =>
    simp only [afterValue, if_neg hspace] at h
    split_ifs at h with hcomma hend
    · cases h
      exact .nextMember members name rest (plain_of_is hcomma (by decide))
    · cases h
      exact .endDict members name rest hend
  | .dict _ :: _ | [] =>
    simp only [afterValue, if_neg hspace] at h
    cases h

/-! ## One character -/

/-- An array or object that opens here keeps the room. -/
def OpensWithin (py : Interpreter) (room : Nat) (stack : List Frame) (c : CodePoint) : Prop :=
  c.is '\x7b' = true ∨ c.is '[' = true → stack.length < py.readerDepth → stack.length < room

private theorem startValue_fits {room : Nat} (hfloat : FloatRule py F) (hopen : OpensWithin py room stack c)
    (hstack : StackFits S F room stack) (h : startValue py stack c = .ok reader') :
    Reader.Fits S F Pc room reader' := by
  cases startValue_ok h with
  | space => exact ⟨hstack, trivial⟩
  | string => exact ⟨hstack, by simp [ModeFits]⟩
  | object hc hdepth =>
    have hroom := hopen (.inl hc) hdepth
    exact ⟨⟨⟨⟨trivial, List.nodup_nil⟩, by simpa [Value.depthMembers]⟩, hroom, hstack⟩, trivial⟩
  | array hc hdepth =>
    have hroom := hopen (.inr hc) hdepth
    exact ⟨⟨⟨trivial, by simpa [Value.depthItems]⟩, hroom, hstack⟩, trivial⟩
  | literal rest value _ hgood hdepth => exact ⟨hstack, fits_scalar hstack (hgood S F hfloat) hdepth⟩
  | number => exact ⟨hstack, trivial⟩

private theorem afterValue_fits {room : Nat} (hstack : StackFits S F room stack)
    (hvalue : Fits S F room stack.length value) (h : afterValue stack value c = .ok reader') :
    Reader.Fits S F Pc room reader' := by
  cases afterValue_ok h with
  | space => exact ⟨hstack, hvalue⟩
  | nextItem items rest =>
    obtain ⟨⟨hgood, hdepth⟩, hlength, hrest⟩ := hstack
    have hlevel : value.depth + (rest.length + 1) ≤ room := hvalue.2
    refine ⟨⟨⟨goodItems_append hgood hvalue.1, ?_⟩, hlength, hrest⟩, trivial⟩
    rw [depthItems_append]
    omega
  | endList items rest =>
    obtain ⟨⟨hgood, hdepth⟩, hlength, hrest⟩ := hstack
    have hlevel : value.depth + (rest.length + 1) ≤ room := hvalue.2
    refine ⟨hrest, goodItems_append hgood hvalue.1, ?_⟩
    show Value.depthItems (items ++ [value]) + 1 + rest.length ≤ room
    rw [depthItems_append]
    omega
  | nextMember members name rest =>
    obtain ⟨⟨⟨⟨hgood, hnodup⟩, hdepth⟩, hname⟩, hlength, hrest⟩ := hstack
    have hlevel : value.depth + (rest.length + 1) ≤ room := hvalue.2
    have hset := depthMembers_set members name value
    refine ⟨⟨⟨⟨goodMembers_set hgood hname hvalue.1, setMember_nodup name value hnodup⟩, ?_⟩,
      hlength, hrest⟩, trivial⟩
    omega
  | endDict members name rest =>
    obtain ⟨⟨⟨⟨hgood, hnodup⟩, hdepth⟩, hname⟩, hlength, hrest⟩ := hstack
    have hlevel : value.depth + (rest.length + 1) ≤ room := hvalue.2
    have hset := depthMembers_set members name value
    refine ⟨hrest, ⟨goodMembers_set hgood hname hvalue.1, setMember_nodup name value hnodup⟩, ?_⟩
    show Value.depthMembers (setMember members name value) + 1 + rest.length ≤ room
    omega

/-- A string that ends meets the rule of its pieces. -/
private theorem endString_fits {room : Nat} {isName : Bool} {pieces : List Piece}
    (hrule : StringRule S Pc) (hstack : StackFits S F room stack) (hpieces : ∀ p ∈ pieces, Pc p) :
    Reader.Fits S F Pc room (endString stack isName pieces) := by
  have htext : S (joinSurrogates pieces.reverse) :=
    hrule.join _ fun p hp => hpieces p (List.mem_reverse.mp hp)
  cases isName with
  | true => exact ⟨hstack, htext⟩
  | false => exact ⟨hstack, fits_scalar hstack htext rfl⟩

/-- One more piece of a string. -/
private theorem pieces_cons {pieces : List Piece} {p : Piece} (hp : Pc p)
    (h : ∀ q ∈ pieces, Pc q) : ∀ q ∈ p :: pieces, Pc q := by
  rintro q (_ | ⟨_, hq⟩)
  · exact hp
  · exact h q hq

/-- The modes in which a value can start. -/
def Mode.isStart : Mode → Bool
  | .value | .firstItem => true
  | _ => false

/-- Every character keeps the invariant of the reader. -/
theorem step_fits {room : Nat} (hrule : StringRule S Pc) (hfloat : FloatRule py F) (hc : Pc (c, false))
    (hopen : Mode.isStart reader.mode = true → OpensWithin py room reader.stack c)
    (hfits : Reader.Fits S F Pc room reader) (h : reader.step py c = .ok reader') :
    Reader.Fits S F Pc room reader' := by
  obtain ⟨stack, mode⟩ := reader
  obtain ⟨hstack, hmode⟩ := hfits
  cases mode with
  | value => exact startValue_fits hfloat (hopen rfl) hstack h
  | firstItem =>
    simp only [Reader.step] at h
    split_ifs at h
    · cases h
      exact ⟨hstack, trivial⟩
    · split at h
      · next items rest =>
        cases h
        obtain ⟨⟨hgood, hdepth⟩, _, hrest⟩ := hstack
        refine ⟨hrest, hgood, ?_⟩
        show Value.depthItems items + 1 + rest.length ≤ _
        omega
      · cases h
    · exact startValue_fits hfloat (hopen rfl) hstack h
  | firstName =>
    simp only [Reader.step] at h
    split_ifs at h
    · cases h
      exact ⟨hstack, trivial⟩
    · cases h
      exact ⟨hstack, by simp [ModeFits]⟩
    · split at h
      · next members rest =>
        cases h
        obtain ⟨⟨hgood, hdepth⟩, _, hrest⟩ := hstack
        refine ⟨hrest, hgood, ?_⟩
        show Value.depthMembers members + 1 + rest.length ≤ _
        omega
      · cases h
  | name =>
    simp only [Reader.step] at h
    split_ifs at h
    · cases h
      exact ⟨hstack, trivial⟩
    · cases h
      exact ⟨hstack, by simp [ModeFits]⟩
  | string isName pieces =>
    simp only [Reader.step] at h
    split_ifs at h
    · cases h
      exact endString_fits hrule hstack hmode
    · cases h
      exact ⟨hstack, hmode⟩
    · cases h
      exact ⟨hstack, pieces_cons hc hmode⟩
  | escape isName pieces =>
    simp only [Reader.step] at h
    split_ifs at h
    · cases h
      exact ⟨hstack, hmode⟩
    · split at h
      · next d hd =>
        cases h
        exact ⟨hstack, pieces_cons (hrule.unescaped c d hd) hmode⟩
      · cases h
  | unicode isName pieces count digits =>
    simp only [Reader.step] at h
    split at h
    · split_ifs at h
      · cases h
        exact ⟨hstack, pieces_cons (hrule.escaped _) hmode⟩
      · cases h
        exact ⟨hstack, hmode⟩
    · cases h
  | colon name =>
    simp only [Reader.step] at h
    split_ifs at h
    · cases h
      exact ⟨hstack, hmode⟩
    · split at h
      · next members rest =>
        cases h
        exact ⟨⟨⟨hstack.1, hmode⟩, hstack.2⟩, trivial⟩
      · cases h
  | literal rest value =>
    simp only [Reader.step] at h
    split at h
    · exact afterValue_fits hstack hmode h
    · next d rest =>
      split_ifs at h with _ hempty
      · cases h
        exact ⟨hstack, hmode⟩
      · cases h
        exact ⟨hstack, hmode⟩
  | number n =>
    simp only [Reader.step] at h
    split_ifs at h
    · cases h
      exact ⟨hstack, fits_scalar hstack hfloat.negInfinity rfl⟩
    · split at h
      · cases h
        exact ⟨hstack, trivial⟩
      · obtain ⟨value, hread, hafter⟩ := bind_eq_ok.mp h
        obtain ⟨hgood, hdepth⟩ := readNumber_ok hfloat hread
        exact afterValue_fits hstack (fits_scalar hstack hgood hdepth) hafter
  | after value => exact afterValue_fits hstack hmode h

/-! ## A whole text -/

/-- The reader's end: a value at the top. -/
theorem finish_fits {room : Nat} (hfloat : FloatRule py F) (hfits : Reader.Fits S F Pc room reader)
    (h : reader.finish py = .ok value) : Good S F value ∧ value.depth ≤ room := by
  obtain ⟨stack, mode⟩ := reader
  cases mode with
  | after top =>
    simp only [Reader.finish] at h
    split_ifs at h
    cases h
    exact ⟨hfits.mode.1, le_trans (Nat.le_add_right _ _) hfits.mode.2⟩
  | number n =>
    simp only [Reader.finish] at h
    obtain ⟨top, hread, htop⟩ := bind_eq_ok.mp h
    split_ifs at htop
    cases htop
    obtain ⟨hgood, hdepth⟩ := @readNumber_ok S _ _ _ hfloat _ hread
    exact ⟨hgood, hdepth ▸ Nat.zero_le room⟩
  | _ => cases h

/-- What `json.loads` returns has strings and floats that meet the rules, distinct names in each
object and no deeper nesting than the scanner goes. -/
theorem loads_fits (hrule : StringRule S Pc) (hfloat : FloatRule py F) {text : Str} (htext : ∀ c ∈ text, Pc (c, false))
    (h : loads py text = .ok value) : Good S F value ∧ value.depth ≤ py.readerDepth := by
  rw [loads] at h
  split_ifs at h
  · cases h
  obtain ⟨reader, hread, hfinish⟩ := bind_eq_ok.mp h
  have hstart : Reader.Fits S F Pc py.readerDepth ⟨[], .value⟩ := ⟨trivial, trivial⟩
  refine @finish_fits S F Pc _ _ _ _ hfloat ?_ hfinish
  exact @foldlM_invariant _ _ _ (Reader.step py) (Reader.Fits S F Pc py.readerDepth) _
    (fun s c t hs hc => step_fits hrule hfloat hc (fun _ _ hroom => hroom) hs) _ _ _ htext hstart hread

/-- The rule that every string meets. -/
theorem anyString : StringRule (fun _ => True) (fun _ => True) :=
  ⟨fun _ _ => trivial, fun _ => trivial, fun _ _ _ => trivial⟩

/-- The rule that every float meets. -/
theorem anyFloat : FloatRule py (fun _ => True) := ⟨fun _ => trivial, trivial, trivial, trivial⟩

end

end TrustPortal.Proofs.Transcript
