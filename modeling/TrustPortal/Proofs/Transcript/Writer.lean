import TrustPortal.Python.Layout

/-!
# `TrustPortal.Proofs.Transcript.Writer`: the characters of JSON text

Outside its strings and its layout, JSON text is printable ASCII. So what holds of every printable
ASCII character, and of every character that a string's characters are escaped to, holds of the
whole text of a value (`layoutRender_chars`, and `render_chars` for one line). `strings` collects the strings of a value, names included.
-/

set_option autoImplicit false

namespace TrustPortal.Proofs.Transcript

open TrustPortal.Python

mutual

/-- The strings of a value, the names of its members included. -/
def strings : Value → List Str
  | .str s => [s]
  | .list items => stringsItems items
  | .dict members => stringsMembers members
  | .none | .bool _ | .int _ | .float _ => []

/-- `strings` of the items of an array. -/
def stringsItems : List Value → List Str
  | [] => []
  | item :: items => strings item ++ stringsItems items

/-- `strings` of the members of an object. -/
def stringsMembers : List (Str × Value) → List Str
  | [] => []
  | (name, value) :: members => (name :: strings value) ++ stringsMembers members

end

/-- A printable ASCII character. -/
def Printable (c : CodePoint) : Prop := 0x20 ≤ c.val ∧ c.val < 0x7F

instance (c : CodePoint) : Decidable (Printable c) := inferInstanceAs (Decidable (_ ∧ _))

section
variable {Q : CodePoint → Prop} {escape : CodePoint → Str}

/-- A joined text consists of its parts and the separator. -/
theorem mem_join {separator : Str} {texts : List Str} {c : CodePoint}
    (h : c ∈ join separator texts) : c ∈ separator ∨ ∃ text ∈ texts, c ∈ text := by
  rw [join] at h
  induction texts with
  | nil => cases h
  | cons first rest ih =>
    cases rest with
    | nil =>
      rw [List.intercalate_singleton] at h
      exact .inr ⟨first, List.mem_cons_self, h⟩
    | cons second rest =>
      rw [List.intercalate_cons_cons, List.mem_append, List.mem_append] at h
      rcases h with (h | h) | h
      · exact .inr ⟨first, List.mem_cons_self, h⟩
      · exact .inl h
      · rcases ih h with h | ⟨text, htext, h⟩
        · exact .inl h
        · exact .inr ⟨text, List.mem_cons_of_mem first htext, h⟩

private theorem printable_of_mem {text : String} {c : CodePoint} (hc : c ∈ str text)
    (h : ∀ c ∈ str text, Printable c) : Printable c := h c hc

/-! ## Numbers -/

theorem printable_of_digit {c : CodePoint} (h : c.isDigit = true) : Printable c := by
  simp only [CodePoint.isDigit, Bool.and_eq_true, decide_eq_true_eq] at h
  exact ⟨by omega, by omega⟩

theorem printable_of_is {c : CodePoint} {a : Char} (h : c.is a = true)
    (ha : 0x20 ≤ a.toNat ∧ a.toNat < 0x7F) : Printable c := by
  simp only [CodePoint.is, beq_iff_eq] at h
  rw [Printable, h]
  exact ha

/-- A decimal digit of a number. -/
theorem digit_printable {d : Nat} (h : d < 10) : Printable (.ofNat (0x30 + d)) := by
  rw [Printable, CodePoint.val_ofNat (by omega)]
  omega

theorem natText_printable (n : Nat) : ∀ c ∈ natText n, Printable c := by
  intro c hc
  rw [natText] at hc
  split_ifs at hc
  · exact printable_of_mem hc (by decide)
  · rw [List.mem_reverse, List.mem_map] at hc
    obtain ⟨d, hd, rfl⟩ := hc
    exact digit_printable (Nat.digits_lt_base (by decide) hd)

theorem intText_printable (n : Integer) : ∀ c ∈ n.text, Printable c := by
  intro c hc
  rw [Integer.text] at hc
  split_ifs at hc
  · rcases List.mem_append.mp hc with hc | hc
    · exact printable_of_mem hc (by decide)
    · exact natText_printable _ c hc
  · exact natText_printable _ c hc

/-- A character that starts or goes on with a number is printable. -/
theorem start_printable {c : CodePoint} {n : Number} (h : Number.start c = some n) :
    Printable c := by
  rw [Number.start] at h
  split_ifs at h with hminus hzero hdigit
  · exact printable_of_is hminus (by decide)
  · exact printable_of_is hzero (by decide)
  · exact printable_of_digit hdigit

/-- A character of a number literal. -/
def isNumberChar (c : CodePoint) : Bool :=
  c.isDigit || c.is '.' || c.is 'e' || c.is 'E' || c.is '+' || c.is '-'

theorem isNumberChar_of_extend {n m : Number} {c : CodePoint} (h : n.extend c = some m) :
    isNumberChar c = true := by
  have hzero : c.is '0' = true → c.isDigit = true := by
    simp only [CodePoint.is, beq_iff_eq, CodePoint.isDigit]
    intro hc
    rw [hc]
    rfl
  rw [Number.extend] at h
  split at h <;> split_ifs at h <;> simp_all [isNumberChar] <;> tauto

theorem numberChar_printable {c : CodePoint} (h : isNumberChar c = true) : Printable c := by
  simp only [isNumberChar, Bool.or_eq_true] at h
  rcases h with ((((h | h) | h) | h) | h) | h
  · exact printable_of_digit h
  all_goals exact printable_of_is h (by decide)

private theorem extend_printable {text : Str} {n m : Number}
    (h : text.foldlM Number.extend n = some m) : ∀ c ∈ text, Printable c := by
  induction text generalizing n with
  | nil => nofun
  | cons c rest ih =>
    rw [List.foldlM_cons] at h
    obtain ⟨next, hnext, hrest⟩ := Option.bind_eq_some_iff.mp h
    rintro d (_ | ⟨_, hd⟩)
    · exact numberChar_printable (isNumberChar_of_extend hnext)
    · exact ih hrest d hd

/-- The text of a float is printable. -/
theorem floatText_printable (x : FloatText) : ∀ c ∈ x.val, Printable c := by
  obtain ⟨text, h⟩ := x
  simp only [isFloatText, Bool.or_eq_true, decide_eq_true_eq] at h
  rcases h with ((rfl | rfl) | rfl) | h
  · exact fun c hc => printable_of_mem hc (by decide)
  · exact fun c hc => printable_of_mem hc (by decide)
  · exact fun c hc => printable_of_mem hc (by decide)
  · cases text with
    | nil => nofun
    | cons c rest =>
      cases hn : Number.ofText (c :: rest) with
      | none =>
        rw [hn] at h
        cases h
      | some n =>
        obtain ⟨first, hfirst, hrest⟩ := Option.bind_eq_some_iff.mp hn
        rintro d (_ | ⟨_, hd⟩)
        · exact start_printable hfirst
        · exact extend_printable hrest d hd

/-! ## The text of a value -/

theorem renderString_chars (hascii : ∀ c, Printable c → Q c) {s : Str}
    (hs : ∀ c ∈ s, ∀ d ∈ escape c, Q d) : ∀ d ∈ renderString escape s, Q d := by
  intro d hd
  rw [renderString, List.mem_append, List.mem_append] at hd
  rcases hd with (hd | hd) | hd
  · exact hascii d (printable_of_mem hd (by decide))
  · obtain ⟨c, hc, hd⟩ := List.mem_flatMap.mp hd
    exact hs c hc d hd
  · exact hascii d (printable_of_mem hd (by decide))

/-- The characters of a layout. -/
structure LayoutOf (Q : CodePoint → Prop) (layout : Layout) : Prop where
  opening : ∀ level, ∀ c ∈ layout.opening level, Q c
  comma : ∀ level, ∀ c ∈ layout.comma level, Q c
  closing : ∀ level, ∀ c ∈ layout.closing level, Q c

/-- The text between two brackets. -/
private theorem bracketed_chars {layout : Layout} (hlayout : LayoutOf Q layout)
    (hascii : ∀ c, Printable c → Q c) {first last : String} {texts : List Str} {level : Nat}
    (hfirst : ∀ c ∈ str first, Printable c) (hlast : ∀ c ∈ str last, Printable c)
    (htexts : ∀ text ∈ texts, ∀ d ∈ text, Q d) :
    ∀ d ∈ str first ++ layout.enclose level texts ++ str last, Q d := by
  intro d hd
  simp only [Layout.enclose, List.mem_append] at hd
  rcases hd with (hd | (hd | hd) | hd) | hd
  · exact hascii d (hfirst d hd)
  · exact hlayout.opening level d hd
  · rcases mem_join hd with hd | ⟨text, htext, hd⟩
    · rcases List.mem_append.mp hd with hd | hd
      · exact hascii d (printable_of_mem hd (by decide))
      · exact hlayout.comma level d hd
    · exact htexts text htext d hd
  · exact hlayout.closing level d hd
  · exact hascii d (hlast d hd)

mutual

/-- What holds of printable ASCII, of the layout and of a value's escaped strings holds of its
text. -/
theorem layoutRender_chars {layout : Layout} (hlayout : LayoutOf Q layout)
    (hascii : ∀ c, Printable c → Q c) : ∀ (level : Nat) (value : Value),
      (∀ s ∈ strings value, ∀ c ∈ s, ∀ d ∈ escape c, Q d) →
      ∀ d ∈ layout.render escape level value, Q d
  | _, .none, _ => fun d hd => hascii d (printable_of_mem hd (by decide))
  | _, .bool true, _ => fun d hd => hascii d (printable_of_mem hd (by decide))
  | _, .bool false, _ => fun d hd => hascii d (printable_of_mem hd (by decide))
  | _, .int n, _ => fun d hd => hascii d (intText_printable n d hd)
  | _, .float x, _ => fun d hd => hascii d (floatText_printable x d hd)
  | _, .str s, h => renderString_chars hascii (h s (List.mem_singleton_self s))
  | _, .list [], _ => fun d hd => hascii d (printable_of_mem hd (by decide))
  | level, .list (item :: items), h =>
    bracketed_chars hlayout hascii (by decide) (by decide)
      (layoutItems_chars hlayout hascii (level + 1) (item :: items) h)
  | _, .dict [], _ => fun d hd => hascii d (printable_of_mem hd (by decide))
  | level, .dict (member :: members), h =>
    bracketed_chars hlayout hascii (by decide) (by decide)
      (layoutMembers_chars hlayout hascii (level + 1) (member :: members) h)

/-- `layoutRender_chars` for the items of an array. -/
theorem layoutItems_chars {layout : Layout} (hlayout : LayoutOf Q layout)
    (hascii : ∀ c, Printable c → Q c) : ∀ (level : Nat) (items : List Value),
      (∀ s ∈ stringsItems items, ∀ c ∈ s, ∀ d ∈ escape c, Q d) →
      ∀ text ∈ layout.renderItems escape level items, ∀ d ∈ text, Q d
  | _, [], _ => nofun
  | level, item :: items, h => by
    rintro text (_ | ⟨_, htext⟩)
    · exact layoutRender_chars hlayout hascii level item fun s hs =>
        h s (List.mem_append_left _ hs)
    · exact layoutItems_chars hlayout hascii level items
        (fun s hs => h s (List.mem_append_right _ hs)) text htext

/-- `layoutRender_chars` for the members of an object. -/
theorem layoutMembers_chars {layout : Layout} (hlayout : LayoutOf Q layout)
    (hascii : ∀ c, Printable c → Q c) : ∀ (level : Nat) (members : List (Str × Value)),
      (∀ s ∈ stringsMembers members, ∀ c ∈ s, ∀ d ∈ escape c, Q d) →
      ∀ text ∈ layout.renderMembers escape level members, ∀ d ∈ text, Q d
  | _, [], _ => nofun
  | level, (name, value) :: members, h => by
    rintro text (_ | ⟨_, htext⟩)
    · intro d hd
      rw [List.mem_append, List.mem_append] at hd
      rcases hd with (hd | hd) | hd
      · exact renderString_chars hascii (h name List.mem_cons_self) d hd
      · exact hascii d (printable_of_mem hd (by decide))
      · refine layoutRender_chars hlayout hascii level value (fun s hs => h s ?_) d hd
        exact List.mem_append_left _ (List.mem_cons_of_mem name hs)
    · exact layoutMembers_chars hlayout hascii level members
        (fun s hs => h s (List.mem_append_right _ hs)) text htext

end

/-! ### One line -/

private theorem oneLine_enclose (level : Nat) (texts : List Str) :
    Layout.oneLine.enclose level texts = join (str ", ") texts := by
  rw [Layout.enclose]
  show [] ++ join (str ", ") texts ++ [] = _
  rw [List.nil_append, List.append_nil]

mutual

/-- The text on one line is the one without `indent`. -/
theorem oneLine_render : ∀ (level : Nat) (value : Value),
    Layout.oneLine.render escape level value = render escape value
  | _, .none | _, .bool _ | _, .int _ | _, .float _ | _, .str _ => rfl
  | _, .list [] => rfl
  | level, .list (item :: items) => by
    rw [Layout.render, render, oneLine_enclose, oneLine_renderItems (level + 1) (item :: items)]
  | _, .dict [] => rfl
  | level, .dict (member :: members) => by
    rw [Layout.render, render, oneLine_enclose,
      oneLine_renderMembers (level + 1) (member :: members)]

/-- The texts of the items. -/
theorem oneLine_renderItems : ∀ (level : Nat) (items : List Value),
    Layout.oneLine.renderItems escape level items = renderItems escape items
  | _, [] => rfl
  | level, item :: items => by
    rw [Layout.renderItems, renderItems, oneLine_render level item,
      oneLine_renderItems level items]

/-- The texts of the members. -/
theorem oneLine_renderMembers : ∀ (level : Nat) (members : List (Str × Value)),
    Layout.oneLine.renderMembers escape level members = renderMembers escape members
  | _, [] => rfl
  | level, (name, value) :: members => by
    rw [Layout.renderMembers, renderMembers, oneLine_render level value,
      oneLine_renderMembers level members]

end

/-- What holds of printable ASCII and of a value's escaped strings holds of its text. -/
theorem render_chars (hascii : ∀ c, Printable c → Q c) (value : Value)
    (h : ∀ s ∈ strings value, ∀ c ∈ s, ∀ d ∈ escape c, Q d) : ∀ d ∈ render escape value, Q d := by
  have hspace : ∀ c ∈ str " ", Printable c := by decide
  have hlayout : LayoutOf Q .oneLine :=
    ⟨fun _ => nofun, fun _ c hc => hascii c (hspace c hc), fun _ => nofun⟩
  rw [← oneLine_render 0 value]
  exact layoutRender_chars hlayout hascii 0 value h

/-! ## Escapes -/

/-- A hexadecimal digit is printable. -/
theorem hexDigit_printable (n : Nat) : Printable (hexDigit n) := by
  have hdigits : ∀ d < 16, Printable (hexDigit d) := by decide
  have := hdigits (n % 16) (Nat.mod_lt _ (by decide))
  rwa [hexDigit, Nat.mod_mod] at this

theorem unicodeEscape_printable (n : Nat) : ∀ c ∈ unicodeEscape n, Printable c := by
  intro c hc
  rw [unicodeEscape, List.mem_append] at hc
  rcases hc with hc | hc
  · exact printable_of_mem hc (by decide)
  · simp only [List.mem_cons, List.not_mem_nil, or_false] at hc
    rcases hc with rfl | rfl | rfl | rfl <;> exact hexDigit_printable _

/-- A character is escaped to printable ASCII, or it is written as itself and is no control
character. -/
theorem escapeChar_chars (c : CodePoint) :
    (∀ d ∈ escapeChar c, Printable d) ∨ (escapeChar c = [c] ∧ 0x20 ≤ c.val) := by
  rw [escapeChar]
  split_ifs with _ _ _ _ _ _ _ hcontrol
  case pos => exact .inl (by decide)
  case pos => exact .inl (by decide)
  case pos => exact .inl (by decide)
  case pos => exact .inl (by decide)
  case pos => exact .inl (by decide)
  case pos => exact .inl (by decide)
  case pos => exact .inl (by decide)
  case pos => exact .inl (unicodeEscape_printable c.val)
  case neg => exact .inr ⟨rfl, Nat.not_lt.mp hcontrol⟩

end

end TrustPortal.Proofs.Transcript
