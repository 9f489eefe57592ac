import Mathlib.Data.List.TakeDrop
import Mathlib.Logic.Function.Iterate
import TrustPortal.Web.Redirect

/-!
# `TrustPortal.Proofs.Web.Redirect`: a sign-in leads to the portal

`next_url_stays` is the main fact: what `safeNextUrl` takes stays on the site, however often
something decodes it on the way to the browser. The loop of the function is bounded, and it refuses
a text that is not decoded within the bound, so all the decodings of a text it takes are among
those that it looked at. A browser then has nothing to take away from such a text, and reads no
scheme and no host. The `urlsplit` at the end of the function refuses nothing more.
-/

set_option autoImplicit false

namespace TrustPortal.Proofs.Web

open TrustPortal.Web
open TrustPortal.Python

/-- A plain path: one slash, then visible ASCII without a backslash and without a slash at the
start. -/
structure PlainPath (value rest : Str) : Prop where
  eq : value = CodePoint.ofChar '/' :: rest
  visible : ∀ c ∈ value, 0x21 ≤ c.val ∧ c.val ≤ 0x7E ∧ c.is '\\' = false
  single : ∀ c, rest.head? = some c → c.is '/' = false

section
variable {value rest : Str}

/-- The only code point that is a character is that of the character. -/
private theorem eq_of_is_slash {c : CodePoint} (h : c.is '/' = true) : c = CodePoint.ofChar '/' := by
  apply CodePoint.ext
  exact beq_iff_eq.mp h

theorem plainPath (h : isPlainPath value = true) : ∃ rest, PlainPath value rest := by
  simp only [isPlainPath, Bool.and_eq_true, Option.any_eq_true, Bool.not_eq_true'] at h
  obtain ⟨⟨⟨c, hhead, hslash⟩, hdouble⟩, hall⟩ := h
  obtain rfl := eq_of_is_slash hslash
  cases value with
  | nil => cases hhead
  | cons a rest =>
    obtain rfl := Option.some_inj.mp hhead
    refine ⟨rest, rfl, fun c hc => ?_, fun c hc => ?_⟩
    · simpa [and_assoc] using List.all_eq_true.mp hall c hc
    · cases rest with
      | nil => cases hc
      | cons b rest =>
        obtain rfl := Option.some_inj.mp hc
        refine Bool.eq_false_iff.mpr fun hb => ?_
        rw [eq_of_is_slash hb] at hdouble
        cases hdouble

namespace PlainPath

/-- No character of a plain path is one that a URL parser takes away. -/
theorem kept (h : PlainPath value rest) : ∀ c ∈ value,
    isControlOrSpace c = false ∧ (!(c.is '\t' || c.is '\r' || c.is '\n')) = true := by
  intro c hc
  have hlow := (h.visible c hc).1
  have htab : c.is '\t' = false := by
    show (c.val == 9) = false
    rw [beq_eq_false_iff_ne]
    omega
  have hreturn : c.is '\r' = false := by
    show (c.val == 13) = false
    rw [beq_eq_false_iff_ne]
    omega
  have hnewline : c.is '\n' = false := by
    show (c.val == 10) = false
    rw [beq_eq_false_iff_ne]
    omega
  refine ⟨decide_eq_false (by omega), ?_⟩
  simp [htab, hreturn, hnewline]

private theorem dropWhile_kept {text : Str} (h : ∀ c ∈ text, isControlOrSpace c = false) :
    text.dropWhile isControlOrSpace = text :=
  dropWhile_of_head fun c hc => h c (List.mem_of_mem_head? hc)

theorem browserInput_eq (h : PlainPath value rest) : browserInput value = value := by
  have hkept := h.kept
  rw [browserInput, dropWhile_kept fun c hc => (hkept c hc).1,
    dropWhile_kept fun c hc => (hkept c (List.mem_reverse.mp hc)).1, List.reverse_reverse]
  exact List.filter_eq_self.mpr fun c hc => (hkept c hc).2

theorem cleanUrl_eq (h : PlainPath value rest) : cleanUrl value = value := by
  have hkept := h.kept
  show (value.dropWhile isControlOrSpace).filter _ = value
  rw [dropWhile_kept fun c hc => (hkept c hc).1]
  exact List.filter_eq_self.mpr fun c hc => (hkept c hc).2

/-- What stands before a colon of a path starts with the slash. -/
theorem partition_colon (h : PlainPath value rest) :
    (partition ':' value).1 = CodePoint.ofChar '/' :: (partition ':' rest).1 := by
  rw [h.eq, partition, partition, List.span_eq_takeWhile_dropWhile,
    List.span_eq_takeWhile_dropWhile, List.takeWhile_cons_of_pos (by decide),
    List.dropWhile_cons_of_pos (by decide)]
  cases rest.dropWhile fun c => !c.is ':' <;> rfl

/-- A path has no scheme. -/
theorem hasScheme_eq (h : PlainPath value rest) : hasScheme value = false := by
  show ((partition ':' value).2.1 && ((partition ':' value).1.head?.any CodePoint.isAsciiAlpha)
    && (partition ':' value).1.all CodePoint.isSchemeChar) = false
  have hslash : (CodePoint.ofChar '/').isAsciiAlpha = false := by decide
  simp [h.partition_colon, hslash]

/-- A plain path has no second slash and no backslash behind its slash. -/
theorem second (h : PlainPath value rest) {b : CodePoint} {more : Str} (hrest : rest = b :: more) :
    b.is '/' = false ∧ b.is '\\' = false := by
  subst hrest
  refine ⟨h.single b rfl, (h.visible b ?_).2.2⟩
  rw [h.eq]
  simp

theorem stays (h : PlainPath value rest) : staysOnSite value = true := by
  rw [staysOnSite, h.browserInput_eq, h.hasScheme_eq]
  cases hrest : rest with
  | nil => rw [h.eq, hrest]; rfl
  | cons b more =>
    rw [h.eq, hrest]
    have hb := h.second hrest
    simp [isSlash, hb.1, hb.2]

/-- `urlsplit` parses a plain path, and finds no scheme and no authority. -/
theorem urlsplit_eq (h : PlainPath value rest) (urls : UrlTables) :
    ∃ parts, urlsplit urls value [] = some parts ∧ parts.scheme = [] ∧ parts.netloc = [] := by
  have hscheme : splitScheme (cleanUrl value) [] = ([], value) := by
    rw [h.cleanUrl_eq]
    -- `splitScheme` asks what `hasScheme` asks.
    show (if hasScheme value = true then _ else ([], value)) = _
    rw [h.hasScheme_eq]
    rfl
  have hnetloc : splitNetloc value = ([], value) := by
    cases hrest : rest with
    | nil => rw [h.eq, hrest]; rfl
    | cons b more =>
      rw [h.eq, hrest]
      simp [splitNetloc, (h.second hrest).1]
  have hsplit : ∃ path query fragment, urlsplit urls value []
      = let authority := splitNetloc (splitScheme (cleanUrl value) []).2
        if validNetloc urls authority.1 then
          some ⟨(splitScheme (cleanUrl value) []).1, authority.1, path, query, fragment⟩
        else none := ⟨_, _, _, rfl⟩
  obtain ⟨path, query, fragment, hparts⟩ := hsplit
  simp only [hscheme, hnetloc] at hparts
  exact ⟨⟨[], [], path, query, fragment⟩, hparts, rfl, rfl⟩

end PlainPath

/-- A text the loop takes is a plain path, and so is every text it decodes to. -/
theorem isPlainPath_iterate {rounds : Nat} (h : decodesPlainly rounds value = true) :
    ∀ n, isPlainPath (unquote^[n] value) = true := by
  induction rounds generalizing value with
  | zero => cases h
  | succ rounds ih =>
    rw [decodesPlainly, Bool.and_eq_true, Bool.or_eq_true, decide_eq_true_iff] at h
    obtain ⟨hplain, hfixed | hmore⟩ := h
    · -- The text is decoded already.
      intro n
      rw [Function.iterate_fixed hfixed]
      exact hplain
    · intro n
      cases n with
      | zero => exact hplain
      | succ n => exact ih hmore n

end

/-- `safe_next_url` always answers. A URL that is not the fallback is the one it was given, and
after any number of decodings it is a path of the site. -/
theorem next_url_stays (urls : UrlTables) (value : Option Str) (fallback : Str) :
    ∃ url, safeNextUrl urls value fallback = some url
      ∧ (url ≠ fallback → value = some url ∧ ∀ n, staysOnSite (unquote^[n] url) = true) := by
  cases value with
  | none => exact ⟨fallback, rfl, fun h => absurd rfl h⟩
  | some value =>
    rw [safeNextUrl]
    cases hempty : value.isEmpty with
    | true => exact ⟨fallback, rfl, fun h => absurd rfl h⟩
    | false =>
      cases hloop : decodesPlainly 4 value with
      | false => exact ⟨fallback, rfl, fun h => absurd rfl h⟩
      | true =>
        have hplain := isPlainPath_iterate hloop
        obtain ⟨rest, hpath⟩ := plainPath (hplain 0)
        obtain ⟨parts, hparts, hscheme, hnetloc⟩ := hpath.urlsplit_eq urls
        refine ⟨value, ?_, fun _ => ⟨rfl, fun n => ?_⟩⟩
        · rw [show unquote^[0] value = value from rfl] at hparts
          simp [hparts, hscheme, hnetloc]
        · obtain ⟨rest, hn⟩ := plainPath (hplain n)
          exact hn.stays

end TrustPortal.Proofs.Web
