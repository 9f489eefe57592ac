import Mathlib.Data.List.TakeWhile
import TrustPortal.EvidenceStore.Iam
import TrustPortal.Python.Equality

/-!
# `TrustPortal.Proofs.EvidenceStore.BucketPolicy`: what a clean check says

A policy that `checkPolicy` has no issue with protects the store (`clean_policy_protects`), as long as
the check has read in full one of the statements that it relies on for an action and a prefix
(`ReadInFull`). There are two ways in which it does not. A condition block can have two entries whose
operators and keys differ in case only: the later one takes the place of the other, while both must
hold for IAM (`lost_entry_lets_through`). And `re.IGNORECASE` takes four letters outside ASCII for
ASCII ones, so that an action can be counted that IAM does not know. What else the policy says, of
other actions or other objects, makes no difference.

The parts of a statement come first, one lemma for each function of the check, then the loops over
the statements, the prefixes and the actions.
-/

set_option autoImplicit false

namespace TrustPortal.Proofs.EvidenceStore

open TrustPortal.EvidenceStore
open TrustPortal.EvidenceStore.BucketPolicy
open TrustPortal.Lib
open TrustPortal.Python

/-! ## Actions -/

section
variable {same same' : CodePoint → CodePoint → Bool} {pattern text rest : Str}

private theorem wildcard_cons {c : CodePoint} : wildcard same (c :: pattern) text
    = if c.is '*' then text.tails.any fun behind => wildcard same pattern behind
      else match text with
        | [] => false
        | d :: text => (c.is '?' || same c d) && wildcard same pattern text := by
  cases text <;> rfl

/-- More letters that are taken for one another match more. -/
private theorem wildcard_mono (h : ∀ c ∈ pattern, ∀ d ∈ text, same c d = true → same' c d = true)
    (hmatch : wildcard same pattern text = true) : wildcard same' pattern text = true := by
  induction pattern generalizing text with
  | nil => exact hmatch
  | cons c pattern ih =>
    have htail : ∀ {behind : Str}, (∀ d ∈ behind, d ∈ text) → wildcard same pattern behind = true →
        wildcard same' pattern behind = true := fun hsub =>
      ih fun c' hc' d hd => h c' (List.mem_cons_of_mem c hc') d (hsub d hd)
    rw [wildcard_cons] at hmatch ⊢
    by_cases hstar : c.is '*' = true
    · rw [if_pos hstar, List.any_eq_true] at hmatch ⊢
      obtain ⟨behind, hbehind, hmatch⟩ := hmatch
      exact ⟨behind, hbehind,
        htail (fun d hd => ((List.mem_tails _ _).mp hbehind).subset hd) hmatch⟩
    · rw [if_neg hstar] at hmatch ⊢
      cases text with
      | nil => exact hmatch
      | cons d text =>
        rw [Bool.and_eq_true, Bool.or_eq_true] at hmatch ⊢
        exact ⟨hmatch.1.imp_right (h c List.mem_cons_self d List.mem_cons_self),
          htail (fun e he => List.mem_cons_of_mem d he) hmatch.2⟩

/-- A text with a star behind it matches every text that starts with it. -/
private theorem wildcard_star (hsame : ∀ c, same c c = true) :
    wildcard same (text ++ str "*") (text ++ rest) = true := by
  induction text with
  | nil =>
    show wildcard same (str "*") rest = true
    rw [show str "*" = [CodePoint.ofChar '*'] from rfl, wildcard_cons, if_pos (by decide),
      List.any_eq_true]
    exact ⟨[], (List.mem_tails _ _).mpr List.nil_suffix, rfl⟩
  | cons c text ih =>
    rw [List.cons_append, List.cons_append, wildcard_cons]
    split
    · rw [List.any_eq_true]
      exact ⟨text ++ rest, (List.mem_tails _ _).mpr (List.suffix_cons c _), ih⟩
    · show ((c.is '?' || same c c) && wildcard same (text ++ str "*") (text ++ rest)) = true
      rw [hsame, Bool.or_true, Bool.true_and]
      exact ih

end

/-- The letters outside ASCII that `re.IGNORECASE` takes for ASCII ones. -/
def isLookalike (c : CodePoint) : Bool :=
  c.val = 0x130 || c.val = 0x131 || c.val = 0x17F || c.val = 0x212A

/-- Without them, letters are the same to the check that are the same to IAM. -/
private theorem sameLetter_of_ignoreCase {c d : CodePoint} (hc : isLookalike c = false)
    (hd : isLookalike d = false) (h : ignoreCase c d = true) : sameLetter c d = true := by
  have hfold : ∀ {e : CodePoint}, isLookalike e = false → foldLetter e = e.asciiLower := by
    intro e he
    simp only [isLookalike, Bool.or_eq_false_iff, decide_eq_false_iff_not] at he
    obtain ⟨⟨⟨h130, h131⟩, h17F⟩, h212A⟩ := he
    rw [foldLetter, if_neg (not_or.mpr ⟨h130, h131⟩), if_neg h17F, if_neg h212A]
  rwa [ignoreCase, hfold hc, hfold hd] at h

/-- The statement names the action, in a pattern without these letters. -/
def PlainAction (statement : Members) (action : Str) : Prop :=
  ∃ pattern, Value.str pattern ∈ asList (get statement "Action")
    ∧ wildcard ignoreCase pattern action = true ∧ ∀ c ∈ pattern, isLookalike c = false

/-- An action that is named in this way matches. -/
private theorem actionMatches_of_plain {statement : Members} {request : Request}
    (hplain : PlainAction statement request.action)
    (haction : ∀ c ∈ request.action, isLookalike c = false) :
    actionMatches (get statement "Action") request = true := by
  obtain ⟨pattern, hitem, hmatch, hletters⟩ := hplain
  refine List.any_eq_true.mpr ⟨.str pattern, hitem, ?_⟩
  exact wildcard_mono (fun c hc d hd => sameLetter_of_ignoreCase (hletters c hc) (haction d hd))
    hmatch

/-! ## Resources -/

section
variable {bucket : BucketName} {partition : Str} {folder : String}

/-- The parts of an ARN. -/
private theorem matchArn_eq {text arnPartition rest : Str}
    (h : matchArn text = some (arnPartition, rest)) :
    text = str "arn:" ++ arnPartition ++ str ":s3:::" ++ rest
      ∧ ∀ c ∈ arnPartition, c.is '$' = false := by
  rw [matchArn] at h
  obtain ⟨behind, hbehind, h⟩ := Option.bind_eq_some_iff.mp h
  rw [List.span_eq_takeWhile_dropWhile] at h
  obtain ⟨tail, htail, h⟩ := Option.bind_eq_some_iff.mp h
  rw [List.isPrefixOf?_eq_some_iff_append_eq] at hbehind htail
  split at h
  · obtain ⟨rfl, rfl⟩ := Prod.mk.inj (Option.some.inj h)
    constructor
    · rw [← hbehind, List.append_assoc, List.append_assoc, htail, List.takeWhile_append_dropWhile]
    · intro c hc
      have hletter := List.mem_takeWhile_imp hc
      simp only [CodePoint.is, Bool.or_eq_true, Bool.and_eq_true, decide_eq_true_eq,
        beq_iff_eq, beq_eq_false_iff_ne] at hletter ⊢
      have hminus : '-'.toNat = 45 := rfl
      have hdollar : '$'.toNat = 36 := rfl
      omega
  · cases h

/-- A resource that is counted for a prefix is the ARN of a text that the prefix starts with, and a
star. -/
private theorem resource_of_mem {resource : Value}
    (h : folder ∈ resourcePrefixes resource bucket.name partition) :
    ∃ literal, resource = .str (objectArn bucket partition literal ++ str "*")
      ∧ literal <+: str folder ∧ ∀ c ∈ partition, c.is '$' = false := by
  cases resource with
  | str text =>
    rw [resourcePrefixes] at h
    cases harn : matchArn text with
    | none =>
      rw [harn] at h
      cases h
    | some parts =>
      obtain ⟨arnPartition, rest⟩ := parts
      rw [harn] at h
      cases hrest : (bucket.name ++ str "/").isPrefixOf? rest with
      | none =>
        simp only [hrest] at h
        cases h
      | some tail =>
        simp only [hrest] at h
        obtain ⟨htext, hdollar⟩ := matchArn_eq harn
        rw [List.isPrefixOf?_eq_some_iff_append_eq] at hrest
        split_ifs at h with hbad hwild
        · cases h
        · cases h
        · rw [Bool.or_eq_true, not_or, Bool.not_eq_true, Bool.not_eq_false', bne_iff_ne,
            not_not] at hbad
          obtain ⟨hend, rfl⟩ := hbad
          refine ⟨tail.dropLast, ?_, List.isPrefixOf_iff_prefix.mp (List.mem_filter.mp h).2, hdollar⟩
          have hstar : tail = tail.dropLast ++ str "*" := by
            obtain ⟨init, hinit⟩ := List.isSuffixOf_iff_suffix.mp hend
            rw [htext, ← hrest] at hinit
            rcases List.eq_nil_or_concat tail with rfl | ⟨before, c, rfl⟩
            · -- without a tail the text ends in a slash
              rw [List.append_nil, ← List.append_assoc] at hinit
              have hslash := (List.append_inj' hinit rfl).2
              exact absurd hslash (by decide)
            · rw [List.concat_eq_append, ← List.append_assoc, ← List.append_assoc] at hinit
              rw [List.concat_eq_append, List.dropLast_concat, (List.append_inj' hinit rfl).2]
          rw [objectArn, htext, ← hrest]
          conv_lhs => rw [hstar]
          simp only [List.append_assoc]
  | _ => cases h

/-- The prefixes of the store have no policy variable. -/
private theorem plain_folder {literal : Str} (hfolder : folder ∈ PREFIXES)
    (h : literal <+: str folder) : ∀ c ∈ literal, c.is '$' = false := by
  have hplain : ∀ folder ∈ PREFIXES, ∀ c ∈ str folder, c.is '$' = false := by decide
  exact fun c hc => hplain folder hfolder c (h.subset hc)

/-- A prefix that is counted is a prefix of the store. -/
private theorem folder_mem {resource : Value}
    (h : folder ∈ resourcePrefixes resource bucket.name partition) : folder ∈ PREFIXES := by
  simp only [resourcePrefixes] at h
  split at h
  · split at h
    · split at h
      · split_ifs at h
        · cases h
        · cases h
        · exact (List.mem_filter.mp h).1
      · cases h
    · cases h
  · cases h

/-- A resource that is counted for a prefix matches every object under it. -/
private theorem resourceMatches_of_covered {iam : Iam} {statement : Members} {request : Request}
    (h : folder ∈ coveredPrefixes statement bucket.name partition)
    (hkey : str folder <+: request.key) :
    iam.resourceMatches bucket partition (get statement "Resource") request = true := by
  obtain ⟨resource, hresource, hfolder⟩ := List.mem_flatMap.mp h
  obtain ⟨literal, rfl, hliteral, hpartition⟩ := resource_of_mem hfolder
  obtain ⟨tail, htail⟩ := hliteral.trans hkey
  have hplain : ∀ c ∈ objectArn bucket partition literal ++ str "*", c.is '$' = false := by
    have hliteralPlain := plain_folder (folder_mem hfolder) hliteral
    have harn : ∀ c ∈ str "arn:", c.is '$' = false := by decide
    have hs3 : ∀ c ∈ str ":s3:::", c.is '$' = false := by decide
    have hslash : ∀ c ∈ str "/", c.is '$' = false := by decide
    have hstar : ∀ c ∈ str "*", c.is '$' = false := by decide
    intro c hc
    simp only [objectArn, List.mem_append] at hc
    rcases hc with (((((hc | hc) | hc) | hc) | hc) | hc) | hc
    · exact harn c hc
    · exact hpartition c hc
    · exact hs3 c hc
    · exact bucket.plain c hc
    · exact hslash c hc
    · exact hliteralPlain c hc
    · exact hstar c hc
  refine List.any_eq_true.mpr ⟨_, hresource, ?_⟩
  show wildcard _ (iam.expand request _) _ = true
  rw [iam.expand_plain request _ hplain, ← htail]
  rw [show objectArn bucket partition (literal ++ tail) = objectArn bucket partition literal ++ tail
    from (List.append_assoc _ literal tail).symm]
  exact wildcard_star fun c => decide_eq_true rfl

end

/-! ## Conditions -/

section
variable {tables : TextTables}

/-- No entry of a condition block takes the place of another one. -/
def Unambiguous (tables : TextTables) (condition : Value) : Prop :=
  ∀ operators entries, condition = .dict operators → blockEntries tables operators = some entries →
    ∀ e ∈ entries, ∀ e' ∈ entries, e.1 = e'.1 → e.2 = e'.2

/-- The last of some values. -/
private theorem foldl_last {α : Type} (xs : List α) (x : α) :
    ∃ last ∈ x :: xs, xs.foldl (fun _ y => some y) (some x) = some last := by
  induction xs generalizing x with
  | nil => exact ⟨x, List.mem_singleton_self x, rfl⟩
  | cons y rest ih =>
    obtain ⟨last, hlast, h⟩ := ih y
    exact ⟨last, List.mem_cons_of_mem x hlast, h⟩

/-- An entry that no other one takes the place of is in the dictionary. -/
private theorem mem_foldl_put {entries : List ConditionEntry}
    (h : ∀ e ∈ entries, ∀ e' ∈ entries, e.1 = e'.1 → e.2 = e'.2) {e : ConditionEntry}
    (he : e ∈ entries) : e ∈ entries.foldl (Dict.put Prod.fst) [] := by
  have hget := @Dict.get_foldl_put ConditionEntry (Str × Str) _ Prod.fst [] e.1 (fun _ x => x)
    (fun _ _ => rfl) entries
  have hfilter : e ∈ entries.filter fun x => x.1 = e.1 :=
    List.mem_filter.mpr ⟨he, decide_eq_true rfl⟩
  obtain ⟨x, xs, hxs⟩ := List.exists_cons_of_ne_nil (List.ne_nil_of_mem hfilter)
  obtain ⟨last, hlast, hfold⟩ := foldl_last xs x
  rw [hxs, List.foldl_cons, hfold] at hget
  rw [← hxs] at hlast
  obtain ⟨hmem, hkey⟩ := List.mem_filter.mp hlast
  have hkey : last.1 = e.1 := of_decide_eq_true hkey
  have hlastEq : last = e := Prod.ext hkey (h last hmem e he hkey)
  rw [hlastEq] at hget
  exact List.mem_of_find?_eq_some hget

/-- The entries that the check reads are those of the block. -/
private theorem mem_blockEntries {operators : Members} {entries : List ConditionEntry}
    (h : blockEntries tables operators = some entries) {operator key : Str} {members : Members}
    {value : Value} (hoperator : (operator, Value.dict members) ∈ operators)
    (hkey : (key, value) ∈ members) :
    ((tables.lower operator, tables.lower key), (asList value).map conditionValue) ∈ entries := by
  induction operators generalizing entries with
  | nil => cases hoperator
  | cons first rest ih =>
    obtain ⟨firstOperator, firstEntries⟩ := first
    cases firstEntries with
    | dict firstMembers =>
      obtain ⟨behind, hbehind, h⟩ := Option.bind_eq_some_iff.mp h
      obtain rfl := Option.some.inj h
      rw [List.mem_append]
      rcases List.mem_cons.mp hoperator with heq | hoperator
      · cases heq
        exact .inl (List.mem_map.mpr ⟨(key, value), hkey, rfl⟩)
      · exact .inr (ih hbehind hoperator)
    | _ => cases h

/-- Every operator of a block that is read has an object. -/
private theorem blockEntries_dict {operators : Members} {entries : List ConditionEntry}
    (h : blockEntries tables operators = some entries) {operator : Str} {value : Value}
    (hoperator : (operator, value) ∈ operators) : ∃ members, value = .dict members := by
  induction operators generalizing entries with
  | nil => cases hoperator
  | cons first rest ih =>
    obtain ⟨firstOperator, firstEntries⟩ := first
    cases firstEntries with
    | dict firstMembers =>
      obtain ⟨behind, hbehind, _⟩ := Option.bind_eq_some_iff.mp h
      rcases List.mem_cons.mp hoperator with heq | hoperator
      · cases heq
        exact ⟨firstMembers, rfl⟩
      · exact ih hbehind hoperator
    | _ => cases h

/-- A block holds when every entry that was read does. -/
private theorem conditionHolds_of_conditions {iam : Iam} {request : Request} {condition : Value}
    {found : List ConditionEntry} (hfound : conditions tables condition = some found)
    (hclear : Unambiguous tables condition)
    (h : ∀ operator key value,
      ((tables.lower operator, tables.lower key), (asList value).map conditionValue) ∈ found →
        iam.entryHolds tables operator key (asList value) request = true) :
    iam.conditionHolds tables condition request = true := by
  cases condition with
  | dict operators =>
    obtain ⟨entries, hentries, rfl⟩ := Option.map_eq_some_iff.mp hfound
    refine List.all_eq_true.mpr fun ⟨operator, value⟩ hoperator => ?_
    obtain ⟨members, rfl⟩ := blockEntries_dict hentries hoperator
    refine List.all_eq_true.mpr fun ⟨key, value⟩ hkey => h operator key value ?_
    exact mem_foldl_put (hclear operators entries rfl hentries)
      (mem_blockEntries hentries hoperator hkey)
  | _ => cases hfound

/-- A value that is read as a text is this text. -/
private theorem valueText_of_conditionValue {value : Value} {text : Str}
    (h : conditionValue value = .str text) : valueText value = some text := by
  cases value with
  | bool b => cases b <;> exact congrArg some (Value.str.inj h)
  | str s => exact congrArg some (Value.str.inj h)
  | _ => cases h

/-- The texts are the values. -/
private theorem allTexts_eq {values : List Value} {texts : List Str}
    (h : allTexts values = some texts) : values = texts.map Value.str := by
  induction values generalizing texts with
  | nil =>
    cases h
    rfl
  | cons value rest ih =>
    cases value with
    | str text =>
      obtain ⟨behind, hbehind, rfl⟩ := Option.map_eq_some_iff.mp h
      rw [ih hbehind, List.map_cons]
    | _ => cases h

/-- A requester that is not among the principals of an exception does not have it. -/
private theorem conditionHolds_of_erasure {iam : Iam} {request : Request} {condition : Value}
    {principals : List Str} (hread : erasurePrincipals tables condition = some principals)
    (hclear : Unambiguous tables condition) (hplain : ∀ p ∈ principals, isWildcard p = false)
    (hother : ∀ arn, request.principalArn = some arn → arn ∉ principals) :
    iam.conditionHolds tables condition request = true := by
  rw [erasurePrincipals] at hread
  split at hread
  · rename_i entry values hfound
    split_ifs at hread with hentry
    · have htexts := allTexts_eq (Option.filter_eq_some_iff.mp hread).1
      refine conditionHolds_of_conditions hfound hclear fun operator key value hmem => ?_
      obtain ⟨hpair, hvalues⟩ := Prod.mk.inj (List.mem_singleton.mp hmem)
      have hentry : (tables.lower operator, tables.lower key)
          = (str "arnnotequals", str "aws:principalarn") := hpair.trans hentry
      rw [Iam.entryHolds, if_pos hentry]
      cases harn : request.principalArn with
      | none => rfl
      | some arn =>
        refine List.all_eq_true.mpr fun item hitem => ?_
        have hread : conditionValue item ∈ principals.map Value.str := by
          rw [← htexts, ← hvalues]
          exact List.mem_map_of_mem hitem
        obtain ⟨p, hp, htext⟩ := List.mem_map.mp hread
        rw [valueText_of_conditionValue htext.symm]
        show (!iam.arnMatches (iam.expand request p) arn) = true
        have hwild := hplain p hp
        have hdollar : ∀ c ∈ p, c.is '$' = false := by
          intro c hc
          have hc := List.any_eq_false.mp hwild c hc
          simp only [Bool.or_eq_true, not_or, Bool.not_eq_true] at hc
          exact hc.2
        have hstar : (p.any fun c => c.is '*' || c.is '?') = false := by
          refine List.any_eq_false.mpr fun c hc => ?_
          have hc := List.any_eq_false.mp hwild c hc
          simp only [Bool.or_eq_true, not_or] at hc
          simp only [Bool.or_eq_true, not_or]
          exact hc.1
        rw [iam.expand_plain request p hdollar, iam.arn_plain p arn hstar, Bool.not_eq_true',
          decide_eq_false_iff_not]
        rintro rfl
        exact hother p harn hp
  · cases hread

/-- `["true"]` is read for a true fact. -/
private theorem holdsFor_true {value : Value}
    (h : isTrue ((asList value).map conditionValue) = true) : holdsFor (asList value) true = true := by
  cases hitems : asList value with
  | nil =>
    rw [hitems] at h
    cases h
  | cons item rest =>
    rw [hitems] at h
    cases rest with
    | cons _ _ => cases h
    | nil =>
      have htext : conditionValue item = .str (str "true") := by
        have h : (conditionValue item).isText "true" = true := h
        rw [Value.isText.eq_def] at h
        split at h
        · rename_i text heq
          rw [heq, of_decide_eq_true h]
        · cases h
      simp [holdsFor, valueText_of_conditionValue htext]

/-- A condition on `If-None-Match` holds where an object is created without it. -/
private theorem conditionHolds_of_ifNoneMatch {iam : Iam} {request : Request} {condition : Value}
    (hread : ifNoneMatchCondition tables condition = true) (htruthy : condition.truthy = true)
    (hclear : Unambiguous tables condition) (hcreating : request.creating = true)
    (hheader : request.ifNoneMatch = none) : iam.conditionHolds tables condition request = true := by
  rw [ifNoneMatchCondition, htruthy, Bool.not_true, Bool.false_or] at hread
  split at hread
  · rename_i found hfound
    rw [Bool.and_eq_true] at hread
    obtain ⟨hheld, hall⟩ := hread
    refine conditionHolds_of_conditions hfound hclear fun operator key value hmem => ?_
    have hentry := List.all_eq_true.mp hall _ hmem
    rw [Bool.or_eq_true, Bool.and_eq_true, decide_eq_true_eq, decide_eq_true_eq] at hentry
    rcases hentry with hnull | ⟨hbool, htrue⟩
    · have hvalues : isTrue ((asList value).map conditionValue) = true := by
        have hkeys : (found.map Prod.fst).Nodup := by
          cases condition with
          | dict operators =>
            obtain ⟨entries, _, rfl⟩ := Option.map_eq_some_iff.mp hfound
            exact @Dict.nodup_foldl_put ConditionEntry (Str × Str) _ Prod.fst [] (fun _ x => x)
              entries List.nodup_nil
          | _ => cases hfound
        rw [(Dict.get_eq_some_iff hkeys).mpr ⟨hmem, hnull⟩] at hheld
        exact hheld
      have hnull : (tables.lower operator, tables.lower key)
          = (str "null", str "s3:if-none-match") := hnull
      rw [Iam.entryHolds, hnull, if_neg (by decide), if_pos rfl, hheader]
      exact holdsFor_true hvalues
    · have hbool : (tables.lower operator, tables.lower key)
          = (str "bool", str "s3:objectcreationoperation") := hbool
      rw [Iam.entryHolds, hbool, if_neg (by decide), if_neg (by decide), if_pos rfl, hcreating]
      exact holdsFor_true htrue
  · cases hread

/-- Without a condition nothing has to hold. -/
private theorem conditionHolds_of_not_truthy {iam : Iam} {request : Request} {condition : Value}
    (h : condition.truthy = false) : iam.conditionHolds tables condition request = true := by
  cases condition with
  | dict operators =>
    cases operators with
    | nil => rfl
    | cons _ _ => cases h
  | _ => rfl

end

/-! ## Statements -/

/-- The check counts the statement for an action under a prefix. -/
structure Counted (bucket : BucketName) (partition : Str) (policy : Members) (action : Str)
    (folder : String) (statement : Members) : Prop where
  mem : statement ∈ statementsOf policy
  deny : isDeny statement = true
  covers : folder ∈ coveredPrefixes statement bucket.name partition
  action : coversAction statement action = true

/-- The check relies on the statement to deny an action under a prefix: it has no condition, or it
has the erasure exception and no counted statement is without a condition. -/
def ReliedOn (tables : TextTables) (bucket : BucketName) (partition : Str) (policy : Members)
    (action : Str) (folder : String) (statement : Members) : Prop :=
  Counted bucket partition policy action folder statement ∧
    ((get statement "Condition").truthy = false
      ∨ (erasurePrincipals tables (get statement "Condition")).isSome
        ∧ ∀ other, Counted bucket partition policy action folder other →
          (get other "Condition").truthy = true)

/-- The check relies on the statement to deny a `PutObject` without `If-None-Match`. -/
def GuardsWrites (tables : TextTables) (bucket : BucketName) (partition : Str) (policy : Members)
    (folder : String) (statement : Members) : Prop :=
  Counted bucket partition policy (str "s3:PutObject") folder statement
    ∧ ifNoneMatchCondition tables (get statement "Condition") = true

/-- One of the statements, if there are any, is read as IAM reads it: no entry of its condition block
is lost, and it names the action with the letters of ASCII. -/
def OneReadInFull (tables : TextTables) (action : Str) (relied : Members → Prop) : Prop :=
  (∃ statement, relied statement) → ∃ statement, relied statement
    ∧ Unambiguous tables (get statement "Condition") ∧ PlainAction statement action

/-- The check reads in full one of the statements that it relies on, for each action under each
prefix. -/
structure ReadInFull (tables : TextTables) (bucket : BucketName) (partition : Str)
    (policy : Members) : Prop where
  denials : ∀ action ∈ REQUIRED_DENIALS, ∀ folder ∈ PREFIXES,
    OneReadInFull tables (str action)
      (ReliedOn tables bucket partition policy (str action) folder)
  writes : ∀ folder ∈ PREFIXES, OneReadInFull tables (str "s3:PutObject")
    (GuardsWrites tables bucket partition policy folder)

section
variable {iam : Iam} {tables : TextTables} {bucket : BucketName} {partition : Str}
  {statement policy : Members} {request : Request} {folder : String}

/-- A statement to everyone names every requester. -/
private theorem principalMatches_of_everyone {principal : Value} (h : everyone principal = true) :
    iam.principalMatches principal request = true := by
  cases principal with
  | dict members =>
    have h : (!members.isEmpty && (members.all fun member => member.1 = str "AWS")
      && (asList (get members "AWS")).any fun item => item.isText "*") = true := h
    rw [Bool.and_eq_true] at h
    show ((asList (get members "AWS")).any (fun item => item.isText "*")
      || iam.named (.dict members) request) = true
    rw [h.2, Bool.true_or]
  | str text =>
    have h : ((Value.str text).isText "*" || false) = true := h
    rw [Bool.or_false] at h
    show ((Value.str text).isText "*" || false || iam.named (.str text) request) = true
    rw [h, Bool.true_or, Bool.true_or]
  | _ => cases h

/-- An element without its negation. -/
private theorem elementMatches_of_none {name negated : String} {matchesValue : Value → Bool}
    (h : (find statement (str negated)).isNone = true) (hmatch : matchesValue (get statement name) = true) :
    elementMatches statement name negated matchesValue = true := by
  rw [elementMatches, Option.isNone_iff_eq_none.mp h]
  exact hmatch

/-- A counted statement denies the request where its condition holds. -/
private theorem denied_of_counted
    (hcounted : Counted bucket partition policy request.action folder statement)
    (hplain : PlainAction statement request.action)
    (haction : ∀ c ∈ request.action, isLookalike c = false) (hkey : str folder <+: request.key)
    (hcondition : iam.conditionHolds tables (get statement "Condition") request = true) :
    iam.denied tables bucket partition policy request = true := by
  refine List.any_eq_true.mpr ⟨statement, hcounted.mem, ?_⟩
  have hdeny := hcounted.deny
  simp only [isDeny, Bool.and_eq_true, List.all_cons, List.all_nil] at hdeny
  obtain ⟨⟨heffect, heveryone⟩, hnotAction, hnotResource, hnotPrincipal, _⟩ := hdeny
  simp only [Iam.denies, Bool.and_eq_true]
  exact ⟨⟨⟨⟨heffect,
    elementMatches_of_none hnotPrincipal (principalMatches_of_everyone heveryone)⟩,
    elementMatches_of_none hnotAction (actionMatches_of_plain hplain haction)⟩,
    elementMatches_of_none hnotResource (resourceMatches_of_covered hcounted.covers hkey)⟩,
    hcondition⟩

/-- The statements that the loops go through, with the prefixes they cover. -/
private theorem mem_deniesOf_iff {covered : List String} {action : Str} :
    ((statement, covered) ∈ deniesOf policy bucket.name partition ∧ folder ∈ covered
        ∧ coversAction statement action = true)
      ↔ covered = coveredPrefixes statement bucket.name partition
        ∧ Counted bucket partition policy action folder statement := by
  rw [deniesOf, List.mem_map]
  constructor
  · rintro ⟨⟨counted, hcounted, heq⟩, hfolder, hcovers⟩
    obtain ⟨rfl, rfl⟩ := Prod.mk.inj heq
    obtain ⟨hmem, hdeny⟩ := List.mem_filter.mp hcounted
    exact ⟨rfl, hmem, hdeny, hfolder, hcovers⟩
  · rintro ⟨rfl, hcounted⟩
    exact ⟨⟨statement, List.mem_filter.mpr ⟨hcounted.mem, hcounted.deny⟩, rfl⟩, hcounted.covers,
      hcounted.action⟩

end

/-! ## The loops -/

section
variable {tables : TextTables} {denies : List (Members × List String)} {action : Str}
  {folder : String}

/-- A statement without a condition ends the search. -/
private theorem exceptedFrom_none (h : exceptedFrom tables action folder denies = none) :
    ∃ statement covered, (statement, covered) ∈ denies ∧ folder ∈ covered
      ∧ coversAction statement action = true ∧ (get statement "Condition").truthy = false := by
  induction denies with
  | nil => cases h
  | cons first rest ih =>
    obtain ⟨statement, covered⟩ := first
    rw [exceptedFrom] at h
    split_ifs at h with hskip hcondition
    · obtain ⟨found, foundCovered, hmem, hfound⟩ := ih h
      exact ⟨found, foundCovered, List.mem_cons_of_mem _ hmem, hfound⟩
    · rw [not_or, not_not, Bool.not_eq_false] at hskip
      refine ⟨statement, covered, List.mem_cons_self, hskip.1, hskip.2, ?_⟩
      rwa [Bool.not_eq_true'] at hcondition
    · obtain ⟨found, foundCovered, hmem, hfound⟩ := ih (Option.map_eq_none_iff.mp h)
      exact ⟨found, foundCovered, List.mem_cons_of_mem _ hmem, hfound⟩

/-- Principals that are left out come from the exception of a statement. -/
private theorem exceptedFrom_some {excepted : List Str} (hne : excepted ≠ [])
    (h : exceptedFrom tables action folder denies = some excepted) :
    ∃ statement covered principals, (statement, covered) ∈ denies ∧ folder ∈ covered
      ∧ coversAction statement action = true
      ∧ erasurePrincipals tables (get statement "Condition") = some principals := by
  induction denies generalizing excepted with
  | nil =>
    cases h
    exact absurd rfl hne
  | cons first rest ih =>
    obtain ⟨statement, covered⟩ := first
    rw [exceptedFrom] at h
    split_ifs at h with hskip hcondition
    · obtain ⟨found, foundCovered, principals, hmem, hfound⟩ := ih hne h
      exact ⟨found, foundCovered, principals, List.mem_cons_of_mem _ hmem, hfound⟩
    · rw [not_or, not_not, Bool.not_eq_false] at hskip
      obtain ⟨behind, hbehind, rfl⟩ := Option.map_eq_some_iff.mp h
      cases hread : erasurePrincipals tables (get statement "Condition") with
      | some principals =>
        exact ⟨statement, covered, principals, List.mem_cons_self, hskip.1, hskip.2, hread⟩
      | none =>
        rw [hread] at hne
        obtain ⟨found, foundCovered, principals, hmem, hfound⟩ := ih hne hbehind
        exact ⟨found, foundCovered, principals, List.mem_cons_of_mem _ hmem, hfound⟩

/-- Where principals are left out, every statement for the action has a condition, and those that its
exception names are among them. -/
private theorem exceptedFrom_subset {excepted : List Str} {statement : Members}
    {covered : List String} (h : exceptedFrom tables action folder denies = some excepted)
    (hmem : (statement, covered) ∈ denies) (hfolder : folder ∈ covered)
    (hcovers : coversAction statement action = true) :
    (get statement "Condition").truthy = true
      ∧ ∀ principals, erasurePrincipals tables (get statement "Condition") = some principals →
        principals ⊆ excepted := by
  induction denies generalizing excepted with
  | nil => cases hmem
  | cons first rest ih =>
    rw [exceptedFrom] at h
    rcases List.mem_cons.mp hmem with rfl | hmem
    · -- The statement itself is not skipped.
      split_ifs at h with hskip hcondition
      · rcases hskip with hskip | hskip
        · exact absurd hfolder hskip
        · rw [hskip] at hcovers
          cases hcovers
      · obtain ⟨behind, -, rfl⟩ := Option.map_eq_some_iff.mp h
        rw [Bool.not_eq_true', Bool.not_eq_false] at hcondition
        refine ⟨hcondition, fun principals hread => ?_⟩
        rw [hread]
        exact List.subset_append_left _ _
    · split_ifs at h with hskip hcondition
      · exact ih h hmem
      · obtain ⟨behind, hbehind, rfl⟩ := Option.map_eq_some_iff.mp h
        obtain ⟨htruthy, hsub⟩ := ih hbehind hmem
        exact ⟨htruthy, fun principals hread =>
          List.Subset.trans (hsub principals hread) (List.subset_append_right _ _)⟩

/-- The action is denied under the prefix, to all but the principals. -/
private def Guarded (tables : TextTables) (denies : List (Members × List String)) (action : Str)
    (principals : List Str) (folder : String) : Prop :=
  exceptedFrom tables action folder denies = none
    ∨ ∃ excepted, exceptedFrom tables action folder denies = some excepted ∧ excepted ≠ []
      ∧ excepted ⊆ principals

/-- More principals are no harm. -/
private theorem Guarded.mono {principals more : List Str} (hmore : principals ⊆ more)
    (h : Guarded tables denies action principals folder) : Guarded tables denies action more folder :=
  h.imp_right fun ⟨excepted, hexcepted, hne, hsub⟩ => ⟨excepted, hexcepted, hne, List.Subset.trans hsub hmore⟩

/-- The round of the loop over the prefixes. -/
private def folderStep (tables : TextTables) (denies : List (Members × List String)) (action : Str)
    (acc : List String × List Str) (folder : String) : List String × List Str :=
  match exceptedFrom tables action folder denies with
  | none => acc
  | some [] => (acc.1 ++ [folder], acc.2)
  | some excepted => (acc.1, acc.2 ++ excepted.filter fun p => p ∉ acc.2)

private theorem checkAction_eq {principals : List Str} : checkAction tables denies action principals
    = PREFIXES.foldl (folderStep tables denies action) ([], principals) := rfl

/-- A round keeps the principals, and misses the prefix or has it guarded. -/
private theorem folderStep_spec (acc : List String × List Str) :
    acc.2 ⊆ (folderStep tables denies action acc folder).2
      ∧ ((folderStep tables denies action acc folder).1 = [] → acc.1 = []
        ∧ Guarded tables denies action (folderStep tables denies action acc folder).2 folder) := by
  rw [folderStep]
  split
  · rename_i hnone
    exact ⟨List.Subset.refl _, fun h => ⟨h, .inl hnone⟩⟩
  · exact ⟨List.Subset.refl _, fun h => absurd (List.append_eq_nil_iff.mp h).2 (List.cons_ne_nil _ _)⟩
  · rename_i excepted hempty hsome
    refine ⟨List.subset_append_left _ _, fun h => ⟨h, .inr ⟨excepted, hsome, ?_, ?_⟩⟩⟩
    · rintro rfl
      exact hempty rfl
    · intro p hp
      by_cases hold : p ∈ acc.2
      · exact List.mem_append_left _ hold
      · exact List.mem_append_right _ (List.mem_filter.mpr ⟨hp, decide_eq_true hold⟩)

/-- The loop over the prefixes: when none is missing, each one is guarded. -/
private theorem foldl_folderStep (folders : List String) (acc : List String × List Str) :
    acc.2 ⊆ (folders.foldl (folderStep tables denies action) acc).2
      ∧ ((folders.foldl (folderStep tables denies action) acc).1 = [] → acc.1 = []
        ∧ ∀ folder ∈ folders,
          Guarded tables denies action (folders.foldl (folderStep tables denies action) acc).2 folder) := by
  induction folders generalizing acc with
  | nil => exact ⟨List.Subset.refl _, fun h => ⟨h, fun _ h => nomatch h⟩⟩
  | cons folder rest ih =>
    obtain ⟨hkeeps, hround⟩ := @folderStep_spec tables denies action folder acc
    obtain ⟨hkeepsRest, hrest⟩ := ih (folderStep tables denies action acc folder)
    refine ⟨List.Subset.trans hkeeps hkeepsRest, fun h => ?_⟩
    obtain ⟨hnone, hguarded⟩ := hrest h
    obtain ⟨hacc, hfirst⟩ := hround hnone
    refine ⟨hacc, fun other hother => ?_⟩
    rcases List.mem_cons.mp hother with rfl | hother
    · exact hfirst.mono hkeepsRest
    · exact hguarded other hother

/-- The round of the loop over the actions. -/
private def actionStep (tables : TextTables) (denies : List (Members × List String))
    (acc : List Issue × List Str) (action : String) : List Issue × List Str :=
  let result := checkAction tables denies (str action) acc.2
  (if result.1.isEmpty then acc.1 else acc.1 ++ [.notDenied action result.1], result.2)

/-- The loop over the actions: without an issue, each one is guarded under every prefix. -/
private theorem foldl_actionStep (actions : List String) (acc : List Issue × List Str) :
    acc.2 ⊆ (actions.foldl (actionStep tables denies) acc).2
      ∧ ((actions.foldl (actionStep tables denies) acc).1 = [] → acc.1 = []
        ∧ ∀ action ∈ actions, ∀ folder ∈ PREFIXES, Guarded tables denies (str action)
          (actions.foldl (actionStep tables denies) acc).2 folder) := by
  induction actions generalizing acc with
  | nil => exact ⟨List.Subset.refl _, fun h => ⟨h, fun _ h => nomatch h⟩⟩
  | cons action rest ih =>
    obtain ⟨hkeeps, hround⟩ := @foldl_folderStep tables denies (str action) PREFIXES ([], acc.2)
    rw [← checkAction_eq] at hkeeps hround
    obtain ⟨hkeepsRest, hrest⟩ := ih (actionStep tables denies acc action)
    refine ⟨List.Subset.trans hkeeps hkeepsRest, fun h => ?_⟩
    obtain ⟨hnone, hguarded⟩ := hrest h
    rw [actionStep] at hnone
    dsimp only at hnone
    split_ifs at hnone with hempty
    · refine ⟨hnone, fun other hother => ?_⟩
      rcases List.mem_cons.mp hother with rfl | hother
      · exact fun folder hfolder =>
          ((hround (List.isEmpty_iff.mp hempty)).2 folder hfolder).mono hkeepsRest
      · exact hguarded other hother
    · exact absurd (List.append_eq_nil_iff.mp hnone).2 (List.cons_ne_nil _ _)

end

/-! ## The check -/

section
variable {tables : TextTables} {py : Interpreter} {region partition : Option Str} {text : Str}
  {bucket : BucketName} {policy : Members}

/-- The names of the actions are ASCII. -/
private theorem plain_actions : (∀ action ∈ REQUIRED_DENIALS, ∀ c ∈ str action, isLookalike c = false)
    ∧ ∀ c ∈ str "s3:PutObject", isLookalike c = false := by
  decide

variable {iam : Iam} {partition' : Str}

/-- For an action that is guarded under a prefix there is a statement to rely on. -/
private theorem reliedOn_of_guarded {principals : List Str} {action : Str} {folder : String}
    (hguarded : Guarded tables (deniesOf policy bucket.name partition') action principals folder) :
    ∃ statement, ReliedOn tables bucket partition' policy action folder statement := by
  rcases hguarded with hnone | ⟨excepted, hexcepted, hne, -⟩
  · obtain ⟨statement, covered, hmem, hfolder, hcovers, hcondition⟩ := exceptedFrom_none hnone
    exact ⟨statement, (mem_deniesOf_iff.mp ⟨hmem, hfolder, hcovers⟩).2, .inl hcondition⟩
  · obtain ⟨statement, covered, named, hmem, hfolder, hcovers, hnamed⟩ :=
      exceptedFrom_some hne hexcepted
    refine ⟨statement, (mem_deniesOf_iff.mp ⟨hmem, hfolder, hcovers⟩).2, .inr ⟨?_, ?_⟩⟩
    · rw [hnamed]
      rfl
    · intro other hother
      obtain ⟨hmem, hfolder, hcovers⟩ := mem_deniesOf_iff.mpr ⟨rfl, hother⟩
      exact (exceptedFrom_subset hexcepted hmem hfolder hcovers).1

/-- An action that is guarded under a prefix is denied to all but the principals. -/
private theorem denied_of_guarded {principals : List Str} {request : Request} {folder : String}
    (hread : OneReadInFull tables request.action
      (ReliedOn tables bucket partition' policy request.action folder))
    (hguarded : Guarded tables (deniesOf policy bucket.name partition') request.action principals
      folder)
    (haction : ∀ c ∈ request.action, isLookalike c = false)
    (hwild : ∀ p ∈ principals, isWildcard p = false) (hkey : str folder <+: request.key)
    (hother : ∀ arn, request.principalArn = some arn → arn ∉ principals) :
    iam.denied tables bucket partition' policy request = true := by
  obtain ⟨statement, ⟨hcounted, hcondition⟩, hclear, hplain⟩ :=
    hread (reliedOn_of_guarded hguarded)
  refine denied_of_counted hcounted hplain haction hkey ?_
  rcases hcondition with hcondition | ⟨hnamed, hall⟩
  · exact conditionHolds_of_not_truthy hcondition
  · obtain ⟨named, hnamed⟩ := Option.isSome_iff_exists.mp hnamed
    -- The check has taken the names of the exception for principals.
    have hsub : named ⊆ principals := by
      rcases hguarded with hnone | ⟨excepted, hexcepted, -, hsub⟩
      · obtain ⟨free, covered, hmem, hfolder, hcovers, hfree⟩ := exceptedFrom_none hnone
        have htruthy := hall free (mem_deniesOf_iff.mp ⟨hmem, hfolder, hcovers⟩).2
        rw [hfree] at htruthy
        cases htruthy
      · obtain ⟨hmem, hfolder, hcovers⟩ := mem_deniesOf_iff.mpr ⟨rfl, hcounted⟩
        exact List.Subset.trans
          ((exceptedFrom_subset hexcepted hmem hfolder hcovers).2 named hnamed) hsub
    exact conditionHolds_of_erasure hnamed hclear (fun p hp => hwild p (hsub hp))
      fun arn harn hmem => hother arn harn (hsub hmem)

/-- A policy without an issue protects the store, where the check reads in full one of the statements
that it relies on. -/
theorem clean_policy_protects (iam : Iam) {principals : List Str}
    (h : checkPolicy tables py region (some text) bucket.name partition = ([], principals))
    (hread : ∀ policy, loadPolicy py text = .ok (.dict policy) →
      ReadInFull tables bucket (partitionOr region partition) policy) :
    ∃ policy, loadPolicy py text = .ok (.dict policy)
      ∧ Protects iam tables bucket (partitionOr region partition) policy principals := by
  rw [checkPolicy] at h
  split at h
  · cases h
  · cases h
  · rename_i policy hload
    refine ⟨policy, hload, ?_⟩
    have hread := hread policy hload
    rw [checkStatements] at h
    dsimp only at h
    obtain ⟨hissues, rfl⟩ := Prod.mk.inj h
    obtain ⟨hissues, hunguarded⟩ := List.append_eq_nil_iff.mp hissues
    obtain ⟨hactions, hwildcards⟩ := List.append_eq_nil_iff.mp hissues
    rw [List.map_eq_nil_iff, List.filter_eq_nil_iff] at hwildcards
    constructor
    · intro request haction ⟨folder, hfolder, hkey⟩ hother
      obtain ⟨action, haction, hname⟩ := List.mem_map.mp haction
      have hguarded := (foldl_actionStep REQUIRED_DENIALS ([], [])).2 hactions |>.2 action haction
        folder hfolder
      have hrelied := hread.denials action haction folder hfolder
      have hplain := plain_actions.1 action haction
      rw [hname] at hguarded hrelied hplain
      exact denied_of_guarded hrelied hguarded hplain
        (fun p hp => Bool.not_eq_true _ ▸ hwildcards p hp) hkey hother
    · intro request haction ⟨folder, hfolder, hkey⟩ hcreating hheader
      split_ifs at hunguarded with hempty
      have hguarded := List.filter_eq_nil_iff.mp (List.isEmpty_iff.mp hempty) folder hfolder
      rw [Bool.not_eq_true', Bool.not_eq_false, List.any_eq_true] at hguarded
      obtain ⟨⟨counted, covered⟩, hmem, hguarded⟩ := hguarded
      simp only [Bool.and_eq_true, decide_eq_true_eq] at hguarded
      obtain ⟨⟨hcovered, hcovers⟩, hguards⟩ := hguarded
      obtain ⟨statement, ⟨hcounted, hcondition⟩, hclear, hplain⟩ :=
        hread.writes folder hfolder ⟨counted, (mem_deniesOf_iff.mp ⟨hmem, hcovered, hcovers⟩).2,
          hguards⟩
      rw [← haction] at hcounted hplain
      refine denied_of_counted hcounted hplain (haction ▸ plain_actions.2) hkey ?_
      cases htruthy : (get statement "Condition").truthy with
      | false => exact conditionHolds_of_not_truthy htruthy
      | true => exact conditionHolds_of_ifNoneMatch hcondition htruthy hclear hcreating hheader
  · cases h

end

/-! ## Two policies -/

/-- An interpreter for texts without floats. -/
private def policyInterpreter : Interpreter where
  readerDepth := 990
  writerDepth := 990
  float := fun _ => floatNaN
  strOf := fun _ => []
  fromTimestamp := fun _ => none
  fromIsoformat := fun _ => none

/-- An IAM without wildcards in ARNs and without policy variables. -/
def plainIam : Iam where
  named := fun _ _ => false
  arnMatches := fun pattern arn => pattern = arn
  expand := fun _ text => text
  other := fun _ _ _ => false
  arn_plain := fun _ _ _ => rfl
  expand_plain := fun _ _ _ => rfl

/-- A bucket. -/
def evidenceBucket : BucketName := ⟨str "evidence", by decide⟩

/-- A role. -/
def roleArn (name : String) : Str := str "arn:aws:iam::111122223333:role/" ++ str name

/-- A statement that denies the actions on the objects under a condition. -/
def denyStatement (actions : List String) (objects : String) (condition : Members) : Members :=
  [(str "Effect", .str (str "Deny")), (str "Principal", .str (str "*")),
    (str "Action", .list (actions.map fun action => .str (str action))),
    (str "Resource", .str (str "arn:aws:s3:::evidence/" ++ str objects)),
    (str "Condition", .dict condition)]

/-- The entry that leaves out a role. -/
def exceptRole (operator name : String) : Str × Value :=
  (str operator, .dict [(str "aws:PrincipalArn", .str (roleArn name))])

/-- The condition on a `PutObject` without `If-None-Match`. -/
def withoutHeader : Members := [(str "Null", .dict [(str "s3:if-none-match", .str (str "true"))])]

/-- The denials with an erasure exception. -/
def erasureStatement (exceptions : Members) : Members :=
  denyStatement REQUIRED_DENIALS "*" exceptions

/-- A `PutObject` needs the header. -/
def writeStatement : Members := denyStatement ["s3:PutObject"] "*" withoutHeader

/-- A statement about other objects, which two roles may read: its condition loses an entry. -/
def siteStatement : Members :=
  denyStatement ["s3:GetObject"] "site/*"
    [exceptRole "ArnNotEquals" "reader", exceptRole "arnnotequals" "editor"]

/-- A policy with an erasure exception. -/
def storePolicy (exceptions : Members) (others : List Members) : Members :=
  [(str "Statement",
    .list ((erasureStatement exceptions :: writeStatement :: others).map Value.dict))]

/-- The text of a policy. -/
def policyText (policy : Members) : Str := render escapeCharAscii (.dict policy)

/-- A block with one entry loses none. -/
private theorem unambiguous_single {tables : TextTables} {operator key : Str} {value : Value} :
    Unambiguous tables (.dict [(operator, .dict [(key, value)])]) := by
  intro operators entries hcondition hentries e he e' he' _
  cases hcondition
  obtain rfl : [((tables.lower operator, tables.lower key), (asList value).map conditionValue)]
      = entries := Option.some.inj hentries
  rw [List.mem_singleton.mp he, List.mem_singleton.mp he']

/-- The policy with the documented exception is read in full, whatever it says of other objects. -/
private theorem storePolicy_readInFull :
    ReadInFull TextTables.ascii evidenceBucket (partitionOr none none)
      (storePolicy [exceptRole "ArnNotEquals" "eraser"] [siteStatement]) := by
  have hstatements : statementsOf (storePolicy [exceptRole "ArnNotEquals" "eraser"] [siteStatement])
      = [erasureStatement [exceptRole "ArnNotEquals" "eraser"], writeStatement, siteStatement] := rfl
  constructor
  · intro action haction folder hfolder _
    have hcovers : ∀ folder ∈ PREFIXES,
        folder ∈ coveredPrefixes (erasureStatement [exceptRole "ArnNotEquals" "eraser"])
          evidenceBucket.name (partitionOr none none) := by
      decide +kernel
    have hactions : ∀ action ∈ REQUIRED_DENIALS,
        coversAction (erasureStatement [exceptRole "ArnNotEquals" "eraser"]) (str action) = true
          ∧ wildcard ignoreCase (str action) (str action) = true := by
      decide +kernel
    refine ⟨erasureStatement [exceptRole "ArnNotEquals" "eraser"],
      ⟨⟨?_, by decide +kernel, hcovers folder hfolder, (hactions action haction).1⟩,
        .inr ⟨by decide +kernel, ?_⟩⟩, unambiguous_single, str action, ?_, (hactions action haction).2,
      plain_actions.1 action haction⟩
    · rw [hstatements]
      exact List.mem_cons_self
    · intro other hother
      have hmem := hother.mem
      rw [hstatements, List.mem_cons, List.mem_cons, List.mem_singleton] at hmem
      rcases hmem with rfl | rfl | rfl <;> rfl
    · exact List.mem_map_of_mem haction
  · intro folder hfolder _
    have hcovers : ∀ folder ∈ PREFIXES,
        folder ∈ coveredPrefixes writeStatement evidenceBucket.name (partitionOr none none) := by
      decide +kernel
    refine ⟨writeStatement,
      ⟨⟨?_, by decide +kernel, hcovers folder hfolder, by decide +kernel⟩, by decide +kernel⟩,
      unambiguous_single, str "s3:PutObject", List.mem_singleton_self _, by decide +kernel,
      plain_actions.2⟩
    rw [hstatements]
    exact List.mem_cons_of_mem _ List.mem_cons_self

/-- A policy with one exception that has no issue, and a statement about other objects. -/
theorem clean_policy_protects_eraser :
    ∃ policy, loadPolicy policyInterpreter
        (policyText (storePolicy [exceptRole "ArnNotEquals" "eraser"] [siteStatement]))
          = .ok (.dict policy)
      ∧ Protects plainIam TextTables.ascii evidenceBucket (partitionOr none none) policy
        [roleArn "eraser"] := by
  have hload : loadPolicy policyInterpreter
      (policyText (storePolicy [exceptRole "ArnNotEquals" "eraser"] [siteStatement]))
      = .ok (.dict (storePolicy [exceptRole "ArnNotEquals" "eraser"] [siteStatement])) := by
    decide +kernel
  refine clean_policy_protects plainIam (by decide +kernel) fun policy hpolicy => ?_
  rw [hload] at hpolicy
  cases hpolicy
  exact storePolicy_readInFull

/-- Two entries of a condition whose operators differ in case only. Both roles must be other ones for
IAM to deny, so that the first role may delete. The check has no issue, and names the second role
only. -/
theorem lost_entry_lets_through :
    let policy :=
      storePolicy [exceptRole "ArnNotEquals" "first", exceptRole "arnnotequals" "second"] []
    loadPolicy policyInterpreter (policyText policy) = .ok (.dict policy)
      ∧ checkPolicy TextTables.ascii policyInterpreter none (some (policyText policy))
        evidenceBucket.name none = ([], [roleArn "second"])
      ∧ ¬Protects plainIam TextTables.ascii evidenceBucket (partitionOr none none) policy
        [roleArn "second"] := by
  refine ⟨by decide +kernel, by decide +kernel, ?_⟩
  intro h
  have hdenied := h.denials ⟨str "s3:DeleteObjectVersion", str "decision-logs/a",
    some (roleArn "first"), none, false⟩ (by decide) ⟨"decision-logs/", by decide, by decide⟩
    (by
      intro arn harn
      cases harn
      decide +kernel)
  exact absurd hdenied (by decide +kernel)

end TrustPortal.Proofs.EvidenceStore
