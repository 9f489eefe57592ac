import Mathlib.Data.List.Nodup

/-!
# `TrustPortal.Lib.Dict`: dictionaries as lists

A dictionary of values that carry their own key is a list whose keys are different. `get` looks
a key up and `put` adds a value, in the place of the one with the same key if there is one.

A loop often builds a dictionary by combining each value with what the dictionary has for its key.
`get_foldl_put` says that what it has for one key in the end comes from the values with this key
alone, in their order.
-/

set_option autoImplicit false

namespace TrustPortal.Lib.Dict

section
variable {α κ : Type} [DecidableEq κ] (key : α → κ)

/-- The value with a key. -/
def get (dict : List α) (k : κ) : Option α := dict.find? fun a => key a = k

/-- A dictionary with one value more. -/
def put : List α → α → List α
  | [], a => [a]
  | b :: rest, a => if key b = key a then a :: rest else b :: put rest a

variable {key}
variable {dict : List α} {a b : α} {k : κ}

/-- The value that is found has the key. -/
theorem key_of_get (h : get key dict k = some a) : key a = k := by
  have hfound := List.find?_some h
  simpa using hfound

/-- With different keys, a value is found by its key when it is there. -/
theorem get_eq_some_iff (hkeys : (dict.map key).Nodup) :
    get key dict k = some a ↔ a ∈ dict ∧ key a = k := by
  constructor
  · exact fun h => ⟨List.mem_of_find?_eq_some h, key_of_get h⟩
  · rintro ⟨hmem, rfl⟩
    induction dict with
    | nil => cases hmem
    | cons b rest ih =>
      rw [List.map_cons, List.nodup_cons] at hkeys
      rcases List.mem_cons.mp hmem with rfl | hmem
      · exact List.find?_cons_of_pos (by simp)
      · have hne : key b ≠ key a := fun heq => hkeys.1 (heq ▸ List.mem_map_of_mem hmem)
        rw [get, List.find?_cons_of_neg (by simpa using hne)]
        exact ih hkeys.2 hmem

/-- What a part of a dictionary with different keys has. -/
theorem get_filter (hkeys : (dict.map key).Nodup) (p : α → Bool) :
    get key (dict.filter p) k = (get key dict k).filter p := by
  have hpart : ((dict.filter p).map key).Nodup := hkeys.sublist (List.filter_sublist.map key)
  ext a
  rw [get_eq_some_iff hpart, List.mem_filter, Option.filter_eq_some_iff, get_eq_some_iff hkeys]
  tauto

/-- What a dictionary has after `put`. -/
theorem get_put : get key (put key dict a) k = if key a = k then some a else get key dict k := by
  induction dict with
  | nil =>
    rw [put, get, get]
    by_cases hk : key a = k <;> simp [hk]
  | cons b rest ih =>
    rw [put]
    by_cases hb : key b = key a
    · rw [if_pos hb, get, get]
      by_cases hk : key a = k
      · simp [hk]
      · rw [if_neg hk, List.find?_cons_of_neg (by simpa using hk),
          List.find?_cons_of_neg (by simpa [hb] using hk)]
    · rw [if_neg hb]
      by_cases hbk : key b = k
      · have hne : key a ≠ k := fun hk => hb (hbk.trans hk.symm)
        rw [if_neg hne, get, get, List.find?_cons_of_pos (by simpa using hbk),
          List.find?_cons_of_pos (by simpa using hbk)]
      · rw [get, List.find?_cons_of_neg (by simpa using hbk), get,
          List.find?_cons_of_neg (by simpa using hbk)]
        exact ih

/-- A key of the dictionary with one value more. -/
theorem mem_keys_put : k ∈ (put key dict a).map key ↔ k = key a ∨ k ∈ dict.map key := by
  induction dict with
  | nil => simp [put]
  | cons b rest ih =>
    rw [put]
    split_ifs with hb
    · simp [hb]
    · rw [List.map_cons, List.mem_cons, ih, List.map_cons, List.mem_cons]
      tauto

/-- A value of the dictionary with one value more. -/
theorem mem_put (h : b ∈ put key dict a) : b = a ∨ b ∈ dict := by
  induction dict with
  | nil => exact .inl (List.mem_singleton.mp h)
  | cons c rest ih =>
    rw [put] at h
    split_ifs at h
    · rcases List.mem_cons.mp h with rfl | hmem
      · exact .inl rfl
      · exact .inr (List.mem_cons_of_mem c hmem)
    · rcases List.mem_cons.mp h with rfl | hmem
      · exact .inr List.mem_cons_self
      · rcases ih hmem with rfl | hold
        · exact .inl rfl
        · exact .inr (List.mem_cons_of_mem c hold)

/-- The keys stay different. -/
theorem nodup_put (hkeys : (dict.map key).Nodup) : ((put key dict a).map key).Nodup := by
  induction dict with
  | nil => exact List.nodup_singleton _
  | cons b rest ih =>
    rw [List.map_cons, List.nodup_cons] at hkeys
    rw [put]
    split_ifs with hb
    · rw [List.map_cons, List.nodup_cons, ← hb]
      exact hkeys
    · rw [List.map_cons, List.nodup_cons, mem_keys_put]
      exact ⟨not_or.mpr ⟨hb, hkeys.1⟩, ih hkeys.2⟩

/-- A value with a new key is the last one. -/
theorem put_of_notMem (h : key a ∉ dict.map key) : put key dict a = dict ++ [a] := by
  induction dict with
  | nil => rfl
  | cons b rest ih =>
    rw [List.map_cons, List.mem_cons, not_or] at h
    rw [put, if_neg (Ne.symm h.1), ih h.2, List.cons_append]

/-! ## Loops over a dictionary -/

/-- Values whose keys are different from each other and new are put one after the other. -/
theorem foldl_put (xs : List α) (hkeys : ((dict ++ xs).map key).Nodup) :
    xs.foldl (put key) dict = dict ++ xs := by
  induction xs generalizing dict with
  | nil => rw [List.foldl_nil, List.append_nil]
  | cons x rest ih =>
    have hnew : key x ∉ dict.map key := by
      rw [List.map_append, List.nodup_append] at hkeys
      exact fun hmem => hkeys.2.2 (key x) hmem (key x) (by simp) rfl
    rw [List.append_cons] at hkeys ⊢
    rw [List.foldl_cons, put_of_notMem hnew]
    exact ih hkeys

variable {combine : Option α → α → α}

/-- The keys stay different in a loop. -/
theorem nodup_foldl_put (xs : List α) (hkeys : (dict.map key).Nodup) :
    ((xs.foldl (fun d x => put key d (combine (get key d (key x)) x)) dict).map key).Nodup := by
  induction xs generalizing dict with
  | nil => exact hkeys
  | cons x rest ih => exact ih (nodup_put hkeys)

/-- What a loop leaves for a key comes from the values with this key alone. -/
theorem get_foldl_put (hcombine : ∀ old x, key (combine old x) = key x) (xs : List α) :
    get key (xs.foldl (fun d x => put key d (combine (get key d (key x)) x)) dict) k
      = (xs.filter fun x => key x = k).foldl (fun old x => some (combine old x))
        (get key dict k) := by
  induction xs generalizing dict with
  | nil => rfl
  | cons x rest ih =>
    rw [List.foldl_cons, ih, get_put, hcombine]
    by_cases hk : key x = k
    · rw [if_pos hk, List.filter_cons_of_pos (by simpa using hk), List.foldl_cons, hk]
    · rw [if_neg hk, List.filter_cons_of_neg (by simpa using hk)]

end

end TrustPortal.Lib.Dict
