import TrustPortal.Python.Value

/-!
# `TrustPortal.Python.Equality`: equality of decoded values

Whether two decoded JSON values are the same can be decided, so that what was read can be compared
with what it should be. This is equality of the values as they were read, where `1`, `1.0` and `true`
are three values.
-/

set_option autoImplicit false

namespace TrustPortal.Python

namespace Value

mutual

/-- Whether two values are the same. -/
def decEq : (a b : Value) → Decidable (a = b)
  | none, none => isTrue rfl
  | bool a, bool b => decidable_of_iff (a = b) (by rw [Value.bool.injEq])
  | int a, int b => decidable_of_iff (a = b) (by rw [Value.int.injEq])
  | float a, float b => decidable_of_iff (a = b) (by rw [Value.float.injEq])
  | str a, str b => decidable_of_iff (a = b) (by rw [Value.str.injEq])
  | list a, list b =>
    match decEqItems a b with
    | isTrue h => isTrue (by rw [h])
    | isFalse h => isFalse fun heq => h (Value.list.inj heq)
  | dict a, dict b =>
    match decEqMembers a b with
    | isTrue h => isTrue (by rw [h])
    | isFalse h => isFalse fun heq => h (Value.dict.inj heq)
  | none, bool _ | none, int _ | none, float _ | none, str _ | none, list _ | none, dict _
  | bool _, none | bool _, int _ | bool _, float _ | bool _, str _ | bool _, list _ | bool _, dict _
  | int _, none | int _, bool _ | int _, float _ | int _, str _ | int _, list _ | int _, dict _
  | float _, none | float _, bool _ | float _, int _ | float _, str _ | float _, list _
  | float _, dict _
  | str _, none | str _, bool _ | str _, int _ | str _, float _ | str _, list _ | str _, dict _
  | list _, none | list _, bool _ | list _, int _ | list _, float _ | list _, str _ | list _, dict _
  | dict _, none | dict _, bool _ | dict _, int _ | dict _, float _ | dict _, str _
  | dict _, list _ => isFalse (by simp)

/-- Whether two lists of values are the same. -/
def decEqItems : (a b : List Value) → Decidable (a = b)
  | [], [] => isTrue rfl
  | [], _ :: _ => isFalse (by simp)
  | _ :: _, [] => isFalse (by simp)
  | a :: as, b :: bs =>
    match a.decEq b, decEqItems as bs with
    | isTrue h, isTrue hs => isTrue (by rw [h, hs])
    | isFalse h, _ => isFalse fun heq => h (List.cons.inj heq).1
    | _, isFalse hs => isFalse fun heq => hs (List.cons.inj heq).2

/-- Whether two dicts are the same. -/
def decEqMembers : (a b : List (Str × Value)) → Decidable (a = b)
  | [], [] => isTrue rfl
  | [], _ :: _ => isFalse (by simp)
  | _ :: _, [] => isFalse (by simp)
  | (name, a) :: as, (name', b) :: bs =>
    match decEq a b, decEqMembers as bs with
    | isTrue h, isTrue hs => decidable_of_iff (name = name') (by simp [h, hs])
    | isFalse h, _ => isFalse (by simp [h])
    | _, isFalse hs => isFalse (by simp [hs])

end

end Value

instance : DecidableEq Value := Value.decEq

end TrustPortal.Python
