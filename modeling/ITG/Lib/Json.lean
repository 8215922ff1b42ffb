import Mathlib.Tactic.Common

/-!
# JSON values

A JSON value as a decoder sees it: the members of an object are in the order of the text, and a key
may occur more than once.  `members name fields` are the values under a name, where keys are
compared as Go's `encoding/json` compares them with the name of a struct field.
-/

namespace ITG.Lib

/-- A JSON value.  A number is kept as its literal. -/
inductive Json where
  | null
  | bool (b : Bool)
  | num (lit : String)
  | str (s : String)
  | arr (elems : List Json)
  | obj (fields : List (String × Json))

namespace Json

/-- The string that the value is. -/
def str? : Json → Option String
  | .str s => some s
  | _ => none

/-- The key is the name, up to the case of letters.  This is `strings.EqualFold` for a name of
lower-case letters other than `k` and `s`, the two that letters outside ASCII fold to. -/
def isKey (name key : String) : Bool := key.toList.map Char.toLower = name.toList

/-- The values under a name, in the order of the text. -/
def members (name : String) (fields : List (String × Json)) : List Json :=
  fields.filterMap fun f ↦ if isKey name f.1 then some f.2 else none

section Members

variable {name key : String} {v : Json} {fields fields' : List (String × Json)}

@[simp] theorem members_nil : members name [] = [] := rfl

theorem members_cons_of_isKey (h : isKey name key = true) :
    members name ((key, v) :: fields) = v :: members name fields := by
  simp [members, h]

theorem members_cons_of_not (h : isKey name key = false) :
    members name ((key, v) :: fields) = members name fields := by
  simp [members, h]

@[simp] theorem members_append :
    members name (fields ++ fields') = members name fields ++ members name fields' :=
  List.filterMap_append

/-- A key is not two names. -/
theorem isKey_unique {name' : String} (h : isKey name key = true) (h' : isKey name' key = true) :
    name = name' :=
  String.toList_injective ((of_decide_eq_true h).symm.trans (of_decide_eq_true h'))

end Members

end Json

end ITG.Lib
