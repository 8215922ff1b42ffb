import ITG.Lib.JsonText
import ITG.Lib.Text

/-!
# Query strings

Reading the parameters of a URL as Go's `net/url` does: a field without an equals sign has the empty
value, a field with a semicolon or a wrong escape is skipped, and of several fields of one name the
first counts.

A URL is ASCII.  An escape that stands for a byte beyond ASCII is read as the character of that
number.
-/

namespace ITG.Lib.Query

/-- `QueryUnescape`: a percent sign with two hexadecimal digits stands for a byte, and a plus sign
for a blank. -/
def unescape : List Char → Option (List Char)
  | [] => some []
  | c :: cs =>
      if c = '%' then
        match cs with
        | a :: b :: rest => do
            let a ← Json.hexValue a
            let b ← Json.hexValue b
            (unescape rest).map (.ofNat (16 * a + b) :: ·)
        | _ => none
      else (unescape cs).map ((if c = '+' then ' ' else c) :: ·)

/-- The name and the value of a field. -/
def field (cs : List Char) : Option (List Char × List Char) :=
  if ';' ∈ cs ∨ cs = [] then none
  else
    match splitTwo '=' cs with
    | [name, value] => do some (← unescape name, ← unescape value)
    | _ => do some (← unescape cs, [])

/-- The fields of a query, in their order. -/
def fields (query : List Char) : List (List Char × List Char) :=
  (query.splitOn '&').filterMap field

/-- `Get`: the first value of this name, or the empty text if there is none. -/
def get (name query : List Char) : List Char := ((fields query).lookup name).getD []

/-- A character that stands for itself, and separates nothing. -/
def Plain (c : Char) : Prop := c ≠ '%' ∧ c ≠ '+' ∧ c ≠ '&' ∧ c ≠ ';' ∧ c ≠ '='

instance (c : Char) : Decidable (Plain c) := inferInstanceAs (Decidable (_ ∧ _))

variable {cs name value : List Char}

theorem plain_of_isDigit {c : Char} (h : c.isDigit = true) : Plain c := by
  refine ⟨?_, ?_, ?_, ?_, ?_⟩ <;> rintro rfl <;> cases h

theorem unescape_plain (h : ∀ c ∈ cs, Plain c) : unescape cs = some cs := by
  induction cs with
  | nil => rfl
  | cons c cs ih =>
      obtain ⟨⟨hpercent, hplus, -⟩, hcs⟩ := List.forall_mem_cons.1 h
      unfold unescape
      rw [if_neg hpercent, if_neg hplus, ih hcs]
      rfl

/-- A plain name with a plain value is found. -/
theorem get_plain (hname : ∀ c ∈ name, Plain c) (hvalue : ∀ c ∈ value, Plain c) :
    get name (name ++ '=' :: value) = value := by
  have hmem {d : Char} (hd : d ≠ '=') (hp : ¬ Plain d) : d ∉ name ++ '=' :: value := by
    intro hm
    rcases List.mem_append.1 hm with hm | hm
    · exact hp (hname d hm)
    · rcases List.mem_cons.1 hm with rfl | hm
      · exact hd rfl
      · exact hp (hvalue d hm)
  have hsplit : splitTwo '=' (name ++ '=' :: value) = [name, value] :=
    splitTwo_append_cons (fun hm ↦ absurd (hname _ hm) (by decide)) value
  have hfield : field (name ++ '=' :: value) = some (name, value) := by
    rw [field, if_neg (by simp [hmem (d := ';') (by decide) (by decide)]), hsplit]
    simp only [unescape_plain hname, unescape_plain hvalue, Option.bind_eq_bind, Option.bind_some]
  rw [get, fields, List.splitOn_eq_singleton (hmem (by decide) (by decide)),
    List.filterMap_cons_some hfield]
  simp

end ITG.Lib.Query
