import Mathlib.Data.List.TakeWhile
import ITG.Lib.Json
import ITG.Lib.Utf8

/-!
# JSON texts

Writing a JSON value as a text and reading it back.  Writers differ in which characters of a string
they escape and how; an `Escape` is any way to do so that a reader undoes.  `render` writes a value
without white space, as all writers of this development do, and `parse` reads any JSON text.

What is written is read back, by every reader and whatever the writer escapes (`parse_render`): the
text of a string can neither end the string nor add a member to the object around it.

A reader here knows scalar values of Unicode only.  A text with an escaped surrogate that is not
half of a pair is not read.
-/

namespace ITG.Lib.Json

/-! ## Reading -/

/-- White space between tokens. -/
def isSpace (c : Char) : Bool := c = ' ' || c = '\t' || c = '\n' || c = '\r'

def skipSpace (cs : List Char) : List Char := cs.dropWhile isSpace

/-- The value of a hexadecimal digit. -/
def hexValue (c : Char) : Option ℕ :=
  if '0' ≤ c ∧ c ≤ '9' then some (c.toNat - 48)
  else if 'a' ≤ c ∧ c ≤ 'f' then some (c.toNat - 87)
  else if 'A' ≤ c ∧ c ≤ 'F' then some (c.toNat - 55)
  else none

/-- Four hexadecimal digits. -/
def hexFour : List Char → Option (ℕ × List Char)
  | a :: b :: c :: d :: rest => do
      let a ← hexValue a
      let b ← hexValue b
      let c ← hexValue c
      let d ← hexValue d
      some (4096 * a + 256 * b + 16 * c + d, rest)
  | _ => none

/-- The character that a letter after a backslash stands for. -/
def shortEscape : Char → Option Char
  | '"' => some '"'
  | '\\' => some '\\'
  | '/' => some '/'
  | 'b' => some (.ofNat 8)
  | 'f' => some (.ofNat 12)
  | 'n' => some '\n'
  | 'r' => some '\r'
  | 't' => some '\t'
  | _ => none

/-- The second half of a surrogate pair. -/
def lowSurrogate : List Char → Option (ℕ × List Char)
  | '\\' :: 'u' :: rest => do
      let (low, rest) ← hexFour rest
      if 0xDC00 ≤ low ∧ low ≤ 0xDFFF then some (low - 0xDC00, rest) else none
  | _ => none

/-- One character of a string, which may be escaped. -/
def readChar : List Char → Option (Char × List Char)
  | '\\' :: 'u' :: rest => do
      let (n, rest) ← hexFour rest
      if 0xD800 ≤ n ∧ n ≤ 0xDBFF then do
        let (low, rest) ← lowSurrogate rest
        some (.ofNat (0x10000 + 0x400 * (n - 0xD800) + low), rest)
      else if 0xDC00 ≤ n ∧ n ≤ 0xDFFF then none
      else some (.ofNat n, rest)
  | '\\' :: c :: rest => (shortEscape c).map (·, rest)
  | '\\' :: [] | '"' :: _ | [] => none
  | c :: rest => if c.toNat < 0x20 then none else some (c, rest)

/-- The characters of a string, behind its opening quote.  A call reads at most as many characters
as the first argument says. -/
def readString : ℕ → List Char → Option (List Char × List Char)
  | 0, _ => none
  | _ + 1, '"' :: rest => some ([], rest)
  | n + 1, cs => (readChar cs).bind fun p ↦ (readString n p.2).map fun q ↦ (p.1 :: q.1, q.2)

/-- The characters that numbers consist of. -/
def isNumberChar (c : Char) : Bool :=
  c.isDigit || c = '-' || c = '+' || c = '.' || c = 'e' || c = 'E'

/-- An exponent, or nothing. -/
def isExponent : List Char → Bool
  | [] => true
  | e :: cs =>
      (e = 'e' || e = 'E') &&
        match cs with
        | '+' :: cs | '-' :: cs | cs => !cs.isEmpty && cs.all Char.isDigit

/-- A fraction and an exponent, each of which may be missing. -/
def isFraction : List Char → Bool
  | '.' :: c :: cs => c.isDigit && isExponent (cs.dropWhile Char.isDigit)
  | cs => isExponent cs

/-- A number without its sign. -/
def isUnsigned : List Char → Bool
  | '0' :: cs => isFraction cs
  | c :: cs => c.isDigit && isFraction (cs.dropWhile Char.isDigit)
  | [] => false

/-- The text of a number. -/
def isNumber : List Char → Bool
  | '-' :: cs => isUnsigned cs
  | cs => isUnsigned cs

/-- A number is as long as it can be. -/
def readNumber (cs : List Char) : Option (Json × List Char) :=
  if isNumber (cs.takeWhile isNumberChar) then
    some (.num (.ofList (cs.takeWhile isNumberChar)), cs.dropWhile isNumberChar)
  else none

mutual

/-- A value, behind white space.  The first argument bounds the depth of the calls. -/
def readValue : ℕ → List Char → Option (Json × List Char)
  | 0, _ => none
  | n + 1, cs =>
      match skipSpace cs with
      | 'n' :: 'u' :: 'l' :: 'l' :: rest => some (.null, rest)
      | 't' :: 'r' :: 'u' :: 'e' :: rest => some (.bool true, rest)
      | 'f' :: 'a' :: 'l' :: 's' :: 'e' :: rest => some (.bool false, rest)
      | '"' :: rest => (readString n rest).map fun p ↦ (.str (.ofList p.1), p.2)
      | '[' :: rest =>
          match skipSpace rest with
          | ']' :: rest => some (.arr [], rest)
          | rest => (readElems n rest).map fun p ↦ (.arr p.1, p.2)
      | '{' :: rest =>
          match skipSpace rest with
          | '}' :: rest => some (.obj [], rest)
          | rest => (readFields n rest).map fun p ↦ (.obj p.1, p.2)
      | rest => readNumber rest

/-- The elements of an array, up to its closing bracket. -/
def readElems : ℕ → List Char → Option (List Json × List Char)
  | 0, _ => none
  | n + 1, cs => (readValue n cs).bind fun v ↦
      match skipSpace v.2 with
      | ',' :: rest => (readElems n rest).map fun p ↦ (v.1 :: p.1, p.2)
      | ']' :: rest => some ([v.1], rest)
      | _ => none

/-- The members of an object, up to its closing brace. -/
def readFields : ℕ → List Char → Option (List (String × Json) × List Char)
  | 0, _ => none
  | n + 1, cs =>
      match skipSpace cs with
      | '"' :: rest => (readString n rest).bind fun k ↦
          match skipSpace k.2 with
          | ':' :: rest => (readValue n rest).bind fun v ↦
              match skipSpace v.2 with
              | ',' :: rest => (readFields n rest).map fun p ↦ ((.ofList k.1, v.1) :: p.1, p.2)
              | '}' :: rest => some ([(.ofList k.1, v.1)], rest)
              | _ => none
          | _ => none
      | _ => none

end

/-- The value of a text. -/
def parse (cs : List Char) : Option Json :=
  match readValue cs.length cs with
  | some (v, rest) => if skipSpace rest = [] then some v else none
  | none => none

/-! ## Writing -/

/-- How a writer puts a character into a string. -/
structure Escape where
  char : Char → List Char
  /-- A reader gets the character back. -/
  read : ∀ c rest, readChar (char c ++ rest) = some (c, rest)

/-- A string with its quotes. -/
def quote (e : Escape) (s : String) : List Char := '"' :: (s.toList.flatMap e.char ++ ['"'])

mutual

/-- The text of a value, without white space. -/
def render (e : Escape) : Json → List Char
  | .null => ['n', 'u', 'l', 'l']
  | .bool true => ['t', 'r', 'u', 'e']
  | .bool false => ['f', 'a', 'l', 's', 'e']
  | .num lit => lit.toList
  | .str s => quote e s
  | .arr [] => ['[', ']']
  | .arr (v :: vs) => '[' :: (render e v ++ renderElems e vs)
  | .obj [] => ['{', '}']
  | .obj ((k, v) :: fields) => '{' :: (quote e k ++ ':' :: (render e v ++ renderFields e fields))

/-- The other elements of an array, with its closing bracket. -/
def renderElems (e : Escape) : List Json → List Char
  | [] => [']']
  | v :: vs => ',' :: (render e v ++ renderElems e vs)

/-- The other members of an object, with its closing brace. -/
def renderFields (e : Escape) : List (String × Json) → List Char
  | [] => ['}']
  | (k, v) :: fields => ',' :: (quote e k ++ ':' :: (render e v ++ renderFields e fields))

end

mutual

/-- Every number of the value has a text that is one. -/
def wellFormed : Json → Bool
  | .null | .bool _ | .str _ => true
  | .num lit => isNumber lit.toList
  | .arr vs => wellFormedElems vs
  | .obj fields => wellFormedFields fields

def wellFormedElems : List Json → Bool
  | [] => true
  | v :: vs => wellFormed v && wellFormedElems vs

def wellFormedFields : List (String × Json) → Bool
  | [] => true
  | (_, v) :: fields => wellFormed v && wellFormedFields fields

end

/-! ## Reading back what was written -/

/-- The rest of a text does not go on with the number before it. -/
def Stops (rest : List Char) : Prop := ∀ c ∈ rest.head?, isNumberChar c = false

theorem stops_cons {c : Char} {rest : List Char} (h : isNumberChar c = false) :
    Stops (c :: rest) := by
  intro d hd
  cases hd
  exact h

theorem skipSpace_cons {c : Char} {cs : List Char} (h : isSpace c = false) :
    skipSpace (c :: cs) = c :: cs := by
  simp [skipSpace, h]

/-! ### Strings -/

section Strings

variable (e : Escape)

/-- A character takes up some text, which is no quote. -/
theorem Escape.char_ne (c : Char) : ∃ d ds, e.char c = d :: ds ∧ d ≠ '"' := by
  have h := e.read c []
  rw [List.append_nil] at h
  cases hc : e.char c with
  | nil =>
      rw [hc] at h
      cases h
  | cons d ds =>
      refine ⟨d, ds, rfl, ?_⟩
      rintro rfl
      rw [hc] at h
      cases h

theorem readString_char {n : ℕ} (c : Char) (rest : List Char) :
    readString (n + 1) (e.char c ++ rest) =
      (readString n rest).map fun p ↦ (c :: p.1, p.2) := by
  obtain ⟨d, ds, hc, hd⟩ := e.char_ne c
  have h := e.read c rest
  rw [hc, List.cons_append] at h ⊢
  rw [readString]
  · rw [h, Option.bind_some]
  · rintro rest' h'
    exact hd (List.cons.inj h').1

/-- A string is read back, whatever follows. -/
theorem readString_chars (s rest : List Char) {n : ℕ} (hn : s.length < n) :
    readString n (s.flatMap e.char ++ '"' :: rest) = some (s, rest) := by
  induction s generalizing n with
  | nil =>
      obtain ⟨m, rfl⟩ := Nat.exists_eq_add_of_lt hn
      rfl
  | cons c s ih =>
      obtain ⟨m, rfl⟩ := Nat.exists_eq_add_of_lt hn
      have hm : s.length < (c :: s).length + m := by
        rw [List.length_cons]
        omega
      rw [List.flatMap_cons, List.append_assoc, readString_char, ih hm]
      rfl

theorem length_chars (s : List Char) : s.length ≤ (s.flatMap e.char).length := by
  induction s with
  | nil => exact Nat.zero_le _
  | cons c s ih =>
      obtain ⟨d, ds, hc, -⟩ := e.char_ne c
      rw [List.flatMap_cons, List.length_append, hc, List.length_cons, List.length_cons]
      omega

theorem readString_quote (s : String) (rest : List Char) {n : ℕ}
    (hn : (quote e s).length ≤ n + 1) :
    readString n (s.toList.flatMap e.char ++ '"' :: rest) = some (s.toList, rest) := by
  have hlen := length_chars e s.toList
  simp only [quote, List.length_cons, List.length_append, List.length_nil] at hn
  exact readString_chars e s.toList rest (by omega)

end Strings

/-! ### Numbers -/

theorem isNumberChar_of_isDigit {c : Char} (h : c.isDigit = true) : isNumberChar c = true := by
  simp [isNumberChar, h]

/-- Digits, and then number characters. -/
theorem isNumberChar_of_dropWhile {cs : List Char}
    (h : ∀ c ∈ cs.dropWhile Char.isDigit, isNumberChar c = true) :
    ∀ c ∈ cs, isNumberChar c = true := by
  induction cs with
  | nil => exact nofun
  | cons d cs ih =>
      rw [List.dropWhile_cons] at h
      split at h
      · rename_i hd
        exact List.forall_mem_cons.2 ⟨isNumberChar_of_isDigit hd, ih h⟩
      · exact h

theorem isNumberChar_of_isExponent {cs : List Char} (h : isExponent cs = true) :
    ∀ c ∈ cs, isNumberChar c = true := by
  cases cs with
  | nil => exact nofun
  | cons e cs =>
      simp only [isExponent, Bool.and_eq_true, Bool.or_eq_true, decide_eq_true_eq] at h
      obtain ⟨he, hcs⟩ := h
      have hall {ds : List Char} (hds : ds.isEmpty = false ∧ ds.all Char.isDigit = true) :
          ∀ c ∈ ds, isNumberChar c = true := fun c hc ↦
        isNumberChar_of_isDigit (List.all_eq_true.1 hds.2 c hc)
      refine List.forall_mem_cons.2 ⟨by rcases he with rfl | rfl <;> rfl, ?_⟩
      split at hcs
      · exact List.forall_mem_cons.2 ⟨rfl, hall (by simpa using hcs)⟩
      · exact List.forall_mem_cons.2 ⟨rfl, hall (by simpa using hcs)⟩
      · exact hall (by simpa using hcs)

theorem isNumberChar_of_isFraction {cs : List Char} (h : isFraction cs = true) :
    ∀ c ∈ cs, isNumberChar c = true := by
  unfold isFraction at h
  split at h
  · rename_i d ds
    obtain ⟨hd, hexp⟩ := Bool.and_eq_true_iff.1 h
    refine List.forall_mem_cons.2 ⟨rfl, List.forall_mem_cons.2 ⟨isNumberChar_of_isDigit hd, ?_⟩⟩
    exact isNumberChar_of_dropWhile (isNumberChar_of_isExponent hexp)
  · exact isNumberChar_of_isExponent h

theorem isNumberChar_of_isUnsigned {cs : List Char} (h : isUnsigned cs = true) :
    ∀ c ∈ cs, isNumberChar c = true := by
  unfold isUnsigned at h
  split at h
  · exact List.forall_mem_cons.2 ⟨rfl, isNumberChar_of_isFraction h⟩
  · obtain ⟨hd, hfrac⟩ := Bool.and_eq_true_iff.1 h
    refine List.forall_mem_cons.2 ⟨isNumberChar_of_isDigit hd, ?_⟩
    exact isNumberChar_of_dropWhile (isNumberChar_of_isFraction hfrac)
  · cases h

theorem isNumberChar_of_isNumber {cs : List Char} (h : isNumber cs = true) :
    ∀ c ∈ cs, isNumberChar c = true := by
  unfold isNumber at h
  split at h
  · exact List.forall_mem_cons.2 ⟨rfl, isNumberChar_of_isUnsigned h⟩
  · exact isNumberChar_of_isUnsigned h

/-- A number starts with a digit or a sign. -/
theorem head_of_isNumber {cs : List Char} (h : isNumber cs = true) :
    ∃ c ds, cs = c :: ds ∧ (c.isDigit = true ∨ c = '-') := by
  cases cs with
  | nil => cases h
  | cons c ds =>
      refine ⟨c, ds, rfl, ?_⟩
      by_cases hc : c = '-'
      · exact .inr hc
      · left
        rw [isNumber] at h
        · by_cases h0 : c = '0'
          · rw [h0]
            rfl
          · rw [isUnsigned] at h
            · exact (Bool.and_eq_true_iff.1 h).1
            · exact h0
        · exact fun _ h' ↦ hc (List.cons.inj h').1

/-- A number is read back, if the text does not go on with it. -/
theorem readNumber_append {lit : String} (h : isNumber lit.toList = true) {rest : List Char}
    (hr : Stops rest) : readNumber (lit.toList ++ rest) = some (.num lit, rest) := by
  have hall := isNumberChar_of_isNumber h
  have htake : rest.takeWhile isNumberChar = [] := by
    cases rest with
    | nil => rfl
    | cons c rest => exact List.takeWhile_cons_of_neg (by simp [hr c rfl])
  have hdrop : rest.dropWhile isNumberChar = rest := by
    cases rest with
    | nil => rfl
    | cons c rest => exact List.dropWhile_cons_of_neg (by simp [hr c rfl])
  rw [readNumber, List.takeWhile_append_of_pos hall, List.dropWhile_append_of_pos hall, htake,
    hdrop, List.append_nil, if_pos h, String.ofList_toList]

/-! ### Values -/

theorem isSpace_of_number {c : Char} (hc : c.isDigit = true ∨ c = '-') : isSpace c = false := by
  rw [Bool.eq_false_iff]
  intro hs
  simp only [isSpace, Bool.or_eq_true, decide_eq_true_eq] at hs
  rcases hs with ((rfl | rfl) | rfl) | rfl <;> revert hc <;> decide

/-- A character that no number begins with. -/
theorem ne_of_number {c d : Char} (hc : c.isDigit = true ∨ c = '-')
    (hd : ¬ (d.isDigit = true ∨ d = '-')) : c ≠ d := by
  rintro rfl
  exact hd hc

/-- A value begins with none of the characters that end an array or an object, nor with a space. -/
theorem head_render (e : Escape) {v : Json} (hv : v.wellFormed = true) :
    ∃ c cs, render e v = c :: cs ∧ isSpace c = false ∧ c ≠ ']' ∧ c ≠ '}' := by
  cases v with
  | null => exact ⟨_, _, rfl, by decide⟩
  | bool b => cases b <;> exact ⟨_, _, rfl, by decide⟩
  | num lit =>
      rw [wellFormed] at hv
      obtain ⟨c, cs, hc, hd⟩ := head_of_isNumber hv
      exact ⟨c, cs, hc, isSpace_of_number hd, ne_of_number hd (by decide),
        ne_of_number hd (by decide)⟩
  | str s => exact ⟨_, _, rfl, by decide⟩
  | arr vs => cases vs <;> exact ⟨_, _, rfl, by decide⟩
  | obj fields =>
      match fields with
      | [] => exact ⟨_, _, rfl, by decide⟩
      | (k, v) :: fields => exact ⟨_, _, rfl, by decide⟩

theorem length_render_pos (e : Escape) {v : Json} (hv : v.wellFormed = true) :
    0 < (render e v).length := by
  obtain ⟨c, cs, h, -⟩ := head_render e hv
  rw [h]
  exact Nat.succ_pos _

theorem length_renderElems_pos (e : Escape) (vs : List Json) : 0 < (renderElems e vs).length := by
  cases vs <;> exact Nat.succ_pos _

theorem length_renderFields_pos (e : Escape) (fields : List (String × Json)) :
    0 < (renderFields e fields).length := by
  match fields with
  | [] => exact Nat.succ_pos _
  | (k, v) :: fields => exact Nat.succ_pos _

/-- The reader gets the value back, whatever follows. -/
def Reads (e : Escape) (v : Json) : Prop :=
  ∀ rest n, Stops rest → (render e v).length ≤ n → readValue n (render e v ++ rest) = some (v, rest)

theorem reads_num (e : Escape) {lit : String} (h : isNumber lit.toList = true) :
    Reads e (.num lit) := by
  intro rest n hr hn
  obtain ⟨c, cs, hc, hd⟩ := head_of_isNumber h
  have hnum := readNumber_append h hr
  rw [render, hc] at hn
  obtain ⟨m, rfl⟩ := Nat.exists_eq_add_of_lt (Nat.lt_of_lt_of_le (Nat.succ_pos _) hn)
  rw [hc, List.cons_append] at hnum
  rw [render, hc, List.cons_append, readValue, skipSpace_cons (isSpace_of_number hd)]
  split
  all_goals first
    | exact hnum
    | exact absurd (List.cons.inj ‹_›).1 (ne_of_number hd (by decide))

theorem reads_str (e : Escape) (s : String) : Reads e (.str s) := by
  intro rest n _ hn
  obtain ⟨m, rfl⟩ : ∃ m, n = m + 1 := ⟨n - 1, by
    simp only [render, quote, List.length_cons] at hn
    omega⟩
  have h := readString_quote e s rest hn
  rw [render, quote, List.cons_append, List.append_assoc, readValue, skipSpace_cons rfl]
  simp only [List.singleton_append, h, Option.map_some, String.ofList_toList]

section Members

variable {e : Escape} {v : Json} {n : ℕ} (rest : List Char)

/-- The last element of an array. -/
theorem readElems_last (hv : Reads e v) (hn : (render e v).length ≤ n) :
    readElems (n + 1) (render e v ++ ']' :: rest) = some ([v], rest) := by
  rw [readElems, hv _ n (stops_cons rfl) hn, Option.bind_some, skipSpace_cons rfl]
  rfl

/-- An element with others behind it. -/
theorem readElems_more (hv : Reads e v) (hn : (render e v).length ≤ n) :
    readElems (n + 1) (render e v ++ ',' :: rest) =
      (readElems n rest).map fun p ↦ (v :: p.1, p.2) := by
  rw [readElems, hv _ n (stops_cons rfl) hn, Option.bind_some, skipSpace_cons rfl]
  rfl

/-- A member, up to what follows its value. -/
theorem readFields_member {k : String} (hv : Reads e v) (hr : Stops rest)
    (hk : (quote e k).length ≤ n + 1) (hn : (render e v).length ≤ n) :
    readFields (n + 1) (quote e k ++ ':' :: (render e v ++ rest)) =
      match skipSpace rest with
      | ',' :: rest => (readFields n rest).map fun p ↦ ((k, v) :: p.1, p.2)
      | '}' :: rest => some ([(k, v)], rest)
      | _ => none := by
  rw [readFields, quote, List.cons_append, skipSpace_cons rfl, List.append_assoc]
  simp only [List.singleton_append, readString_quote e k _ hk, Option.bind_some,
    String.ofList_toList]
  rw [skipSpace_cons rfl]
  simp only [hv rest n hr hn, Option.bind_some]

/-- The last member of an object. -/
theorem readFields_last {k : String} (hv : Reads e v) (hk : (quote e k).length ≤ n + 1)
    (hn : (render e v).length ≤ n) :
    readFields (n + 1) (quote e k ++ ':' :: (render e v ++ '}' :: rest)) =
      some ([(k, v)], rest) := by
  rw [readFields_member _ hv (stops_cons rfl) hk hn, skipSpace_cons rfl]
  rfl

/-- A member with others behind it. -/
theorem readFields_more {k : String} (hv : Reads e v) (hk : (quote e k).length ≤ n + 1)
    (hn : (render e v).length ≤ n) :
    readFields (n + 1) (quote e k ++ ':' :: (render e v ++ ',' :: rest)) =
      (readFields n rest).map fun p ↦ ((k, v) :: p.1, p.2) := by
  rw [readFields_member _ hv (stops_cons rfl) hk hn, skipSpace_cons rfl]
  rfl

end Members

mutual

theorem reads (e : Escape) : ∀ v : Json, v.wellFormed = true → Reads e v
  | .num lit, h => reads_num e h
  | .str s, _ => reads_str e s
  | .null, _ | .bool true, _ | .bool false, _ | .arr [], _ | .obj [], _ => fun rest n _ hn ↦ by
      obtain ⟨m, rfl⟩ := Nat.exists_eq_add_of_lt (Nat.lt_of_lt_of_le (Nat.succ_pos _) hn)
      rfl
  | .arr (v :: vs), h => fun rest n _ hn ↦ by
      obtain ⟨hv, hvs⟩ := Bool.and_eq_true_iff.1 h
      obtain ⟨c, cs, hc, hsp, hne, -⟩ := head_render e hv
      have hpos := length_render_pos e hv
      have hpos' := length_renderElems_pos e vs
      rw [render, List.length_cons, List.length_append] at hn
      obtain ⟨m, rfl⟩ : ∃ m, n = m + 1 + 1 := ⟨n - 2, by omega⟩
      have hread := reads_elems e vs hvs v (reads e v hv) rest m (by omega)
      rw [hc, List.cons_append] at hread
      rw [render, List.cons_append, readValue, skipSpace_cons rfl, List.append_assoc, hc,
        List.cons_append]
      simp only [skipSpace_cons hsp]
      split
      · exact absurd (List.cons.inj ‹_›).1 hne
      · rw [hread]
        rfl
  | .obj ((k, v) :: fields), h => fun rest n _ hn ↦ by
      obtain ⟨hv, hfields⟩ := Bool.and_eq_true_iff.1 h
      have hpos := length_render_pos e hv
      have hpos' := length_renderFields_pos e fields
      simp only [render, List.length_cons, List.length_append] at hn
      obtain ⟨m, rfl⟩ : ∃ m, n = m + 1 + 1 := ⟨n - 2, by omega⟩
      have hread := reads_fields e fields hfields k v (reads e v hv) rest m (by omega)
      rw [quote, List.cons_append] at hread
      rw [render, List.cons_append, readValue, skipSpace_cons rfl, List.append_assoc,
        List.cons_append, List.append_assoc, quote, List.cons_append]
      simp only [skipSpace_cons (show isSpace '"' = false from rfl)]
      split
      · exact absurd (List.cons.inj ‹_›).1 (by decide)
      · rw [hread]
        rfl

theorem reads_elems (e : Escape) : ∀ vs : List Json, wellFormedElems vs = true →
    ∀ v, Reads e v → ∀ rest n, (render e v).length + (renderElems e vs).length ≤ n + 1 →
      readElems (n + 1) (render e v ++ (renderElems e vs ++ rest)) = some (v :: vs, rest)
  | [], _ => fun v hv rest n hn ↦ by
      rw [renderElems, List.length_singleton] at hn
      exact readElems_last rest hv (by omega)
  | w :: ws, h => fun v hv rest n hn ↦ by
      obtain ⟨hw, hws⟩ := Bool.and_eq_true_iff.1 h
      have hpos := length_render_pos e hw
      rw [renderElems, List.length_cons, List.length_append] at hn
      obtain ⟨m, rfl⟩ : ∃ m, n = m + 1 := ⟨n - 1, by omega⟩
      have hread := reads_elems e ws hws w (reads e w hw) rest m (by omega)
      rw [renderElems, List.cons_append, List.append_assoc, readElems_more _ hv (by omega), hread]
      rfl

theorem reads_fields (e : Escape) : ∀ fields : List (String × Json),
    wellFormedFields fields = true → ∀ k v, Reads e v → ∀ rest n,
      (quote e k).length + (render e v).length + (renderFields e fields).length ≤ n + 1 →
      readFields (n + 1) (quote e k ++ ':' :: (render e v ++ (renderFields e fields ++ rest))) =
        some ((k, v) :: fields, rest)
  | [], _ => fun k v hv rest n hn ↦ by
      have hpos : 0 < (quote e k).length := Nat.succ_pos _
      rw [renderFields, List.length_singleton] at hn
      exact readFields_last rest hv (by omega) (by omega)
  | (k', w) :: ws, h => fun k v hv rest n hn ↦ by
      obtain ⟨hw, hws⟩ := Bool.and_eq_true_iff.1 h
      have hpos := length_render_pos e hw
      simp only [renderFields, List.length_cons, List.length_append] at hn
      obtain ⟨m, rfl⟩ : ∃ m, n = m + 1 := ⟨n - 1, by omega⟩
      have hread := reads_fields e ws hws k' w (reads e w hw) rest m (by omega)
      rw [renderFields, List.cons_append, List.append_assoc, List.cons_append, List.append_assoc,
        readFields_more _ hv (by omega) (by omega), hread]
      rfl

end

/-- **What is written is read back**, with white space behind it or without. -/
theorem parse_render (e : Escape) {v : Json} (hv : v.wellFormed = true) {space : List Char}
    (hs : skipSpace space = []) : parse (render e v ++ space) = some v := by
  have hstops : Stops space := by
    intro c hc
    obtain ⟨cs, rfl⟩ := List.head?_eq_some_iff.1 hc
    have hsp : isSpace c = true := List.dropWhile_eq_nil_iff.1 hs c List.mem_cons_self
    simp only [isSpace, Bool.or_eq_true, decide_eq_true_eq] at hsp
    rcases hsp with ((rfl | rfl) | rfl) | rfl <;> rfl
  rw [parse, reads e v hv space _ hstops (by simp)]
  exact if_pos hs

/-! ## Ways to escape -/

/-- The letter that stands for a character behind a backslash. -/
def letter (c : Char) : Option Char :=
  if c = '"' then some '"'
  else if c = '\\' then some '\\'
  else if c = .ofNat 8 then some 'b'
  else if c = .ofNat 12 then some 'f'
  else if c = '\n' then some 'n'
  else if c = '\r' then some 'r'
  else if c = '\t' then some 't'
  else none

/-- A lower-case hexadecimal digit. -/
def hexDigit (n : ℕ) : Char := if n < 10 then .ofNat (48 + n) else .ofNat (87 + n)

theorem hexValue_hexDigit {n : ℕ} (h : n < 16) : hexValue (hexDigit n) = some n := by
  have hall : ∀ n : Fin 16, hexValue (hexDigit n) = some n.val := by decide
  exact hall ⟨n, h⟩

/-- A character by its number. -/
def longEscape (c : Char) : List Char :=
  ['\\', 'u', hexDigit (c.toNat / 4096), hexDigit (c.toNat / 256 % 16),
    hexDigit (c.toNat / 16 % 16), hexDigit (c.toNat % 16)]

theorem readChar_letter {c l : Char} (h : letter c = some l) (rest : List Char) :
    readChar ('\\' :: l :: rest) = some (c, rest) := by
  unfold letter at h
  repeat' split at h
  all_goals first
    | (subst c; cases h; rfl)
    | cases h

theorem readChar_longEscape {c : Char} (h : c.toNat < 0x10000) (rest : List Char) :
    readChar (longEscape c ++ rest) = some (c, rest) := by
  have hfour : hexFour (hexDigit (c.toNat / 4096) :: hexDigit (c.toNat / 256 % 16) ::
      hexDigit (c.toNat / 16 % 16) :: hexDigit (c.toNat % 16) :: rest) = some (c.toNat, rest) := by
    simp only [hexFour, hexValue_hexDigit (show c.toNat / 4096 < 16 by omega),
      hexValue_hexDigit (Nat.mod_lt _ (by decide)), Option.bind_eq_bind, Option.bind_some,
      Option.some.injEq, Prod.mk.injEq, and_true]
    omega
  have hvalid := Utf8.toNat_valid c
  simp only [longEscape, List.cons_append, List.nil_append, readChar, hfour, Option.bind_eq_bind,
    Option.bind_some]
  rw [if_neg (by omega), if_neg (by omega), Char.ofNat_toNat]

theorem readChar_plain {c : Char} (h : letter c = none) (hc : 0x20 ≤ c.toNat) (rest : List Char) :
    readChar (c :: rest) = some (c, rest) := by
  have hne (d l : Char) (hd : letter d = some l) : c ≠ d := by
    rintro rfl
    cases h.symm.trans hd
  unfold readChar
  split
  case h_1 | h_2 | h_3 => exact absurd (List.cons.inj ‹_›).1 (hne '\\' '\\' rfl)
  case h_4 => exact absurd (List.cons.inj ‹_›).1 (hne '"' '"' rfl)
  case h_5 => cases ‹c :: rest = []›
  case h_6 =>
    obtain ⟨rfl, rfl⟩ := List.cons.inj ‹_›
    exact if_neg (by omega)

/-- Escape what has to be escaped, by a letter where there is one, and the characters of `long`. -/
def Escape.of (long : Char → Bool) (hlong : ∀ c, long c = true → c.toNat < 0x10000) : Escape where
  char c :=
    match letter c with
    | some l => ['\\', l]
    | none => if long c = true ∨ c.toNat < 0x20 then longEscape c else [c]
  read c rest := by
    split
    · rename_i l h
      exact readChar_letter h rest
    · rename_i h
      split
      · rename_i hc
        refine readChar_longEscape ?_ rest
        rcases hc with hc | hc
        · exact hlong c hc
        · omega
      · rename_i hc
        rw [not_or, Nat.not_lt] at hc
        exact readChar_plain h hc.2 rest

/-- Escape nothing but what has to be escaped. -/
def Escape.minimal : Escape := .of (fun _ ↦ false) nofun

/-! ## Numerals -/

/-- The numeral of a positive number does not begin with a zero. -/
theorem toDigits_of_pos {n : ℕ} (h : 0 < n) : ∃ c cs, Nat.toDigits 10 n = c :: cs ∧ c ≠ '0' := by
  induction n using Nat.strongRecOn with
  | _ n ih =>
      by_cases hn : n < 10
      · have hall : ∀ n : Fin 10, 0 < n.val → n.val.digitChar ≠ '0' := by decide
        exact ⟨_, [], Nat.toDigits_of_lt_base hn, hall ⟨n, hn⟩ h⟩
      · obtain ⟨c, cs, hc, hne⟩ := ih (n / 10) (by omega) (by omega)
        rw [Nat.toDigits_of_base_le (by decide) (by omega), hc]
        exact ⟨c, _, rfl, hne⟩

/-- A numeral is the text of a number. -/
theorem isNumber_repr (n : ℕ) : isNumber n.repr.toList = true := by
  rw [Nat.toList_repr]
  rcases Nat.eq_zero_or_pos n with rfl | h
  · rfl
  · obtain ⟨c, cs, hc, hne⟩ := toDigits_of_pos h
    have hdigit : ∀ d ∈ c :: cs, d.isDigit = true := fun d hd ↦
      Nat.isDigit_of_mem_toDigits (by decide) (by decide) (hc ▸ hd)
    have hcd := hdigit c List.mem_cons_self
    have hdrop : cs.dropWhile Char.isDigit = [] :=
      List.dropWhile_eq_nil_iff.2 fun d hd ↦ hdigit d (List.mem_cons_of_mem _ hd)
    rw [hc, isNumber, isUnsigned, hcd, hdrop]
    · rfl
    · exact hne
    · intro ds h'
      obtain ⟨rfl, -⟩ := List.cons.inj h'
      cases hcd

/-! ## Objects -/

/-- An object that a writer has made: the texts of its numbers are numbers. -/
structure Object where
  fields : List (String × Json)
  wellFormed : wellFormedFields fields = true

/-- The object as a value. -/
def Object.json (o : Object) : Json := .obj o.fields

@[simp] theorem Object.wellFormed_json (o : Object) : o.json.wellFormed = true := o.wellFormed

/-- The value of a member, for readers that compare names exactly and keep the last member of a
name. -/
def get (name : String) : Json → Option Json
  | .obj fields => (fields.reverse.find? fun f ↦ f.1 = name).map Prod.snd
  | _ => none

end ITG.Lib.Json
