import Mathlib.Data.List.DropRight
import Mathlib.Data.List.Infix
import Mathlib.Tactic.Common

/-!
# Searching and trimming

The operations on sequences that text protocols are written with, and what is needed of them to
show that a reader recovers what a writer wrote: the position of the first occurrence of a
pattern, occurrences on the two sides of a separator, the lines of a text, and the removal of white
space at its ends.
-/

universe u

namespace ITG.Lib

/-- What stands at a position of a prefix stands there in the whole. -/
theorem getElem?_of_prefix {α : Type u} {xs ys : List α} {n : ℕ} {x : α} (h : xs <+: ys)
    (hx : xs[n]? = some x) : ys[n]? = some x := by
  obtain ⟨zs, rfl⟩ := h
  rwa [List.getElem?_append_left (List.getElem?_eq_some_iff.1 hx).1]

section Position

variable {α : Type u} [DecidableEq α] {p xs ys : List α} {x : α}

/-- The index of the first occurrence of `p`. -/
def position (p : List α) : List α → Option ℕ
  | [] => if p = [] then some 0 else none
  | x :: xs => if p <+: x :: xs then some 0 else (position p xs).map (· + 1)

theorem position_cons_pos (h : p <+: x :: xs) : position p (x :: xs) = some 0 :=
  if_pos h

theorem position_cons_neg (h : ¬ p <+: x :: xs) :
    position p (x :: xs) = (position p xs).map (· + 1) := if_neg h

theorem position_self_append (hp : p ≠ []) : position p (p ++ xs) = some 0 := by
  cases p with
  | nil => exact absurd rfl hp
  | cons y p => exact position_cons_pos (List.prefix_append _ _)

theorem position_spec {i : ℕ} (h : position p xs = some i) :
    p <+: xs.drop i ∧ i + p.length ≤ xs.length := by
  induction xs generalizing i with
  | nil =>
      obtain ⟨rfl, rfl⟩ : p = [] ∧ 0 = i := by simpa [position] using h
      exact ⟨List.nil_prefix, Nat.le_refl _⟩
  | cons x xs ih =>
      by_cases hp : p <+: x :: xs
      · rw [position_cons_pos hp] at h
        cases h
        exact ⟨hp, by simpa using hp.length_le⟩
      · rw [position_cons_neg hp] at h
        obtain ⟨j, hj, rfl⟩ := Option.map_eq_some_iff.1 h
        obtain ⟨hpre, hle⟩ := ih hj
        refine ⟨hpre, ?_⟩
        rw [List.length_cons]
        omega

/-- The pattern occurs where `position` says. -/
theorem prefix_of_position {i : ℕ} (h : position p xs = some i) : p <+: xs.drop i :=
  (position_spec h).1

/-- An occurrence lies within the list. -/
theorem position_add_length_le {i : ℕ} (h : position p xs = some i) : i + p.length ≤ xs.length :=
  (position_spec h).2

theorem position_eq_none_iff : position p xs = none ↔ ¬ p <:+: xs := by
  induction xs with
  | nil => simp [position]
  | cons x xs ih =>
      by_cases hp : p <+: x :: xs
      · simp [position_cons_pos hp, hp.isInfix]
      · rw [position_cons_neg hp, Option.map_eq_none_iff, ih, List.infix_cons_iff]
        simp [hp]

/-- An occurrence cannot begin where the first element of the pattern does not occur. -/
theorem position_append_of_notMem (h : x ∉ xs) :
    position (x :: p) (xs ++ ys) = (position (x :: p) ys).map (· + xs.length) := by
  induction xs with
  | nil => simp
  | cons z xs ih =>
      have hz : ¬ x :: p <+: z :: (xs ++ ys) := fun hp ↦
        h (by rw [(List.cons_prefix_cons.1 hp).1]; exact List.mem_cons_self)
      rw [List.cons_append, position_cons_neg hz,
        ih fun hm ↦ h (List.mem_cons_of_mem _ hm), Option.map_map]
      refine congrArg₂ Option.map (funext fun n ↦ ?_) rfl
      simp [Nat.add_assoc]

end Position

section Separator

variable {α : Type u} {p xs ys : List α} {s : α}

/-- A pattern that does not contain the separator occurs on one side of it. -/
theorem infix_append_cons_iff (hs : s ∉ p) (hp : p ≠ []) :
    p <:+: xs ++ s :: ys ↔ p <:+: xs ∨ p <:+: ys := by
  constructor
  · intro h
    induction xs with
    | nil =>
        rcases List.infix_cons_iff.1 h with hpre | hinf
        · cases p with
          | nil => exact absurd rfl hp
          | cons y p =>
              obtain ⟨rfl, -⟩ := List.cons_prefix_cons.1 hpre
              exact absurd List.mem_cons_self hs
        · exact .inr hinf
    | cons x xs ih =>
        rcases List.infix_cons_iff.1 h with hpre | hinf
        · refine .inl (List.IsPrefix.isInfix ?_)
          rcases List.prefix_or_prefix_of_prefix hpre (List.prefix_append (x :: xs) (s :: ys)) with
            hle | hle
          · exact hle
          · obtain ⟨t, rfl⟩ := hle
            cases t with
            | nil => simp
            | cons y t =>
                have hy := (List.prefix_append_right_inj (x :: xs)).1 hpre
                obtain ⟨rfl, -⟩ := List.cons_prefix_cons.1 hy
                exact absurd (by simp) hs
        · exact (ih hinf).imp_left List.infix_cons
  · rintro (h | h)
    · exact List.infix_append_of_infix_left h
    · exact List.infix_append_of_infix_right (List.infix_cons h)

end Separator

section Split

variable {α : Type u} [DecidableEq α] {xs : List α}

/-- A text has one piece, or a first piece and others. -/
theorem splitOn_cases (s : α) (xs : List α) :
    (s ∉ xs ∧ xs.splitOn s = [xs]) ∨
      ∃ ys zs, s ∉ ys ∧ xs = ys ++ s :: zs ∧ xs.splitOn s = ys :: zs.splitOn s := by
  by_cases h : s ∈ xs
  · obtain ⟨ys, zs, rfl, hs⟩ := List.eq_append_cons_of_mem h
    exact .inr ⟨ys, zs, hs, rfl, List.splitOn_append_cons_self_of_not_mem hs zs⟩
  · exact .inl ⟨h, List.splitOn_eq_singleton h⟩

/-- The pieces on the two sides of the first separator, or the whole text if there is none. -/
def splitTwo (s : α) (xs : List α) : List (List α) :=
  if s ∈ xs then [xs.takeWhile (· ≠ s), (xs.dropWhile (· ≠ s)).tail] else [xs]

theorem splitTwo_of_notMem {s : α} (h : s ∉ xs) : splitTwo s xs = [xs] := if_neg h

theorem splitTwo_append_cons {s : α} (h : s ∉ xs) (ys : List α) :
    splitTwo s (xs ++ s :: ys) = [xs, ys] := by
  have hne : ∀ x ∈ xs, decide (x ≠ s) = true := fun x hx ↦ by
    refine decide_eq_true ?_
    rintro rfl
    exact h hx
  rw [splitTwo, if_pos (by simp), List.takeWhile_append_of_pos hne,
    List.dropWhile_append_of_pos hne, List.takeWhile_cons_of_neg (by simp),
    List.dropWhile_cons_of_neg (by simp), List.append_nil, List.tail_cons]

end Split

section Lines

variable {α : Type u} [DecidableEq α] {nl : α} {cur xs ys : List α}

/-- The lines that a reader completes, given what it has of the current line: what stands before
each line end `nl`. -/
def lines (nl : α) : List α → List α → List (List α)
  | _, [] => []
  | cur, x :: xs => if x = nl then cur :: lines nl [] xs else lines nl (cur ++ [x]) xs

/-- A line is completed by the first line end after it. -/
theorem lines_append_cons (h : nl ∉ xs) :
    lines nl cur (xs ++ nl :: ys) = (cur ++ xs) :: lines nl [] ys := by
  induction xs generalizing cur with
  | nil => simp [lines]
  | cons x xs ih =>
      obtain ⟨hx, h⟩ : nl ≠ x ∧ nl ∉ xs := by simpa using h
      rw [List.cons_append, lines, if_neg (Ne.symm hx), ih h]
      simp

/-- Reading on completes more lines. -/
theorem lines_isPrefix (h : xs <+: ys) : lines nl cur xs <+: lines nl cur ys := by
  induction xs generalizing cur ys with
  | nil => exact List.nil_prefix
  | cons x xs ih =>
      obtain ⟨t, rfl⟩ := h
      simp only [List.cons_append, lines]
      split
      · exact List.cons_prefix_cons.2 ⟨rfl, ih (List.prefix_append xs t)⟩
      · exact ih (List.prefix_append xs t)

end Lines

/-! ## White space -/

/-- `char::is_whitespace`: the Unicode property `White_Space`. -/
def isWhitespace (c : Char) : Bool :=
  let n := c.toNat
  decide (0x09 ≤ n ∧ n ≤ 0x0D) || n == 0x20 || n == 0x85 || n == 0xA0 || n == 0x1680 ||
    decide (0x2000 ≤ n ∧ n ≤ 0x200A) || n == 0x2028 || n == 0x2029 || n == 0x202F ||
    n == 0x205F || n == 0x3000

/-- `str::trim`. -/
def trim (cs : List Char) : List Char := (cs.dropWhile isWhitespace).rdropWhile isWhitespace

variable {cs : List Char} {c : Char}

theorem mem_of_mem_trim (h : c ∈ trim cs) : c ∈ cs :=
  (List.dropWhile_suffix _).mem ((List.rdropWhile_prefix _ _).mem h)

theorem trim_cons_of_isWhitespace (h : isWhitespace c = true) : trim (c :: cs) = trim cs := by
  rw [trim, List.dropWhile_cons_of_pos h, trim]

/-- A text that is its own trimming does not end in white space. -/
theorem getLast_of_trim_eq (h : trim cs = cs) (hne : cs ≠ []) :
    isWhitespace (cs.getLast hne) = false := by
  have hd : cs.dropWhile isWhitespace = cs := by
    apply (List.dropWhile_suffix _).eq_of_length_le
    calc cs.length = (trim cs).length := by rw [h]
      _ ≤ (cs.dropWhile isWhitespace).length := (List.rdropWhile_prefix _ _).length_le
  rw [trim, hd, List.rdropWhile_eq_self_iff] at h
  exact Bool.eq_false_iff.2 (h hne)

end ITG.Lib
