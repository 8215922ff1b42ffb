import Mathlib.Data.List.Basic
import Mathlib.Tactic.Common

/-!
# Reading into a buffer of fixed size

A `Buffer α n` holds `n` elements, always.  `readFrom` puts a message at its front, as much of it as
there is room for, and says how much that was; what is behind stays from earlier messages.  Who
looks at that part only (`slice`) sees the message cut to `n` elements, and nothing of the earlier
ones.

`filter_take_eq_iff` says when it does not matter that messages are cut.
-/

universe u

namespace ITG.Lib

/-- A buffer of `n` elements. -/
structure Buffer (α : Type u) (n : ℕ) where
  elems : List α
  length_eq : elems.length = n

namespace Buffer

variable {α : Type u} {n : ℕ}

/-- A fresh buffer, with this element everywhere. -/
def make (x : α) : Buffer α n := ⟨.replicate n x, List.length_replicate⟩

/-- The first `k` elements. -/
def slice (b : Buffer α n) (k : ℕ) : List α := b.elems.take k

/-- A message is read into the buffer: the buffer after it, and how many elements were read. -/
def readFrom (b : Buffer α n) (message : List α) : Buffer α n × ℕ where
  fst := ⟨message.take n ++ b.elems.drop (min n message.length), by
    rw [List.length_append, List.length_take, List.length_drop, b.length_eq]
    omega⟩
  snd := min n message.length

/-- What has been read is the message, cut to the size of the buffer. -/
theorem slice_readFrom (b : Buffer α n) (message : List α) :
    (b.readFrom message).1.slice (b.readFrom message).2 = message.take n := by
  change List.take (min n message.length) (message.take n ++ _) = _
  rw [← List.length_take, List.take_left']
  rfl

end Buffer

section Cut

variable {α : Type u} {n : ℕ} {p : List α → Bool} {messages : List (List α)}

/-- If no message that is cut is selected itself, cutting selects at least as many. -/
theorem length_filter_le_take (h : ∀ m ∈ messages, n < m.length → p m = false) :
    (messages.filter p).length ≤ ((messages.map (List.take n)).filter p).length := by
  rw [← List.countP_eq_length_filter, ← List.countP_eq_length_filter, List.countP_map]
  apply List.countP_mono_left
  intro m hm hp
  have hle : m.length ≤ n := Nat.le_of_not_lt fun hlt ↦ by
    rw [h m hm hlt] at hp
    cases hp
  rwa [Function.comp_apply, List.take_of_length_le hle]

/-- If it selects no more, it selects none of those that are cut. -/
theorem eq_false_of_filter_take_eq (hlong : ∀ m ∈ messages, n < m.length → p m = false)
    (h : (messages.map (List.take n)).filter p = messages.filter p) :
    ∀ m ∈ messages, n < m.length → p (m.take n) = false := by
  induction messages with
  | nil => exact nofun
  | cons m messages ih =>
      have hlong' := fun m hm ↦ hlong m (List.mem_cons_of_mem _ hm)
      by_cases hle : m.length ≤ n
      · rw [List.map_cons, List.take_of_length_le hle] at h
        have htail : (messages.map (List.take n)).filter p = messages.filter p := by
          by_cases hp : p m = true
          · rw [List.filter_cons_of_pos hp, List.filter_cons_of_pos hp] at h
            exact List.tail_eq_of_cons_eq h
          · rwa [List.filter_cons_of_neg hp, List.filter_cons_of_neg hp] at h
        exact List.forall_mem_cons.2 ⟨fun hlt ↦ absurd hle (Nat.not_le_of_lt hlt), ih hlong' htail⟩
      · have hp : ¬ p m = true := by
          simp [hlong m List.mem_cons_self (Nat.lt_of_not_le hle)]
        rw [List.map_cons, List.filter_cons_of_neg hp] at h
        by_cases hcut : p (m.take n) = true
        · -- one more would be selected after cutting
          rw [List.filter_cons_of_pos hcut] at h
          have hlen := length_filter_le_take hlong'
          rw [← h] at hlen
          exact absurd hlen (Nat.not_succ_le_self _)
        · rw [List.filter_cons_of_neg hcut] at h
          exact List.forall_mem_cons.2 ⟨fun _ ↦ by simpa using hcut, ih hlong' h⟩

/-- Cutting the messages leaves those alone that are selected, and selects no others, exactly if no
message that is too long is selected, neither as it is nor when cut. -/
theorem filter_take_eq_iff : (messages.map (List.take n)).filter p = messages.filter p ↔
    ∀ m ∈ messages, n < m.length → p m = false ∧ p (m.take n) = false := by
  constructor
  · intro h
    -- what is selected after cutting is short
    have hlong : ∀ m ∈ messages, n < m.length → p m = false := by
      intro m hm hlt
      by_contra hp
      have hsel : m ∈ (messages.map (List.take n)).filter p := by
        rw [h]
        exact List.mem_filter.2 ⟨hm, by simpa using hp⟩
      obtain ⟨m', -, rfl⟩ := List.mem_map.1 (List.mem_filter.1 hsel).1
      exact absurd hlt (Nat.not_lt_of_le (List.length_take_le n m'))
    exact fun m hm hlt ↦ ⟨hlong m hm hlt, eq_false_of_filter_take_eq hlong h m hm hlt⟩
  · intro h
    induction messages with
    | nil => rfl
    | cons m messages ih =>
        obtain ⟨hm, hmessages⟩ := List.forall_mem_cons.1 h
        by_cases hle : m.length ≤ n
        · rw [List.map_cons, List.take_of_length_le hle, List.filter_cons, ih hmessages,
            List.filter_cons]
        · obtain ⟨hp, hcut⟩ := hm (Nat.lt_of_not_le hle)
          rw [List.map_cons, List.filter_cons_of_neg (by simp [hcut]), ih hmessages,
            List.filter_cons_of_neg (by simp [hp])]

end Cut

end ITG.Lib
