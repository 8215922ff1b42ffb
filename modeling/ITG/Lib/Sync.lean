import Mathlib.Data.Finset.Basic
import Mathlib.Tactic.Common

/-!
# Channels and locks

The two synchronisation objects that the programs of this development share state through.

* `Chan α n` is a FIFO channel that buffers at most `n` elements: a buffered Go channel, or
  one direction of a bounded `mpsc` channel.  The bound is a field, so a channel that holds
  more than it may cannot be written down.
* `RWMutex G` is a reader/writer lock with holders in `G`.  Its field `excl` is mutual
  exclusion, and every operation that could break it asks for the condition under which the
  real operation would return instead of blocking.

Operations that may block are functions of the proof that they do not.
-/

universe u

namespace ITG.Lib

/-- A FIFO channel with room for `n` elements, oldest first. -/
structure Chan (α : Type u) (n : ℕ) where
  /-- The buffered elements. -/
  buf : List α
  /-- The capacity is respected. -/
  le : buf.length ≤ n
deriving DecidableEq

namespace Chan

variable {α : Type u} {n : ℕ}

/-- The empty channel. -/
def empty : Chan α n := ⟨[], Nat.zero_le n⟩

/-- A send does not block: there is room in the buffer. -/
def HasRoom (c : Chan α n) : Prop := c.buf.length < n

instance (c : Chan α n) : Decidable c.HasRoom := inferInstanceAs (Decidable (_ < _))

/-- Send an element. -/
def push (c : Chan α n) (x : α) (h : c.HasRoom) : Chan α n :=
  ⟨c.buf ++ [x], by rw [List.length_append]; exact h⟩

/-- Receive, dropping the oldest element. -/
def pop (c : Chan α n) : Chan α n :=
  ⟨c.buf.tail, le_trans (by simp) c.le⟩

@[simp] theorem buf_empty : (empty : Chan α n).buf = [] := rfl

@[simp] theorem buf_push (c : Chan α n) (x : α) (h : c.HasRoom) :
    (c.push x h).buf = c.buf ++ [x] := rfl

@[simp] theorem buf_pop (c : Chan α n) : c.pop.buf = c.buf.tail := rfl

/-- The oldest element is followed by what a receive leaves. -/
theorem buf_eq_cons {c : Chan α n} {x : α} (h : c.buf.head? = some x) :
    c.buf = x :: c.pop.buf := List.eq_cons_of_mem_head? h

/-- A channel with room for one element is empty after a receive. -/
theorem buf_pop_one (c : Chan α 1) : c.pop.buf = [] :=
  List.eq_nil_of_length_eq_zero (by have := c.le; rw [buf_pop, List.length_tail]; omega)

end Chan

/-- The writer's side of a reader/writer lock. -/
inductive Writer where
  /-- No writer has asked for the lock. -/
  | absent
  /-- A writer has announced itself: it waits for the readers to leave, and new readers
  wait for it. -/
  | waiting
  /-- A writer holds the lock. -/
  | holding
deriving DecidableEq, Repr

/-- A reader/writer lock that gives preference to a waiting writer, as `sync.RWMutex` does. -/
structure RWMutex (G : Type u) where
  /-- The holders of the read lock. -/
  readers : Finset G
  /-- Where the writer stands. -/
  writer : Writer
  /-- A writer holds the lock alone. -/
  excl : writer = .holding → readers = ∅

namespace RWMutex

variable {G : Type u}

/-- The unlocked lock. -/
def new : RWMutex G := ⟨∅, .absent, fun h ↦ nomatch h⟩

/-- `RLock` does not block. -/
def CanRLock (m : RWMutex G) : Prop := m.writer = .absent

/-- `Lock`, already announced, does not block. -/
def CanLock (m : RWMutex G) : Prop := m.writer = .waiting ∧ m.readers = ∅

instance (m : RWMutex G) : Decidable m.CanRLock := inferInstanceAs (Decidable (_ = _))

instance [DecidableEq G] (m : RWMutex G) : Decidable m.CanLock :=
  inferInstanceAs (Decidable (_ ∧ _))

/-- `RLock` by `g`. -/
def rLock [DecidableEq G] (m : RWMutex G) (g : G) (_ : m.CanRLock) : RWMutex G :=
  ⟨insert g m.readers, .absent, fun h ↦ nomatch h⟩

/-- `RUnlock` by `g`. -/
def rUnlock [DecidableEq G] (m : RWMutex G) (g : G) : RWMutex G :=
  ⟨m.readers.erase g, m.writer, fun h ↦ by simp [m.excl h]⟩

/-- The first half of `Lock`: exclude new readers. -/
def announce (m : RWMutex G) (_ : m.CanRLock) : RWMutex G :=
  ⟨m.readers, .waiting, fun h ↦ nomatch h⟩

/-- The second half of `Lock`: take the lock once the readers have left. -/
def lock (m : RWMutex G) (h : m.CanLock) : RWMutex G := ⟨m.readers, .holding, fun _ ↦ h.2⟩

/-- `Unlock`. -/
def unlock (m : RWMutex G) : RWMutex G := ⟨m.readers, .absent, fun h ↦ nomatch h⟩

@[simp] theorem readers_new : (new : RWMutex G).readers = ∅ := rfl
@[simp] theorem writer_new : (new : RWMutex G).writer = .absent := rfl

@[simp] theorem readers_rLock [DecidableEq G] (m : RWMutex G) (g : G) (h : m.CanRLock) :
    (m.rLock g h).readers = insert g m.readers := rfl
@[simp] theorem writer_rLock [DecidableEq G] (m : RWMutex G) (g : G) (h : m.CanRLock) :
    (m.rLock g h).writer = .absent := rfl

@[simp] theorem readers_rUnlock [DecidableEq G] (m : RWMutex G) (g : G) :
    (m.rUnlock g).readers = m.readers.erase g := rfl
@[simp] theorem writer_rUnlock [DecidableEq G] (m : RWMutex G) (g : G) :
    (m.rUnlock g).writer = m.writer := rfl

@[simp] theorem readers_announce (m : RWMutex G) (h : m.CanRLock) :
    (m.announce h).readers = m.readers := rfl
@[simp] theorem writer_announce (m : RWMutex G) (h : m.CanRLock) :
    (m.announce h).writer = .waiting := rfl

@[simp] theorem readers_lock (m : RWMutex G) (h : m.CanLock) :
    (m.lock h).readers = m.readers := rfl
@[simp] theorem writer_lock (m : RWMutex G) (h : m.CanLock) : (m.lock h).writer = .holding := rfl

@[simp] theorem readers_unlock (m : RWMutex G) : m.unlock.readers = m.readers := rfl
@[simp] theorem writer_unlock (m : RWMutex G) : m.unlock.writer = .absent := rfl

end RWMutex

end ITG.Lib
