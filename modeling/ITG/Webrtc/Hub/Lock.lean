import ITG.Webrtc.Hub.Control

/-!
# Who holds the hub's lock

The lock of a hub is held by the goroutines whose program points say so: `Run` between its
`RLock` and `RUnlock` calls or between `Lock` and `Unlock`, and a `Sender` between the two ends
of its snippet.  `LockInv` states this, and it is an invariant of the hub by itself.  Together
with `RWMutex.excl` it yields the fact everything else rests on, `LockInv.no_sender`: while
`Run` changes `Clients`, no sender is between its membership check and its `RUnlock`.
-/

universe u

namespace ITG.Webrtc

open ITG.Lib

variable {C : Type u}

/-- What a program point of `Run` says about the lock. -/
inductive LockUse where
  | none
  | reading
  | waiting
  | holding
deriving DecidableEq, Repr

/-- The state of the writer's side under a use of the lock by `Run`, the only writer. -/
def LockUse.writer : LockUse → Writer
  | .none | .reading => .absent
  | .waiting => .waiting
  | .holding => .holding

/-- How `Run` uses the lock at a program point. -/
def RunAt.lockUse : RunAt C → LockUse
  | .locked _ | .doneClose _ | .unlock _ => .holding
  | .waitLock _ => .waiting
  | .unregCheck _ | .unregRUnlock _ _ | .infoLen | .infoRUnlock _ | .castNext _ _
  | .castSend _ _ _ | .castRUnlock => .reading
  | .select | .wantLock _ | .unregRLock _ | .connClose _ | .sendClose _ | .infoRLock
  | .goSendInfo _ | .castRLock _ | .returned => .none

/-- Whether a sender holds the read lock. -/
def SendAt.reading : SendAt → Bool
  | .check _ | .send _ | .rUnlock _ => true
  | .idle | .rLock _ | .over _ => false

@[simp] theorem SendAt.reading_called (i : Option ℕ) : (SendAt.called i).reading = false := by
  cases i <;> rfl

namespace Hub

/-- The lock agrees with the program points. -/
structure LockInv (s : Hub C) : Prop where
  /-- The writer's side is as `Run` left it. -/
  writer : s.mu.writer = s.run.lockUse.writer
  /-- `Run` is among the readers exactly at its reading points. -/
  run : .run ∈ s.mu.readers ↔ s.run.lockUse = .reading
  /-- A sender is among the readers exactly at its reading points. -/
  sender : ∀ g, .sender g ∈ s.mu.readers ↔ (s.sender g).reading = true

theorem LockInv.new : LockInv (new : Hub C) where
  writer := rfl
  run := by simp [Hub.new, RunAt.lockUse]
  sender := by simp [Hub.new, SendAt.reading]

/-- While `Run` holds the write lock, no sender is inside its snippet. -/
theorem LockInv.no_sender {s : Hub C} (h : LockInv s) (hl : s.run.lockUse = .holding)
    (g : Sender C) :
    (s.sender g).reading = false := by
  have hw : s.mu.writer = .holding := by rw [h.writer, hl]; rfl
  rw [← Bool.not_eq_true, ← h.sender g, s.mu.excl hw]
  exact Finset.notMem_empty _

variable [DecidableEq C] {s : Hub C} {a : Action C}

theorem LockInv.writer_step (h : LockInv s) (g : s.guard a) :
    (s.effect a g).mu.writer = (s.effect a g).run.lockUse.writer := by
  have hw := h.writer
  cases a
  case unlock w => cases w <;> rfl
  case unregRUnlock c ok =>
      have hrun : s.run = .unregRUnlock c ok := g
      cases ok <;> simp [effect, hw, hrun, RunAt.lockUse, LockUse.writer]
  case rLock k m => exact g.2.symm.trans hw
  all_goals
    simp only [guard, RWMutex.CanRLock, RWMutex.CanLock] at g
    simp [effect, hw, g, RunAt.lockUse, LockUse.writer]

theorem LockInv.run_step (h : LockInv s) (g : s.guard a) :
    .run ∈ (s.effect a g).mu.readers ↔ (s.effect a g).run.lockUse = .reading := by
  have hr := h.run
  cases a
  case unlock w =>
      have hrun : s.run = .unlock w := g
      cases w <;> simp [effect, hr, hrun, RunAt.lockUse, afterUnlock]
  case unregRUnlock c ok => cases ok <;> simp [effect, RunAt.lockUse]
  all_goals
    simp only [guard, RWMutex.CanRLock, RWMutex.CanLock] at g
    simp [effect, hr, g, RunAt.lockUse]

theorem LockInv.sender_step (h : LockInv s) (hc : ControlInv s) (g : s.guard a)
    (k : Sender C) :
    .sender k ∈ (s.effect a g).mu.readers ↔ ((s.effect a g).sender k).reading = true := by
  have hk := h.sender k
  cases a
  case rLock k' m | rUnlock k' m =>
      by_cases e : k = k'
      · subst e; simp [effect, SendAt.reading]
      · simpa [effect, e] using hk
  case check k' m =>
      by_cases e : k = k'
      · subst e
        have hs : s.sender k = .check m := g
        simp only [effect, Function.update_self]
        split <;> simpa [SendAt.reading, hs] using hk
      · simpa [effect, e] using hk
  case send k' m =>
      by_cases e : k = k'
      · subst e; simpa [effect, SendAt.reading, g.1] using hk
      · simpa [effect, e] using hk
  case candidate c i j =>
      by_cases e : k = .callback c i
      · subst e
        have hk' : .sender (.callback c i) ∉ s.mu.readers := by
          simpa [SendAt.reading, g.2] using hk
        simpa [effect] using hk'
      · simpa [effect, e] using hk
  case setLocalDescription c =>
      by_cases e : k = .handler c
      · subst e
        have hs : s.sender (.handler c) = .idle := hc.offerIdle c (le_of_eq g)
        simpa [effect, SendAt.reading, hs] using hk
      · simpa [effect, e] using hk
  all_goals simpa [effect] using hk

/-- The lock agrees with the program points after every step. -/
theorem LockInv.step (h : LockInv s) (hc : ControlInv s) (g : s.guard a) :
    LockInv (s.effect a g) :=
  ⟨h.writer_step g, h.run_step g, h.sender_step hc g⟩

end Hub

end ITG.Webrtc
