import ITG.Webrtc.Hub.Counts

/-!
# What a writer takes and what it writes

`WriteLoop` receives messages from `c.Send` and writes them one after the other.  Until it returns,
what it has taken is what it has written, and the message that it is writing (`Inv.taken_step`).
The last message of a `WriteLoop` that returns may be lost.
-/

universe u

namespace ITG.Webrtc

open ITG.Lib

variable {C : Type u}

/-- The message that `WriteLoop` has taken and not yet written. -/
def WriteAt.held : WriteAt → List Message
  | .writing m => [m]
  | .idle | .select | .closing | .returned => []

/-- The count that a message carries. -/
def Message.count? : Message → Option ℕ
  | .info n => some n
  | .offer | .candidate _ => none

variable [DecidableEq C]

/-- The message that the client's `WriteLoop` received. -/
def Event.taken? (c : C) : Event C → Option Message
  | .received d m => if d = c then some m else none
  | _ => none

/-- What the client's `WriteLoop` has received. -/
def taken (c : C) (h : List (Event C)) : List Message := h.filterMap (Event.taken? c)

/-- What the client's `WriteLoop` writes. -/
def Action.written (c : C) : Action C → List Message
  | .writeOk d m => if d = c then [m] else []
  | _ => []

@[simp] theorem taken_append (c : C) (h k : List (Event C)) :
    taken c (h ++ k) = taken c h ++ taken c k :=
  List.filterMap_append

theorem mem_taken {c : C} {m : Message} {h : List (Event C)} :
    m ∈ taken c h ↔ .received c m ∈ h := by
  rw [taken, List.mem_filterMap]
  constructor
  · rintro ⟨e, he, hm⟩
    cases e with
    | received d m' =>
        by_cases hd : d = c
        · rw [Event.taken?, if_pos hd] at hm
          cases hm
          exact hd ▸ he
        · rw [Event.taken?, if_neg hd] at hm
          cases hm
    | _ => cases hm
  · exact fun he ↦ ⟨_, he, if_pos rfl⟩

/-- The broadcasts are the messages with a count. -/
theorem heard_eq_taken (c : C) (h : List (Event C)) :
    heard c h = (taken c h).filterMap fun m ↦ m.count?.map .info := by
  rw [heard, taken, List.filterMap_filterMap]
  congr 1
  funext e
  cases e with
  | received d m =>
      by_cases hd : d = c
      · cases m <;> simp [Event.heard?, Event.taken?, Message.count?, hd]
      · cases m <;> simp [Event.heard?, Event.taken?, hd]
  | _ => rfl

namespace Hub

variable {s : Hub C} {a : Action C} {c : C}

/-- Nothing is taken or written by the steps of others. -/
theorem taken_of_ne (ha : a.writer? ≠ some c) :
    taken c (s.emit a) = [] ∧ a.written c = [] := by
  cases a
  case castSend m d rest =>
      have hd : d ≠ c := fun h ↦ ha (congrArg some h)
      refine ⟨?_, rfl⟩
      simp only [emit]
      split <;> simp [taken, Event.taken?, hd]
  case send k m =>
      have hk : k.client ≠ c := fun h ↦ ha (congrArg some h)
      refine ⟨?_, rfl⟩
      simp only [emit]
      split <;> simp [taken, Event.taken?, hk]
  case writeOk d m =>
      have hd : d ≠ c := fun h ↦ ha (congrArg some h)
      exact ⟨rfl, if_neg hd⟩
  case unregRUnlock d ok => cases ok <;> exact ⟨rfl, rfl⟩
  all_goals exact ⟨rfl, rfl⟩

/-- A message that is sent goes to a `WriteLoop` at its `select`. -/
theorem Inv.writer_of_sendReady (hi : Inv s) (hs : s.SendingTo c) (g : s.SendReady c) :
    s.sendClosed c = false ∧ s.writer c = .select := by
  have ho := hi.sendClosed_of_sendingTo hs
  exact ⟨ho, g.resolve_left (by simp [ho])⟩

/-- A `WriteLoop` that has returned does nothing more. -/
theorem Inv.writer_returned (hi : Inv s) (g : s.guard a) (hw : s.writer c = .returned) :
    (s.effect a g).writer c = .returned := by
  by_cases ha : a.writer? = some c
  · cases a
    case castSend m d rest =>
        cases ha
        cases hw.symm.trans (hi.writer_of_sendReady (.inl ⟨m, rest, g.1⟩) g.2).2
    case send k m =>
        cases ha
        cases hw.symm.trans (hi.writer_of_sendReady (.inr ⟨k, m, rfl, g.1⟩) g.2).2
    case goWriteLoop d =>
        cases ha
        cases hw.symm.trans ((hi.control.writer c).2 (le_of_eq g))
    case writeOk d m =>
        cases ha
        cases hw.symm.trans g
    case recvClosed d =>
        cases ha
        cases hw.symm.trans g.1
    case writeFail d m | pingFail d | writeClose d =>
        cases ha
        exact Function.update_self ..
    all_goals cases ha
  · rw [writer_frame g ha, hw]

/-- The step lemma for a `WriteLoop` that goes on. -/
theorem Inv.taken_step (hi : Inv s) (g : s.guard a)
    (hw : (s.effect a g).writer c ≠ .returned) :
    (s.writer c).held ++ taken c (s.emit a) =
      a.written c ++ ((s.effect a g).writer c).held := by
  by_cases ha : a.writer? = some c
  · cases a
    case castSend m d rest =>
        cases ha
        obtain ⟨ho, hsel⟩ := hi.writer_of_sendReady (.inl ⟨m, rest, g.1⟩) g.2
        simp [effect, deliver_of_open ho, emit, ho, hsel, WriteAt.held, taken, Event.taken?,
          Action.written]
    case send k m =>
        cases ha
        obtain ⟨ho, hsel⟩ := hi.writer_of_sendReady (.inr ⟨k, m, rfl, g.1⟩) g.2
        simp [effect, deliver_of_open ho, emit, ho, hsel, WriteAt.held, taken, Event.taken?,
          Action.written]
    case goWriteLoop d =>
        cases ha
        have hidle := (hi.control.writer c).2 (le_of_eq g)
        simp [effect, emit, hidle, WriteAt.held, taken, Action.written]
    case writeOk d m =>
        cases ha
        have hwriting : s.writer c = .writing m := g
        simp [effect, emit, hwriting, WriteAt.held, taken, Action.written]
    case recvClosed d =>
        cases ha
        simp [effect, emit, g.1, WriteAt.held, taken, Action.written]
    case writeFail d m | pingFail d | writeClose d =>
        cases ha
        exact absurd (Function.update_self ..) hw
    all_goals cases ha
  · obtain ⟨ht, hwr⟩ := taken_of_ne (s := s) ha
    rw [writer_frame g ha, ht, hwr, List.append_nil, List.nil_append]

/-- A step that ends a `WriteLoop`, or comes after its end. -/
theorem Inv.taken_of_returned (hi : Inv s) (g : s.guard a)
    (hw : (s.effect a g).writer c = .returned) :
    taken c (s.emit a) = [] ∧ a.written c = [] := by
  by_cases ha : a.writer? = some c
  · cases a
    case castSend m d rest =>
        cases ha
        obtain ⟨ho, -⟩ := hi.writer_of_sendReady (.inl ⟨m, rest, g.1⟩) g.2
        simp [effect, deliver_of_open ho] at hw
    case send k m =>
        cases ha
        obtain ⟨ho, -⟩ := hi.writer_of_sendReady (.inr ⟨k, m, rfl, g.1⟩) g.2
        simp [effect, deliver_of_open ho] at hw
    case writeOk d m =>
        cases ha
        simp [effect] at hw
    all_goals first
      | cases ha; done
      | exact ⟨rfl, rfl⟩
  · exact taken_of_ne ha

/-- Nothing is written that has not been taken. -/
theorem Inv.held_sublist (hi : Inv s) (g : s.guard a) :
    (a.written c ++ ((s.effect a g).writer c).held).Sublist
      ((s.writer c).held ++ taken c (s.emit a)) := by
  by_cases hw : (s.effect a g).writer c = .returned
  · obtain ⟨-, hn⟩ := hi.taken_of_returned g hw
    rw [hn, hw]
    exact List.nil_sublist _
  · exact (hi.taken_step g hw).symm ▸ List.Sublist.refl _

/-- Offers come from the offer step. -/
theorem Inv.handler_of_received (hi : Inv s) (g : s.guard a)
    (hcast : ∀ m, s.run.casting = some m → ∃ n, m = .info n)
    (he : .received c .offer ∈ s.emit a) : a = .send (.handler c) .offer := by
  cases a
  case castSend m d rest =>
      obtain ⟨n, rfl⟩ := hcast m (by rw [g.1]; rfl)
      simp only [emit] at he
      split at he <;> simp at he
  case send k m =>
      simp only [emit] at he
      split at he
      · cases he
      · obtain ⟨rfl, rfl⟩ : c = k.client ∧ .offer = m := by simpa using he
        cases k with
        | handler d => rfl
        | callback d j =>
            obtain ⟨i, hi'⟩ := hi.control.callbackMsg d j _ (by rw [g.1]; rfl)
            cases hi'
  case unregRUnlock d ok => cases ok <;> simp [emit] at he
  all_goals simp [emit] at he

end Hub

end ITG.Webrtc
