import ITG.Webrtc.Hub.Defs

/-!
# What each goroutine can do

The program point of a goroutine is moved by its own actions only, and by few of them.  This
file says once, for each kind of goroutine other than `Run`, which ones: a handler only moves
forward (`handler_mono`), and the other program points are unchanged except by the actions that
`sender_frame`, `stateChange_frame` and `writer_frame` name.

From these it derives `ControlInv`: what `websocketHandler` has done so far bounds what the
viewer's other goroutines can be doing.  The offer step only runs between
`SetLocalDescription` and `ReadLoop`, a candidate is only gathered after `SetLocalDescription`,
a state callback only fires once it is armed, and `WriteLoop` runs from before the `Register`
send on.
-/

universe u

namespace ITG.Webrtc

open ITG.Lib

variable {C : Type u}

/-- The client whose handler an action moves, and the program point it leaves. -/
def Action.handler? : Action C → Option (C × HandlerAt)
  | .accept c => some (c, .idle)
  | .goWriteLoop c => some (c, .newClient)
  | .register c => some (c, .register)
  | .onICECandidate c => some (c, .onICECandidate)
  | .onConnectionStateChange c => some (c, .onConnectionStateChange)
  | .setLocalDescription c => some (c, .setLocalDescription)
  | .offerEnd c => some (c, .offer)
  | .readError c => some (c, .reading)
  | .checkClosed c => some (c, .closed)
  | .readUnregister c => some (c, .unregister)
  | .readConnClose c => some (c, .connClose)
  | .handlerReturn c => some (c, .peerClose)
  | _ => none

/-- The sender whose program point an action moves. -/
def Action.sender? : Action C → Option (Sender C)
  | .setLocalDescription c => some (.handler c)
  | .candidate c k _ => some (.callback c k)
  | .rLock k _ | .check k _ | .send k _ | .rUnlock k _ => some k
  | _ => none

/-- The client whose `WriteLoop` an action moves. -/
def Action.writer? : Action C → Option C
  | .castSend _ c _ | .goWriteLoop c | .writeOk c _ | .writeFail c _ | .pingFail c
  | .recvClosed c | .writeClose c => some c
  | .send k _ => some k.client
  | _ => none

/-- The client one of whose state callbacks an action moves. -/
def Action.stateChange? : Action C → Option (C × ℕ)
  | .stateFailed c k | .statePeerClose c k | .stateClosed c k | .stateUnregister c k =>
      some (c, k)
  | _ => none

/-- The message a sender was called with. -/
def SendAt.message : SendAt → Option Message
  | .idle => none
  | .rLock m | .check m | .send m | .rUnlock m => some m
  | .over m => m

@[simp] theorem SendAt.message_called (i : Option ℕ) :
    (SendAt.called i).message = i.map .candidate := by
  cases i <;> rfl

@[simp] theorem SendAt.called_ne_idle (i : Option ℕ) : SendAt.called i ≠ .idle := by
  cases i <;> simp [SendAt.called]

namespace Hub

/-- Which program points of one viewer's goroutines go together. -/
structure ControlInv (s : Hub C) : Prop where
  /-- The offer step has not begun before `SetLocalDescription`. -/
  offerIdle : ∀ c, s.handler c ≤ .setLocalDescription → s.sender (.handler c) = .idle
  /-- The offer step has ended once the handler is past it. -/
  offerOver : ∀ c, .offer < s.handler c → s.sender (.handler c) = .over (some .offer)
  /-- The offer step sends an offer. -/
  offerMsg : ∀ c m, (s.sender (.handler c)).message = some m → m = .offer
  /-- Candidates are gathered from `SetLocalDescription` on. -/
  callback : ∀ c k, s.sender (.callback c k) ≠ .idle → .setLocalDescription < s.handler c
  /-- The callback sends a candidate. -/
  callbackMsg : ∀ c k m, (s.sender (.callback c k)).message = some m → ∃ i, m = .candidate i
  /-- State callbacks fire once they are armed. -/
  stateChange : ∀ c k, s.stateChange c k ≠ .idle → .onConnectionStateChange < s.handler c
  /-- `WriteLoop` runs from its `go` statement on. -/
  writer : ∀ c, s.writer c = .idle ↔ s.handler c ≤ .newClient

theorem ControlInv.new : ControlInv (new : Hub C) := by
  constructor <;> simp +decide [Hub.new, SendAt.message]

variable {s : Hub C} {a : Action C}

/-! ## What `Run` makes observable -/

/-- A client is registered by its insertion. -/
theorem mem_emit_registered {c : C} : .registered c ∈ s.emit a ↔ a = .insert c := by
  cases a
  case unregRUnlock d ok => cases ok <;> simp [emit]
  case castSend m d rest => simp only [emit]; split <;> simp
  case send k m => simp only [emit]; split <;> simp
  all_goals simp [emit, eq_comm]

/-- An `Unregister` is consumed by deleting the client or by not finding it. -/
theorem mem_emit_unregistered {c : C} :
    .unregistered c ∈ s.emit a ↔ a = .delete c ∨ a = .unregRUnlock c false := by
  cases a
  case unregRUnlock d ok => cases ok <;> simp [emit, eq_comm]
  case castSend m d rest => simp only [emit]; split <;> simp
  case send k m => simp only [emit]; split <;> simp
  all_goals simp [emit, eq_comm]

variable [DecidableEq C]

/-! ## One step of each goroutine -/

/-- A handler's program point is moved by its own actions only. -/
theorem handler_frame (g : s.guard a) {c : C} (h : ∀ p, a.handler? ≠ some (c, p)) :
    (s.effect a g).handler c = s.handler c := by
  cases a
  case accept d | goWriteLoop d | register d | onICECandidate d | onConnectionStateChange d
      | setLocalDescription d | offerEnd d | readError d | checkClosed d | readUnregister d
      | readConnClose d | handlerReturn d =>
      have e : c ≠ d := fun e ↦ h _ (by rw [e]; rfl)
      simp [effect, e]
  all_goals simp [effect]

/-- A moved handler was at the program point it leaves, and has gone forward. -/
theorem handler_leaves (g : s.guard a) {c : C} {p : HandlerAt} (h : a.handler? = some (c, p)) :
    s.handler c = p ∧ p < (s.effect a g).handler c := by
  cases a
  case checkClosed d =>
      cases h
      have hs : s.handler c = .closed := g
      cases hd : s.done <;> simp +decide [effect, hs, hd]
  all_goals first
    | cases h; done
    | (cases h; simp only [guard] at g; simp +decide [effect, g])

/-- Handlers only move forward. -/
theorem handler_mono (g : s.guard a) (c : C) : s.handler c ≤ (s.effect a g).handler c := by
  by_cases h : ∃ p, a.handler? = some (c, p)
  · obtain ⟨p, hp⟩ := h
    obtain ⟨he, hlt⟩ := handler_leaves g hp
    exact he.le.trans hlt.le
  · exact (handler_frame g (not_exists.1 h)).ge

/-- Up to `ReadLoop` a handler takes its program points one at a time: the action that takes it
past one of them is the action that leaves that one. -/
theorem handler_passes (g : s.guard a) {c : C} {p : HandlerAt} (hp : p ≤ .offer)
    (hle : s.handler c ≤ p) (hlt : p < (s.effect a g).handler c) :
    a.handler? = some (c, p) := by
  by_cases h : ∃ q, a.handler? = some (c, q)
  · obtain ⟨q, hq⟩ := h
    cases a
    case checkClosed d =>
        cases hq
        have hs : s.handler c = .closed := g
        exact absurd (hs ▸ hle) (not_le.2 (lt_of_le_of_lt hp (by decide)))
    all_goals first
      | cases hq; done
      | (cases hq
         simp only [guard] at g
         simp only [g] at hle
         simp only [effect, Function.update_self] at hlt
         cases p <;> first
           | rfl
           | exact absurd hle (by decide)
           | exact absurd hlt (by decide))
  · rw [handler_frame g (not_exists.1 h)] at hlt
    exact absurd hle (not_le.2 hlt)

/-- A handler stays on its side of a program point unless an action leaves that point. -/
theorem handler_le_iff (g : s.guard a) {c : C} {p : HandlerAt} (hp : p ≤ .offer)
    (h : a.handler? ≠ some (c, p)) : (s.effect a g).handler c ≤ p ↔ s.handler c ≤ p :=
  ⟨(handler_mono g c).trans, fun hle ↦ not_lt.1 fun hlt ↦ h (handler_passes g hp hle hlt)⟩

/-- A sender's program point is moved by its own actions only. -/
theorem sender_frame (g : s.guard a) {k : Sender C} (h : a.sender? ≠ some k) :
    (s.effect a g).sender k = s.sender k := by
  cases a
  case setLocalDescription c | candidate c i j | rLock k' m | check k' m | send k' m
      | rUnlock k' m =>
      have e : k ≠ _ := fun e ↦ h (congrArg some e.symm)
      simp [effect, e]
  all_goals simp [effect]

/-- What can happen to a sender: nothing, a start by one of the two callers, or progress
through the snippet with the message it was called with. -/
theorem sender_step (g : s.guard a) (k : Sender C) :
    (s.effect a g).sender k = s.sender k ∨
    (∃ c, a = .setLocalDescription c ∧ k = .handler c ∧
      (s.effect a g).sender k = .rLock .offer) ∨
    (∃ c i j, a = .candidate c i j ∧ k = .callback c i ∧
      (s.effect a g).sender k = .called j) ∨
    ∃ m, (s.sender k).message = some m ∧ s.sender k ≠ .over (some m) ∧
      ((s.effect a g).sender k).message = some m ∧ (s.effect a g).sender k ≠ .idle := by
  by_cases h : a.sender? = some k
  · cases a
    case setLocalDescription c =>
        cases h
        exact .inr (.inl ⟨c, rfl, rfl, by simp [effect]⟩)
    case candidate c i j =>
        cases h
        exact .inr (.inr (.inl ⟨c, i, j, rfl, rfl, by simp [effect]⟩))
    case rLock k' m | send k' m =>
        cases h
        exact .inr (.inr (.inr ⟨m, by simp [g.1, effect, SendAt.message]⟩))
    case check k' m =>
        cases h
        have hs : s.sender k = .check m := g
        refine .inr (.inr (.inr ⟨m, ?_⟩))
        by_cases hc : k.client ∈ s.Clients <;> simp [hs, hc, effect, SendAt.message]
    case rUnlock k' m =>
        cases h
        have hs : s.sender k = .rUnlock m := g
        exact .inr (.inr (.inr ⟨m, by simp [hs, effect, SendAt.message]⟩))
    all_goals cases h
  · exact .inl (sender_frame g h)

/-- A state callback's program point is moved by its own actions only. -/
theorem stateChange_frame (g : s.guard a) {c : C} {k : ℕ} (h : a.stateChange? ≠ some (c, k)) :
    (s.effect a g).stateChange c k = s.stateChange c k := by
  cases a
  case stateFailed d j | statePeerClose d j | stateClosed d j | stateUnregister d j =>
      by_cases e : c = d
      · subst e
        have hj : k ≠ j := fun e ↦ h (by rw [e]; rfl)
        simp [effect, hj]
      · simp [effect, e]
  all_goals simp [effect]

/-- `WriteLoop` is moved by its own actions and by the sends it receives. -/
theorem writer_frame (g : s.guard a) {c : C} (h : a.writer? ≠ some c) :
    (s.effect a g).writer c = s.writer c := by
  cases a
  case goWriteLoop d | writeOk d m | writeFail d m | pingFail d | recvClosed d | writeClose d =>
      have e : c ≠ d := fun e ↦ h (congrArg some e.symm)
      simp [effect, e]
  case castSend m d rest =>
      have e : c ≠ d := fun e ↦ h (congrArg some e.symm)
      simp only [effect, deliver]
      split <;> simp [e]
  case send k m =>
      have e : c ≠ k.client := fun e ↦ h (congrArg some e.symm)
      simp only [effect, deliver]
      split <;> simp [e]
  all_goals simp [effect]

/-! ## Preservation -/

theorem ControlInv.offerIdle_step (h : ControlInv s) (g : s.guard a) (c : C)
    (hc : (s.effect a g).handler c ≤ .setLocalDescription) :
    (s.effect a g).sender (.handler c) = .idle := by
  have hi := h.offerIdle c ((handler_mono g c).trans hc)
  rcases sender_step g (.handler c) with he | ⟨d, rfl, hk, -⟩ | ⟨_, _, _, -, hk, -⟩ | ⟨m, hm, -⟩
  · rw [he, hi]
  · cases hk
    exact absurd hc (by simp +decide [effect])
  · cases hk
  · simp [hi, SendAt.message] at hm

theorem ControlInv.offerOver_step (h : ControlInv s) (g : s.guard a) (c : C)
    (hc : .offer < (s.effect a g).handler c) :
    (s.effect a g).sender (.handler c) = .over (some .offer) := by
  rcases le_or_gt (s.handler c) .offer with hle | hlt
  · have ha := handler_passes g le_rfl hle hc
    cases a
    case offerEnd d =>
        cases ha
        exact g.2
    all_goals cases ha
  · have hi := h.offerOver c hlt
    rcases sender_step g (.handler c) with he | ⟨d, rfl, hk, -⟩ | ⟨_, _, _, -, hk, -⟩ |
      ⟨m, hm, hne, -⟩
    · rw [he, hi]
    · cases hk
      have hs : s.handler c = .setLocalDescription := g
      exact absurd hlt (by simp +decide [hs])
    · cases hk
    · rw [hi, SendAt.message] at hm
      exact absurd (hm ▸ hi) hne

theorem ControlInv.offerMsg_step (h : ControlInv s) (g : s.guard a) (c : C) (m : Message)
    (hm : ((s.effect a g).sender (.handler c)).message = some m) : m = .offer := by
  rcases sender_step g (.handler c) with he | ⟨d, -, -, he⟩ | ⟨_, _, _, -, hk, -⟩ |
    ⟨m', hm', -, he, -⟩
  · exact h.offerMsg c m (he ▸ hm)
  · rw [he] at hm
    exact (Option.some.inj hm).symm
  · cases hk
  · exact h.offerMsg c m (hm'.trans (he.symm.trans hm))

theorem ControlInv.callback_step (h : ControlInv s) (g : s.guard a) (c : C) (k : ℕ)
    (hk : (s.effect a g).sender (.callback c k) ≠ .idle) :
    .setLocalDescription < (s.effect a g).handler c := by
  refine lt_of_lt_of_le ?_ (handler_mono g c)
  rcases sender_step g (.callback c k) with he | ⟨_, -, hk, -⟩ | ⟨_, _, _, rfl, hk, -⟩ | ⟨m, hm, -⟩
  · exact h.callback c k (he ▸ hk)
  · cases hk
  · cases hk
    exact g.1
  · exact h.callback c k fun hi ↦ by simp [hi, SendAt.message] at hm

theorem ControlInv.callbackMsg_step (h : ControlInv s) (g : s.guard a) (c : C) (k : ℕ)
    (m : Message) (hm : ((s.effect a g).sender (.callback c k)).message = some m) :
    ∃ i, m = .candidate i := by
  rcases sender_step g (.callback c k) with he | ⟨_, -, hk, -⟩ | ⟨_, _, j, -, -, he⟩ |
    ⟨m', hm', -, he, -⟩
  · exact h.callbackMsg c k m (he ▸ hm)
  · cases hk
  · rw [he, SendAt.message_called] at hm
    obtain ⟨i, -, rfl⟩ := Option.map_eq_some_iff.1 hm
    exact ⟨i, rfl⟩
  · exact h.callbackMsg c k m (hm'.trans (he.symm.trans hm))

theorem ControlInv.stateChange_step (h : ControlInv s) (g : s.guard a) (c : C) (k : ℕ)
    (hk : (s.effect a g).stateChange c k ≠ .idle) :
    .onConnectionStateChange < (s.effect a g).handler c := by
  refine lt_of_lt_of_le ?_ (handler_mono g c)
  by_cases ha : a.stateChange? = some (c, k)
  · cases a
    case stateFailed d j | stateClosed d j =>
        cases ha
        exact g.1
    case statePeerClose d j =>
        cases ha
        have hs : s.stateChange c k = .failed := g
        exact h.stateChange c k (by simp [hs])
    case stateUnregister d j =>
        cases ha
        exact h.stateChange c k (by simp [g.1])
    all_goals cases ha
  · exact h.stateChange c k (stateChange_frame g ha ▸ hk)

/-- Only the `go` statement starts `WriteLoop`. -/
theorem writer_eq_idle_iff (g : s.guard a) {c : C} (ha : a ≠ .goWriteLoop c) :
    (s.effect a g).writer c = .idle ↔ s.writer c = .idle := by
  by_cases h : a.writer? = some c
  · cases a
    case goWriteLoop d => cases h; exact absurd rfl ha
    case castSend m d rest =>
        cases h
        rcases g.2 with hc | hc <;> by_cases hd : s.sendClosed c <;>
          simp_all [effect, deliver]
    case send k m =>
        cases h
        rcases g.2 with hc | hc <;> by_cases hd : s.sendClosed k.client <;>
          simp_all [effect, deliver]
    all_goals first
      | cases h; done
      | (cases h; simp only [guard] at g; simp [effect, g])
  · rw [writer_frame g h]

theorem ControlInv.writer_step (h : ControlInv s) (g : s.guard a) (c : C) :
    (s.effect a g).writer c = .idle ↔ (s.effect a g).handler c ≤ .newClient := by
  by_cases ha : a = .goWriteLoop c
  · subst ha
    simp +decide [effect]
  · rw [writer_eq_idle_iff g ha, handler_le_iff g (by decide) fun hh ↦ ?_]
    · exact h.writer c
    · cases a
      case goWriteLoop d => cases hh; exact ha rfl
      all_goals cases hh

/-- The control invariant is preserved by every step. -/
theorem ControlInv.step (h : ControlInv s) (g : s.guard a) : ControlInv (s.effect a g) where
  offerIdle := h.offerIdle_step g
  offerOver := h.offerOver_step g
  offerMsg := h.offerMsg_step g
  callback := h.callback_step g
  callbackMsg := h.callbackMsg_step g
  stateChange := h.stateChange_step g
  writer := h.writer_step g

end Hub

end ITG.Webrtc
