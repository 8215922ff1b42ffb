import Mathlib.Algebra.Group.Nat.Defs
import Mathlib.Logic.Function.Basic
import ITG.Lib.History
import ITG.Lib.Machine

/-!
# Reconnecting

`SocketProvider` keeps a websocket open: when it closes, a timer is set, and when the timer fires, a
new websocket is made.  The delay of the timer is to grow from 250 ms by doubling, up to 10 s, until
a websocket opens.

The delay lives in the state of the reducer, `wsTimeoutDuration`.  But the handlers of a websocket
use the value that it had when they were set, that is, when the websocket was made.  An open that
comes later resets the state and not what the handlers have captured; `delay_iff` says what that
comes to.

The effect that sets the handlers runs when the value of `socket` has changed, on the state of that
render, and before anything happens to the new websocket.  A websocket is a number, its position in
the order in which websockets are made, and a timer has the number of the websocket whose closing
set it.  The browser is left open: what happens to a websocket until it is closed, and when timers
fire.
-/

namespace ITG.Frontend

open ITG.Lib

/-! ## The reducer -/

/-- The state of `socketReducer`. -/
structure SocketState where
  url : String
  socket : Option ℕ
  wsTimeoutDuration : ℕ
  connectTimeout : Option ℕ
deriving DecidableEq, Repr

/-- `initialState`. -/
def initialState : SocketState where
  url := ""
  socket := none
  wsTimeoutDuration := 250
  connectTimeout := none

/-- The actions that are told apart by their type. -/
inductive SocketAction where
  | initSocket (url : String)
  | renewSocket
  | updateTimeout (timeout : ℕ)
  | clearTimeout
  | resetTimeoutDuration
  /-- Any other type, such as `resetTimeout`. -/
  | other
deriving DecidableEq, Repr

/-- `socketReducer`, where the next websocket to be made is `fresh`.  Nobody dispatches
`clearTimeout`, which would also cancel a timer. -/
def socketReducer (fresh : ℕ) (state : SocketState) : SocketAction → SocketState
  | .initSocket url => { state with socket := some fresh, url := url }
  | .renewSocket =>
      let timeout := state.wsTimeoutDuration * 2
      { state with
        socket := some fresh
        wsTimeoutDuration := if timeout > 10000 then 10000 else timeout }
  | .updateTimeout timeout => { state with connectTimeout := some timeout }
  | .clearTimeout => state
  | .resetTimeoutDuration => { state with wsTimeoutDuration := 250 }
  | .other => state

/-! ## The provider -/

/-- `readyState` of a websocket. -/
inductive ReadyState where
  | connecting
  | opened
  | closing
  | closed
deriving DecidableEq, Repr

/-- `SocketProvider` with the websockets and timers that it has made. -/
structure SocketProvider where
  state : SocketState
  /-- `config.json` has been read, or could not be. -/
  fetched : Bool
  /-- How many websockets have been made. -/
  sockets : ℕ
  readyState : ℕ → ReadyState
  /-- `wsTimeoutDuration` as the handlers of the websocket have captured it. -/
  captured : ℕ → ℕ
  /-- The timer is set and has not fired. -/
  pending : ℕ → Bool

namespace SocketProvider

/-- What an observer sees. -/
inductive Event where
  | opened (i : ℕ)
  /-- `onclose` of the websocket has set a timer with this delay, in milliseconds. -/
  | scheduled (i : ℕ) (delay : ℕ)
  /-- `renewSocket` has been dispatched. -/
  | renewed
deriving DecidableEq, Repr

/-- What may happen. -/
inductive Action where
  /-- `config.json` has been read, with this `wsUrl`. -/
  | config (url : String)
  /-- It could not be read, or has no `wsUrl`. -/
  | configError
  | onopen (i : ℕ)
  | onerror (i : ℕ)
  | onclose (i : ℕ)
  /-- The timer fires. -/
  | timeout (i : ℕ)

/-- The provider after its first render. -/
def new : SocketProvider where
  state := initialState
  fetched := false
  sockets := 0
  readyState := fun _ ↦ .connecting
  captured := fun _ ↦ 0
  pending := fun _ ↦ false

/-- `dispatch`, and the render after it.  If `socket` has changed, the effect sets the handlers of
the new websocket. -/
def dispatch (s : SocketProvider) (a : SocketAction) : SocketProvider :=
  let state := socketReducer s.sockets s.state a
  if state.socket = s.state.socket then { s with state := state }
  else
    { s with
      state := state
      sockets := s.sockets + 1
      readyState := Function.update s.readyState s.sockets .connecting
      captured := Function.update s.captured s.sockets state.wsTimeoutDuration }

/-- When an action is enabled. -/
def guard (s : SocketProvider) : Action → Prop
  | .config _ | .configError => s.fetched = false
  | .onopen i => i < s.sockets ∧ s.readyState i = .connecting
  | .onerror i | .onclose i => i < s.sockets ∧ s.readyState i ≠ .closed
  | .timeout i => s.pending i = true

/-- The state after an enabled action. -/
def effect (s : SocketProvider) : Action → SocketProvider
  | .config url => { s with fetched := true }.dispatch (.initSocket url)
  | .configError => { s with fetched := true }
  | .onopen i =>
      -- the first of the two actions is `resetTimeout`
      ({ s with readyState := Function.update s.readyState i .opened }.dispatch .other).dispatch
        .resetTimeoutDuration
  | .onerror i => { s with readyState := Function.update s.readyState i .closing }
  | .onclose i =>
      { s with
        readyState := Function.update s.readyState i .closed
        pending := Function.update s.pending i true }.dispatch (.updateTimeout i)
  | .timeout i =>
      let s' := { s with pending := Function.update s.pending i false }
      if s.readyState i = .closed then s'.dispatch .renewSocket else s'

/-- The events of an action. -/
def emit (s : SocketProvider) : Action → List Event
  | .onopen i => [.opened i]
  | .onclose i => [.scheduled i (s.captured i)]
  | .timeout i => if s.readyState i = .closed then [.renewed] else []
  | .config _ | .configError | .onerror _ => []

instance (s : SocketProvider) : ∀ a, Decidable (s.guard a) := by
  intro a
  apply Action.casesOn (motive := fun a ↦ Decidable (s.guard a)) a <;>
    (intros; dsimp only [guard]; infer_instance)

end SocketProvider

open SocketProvider

/-- `SocketProvider` as a transition system. -/
def socketProvider : Machine SocketProvider SocketProvider.Action SocketProvider.Event where
  init s := s = .new
  guard s a := s.guard a
  effect s a _ := s.effect a
  emit s a := s.emit a

instance : ∀ s a, Decidable (socketProvider.guard s a) :=
  fun s a ↦ inferInstanceAs (Decidable (s.guard a))

/-! ## The delay -/

/-- The delay after `k` attempts, in milliseconds. -/
def backoff (k : ℕ) : ℕ := min (250 * 2 ^ k) 10000

@[simp] theorem backoff_zero : backoff 0 = 250 := rfl

/-- What `renewSocket` does to the delay. -/
theorem backoff_succ (k : ℕ) :
    backoff (k + 1) = if backoff k * 2 > 10000 then 10000 else backoff k * 2 := by
  unfold backoff
  rw [pow_succ]
  split <;> omega

theorem backoff_succ_ne (k : ℕ) : backoff (k + 1) ≠ 250 := by
  have hpos : 0 < 2 ^ k := Nat.pow_pos (by decide)
  unfold backoff
  rw [pow_succ]
  omega

/-- The event is an open. -/
def SocketProvider.Event.isOpened : SocketProvider.Event → Bool
  | .opened _ => true
  | _ => false

/-- The attempts to reconnect since a websocket has opened, or since start-up. -/
def attempts (h : List SocketProvider.Event) : ℕ := countSince (· = .renewed) Event.isOpened h

section Attempts

variable {h : List SocketProvider.Event} {i d : ℕ}

@[simp] theorem attempts_opened : attempts (h ++ [.opened i]) = 0 := countSince_append_singleton

@[simp] theorem attempts_scheduled : attempts (h ++ [.scheduled i d]) = attempts h :=
  countSince_append_singleton

@[simp] theorem attempts_renewed : attempts (h ++ [.renewed]) = attempts h + 1 :=
  countSince_append_singleton

end Attempts

namespace SocketProvider

variable {h : List Event} {s : SocketProvider} {a : Action} {i : ℕ}

/-- Only a new websocket makes the effect run. -/
theorem dispatch_of_socket_eq {b : SocketAction}
    (hb : (socketReducer s.sockets s.state b).socket = s.state.socket) :
    s.dispatch b = { s with state := socketReducer s.sockets s.state b } := if_pos hb

/-- The state, the handlers and the history agree. -/
structure Inv (h : List Event) (s : SocketProvider) : Prop where
  duration : s.state.wsTimeoutDuration = backoff (attempts h)
  unfetched : s.fetched = false → s.sockets = 0
  lt : ∀ i, s.state.socket = some i → i < s.sockets
  pending : ∀ i, s.pending i = true → i < s.sockets ∧ s.readyState i = .closed
  /-- Only the newest websocket is of interest. -/
  old : ∀ i, i + 1 < s.sockets → s.readyState i = .closed ∧ s.pending i = false
  opened : ∀ i, .opened i ∈ h → i < s.sockets
  /-- There is no attempt before the second websocket. -/
  first : s.sockets ≤ 1 → attempts h = 0
  captured_first : 0 < s.sockets → s.captured 0 = 250
  captured_later : ∀ i, 0 < i → i < s.sockets → ∃ k, s.captured i = backoff (k + 1)
  /-- Since the newest websocket was made, only its own open may have changed the delay. -/
  unopened : ∀ i, i + 1 = s.sockets → .opened i ∉ h → s.captured i = backoff (attempts h)
  reopened : ∀ i, i + 1 = s.sockets → .opened i ∈ h → attempts h = 0

namespace Inv

/-- What is not closed, or has a timer, is the newest websocket. -/
theorem newest (hi : Inv h s) (hlt : i < s.sockets)
    (hne : s.readyState i ≠ .closed ∨ s.pending i = true) : i + 1 = s.sockets := by
  by_contra hn
  obtain ⟨hclosed, hpending⟩ := hi.old i (by omega)
  rcases hne with hne | hne
  · exact hne hclosed
  · rw [hpending] at hne
    cases hne

/-- A step in which nothing opens and nothing is made. -/
theorem of_silent {h' : List Event} {t : SocketProvider} (hi : Inv h s)
    (hopened : ∀ i, .opened i ∈ h' ↔ .opened i ∈ h) (hattempts : attempts h' = attempts h)
    (hsockets : t.sockets = s.sockets) (hcaptured : t.captured = s.captured)
    (hsocket : t.state.socket = s.state.socket)
    (hduration : t.state.wsTimeoutDuration = s.state.wsTimeoutDuration)
    (hfetched : t.fetched = false → s.fetched = false)
    (hpending : ∀ i, t.pending i = true → i < s.sockets ∧ t.readyState i = .closed)
    (hold : ∀ i, i + 1 < s.sockets → t.readyState i = .closed ∧ t.pending i = false) :
    Inv h' t where
  duration := by
    rw [hduration, hattempts]
    exact hi.duration
  unfetched hf := hsockets.trans (hi.unfetched (hfetched hf))
  lt := by
    rw [hsockets, hsocket]
    exact hi.lt
  pending := by rwa [hsockets]
  old := by rwa [hsockets]
  opened i hm := by
    rw [hsockets]
    exact hi.opened i ((hopened i).1 hm)
  first := by
    rw [hsockets, hattempts]
    exact hi.first
  captured_first := by
    rw [hsockets, hcaptured]
    exact hi.captured_first
  captured_later := by
    rw [hsockets, hcaptured]
    exact hi.captured_later
  unopened i := by
    rw [hsockets, hcaptured, hattempts, hopened]
    exact hi.unopened i
  reopened i := by
    rw [hsockets, hattempts, hopened]
    exact hi.reopened i

theorem fetch (hi : Inv h s) : Inv h { s with fetched := true } :=
  hi.of_silent (fun _ ↦ Iff.rfl) rfl rfl rfl rfl rfl nofun hi.pending hi.old

/-- A timer is no longer pending. -/
theorem fire (hi : Inv h s) (i : ℕ) :
    Inv h { s with pending := Function.update s.pending i false } := by
  have hle : ∀ j, Function.update s.pending i false j = true → s.pending j = true := by
    intro j hj
    by_cases hji : j = i
    · rw [hji, Function.update_self] at hj
      cases hj
    · rwa [Function.update_of_ne hji] at hj
  refine hi.of_silent (fun _ ↦ Iff.rfl) rfl rfl rfl rfl rfl id
    (fun j hj ↦ hi.pending j (hle j hj)) ?_
  intro j hlt
  obtain ⟨hclosed, hpending⟩ := hi.old j hlt
  refine ⟨hclosed, Bool.eq_false_iff.2 fun hj ↦ ?_⟩
  rw [hle j hj] at hpending
  cases hpending

/-- Whatever the newest websocket does, the older ones are done with. -/
theorem old_ready (hi : Inv h s) (hlast : i + 1 = s.sockets) (r : ReadyState) :
    ∀ j, j + 1 < s.sockets →
      Function.update s.readyState i r j = .closed ∧ s.pending j = false := by
  intro j hlt
  have hji : j ≠ i := by
    rintro rfl
    exact Nat.ne_of_lt hlt hlast
  rw [Function.update_of_ne hji]
  exact hi.old j hlt

/-- No timer waits for a websocket that is not closed. -/
theorem pending_ready (hi : Inv h s) (hne : s.readyState i ≠ .closed) (r : ReadyState) :
    ∀ j, s.pending j = true → j < s.sockets ∧ Function.update s.readyState i r j = .closed := by
  intro j hp
  obtain ⟨hlt, hclosed⟩ := hi.pending j hp
  have hji : j ≠ i := by
    rintro rfl
    exact hne hclosed
  rw [Function.update_of_ne hji]
  exact ⟨hlt, hclosed⟩

/-- A websocket that opens is not closed. -/
theorem ne_of_onopen (g : s.guard (.onopen i)) : s.readyState i ≠ .closed := by
  rw [g.2]
  exact nofun

theorem onopen (hi : Inv h s) (g : s.guard (.onopen i)) :
    Inv (h ++ [.opened i]) (s.effect (.onopen i)) := by
  have hlast := hi.newest g.1 (.inl (ne_of_onopen g))
  have heffect : s.effect (.onopen i) =
      { s with
        state := { s.state with wsTimeoutDuration := 250 }
        readyState := Function.update s.readyState i .opened } := by
    rw [effect, dispatch_of_socket_eq rfl, dispatch_of_socket_eq rfl]
    rfl
  rw [heffect]
  constructor
  case duration => simp
  case unfetched => exact hi.unfetched
  case lt => exact hi.lt
  case pending => exact hi.pending_ready (ne_of_onopen g) .opened
  case old => exact hi.old_ready hlast .opened
  case opened =>
    intro j hm
    rcases List.mem_append.1 hm with hm | hm
    · exact hi.opened j hm
    · cases List.mem_singleton.1 hm
      exact g.1
  case first => exact fun _ ↦ attempts_opened
  case captured_first => exact hi.captured_first
  case captured_later => exact hi.captured_later
  case unopened =>
    intro j hj hno
    obtain rfl : j = i := Nat.succ_inj.1 (hj.trans hlast.symm)
    exact absurd (List.mem_append_right h List.mem_cons_self) hno
  case reopened => exact fun _ _ _ ↦ attempts_opened

theorem onerror (hi : Inv h s) (g : s.guard (.onerror i)) : Inv h (s.effect (.onerror i)) :=
  hi.of_silent (fun _ ↦ Iff.rfl) rfl rfl rfl rfl rfl id (hi.pending_ready g.2 .closing)
    (hi.old_ready (hi.newest g.1 (.inl g.2)) .closing)

theorem onclose (hi : Inv h s) (g : s.guard (.onclose i)) :
    Inv (h ++ [.scheduled i (s.captured i)]) (s.effect (.onclose i)) := by
  have hlast := hi.newest g.1 (.inl g.2)
  have heffect : s.effect (.onclose i) =
      { s with
        state := { s.state with connectTimeout := some i }
        readyState := Function.update s.readyState i .closed
        pending := Function.update s.pending i true } := by
    rw [effect, dispatch_of_socket_eq rfl]
    rfl
  rw [heffect]
  refine hi.of_silent (fun j ↦ by simp) attempts_scheduled rfl rfl rfl rfl id (fun j hp ↦ ?_)
    fun j hlt ↦ ?_
  · dsimp only at hp ⊢
    by_cases hji : j = i
    · subst hji
      exact ⟨g.1, Function.update_self ..⟩
    · rw [Function.update_of_ne hji] at hp ⊢
      exact hi.pending j hp
  · have hji : j ≠ i := by
      rintro rfl
      exact Nat.ne_of_lt hlt hlast
    obtain ⟨hclosed, hpending⟩ := hi.old_ready hlast .closed j hlt
    exact ⟨hclosed, (Function.update_of_ne hji ..).trans hpending⟩

/-- A step that makes a websocket, when all others are done with. -/
theorem create (hi : Inv h s) {h' : List Event} {b : SocketAction}
    (hb : (socketReducer s.sockets s.state b).socket = some s.sockets)
    (hfetched : s.fetched = true)
    (hdone : ∀ i < s.sockets, s.readyState i = .closed ∧ s.pending i = false)
    (hopened : ∀ i, .opened i ∈ h' → .opened i ∈ h)
    (hduration : (socketReducer s.sockets s.state b).wsTimeoutDuration = backoff (attempts h'))
    (hfirst : s.sockets = 0 → attempts h' = 0)
    (hlater : 0 < s.sockets → ∃ k, backoff (attempts h') = backoff (k + 1)) :
    Inv h' (s.dispatch b) := by
  have hne : (socketReducer s.sockets s.state b).socket ≠ s.state.socket := by
    rw [hb]
    exact fun heq ↦ Nat.lt_irrefl _ (hi.lt _ heq.symm)
  have hlt : ∀ i, .opened i ∈ h' → i < s.sockets := fun i hm ↦ hi.opened i (hopened i hm)
  rw [dispatch, if_neg hne]
  constructor
  case duration => exact hduration
  case unfetched =>
    intro hf
    cases hfetched.symm.trans hf
  case lt =>
    intro i hs
    cases hb.symm.trans hs
    exact Nat.lt_succ_self _
  case pending =>
    intro i hp
    exact absurd hp (by
      rw [(hdone i (hi.pending i hp).1).2]
      exact nofun)
  case old =>
    intro i hlt
    have hlt := Nat.lt_of_succ_lt_succ hlt
    dsimp only
    rw [Function.update_of_ne (Nat.ne_of_lt hlt)]
    exact hdone i hlt
  case opened => exact fun i hm ↦ Nat.lt_succ_of_lt (hlt i hm)
  case first => exact fun hle ↦ hfirst (Nat.le_zero.1 (Nat.le_of_succ_le_succ hle))
  case captured_first =>
    intro _
    rcases Nat.eq_zero_or_pos s.sockets with h0 | hpos
    · dsimp only
      rw [← h0, Function.update_self, hduration, hfirst h0, backoff_zero]
    · dsimp only
      rw [Function.update_of_ne (Nat.ne_of_lt hpos)]
      exact hi.captured_first hpos
  case captured_later =>
    intro i hpos hlt
    dsimp only
    rcases Nat.lt_succ_iff_lt_or_eq.1 hlt with hlt | rfl
    · rw [Function.update_of_ne (Nat.ne_of_lt hlt)]
      exact hi.captured_later i hpos hlt
    · rw [Function.update_self, hduration]
      exact hlater hpos
  case unopened =>
    intro i hlast _
    cases Nat.succ_inj.1 hlast
    dsimp only
    rw [Function.update_self, hduration]
  case reopened =>
    intro i hlast hm
    cases Nat.succ_inj.1 hlast
    exact absurd (hlt _ hm) (Nat.lt_irrefl _)

/-- `config.json` has been read: the first websocket is made. -/
theorem config (hi : Inv h s) {url : String} (g : s.guard (.config url)) :
    Inv h (s.effect (.config url)) := by
  have h0 : s.sockets = 0 := hi.unfetched g
  have hattempts : attempts h = 0 := hi.first (by omega)
  refine hi.fetch.create rfl rfl (fun i hlt ↦ ?_) (fun _ ↦ id) hi.duration (fun _ ↦ hattempts) ?_
  · exact absurd (h0 ▸ hlt) (Nat.not_lt_zero i)
  · intro hpos
    exact absurd (h0 ▸ hpos) (Nat.lt_irrefl 0)

/-- A timer fires: the next websocket is made. -/
theorem timeout (hi : Inv h s) (g : s.guard (.timeout i)) :
    s.readyState i = .closed ∧ Inv (h ++ [.renewed]) (s.effect (.timeout i)) := by
  obtain ⟨hlt, hclosed⟩ := hi.pending i g
  have hlast := hi.newest hlt (.inr g)
  refine ⟨hclosed, ?_⟩
  rw [effect, if_pos hclosed]
  refine (hi.fire i).create rfl ?_ (fun j hj ↦ ?_) (fun j hm ↦ by simpa using hm) ?_
    (fun h0 ↦ ?_) ?_
  · refine eq_true_of_ne_false fun hf ↦ ?_
    rw [hi.unfetched hf] at hlt
    exact Nat.not_lt_zero i hlt
  · rcases Nat.lt_or_ge (j + 1) s.sockets with hj' | hj'
    · have hji : j ≠ i := by
        rintro rfl
        exact Nat.ne_of_lt hj' hlast
      dsimp only
      rw [Function.update_of_ne hji]
      exact hi.old j hj'
    · obtain rfl : j = i := by
        dsimp only at hj
        omega
      exact ⟨hclosed, Function.update_self ..⟩
  · rw [attempts_renewed, backoff_succ, ← hi.duration]
    rfl
  · dsimp only at h0
    omega
  · intro _
    exact ⟨attempts h, by rw [attempts_renewed]⟩

theorem step (hi : Inv h s) (g : s.guard a) : Inv (h ++ s.emit a) (s.effect a) := by
  cases a with
  | config url =>
      rw [emit, List.append_nil]
      exact hi.config g
  | configError =>
      rw [emit, List.append_nil]
      exact hi.fetch
  | onopen i => exact hi.onopen g
  | onerror i =>
      rw [emit, List.append_nil]
      exact hi.onerror g
  | onclose i => exact hi.onclose g
  | timeout i =>
      obtain ⟨hclosed, hstep⟩ := hi.timeout g
      rw [emit, if_pos hclosed]
      exact hstep

theorem new : Inv [] new where
  duration := rfl
  unfetched _ := rfl
  lt := nofun
  pending := nofun
  old _ hlt := absurd hlt (Nat.not_lt_zero _)
  opened _ hm := absurd hm List.not_mem_nil
  first _ := rfl
  captured_first hlt := absurd hlt (Nat.lt_irrefl 0)
  captured_later _ _ hlt := absurd hlt (Nat.not_lt_zero _)
  unopened i hlast := absurd hlast (Nat.succ_ne_zero i)
  reopened i hlast := absurd hlast (Nat.succ_ne_zero i)

end Inv

/-- The delay of an event is as it should be, exactly if the websocket is the first or has not
opened. -/
def Timely (h : List Event) : Event → Prop
  | .scheduled i d => d = backoff (attempts h) ↔ i = 0 ∨ .opened i ∉ h
  | .opened _ | .renewed => True

/-- What the handlers have captured is the delay since the websocket was made. -/
theorem Inv.timely (hi : Inv h s) (g : s.guard (.onclose i)) :
    Timely h (.scheduled i (s.captured i)) := by
  have hlast := hi.newest g.1 (.inl g.2)
  by_cases hop : .opened i ∈ h
  · have hzero := hi.reopened i hlast hop
    rcases Nat.eq_zero_or_pos i with rfl | hpos
    · refine iff_of_true ?_ (.inl rfl)
      rw [hi.captured_first g.1, hzero, backoff_zero]
    · obtain ⟨k, hk⟩ := hi.captured_later i hpos g.1
      refine iff_of_false ?_ ?_
      · rw [hk, hzero, backoff_zero]
        exact backoff_succ_ne k
      · rintro (rfl | hno)
        · exact Nat.lt_irrefl 0 hpos
        · exact hno hop
  · exact iff_of_true (hi.unopened i hlast hop) (.inr hop)

theorem Inv.each_timely (hi : Inv h s) (he : Each Timely h) (g : s.guard a) :
    Each Timely (h ++ s.emit a) := by
  cases a with
  | onopen i => exact he.snoc trivial
  | onclose i => exact he.snoc (hi.timely g)
  | timeout i =>
      rw [emit]
      split
      · exact he.snoc trivial
      · rwa [List.append_nil]
  | config | configError | onerror =>
      rw [emit, List.append_nil]
      exact he

end SocketProvider

/-- **The delay of a reconnect.**  In every run, the delay that `onclose` of a websocket schedules
is the one for the number of attempts since the last open, or since start-up, if and only if the
websocket is the first or has not opened itself. -/
theorem delay_iff {h : List SocketProvider.Event} {s : SocketProvider}
    (hr : socketProvider.Reach socketProvider.free h s) {h₁ h₂ : List SocketProvider.Event}
    {i d : ℕ} (hh : h = h₁ ++ .scheduled i d :: h₂) :
    d = min (250 * 2 ^ attempts h₁) 10000 ↔ i = 0 ∨ .opened i ∉ h₁ := by
  have hinv : Inv h s ∧ Each Timely h := by
    refine hr.invariant (I := fun h s ↦ Inv h s ∧ Each Timely h) ?_ ?_
    · rintro _ rfl
      exact ⟨.new, .nil⟩
    · rintro h s a g ⟨hi, he⟩ -
      exact ⟨hi.step g, hi.each_timely he g⟩
  exact hinv.2 h₁ _ h₂ hh

/-- Two reconnects that do not open. -/
theorem delay_iff_unopened :
    ∃ s, socketProvider.Reach socketProvider.free
        [.scheduled 0 250, .renewed, .scheduled 1 500, .renewed] s ∧
      500 = min (250 * 2 ^ attempts [.scheduled 0 250, .renewed]) 10000 := by
  obtain ⟨h, s, hr, rfl⟩ := socketProvider.exists_of_exec socketProvider.free
    (fun h _ ↦ h = [.scheduled 0 250, .renewed, .scheduled 1 500, .renewed]) rfl
    [.config "wss://itg.example/websocket", .onclose 0, .timeout 0, .onerror 1, .onclose 1,
      .timeout 1]
    (by decide +kernel)
  have hh : [.scheduled 0 250, .renewed, .scheduled 1 500, .renewed] =
      [.scheduled 0 250, .renewed] ++ SocketProvider.Event.scheduled 1 500 :: [.renewed] := rfl
  exact ⟨s, hr, (delay_iff hr hh).2 (.inr (by decide))⟩

/-- A reconnect that opens, and then closes: the next one is scheduled after 500 ms, not 250 ms. -/
theorem late_reconnect :
    ∃ s, socketProvider.Reach socketProvider.free
        [.scheduled 0 250, .renewed, .opened 1, .scheduled 1 500] s ∧
      500 ≠ min (250 * 2 ^ attempts [.scheduled 0 250, .renewed, .opened 1]) 10000 := by
  obtain ⟨h, s, hr, rfl⟩ := socketProvider.exists_of_exec socketProvider.free
    (fun h _ ↦ h = [.scheduled 0 250, .renewed, .opened 1, .scheduled 1 500]) rfl
    [.config "wss://itg.example/websocket", .onclose 0, .timeout 0, .onopen 1, .onclose 1]
    (by decide +kernel)
  exact ⟨s, hr, by decide⟩

end ITG.Frontend
