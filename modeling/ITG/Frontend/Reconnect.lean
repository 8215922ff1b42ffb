import ITG.Frontend.SocketContext

/-!
# Keeping a websocket

Whatever the delay is, what `SocketProvider` is for is that the page has a websocket, and no more
than one.  The reducer makes a new one without looking at the old one, the timers are not cancelled,
and `onerror` closes a websocket whose `onclose` is still to come; that all of this adds up to one
live websocket or one timer at any time is not said in the source.

`Kept` is the invariant, with the bookkeeping that goes with it: a close sets one timer, and a timer
makes one websocket.
-/

namespace ITG.Frontend

open ITG.Lib

namespace SocketProvider

/-- A timer has been set. -/
def Event.isScheduled : Event → Bool
  | .scheduled _ _ => true
  | _ => false

/-- A websocket has been made in place of a closed one. -/
def Event.isRenewed : Event → Bool
  | .renewed => true
  | _ => false

/-- How many timers are set, of the websocket that the provider hands out. -/
def timers (s : SocketProvider) : ℕ := if s.state.socket.any s.pending then 1 else 0

/-- The provider hands out the newest websocket, which is alive or has its timer set. -/
structure Kept (h : List Event) (s : SocketProvider) : Prop where
  socket : ∀ i, s.state.socket = some i ↔ i + 1 = s.sockets
  alive : ∀ i, i + 1 = s.sockets → (s.readyState i = .closed ↔ s.pending i = true)
  /-- Every close has led to a new websocket, or will. -/
  closes : h.countP Event.isScheduled = h.countP Event.isRenewed + s.timers
  made : 0 < s.sockets → s.sockets = h.countP Event.isRenewed + 1
  none_made : s.sockets = 0 → h.countP Event.isRenewed = 0
  delays : ∀ i d, .scheduled i d ∈ h → 250 ≤ d ∧ d ≤ 10000

variable {h h' : List Event} {s t : SocketProvider} {a : Action} {i : ℕ}

theorem backoff_bounds (k : ℕ) : 250 ≤ backoff k ∧ backoff k ≤ 10000 := by
  have hpos : 0 < 2 ^ k := Nat.pow_pos (by decide)
  unfold backoff
  omega

/-- The handlers have captured a delay within the bounds. -/
theorem Inv.captured_bounds (hi : Inv h s) (hlt : i < s.sockets) :
    250 ≤ s.captured i ∧ s.captured i ≤ 10000 := by
  rcases Nat.eq_zero_or_pos i with rfl | hpos
  · rw [hi.captured_first hlt]
    decide
  · obtain ⟨k, hk⟩ := hi.captured_later i hpos hlt
    rw [hk]
    exact backoff_bounds (k + 1)

/-! ## The effects, spelled out -/

/-- A new websocket has been made: the effect sets its handlers. -/
theorem dispatch_of_socket_ne {b : SocketAction}
    (hb : (socketReducer s.sockets s.state b).socket ≠ s.state.socket) :
    s.dispatch b =
      { s with
        state := socketReducer s.sockets s.state b
        sockets := s.sockets + 1
        readyState := Function.update s.readyState s.sockets .connecting
        captured := Function.update s.captured s.sockets
          (socketReducer s.sockets s.state b).wsTimeoutDuration } := if_neg hb

theorem effect_onopen : s.effect (.onopen i) =
    { s with
      state := { s.state with wsTimeoutDuration := 250 }
      readyState := Function.update s.readyState i .opened } := by
  rw [effect, dispatch_of_socket_eq rfl, dispatch_of_socket_eq rfl]
  rfl

theorem effect_onclose : s.effect (.onclose i) =
    { s with
      state := { s.state with connectTimeout := some i }
      readyState := Function.update s.readyState i .closed
      pending := Function.update s.pending i true } := by
  rw [effect, dispatch_of_socket_eq rfl]
  rfl

theorem effect_config {url : String} (h0 : s.sockets = 0) (hs : s.state.socket = none) :
    s.effect (.config url) =
      { s with
        state := { s.state with socket := some 0, url := url }
        fetched := true
        sockets := 1
        readyState := Function.update s.readyState 0 .connecting
        captured := Function.update s.captured 0 s.state.wsTimeoutDuration } := by
  have hne : (socketReducer s.sockets s.state (.initSocket url)).socket ≠ s.state.socket := by
    rw [hs]
    exact nofun
  rw [effect, dispatch_of_socket_ne (s := { s with fetched := true }) hne]
  simp only [socketReducer, h0]

/-- What the delay becomes does not matter here. -/
theorem effect_timeout (hclosed : s.readyState i = .closed)
    (hs : s.state.socket ≠ some s.sockets) :
    ∃ d, s.effect (.timeout i) =
      { s with
        state := { s.state with socket := some s.sockets, wsTimeoutDuration := d }
        sockets := s.sockets + 1
        readyState := Function.update s.readyState s.sockets .connecting
        captured := Function.update s.captured s.sockets d
        pending := Function.update s.pending i false } := by
  have hne : (socketReducer s.sockets s.state .renewSocket).socket ≠ s.state.socket := Ne.symm hs
  rw [effect, if_pos hclosed]
  exact ⟨_, dispatch_of_socket_ne
    (s := { s with pending := Function.update s.pending i false }) hne⟩

/-! ## The invariant -/

theorem timers_eq_one (hs : s.state.socket = some i) (hp : s.pending i = true) : s.timers = 1 := by
  rw [timers, hs]
  exact if_pos hp

theorem timers_eq_zero (hs : ∀ i, s.state.socket = some i → s.pending i = false) :
    s.timers = 0 := by
  unfold timers
  cases h : s.state.socket with
  | none => rfl
  | some i => exact if_neg (by rw [Option.any_some, hs i h]; exact nofun)

namespace Kept

theorem socket_eq_none (hk : Kept h s) (h0 : s.sockets = 0) : s.state.socket = none := by
  cases hs : s.state.socket with
  | none => rfl
  | some i =>
      have hlast := (hk.socket i).1 hs
      omega

/-- The newest websocket has no timer as long as it is not closed. -/
theorem pending_eq_false (hk : Kept h s) (hlast : i + 1 = s.sockets)
    (hne : s.readyState i ≠ .closed) : s.pending i = false :=
  Bool.eq_false_iff.2 fun hp ↦ hne ((hk.alive i hlast).2 hp)

/-- Something happens to the newest websocket that does not close it. -/
theorem ready (hk : Kept h s) (hlast : i + 1 = s.sockets) (hne : s.readyState i ≠ .closed)
    {r : ReadyState} (hr : r ≠ .closed)
    (hsched : h'.countP Event.isScheduled = h.countP Event.isScheduled)
    (hrenew : h'.countP Event.isRenewed = h.countP Event.isRenewed)
    (hdelays : ∀ i d, .scheduled i d ∈ h' → .scheduled i d ∈ h)
    (hsocket : t.state.socket = s.state.socket) (hsockets : t.sockets = s.sockets)
    (hready : t.readyState = Function.update s.readyState i r) (hpending : t.pending = s.pending) :
    Kept h' t where
  socket := by
    rw [hsocket, hsockets]
    exact hk.socket
  alive j hj := by
    rw [hsockets] at hj
    obtain rfl : j = i := Nat.succ_inj.1 (hj.trans hlast.symm)
    rw [hready, hpending, Function.update_self, hk.pending_eq_false hlast hne]
    exact iff_of_false hr nofun
  closes := by
    rw [hsched, hrenew, timers, hsocket, hpending]
    exact hk.closes
  made := by
    rw [hsockets, hrenew]
    exact hk.made
  none_made := by
    rw [hsockets, hrenew]
    exact hk.none_made
  delays j d hm := hk.delays j d (hdelays j d hm)

theorem onopen (hk : Kept h s) (hi : Inv h s) (g : s.guard (.onopen i)) :
    Kept (h ++ [.opened i]) (s.effect (.onopen i)) := by
  have hne := Inv.ne_of_onopen g
  have hlast := hi.newest g.1 (.inl hne)
  rw [effect_onopen]
  refine hk.ready hlast hne (r := .opened) nofun ?_ ?_ ?_ rfl rfl rfl rfl
  · simp [Event.isScheduled]
  · simp [Event.isRenewed]
  · simp

theorem onerror (hk : Kept h s) (hi : Inv h s) (g : s.guard (.onerror i)) :
    Kept h (s.effect (.onerror i)) :=
  hk.ready (hi.newest g.1 (.inl g.2)) g.2 (r := .closing) nofun rfl rfl (fun _ _ ↦ id) rfl rfl rfl
    rfl

/-- The newest websocket is closed, and its timer set. -/
theorem onclose (hk : Kept h s) (hi : Inv h s) (g : s.guard (.onclose i)) :
    Kept (h ++ [.scheduled i (s.captured i)]) (s.effect (.onclose i)) := by
  have hlast := hi.newest g.1 (.inl g.2)
  have hsocket := (hk.socket i).2 hlast
  have hclosed := hk.closes
  rw [timers_eq_zero fun j hj ↦ by
    cases hsocket.symm.trans hj
    exact hk.pending_eq_false hlast g.2] at hclosed
  have htimers : (s.effect (.onclose i)).timers = 1 := by
    rw [effect_onclose]
    exact timers_eq_one hsocket (Function.update_self ..)
  rw [effect_onclose] at htimers ⊢
  constructor
  case socket => exact hk.socket
  case alive =>
    intro j hj
    obtain rfl : j = i := Nat.succ_inj.1 (hj.trans hlast.symm)
    dsimp only
    rw [Function.update_self, Function.update_self]
    exact iff_of_true rfl rfl
  case closes =>
    rw [htimers]
    simp [Event.isScheduled, Event.isRenewed, hclosed]
  case made => simpa [Event.isRenewed] using hk.made
  case none_made => simpa [Event.isRenewed] using hk.none_made
  case delays =>
    intro j d hm
    rcases List.mem_append.1 hm with hm | hm
    · exact hk.delays j d hm
    · cases List.mem_singleton.1 hm
      exact hi.captured_bounds g.1

/-- The first websocket is made. -/
theorem config (hk : Kept h s) (hi : Inv h s) {url : String} (g : s.guard (.config url)) :
    Kept h (s.effect (.config url)) := by
  have h0 : s.sockets = 0 := hi.unfetched g
  have hnone := hk.socket_eq_none h0
  have hpending : s.pending 0 = false := Bool.eq_false_iff.2 fun hp ↦
    absurd (h0 ▸ (hi.pending 0 hp).1) (Nat.not_lt_zero 0)
  have hcloses := hk.closes
  rw [timers_eq_zero fun j hj ↦ by cases hnone.symm.trans hj] at hcloses
  rw [effect_config h0 hnone]
  constructor
  case socket =>
    intro i
    dsimp only
    constructor
    · rintro ⟨⟩
      rfl
    · intro hi
      obtain rfl : i = 0 := by omega
      rfl
  case alive =>
    intro i hi
    obtain rfl : i = 0 := by
      dsimp only at hi
      omega
    dsimp only
    rw [Function.update_self, hpending]
    exact iff_of_false nofun nofun
  case closes =>
    rw [hcloses, timers_eq_zero fun j hj ↦ by
      cases hj
      exact hpending]
  case made => exact fun _ ↦ by rw [hk.none_made h0]
  case none_made => exact nofun
  case delays => exact hk.delays

/-- A timer fires: the next websocket is made. -/
theorem timeout (hk : Kept h s) (hi : Inv h s) (g : s.guard (.timeout i)) :
    Kept (h ++ [.renewed]) (s.effect (.timeout i)) := by
  obtain ⟨hlt, hclosed⟩ := hi.pending i g
  have hlast := hi.newest hlt (.inr g)
  have hsocket := (hk.socket i).2 hlast
  have hnew : s.pending s.sockets = false := Bool.eq_false_iff.2 fun hp ↦
    Nat.lt_irrefl _ (hi.pending _ hp).1
  have hcloses := hk.closes
  have hp : s.pending i = true := g
  rw [timers_eq_one hsocket hp] at hcloses
  have hmade := hk.made (by omega)
  have hneq : s.sockets ≠ i := by omega
  obtain ⟨d, heffect⟩ := effect_timeout hclosed fun hs ↦
    hneq (Option.some.inj (hs.symm.trans hsocket))
  rw [heffect]
  constructor
  case socket =>
    intro j
    dsimp only
    rw [Option.some_inj, Nat.succ_inj, eq_comm]
  case alive =>
    intro j hj
    obtain rfl : j = s.sockets := Nat.succ_inj.1 hj
    dsimp only
    rw [Function.update_self, Function.update_of_ne hneq, hnew]
    exact iff_of_false nofun nofun
  case closes =>
    rw [timers_eq_zero fun j hj ↦ by
      cases hj
      exact (Function.update_of_ne hneq ..).trans hnew]
    simp [Event.isScheduled, Event.isRenewed, hcloses]
  case made =>
    intro _
    simp [Event.isRenewed, ← hmade]
  case none_made => exact nofun
  case delays => simpa using hk.delays

/-- The step lemma. -/
theorem step (hk : Kept h s) (hi : Inv h s) (g : s.guard a) :
    Kept (h ++ s.emit a) (s.effect a) := by
  cases a with
  | config url =>
      rw [emit, List.append_nil]
      exact hk.config hi g
  | configError =>
      rw [emit, List.append_nil]
      exact ⟨hk.socket, hk.alive, hk.closes, hk.made, hk.none_made, hk.delays⟩
  | onopen i => exact hk.onopen hi g
  | onerror i =>
      rw [emit, List.append_nil]
      exact hk.onerror hi g
  | onclose i => exact hk.onclose hi g
  | timeout i =>
      rw [emit, if_pos (hi.pending i g).2]
      exact hk.timeout hi g

theorem new : Kept [] new where
  socket i := iff_of_false nofun (Nat.succ_ne_zero i)
  alive i hlast := absurd hlast (Nat.succ_ne_zero i)
  closes := rfl
  made hpos := absurd hpos (Nat.lt_irrefl 0)
  none_made _ := rfl
  delays _ _ hm := absurd hm List.not_mem_nil

end Kept

end SocketProvider

open SocketProvider

variable {h : List SocketProvider.Event} {s : SocketProvider}

/-- The run lemma. -/
theorem kept_of_reach {ok : SocketProvider → SocketProvider.Action → Prop}
    (hr : socketProvider.Reach ok h s) : Inv h s ∧ Kept h s := by
  refine hr.invariant (I := fun h s ↦ Inv h s ∧ Kept h s) ?_ ?_
  · rintro _ rfl
    exact ⟨.new, .new⟩
  · rintro h s a g ⟨hi, hk⟩ -
    exact ⟨hi.step g, hk.step hi g⟩

/-- The provider hands out an open websocket. -/
def SocketProvider.Open (s : SocketProvider) : Prop :=
  ∃ i, s.state.socket = some i ∧ s.readyState i = .opened

/-- A new websocket can open. -/
theorem canReach_of_connecting {i : ℕ} (hs : s.state.socket = some i) (hlt : i < s.sockets)
    (hc : s.readyState i = .connecting) :
    socketProvider.CanReach socketProvider.free s SocketProvider.Open := by
  refine .step (SocketProvider.Action.onopen i) trivial ⟨hlt, hc⟩ (.now ⟨i, ?_⟩)
  change (s.effect (.onopen i)).state.socket = some i ∧
    (s.effect (.onopen i)).readyState i = .opened
  rw [effect_onopen]
  exact ⟨hs, Function.update_self ..⟩

/-- The timer of a closed websocket is set, and the websocket that it makes can open. -/
theorem canReach_of_closed (hk : Kept h s) {i : ℕ} (hs : s.state.socket = some i)
    (hclosed : s.readyState i = .closed) :
    socketProvider.CanReach socketProvider.free s SocketProvider.Open := by
  have hlast := (hk.socket i).1 hs
  have g : s.pending i = true := (hk.alive i hlast).1 hclosed
  refine .step (SocketProvider.Action.timeout i) trivial g ?_
  obtain ⟨d, heffect⟩ := effect_timeout hclosed fun he ↦ by
    cases hs.symm.trans he
    omega
  change socketProvider.CanReach socketProvider.free (s.effect (.timeout i)) _
  rw [heffect]
  exact canReach_of_connecting (i := s.sockets) rfl (Nat.lt_succ_self _) (Function.update_self ..)

/-- Whatever has happened to the websocket, an open one can be handed out again. -/
theorem canReach_open (hi : Inv h s) (hk : Kept h s) {i : ℕ} (hs : s.state.socket = some i) :
    socketProvider.CanReach socketProvider.free s SocketProvider.Open := by
  have hlt : i < s.sockets := hi.lt i hs
  cases hr : s.readyState i with
  | connecting => exact canReach_of_connecting hs hlt hr
  | opened => exact .now ⟨i, hs, hr⟩
  | closing =>
      have g : s.guard (.onclose i) := ⟨hlt, by rw [hr]; exact nofun⟩
      have hk' := hk.onclose hi g
      refine .step (SocketProvider.Action.onclose i) trivial g ?_
      change socketProvider.CanReach socketProvider.free (s.effect (.onclose i)) _
      rw [effect_onclose] at hk' ⊢
      exact canReach_of_closed hk' hs (Function.update_self ..)
  | closed => exact canReach_of_closed hk hs hr

/-- **The page has one websocket.**  In every run: the websocket that the provider hands out is the
only one that is not closed or has its timer set; it is closed exactly if its timer is set; every
close has set one timer, with a delay between 250 ms and 10 s, and every timer that is no longer set
has made one websocket; and once there was a websocket, there can always be an open one again. -/
theorem socket_kept (hr : socketProvider.Reach socketProvider.free h s) :
    (∀ i < s.sockets, s.readyState i ≠ .closed ∨ s.pending i = true → s.state.socket = some i) ∧
      (∀ i, s.state.socket = some i → (s.readyState i = .closed ↔ s.pending i = true)) ∧
      h.countP Event.isScheduled = h.countP Event.isRenewed + s.timers ∧
      (∀ i d, .scheduled i d ∈ h → 250 ≤ d ∧ d ≤ 10000) ∧
      (s.state.socket ≠ none → ∃ k t j, socketProvider.Run socketProvider.free s k t ∧
        t.state.socket = some j ∧ t.readyState j = .opened) := by
  obtain ⟨hi, hk⟩ := kept_of_reach hr
  refine ⟨fun i hlt hne ↦ (hk.socket i).2 (hi.newest hlt hne),
    fun i hs ↦ hk.alive i ((hk.socket i).1 hs), hk.closes, hk.delays, fun hs ↦ ?_⟩
  obtain ⟨i, hs⟩ := Option.ne_none_iff_exists'.1 hs
  obtain ⟨k, t, hrun, j, hj⟩ := canReach_open hi hk hs
  exact ⟨k, t, j, hrun, hj⟩

/-- The second websocket has failed before it opened. -/
theorem socket_kept_failed :
    ∃ h s, socketProvider.Reach socketProvider.free h s ∧ s.state.socket = some 1 ∧
      s.readyState 1 = .closed ∧ s.pending 1 = true ∧
      ∃ k t j, socketProvider.Run socketProvider.free s k t ∧
        t.state.socket = some j ∧ t.readyState j = .opened := by
  obtain ⟨h, s, hr, hs, hclosed⟩ := socketProvider.exists_of_exec socketProvider.free
    (fun _ s ↦ s.state.socket = some 1 ∧ s.readyState 1 = .closed) rfl
    [.config "wss://itg.example/websocket", .onopen 0, .onclose 0, .timeout 0, .onerror 1,
      .onclose 1]
    (by decide +kernel)
  obtain ⟨-, halive, -, -, hopen⟩ := socket_kept hr
  exact ⟨h, s, hr, hs, hclosed, (halive 1 hs).1 hclosed, hopen (by rw [hs]; exact nofun)⟩

end ITG.Frontend
