import ITG.Webrtc.Hub.Delivery

/-!
# Viewers do not cut each other off

All viewers of a stream share one `Run`, one `Register`, one `Unregister` and one lock.  What ends a
viewer all the same is nothing that the others do: `Run` removes a client, and closes its websocket
and its `Send` channel, only if the client's own `ReadLoop` has ended, its own peer connection has
reported a change, or the hub has been closed (`kept_of_reach`).
-/

universe u

namespace ITG.Webrtc

open ITG.Lib

variable {C : Type u}

/-- The client that `Run` has received from `Unregister`. -/
def RunAt.leaving : RunAt C → Option C
  | .unregRLock c | .unregCheck c | .unregRUnlock c _ | .wantLock (.unregister c)
  | .waitLock (.unregister c) | .locked (.unregister c) | .unlock (.unregister c) | .connClose c
  | .sendClose c => some c
  | _ => none

namespace Hub

/-- The client is in trouble: its `ReadLoop` has ended, or a connection-state callback of its peer
connection was called. -/
def Troubled (s : Hub C) (c : C) : Prop :=
  HandlerAt.reading < s.handler c ∨ ∃ k, s.stateChange c k ≠ .idle

variable [DecidableEq C] {s : Hub C} {a : Action C} {h : List (Event C)} {c : C}

/-! ## Trouble -/

theorem stateChange_ne_idle (g : s.guard a) {k : ℕ} (hk : s.stateChange c k ≠ .idle) :
    (s.effect a g).stateChange c k ≠ .idle := by
  by_cases ha : a.stateChange? = some (c, k)
  · cases a
    case stateFailed d j | statePeerClose d j | stateClosed d j | stateUnregister d j =>
        cases ha
        simp [effect]
    all_goals cases ha
  · rw [stateChange_frame g ha]
    exact hk

/-- Trouble does not go away. -/
theorem Troubled.step (ht : s.Troubled c) (g : s.guard a) : (s.effect a g).Troubled c := by
  rcases ht with hr | ⟨k, hk⟩
  · exact .inl (hr.trans_le (handler_mono g c))
  · exact .inr ⟨k, stateChange_ne_idle g hk⟩

omit [DecidableEq C] in
/-- There is no trouble before the state callback is armed. -/
theorem ControlInv.not_troubled (hi : ControlInv s) (hc : s.handler c ≤ .onConnectionStateChange) :
    ¬ s.Troubled c := by
  rintro (hlt | ⟨k, hk⟩)
  · exact absurd (hlt.trans_le hc) (by decide)
  · exact absurd (hi.stateChange c k hk) (not_lt.2 hc)

/-- What is put on `Unregister` is put there by a client in trouble. -/
theorem troubled_of_unregister (g : s.guard a) (hold : ∀ d ∈ s.Unregister.buf, s.Troubled d)
    (hc : c ∈ (s.effect a g).Unregister.buf) : (s.effect a g).Troubled c := by
  cases a
  case readUnregister d =>
      rcases List.mem_append.1 hc with hc | hc
      · exact (hold c hc).step g
      · obtain rfl := List.mem_singleton.1 hc
        refine .inl (lt_of_lt_of_le ?_ (handler_mono g c))
        rw [g.1]
        decide
  case stateUnregister d k =>
      rcases List.mem_append.1 hc with hc | hc
      · exact (hold c hc).step g
      · obtain rfl := List.mem_singleton.1 hc
        refine .inr ⟨k, stateChange_ne_idle g ?_⟩
        rw [g.1]
        exact nofun
  case recvUnregister d => exact (hold c (List.mem_of_mem_tail hc)).step g
  case castSend m d rest | send k m => exact (hold c (by simpa [effect] using hc)).step g
  all_goals exact (hold c hc).step g

/-- `Run` comes to work on a client only by receiving it. -/
theorem leaving_of_step (g : s.guard a) (hc : (s.effect a g).run.leaving = some c) :
    s.run.leaving = some c ∨ c ∈ s.Unregister.buf := by
  cases a
  case recvUnregister d =>
      cases hc
      exact .inr (List.mem_of_mem_head? g.2)
  case unregRLock d =>
      left
      rw [g.1]
      exact hc
  case announce w | lock w =>
      left
      rw [g.1]
      cases w <;> exact hc
  case unregCheck d | delete d | connClose d =>
      left
      have hrun : s.run = _ := g
      rw [hrun]
      exact hc
  case unregRUnlock d ok =>
      left
      have hrun : s.run = .unregRUnlock d ok := g
      rw [hrun]
      cases ok
      · cases hc
      · exact hc
  case unlock w =>
      left
      have hrun : s.run = .unlock w := g
      rw [hrun]
      cases w
      case unregister d => exact hc
      all_goals cases hc
  case send k m => exact .inl (by simpa [effect] using hc)
  all_goals first
    | exact .inl hc
    | cases hc

omit [DecidableEq C] in
theorem leaving_of_unregistered (g : s.guard a) (hc : .unregistered c ∈ s.emit a) :
    s.run.leaving = some c := by
  rcases mem_emit_unregistered.1 hc with rfl | rfl
  · have hrun : s.run = .locked (.unregister c) := g
    rw [hrun]
    rfl
  · have hrun : s.run = .unregRUnlock c false := g
    rw [hrun]
    rfl

/-- Connections are closed by `Run`, by the client's handler and by its `WriteLoop`. -/
theorem connClosed_of_step (g : s.guard a) (hc : (s.effect a g).connClosed c = true) :
    s.connClosed c = true ∨ s.run.leaving = some c ∨ s.run.closing = true ∨
      s.handler c = .connClose ∨ (s.effect a g).writer c = .returned := by
  cases a
  case connClose d | doneConn d | readConnClose d | writeFail d m | pingFail d | writeClose d =>
      by_cases hd : c = d
      · subst hd
        right
        first
          | exact .inl (congrArg RunAt.leaving g)
          | exact .inr (.inl (by rw [g.1]; rfl))
          | exact .inr (.inr (.inl g))
          | exact .inr (.inr (.inr (by simp [effect])))
      · exact .inl (by simpa [effect, hd] using hc)
  case castSend m d rest | send k m =>
      simp only [effect, deliver] at hc
      split at hc <;> exact .inl hc
  all_goals exact .inl hc

/-! ## The invariant -/

/-- Whoever is cut off was in trouble. -/
structure Isolated (h : List (Event C)) (s : Hub C) : Prop where
  unregister : ∀ c ∈ s.Unregister.buf, s.Troubled c
  leaving : ∀ c, s.run.leaving = some c → s.Troubled c
  unregistered : ∀ c, .unregistered c ∈ h → s.Troubled c
  /-- A connection that is closed without trouble was closed by `WriteLoop`. -/
  connClosed : ∀ c, s.connClosed c = true →
    s.done = true ∨ s.Troubled c ∨ s.writer c = .returned

omit [DecidableEq C] in
theorem Isolated.new : Isolated [] (new : Hub C) where
  unregister := nofun
  leaving := nofun
  unregistered := nofun
  connClosed := nofun

theorem Isolated.connClosed_step (hs : Isolated h s) (hi : Inv s) (g : s.guard a)
    (hcl : s.run.closing = true → s.done = true) (hc : (s.effect a g).connClosed c = true) :
    (s.effect a g).done = true ∨ (s.effect a g).Troubled c ∨
      (s.effect a g).writer c = .returned := by
  rcases connClosed_of_step g hc with hc | hc | hc | hc | hc
  · rcases hs.connClosed c hc with hd | ht | hw
    · exact .inl (done_mono g hd)
    · exact .inr (.inl (ht.step g))
    · exact .inr (.inr (hi.writer_returned g hw))
  · exact .inr (.inl ((hs.leaving c hc).step g))
  · exact .inl (done_mono g (hcl hc))
  · refine .inr (.inl (Troubled.step (.inl ?_) g))
    rw [hc]
    decide
  · exact .inr (.inr hc)

/-- The step lemma. -/
theorem Isolated.step (hs : Isolated h s) (hi : Inv s) (g : s.guard a)
    (hcl : s.run.closing = true → s.done = true) : Isolated (h ++ s.emit a) (s.effect a g) where
  unregister c hc := troubled_of_unregister g hs.unregister hc
  leaving c hc := by
    apply Troubled.step
    rcases leaving_of_step g hc with hc | hc
    · exact hs.leaving c hc
    · exact hs.unregister c hc
  unregistered c hc := by
    apply Troubled.step
    rcases List.mem_append.1 hc with hc | hc
    · exact hs.unregistered c hc
    · exact hs.leaving c (leaving_of_unregistered g hc)
  connClosed c hc := hs.connClosed_step hi g hcl hc

end Hub

section Runs

variable [DecidableEq C] {ok : Hub C → Action C → Prop} {s : Hub C} {h : List (Event C)} {c : C}

/-- The run lemma. -/
theorem isolated_of_reach (hr : (hub C).Reach ok h s) : s.Isolated h := by
  refine hr.invariant_of (I := fun h s ↦ s.Isolated h)
    (fun h s hr ↦ And.intro (inv_of_reach hr) (unregistered_or_done hr).2) ?_ ?_
  · rintro _ rfl
    exact .new
  · rintro h s a g ⟨hi, hcl⟩ - hs -
    exact hs.step hi g.2 hcl

/-- A client without trouble is kept, as long as the hub has not been closed. -/
theorem kept_of_reach (hr : (hub C).Reach ok h s) (hd : s.done = false) (ht : ¬ s.Troubled c) :
    (.registered c ∈ h → c ∈ s.Clients) ∧ s.sendClosed c = false ∧
      (s.connClosed c = true → s.writer c = .returned) := by
  have hi := inv_of_reach hr
  have hs := isolated_of_reach hr
  have hle : s.life c ≤ .member := not_lt.1 fun hlt ↦
    match (unregistered_or_done hr).1 c hlt with
    | .inl hu => ht (hs.unregistered c hu)
    | .inr hdone => by cases hd.symm.trans hdone
  refine ⟨fun hreg ↦ ?_, hi.sendClosed_eq_false fun hl ↦ ?_, fun hc ↦ ?_⟩
  · exact hi.life_eq_member.1 (hle.antisymm (((castInv_of_reach hr).registered c).1 hreg))
  · rw [hl] at hle
    exact absurd hle (by decide)
  · rcases hs.connClosed c hc with hdone | htr | hw
    · cases hd.symm.trans hdone
    · exact absurd htr ht
    · exact hw

end Runs

end ITG.Webrtc
