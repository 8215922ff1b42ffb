import ITG.Webrtc.Hub.Life

/-!
# `Send` channels are not misused

A send on a closed channel and a second `close` of a channel kill the process.  Neither happens
to a client's `Send` channel: whoever is about to send on it or to close it finds the client at
a stage before `Life.closed`.
-/

universe u

namespace ITG.Webrtc

open ITG.Lib

namespace Hub

variable {C : Type u}

/-- Some goroutine is blocked in a send on `c.Send`. -/
def SendingTo (s : Hub C) (c : C) : Prop :=
  (∃ m rest, s.run = .castSend m c rest) ∨ ∃ k m, Sender.client k = c ∧ s.sender k = .send m

/-- `Run` is about to close `c.Send`. -/
def ClosingSend (s : Hub C) (c : C) : Prop := s.run = .sendClose c ∨ s.run = .doneClose c

variable [DecidableEq C] {s : Hub C}

/-- A goroutine that is blocked in a send has a member as its client. -/
theorem Inv.member_of_sendingTo (h : Inv s) {c : C} (hs : s.SendingTo c) :
    s.life c = .member := by
  rcases hs with ⟨m, rest, hr⟩ | ⟨k, m, rfl, hk⟩
  · exact (h.expects hr).1
  · exact h.sending k m hk

theorem Inv.sendClosed_of_sendingTo (h : Inv s) {c : C} (hs : s.SendingTo c) :
    s.sendClosed c = false :=
  h.sendClosed_eq_false (by simp [h.member_of_sendingTo hs])

theorem Inv.sendClosed_of_closingSend (h : Inv s) {c : C} (hs : s.ClosingSend c) :
    s.sendClosed c = false := by
  rcases hs with hr | hr
  · exact h.sendClosed_eq_false (by simp [show s.life c = .removed from h.expects hr])
  · exact h.sendClosed_eq_false (by simp [show s.life c = .member from h.expects hr])

end Hub

/-! ## Schedules

The steps that bring a client into the hub, for the runs that the theorems below and in the
following files are tried on. -/

/-- A viewer connects and its handler sends the client on `Register`. -/
def connect {C : Type u} (c : C) : List (Action C) := [.accept c, .goWriteLoop c, .register c]

/-- `Run` takes the client from `Register`, inserts it and counts `n` clients. -/
def intake {C : Type u} (c : C) (n : ℕ) : List (Action C) :=
  [.recvRegister c, .announce (.register c), .lock (.register c), .insert c,
    .unlock (.register c), .infoRLock, .infoLen, .infoRUnlock n, .goSendInfo n]

/-- `Run` takes the `Unregister` of a client that it finds in `Clients`, removes it and counts `n`
clients. -/
def dismiss {C : Type u} (c : C) (n : ℕ) : List (Action C) :=
  [.recvUnregister c, .unregRLock c, .unregCheck c, .unregRUnlock c true,
    .announce (.unregister c), .lock (.unregister c), .delete c, .unlock (.unregister c),
    .connClose c, .sendClose c, .infoRLock, .infoLen, .infoRUnlock n, .goSendInfo n]

/-- The handler runs up to the membership check of its offer step. -/
def negotiate {C : Type u} (c : C) : List (Action C) :=
  [.onICECandidate c, .onConnectionStateChange c, .setLocalDescription c,
    .rLock (.handler c) .offer, .check (.handler c) .offer]

variable {C : Type u} [DecidableEq C]

/-- **`Send`-channel safety.**  In every run of the hub, with any number of clients: nothing
panics, whoever is blocked in a send on a `Send` channel finds it open, and so does `Run` when
it is about to close one. -/
theorem send_channel_safety {h : List (Event C)} {s : Hub C}
    (hr : (hub C).Reach (hub C).free h s) :
    s.panicked = false ∧ (∀ c, s.SendingTo c → s.sendClosed c = false) ∧
      ∀ c, s.ClosingSend c → s.sendClosed c = false :=
  have hi := inv_of_reach hr
  ⟨hi.panicked, fun _ ↦ hi.sendClosed_of_sendingTo, fun _ ↦ hi.sendClosed_of_closingSend⟩

/-- A handler blocked in its offer while the client's `Unregister` is already pending. -/
theorem send_channel_safety_offer :
    ∃ h s, (hub ℕ).Reach (hub ℕ).free h s ∧ s.SendingTo 0 ∧ s.Unregister.buf = [0] ∧
      s.sendClosed 0 = false := by
  obtain ⟨h, s, hr, hs, hu⟩ := (hub ℕ).exists_of_exec (hub ℕ).free
    (fun _ s ↦ s.sender (.handler 0) = .send .offer ∧ s.Unregister.buf = [0]) rfl
    (connect 0 ++ intake 0 1 ++ negotiate 0 ++ [Action.stateClosed 0 0, .stateUnregister 0 0])
    (by decide +kernel)
  have hsend : s.SendingTo 0 := .inr ⟨_, _, rfl, hs⟩
  exact ⟨h, s, hr, hsend, hu, (send_channel_safety hr).2.1 0 hsend⟩

end ITG.Webrtc
