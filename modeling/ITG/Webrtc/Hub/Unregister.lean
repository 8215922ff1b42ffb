import ITG.Webrtc.Hub.Safety

/-!
# Consumed unregistrations

`Register` and `Unregister` are two channels, and the `select` of `Run` takes from either.  A
client whose registration is still in the buffer when its `Unregister` is taken is not found in
`Clients`, so the unregistration is dropped; the registration is taken later and nothing ever
removes the client again (`ghost_viewer`).

This is the only way a client can come back.  If `Run` never takes an `Unregister` while the
same client's registration is pending, then a client whose `Unregister` has been consumed is
past `Life.member`, and the stages only go up.
-/

universe u

namespace ITG.Webrtc

open ITG.Lib

variable {C : Type u}

namespace Hub

/-- The discipline under which `Run` takes a client's `Unregister` only once its registration
is no longer in the buffer. -/
def RegisterFirst (s : Hub C) : Action C → Prop
  | .recvUnregister c => c ∉ s.Register.buf
  | _ => True

instance [DecidableEq C] (s : Hub C) : ∀ a, Decidable (s.RegisterFirst a) := by
  intro a
  apply Action.casesOn (motive := fun a ↦ Decidable (s.RegisterFirst a)) a <;>
    (intros; dsimp only [RegisterFirst]; infer_instance)

end Hub

/-- What `Run` knows about the client whose `Unregister` it is working on: it has been a member,
and once the look-up has failed it is one no longer. -/
def RunAt.Settled (ℓ : C → Life) : RunAt C → Prop
  | .unregRLock c | .unregCheck c => .member ≤ ℓ c
  | .unregRUnlock c false => .member < ℓ c
  | _ => True

/-- What `Run` knows is not lost when clients move forward. -/
theorem RunAt.Settled.mono {p : RunAt C} {ℓ ℓ' : C → Life} (h : p.Settled ℓ)
    (hle : ∀ c, ℓ c ≤ ℓ' c) : p.Settled ℓ' := by
  match p, h with
  | .unregRLock c, h | .unregCheck c, h => exact le_trans h (hle c)
  | .unregRUnlock c false, h => exact lt_of_lt_of_le h (hle c)
  | .unregRUnlock _ true, _ | .select, _ | .wantLock _, _ | .waitLock _, _ | .locked _, _
  | .doneClose _, _ | .unlock _, _ | .connClose _, _ | .sendClose _, _ | .infoRLock, _
  | .infoLen, _ | .infoRUnlock _, _ | .goSendInfo _, _ | .castRLock _, _ | .castNext _ _, _
  | .castSend _ _ _, _ | .castRUnlock, _ | .returned, _ => trivial

namespace Hub

variable [DecidableEq C] {s : Hub C} {a : Action C}

/-- A client that is neither fresh nor on its way into `Clients` has been a member. -/
theorem Inv.member_le (h : Inv s) {c : C} (hf : s.life c ≠ .fresh) (hq : c ∉ s.Register.buf)
    (ht : s.run.taking ≠ some c) : .member ≤ s.life c := by
  rw [← h.life_eq_queued] at hq
  rw [ne_eq, ← h.life_eq_taken] at ht
  cases hl : s.life c <;> simp +decide [hl] at hf hq ht ⊢

/-- The step lemma for `Run`: with registrations taken first, what `Run` knows about the client
it unregisters stays true. -/
theorem Inv.settled_step (h : Inv s) (g : s.guard a) (hok : s.RegisterFirst a)
    (hs : s.run.Settled s.life) : (s.effect a g).run.Settled (s.effect a g).life := by
  have hmono := hs.mono (h.life_mono g)
  cases a
  case recvUnregister c =>
      rw [life_eq g rfl]
      apply h.member_le (h.unregister c (List.mem_of_mem_head? g.2)) hok
      simp [g.1, RunAt.taking]
  case unregRLock c =>
      rw [life_eq g rfl]
      rw [g.1] at hs
      have hm : .member ≤ s.life c := hs
      exact hm
  case unregCheck c =>
      rw [life_eq g rfl]
      have hrun : s.run = .unregCheck c := g
      rw [hrun] at hs
      have hm : .member ≤ s.life c := hs
      by_cases hc : c ∈ s.Clients
      · simp [effect, hc, RunAt.Settled]
      · rw [← h.life_eq_member] at hc
        simpa [effect, h.life_eq_member.not.1 hc, RunAt.Settled] using hm.lt_of_ne' hc
  case unregRUnlock c ok => cases ok <;> trivial
  case unlock w => cases w <;> trivial
  case send k m => simpa [effect] using hmono
  all_goals first
    | exact hmono
    | trivial

/-- The step lemma for one client: past `Life.member` it stays, and consuming its `Unregister`
finds it there. -/
theorem Inv.unregistered_step (h : Inv s) (g : s.guard a) (hs : s.run.Settled s.life) {c : C}
    (hc : .member < s.life c ∨ .unregistered c ∈ s.emit a) :
    .member < (s.effect a g).life c := by
  rcases hc with hc | hc
  · exact lt_of_lt_of_le hc (h.life_mono g c)
  · rcases mem_emit_unregistered.1 hc with rfl | rfl
    · rw [h.life_move g rfl]
      decide
    · have hrun : s.run = .unregRUnlock c false := g
      rw [hrun] at hs
      rw [life_eq g rfl]
      exact hs

end Hub

variable [DecidableEq C]

/-- The run lemma: in every run that takes registrations first, a client whose `Unregister` has
been consumed is past `Life.member`. -/
theorem life_of_unregistered {h : List (Event C)} {s : Hub C}
    (hr : (hub C).Reach Hub.RegisterFirst h s) :
    (∀ c, .unregistered c ∈ h → .member < s.life c) ∧ s.run.Settled s.life := by
  refine hr.invariant_of
    (I := fun h s ↦ (∀ c, .unregistered c ∈ h → .member < s.life c) ∧ s.run.Settled s.life)
    (fun _ _ hr ↦ inv_of_reach hr) ?_ ?_
  · rintro _ rfl
    exact ⟨fun c hc ↦ absurd hc List.not_mem_nil, trivial⟩
  · rintro h s a g hi - ⟨hun, hset⟩ hok
    refine ⟨fun c hc ↦ ?_, hi.settled_step g.2 hok hset⟩
    exact hi.unregistered_step g.2 hset ((List.mem_append.1 hc).imp_left (hun c))

/-- **No ghost viewers**, when registrations are taken first: once the `Unregister` of a client
has been consumed, the client is not in `Clients`, no broadcast has it among the clients still
to be served, and nobody is sending to it. -/
theorem no_ghost_viewers {h : List (Event C)} {s : Hub C}
    (hr : (hub C).Reach Hub.RegisterFirst h s) (c : C) (hc : .unregistered c ∈ h) :
    c ∉ s.Clients ∧ (∀ m rest, s.run = .castNext m rest → c ∉ rest) ∧ ¬ s.SendingTo c := by
  have hi := inv_of_reach hr
  have hl : s.life c ≠ .member := ((life_of_unregistered hr).1 c hc).ne'
  refine ⟨fun hm ↦ hl (hi.life_eq_member.2 hm), fun m rest hrun hm ↦ hl ?_, fun hs ↦ hl ?_⟩
  · exact hi.expects hrun c hm
  · exact hi.member_of_sendingTo hs

/-- A viewer that leaves after it was taken in. -/
theorem no_ghost_viewers_leave :
    ∃ h s, (hub ℕ).Reach Hub.RegisterFirst h s ∧ .unregistered 0 ∈ h ∧ 0 ∉ s.Clients := by
  obtain ⟨h, s, hr, hs⟩ := (hub ℕ).exists_of_exec Hub.RegisterFirst
    (fun h _ ↦ .unregistered 0 ∈ h) rfl
    (connect 0 ++ intake 0 1 ++ [Action.onICECandidate 0, .onConnectionStateChange 0,
      .stateClosed 0 0, .stateUnregister 0 0, .recvBroadcast 1, .castRLock (.info 1),
      .castPick (.info 1) 0 {0}, .castSend (.info 1) 0 ∅, .castEnd (.info 1), .castRUnlock] ++
      dismiss 0 0)
    (by decide +kernel)
  exact ⟨h, s, hr, hs, (no_ghost_viewers hr 0 hs).1⟩

/-- The `Unregister` of a client is taken before its registration: it is dropped, and the client
is in `Clients` afterwards. -/
theorem ghost_viewer :
    ∃ h s, (hub ℕ).Reach (hub ℕ).free h s ∧ .unregistered 0 ∈ h ∧ 0 ∈ s.Clients :=
  (hub ℕ).exists_of_exec (hub ℕ).free (fun h s ↦ .unregistered 0 ∈ h ∧ 0 ∈ s.Clients) rfl
    (connect 0 ++ [Action.onICECandidate 0, .onConnectionStateChange 0, .stateClosed 0 0,
      .stateUnregister 0 0, .recvUnregister 0, .unregRLock 0, .unregCheck 0,
      .unregRUnlock 0 false] ++ intake 0 1)
    (by decide +kernel)

end ITG.Webrtc
