import ITG.Webrtc.Hub.Signalling

/-!
# Writers and blocked senders

`c.Send` is unbuffered: whoever sends on it waits for the client's `WriteLoop`, and holds the
hub's read lock while it waits.  `WriteLoop` returns when a websocket write or a ping fails and
tells nobody; the client stays in `Clients` until its `ReadLoop` notices.  A broadcast or an
offer in between waits for a receiver that is gone, and the lock stays read-held
(`writer_gone`).

If a `WriteLoop` only gives up once its client has left `Clients`, every blocked send has a
receiver (`writer_alive`), and the hub can always get back to its `select` with the lock free
(`hub_progress`): first the senders leave their snippets one by one, then `Run` finishes what it
is doing.
-/

universe u

namespace ITG.Webrtc

open ITG.Lib

variable {C : Type u}

/-- An upper bound on the steps that `Run` has before it, when there are `n` clients and nobody
else holds the lock. -/
def RunAt.rank (n : ℕ) : RunAt C → ℕ
  | .select | .returned => 0
  | .goSendInfo _ | .castRUnlock => 1
  | .infoRUnlock _ => 2
  | .infoLen => 3
  | .infoRLock => 4
  | .sendClose _ => 5
  | .connClose _ => 6
  | .unlock _ => 7
  | .locked _ | .doneClose _ => 8
  | .waitLock _ => 9
  | .wantLock _ => 10
  | .unregRUnlock _ _ => 11
  | .unregCheck _ => 12
  | .unregRLock _ => 13
  | .castNext _ rest => 2 + 2 * rest.card
  | .castSend _ _ rest => 3 + 2 * rest.card
  | .castRLock _ => 3 + 2 * n

namespace Hub

variable [DecidableEq C] {s : Hub C} {a : Action C} {h : List (Event C)}

/-- The client was sent on `Register`, was taken in, and has been deleted from `Clients`. -/
def Left (s : Hub C) (c : C) : Prop :=
  .register < s.handler c ∧ ¬ s.Pending c ∧ c ∉ s.Clients

instance (s : Hub C) (c : C) : Decidable (s.Left c) := inferInstanceAs (Decidable (_ ∧ _))

/-- The discipline under which `WriteLoop` only gives up on clients that have left. -/
def WritersStay (s : Hub C) : Action C → Prop
  | .writeFail c _ | .pingFail c => s.Left c
  | _ => True

instance (s : Hub C) : ∀ a, Decidable (s.WritersStay a) := by
  intro a
  apply Action.casesOn (motive := fun a ↦ Decidable (s.WritersStay a)) a <;>
    (intros; dsimp only [WritersStay]; infer_instance)

omit [DecidableEq C] in
/-- Nobody else takes the read lock. -/
theorem LockInv.readers_eq_empty (hl : LockInv s) (hq : ∀ k, (s.sender k).reading = false)
    (hrun : s.run.lockUse ≠ .reading) : s.mu.readers = ∅ := by
  apply Finset.eq_empty_of_forall_notMem
  intro r hm
  cases r with
  | run => exact hrun (hl.run.1 hm)
  | sender k =>
      rw [hl.sender, hq k] at hm
      cases hm

/-- A client that has left is past `Life.member`. -/
theorem Inv.member_lt_of_left (hi : Inv s) {c : C} (hl : s.Left c) : .member < s.life c := by
  obtain ⟨hf, hp, hm⟩ := hl
  rw [← not_le, ← hi.life_eq_fresh] at hf
  rw [Pending, not_or, ← hi.life_eq_queued, ← hi.life_eq_taken] at hp
  rw [← hi.life_eq_member] at hm
  cases hs : s.life c <;> simp +decide [hs] at hf hp hm ⊢

/-- The step lemma: `WriteLoop` ends only for clients past `Life.member`. -/
theorem Inv.writer_gone_step (hi : Inv s) (g : s.guard a) (hok : s.WritersStay a) {c : C}
    (ih : s.writer c = .closing ∨ s.writer c = .returned → .member < s.life c)
    (hw : (s.effect a g).writer c = .closing ∨ (s.effect a g).writer c = .returned) :
    .member < (s.effect a g).life c := by
  refine lt_of_lt_of_le ?_ (hi.life_mono g c)
  by_cases ha : a.writer? = some c
  · cases a
    case writeFail d m | pingFail d =>
        cases ha
        exact hi.member_lt_of_left hok
    case recvClosed d =>
        cases ha
        rw [hi.life_eq_closed.2 g.2]
        decide
    case writeClose d =>
        cases ha
        exact ih (.inl g)
    case castSend m d rest =>
        cases ha
        have ho := hi.sendClosed_of_sendingTo (.inl ⟨m, rest, g.1⟩)
        simp [effect, deliver_of_open ho] at hw
    case send k m =>
        cases ha
        have ho := hi.sendClosed_of_sendingTo (.inr ⟨k, m, rfl, g.1⟩)
        simp [effect, deliver_of_open ho] at hw
    case goWriteLoop d | writeOk d m =>
        cases ha
        simp [effect] at hw
    all_goals cases ha
  · rw [writer_frame g ha] at hw
    exact ih hw

end Hub

section Progress

variable [DecidableEq C] {h : List (Event C)} {s : Hub C}

/-- The run lemma for `WriteLoop`. -/
theorem member_lt_of_writer_gone (hr : (hub C).Reach Hub.WritersStay h s) (c : C) :
    s.writer c = .closing ∨ s.writer c = .returned → .member < s.life c := by
  refine hr.invariant_of
    (I := fun _ s ↦ s.writer c = .closing ∨ s.writer c = .returned → .member < s.life c)
    (fun _ _ hr ↦ inv_of_reach hr) ?_ ?_
  · rintro _ rfl hw
    rcases hw with hw | hw <;> cases hw
  · intro h s a g hi _ ih hok hw
    exact hi.writer_gone_step g.2 hok ih hw

/-- Whoever waits for a client has a `WriteLoop` that is at its `select` or on its way there. -/
theorem writer_alive (hr : (hub C).Reach Hub.WritersStay h s) {c : C} (hs : s.SendingTo c) :
    s.writer c = .select ∨ ∃ m, s.writer c = .writing m := by
  have hi := inv_of_reach hr
  have hm := hi.member_of_sendingTo hs
  have hgone : ¬ .member < s.life c := hm.not_gt
  cases hw : s.writer c with
  | select => exact .inl rfl
  | writing m => exact .inr ⟨m, rfl⟩
  | closing => exact absurd (member_lt_of_writer_gone hr c (.inl hw)) hgone
  | returned => exact absurd (member_lt_of_writer_gone hr c (.inr hw)) hgone
  | idle =>
      have hf := hi.life_eq_fresh.2 (((hi.control.writer c).1 hw).trans (by decide))
      rw [hm] at hf
      cases hf

namespace Hub

/-- The hub once `WriteLoop` is back at its `select`. -/
def ready (s : Hub C) (c : C) : Hub C :=
  { s with writer := Function.update s.writer c .select }

@[simp] theorem ready_done (s : Hub C) (c : C) : (s.ready c).done = s.done := rfl
@[simp] theorem ready_mu (s : Hub C) (c : C) : (s.ready c).mu = s.mu := rfl
@[simp] theorem ready_sender (s : Hub C) (c : C) : (s.ready c).sender = s.sender := rfl
@[simp] theorem ready_Clients (s : Hub C) (c : C) : (s.ready c).Clients = s.Clients := rfl

end Hub

/-- The receiver of a blocked send gets ready by itself. -/
theorem run_ready (hr : (hub C).Reach Hub.WritersStay h s) {c : C} (hs : s.SendingTo c) :
    (hub C).Run Hub.WritersStay s [] (s.ready c) := by
  rcases writer_alive hr hs with hw | ⟨m, hw⟩
  · have he : s.ready c = s := by rw [Hub.ready, ← hw, Function.update_eq_self]
    rw [he]
    exact .refl
  · have g : (hub C).guard s (.writeOk c m) := ⟨(inv_of_reach hr).panicked, hw⟩
    exact Machine.Run.single (Action.writeOk c m) trivial g

/-! ## Senders leave their snippets -/

/-- The number of readers can be brought below `n` without closing the hub. -/
def Drains (s : Hub C) (n : ℕ) : Prop :=
  (hub C).CanReach Hub.WritersStay s fun t ↦ t.done = false ∧ t.mu.readers.card < n

theorem drains_of_rUnlock (hr : (hub C).Reach Hub.WritersStay h s) (hd : s.done = false)
    {k : Sender C} {m : Message} (hk : s.sender k = .rUnlock m) {n : ℕ}
    (hn : s.mu.readers.card = n) : Drains s n := by
  have hi := inv_of_reach hr
  refine .step (Action.rUnlock k m) trivial ⟨hi.panicked, hk⟩ (.now ⟨hd, ?_⟩)
  rw [← hn]
  exact Finset.card_erase_lt_of_mem ((hi.lock.sender k).2 (by rw [hk]; rfl))

theorem drains_of_send (hr : (hub C).Reach Hub.WritersStay h s) (hd : s.done = false)
    {k : Sender C} {m : Message} (hk : s.sender k = .send m) {n : ℕ}
    (hn : s.mu.readers.card = n) : Drains s n := by
  have hs : s.SendingTo k.client := .inr ⟨k, m, rfl, hk⟩
  have hr' := hr.trans (run_ready hr hs)
  have g : (hub C).guard (s.ready k.client) (.send k m) :=
    ⟨(inv_of_reach hr').panicked, hk, .inr (Function.update_self ..)⟩
  refine .of_run (run_ready hr hs) (.step (Action.send k m) trivial g ?_)
  refine drains_of_rUnlock (hr'.step (Action.send k m) trivial g) (k := k) (m := m) ?_ ?_ ?_
  · exact (Hub.deliver_done ..).trans hd
  · exact Function.update_self ..
  · have hmu : ((s.ready k.client).deliver k.client m).mu = s.mu := Hub.deliver_mu ..
    exact (congrArg (·.readers.card) hmu).trans hn

theorem drains_of_check (hr : (hub C).Reach Hub.WritersStay h s) (hd : s.done = false)
    {k : Sender C} {m : Message} (hk : s.sender k = .check m) {n : ℕ}
    (hn : s.mu.readers.card = n) : Drains s n := by
  have g : (hub C).guard s (.check k m) := ⟨(inv_of_reach hr).panicked, hk⟩
  refine .step (Action.check k m) trivial g ?_
  have hr' : (hub C).Reach Hub.WritersStay _ _ := hr.step (Action.check k m) trivial g
  by_cases hc : k.client ∈ s.Clients
  · exact drains_of_send hr' hd ((Function.update_self ..).trans (if_pos hc)) hn
  · exact drains_of_rUnlock hr' hd ((Function.update_self ..).trans (if_neg hc)) hn

/-- A sender that holds the read lock can release it. -/
theorem drains_of_reading (hr : (hub C).Reach Hub.WritersStay h s) (hd : s.done = false)
    {k : Sender C} (hk : (s.sender k).reading = true) : Drains s s.mu.readers.card := by
  cases hs : s.sender k with
  | check m => exact drains_of_check hr hd hs rfl
  | send m => exact drains_of_send hr hd hs rfl
  | rUnlock m => exact drains_of_rUnlock hr hd hs rfl
  | _ => simp [hs, SendAt.reading] at hk

/-- No sender is inside its snippet, in a hub that is not closed. -/
def Hub.Quiet (s : Hub C) : Prop := s.done = false ∧ ∀ k, (s.sender k).reading = false

/-- All senders can leave their snippets. -/
theorem canReach_quiet (hr : (hub C).Reach Hub.WritersStay h s) (hd : s.done = false) :
    (hub C).CanReach Hub.WritersStay s Hub.Quiet := by
  refine (hr.canReach (P := fun s ↦ s.done = false) (Q := Hub.Quiet)
    (fun s ↦ s.mu.readers.card) ?_ hd)
  intro h s hr hd hq
  obtain ⟨k, hk⟩ := not_forall.1 fun hk ↦ hq ⟨hd, hk⟩
  exact drains_of_reading hr hd (Bool.not_eq_false _ ▸ hk)

/-! ## `Run` gets back to its `select` -/

/-- A bound on what `Run` has before it. -/
def Hub.rank (s : Hub C) : ℕ := s.run.rank s.Clients.card

/-- One step of `Run` that is not a send. -/
theorem advance (hr : (hub C).Reach Hub.WritersStay h s) (hq : s.Quiet) {p : RunAt C}
    (hrun : s.run = p) (a : Action C) (g : s.guard a) (hs : a.sender? = none)
    (hw : a.writer? = none) (hd : (s.effect a g).done = s.done)
    (hlt : (s.effect a g).rank < p.rank s.Clients.card) :
    (hub C).CanReach Hub.WritersStay s fun t ↦ t.Quiet ∧ t.rank < s.rank := by
  subst hrun
  have hok : s.WritersStay a := by cases a <;> trivial
  refine .step a hok ⟨(inv_of_reach hr).panicked, g⟩ (.now ⟨⟨hd.trans hq.1, fun k ↦ ?_⟩, hlt⟩)
  change ((s.effect a g).sender k).reading = false
  rw [Hub.sender_frame g (by rw [hs]; exact nofun)]
  exact hq.2 k

/-- In a quiet hub that is not closed, `Run` can make progress wherever it is. -/
theorem run_progress (hr : (hub C).Reach Hub.WritersStay h s) (hq : s.Quiet)
    (hn : s.run ≠ .select) :
    (hub C).CanReach Hub.WritersStay s fun t ↦ t.Quiet ∧ t.rank < s.rank := by
  have hi := inv_of_reach hr
  have hcl : s.run.closing ≠ true := fun hc ↦ by
    simpa [hq.1] using (unregistered_or_done hr).2 hc
  have hread : s.run.lockUse = .none → s.mu.CanRLock := fun hl ↦ by
    rw [RWMutex.CanRLock, hi.lock.writer, hl]
    rfl
  cases hrun : s.run with
  | select => exact absurd hrun hn
  | wantLock w =>
      exact advance hr hq hrun (.announce w) ⟨hrun, hread (by rw [hrun]; rfl)⟩ rfl rfl rfl
        (Nat.lt_succ_self _)
  | waitLock w =>
      have he : s.mu.readers = ∅ := by
        refine hi.lock.readers_eq_empty hq.2 fun hl ↦ ?_
        rw [hrun] at hl
        cases hl
      have hw : s.mu.writer = .waiting := by
        rw [hi.lock.writer, hrun]
        rfl
      exact advance hr hq hrun (.lock w) ⟨hrun, hw, he⟩ rfl rfl rfl (Nat.lt_succ_self _)
  | locked w =>
      cases w with
      | register c =>
          exact advance hr hq hrun (.insert c) hrun rfl rfl rfl (Nat.lt_succ_self _)
      | unregister c =>
          exact advance hr hq hrun (.delete c) hrun rfl rfl rfl (Nat.lt_succ_self _)
      | done => exact absurd (by rw [hrun]; rfl) hcl
  | unlock w =>
      refine advance hr hq hrun (.unlock w) hrun rfl rfl rfl ?_
      cases w <;> simp [Hub.rank, Hub.effect, RunAt.rank, Hub.afterUnlock]
  | unregRLock c =>
      exact advance hr hq hrun (.unregRLock c) ⟨hrun, hread (by rw [hrun]; rfl)⟩ rfl rfl rfl
        (Nat.lt_succ_self _)
  | unregCheck c =>
      exact advance hr hq hrun (.unregCheck c) hrun rfl rfl rfl (Nat.lt_succ_self _)
  | unregRUnlock c ok =>
      refine advance hr hq hrun (.unregRUnlock c ok) hrun rfl rfl rfl ?_
      cases ok <;> simp [Hub.rank, Hub.effect, RunAt.rank]
  | connClose c =>
      exact advance hr hq hrun (.connClose c) hrun rfl rfl rfl (Nat.lt_succ_self _)
  | sendClose c =>
      exact advance hr hq hrun (.sendClose c) hrun rfl rfl rfl (Nat.lt_succ_self _)
  | infoRLock =>
      exact advance hr hq hrun .infoRLock ⟨hrun, hread (by rw [hrun]; rfl)⟩ rfl rfl rfl
        (Nat.lt_succ_self _)
  | infoLen =>
      exact advance hr hq hrun .infoLen hrun rfl rfl rfl (Nat.lt_succ_self _)
  | infoRUnlock n =>
      exact advance hr hq hrun (.infoRUnlock n) hrun rfl rfl rfl (Nat.lt_succ_self _)
  | goSendInfo n =>
      exact advance hr hq hrun (.goSendInfo n) hrun rfl rfl rfl (Nat.lt_succ_self _)
  | castRLock m =>
      exact advance hr hq hrun (.castRLock m) ⟨hrun, hread (by rw [hrun]; rfl)⟩ rfl rfl rfl
        (Nat.add_lt_add_right (by decide : 2 < 3) _)
  | castNext m rest =>
      rcases rest.eq_empty_or_nonempty with rfl | ⟨c, hc⟩
      · exact advance hr hq hrun (.castEnd m) hrun rfl rfl rfl (Nat.lt_succ_self _)
      · refine advance hr hq hrun (.castPick m c rest) ⟨hrun, hc⟩ rfl rfl rfl ?_
        have hlt := Finset.card_erase_lt_of_mem hc
        simp only [Hub.rank, Hub.effect, RunAt.rank]
        omega
  | castSend m c rest =>
      have hs : s.SendingTo c := .inl ⟨m, rest, hrun⟩
      have hr' := hr.trans (run_ready hr hs)
      have g : (hub C).guard (s.ready c) (.castSend m c rest) :=
        ⟨(inv_of_reach hr').panicked, hrun, .inr (Function.update_self ..)⟩
      refine .of_run (run_ready hr hs) (.step (Action.castSend m c rest) trivial g (.now ?_))
      refine ⟨⟨?_, fun k ↦ ?_⟩, ?_⟩
      · exact (Hub.deliver_done ..).trans hq.1
      · have hsender : ((s.ready c).deliver c m).sender = s.sender := Hub.deliver_sender ..
        exact (congrArg (fun f ↦ (f k).reading) hsender).trans (hq.2 k)
      · have hcl : ((s.ready c).deliver c m).Clients = s.Clients := Hub.deliver_Clients ..
        change (RunAt.castNext m rest).rank ((s.ready c).deliver c m).Clients.card < _
        rw [hcl, Hub.rank, hrun]
        exact Nat.add_lt_add_right (by decide : 2 < 3) _
  | castRUnlock =>
      exact advance hr hq hrun .castRUnlock hrun rfl rfl rfl (Nat.lt_succ_self _)
  | doneClose c | returned => exact absurd (by rw [hrun]; rfl) hcl

/-- The hub can always get back to its `select` with the lock free. -/
theorem hub_progress (hr : (hub C).Reach Hub.WritersStay h s) (hd : s.done = false) :
    (hub C).CanReach Hub.WritersStay s fun t ↦ t.run = .select ∧ t.mu.readers = ∅ := by
  obtain ⟨k, r, run, hq⟩ := canReach_quiet hr hd
  refine .of_run run ((hr.trans run).canReach Hub.rank ?_ hq)
  intro h s hr hq hn
  refine run_progress hr hq fun hs ↦ hn ⟨hs, ?_⟩
  exact (inv_of_reach hr).lock.readers_eq_empty hq.2 (by rw [hs]; exact nofun)

end Progress

/-! ## A writer that is gone -/

namespace Hub

/-- `Run` waits, in a broadcast, for a `WriteLoop` that has returned. -/
def StuckOn (s : Hub C) (m : Message) (c : C) (rest : Finset C) : Prop :=
  s.run = .castSend m c rest ∧ s.writer c = .returned ∧ s.sendClosed c = false

instance [DecidableEq C] (s : Hub C) (m : Message) (c : C) (rest : Finset C) :
    Decidable (s.StuckOn m c rest) := inferInstanceAs (Decidable (_ ∧ _))

variable {s : Hub C} {m : Message} {c : C} {rest : Finset C}

theorem StuckOn.not_sendReady (hs : s.StuckOn m c rest) : ¬ s.SendReady c := by
  rintro (hc | hc)
  · simp [hs.2.2] at hc
  · simp [hs.2.1] at hc

variable [DecidableEq C] {a : Action C}

/-- Nothing gets `Run` out of such a wait: the send is not received, and nobody but `Run` closes
the channel. -/
theorem StuckOn.step (hs : s.StuckOn m c rest) (hi : Inv s) (g : s.guard a) :
    (s.effect a g).StuckOn m c rest := by
  have hrun := hs.1
  refine ⟨?_, ?_, ?_⟩
  · cases a
    case castSend m' d rest' =>
        obtain ⟨-, rfl, -⟩ : m = m' ∧ c = d ∧ rest = rest' := by simpa [hrun] using g.1
        exact absurd g.2 hs.not_sendReady
    case send k m' => simpa [effect] using hrun
    all_goals first
      | exact hrun
      | simp only [guard, hrun, reduceCtorEq, false_and] at g
  · by_cases ha : a.writer? = some c
    · cases a
      case castSend m' d rest' | send k m' =>
          cases ha
          exact absurd g.2 hs.not_sendReady
      case goWriteLoop d =>
          cases ha
          have hw := (hi.control.writer c).2 (le_of_eq g)
          simp [hs.2.1] at hw
      all_goals first
        | cases ha; done
        | (cases ha; simp [guard, hs.2.1] at g)
    · rw [writer_frame g ha, hs.2.1]
  · cases a
    case sendClose d | doneSend d => simp [guard, hrun] at g
    all_goals simpa [effect] using hs.2.2

end Hub

variable [DecidableEq C] {h : List (Event C)} {s : Hub C}

/-- A broadcast that waits for a `WriteLoop` that has returned waits forever, whatever the other
goroutines do. -/
theorem not_canReach_of_stuckOn {m : Message} {c : C} {rest : Finset C}
    (hr : (hub C).Reach (hub C).free h s) (hs : s.StuckOn m c rest) :
    ¬ (hub C).CanReach (hub C).free s fun t ↦ t.run = .select := by
  rintro ⟨k, t, run, ht⟩
  have key : t.Inv ∧ t.StuckOn m c rest :=
    run.preserves (I := fun t ↦ t.Inv ∧ t.StuckOn m c rest)
      (fun s a g ⟨hi, hs⟩ _ ↦ ⟨hi.step g.2, hs.step hi g.2⟩) ⟨inv_of_reach hr, hs⟩
  rw [key.2.1] at ht
  cases ht

end ITG.Webrtc
