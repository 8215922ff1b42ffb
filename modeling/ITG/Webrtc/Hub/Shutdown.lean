import ITG.Webrtc.Hub.Signalling

/-!
# Shutting down

`Close` makes `Run` close all clients and return.  After that nobody receives from the hub's
channels, but two of them still accept one element each: a client that is sent on `Register` late is
never closed (`late_register`), and goroutines that send on `Unregister` or `Broadcast` may wait
forever.  `deleteStream` removes the stream from the map first, but a handler that looked it up
before may still be on its way to its `Register`.

`shutdown_complete` says that nothing else goes wrong: if `Run` returns when the channels are empty,
up to one `Unregister`, and clients come and leave no more after that, then all clients have been
closed and nobody waits forever.
-/

universe u

namespace ITG.Webrtc

open ITG.Lib

variable {C : Type u}

/-- The goroutines that send on `Unregister`: the `ReadLoop` of a client, and the `k`-th call of its
connection-state callback. -/
inductive Leaver (C : Type u) where
  | reader (c : C)
  | callback (c : C) (k : ℕ)

/-- The client whose connection `Run` has just closed. -/
def RunAt.shutting : RunAt C → Option C
  | .sendClose c | .doneClose c => some c
  | _ => none

/-- The client that `Run` has deleted and not yet closed. -/
def RunAt.dropping : RunAt C → Option C
  | .unlock (.unregister c) | .connClose c | .sendClose c => some c
  | _ => none

/-- `Run` has emptied `Clients` for good. -/
def RunAt.emptied : RunAt C → Bool
  | .unlock .done | .returned => true
  | _ => false

namespace Hub

/-- The goroutine waits to send on `Unregister`. -/
def Leaving (s : Hub C) : Leaver C → Prop
  | .reader c => s.handler c = .unregister
  | .callback c k => s.stateChange c k = .unregister

/-- Nobody waits to send on `Unregister`, and nothing is in its buffer. -/
def NobodyLeaves (s : Hub C) : Prop := s.Unregister.buf = [] ∧ ∀ l, ¬ s.Leaving l

/-- At most one `Unregister` is waiting or in the buffer. -/
structure OneLeaves (s : Hub C) : Prop where
  buffer : s.Unregister.buf = [] ∨ ∀ l, ¬ s.Leaving l
  unique : ∀ l l', s.Leaving l → s.Leaving l' → l = l'

/-- The discipline under which `Run` returns when nothing is pending, up to one `Unregister`, and
after that no client is sent on `Register` and no callback wants to send on `Unregister` unless
nobody else does. -/
def Orderly (s : Hub C) : Action C → Prop
  | .unlock .done => s.Register.buf = [] ∧ s.infos = [] ∧ s.OneLeaves
  | .register _ => s.run ≠ .returned
  | .stateClosed _ _ | .statePeerClose _ _ => s.run = .returned → s.NobodyLeaves
  | _ => True

variable [DecidableEq C]

/-- The shutdown is complete: all clients that were ever sent on `Register` are closed, and whoever
waits to send on a channel of the hub can still get on. -/
structure ShutDown (s : Hub C) : Prop where
  closed : ∀ c, .register < s.handler c → s.connClosed c = true ∧ s.sendClosed c = true
  register : ∀ c, s.handler c = .register →
    (hub C).CanReach (hub C).free s fun t ↦ t.handler c ≠ .register
  unregister : ∀ l, s.Leaving l → (hub C).CanReach (hub C).free s fun t ↦ ¬ t.Leaving l
  broadcast : ∀ n ∈ s.infos,
    (hub C).CanReach (hub C).free s fun t ↦ t.infos.count n < s.infos.count n

variable {s : Hub C} {a : Action C}

/-! ## Clients are closed -/

/-- A connection that is closed stays closed. -/
theorem connClosed_mono (g : s.guard a) {c : C} (hc : s.connClosed c = true) :
    (s.effect a g).connClosed c = true := by
  cases a
  case connClose d | doneConn d | readConnClose d | writeFail d m | pingFail d | writeClose d =>
      by_cases hd : c = d
      · subst hd
        simp [effect]
      · simpa [effect, hd] using hc
  case castSend m d rest | send k m =>
      simp only [effect, deliver]
      split <;> exact hc
  all_goals exact hc

/-- The connection that `Run` has just closed is the one it was about to close. -/
theorem shutting_step (g : s.guard a) {c : C} (h : (s.effect a g).run.shutting = some c) :
    s.run.shutting = some c ∨ a = .connClose c ∨ a = .doneConn c := by
  cases a
  case connClose d | doneConn d =>
      cases h
      simp
  case unlock w => cases w <;> cases h
  case unregRUnlock d ok => cases ok <;> cases h
  case send k m => exact .inl (by simpa [effect] using h)
  all_goals first
    | exact .inl h
    | cases h

/-- `Run` closes `Send` channels of clients whose connection it has just closed. -/
theorem sendClosed_step (g : s.guard a) {c : C} (h : (s.effect a g).sendClosed c = true) :
    s.sendClosed c = true ∨ s.run.shutting = some c := by
  cases a
  case sendClose d | doneSend d =>
      by_cases hd : c = d
      · subst hd
        exact .inr (congrArg RunAt.shutting g)
      · exact .inl (by simpa [effect, hd] using h)
  all_goals exact .inl (by simpa [effect] using h)

/-- What is known of clients that `Run` is done with, or is about to be. -/
structure DownInv (s : Hub C) : Prop where
  /-- The connection of a client is closed before its `Send` channel. -/
  closed : ∀ c, s.sendClosed c = true → s.connClosed c = true
  shutting : ∀ c, s.run.shutting = some c → s.connClosed c = true
  /-- A client that was deleted is being closed. -/
  dropping : ∀ c, s.life c = .removed → s.run.dropping = some c
  emptied : s.run.emptied = true → s.Clients = ∅

theorem DownInv.new : DownInv (new : Hub C) where
  closed := nofun
  shutting := nofun
  dropping c hc := by
    rw [Inv.new.life_eq_fresh.2 (show HandlerAt.idle ≤ .register by decide)] at hc
    cases hc
  emptied := nofun

theorem DownInv.dropping_step (hd : DownInv s) (hi : Inv s) (g : s.guard a) {c : C}
    (hc : (s.effect a g).life c = .removed) : (s.effect a g).run.dropping = some c := by
  rcases hi.life_step g c with he | ⟨l, hm, he, -⟩
  · have hold := hd.dropping c (he ▸ hc)
    cases a
    case unlock w =>
        have hrun : s.run = .unlock w := g
        rw [hrun] at hold
        cases w
        case unregister d => exact hold
        all_goals cases hold
    case connClose d =>
        have hrun : s.run = .connClose d := g
        rw [hrun] at hold
        exact hold
    case sendClose d =>
        have hrun : s.run = .sendClose d := g
        rw [hrun] at hold
        cases hold
        rw [hi.life_move g rfl] at hc
        cases hc
    case send k m => simpa [effect] using hold
    all_goals first
      | exact hold
      | (simp only [guard] at g; simp [g, RunAt.dropping] at hold)
  · cases a
    case delete d =>
        cases hm
        rfl
    case register d | recvRegister d | insert d | sendClose d | doneSend d =>
        cases hm
        cases he.symm.trans hc
    all_goals cases hm

theorem DownInv.emptied_step (hd : DownInv s) (g : s.guard a)
    (he : (s.effect a g).run.emptied = true) : (s.effect a g).Clients = ∅ := by
  have hemp := hd.emptied
  cases a
  case doneEnd => exact g.2
  case unlock w =>
      have hrun : s.run = .unlock w := g
      rw [hrun] at hemp
      cases w <;> first | exact hemp rfl | cases he
  case unregRUnlock c ok => cases ok <;> cases he
  case send k m => simpa [effect] using hemp (by simpa [effect] using he)
  all_goals first
    | exact hemp he
    | cases he

/-- The step lemma. -/
theorem DownInv.step (hd : DownInv s) (hi : Inv s) (g : s.guard a) : DownInv (s.effect a g) where
  closed c hc := by
    refine connClosed_mono g ?_
    rcases sendClosed_step g hc with hc | hc
    · exact hd.closed c hc
    · exact hd.shutting c hc
  shutting c hc := by
    rcases shutting_step g hc with hc | rfl | rfl
    · exact connClosed_mono g (hd.shutting c hc)
    · simp [effect]
    · simp [effect]
  dropping _ := hd.dropping_step hi g
  emptied := hd.emptied_step g

/-- Once `Run` has returned with nothing left in `Register`, all clients have been closed. -/
theorem DownInv.closed_of_returned (hd : DownInv s) (hi : Inv s) (hrun : s.run = .returned)
    (hreg : s.Register.buf = []) {c : C} (hc : .register < s.handler c) :
    s.connClosed c = true ∧ s.sendClosed c = true := by
  have hf : s.life c ≠ .fresh := fun hf ↦ absurd (hi.life_eq_fresh.1 hf) (not_le.2 hc)
  have hq : s.life c ≠ .queued := fun hq ↦ by
    have hmem := hi.life_eq_queued.1 hq
    rw [hreg] at hmem
    cases hmem
  have ht : s.life c ≠ .taken := fun ht ↦ by
    have htake := hi.life_eq_taken.1 ht
    rw [hrun] at htake
    cases htake
  have hm : s.life c ≠ .member := fun hm ↦ by
    have hmem := hi.life_eq_member.1 hm
    rw [hd.emptied (by rw [hrun]; rfl)] at hmem
    exact Finset.notMem_empty c hmem
  have hr : s.life c ≠ .removed := fun hr ↦ by
    have hdrop := hd.dropping c hr
    rw [hrun] at hdrop
    cases hdrop
  have hcl : s.life c = .closed := by
    cases hl : s.life c <;> simp [hl] at hf hq ht hm hr ⊢
  have hsend := hi.life_eq_closed.1 hcl
  exact ⟨hd.closed c hsend, hsend⟩

/-! ## Nobody waits forever -/

/-- Who begins to wait to send on `Unregister`. -/
theorem leaving_step (g : s.guard a) {l : Leaver C} (hl : (s.effect a g).Leaving l) :
    s.Leaving l ∨ (∃ c, a = .checkClosed c ∧ s.done = false) ∨
      ∃ c k, (a = .stateClosed c k ∨ a = .statePeerClose c k) ∧ l = .callback c k := by
  cases l with
  | reader c =>
      by_cases h : ∃ p, a.handler? = some (c, p)
      · obtain ⟨p, hp⟩ := h
        have hl' : (s.effect a g).handler c = .unregister := hl
        cases a
        case checkClosed d =>
            cases hp
            refine .inr (.inl ⟨c, rfl, ?_⟩)
            cases hdone : s.done with
            | false => rfl
            | true => simp [effect, hdone] at hl'
        all_goals first
          | cases hp; done
          | (cases hp; simp [effect] at hl')
      · have hl' : s.handler c = .unregister := handler_frame g (not_exists.1 h) ▸ hl
        exact .inl hl'
  | callback c k =>
      by_cases h : a.stateChange? = some (c, k)
      · have hl' : (s.effect a g).stateChange c k = .unregister := hl
        cases a
        case stateClosed d j =>
            cases h
            exact .inr (.inr ⟨c, k, .inl rfl, rfl⟩)
        case statePeerClose d j =>
            cases h
            exact .inr (.inr ⟨c, k, .inr rfl, rfl⟩)
        case stateFailed d j | stateUnregister d j =>
            cases h
            simp [effect] at hl'
        all_goals cases h
      · have hl' : s.stateChange c k = .unregister := stateChange_frame g h ▸ hl
        exact .inl hl'

omit [DecidableEq C] in
/-- A send on `Unregister` after `Run` has returned: it was the only one waiting. -/
theorem OneLeaves.of_send (ho : s.OneLeaves) {t : Hub C} {l : Leaver C} (hl : s.Leaving l)
    (hstep : ∀ l', t.Leaving l' → s.Leaving l') (hgone : ¬ t.Leaving l) : t.OneLeaves where
  buffer := .inr fun l' hl' ↦ hgone (ho.unique l' l (hstep l' hl') hl ▸ hl')
  unique l₁ l₂ h₁ h₂ := ho.unique l₁ l₂ (hstep l₁ h₁) (hstep l₂ h₂)

omit [DecidableEq C] in
/-- Nobody else begins to wait. -/
theorem OneLeaves.of_frame (ho : s.OneLeaves) {t : Hub C}
    (hstep : ∀ l', t.Leaving l' → s.Leaving l') (hbuf : t.Unregister.buf = s.Unregister.buf) :
    t.OneLeaves where
  buffer := by
    rw [hbuf]
    exact ho.buffer.imp_right fun hno l hl ↦ hno l (hstep l hl)
  unique l₁ l₂ h₁ h₂ := ho.unique l₁ l₂ (hstep l₁ h₁) (hstep l₂ h₂)

/-- What is left in the channels once `Run` has returned. -/
structure Drained (s : Hub C) : Prop where
  register : s.Register.buf = []
  infos : s.infos = []
  leaves : s.OneLeaves

/-- A step of another goroutine after `Run` has returned. -/
theorem Drained.step (hd : Drained s) (hrun : s.run = .returned) (hdone : s.done = true)
    (g : s.guard a) (hok : s.Orderly a) : Drained (s.effect a g) := by
  have hstep (hne : ∀ c k, a ≠ .stateClosed c k ∧ a ≠ .statePeerClose c k) :
      ∀ l, (s.effect a g).Leaving l → s.Leaving l := by
    intro l hl
    rcases leaving_step g hl with h | ⟨c, -, hno⟩ | ⟨c, k, rfl | rfl, -⟩
    · exact h
    · cases hdone.symm.trans hno
    · exact absurd rfl (hne c k).1
    · exact absurd rfl (hne c k).2
  cases a
  case register c => exact absurd hrun hok
  case stateClosed c k | statePeerClose c k =>
      obtain ⟨hbuf, hno⟩ := hok hrun
      have honly : ∀ l, (s.effect _ g).Leaving l → l = .callback c k := by
        intro l hl
        rcases leaving_step g hl with h | ⟨c', h, -⟩ | ⟨c', k', h | h, rfl⟩
        · exact absurd h (hno l)
        · cases h
        all_goals cases h <;> rfl
      exact ⟨hd.register, hd.infos, .inl hbuf,
        fun l₁ l₂ h₁ h₂ ↦ (honly l₁ h₁).trans (honly l₂ h₂).symm⟩
  case readUnregister c =>
      refine ⟨hd.register, hd.infos, hd.leaves.of_send (l := .reader c) g.1 (hstep (by simp)) ?_⟩
      simp [Leaving, effect]
  case stateUnregister c k =>
      refine ⟨hd.register, hd.infos,
        hd.leaves.of_send (l := .callback c k) g.1 (hstep (by simp)) ?_⟩
      simp [Leaving, effect]
  case send k m =>
      exact ⟨by simpa [effect] using hd.register, by simpa [effect] using hd.infos,
        hd.leaves.of_frame (hstep (by simp)) (by simp [effect])⟩
  case unlist | close | accept c | goWriteLoop c | onICECandidate c | onConnectionStateChange c
    | setLocalDescription c | offerEnd c | readError c | checkClosed c | readConnClose c
    | handlerReturn c | candidate c k i | stateFailed c k | rLock k m | check k m | rUnlock k m
    | writeOk c m | writeFail c m | pingFail c | recvClosed c | writeClose c =>
      exact ⟨hd.register, hd.infos, hd.leaves.of_frame (hstep (by simp)) rfl⟩
  all_goals
    simp only [guard, hrun] at g
    first
    | exact absurd g.1 (by simp)
    | cases g

/-- `Run` returns by releasing the lock at the end of its `done` branch. -/
theorem returned_step (g : s.guard a) (hrun : (s.effect a g).run = .returned) :
    s.run = .returned ∨ a = .unlock .done := by
  cases a
  case unlock w => cases w <;> first | exact .inr rfl | cases hrun
  case unregRUnlock c ok => cases ok <;> cases hrun
  case send k m => exact .inl (by simpa [effect] using hrun)
  all_goals first
    | exact .inl hrun
    | cases hrun

end Hub

variable [DecidableEq C] {h : List (Event C)} {s : Hub C}

/-- The run lemma for clients. -/
theorem downInv_of_reach {ok : Hub C → Action C → Prop} (hr : (hub C).Reach ok h s) :
    s.DownInv := by
  refine hr.invariant_of (I := fun _ s ↦ s.DownInv) (fun _ _ hr ↦ inv_of_reach hr) ?_ ?_
  · rintro _ rfl
    exact .new
  · rintro h s a g hi - hd -
    exact hd.step hi g.2

/-- The run lemma for channels. -/
theorem drained_of_reach (hr : (hub C).Reach Hub.Orderly h s) (hrun : s.run = .returned) :
    s.Drained := by
  revert hrun
  refine hr.invariant_of (I := fun _ s ↦ s.run = .returned → s.Drained)
    (fun _ _ hr ↦ (unregistered_or_done hr).2) ?_ ?_
  · rintro _ rfl hrun
    cases hrun
  · rintro h s a g hcl - ih hok hrun
    rcases Hub.returned_step g.2 hrun with hold | rfl
    · exact (ih hold).step hold (hcl (by rw [hold]; rfl)) g.2 hok
    · obtain ⟨hreg, hinfos, ho⟩ := hok
      exact ⟨hreg, hinfos, ho.of_frame (fun _ hl ↦ hl) rfl⟩

/-- Nobody leaves by itself, and `Run` returns with nothing pending. -/
def Hub.Loyal (s : Hub C) : Action C → Prop
  | .unlock .done => s.Register.buf = [] ∧ s.infos = []
  | .register _ => s.run ≠ .returned
  | .stateClosed _ _ | .statePeerClose _ _ => False
  | .checkClosed _ => s.done = true
  | _ => True

instance (s : Hub C) : ∀ a, Decidable (s.Loyal a) := by
  intro a
  apply Action.casesOn (motive := fun a ↦ Decidable (s.Loyal a)) a
  case unlock =>
      intro w
      apply Change.casesOn (motive := fun w ↦ Decidable (s.Loyal (.unlock w))) w <;>
        (intros; dsimp only [Hub.Loyal]; infer_instance)
  all_goals (intros; dsimp only [Hub.Loyal]; infer_instance)

/-- In such a run nobody ever waits to send on `Unregister`, so it is orderly. -/
theorem orderly_of_loyal (hr : (hub C).Reach Hub.Loyal h s) : (hub C).Reach Hub.Orderly h s := by
  refine hr.mono_of (J := fun s ↦ ∀ l, ¬ s.Leaving l) ?_ ?_
  · intro h s hr
    refine hr.invariant_state (I := fun s ↦ ∀ l, ¬ s.Leaving l) ?_ ?_
    · rintro _ rfl l hl
      cases l <;> cases hl
    · intro s a g ih hok l hl
      rcases Hub.leaving_step g.2 hl with hl | ⟨c, rfl, hd⟩ | ⟨c, k, rfl | rfl, -⟩
      · exact ih l hl
      · cases hd.symm.trans hok
      · exact hok
      · exact hok
  · intro s a hno hok
    cases a
    case unlock w =>
        cases w
        case done => exact ⟨hok.1, hok.2, .inr hno, fun l _ hl ↦ absurd hl (hno l)⟩
        all_goals trivial
    case stateClosed c k | statePeerClose c k => exact hok.elim
    case checkClosed c => trivial
    all_goals exact hok

/-- The stream is deleted. -/
def deleteSteps {C : Type u} : List (Action C) := [.unlist, .close]

/-- `Run` closes this client, which is the only one, and returns. -/
def closeOnly {C : Type u} (c : C) : List (Action C) :=
  [.recvDone, .announce .done, .lock .done, .doneConn c, .doneSend c, .doneEnd, .unlock .done]

end ITG.Webrtc
