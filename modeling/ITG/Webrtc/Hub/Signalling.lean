import ITG.Lib.History
import ITG.Webrtc.Hub.Safety

/-!
# Offers and candidates

A handler sends its offer, and the ICE-candidate callback its candidates, only if the client is
found in `Clients`.  The client gets there when `Run` takes it from `Register`, which the handler
does not wait for: while the registration is pending the look-up fails although the client is
alive, and the message is dropped (`lost_offer`).  Of two messages that are not dropped, the one
whose send is received first is on the wire first, and nothing makes that the offer
(`candidate_first`).

Both results below rest on one fact, `handed_or_removed`: a sender whose look-up was not made
while the registration was pending has handed its message over, or its client is past
`Life.member`.
-/

universe u

namespace ITG.Webrtc

open ITG.Lib

variable {C : Type u}

/-- The message of a sender that is past its send. -/
def SendAt.past : SendAt → Option Message
  | .rUnlock m => some m
  | .over m => m
  | .idle | .rLock _ | .check _ | .send _ => none

@[simp] theorem SendAt.past_called (i : Option ℕ) : (SendAt.called i).past = none := by
  cases i <;> rfl

theorem SendAt.message_of_past {p : SendAt} {m : Message} (h : p.past = some m) :
    p.message = some m := by
  cases p <;> simp_all [past, message]

/-- The message that `Run` broadcasts. -/
def RunAt.casting : RunAt C → Option Message
  | .castRLock m | .castNext m _ | .castSend m _ _ => some m
  | _ => none

/-- The program points of the `done` branch. -/
def RunAt.closing : RunAt C → Bool
  | .wantLock .done | .waitLock .done | .locked .done | .doneClose _ | .unlock .done
  | .returned => true
  | _ => false

namespace Hub

/-- The registration of a client has been sent and `Run` has not inserted it yet. -/
def Pending (s : Hub C) (c : C) : Prop := c ∈ s.Register.buf ∨ s.run.taking = some c

instance [DecidableEq C] (s : Hub C) (c : C) : Decidable (s.Pending c) :=
  inferInstanceAs (Decidable (_ ∨ _))

/-- The discipline under which nobody looks a client up while its registration is pending. -/
def LookUpInserted (s : Hub C) : Action C → Prop
  | .check k _ => ¬ s.Pending k.client
  | _ => True

/-- The discipline under which no handler looks its client up while the registration is pending,
and no callback finds its client before the offer step is past its send.  When the message of a
callback is received is left open. -/
def OfferBeforeCandidates (s : Hub C) : Action C → Prop
  | .check (.handler c) _ => ¬ s.Pending c
  | .check (.callback c _) _ => c ∈ s.Clients → (s.sender (.handler c)).past ≠ none
  | _ => True

variable [DecidableEq C] {s : Hub C} {a : Action C} {h : List (Event C)}

instance (s : Hub C) : ∀ a, Decidable (s.LookUpInserted a) := by
  intro a
  apply Action.casesOn (motive := fun a ↦ Decidable (s.LookUpInserted a)) a <;>
    (intros; dsimp only [LookUpInserted]; infer_instance)

instance (s : Hub C) : ∀ a, Decidable (s.OfferBeforeCandidates a) := by
  intro a
  apply Action.casesOn (motive := fun a ↦ Decidable (s.OfferBeforeCandidates a)) a
  case check =>
      intro k m
      apply Sender.casesOn
        (motive := fun k ↦ Decidable (s.OfferBeforeCandidates (.check k m))) k <;>
        (intros; dsimp only [OfferBeforeCandidates]; infer_instance)
  all_goals
    intros
    exact .isTrue trivial

/-- A client with a sender that looks it up has been sent on `Register`; if its registration is
not pending and it is not in `Clients`, it has been one and is one no longer. -/
theorem Inv.member_lt_of_check (hi : Inv s) {k : Sender C} {m : Message}
    (hk : s.sender k = .check m) (hp : ¬ s.Pending k.client) (hc : k.client ∉ s.Clients) :
    .member < s.life k.client := by
  have hf : s.life k.client ≠ .fresh := by
    rw [ne_eq, hi.life_eq_fresh, not_le]
    cases k with
    | handler c =>
        apply lt_of_not_ge
        intro hle
        have := hi.control.offerIdle c (hle.trans (by decide))
        simp [hk] at this
    | callback c j => exact lt_trans (by decide) (hi.control.callback c j (by simp [hk]))
  rw [Pending, not_or, ← hi.life_eq_queued, ← hi.life_eq_taken] at hp
  rw [← hi.life_eq_member] at hc
  cases hl : s.life k.client <;> simp +decide [hl] at hf hp hc ⊢

/-- How a sender gets past its send: it is there already, its look-up fails, or its message is
received. -/
theorem past_step (g : s.guard a) {k : Sender C} {m : Message}
    (hk : ((s.effect a g).sender k).past = some m) :
    (s.sender k).past = some m ∨ (a = .check k m ∧ k.client ∉ s.Clients) ∨ a = .send k m := by
  by_cases ha : a.sender? = some k
  · cases a
    case check k' m' =>
        cases ha
        by_cases hc : k.client ∈ s.Clients <;> simp [effect, hc, SendAt.past] at hk
        subst hk
        exact .inr (.inl ⟨rfl, hc⟩)
    case send k' m' =>
        cases ha
        simp only [effect, Function.update_self, SendAt.past, Option.some.injEq] at hk
        subst hk
        exact .inr (.inr rfl)
    case rUnlock k' m' =>
        cases ha
        have hs : s.sender k = .rUnlock m' := g
        rw [hs]
        exact .inl (by simpa [effect, SendAt.past] using hk)
    case candidate c i j =>
        cases ha
        simp [effect] at hk
    case setLocalDescription c | rLock k' m' =>
        cases ha
        simp [effect, SendAt.past] at hk
    all_goals cases ha
  · exact .inl (sender_frame g ha ▸ hk)

/-- An offer step that is past its send stays so. -/
theorem Inv.offer_past_step (hi : Inv s) (g : s.guard a) {c : C}
    (hp : (s.sender (.handler c)).past ≠ none) :
    ((s.effect a g).sender (.handler c)).past ≠ none := by
  by_cases ha : a.sender? = some (.handler c)
  · cases a
    case rUnlock k m =>
        cases ha
        simp [effect, SendAt.past]
    case rLock k m | send k m =>
        cases ha
        rw [g.1] at hp
        exact absurd rfl hp
    case check k m =>
        cases ha
        have hs : s.sender (.handler c) = .check m := g
        rw [hs] at hp
        exact absurd rfl hp
    case setLocalDescription d =>
        cases ha
        rw [hi.control.offerIdle c (le_of_eq g)] at hp
        exact absurd rfl hp
    all_goals cases ha
  · rwa [sender_frame g ha]

/-- Under the discipline a callback that is about to send its candidate has found its client after
the offer step was past its send. -/
theorem Inv.callback_after_offer_step (hi : Inv s) (g : s.guard a)
    (hok : s.OfferBeforeCandidates a) {c : C} {j : ℕ}
    (ih : ∀ m, s.sender (.callback c j) = .send m → (s.sender (.handler c)).past ≠ none)
    {m : Message} (hk : (s.effect a g).sender (.callback c j) = .send m) :
    ((s.effect a g).sender (.handler c)).past ≠ none := by
  by_cases ha : a.sender? = some (.callback c j)
  · cases a
    case check k m' =>
        cases ha
        by_cases hc : c ∈ s.Clients
        · exact hi.offer_past_step g (hok hc)
        · simp [effect, hc] at hk
    case candidate d i j' =>
        cases ha
        cases j' <;> simp [effect, SendAt.called] at hk
    case rLock k m' | send k m' | rUnlock k m' =>
        cases ha
        simp [effect] at hk
    all_goals cases ha
  · rw [sender_frame g ha] at hk
    exact hi.offer_past_step g (ih m hk)

/-- The step lemma for one sender that is not looking up a pending client. -/
theorem Inv.handed_step (hi : Inv s) (g : s.guard a) {k : Sender C}
    (hok : ∀ m, a = .check k m → ¬ s.Pending k.client)
    (ih : ∀ m, (s.sender k).past = some m →
      (.handed k m ∈ h ∧ .received k.client m ∈ h) ∨ .member < s.life k.client)
    {m : Message} (hk : ((s.effect a g).sender k).past = some m) :
    (.handed k m ∈ h ++ s.emit a ∧ .received k.client m ∈ h ++ s.emit a) ∨
      .member < (s.effect a g).life k.client := by
  have hmono := hi.life_mono g k.client
  rcases past_step g hk with hp | ⟨rfl, hc⟩ | rfl
  · rcases ih m hp with ⟨hh, hrec⟩ | hl
    · exact .inl ⟨List.mem_append_left _ hh, List.mem_append_left _ hrec⟩
    · exact .inr (lt_of_lt_of_le hl hmono)
  · exact .inr (lt_of_lt_of_le (hi.member_lt_of_check g (hok m rfl) hc) hmono)
  · have ho : s.sendClosed k.client = false := hi.sendClosed_of_sendingTo (.inr ⟨k, m, rfl, g.1⟩)
    exact .inl (by simp [emit, ho])

/-! ## Who leaves `Clients` -/

/-- Once `done` is closed it stays closed. -/
theorem done_mono (g : s.guard a) (hd : s.done = true) : (s.effect a g).done = true := by
  cases a <;> simp [effect, hd]

/-- `Run` is in its `done` branch only after `Close`. -/
theorem done_of_closing_step (g : s.guard a) (ih : s.run.closing = true → s.done = true)
    (hc : (s.effect a g).run.closing = true) : (s.effect a g).done = true := by
  cases a
  case recvDone => exact g.2
  case announce w | lock w =>
      rw [g.1] at ih
      cases w <;> exact ih hc
  case unlock w =>
      have hrun : s.run = .unlock w := g
      rw [hrun] at ih
      cases w
      case done => exact ih rfl
      all_goals cases hc
  case unregRUnlock c ok => cases ok <;> cases hc
  case doneConn c =>
      rw [g.1] at ih
      exact ih rfl
  case doneSend c =>
      have hrun : s.run = .doneClose c := g
      rw [hrun] at ih
      exact ih rfl
  case doneEnd =>
      rw [g.1] at ih
      exact ih rfl
  case send k m => simpa [effect] using ih (by simpa [effect] using hc)
  all_goals first
    | exact ih hc
    | cases hc
    | exact done_mono g (ih hc)

/-- Nothing gets `Run` out of its `done` branch. -/
theorem closing_step (g : s.guard a) (hc : s.run.closing = true) :
    (s.effect a g).run.closing = true := by
  cases a
  case announce w | lock w =>
      rw [g.1] at hc
      cases w <;> first | rfl | cases hc
  case unlock w =>
      have hrun : s.run = .unlock w := g
      rw [hrun] at hc
      cases w <;> first | rfl | cases hc
  case doneConn d | doneSend d | doneEnd => rfl
  case send k m => simpa [effect] using hc
  all_goals first
    | exact hc
    | (simp only [guard] at g; simp [g, RunAt.closing] at hc)

/-- A client that is past `Life.member` was unregistered, unless the hub was closed. -/
theorem Inv.unregistered_or_done_step (hi : Inv s) (g : s.guard a)
    (hcl : s.run.closing = true → s.done = true) {c : C}
    (ih : .member < s.life c → .unregistered c ∈ h ∨ s.done = true)
    (hl : .member < (s.effect a g).life c) :
    .unregistered c ∈ h ++ s.emit a ∨ (s.effect a g).done = true := by
  by_cases hlt : .member < s.life c
  · exact (ih hlt).imp (List.mem_append_left _) (done_mono g)
  · rcases hi.life_step g c with he | ⟨l, hm, he, hn⟩
    · exact absurd (he ▸ hl) hlt
    · cases a
      case delete d =>
          cases hm
          exact .inl (by simp [emit])
      case doneSend d =>
          have hrun : s.run = .doneClose d := g
          exact .inr (done_mono g (hcl (by rw [hrun]; rfl)))
      case sendClose d =>
          cases hm
          have hr : s.life c = .removed := hi.expects g
          exact absurd (hr ▸ (by decide : Life.member < .removed)) hlt
      case register d | recvRegister d | insert d =>
          cases hm
          exact absurd hl (by rw [he]; decide)
      all_goals cases hm

/-! ## What is received -/

/-- `Run` broadcasts nothing but the counts of `SendInfo`. -/
theorem info_of_casting_step (g : s.guard a)
    (ih : ∀ m, s.run.casting = some m → ∃ n, m = .info n) {m : Message}
    (hm : (s.effect a g).run.casting = some m) : ∃ n, m = .info n := by
  cases a
  case recvBroadcast n =>
      cases hm
      exact ⟨n, rfl⟩
  case castRLock m' | castPick m' c rest | castSend m' c rest =>
      cases hm
      exact ih _ (by rw [g.1]; rfl)
  case unlock w => cases w <;> cases hm
  case unregRUnlock c ok => cases ok <;> cases hm
  case send k m' => exact ih m (by simpa [effect] using hm)
  all_goals first
    | exact ih m hm
    | cases hm

/-- A candidate is received from a callback only. -/
theorem Inv.callback_of_received (hi : Inv s) (g : s.guard a)
    (hcast : ∀ m, s.run.casting = some m → ∃ n, m = .info n) {c : C} {i : ℕ}
    (he : .received c (.candidate i) ∈ s.emit a) :
    ∃ k, a = .send (.callback c k) (.candidate i) := by
  cases a
  case castSend m d rest =>
      obtain ⟨n, rfl⟩ := hcast m (by rw [g.1]; rfl)
      simp only [emit] at he
      split at he <;> simp at he
  case send k m =>
      simp only [emit] at he
      split at he
      · cases he
      · obtain ⟨rfl, rfl⟩ : c = k.client ∧ .candidate i = m := by simpa using he
        cases k with
        | callback d j => exact ⟨j, rfl⟩
        | handler d => cases hi.control.offerMsg d _ (by rw [g.1]; rfl)
  case unregRUnlock d ok => cases ok <;> simp [emit] at he
  all_goals simp [emit] at he

end Hub

variable [DecidableEq C] {ok : Hub C → Action C → Prop} {h : List (Event C)} {s : Hub C}

/-- The run lemma for one sender: if it never looks up a pending client, then once it is past
its send its message has been received, or its client is past `Life.member`. -/
theorem handed_or_removed (k : Sender C)
    (hok : ∀ s m, ok s (.check k m) → ¬ s.Pending k.client) (hr : (hub C).Reach ok h s) :
    ∀ m, (s.sender k).past = some m →
      (.handed k m ∈ h ∧ .received k.client m ∈ h) ∨ .member < s.life k.client := by
  refine hr.invariant_of
    (I := fun h s ↦ ∀ m, (s.sender k).past = some m →
      (.handed k m ∈ h ∧ .received k.client m ∈ h) ∨ .member < s.life k.client)
    (fun _ _ hr ↦ inv_of_reach hr) ?_ ?_
  · rintro _ rfl m hm
    cases hm
  · intro h s a g hi _ ih hs m hm
    refine hi.handed_step g.2 (fun m' ha ↦ ?_) ih hm
    subst ha
    exact hok s m' hs

/-- The run lemma for `Clients`: only an `Unregister` or `Close` takes a client past
`Life.member`. -/
theorem unregistered_or_done (hr : (hub C).Reach ok h s) :
    (∀ c, .member < s.life c → .unregistered c ∈ h ∨ s.done = true) ∧
      (s.run.closing = true → s.done = true) := by
  refine hr.invariant_of
    (I := fun h s ↦ (∀ c, .member < s.life c → .unregistered c ∈ h ∨ s.done = true) ∧
      (s.run.closing = true → s.done = true))
    (fun _ _ hr ↦ inv_of_reach hr) ?_ ?_
  · rintro _ rfl
    refine ⟨fun c hc ↦ ?_, fun hc ↦ nomatch hc⟩
    rw [Hub.Inv.new.life_eq_fresh.2 (show HandlerAt.idle ≤ .register by decide)] at hc
    exact absurd hc (by decide)
  · rintro h s a g hi - ⟨ih, hcl⟩ -
    exact ⟨fun c ↦ hi.unregistered_or_done_step g.2 hcl (ih c), Hub.done_of_closing_step g.2 hcl⟩

/-- **No lost signalling message**, when nobody looks a client up while its registration is
pending: unless the hub was closed or the client unregistered, a handler past its offer step has
handed over its offer, and a callback that has returned has handed over its candidate. -/
theorem no_lost_message (hr : (hub C).Reach Hub.LookUpInserted h s) (c : C)
    (hd : s.done = false) (hu : .unregistered c ∉ h) :
    (.offer < s.handler c → .handed (.handler c) .offer ∈ h) ∧
      ∀ k m, s.sender (.callback c k) = .over (some m) → .handed (.callback c k) m ∈ h := by
  have hmem : ¬ .member < s.life c := fun hl ↦ by
    rcases (unregistered_or_done hr).1 c hl with hc | hc
    · exact hu hc
    · simp [hd] at hc
  have hsent (k : Sender C) (hk : k.client = c) (m : Message)
      (hp : (s.sender k).past = some m) : .handed k m ∈ h :=
    (handed_or_removed k (fun _ _ hok ↦ hok) hr m hp).elim And.left fun hl ↦
      absurd (hk ▸ hl) hmem
  refine ⟨fun ho ↦ hsent _ rfl _ ?_, fun k m hk ↦ hsent _ rfl _ ?_⟩
  · rw [(inv_of_reach hr).control.offerOver c ho]
    rfl
  · rw [hk]
    rfl

/-- A viewer that is taken in before it negotiates gets its offer. -/
theorem no_lost_message_intake :
    ∃ h s, (hub ℕ).Reach Hub.LookUpInserted h s ∧ .offer < s.handler 0 ∧
      .handed (.handler 0) .offer ∈ h := by
  obtain ⟨h, s, hr, hd, hu, ho⟩ := (hub ℕ).exists_of_exec Hub.LookUpInserted
    (fun h s ↦ s.done = false ∧ .unregistered 0 ∉ h ∧ .offer < s.handler 0) rfl
    (connect 0 ++ intake 0 1 ++ negotiate 0 ++
      [Action.send (.handler 0) .offer, .rUnlock (.handler 0) .offer, .offerEnd 0])
    (by decide +kernel)
  exact ⟨h, s, hr, ho, (no_lost_message hr 0 hd hu).1 ho⟩

/-- The handler runs ahead of `Run`: its look-up fails, and the offer is lost although the client
is taken in afterwards and nothing goes wrong. -/
theorem lost_offer :
    ∃ h s, (hub ℕ).Reach (hub ℕ).free h s ∧ s.done = false ∧ .unregistered 0 ∉ h ∧
      s.writer 0 = .select ∧ 0 ∈ s.Clients ∧ .offer < s.handler 0 ∧
      .handed (.handler 0) .offer ∉ h ∧ .received 0 .offer ∉ h := by
  obtain ⟨h, s, hr, hs⟩ := (hub ℕ).exists_of_exec (hub ℕ).free
    (fun h s ↦ s.done = false ∧ .unregistered 0 ∉ h ∧ s.writer 0 = .select ∧ 0 ∈ s.Clients ∧
      .offer < s.handler 0 ∧ .handed (.handler 0) .offer ∉ h ∧ .received 0 .offer ∉ h) rfl
    (connect 0 ++ negotiate 0 ++ [Action.rUnlock (.handler 0) .offer, .offerEnd 0] ++ intake 0 1)
    (by decide +kernel)
  exact ⟨h, s, hr, hs⟩

/-- The run lemma for broadcasts. -/
theorem info_of_casting (hr : (hub C).Reach ok h s) :
    ∀ m, s.run.casting = some m → ∃ n, m = .info n := by
  refine hr.invariant_state (I := fun s ↦ ∀ m, s.run.casting = some m → ∃ n, m = .info n) ?_ ?_
  · rintro _ rfl m hm
    cases hm
  · intro s a g ih _ m hm
    exact Hub.info_of_casting_step g.2 ih hm

/-- The run lemma for callbacks: what is in the middle of its send has looked its client up late. -/
theorem callback_after_offer (hr : (hub C).Reach Hub.OfferBeforeCandidates h s) (c : C) (j : ℕ) :
    ∀ m, s.sender (.callback c j) = .send m → (s.sender (.handler c)).past ≠ none := by
  refine hr.invariant_of
    (I := fun _ s ↦ ∀ m, s.sender (.callback c j) = .send m → (s.sender (.handler c)).past ≠ none)
    (fun _ _ hr ↦ inv_of_reach hr) ?_ ?_
  · rintro _ rfl m hm
    cases hm
  · rintro h s a g hi - ih hok m hm
    exact hi.callback_after_offer_step g.2 hok ih hm

/-- **The offer comes first**, when handlers do not look up pending clients, and callbacks look
their clients up only after the offer step is past its send: of the messages received from
`c.Send`, every candidate is preceded by the offer. -/
theorem offer_before_candidates (hr : (hub C).Reach Hub.OfferBeforeCandidates h s) (c : C) :
    PrecededBy (· = .received c .offer) (fun e ↦ ∃ i, e = .received c (.candidate i)) h := by
  refine hr.invariant_of
    (I := fun h _ ↦ PrecededBy (· = .received c .offer)
      (fun e ↦ ∃ i, e = .received c (.candidate i)) h)
    (fun _ _ hr ↦ And.intro (inv_of_reach hr) (And.intro (info_of_casting hr)
      (And.intro (handed_or_removed (.handler c) (fun _ _ hok ↦ hok) hr)
        (callback_after_offer hr c)))) (fun _ _ ↦ .nil) ?_
  rintro h s a g ⟨hi, hcast, hsent, hlate⟩ - ih -
  apply ih.append
  rintro _ he ⟨i, rfl⟩
  obtain ⟨k, rfl⟩ := hi.callback_of_received g.2 hcast he
  obtain ⟨m, hm⟩ := Option.ne_none_iff_exists'.1 (hlate k _ g.2.1)
  obtain rfl : m = .offer := hi.control.offerMsg c m (SendAt.message_of_past hm)
  refine ⟨_, (hsent _ hm).elim And.right fun hl ↦ ?_, rfl⟩
  exact absurd (hi.sending _ _ g.2.1) hl.ne'

/-- A candidate that is gathered while the offer is being sent, and waits for it. -/
theorem offer_before_candidates_wait :
    ∃ h s, (hub ℕ).Reach Hub.OfferBeforeCandidates h s ∧ .received 0 (.candidate 7) ∈ h ∧
      .received 0 .offer ∈ h := by
  obtain ⟨h, s, hr, hs⟩ := (hub ℕ).exists_of_exec Hub.OfferBeforeCandidates
    (fun h _ ↦ .received 0 (.candidate 7) ∈ h) rfl
    (connect 0 ++ intake 0 1 ++ negotiate 0 ++
      [Action.candidate 0 0 (some 7), .rLock (.callback 0 0) (.candidate 7),
        .send (.handler 0) .offer, .writeOk 0 .offer, .check (.callback 0 0) (.candidate 7),
        .send (.callback 0 0) (.candidate 7)])
    (by decide +kernel)
  obtain ⟨_, hd, rfl⟩ := (offer_before_candidates hr 0).exists_of_mem hs ⟨7, rfl⟩
  exact ⟨h, s, hr, hs, hd⟩

/-- The callback fires before the handler's offer step has looked its client up, and the
candidate is received first. -/
theorem candidate_first :
    ∃ h s, (hub ℕ).Reach (hub ℕ).free h s ∧
      ¬ PrecededBy (· = .received 0 .offer) (fun e ↦ ∃ i, e = .received 0 (.candidate i)) h := by
  obtain ⟨h, s, hr, hs, ho⟩ := (hub ℕ).exists_of_exec (hub ℕ).free
    (fun h _ ↦ .received 0 (.candidate 7) ∈ h ∧ .received 0 .offer ∉ h) rfl
    (connect 0 ++ [Action.onICECandidate 0, .onConnectionStateChange 0] ++ intake 0 1 ++
      [Action.setLocalDescription 0, .candidate 0 0 (some 7), .rLock (.callback 0 0) (.candidate 7),
        .check (.callback 0 0) (.candidate 7), .send (.callback 0 0) (.candidate 7)])
    (by decide +kernel)
  refine ⟨h, s, hr, fun hp ↦ ho ?_⟩
  obtain ⟨_, hd, rfl⟩ := hp.exists_of_mem hs ⟨7, rfl⟩
  exact hd

end ITG.Webrtc
