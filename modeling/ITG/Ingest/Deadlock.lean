import ITG.Ingest.Lockstep

/-!
# Answered and unanswered commands

While the tasks take turns, the frame task gets back to its socket only if the command task
answers.  `Answered` counts commands and replies along a run: as long as no flag attribute with a
bad value was received, the command task waits for a command only when it has answered all
earlier ones.  After such an attribute nothing moves any more.  The two cases together give
`deadlock_free_iff`, which is an equivalence for every run.
-/

namespace ITG.Ingest

open ITG.Lib

/-- The command task received a command. -/
def Event.isReceived : Event → Bool
  | .received _ => true
  | _ => false

/-- The command task put a reply on `conn_send`. -/
def Event.isReplied : Event → Bool
  | .replied _ => true
  | _ => false

namespace Connection

/-- Both tasks wait for each other. -/
def Deadlocked (s : Connection) : Prop :=
  s.frame = .recv ∧ s.replies.buf = [] ∧ s.command = .recv ∧ s.commands.buf = []

instance (s : Connection) : Decidable s.Deadlocked := inferInstanceAs (Decidable (_ ∧ _))

/-- The commands received so far have been answered, up to the one being handled. -/
structure Answered (h : List Event) (s : Connection) : Prop where
  /-- If both tasks wait, a message is on its way to one of them. -/
  waiting : s.frame = .recv → s.command = .recv → s.inFlight ≠ 0
  recv : s.command = .recv → h.countP Event.isReplied = h.countP Event.isReceived
  handling : s.command.handling = 1 →
    h.countP Event.isReplied + 1 = h.countP Event.isReceived

variable {s : Connection} {a : Action} {h : List Event}

theorem Answered.not_deadlocked (ha : Answered h s) : ¬ s.Deadlocked := by
  rintro ⟨hf, hr, hc, hq⟩
  apply ha.waiting hf hc
  simp [inFlight, hr, hc, hq, CommandAt.handling]

/-- Nothing moves in a deadlock. -/
theorem Deadlocked.not_guard (hd : s.Deadlocked) : ¬ s.guard a := by
  obtain ⟨hf, hr, hc, hq⟩ := hd
  cases a <;> simp [guard, hf, hr, hc, hq]

/-- A step that leaves the command task where it is, and is no step of the channels to it. -/
theorem Answered.of_frame (ha : Answered h s) {k : List Event}
    (hp : k.countP Event.isReplied = 0) (hr : k.countP Event.isReceived = 0) {t : Connection}
    (hc : t.command = s.command)
    (hw : t.frame = .recv → t.command = .recv → t.inFlight ≠ 0) : Answered (h ++ k) t where
  waiting := hw
  recv hrec := by
    rw [List.countP_append, List.countP_append, hp, hr]
    exact ha.recv (hc ▸ hrec)
  handling hh := by
    rw [List.countP_append, List.countP_append, hp, hr]
    exact ha.handling (hc ▸ hh)

/-- A step of the command task between a command and its reply, or on its way out. -/
theorem Answered.of_command (ha : Answered h s) {k : List Event}
    (hp : k.countP Event.isReplied = 0) (hr : k.countP Event.isReceived = 0) {t : Connection}
    (hne : t.command ≠ .recv) (hh : t.command.handling = 1 → s.command.handling = 1) :
    Answered (h ++ k) t where
  waiting _ hrec := absurd hrec hne
  recv hrec := absurd hrec hne
  handling ht := by
    rw [List.countP_append, List.countP_append, hp, hr]
    exact ha.handling (hh ht)

/-- Receiving a command that is answered. -/
theorem Answered.recvCommand (ha : Answered h s) (hl : Lockstep s) {c : FtlCommand}
    {draw : Draw} (g : s.guard (.recvCommand c draw)) (hb : ¬ c.BadFlag) :
    Answered (h ++ emit (.recvCommand c draw)) (s.effect (.recvCommand c draw) g) := by
  have hc : c.Complete := hl.queued c (List.mem_of_mem_head? g.2)
  have hcount := ha.recv g.1
  rcases s.state.handle_cases draw hc with ⟨-, he⟩ | ⟨hbad, -⟩ | ⟨-, -, hh⟩
  · have hcmd : (s.effect (.recvCommand c draw) g).command = s.state.finish := congrArg Prod.snd he
    have hne := s.state.finish_ne_recv
    refine ⟨fun _ hr ↦ absurd (hcmd ▸ hr) hne, fun hr ↦ absurd (hcmd ▸ hr) hne, fun h1 ↦ ?_⟩
    rw [hcmd, ConnectionState.handling_finish] at h1
    cases h1
  · exact absurd hbad hb
  · have hne : (s.effect (.recvCommand c draw) g).command ≠ .recv := fun hr ↦ by
      change (s.state.handle draw c).2 = .recv at hr
      rw [hr] at hh
      cases hh
    refine ⟨fun _ hr ↦ absurd hr hne, fun hr ↦ absurd hr hne, fun _ ↦ ?_⟩
    simp [emit, List.countP_append, Event.isReceived, Event.isReplied, hcount]

/-- Sending a reply. -/
theorem Answered.reply (ha : Answered h s) {data : List String} {after : AfterReply}
    (g : s.guard (.reply data after)) :
    Answered (h ++ emit (.reply data after)) (s.effect (.reply data after) g) := by
  have hcount := ha.handling (by rw [g.1]; rfl)
  refine ⟨fun _ _ ↦ ?_, fun _ ↦ ?_, fun hh ↦ ?_⟩
  · simp [inFlight, effect]
  · simp [emit, List.countP_append, Event.isReceived, Event.isReplied, hcount]
  · cases after <;> cases hh

/-- The step lemma for runs without bad flags. -/
theorem Answered.step (ha : Answered h s) (hl : Lockstep s) (g : s.guard a)
    (hb : ∀ c, .received c ∈ emit a → ¬ c.BadFlag) : Answered (h ++ emit a) (s.effect a g) := by
  cases a with
  | decode =>
      refine ha.of_frame rfl rfl rfl fun hf ↦ ?_
      cases hd : (FtlCodec.decode s.buffer).1 <;> simp [effect, hd, FrameAt.afterDecode] at hf
  | read chunk => exact ha.of_frame rfl rfl rfl ha.waiting
  | eof | readError | sendCommandError c | recvReply data | recvReplyNone | write item items
    | writeError item items n | writeEnd => exact ha.of_frame rfl rfl rfl fun hf ↦ by cases hf
  | sendCommand c => exact ha.of_frame rfl rfl rfl fun _ _ ↦ by simp [inFlight, effect]
  | recvCommand c draw => exact ha.recvCommand hl g (hb c List.mem_cons_self)
  | recvCommandNone =>
      refine ha.of_command rfl rfl s.state.finish_ne_recv fun hh ↦ ?_
      simp [effect] at hh
  | notifyStart key ok =>
      have hc : s.command = .notifyStart key := g
      exact ha.of_command rfl rfl (fun hr ↦ by cases hr) fun _ ↦ by rw [hc]; rfl
  | allocate r =>
      have hc : s.command = .allocate := g
      refine ha.of_command rfl rfl ?_ fun _ ↦ by rw [hc]; rfl
      cases r with
      | none | some port =>
          intro hr
          cases hr
  | reply data after => exact ha.reply g
  | replyError data after =>
      have hf := hl.frame_of_handling (by rw [g.1]; rfl)
      rw [g.2] at hf
      cases hf
  | notifyEnd key ok =>
      refine ha.of_command rfl rfl s.state.release_ne_recv fun hh ↦ ?_
      simp [effect] at hh
  | freePort port => exact ha.of_command rfl rfl (fun hr ↦ by cases hr) fun hh ↦ by cases hh

/-- Receiving a flag attribute with a bad value. -/
theorem Lockstep.deadlocked_of_badFlag (hl : Lockstep s) {c : FtlCommand}
    {draw : Draw} (g : s.guard (.recvCommand c draw)) (hb : c.BadFlag) :
    (s.effect (.recvCommand c draw) g).Deadlocked := by
  have hq := Chan.buf_eq_cons g.2
  have hle := hl.le_one
  simp only [inFlight, hq, List.length_cons] at hle
  have hf : s.frame = .recv := hl.waiting (by simp only [inFlight, hq, List.length_cons]; omega)
  have hc : c.Complete := hl.queued c (List.mem_of_mem_head? g.2)
  have hr : s.replies.buf = [] := List.eq_nil_of_length_eq_zero (by omega)
  have hpop : s.commands.pop.buf = [] := List.eq_nil_of_length_eq_zero (by omega)
  refine ⟨hf, hr, ?_, hpop⟩
  rcases s.state.handle_cases draw hc with ⟨rfl, -⟩ | ⟨-, he⟩ | ⟨hn, -, -⟩
  · exact hb.elim
  · exact congrArg Prod.snd he
  · exact absurd hb hn

end Connection

/-! ## Runs -/

variable {h : List Event} {s : Connection} {ok : Connection → Action → Prop}

/-- The run lemma: all commands are answered, or the run has ended in a deadlock after a flag
attribute with a bad value. -/
theorem answered_or_deadlocked (hr : connection.Reach ok h s) :
    ((∀ c, .received c ∈ h → ¬ c.BadFlag) ∧ s.Answered h) ∨
      (∃ c, .received c ∈ h ∧ c.BadFlag) ∧ s.Deadlocked := by
  refine hr.invariant_of
    (I := fun h s ↦ ((∀ c, .received c ∈ h → ¬ c.BadFlag) ∧ s.Answered h) ∨
      (∃ c, .received c ∈ h ∧ c.BadFlag) ∧ s.Deadlocked)
    (fun _ _ hr ↦ lockstep_of_reach hr) ?_ ?_
  · rintro _ rfl
    exact .inl ⟨fun c hc ↦ absurd hc List.not_mem_nil, nofun, fun _ ↦ rfl, nofun⟩
  · rintro h s a g hl - (⟨hn, ha⟩ | ⟨-, hd⟩) -
    · by_cases hb : ∃ c, .received c ∈ Connection.emit a ∧ c.BadFlag
      · obtain ⟨c, hc, hbad⟩ := hb
        have hdead : (s.effect a g).Deadlocked := by
          cases a <;> simp [Connection.emit] at hc
          subst hc
          exact hl.deadlocked_of_badFlag g hbad
        exact .inr ⟨⟨c, List.mem_append_right _ hc, hbad⟩, hdead⟩
      · refine .inl ⟨fun c hc ↦ ?_, ha.step hl g fun c hc hbad ↦ hb ⟨c, hc, hbad⟩⟩
        rcases List.mem_append.1 hc with hc | hc
        · exact hn c hc
        · exact fun hbad ↦ hb ⟨c, hc, hbad⟩
    · exact absurd g hd.not_guard

/-- **Deadlock freedom** of the two tasks, and when it holds: in every run, the tasks are not
waiting for each other, and the command task has answered every command it received before it
waits for the next, exactly if no flag attribute with a bad value was received. -/
theorem deadlock_free_iff (hr : connection.Reach connection.free h s) :
    (¬ s.Deadlocked ∧
      (s.command = .recv → h.countP Event.isReplied = h.countP Event.isReceived)) ↔
      ∀ c, .received c ∈ h → ¬ c.BadFlag := by
  rcases answered_or_deadlocked hr with ⟨hn, ha⟩ | ⟨⟨c, hc, hb⟩, hd⟩
  · exact ⟨fun _ ↦ hn, fun _ ↦ ⟨ha.not_deadlocked, ha.recv⟩⟩
  · exact ⟨fun h ↦ absurd hd h.1, fun hn ↦ absurd hb (hn c hc)⟩

/-- A client that switches its video on and waits. -/
theorem deadlock_free_video :
    ∃ h s, connection.Reach connection.free h s ∧ s.frame = .next ∧ ¬ s.Deadlocked ∧
      h.countP Event.isReplied = h.countP Event.isReceived := by
  obtain ⟨h, s, hr, hh, hf, hc⟩ := connection.exists_of_exec connection.free
    (fun h s ↦ h = [.received (.attribute [("value", "true"), ("key", "Video")]),
        .replied [""], .executed [""], .wrote []] ∧ s.frame = .next ∧ s.command = .recv) rfl
    [.read (FtlCodec.encode "Video: true\r\n\r\n"), .decode,
      .sendCommand (.attribute [("value", "true"), ("key", "Video")]),
      .recvCommand (.attribute [("value", "true"), ("key", "Video")]) zeroDraw, .reply [""] .loop,
      .recvReply [""], .write "" [], .writeEnd]
    (by decide +kernel)
  have hgood : ∀ c, .received c ∈ h → ¬ c.BadFlag := by
    intro c hm hb
    obtain rfl : c = .attribute [("value", "true"), ("key", "Video")] := by simpa [hh] using hm
    obtain ⟨key, value, -, hv, -, ht, -⟩ := hb
    have hv : some "true" = some value := hv
    exact ht (Option.some.inj hv).symm
  obtain ⟨hd, hcount⟩ := (deadlock_free_iff hr).2 hgood
  exact ⟨h, s, hr, hf, hd, hcount hc⟩

/-- A value of `Video` that is no flag gets no reply: both tasks wait for each other. -/
theorem video_deadlock :
    ∃ h s, connection.Reach connection.free h s ∧ s.Deadlocked :=
  connection.exists_of_exec connection.free (fun _ s ↦ s.Deadlocked) rfl
    [.read (FtlCodec.encode "Video: yes\r\n\r\n"), .decode,
      .sendCommand (.attribute [("value", "yes"), ("key", "Video")]),
      .recvCommand (.attribute [("value", "yes"), ("key", "Video")]) zeroDraw]
    (by decide +kernel)

end ITG.Ingest
