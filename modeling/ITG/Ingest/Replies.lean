import ITG.Ingest.Deadlock
import ITG.Ingest.Ports
import ITG.Lib.Dialogue

/-!
# Commands and replies

What a streamer sees of a connection is a dialogue: it sends a command, and the line it reads next
is the answer.  Nothing in the source says so.  A reply is a list of items that is reversed and
popped, and it passes through a channel with room for two; an attribute is answered with an empty
text.

`connection_refines_dialogue` shows that the two tasks carry on a dialogue in the sense of
`ITG.Lib.dialogue`, because they take turns (`Lockstep`).  `replies_match` draws the conclusions: no
reply is lost, repeated or put before another, what is written to the socket is the items of the
replies in order, and the lines of that are the answers to the commands that have one.
-/

namespace ITG.Ingest

open ITG.Lib

/-- The reply `data` answers the command. -/
inductive Answers : FtlCommand → List String → Prop where
  | hmac (draw : Draw) : Answers .hmac ["200 ", generateHmac draw, "\n"]
  | connect (data : Data) : Answers (.connect data) ["200\n"]
  | announced (port : UInt16) : Answers .dot [announcement port]
  | failed : Answers .dot [allocationFailed]
  | attribute (data : Data) : Answers (.attribute data) [""]
  | ping : Answers .ping ["201\n"]

/-- The part of an event in the dialogue. -/
def Event.turn? : Event → Option (Turn FtlCommand (List String))
  | .received c => some (.ask c)
  | .replied data => some (.answer data)
  | .executed data => some (.take data)
  | _ => none

/-- The command task is on its way to a reply to this command. -/
def CommandAt.Answering (c : FtlCommand) : CommandAt → Prop
  | .notifyStart _ => ∃ data, c = .connect data
  | .allocate => c = .dot
  | .reply data _ => Answers c data
  | .recv | .notifyEnd _ | .freePort _ | .returned => False

theorem CommandAt.Answering.handling {c : FtlCommand} {p : CommandAt} (h : p.Answering c) :
    p.handling = 1 := by
  cases p <;> first | rfl | exact h.elim

/-- A command that is taken up and leads to a reply leads to one that answers it. -/
theorem ConnectionState.answering_handle {s : ConnectionState} {draw : Draw}
    {c : FtlCommand} (h : (s.handle draw c).2.handling = 1) : (s.handle draw c).2.Answering c := by
  cases c with
  | hmac => exact .hmac draw
  | ping => exact .ping
  | disconnect => cases s.handling_finish.symm.trans h
  | dot =>
      simp only [handle]
      split
      · exact .announced _
      · rfl
  | connect data =>
      simp only [handle] at h ⊢
      split at h
      · exact ⟨data, rfl⟩
      · cases h
  | «attribute» data =>
      simp only [handle] at h ⊢
      split at h
      · split at h
        · exact .attribute data
        · cases h
      · cases h

namespace Connection

/-- The connection is where the dialogue is. -/
def InDialogue (s : Connection) : Dialogue FtlCommand (List String) → Prop
  | .idle => s.replies.buf = [] ∧ s.command.handling = 0
  | .asked c => s.replies.buf = [] ∧ (s.command.Answering c ∨
      -- no answer will come: the task is on its way out, or both tasks are stuck
      s.command.handling = 0 ∧ (s.command ≠ .recv ∨ s.Deadlocked))
  | .answered c data => s.replies.buf = [data] ∧ Answers c data ∧ s.command.handling = 0

variable {s t : Connection} {a : Action} {d : Dialogue FtlCommand (List String)}

/-- A step of the frame task that receives no reply. -/
theorem InDialogue.of_frame (hd : s.InDialogue d) (g : s.guard a) (hr : t.replies = s.replies)
    (hc : t.command = s.command) : t.InDialogue d := by
  cases d with
  | idle | answered c data => rwa [InDialogue, hr, hc]
  | asked c =>
      obtain ⟨hb, ha | ⟨hh, hw | hdead⟩⟩ := hd
      · exact ⟨hr ▸ hb, .inl (hc ▸ ha)⟩
      · exact ⟨hr ▸ hb, .inr ⟨hc ▸ hh, .inl (hc ▸ hw)⟩⟩
      · exact absurd g hdead.not_guard

/-- A step of the command task on its way out. -/
theorem InDialogue.of_leaving (hd : s.InDialogue d) (hr : t.replies = s.replies)
    (hh : t.command.handling = 0) (hne : t.command ≠ .recv) : t.InDialogue d := by
  cases d with
  | idle => exact ⟨hr ▸ hd.1, hh⟩
  | answered c data => exact ⟨hr ▸ hd.1, hd.2.1, hh⟩
  | asked c => exact ⟨hr ▸ hd.1, .inr ⟨hh, .inl hne⟩⟩

/-- A task that is on its way to a reply has been asked for it. -/
theorem InDialogue.asked (hd : s.InDialogue d) (hh : s.command.handling = 1) :
    s.replies.buf = [] ∧ ∃ c, d = .asked c ∧ s.command.Answering c := by
  cases d with
  | idle => cases hd.2.symm.trans hh
  | answered c data => cases hd.2.2.symm.trans hh
  | asked c => exact ⟨hd.1, c, rfl, hd.2.resolve_right fun h ↦ by cases h.1.symm.trans hh⟩

/-- A task that takes a command up finds the dialogue idle. -/
theorem InDialogue.idle_of_recv (hd : s.InDialogue d) (hl : Lockstep s) {c : FtlCommand}
    {draw : Draw} (g : s.guard (.recvCommand c draw)) : d = .idle := by
  have hb := Chan.buf_eq_cons g.2
  have hle := hl.le_one
  simp only [inFlight, hb, List.length_cons] at hle
  cases d with
  | idle => rfl
  | answered c' data =>
      rw [hd.1, List.length_singleton] at hle
      omega
  | asked c' =>
      rcases hd.2 with ha | ⟨-, hne | hdead⟩
      · rw [g.1] at ha
        exact ha.elim
      · exact absurd g.1 hne
      · exact absurd g hdead.not_guard

/-- A command is taken up: the dialogue has been asked it. -/
theorem InDialogue.recvCommand (hl : Lockstep s) (hd : s.InDialogue .idle) {c : FtlCommand}
    {draw : Draw} (g : s.guard (.recvCommand c draw)) :
    (s.effect (.recvCommand c draw) g).InDialogue (.asked c) := by
  refine ⟨hd.1, ?_⟩
  have hc : c.Complete := hl.queued c (List.mem_of_mem_head? g.2)
  rcases s.state.handle_cases draw hc with ⟨-, he⟩ | ⟨hbad, he⟩ | ⟨-, -, hh⟩
  · have hcmd : (s.effect (.recvCommand c draw) g).command = s.state.finish := congrArg Prod.snd he
    rw [hcmd]
    exact .inr ⟨s.state.handling_finish, .inl s.state.finish_ne_recv⟩
  · have hcmd : (s.effect (.recvCommand c draw) g).command = .recv := congrArg Prod.snd he
    rw [hcmd]
    exact .inr ⟨rfl, .inr (hl.deadlocked_of_badFlag g hbad)⟩
  · exact .inl (ConnectionState.answering_handle hh)

/-- The reply that the frame task takes is the answer of the dialogue. -/
theorem InDialogue.answered_of_recv (hd : s.InDialogue d) {data : List String}
    (hb : s.replies.buf.head? = some data) : ∃ c, d = .answered c data := by
  cases d with
  | idle | asked c =>
      rw [hd.1] at hb
      cases hb
  | answered c data' =>
      rw [hd.1] at hb
      cases hb
      exact ⟨c, rfl⟩

/-- The step lemma: a step of the two tasks is no turn, or one turn. -/
theorem InDialogue.step (hd : s.InDialogue d) (hl : Lockstep s) (g : s.guard a) :
    ((s.effect a g).InDialogue d ∧ (emit a).filterMap Event.turn? = []) ∨
      ∃ t, d.guard Answers t ∧ (s.effect a g).InDialogue (d.next t) ∧
        (emit a).filterMap Event.turn? = [t] := by
  cases a with
  | decode | read chunk | eof | readError | sendCommand c | sendCommandError c
    | recvReplyNone | write item items | writeError item items n | writeEnd =>
      exact .inl ⟨hd.of_frame g rfl rfl, rfl⟩
  | recvReply data =>
      obtain ⟨c, rfl⟩ := hd.answered_of_recv g.2
      obtain ⟨hb, -, hh⟩ := hd
      refine .inr ⟨.take data, rfl, ⟨?_, hh⟩, rfl⟩
      change s.replies.pop.buf = []
      rw [Chan.buf_pop, hb]
      rfl
  | recvCommand c draw =>
      obtain rfl := hd.idle_of_recv hl g
      exact .inr ⟨.ask c, trivial, hd.recvCommand hl g, rfl⟩
  | recvCommandNone =>
      exact .inl ⟨hd.of_leaving rfl s.state.handling_finish s.state.finish_ne_recv, rfl⟩
  | notifyStart key ok =>
      have hc : s.command = .notifyStart key := g
      obtain ⟨hb, c, rfl, ha⟩ := hd.asked (by rw [hc]; rfl)
      rw [hc] at ha
      obtain ⟨data, rfl⟩ := ha
      exact .inl ⟨⟨hb, .inl (.connect data)⟩, rfl⟩
  | allocate r =>
      have hc : s.command = .allocate := g
      obtain ⟨hb, c, rfl, ha⟩ := hd.asked (by rw [hc]; rfl)
      rw [hc] at ha
      obtain rfl : c = .dot := ha
      refine .inl ⟨⟨hb, .inl ?_⟩, rfl⟩
      cases r with
      | none => exact .failed
      | some port => exact .announced port
  | reply data after =>
      obtain ⟨hb, c, rfl, ha⟩ := hd.asked (by rw [g.1]; rfl)
      rw [g.1] at ha
      have hans : Answers c data := ha
      refine .inr ⟨.answer data, hans, ⟨?_, hans, ?_⟩, rfl⟩
      · change s.replies.buf ++ [data] = [data]
        rw [hb]
        rfl
      · cases after <;> rfl
  | replyError data after =>
      have hf := hl.frame_of_handling (by rw [g.1]; rfl)
      rw [g.2] at hf
      cases hf
  | notifyEnd key ok =>
      exact .inl ⟨hd.of_leaving rfl s.state.handling_release s.state.release_ne_recv, rfl⟩
  | freePort port => exact .inl ⟨hd.of_leaving rfl rfl nofun, rfl⟩

end Connection

/-- **The connection refines the dialogue**: its two tasks, with the channels between them, carry
on a dialogue in which commands are answered. -/
theorem connection_refines_dialogue {ok : Connection → Action → Prop} :
    Simulation connection ok (dialogue Answers) (dialogue Answers).free
      (fun s d ↦ s.Lockstep ∧ s.InDialogue d) Event.turn? where
  init := by
    rintro _ rfl
    exact ⟨.idle, rfl, .new, rfl, rfl⟩
  step := by
    rintro s d a g ⟨hl, hd⟩ -
    have hl' : (s.effect a g).Lockstep := hl.step g
    rcases hd.step hl g with ⟨hd', he⟩ | ⟨t, gt, hd', he⟩
    · exact .inl ⟨⟨hl', hd'⟩, he⟩
    · exact .inr ⟨t, trivial, gt, ⟨hl', hd'⟩, he⟩

/-! ## Lines -/

/-- The bytes that a reply is to send. -/
def replyBytes (data : List String) : List UInt8 := data.flatMap FtlCodec.encode

/-- An attribute is answered without a line. -/
def FtlCommand.isAttribute : FtlCommand → Bool
  | .attribute _ => true
  | .hmac | .connect _ | .ping | .dot | .disconnect => false

/-- The bytes are those of one line, with its end. -/
def IsLine (bytes : List UInt8) : Prop := ∃ line, 10 ∉ line ∧ bytes = line ++ [10]

theorem isLine_replyBytes {data : List String} (cs : List Char) (hcs : '\n' ∉ cs)
    (h : data.flatMap String.toList = cs ++ ['\n']) : IsLine (replyBytes data) := by
  refine ⟨Utf8.encode cs, fun hm ↦ ?_, ?_⟩
  · exact hcs (Utf8.ascii_mem_encode (d := '\n') (by decide) hm)
  · have hb : replyBytes data = Utf8.encode (data.flatMap String.toList) := by
      rw [Utf8.encode, List.flatMap_assoc]
      rfl
    rw [hb, h, Utf8.encode_append]
    rfl

theorem newline_notMem_repr (n : ℕ) : '\n' ∉ n.repr.toList := by
  intro hm
  rw [Nat.toList_repr] at hm
  have hd := Nat.isDigit_of_mem_toDigits (by decide) (by decide) hm
  revert hd
  decide

/-- An attribute is answered with no byte, any other command with one line. -/
theorem Answers.replyBytes {c : FtlCommand} {data : List String} (h : Answers c data) :
    if c.isAttribute then replyBytes data = [] else IsLine (replyBytes data) := by
  cases h with
  | «attribute» => rfl
  | ping => exact isLine_replyBytes "201".toList (by decide +kernel) (by decide +kernel)
  | connect => exact isLine_replyBytes "200".toList (by decide +kernel) (by decide +kernel)
  | failed =>
      exact isLine_replyBytes "500 failed to allocate port".toList (by decide +kernel)
        (by decide +kernel)
  | hmac draw =>
      refine isLine_replyBytes ("200 ".toList ++ (generateHmac draw).toList) (fun hm ↦ ?_) ?_
      · rcases List.mem_append.1 hm with hm | hm
        · revert hm
          decide +kernel
        · exact draw.newline_notMem _ hm
      · simp
  | announced port =>
      refine isLine_replyBytes
        ("200 hi. Use UDP port ".toList ++ port.toNat.repr.toList) (fun hm ↦ ?_) ?_
      · rcases List.mem_append.1 hm with hm | hm
        · revert hm
          decide +kernel
        · exact newline_notMem_repr _ hm
      · simp [toList_announcement]

/-- The lines of the answers in a dialogue are those of the commands that are no attributes. -/
theorem lines_replies {rounds : List (FtlCommand × List String)}
    (h : ∀ r ∈ rounds, Answers r.1 r.2) :
    lines 10 [] (rounds.flatMap fun r ↦ replyBytes r.2) =
      (rounds.filter fun r ↦ !r.1.isAttribute).map fun r ↦ (replyBytes r.2).dropLast := by
  induction rounds with
  | nil => rfl
  | cons r rounds ih =>
      have ih := ih fun r hr ↦ h r (List.mem_cons_of_mem _ hr)
      have hr := (h r List.mem_cons_self).replyBytes
      rw [List.flatMap_cons]
      split at hr
      · rename_i hattr
        rw [hr, List.nil_append, ih, List.filter_cons_of_neg (by simp [hattr])]
      · rename_i hattr
        obtain ⟨line, hline, hb⟩ := hr
        rw [List.filter_cons_of_pos (by simp [hattr]), List.map_cons, ← ih, hb, List.append_assoc]
        rw [List.singleton_append, lines_append_cons hline, List.nil_append, List.dropLast_concat]

/-! ## What is written -/

/-- The bytes that an event writes to the socket. -/
def Event.bytes : Event → List UInt8
  | .wrote bytes => bytes
  | _ => []

/-- The bytes that an event adds to those that are to be written. -/
def Event.due : Event → List UInt8
  | .executed data => replyBytes data
  | _ => []

/-- All bytes that were written to the socket. -/
def written (h : List Event) : List UInt8 := h.flatMap Event.bytes

/-- All bytes of the replies that the frame task took. -/
def due (h : List Event) : List UInt8 := h.flatMap Event.due

/-- What the loop of `handle_frame_command` has yet to send. -/
def FrameAt.unsent : FrameAt → List UInt8
  | .writing items => replyBytes items
  | .next | .sending _ | .recv | .returned => []

/-- The commands that the frame task has decoded and handed over. -/
def sent (as : List Action) : List FtlCommand :=
  as.filterMap fun
    | .sendCommand c => some c
    | _ => none

/-- The commands that the command task has received. -/
def received (as : List Action) : List FtlCommand :=
  as.filterMap fun
    | .recvCommand c _ => some c
    | _ => none

/-- The events of a run, from its actions. -/
def events (as : List Action) : List Event := as.flatMap Connection.emit

/-- The action is a write that fails. -/
def Action.IsWriteError (a : Action) : Prop := ∃ item items n, a = .writeError item items n

namespace Connection

variable {s : Connection} {a : Action} {as : List Action}

/-- What is due is written or left to write, step by step. -/
theorem written_step (g : s.guard a) (hw : ¬ a.IsWriteError) :
    s.frame.unsent ++ due (emit a) = written (emit a) ++ (s.effect a g).frame.unsent := by
  cases a with
  | writeError item items n => exact absurd ⟨item, items, n, rfl⟩ hw
  | decode =>
      rw [g.1]
      cases hd : (FtlCodec.decode s.buffer).1 <;>
        simp [effect, hd, FrameAt.afterDecode, FrameAt.unsent, due, written, emit]
  | eof | readError | sendCommand c | sendCommandError c | recvReplyNone =>
      rw [g.1]
      rfl
  | recvReply data =>
      rw [g.1]
      simp [effect, FrameAt.unsent, due, written, emit, Event.due, Event.bytes]
  | write item items =>
      have hf : s.frame = .writing (item :: items) := g
      rw [hf]
      simp [effect, FrameAt.unsent, due, written, emit, Event.due, Event.bytes, replyBytes]
  | writeEnd =>
      have hf : s.frame = .writing [] := g
      rw [hf]
      rfl
  | read chunk | recvCommand c draw | recvCommandNone | notifyStart key ok | allocate r
    | reply data after | replyError data after | notifyEnd key ok | freePort port =>
      simp [effect, due, written, emit, Event.due, Event.bytes]

/-- A frame task that has returned writes nothing, and stays where it is. -/
theorem returned_step (g : s.guard a) (hf : s.frame = .returned) :
    (s.effect a g).frame = .returned ∧ written (emit a) = [] := by
  cases a with
  | decode | read chunk | eof | readError | sendCommand c | sendCommandError c | recvReply data
    | recvReplyNone | writeError item items n => cases hf.symm.trans g.1
  | write item items | writeEnd => cases hf.symm.trans g
  | recvCommand c draw | recvCommandNone | notifyStart key ok | allocate r | reply data after
    | replyError data after | notifyEnd key ok | freePort port => exact ⟨hf, rfl⟩

/-- Commands arrive in the order in which they are sent, and what is due is written. -/
structure Delivered (as : List Action) (s : Connection) : Prop where
  fifo : sent as = received as ++ s.commands.buf
  written_prefix : written (events as) <+: due (events as)
  /-- Only a write that failed has lost bytes, and it has ended the task. -/
  exact : s.frame ≠ .returned ∨ (∀ a ∈ as, ¬ a.IsWriteError) →
    due (events as) = written (events as) ++ s.frame.unsent

theorem Delivered.new : Delivered [] new where
  fifo := rfl
  written_prefix := List.nil_prefix
  exact _ := rfl

/-- The step lemma for the order of the commands. -/
theorem fifo_step (g : s.guard a) (h : sent as = received as ++ s.commands.buf) :
    sent (as ++ [a]) = received (as ++ [a]) ++ (s.effect a g).commands.buf := by
  have hs : sent (as ++ [a]) = sent as ++ sent [a] := List.filterMap_append
  have hr : received (as ++ [a]) = received as ++ received [a] := List.filterMap_append
  rw [hs, hr, h, List.append_assoc, List.append_assoc]
  congr 1
  cases a with
  | recvCommand c draw =>
      change s.commands.buf ++ [] = c :: s.commands.pop.buf
      rw [List.append_nil, ← Chan.buf_eq_cons g.2]
  | sendCommand c => rfl
  | decode | read chunk | eof | readError | sendCommandError c | recvReply data | recvReplyNone
    | write item items | writeError item items n | writeEnd | recvCommandNone
    | notifyStart key ok | allocate r | reply data after | replyError data after
    | notifyEnd key ok | freePort port => exact List.append_nil _

/-- The step lemma. -/
theorem Delivered.step (hd : Delivered as s) (g : s.guard a) :
    Delivered (as ++ [a]) (s.effect a g) := by
  have hev : events (as ++ [a]) = events as ++ emit a := by simp [events]
  have hw : written (events (as ++ [a])) = written (events as) ++ written (emit a) := by
    rw [hev, written, List.flatMap_append, ← written, ← written]
  have hdue : due (events (as ++ [a])) = due (events as) ++ due (emit a) := by
    rw [hev, due, List.flatMap_append, ← due, ← due]
  refine ⟨fifo_step g hd.fifo, ?_, fun hcond ↦ ?_⟩
  · rw [hw, hdue]
    by_cases hf : s.frame = .returned
    · rw [(returned_step g hf).2, List.append_nil]
      exact hd.written_prefix.trans (List.prefix_append _ _)
    rw [hd.exact (.inl hf), List.append_assoc, List.prefix_append_right_inj]
    by_cases hwe : a.IsWriteError
    · obtain ⟨item, items, n, rfl⟩ := hwe
      have hfr : s.frame = .writing (item :: items) := g.1
      rw [hfr]
      simpa [written, emit, Event.bytes, FrameAt.unsent, replyBytes] using
        (List.take_prefix _ _).trans (List.prefix_append _ _)
    · rw [written_step g hwe]
      exact List.prefix_append _ _
  · have hprev : s.frame ≠ .returned ∨ ∀ a ∈ as, ¬ a.IsWriteError :=
      hcond.imp (fun hne hf ↦ hne (returned_step g hf).1)
        fun hall b hb ↦ hall b (List.mem_append_left _ hb)
    have hwe : ¬ a.IsWriteError := by
      rintro ⟨item, items, n, rfl⟩
      rcases hcond with hne | hall
      · exact hne rfl
      · exact hall _ (List.mem_append_right _ List.mem_cons_self) ⟨item, items, n, rfl⟩
    rw [hw, hdue, hd.exact hprev, List.append_assoc, List.append_assoc, written_step g hwe]

end Connection

variable {ok : Connection → Action → Prop} {as : List Action} {s : Connection}

/-- The run lemma. -/
theorem delivered_of_reach (hr : connection.traced.Reach ok as s) : s.Delivered as := by
  refine hr.invariant (I := fun as s ↦ s.Delivered as) ?_ ?_
  · rintro _ rfl
    exact .new
  · intro as s a g hd _
    exact hd.step g

/-- The requests of the dialogue are the commands that were received. -/
theorem asks_events (as : List Action) :
    ((events as).filterMap Event.turn?).filterMap Turn.ask? = received as := by
  induction as with
  | nil => rfl
  | cons a as ih =>
      have he : events (a :: as) = Connection.emit a ++ events as := rfl
      rw [he, List.filterMap_append, List.filterMap_append, ih]
      cases a <;> rfl

/-- What is due are the bytes of the answers that were taken. -/
theorem due_eq (h : List Event) :
    due h = ((h.filterMap Event.turn?).filterMap Turn.take?).flatMap replyBytes := by
  induction h with
  | nil => rfl
  | cons e h ih =>
      rw [due, List.flatMap_cons, ← due, ih]
      cases e <;> rfl

/-- **Commands and replies match** in every run of a connection.  At most one of them is on its
way.  What happens between the tasks is a sequence of complete rounds, and then at most one that is
not complete: a command is received, a reply that answers it is sent, that reply is executed.  The
commands of the rounds are those that the frame task decoded, in order.  What is written is the
items of the replies, in order, except that nothing follows a write that failed.  An attribute is
answered with no byte and any other command with one line, so the lines that the client reads answer
its commands that are no attributes, one by one. -/
theorem replies_match (hr : connection.traced.Reach ok as s) :
    s.commands.buf.length + s.replies.buf.length ≤ 1 ∧
    ∃ rounds d, Dialogue.Rounds Answers rounds ((events as).filterMap Event.turn?) d ∧
      rounds.map Prod.fst <+: sent as ∧
      written (events as) <+: rounds.flatMap (fun r ↦ replyBytes r.2) ∧
      (s.frame ≠ .returned ∨ (∀ a ∈ as, ¬ a.IsWriteError) →
        rounds.flatMap (fun r ↦ replyBytes r.2) = written (events as) ++ s.frame.unsent) ∧
      (∀ r ∈ rounds,
        if r.1.isAttribute then replyBytes r.2 = [] else IsLine (replyBytes r.2)) ∧
      ∀ (k : ℕ) line, (lines 10 [] (written (events as)))[k]? = some line →
        ∃ c data, ((sent as).filter fun c ↦ !c.isAttribute)[k]? = some c ∧ Answers c data ∧
          replyBytes data = line ++ [10] := by
  have hreach : connection.Reach ok (events as) s := hr.of_traced fun _ _ ↦ rfl
  have hle := (lockstep_of_reach hreach).le_one
  have hd := delivered_of_reach hr
  obtain ⟨d, hdr, -, -⟩ := connection_refines_dialogue.reach hreach
  obtain ⟨rounds, hrounds⟩ := Dialogue.rounds_of_reach hdr
  have hdue : due (events as) = rounds.flatMap fun r ↦ replyBytes r.2 := by
    rw [due_eq, hrounds.takes, List.flatMap_map]
  have hsent : rounds.map Prod.fst <+: sent as := by
    have hasks := hrounds.asks
    rw [asks_events] at hasks
    rw [hd.fifo]
    exact hasks.trans (List.prefix_append _ _)
  have hpre : written (events as) <+: rounds.flatMap fun r ↦ replyBytes r.2 :=
    hdue ▸ hd.written_prefix
  refine ⟨?_, rounds, d, hrounds, hsent, hpre, fun hcond ↦ hdue ▸ hd.exact hcond,
    fun r hr ↦ (hrounds.answered r hr).replyBytes, fun k line hline ↦ ?_⟩
  · simp only [Connection.inFlight] at hle
    omega
  · have hk := getElem?_of_prefix (lines_isPrefix hpre) hline
    rw [lines_replies hrounds.answered, List.getElem?_map, Option.map_eq_some_iff] at hk
    obtain ⟨⟨c, data⟩, hc, rfl⟩ := hk
    have hmem := List.mem_filter.1 (List.mem_of_getElem? hc)
    have hans := hrounds.answered _ hmem.1
    refine ⟨c, data, getElem?_of_prefix (hsent.filter _) ?_, hans, ?_⟩
    · rw [List.filter_map, List.getElem?_map]
      exact congrArg (Option.map Prod.fst) hc
    · have hb := hans.replyBytes
      rw [if_neg (by simpa using hmem.2)] at hb
      obtain ⟨line, -, hb⟩ := hb
      rw [hb, List.dropLast_concat]

/-- The command that switches the video on. -/
def videoOn : FtlCommand := .attribute [("value", "true"), ("key", "Video")]

/-- A streamer sets an attribute and then pings: the first line that it reads answers the ping. -/
theorem replies_match_ping :
    ∃ as s, connection.traced.Reach connection.traced.free as s ∧ sent as = [videoOn, .ping] ∧
      s.commands.buf.length + s.replies.buf.length ≤ 1 ∧
      ∃ data, Answers .ping data ∧ replyBytes data = FtlCodec.encode "201" ++ [10] := by
  obtain ⟨as, s, hr, hs, hw⟩ := connection.traced.exists_of_exec connection.traced.free
    (fun as _ ↦ sent as = [videoOn, .ping] ∧ written (events as) = FtlCodec.encode "201\n") rfl
    [.read (FtlCodec.encode "Video: true\r\n\r\nPING 1\r\n\r\n"), .decode, .sendCommand videoOn,
      .recvCommand videoOn zeroDraw, .reply [""] .loop, .recvReply [""], .write "" [], .writeEnd,
      .decode, .sendCommand .ping, .recvCommand .ping zeroDraw, .reply ["201\n"] .loop,
      .recvReply ["201\n"], .write "201\n" [], .writeEnd]
    (by decide +kernel)
  obtain ⟨hle, -, -, -, -, -, -, -, hlines⟩ := replies_match hr
  obtain ⟨c, data, hc, hans, hb⟩ := hlines 0 (FtlCodec.encode "201") (by rw [hw]; decide +kernel)
  rw [hs] at hc
  cases hc
  exact ⟨as, s, hr, hs, hle, data, hans, hb⟩

end ITG.Ingest
