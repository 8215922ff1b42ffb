import ITG.Ingest.Replies

/-!
# How a connection ends

A connection has ended when both of its tasks have returned, and then its port has been freed.  From
nearly everywhere the client can still bring that about, by closing its socket: the frame task
returns, the command task finds nobody to receive from, and does what is left to do.

The exception is a flag attribute with a bad value.  The frame task looks at the socket only when
there is no command in the buffer, or when there are bytes to write.  An attribute is answered
without a byte, so as long as attributes follow one another in the buffer the frame task does not
notice that the socket has been closed.  If a bad flag comes at the end of them, it is handed over,
gets no reply, and both tasks wait for ever with the port in their hands.  `Doomed` says that it has
come to that, and `connection_can_end` that otherwise it has not.
-/

namespace ITG.Ingest

open ITG.Lib

/-! ## What cannot be stopped -/

/-- Attributes, up to a flag with a bad value. -/
def Traps : List FtlCommand → Prop
  | [] => False
  | c :: cs => c.BadFlag ∨ c.isAttribute = true ∧ Traps cs

/-- The reply has no bytes.  `send` writes nothing for it, so it cannot fail. -/
def Silent (data : List String) : Prop := ∀ item ∈ data, FtlCodec.encode item = []

/-- The frame task has no bytes to write. -/
def FrameAt.Silent : FrameAt → Prop
  | .writing items => Ingest.Silent items
  | .next | .sending _ | .recv | .returned => True

/-- The command task goes back to its `recv` with no more than a reply that has no bytes. -/
def CommandAt.Silent : CommandAt → Prop
  | .recv => True
  | .reply data .loop | .reply data .dot => Ingest.Silent data
  | .reply _ .failed | .notifyStart _ | .allocate | .notifyEnd _ | .freePort _ | .returned => False

/-- The commands that the frame task will hand over, as long as there is nothing to stop it. -/
def FrameAt.upcoming (buffer : List UInt8) : FrameAt → List FtlCommand
  | .sending c => c :: FtlCodec.commands buffer
  | .next | .recv | .writing _ => FtlCodec.commands buffer
  | .returned => []

theorem silent_tail {item : String} {items : List String} (h : Silent (item :: items)) :
    Silent items := fun i hi ↦ h i (List.mem_cons_of_mem _ hi)

/-- An answer with bytes has items to be written, and not many. -/
theorem Answers.length_le {c : FtlCommand} {data : List String} (h : Answers c data) :
    data.length ≤ 3 := by
  cases h <;> simp

theorem Answers.not_silent {c : FtlCommand} {data : List String} (h : Answers c data)
    (hc : c.isAttribute = false) : ¬ Silent data := by
  intro hs
  have hline := h.replyBytes
  rw [if_neg (by simp [hc])] at hline
  obtain ⟨line, -, hb⟩ := hline
  have hnil : Ingest.replyBytes data = [] := List.flatMap_eq_nil_iff.2 hs
  simp [hnil] at hb

/-- An attribute that is no bad flag is answered at once, without a byte. -/
theorem ConnectionState.handle_attribute (s : ConnectionState) (draw : Draw) {c : FtlCommand}
    (hc : c.isAttribute = true) (hcomplete : c.Complete) (hb : ¬ c.BadFlag) :
    (s.handle draw c).2 = .reply [""] .loop := by
  rcases s.handle_cases draw hcomplete with ⟨rfl, -⟩ | ⟨hbad, -⟩ | ⟨-, -, hh⟩
  · cases hc
  · exact absurd hbad hb
  · cases c with
    | «attribute» data =>
        simp only [handle] at hh ⊢
        split at hh
        · split at hh
          · simp [*]
          · cases hh
        · cases hh
    | hmac | connect data | ping | dot | disconnect => cases hc

theorem ConnectionState.not_silent_release (s : ConnectionState) : ¬ s.release.Silent := by
  unfold release
  split <;> exact id

theorem ConnectionState.not_silent_finish (s : ConnectionState) : ¬ s.finish.Silent := by
  unfold finish
  split
  · exact id
  · exact s.not_silent_release

/-- A command that is no attribute is answered with bytes. -/
theorem CommandAt.Answering.not_silent {c : FtlCommand} {p : CommandAt} (h : p.Answering c)
    (hc : c.isAttribute = false) : ¬ p.Silent := by
  cases p with
  | reply data after =>
      have hs : ¬ Ingest.Silent data := Answers.not_silent h hc
      cases after with
      | loop | dot => exact hs
      | failed => exact id
  | recv => exact absurd h id
  | notifyStart key | allocate | notifyEnd key | freePort port | returned => exact id

/-- What the decoder gives is still to come. -/
theorem FrameAt.upcoming_afterDecode (buffer : List UInt8) :
    (FrameAt.afterDecode (FtlCodec.decode buffer).1).upcoming (FtlCodec.decode buffer).2 =
      FtlCodec.commands buffer := by
  cases hd : (FtlCodec.decode buffer).1 with
  | command c => exact (FtlCodec.commands_of_command (Prod.ext hd rfl)).symm
  | pending | error e | panic =>
      exact (FtlCodec.commands_eq_nil fun c hc ↦ by cases hd.symm.trans hc).symm

/-! ## How far it is to the end -/

/-- How many steps the frame task has to go for what it is at. -/
def FrameAt.left : FrameAt → ℕ
  | .sending _ => 12
  | .writing items => items.length + 3
  | .next => 2
  | .recv => 1
  | .returned => 0

/-- How many steps the command task has to go, with those of the frame task that take a reply. -/
def CommandAt.left : CommandAt → ℕ
  | .notifyStart _ | .allocate => 12
  | .reply _ _ => 11
  | .recv => 3
  | .notifyEnd _ => 2
  | .freePort _ => 1
  | .returned => 0

theorem FrameAt.left_pos {f : FrameAt} (h : f ≠ .returned) : 0 < f.left := by
  cases f with
  | returned => exact absurd rfl h
  | sending c | writing items | next | recv => exact Nat.zero_lt_succ _

/-- A command that leads to a reply leads there soon. -/
theorem CommandAt.left_of_handling {p : CommandAt} (h : p.handling = 1) : p.left ≤ 12 := by
  cases p with
  | notifyStart key | allocate => exact le_rfl
  | reply data after => exact Nat.le_succ 11
  | recv | notifyEnd key | freePort port | returned => cases h

theorem ConnectionState.left_release (s : ConnectionState) : s.release.left ≤ 1 := by
  unfold release
  split
  · exact le_rfl
  · exact Nat.zero_le 1

theorem ConnectionState.left_finish (s : ConnectionState) : s.finish.left ≤ 2 := by
  unfold finish
  split
  · exact le_rfl
  · exact s.left_release.trans (Nat.le_succ 1)

namespace Connection

/-- Both tasks have returned. -/
def Ended (s : Connection) : Prop := s.frame = .returned ∧ s.command = .returned

instance (s : Connection) : Decidable s.Ended := inferInstanceAs (Decidable (_ ∧ _))

/-- There are no bytes to write, and the command task goes back to its `recv`. -/
structure Hushed (s : Connection) : Prop where
  frame : s.frame.Silent
  replies : ∀ data ∈ s.replies.buf, Silent data
  command : s.command.Silent

/-- The commands that the command task will receive, as long as there is nothing to stop the frame
task. -/
def upcoming (s : Connection) : List FtlCommand := s.commands.buf ++ s.frame.upcoming s.buffer

/-- Both tasks wait for each other, or will. -/
def Doomed (s : Connection) : Prop := s.Deadlocked ∨ s.Hushed ∧ Traps s.upcoming

variable {s t : Connection} {a : Action}

theorem Doomed.command_silent (h : s.Doomed) : s.command.Silent := by
  rcases h with ⟨-, -, hc, -⟩ | ⟨hh, -⟩
  · rw [hc]
    exact trivial
  · exact hh.command

theorem Doomed.command_ne (h : s.Doomed) {p : CommandAt} (hp : ¬ p.Silent) : s.command ≠ p :=
  fun he ↦ hp (he ▸ h.command_silent)

theorem Doomed.not_ended (h : s.Doomed) : ¬ s.Ended := fun he ↦ h.command_ne id he.2

/-! ## There is no way out of a doomed connection -/

/-- Commands are only queued for a frame task that waits. -/
theorem Lockstep.commands_eq_nil_of_frame (hl : Lockstep s) (hf : s.frame ≠ .recv) :
    s.commands.buf = [] := by
  have h0 := hl.inFlight_eq_zero hf
  simp only [inFlight] at h0
  exact List.eq_nil_of_length_eq_zero (by omega)

/-- Nothing can be known of the bytes that have not been read. -/
theorem Lockstep.not_traps_of_pending (hl : Lockstep s) (hf : s.frame = .next)
    (hd : (FtlCodec.decode s.buffer).1 = .pending) : ¬ Traps s.upcoming := by
  have hnil : FtlCodec.commands s.buffer = [] :=
    FtlCodec.commands_eq_nil fun c hc ↦ by cases hd.symm.trans hc
  rw [upcoming, hl.commands_eq_nil_of_frame (by rw [hf]; exact nofun), hf]
  change ¬ Traps ([] ++ FtlCodec.commands s.buffer)
  rw [hnil]
  exact id

/-- A frame task that has returned hands nothing over. -/
theorem not_traps_of_returned (hf : s.frame = .returned) (hq : s.commands.buf = []) :
    ¬ Traps s.upcoming := by
  rw [upcoming, hq, hf]
  exact id

/-- The command task receives a command that cannot be stopped. -/
theorem Doomed.recvCommand (hh : s.Hushed) (ht : Traps s.upcoming) (hl : Lockstep s)
    {c : FtlCommand} {draw : Draw} (g : s.guard (.recvCommand c draw)) :
    (s.effect (.recvCommand c draw) g).Doomed := by
  by_cases hb : c.BadFlag
  · exact .inl (hl.deadlocked_of_badFlag g hb)
  have hup : s.upcoming = c :: (s.effect (.recvCommand c draw) g).upcoming := by
    rw [upcoming, Chan.buf_eq_cons g.2]
    rfl
  rw [hup] at ht
  obtain ⟨hattr, ht⟩ := ht.resolve_left hb
  refine .inr ⟨⟨hh.frame, hh.replies, ?_⟩, ht⟩
  have hcmd := s.state.handle_attribute draw hattr (hl.queued c (List.mem_of_mem_head? g.2)) hb
  change (s.state.handle draw c).2.Silent
  rw [hcmd]
  intro item hi
  rw [List.mem_singleton.1 hi]
  rfl

/-- The command task sends a reply without bytes. -/
theorem Hushed.reply (hh : s.Hushed) {data : List String} {after : AfterReply}
    (g : s.guard (.reply data after)) : (s.effect (.reply data after) g).Hushed := by
  have hc := hh.command
  rw [g.1] at hc
  have hdata : Silent data ∧ after.next true = .recv := by
    cases after with
    | loop | dot => exact ⟨hc, rfl⟩
    | failed => exact hc.elim
  refine ⟨hh.frame, fun d hd ↦ ?_, ?_⟩
  · rcases List.mem_append.1 hd with hd | hd
    · exact hh.replies d hd
    · exact List.mem_singleton.1 hd ▸ hdata.1
  · change (after.next true).Silent
    rw [hdata.2]
    exact trivial

/-- The step lemma. -/
theorem Doomed.step (hd : s.Doomed) (hl : Lockstep s) (g : s.guard a) :
    (s.effect a g).Doomed := by
  obtain hdead | ⟨hh, ht⟩ := hd
  · exact absurd g hdead.not_guard
  have hc := hh.command
  cases a with
  | decode =>
      refine .inr ⟨⟨?_, hh.replies, hh.command⟩, ?_⟩
      · change (FrameAt.afterDecode _).Silent
        cases (FtlCodec.decode s.buffer).1 <;> exact trivial
      · change Traps (s.commands.buf ++ (FrameAt.afterDecode (FtlCodec.decode s.buffer).1).upcoming
          (FtlCodec.decode s.buffer).2)
        rw [FrameAt.upcoming_afterDecode]
        rwa [upcoming, g.1] at ht
  | read chunk => exact absurd ht (hl.not_traps_of_pending g.1 g.2.1)
  | eof | readError => exact absurd ht (hl.not_traps_of_pending g.1 g.2)
  | sendCommand c =>
      refine .inr ⟨⟨trivial, hh.replies, hh.command⟩, ?_⟩
      rw [upcoming, g.1] at ht
      change Traps ((s.commands.buf ++ [c]) ++ FtlCodec.commands s.buffer)
      rwa [List.append_assoc]
  | recvReply data =>
      refine .inr ⟨⟨hh.replies data (List.mem_of_mem_head? g.2), fun d hd ↦ ?_, hh.command⟩, ?_⟩
      · exact hh.replies d (List.mem_of_mem_tail hd)
      · rwa [upcoming, g.1] at ht
  | write item items =>
      have hf : s.frame = .writing (item :: items) := g
      have hs := hh.frame
      rw [hf] at hs
      refine .inr ⟨⟨silent_tail hs, hh.replies, hh.command⟩, ?_⟩
      rwa [upcoming, hf] at ht
  | writeError item items n =>
      -- there is nothing that could fail
      have hs := hh.frame
      rw [g.1] at hs
      have hlt := g.2
      rw [hs item List.mem_cons_self] at hlt
      cases hlt
  | writeEnd =>
      have hf : s.frame = .writing [] := g
      refine .inr ⟨⟨trivial, hh.replies, hh.command⟩, ?_⟩
      rwa [upcoming, hf] at ht
  | recvCommand c draw => exact .recvCommand hh ht hl g
  | recvCommandNone => exact absurd ht (not_traps_of_returned g.2.2 g.2.1)
  | reply data after => exact .inr ⟨hh.reply g, ht⟩
  | replyError data after =>
      have hf := hl.frame_of_handling (by rw [g.1]; rfl)
      cases hf.symm.trans g.2
  | sendCommandError c =>
      rw [g.2] at hc
      exact hc.elim
  | recvReplyNone =>
      rw [g.2.2] at hc
      exact hc.elim
  | notifyStart key ok | allocate r | notifyEnd key ok | freePort port =>
      rw [show s.command = _ from g] at hc
      exact hc.elim

/-! ## The way to the end -/

/-- How many steps there are to go, at most.  A command takes its bytes out of the buffer, which is
more than enough for all the steps that it causes. -/
def left (s : Connection) : ℕ :=
  s.frame.left + 11 * s.buffer.length + 10 * s.commands.buf.length + 7 * s.replies.buf.length +
    s.command.left

/-- A step towards the end, and not into a deadlock. -/
def Toward (s t : Connection) : Prop := ¬ t.Doomed ∧ t.left < s.left

theorem not_doomed_of_command (h : ¬ s.command.Silent) : ¬ s.Doomed :=
  fun hd ↦ h hd.command_silent

/-- A frame task that has returned has nothing to hand over. -/
theorem not_doomed_of_returned (hf : s.frame = .returned) (hq : s.commands.buf = []) :
    ¬ s.Doomed := by
  rintro (hdead | ⟨-, ht⟩)
  · cases hdead.1.symm.trans hf
  · exact not_traps_of_returned hf hq ht

/-- A frame task that has bytes to write may fail to. -/
theorem not_doomed_of_writing {items : List String} (hf : s.frame = .writing items)
    (hs : ¬ Silent items) : ¬ s.Doomed := by
  rintro (hdead | ⟨hh, -⟩)
  · cases hdead.1.symm.trans hf
  · have hframe := hh.frame
    rw [hf] at hframe
    exact hs hframe

/-- A step that leaves the upcoming commands alone, and whose bytes are not yet written. -/
theorem not_doomed_of_upcoming (hn : ¬ s.Doomed) (hf : ¬ t.Deadlocked)
    (hu : t.upcoming = s.upcoming) (hh : t.Hushed → s.Hushed) : ¬ t.Doomed := by
  rintro (hdead | ⟨hh', ht⟩)
  · exact hf hdead
  · exact hn (.inr ⟨hh hh', hu ▸ ht⟩)

/-- The frame task moves without touching the channels. -/
theorem left_lt_of_frame {f : FrameAt} (h : f.left < s.frame.left) :
    left { s with frame := f } < s.left := by
  simp only [left]
  omega

/-- The command task moves without touching the channels. -/
theorem left_lt_of_command {p : CommandAt} {state : ConnectionState}
    (h : p.left < s.command.left) : left { s with command := p, state := state } < s.left := by
  simp only [left]
  omega

/-- The frame task returns. -/
theorem toward_returned (hf : s.frame ≠ .returned) (hq : s.commands.buf = []) :
    s.Toward { s with frame := .returned } :=
  ⟨not_doomed_of_returned rfl hq, left_lt_of_frame (FrameAt.left_pos hf)⟩

/-- The call of `allocate_port` may return what it will. -/
theorem toward_allocate {r : Option UInt16} (g : s.guard (.allocate r)) :
    s.Toward (s.effect (.allocate r) g) := by
  have hc : s.command = .allocate := g
  have hnew : (afterAllocate r).left = 11 := by cases r <;> rfl
  refine ⟨not_doomed_of_command ?_, left_lt_of_command ?_⟩
  · cases r with
    | none => exact id
    | some port => exact (Answers.announced port).not_silent rfl
  · rw [hnew, hc]
    exact Nat.lt_succ_self 11

theorem toward_notifyStart {key : String} {ok : Bool} (g : s.guard (.notifyStart key ok)) :
    s.Toward (s.effect (.notifyStart key ok) g) := by
  have hc : s.command = .notifyStart key := g
  refine ⟨not_doomed_of_command ((Answers.connect []).not_silent rfl), left_lt_of_command ?_⟩
  rw [hc]
  exact Nat.lt_succ_self 11

theorem toward_notifyEnd {key : String} {ok : Bool} (g : s.guard (.notifyEnd key ok)) :
    s.Toward (s.effect (.notifyEnd key ok) g) := by
  have hc : s.command = .notifyEnd key := g
  refine ⟨not_doomed_of_command s.state.not_silent_release, left_lt_of_command ?_⟩
  rw [hc]
  exact Nat.lt_succ_of_le s.state.left_release

theorem toward_freePort {port : UInt16} (g : s.guard (.freePort port)) :
    s.Toward (s.effect (.freePort port) g) := by
  have hc : s.command = .freePort port := g
  refine ⟨not_doomed_of_command id, left_lt_of_command ?_⟩
  rw [hc]
  exact Nat.zero_lt_one

/-- While a command is queued nothing is on its way back. -/
theorem Lockstep.hushed_of_queued (hl : Lockstep s) (hc : s.command = .recv)
    (hq : s.commands.buf ≠ []) : s.Hushed := by
  have hlen := List.length_pos_iff.2 hq
  have hle := hl.le_one
  have hf : s.frame = .recv := hl.waiting (by simp only [inFlight]; omega)
  simp only [inFlight] at hle
  have hr : s.replies.buf = [] := List.eq_nil_of_length_eq_zero (by omega)
  constructor
  · rw [hf]
    exact trivial
  · intro data hd
    rw [hr] at hd
    cases hd
  · rw [hc]
    exact trivial

/-- The command task takes a command up that does not trap it. -/
theorem Lockstep.toward_recvCommand (hl : Lockstep s) (hn : ¬ s.Doomed) {c : FtlCommand}
    (g : s.guard (.recvCommand c zeroDraw)) : s.Toward (s.effect (.recvCommand c zeroDraw) g) := by
  have hq := Chan.buf_eq_cons g.2
  have hh := hl.hushed_of_queued g.1 (by rw [hq]; exact List.cons_ne_nil _ _)
  have hup : s.upcoming = c :: (s.effect (.recvCommand c zeroDraw) g).upcoming := by
    rw [upcoming, hq]
    rfl
  have hsafe : ¬ (c.BadFlag ∨ c.isAttribute = true ∧
      Traps (s.effect (.recvCommand c zeroDraw) g).upcoming) :=
    fun ht ↦ hn (.inr ⟨hh, hup ▸ ht⟩)
  have hcomplete : c.Complete := hl.queued c (List.mem_of_mem_head? g.2)
  have hcases := s.state.handle_cases zeroDraw hcomplete
  constructor
  · rintro (hdead | ⟨hh', ht⟩)
    · have hc : (s.state.handle zeroDraw c).2 = .recv := hdead.2.2.1
      rcases hcases with ⟨-, he⟩ | ⟨hb, -⟩ | ⟨-, -, hhand⟩
      · exact s.state.finish_ne_recv ((congrArg Prod.snd he).symm.trans hc)
      · exact hsafe (.inl hb)
      · rw [hc] at hhand
        cases hhand
    · have hsilent : (s.state.handle zeroDraw c).2.Silent := hh'.command
      rcases hcases with ⟨-, he⟩ | ⟨hb, -⟩ | ⟨-, -, hhand⟩
      · rw [he] at hsilent
        exact s.state.not_silent_finish hsilent
      · exact hsafe (.inl hb)
      · cases hattr : c.isAttribute with
        | true => exact hsafe (.inr ⟨hattr, ht⟩)
        | false => exact (ConnectionState.answering_handle hhand).not_silent hattr hsilent
  · have hnew : (s.state.handle zeroDraw c).2.left ≤ 12 := by
      rcases hcases with ⟨-, he⟩ | ⟨hb, -⟩ | ⟨-, -, hhand⟩
      · rw [he]
        exact s.state.left_finish.trans (by decide)
      · exact absurd (.inl hb) hsafe
      · exact CommandAt.left_of_handling hhand
    have hold : s.command.left = 3 := by rw [g.1]; rfl
    simp only [left, effect, hq, hold, List.length_cons]
    omega

/-- The command task answers. -/
theorem toward_reply (hn : ¬ s.Doomed) {data : List String} {after : AfterReply}
    (g : s.guard (.reply data after)) : s.Toward (s.effect (.reply data after) g) := by
  have hold : s.command.left = 11 := by rw [g.1]; rfl
  have hnew : (after.next true).left ≤ 3 := by cases after <;> decide
  constructor
  · refine not_doomed_of_upcoming hn ?_ rfl fun hh ↦ ⟨hh.frame, fun d hd ↦ ?_, ?_⟩
    · rintro ⟨-, hr, -⟩
      simp [effect] at hr
    · exact hh.replies d (List.mem_append_left _ hd)
    · have hdata : Silent data := hh.replies data (List.mem_append_right _ List.mem_cons_self)
      have hc := hh.command
      rw [g.1]
      cases after with
      | loop | dot => exact hdata
      | failed => exact hc
  · simp only [left, effect, hold, Chan.buf_push, List.length_append, List.length_singleton]
    omega

/-- The frame task takes a reply, and is about to write it. -/
theorem toward_recvReply (hn : ¬ s.Doomed) {data : List String} (g : s.guard (.recvReply data))
    (hlen : data.length ≤ 3) : s.Toward (s.effect (.recvReply data) g) := by
  have hq := Chan.buf_eq_cons g.2
  have hold : s.frame.left = 1 := by rw [g.1]; rfl
  have hnew : (FrameAt.writing data).left = data.length + 3 := rfl
  constructor
  · refine not_doomed_of_upcoming hn (fun hdead ↦ by cases hdead.1) ?_ fun hh ↦
      ⟨by rw [g.1]; exact trivial, fun d hd ↦ ?_, hh.command⟩
    · rw [upcoming, upcoming, g.1]
      rfl
    · rw [hq] at hd
      rcases List.mem_cons.1 hd with rfl | hd
      · exact hh.frame
      · exact hh.replies d hd
  · simp only [left, effect, hold, hnew, hq, List.length_cons]
    omega

/-- The frame task hands a command over. -/
theorem toward_sendCommand (hn : ¬ s.Doomed) {c : FtlCommand} (g : s.guard (.sendCommand c)) :
    s.Toward (s.effect (.sendCommand c) g) := by
  have hold : s.frame.left = 12 := by rw [g.1]; rfl
  have hnew : FrameAt.recv.left = 1 := rfl
  constructor
  · refine not_doomed_of_upcoming hn ?_ ?_ fun hh ↦
      ⟨by rw [g.1]; exact trivial, hh.replies, hh.command⟩
    · rintro ⟨-, -, -, hq⟩
      simp [effect] at hq
    · rw [upcoming, upcoming, g.1]
      exact List.append_assoc _ _ _
  · simp only [left, effect, hold, hnew, Chan.buf_push, List.length_append, List.length_singleton]
    omega

/-- The frame task gets a command out of its buffer, or finds that there will be none. -/
theorem toward_decode (hn : ¬ s.Doomed) (g : s.guard .decode) :
    s.Toward (s.effect .decode g) := by
  have hold : s.frame.left = 2 := by rw [g.1]; rfl
  have hnew : (FrameAt.afterDecode (FtlCodec.decode s.buffer).1).left ≤ 12 := by
    cases (FtlCodec.decode s.buffer).1 <;> simp [FrameAt.afterDecode, FrameAt.left]
  have hlt := FtlCodec.decode_length_lt g.2
  constructor
  · refine not_doomed_of_upcoming hn ?_ ?_ fun hh ↦
      ⟨by rw [g.1]; exact trivial, hh.replies, hh.command⟩
    · rintro ⟨hf, -⟩
      change FrameAt.afterDecode (FtlCodec.decode s.buffer).1 = .recv at hf
      cases hd : (FtlCodec.decode s.buffer).1 <;> rw [hd] at hf <;> cases hf
    · rw [upcoming, upcoming, g.1]
      exact congrArg (s.commands.buf ++ ·) (FrameAt.upcoming_afterDecode _)
  · simp only [left, effect, hold]
    omega

/-- The frame task writes a reply without bytes, or fails to write one that has some. -/
theorem Lockstep.exists_step_of_writing (hl : Lockstep s) (hn : ¬ s.Doomed) {items : List String}
    (hf : s.frame = .writing items) : ∃ a, ∃ g : s.guard a, s.Toward (s.effect a g) := by
  have hup {f : FrameAt} (h : f.upcoming s.buffer = FtlCodec.commands s.buffer) :
      s.commands.buf ++ f.upcoming s.buffer = s.upcoming := by
    rw [h, upcoming, hf]
    rfl
  cases items with
  | nil =>
      refine ⟨.writeEnd, hf, not_doomed_of_upcoming hn (fun hdead ↦ by cases hdead.1) (hup rfl)
        fun hh ↦ ⟨?_, hh.replies, hh.command⟩, left_lt_of_frame ?_⟩
      · rw [hf]
        exact fun item hi ↦ absurd hi List.not_mem_nil
      · rw [hf]
        exact Nat.lt_succ_self 2
  | cons item items =>
      by_cases hi : FtlCodec.encode item = []
      · refine ⟨.write item items, hf, not_doomed_of_upcoming hn (fun hdead ↦ by cases hdead.1)
          (hup rfl) fun hh ↦ ⟨?_, hh.replies, hh.command⟩, left_lt_of_frame ?_⟩
        · rw [hf]
          exact List.forall_mem_cons.2 ⟨hi, hh.frame⟩
        · rw [hf]
          exact Nat.lt_succ_self _
      · have hq := hl.commands_eq_nil_of_frame (by rw [hf]; exact nofun)
        exact ⟨.writeError item items 0, ⟨hf, List.length_pos_iff.2 hi⟩,
          toward_returned (by rw [hf]; exact nofun) hq⟩

/-- A frame task that has returned leaves the rest to the command task. -/
theorem Lockstep.exists_step_of_returned (hl : Lockstep s) (hf : s.frame = .returned)
    (he : ¬ s.Ended) : ∃ a, ∃ g : s.guard a, s.Toward (s.effect a g) := by
  have h0 := hl.inFlight_eq_zero (by rw [hf]; exact nofun)
  simp only [inFlight] at h0
  have hq := hl.commands_eq_nil_of_frame (by rw [hf]; exact nofun)
  cases hc : s.command with
  | recv =>
      refine ⟨.recvCommandNone, ⟨hc, hq, hf⟩, not_doomed_of_returned hf hq,
        left_lt_of_command ?_⟩
      rw [hc]
      exact Nat.lt_succ_of_le s.state.left_finish
  | notifyEnd key => exact ⟨.notifyEnd key true, hc, toward_notifyEnd hc⟩
  | freePort port => exact ⟨.freePort port, hc, toward_freePort hc⟩
  | returned => exact absurd ⟨hf, hc⟩ he
  | notifyStart key | allocate | reply data after =>
      rw [hc] at h0
      simp [CommandAt.handling] at h0

/-- A frame task that waits is given a reply, or is told that there will be none. -/
theorem Lockstep.exists_step_of_recv (hl : Lockstep s) {d : Dialogue FtlCommand (List String)}
    (hd : s.InDialogue d) (hn : ¬ s.Doomed) (hf : s.frame = .recv) :
    ∃ a, ∃ g : s.guard a, s.Toward (s.effect a g) := by
  cases hr : s.replies.buf with
  | cons data rest =>
      have hhead : s.replies.buf.head? = some data := by rw [hr]; rfl
      obtain ⟨c, rfl⟩ := hd.answered_of_recv hhead
      obtain ⟨hdata, hans, -⟩ := hd
      cases hr.symm.trans hdata
      exact ⟨.recvReply data, ⟨hf, hhead⟩, toward_recvReply hn ⟨hf, hhead⟩ hans.length_le⟩
  | nil =>
      cases hc : s.command with
      | recv =>
          cases hq : s.commands.buf with
          | nil => exact absurd (.inl ⟨hf, hr, hc, hq⟩) hn
          | cons c rest =>
              have g : s.guard (.recvCommand c zeroDraw) := ⟨hc, by rw [hq]; rfl⟩
              exact ⟨.recvCommand c zeroDraw, g, hl.toward_recvCommand hn g⟩
      | notifyStart key => exact ⟨.notifyStart key true, hc, toward_notifyStart hc⟩
      | allocate => exact ⟨.allocate none, hc, toward_allocate hc⟩
      | reply data after =>
          have g : s.guard (.reply data after) := by
            refine ⟨hc, by rw [hf]; exact nofun, ?_⟩
            rw [Chan.HasRoom, hr]
            decide
          exact ⟨.reply data after, g, toward_reply hn g⟩
      | notifyEnd key => exact ⟨.notifyEnd key true, hc, toward_notifyEnd hc⟩
      | freePort port => exact ⟨.freePort port, hc, toward_freePort hc⟩
      | returned =>
          have hq := hl.commands_eq_nil (by rw [hc]; exact nofun)
          exact ⟨.recvReplyNone, ⟨hf, hr, hc⟩, toward_returned (by rw [hf]; exact nofun) hq⟩

/-- A connection that is not doomed has a step to take towards its end. -/
theorem Lockstep.exists_step (hl : Lockstep s) {d : Dialogue FtlCommand (List String)}
    (hd : s.InDialogue d) (hn : ¬ s.Doomed) (he : ¬ s.Ended) :
    ∃ a, ∃ g : s.guard a, s.Toward (s.effect a g) := by
  cases hf : s.frame with
  | next =>
      by_cases hdec : (FtlCodec.decode s.buffer).1 = .pending
      · have hq := hl.commands_eq_nil_of_frame (by simp [hf])
        exact ⟨.eof, ⟨hf, hdec⟩, toward_returned (by simp [hf]) hq⟩
      · exact ⟨.decode, ⟨hf, hdec⟩, toward_decode hn ⟨hf, hdec⟩⟩
  | sending c =>
      have hq := hl.commands_eq_nil_of_frame (by simp [hf])
      by_cases hc : s.command = .returned
      · exact ⟨.sendCommandError c, ⟨hf, hc⟩, toward_returned (by simp [hf]) hq⟩
      · have hroom : s.commands.HasRoom := by
          rw [Chan.HasRoom, hq]
          decide
        exact ⟨.sendCommand c, ⟨hf, hc, hroom⟩, toward_sendCommand hn ⟨hf, hc, hroom⟩⟩
  | recv => exact hl.exists_step_of_recv hd hn hf
  | returned => exact hl.exists_step_of_returned hf he
  | writing items => exact hl.exists_step_of_writing hn hf

end Connection

/-! ## Runs -/

variable {h : List Event} {s : Connection}

/-- The run lemma for connections that are doomed. -/
theorem Connection.Doomed.run {ok : Connection → Action → Prop} {k : List Event} {t : Connection}
    (hd : s.Doomed) (hl : s.Lockstep) (hrun : connection.Run ok s k t) : t.Doomed := by
  have hboth : t.Lockstep ∧ t.Doomed := hrun.preserves (I := fun t ↦ t.Lockstep ∧ t.Doomed)
    (fun _ _ g ht _ ↦ ⟨ht.1.step g, ht.2.step ht.1 g⟩) ⟨hl, hd⟩
  exact hboth.2

/-- The dialogue that a connection is in. -/
theorem inDialogue_of_reach {ok : Connection → Action → Prop} (hr : connection.Reach ok h s) :
    ∃ d, s.InDialogue d := by
  obtain ⟨d, -, -, hd⟩ := connection_refines_dialogue.reach hr
  exact ⟨d, hd⟩

/-- **A connection can end unless it is doomed.**  From every reachable state that is not doomed a
run leads to the end of both tasks, and by then a port that was allocated has been freed; from a
doomed one no run ever leads there, and none frees the port. -/
theorem connection_can_end (hr : connection.Reach connection.free h s) :
    (¬ s.Doomed → ∃ k t, connection.Run connection.free s k t ∧ t.Ended ∧
        ∀ port, .allocated (some port) ∈ h ++ k → .freed port ∈ h ++ k) ∧
      (s.Doomed → ∀ k t, connection.Run connection.free s k t →
        ¬ t.Ended ∧ ∀ port, .freed port ∉ h ++ k) := by
  constructor
  · intro hn
    obtain ⟨k, t, hrun, he⟩ : connection.CanReach connection.free s Connection.Ended := by
      refine hr.canReach (P := fun s ↦ ¬ s.Doomed) Connection.left (fun h s hr hn he ↦ ?_) hn
      obtain ⟨d, hd⟩ := inDialogue_of_reach hr
      obtain ⟨a, g, htoward⟩ := (lockstep_of_reach hr).exists_step hd hn he
      exact .step a trivial g (.now htoward)
    have hp := portInv_of_reach (hr.trans hrun)
    exact ⟨k, t, hrun, he, fun port hm ↦ hp.released he.2 port ((hp.allocated port).1 hm)⟩
  · intro hd k t hrun
    have ht := hd.run (lockstep_of_reach hr) hrun
    have hp := portInv_of_reach (hr.trans hrun)
    have h0 := hp.kept (ht.command_ne id)
    exact ⟨ht.not_ended, fun port hm ↦ absurd rfl (List.countP_eq_zero.1 h0 _ hm)⟩

/-- A streamer has sent two attributes, of which the second is a flag with a bad value. -/
theorem doomed_of_codec_video (hf : s.frame = .next) (hc : s.command = .recv)
    (hq : s.commands.buf = []) (hr : s.replies.buf = [])
    (hb : s.buffer = FtlCodec.encode "VideoCodec: H264\r\n\r\nVideo: yes\r\n\r\n") :
    s.Doomed := by
  have hcodec : FtlCodec.decode s.buffer =
      (.command (.attribute [("value", "H264"), ("key", "VideoCodec")]),
        FtlCodec.encode "Video: yes\r\n\r\n") := by
    rw [hb]
    decide +kernel
  have hvideo : FtlCodec.decode (FtlCodec.encode "Video: yes\r\n\r\n") =
      (.command (.attribute [("value", "yes"), ("key", "Video")]), []) := by decide +kernel
  refine .inr ⟨⟨by rw [hf]; exact trivial, by rw [hr]; exact nofun, by rw [hc]; exact trivial⟩, ?_⟩
  rw [Connection.upcoming, hq, hf]
  change Traps (FtlCodec.commands s.buffer)
  rw [FtlCodec.commands_of_command hcodec, FtlCodec.commands_of_command hvideo]
  exact .inr ⟨rfl, .inl ⟨"Video", "yes", rfl, rfl, .inl rfl, by decide, by decide⟩⟩

/-- A streamer is given a port, and then says what its codec is, and that its video is `yes`: the
port is never freed, whatever happens. -/
theorem connection_can_end_video :
    ∃ h s, connection.Reach connection.free h s ∧ s.frame = .next ∧
      .allocated (some 5004) ∈ h ∧
      ∀ k t, connection.Run connection.free s k t → .freed 5004 ∉ h ++ k := by
  obtain ⟨h, s, hr, hf, hc, hq, hp, hb, hm⟩ := connection.exists_of_exec connection.free
    (fun h s ↦ s.frame = .next ∧ s.command = .recv ∧ s.commands.buf = [] ∧ s.replies.buf = [] ∧
      s.buffer = FtlCodec.encode "VideoCodec: H264\r\n\r\nVideo: yes\r\n\r\n" ∧
      .allocated (some 5004) ∈ h) rfl
    [.read (FtlCodec.encode ".\r\n\r\nVideoCodec: H264\r\n\r\nVideo: yes\r\n\r\n"), .decode,
      .sendCommand .dot, .recvCommand .dot zeroDraw, .allocate (some 5004),
      .reply [announcement 5004] .dot, .recvReply [announcement 5004],
      .write (announcement 5004) [], .writeEnd]
    (by decide +kernel)
  have hd := doomed_of_codec_video hf hc hq hp hb
  exact ⟨h, s, hr, hf, hm, fun k t hrun ↦ ((connection_can_end hr).2 hd k t hrun).2 5004⟩

end ITG.Ingest
