import ITG.Ingest.Connection

/-!
# The two tasks take turns

The frame task hands over one command and waits for one reply; the command task takes a command
and, with few exceptions, sends one reply before it takes the next.  So of a command on its way,
a command being handled and a reply on its way there is at most one at a time, and whenever there
is one the frame task is waiting.  `Lockstep` is this invariant.  It is nowhere stated in the
source, and it is what the guarantees about ports, deadlocks and replies rest on.

The exceptions are the attributes `Video` and `Audio` with a value that is no flag: they get no
reply.  The frame task then waits for a reply and the command task for a command, forever;
`deadlock_free_iff` shows that this is the only way to get there.
-/

namespace ITG.Ingest

open ITG.Lib

/-! ## Complete commands -/

/-- The command has the data that `handle_command` looks for. -/
def FtlCommand.Complete : FtlCommand → Prop
  | .connect data => (data.get "stream_key").isSome ∧ (data.get "channel_id").isSome
  | .attribute data => (data.get "key").isSome ∧ (data.get "value").isSome
  | .hmac | .ping | .dot | .disconnect => True

/-- A flag attribute whose value is no flag. -/
def FtlCommand.BadFlag : FtlCommand → Prop
  | .attribute data => ∃ key value, data.get "key" = some key ∧ data.get "value" = some value ∧
      (key = "Video" ∨ key = "Audio") ∧ value ≠ "true" ∧ value ≠ "false"
  | _ => False

/-- The decoder fills in all data. -/
theorem FtlCodec.complete_of_classify {command : List Char} {c : FtlCommand}
    (h : classify command = .command c) : c.Complete := by
  unfold classify at h
  repeat' split at h
  all_goals cases h
  all_goals simp [FtlCommand.Complete, Data.insert, Data.get, List.lookup_cons]

theorem FtlCodec.complete_of_decode {buf : List UInt8} {c : FtlCommand}
    (h : (decode buf).1 = .command c) : c.Complete := by
  unfold decode at h
  split at h
  · exact complete_of_classify h
  · cases h

/-! ## Handling one command -/

/-- One if the command task is between the receive of a command and its reply. -/
def CommandAt.handling : CommandAt → ℕ
  | .notifyStart _ | .allocate | .reply _ _ => 1
  | .recv | .notifyEnd _ | .freePort _ | .returned => 0

/-- The command task is on its way out. -/
def CommandAt.finishing : CommandAt → Bool
  | .notifyEnd _ | .freePort _ => true
  | .recv | .notifyStart _ | .allocate | .reply _ _ | .returned => false

namespace ConnectionState

variable (s : ConnectionState)

/-- The early returns of `handle_command` are those for flags that are none. -/
theorem setAttribute_eq_none_iff (key value : String) : s.setAttribute key value = none ↔
    (key = "Video" ∨ key = "Audio") ∧ value ≠ "true" ∧ value ≠ "false" := by
  by_cases hv : key = "Video"
  · subst hv
    simp only [setAttribute]
    split <;> simp_all
  · by_cases ha : key = "Audio"
    · subst ha
      simp only [setAttribute]
      split <;> simp_all
    · simp only [hv, ha, or_self, false_and, iff_false]
      unfold setAttribute
      split <;> simp_all

/-- An attribute touches neither the challenge nor the port nor the stream key. -/
theorem frame_setAttribute {key value : String} {s' : ConnectionState}
    (h : s.setAttribute key value = some s') :
    s'.hmacPayload = s.hmacPayload ∧ s'.rtpPort = s.rtpPort ∧ s'.streamKey = s.streamKey := by
  unfold setAttribute at h
  split at h
  case h_4 | h_10 =>
    split at h
    case h_3 => cases h
    all_goals
      cases h
      exact ⟨rfl, rfl, rfl⟩
  all_goals
    cases h
    exact ⟨rfl, rfl, rfl⟩

@[simp] theorem handling_release : s.release.handling = 0 := by
  unfold release; split <;> rfl

@[simp] theorem handling_finish : s.finish.handling = 0 := by
  unfold finish; split
  · rfl
  · exact s.handling_release

theorem release_ne_recv : s.release ≠ .recv := by
  unfold release; split <;> simp

theorem finish_ne_recv : s.finish ≠ .recv := by
  unfold finish; split
  · simp
  · exact s.release_ne_recv

variable (draw : Draw) {c : FtlCommand}

/-- What the command task does with a command: it ends, or is back at once without a reply, or
is on its way to one. -/
theorem handle_cases (hc : c.Complete) :
    (c = .disconnect ∧ s.handle draw c = (s, s.finish)) ∨
    (c.BadFlag ∧ s.handle draw c = (s, .recv)) ∨
    (¬ c.BadFlag ∧ c ≠ .disconnect ∧ (s.handle draw c).2.handling = 1) := by
  cases c with
  | disconnect => exact .inl ⟨rfl, rfl⟩
  | hmac | ping => exact .inr (.inr ⟨id, nofun, rfl⟩)
  | dot =>
      refine .inr (.inr ⟨id, nofun, ?_⟩)
      unfold handle
      cases s.rtpPort <;> rfl
  | connect data =>
      obtain ⟨key, hk⟩ := Option.isSome_iff_exists.1 hc.1
      obtain ⟨channel_id, hi⟩ := Option.isSome_iff_exists.1 hc.2
      exact .inr (.inr ⟨id, nofun, by simp [handle, hk, hi, CommandAt.handling]⟩)
  | «attribute» data =>
      obtain ⟨key, hk⟩ := Option.isSome_iff_exists.1 hc.1
      obtain ⟨value, hv⟩ := Option.isSome_iff_exists.1 hc.2
      have hbad : (FtlCommand.attribute data).BadFlag ↔ s.setAttribute key value = none := by
        rw [setAttribute_eq_none_iff, FtlCommand.BadFlag]
        simp [hk, hv]
      right
      rw [hbad]
      cases hs : s.setAttribute key value with
      | none => exact .inl ⟨rfl, by simp [handle, hk, hv, hs]⟩
      | some s' => exact .inr ⟨nofun, nofun, by simp [handle, hk, hv, hs, CommandAt.handling]⟩

end ConnectionState

/-! ## Turns -/

namespace Connection

/-- The commands and replies on their way, and the command being handled. -/
def inFlight (s : Connection) : ℕ :=
  s.commands.buf.length + s.replies.buf.length + s.command.handling

/-- The tasks take turns. -/
structure Lockstep (s : Connection) : Prop where
  le_one : s.inFlight ≤ 1
  /-- While something is in flight the frame task waits. -/
  waiting : s.inFlight ≠ 0 → s.frame = .recv
  /-- A command is only sent to a task that waits for it. -/
  expected : s.commands.buf ≠ [] → s.command = .recv
  /-- The command task only ends when nothing is in flight, and the frame task waits or is
  gone. -/
  finishing : s.command.finishing = true →
    s.inFlight = 0 ∧ (s.frame = .recv ∨ s.frame = .returned)
  /-- Commands come from the decoder. -/
  sending : ∀ c, s.frame = .sending c → c.Complete
  queued : ∀ c ∈ s.commands.buf, c.Complete

theorem Lockstep.new : Lockstep new where
  le_one := Nat.zero_le _
  waiting h := absurd rfl h
  expected h := absurd rfl h
  finishing := nofun
  sending := nofun
  queued := nofun

variable {s : Connection} {a : Action}

/-- A frame task that is not waiting has nothing in flight. -/
theorem Lockstep.inFlight_eq_zero (h : Lockstep s) (hf : s.frame ≠ .recv) : s.inFlight = 0 :=
  not_not.1 fun hn ↦ hf (h.waiting hn)

theorem Lockstep.commands_eq_nil (h : Lockstep s) (hc : s.command ≠ .recv) :
    s.commands.buf = [] := not_not.1 fun hn ↦ hc (h.expected hn)

/-- A task with something to say is waited for. -/
theorem Lockstep.frame_of_handling (h : Lockstep s) (hh : s.command.handling = 1) :
    s.frame = .recv := h.waiting (by simp [inFlight, hh])

/-- The command task is not on its way out while the frame task is busy. -/
theorem Lockstep.not_finishing (h : Lockstep s) (hr : s.frame ≠ .recv)
    (hd : s.frame ≠ .returned) : s.command.finishing ≠ true := fun hf ↦
  (h.finishing hf).2.elim hr hd

/-- The frame task moves while nothing is in flight. -/
theorem Lockstep.of_frame (h : Lockstep s) (h0 : s.inFlight = 0) {f : FrameAt}
    (hfin : s.command.finishing = true → f = .recv ∨ f = .returned)
    (hsend : ∀ c, f = .sending c → c.Complete) (buffer : List UInt8) :
    Lockstep { s with frame := f, buffer := buffer } where
  le_one := h.le_one
  waiting hn := absurd h0 hn
  expected := h.expected
  finishing hf := ⟨h0, hfin hf⟩
  sending := hsend
  queued := h.queued

/-- The command task moves without touching the channels. -/
theorem Lockstep.of_command (h : Lockstep s) (hc : s.commands.buf = []) {p : CommandAt}
    (hh : p.handling = s.command.handling)
    (hfin : p.finishing = true → s.inFlight = 0 ∧ (s.frame = .recv ∨ s.frame = .returned))
    (st : ConnectionState) : Lockstep { s with command := p, state := st } := by
  have hin : ({ s with command := p, state := st } : Connection).inFlight = s.inFlight := by
    simp [inFlight, hh]
  exact ⟨hin ▸ h.le_one, fun hn ↦ h.waiting (hin ▸ hn), fun hn ↦ absurd hc hn,
    fun hf ↦ hin ▸ hfin hf, h.sending, h.queued⟩

@[simp] theorem finishing_announce (port : UInt16) :
    (ConnectionState.announce port).finishing = false := rfl

@[simp] theorem handling_afterAllocate (r : Option UInt16) : (afterAllocate r).handling = 1 := by
  cases r <;> rfl

@[simp] theorem finishing_afterAllocate (r : Option UInt16) :
    (afterAllocate r).finishing = false := by
  cases r <;> rfl

/-- The frame task hands over a command, and waits. -/
theorem Lockstep.sendCommand (h : Lockstep s) {c : FtlCommand} (g : s.guard (.sendCommand c)) :
    Lockstep (s.effect (.sendCommand c) g) := by
  have h0 := h.inFlight_eq_zero (by rw [g.1]; exact nofun)
  have hf := h.not_finishing (by rw [g.1]; exact nofun) (by rw [g.1]; exact nofun)
  simp only [inFlight] at h0
  -- the command task is alive, has nothing to answer and is not on its way out
  have hcmd : s.command = .recv := by
    have hh : s.command.handling = 0 := by omega
    have hr := g.2.1
    cases hp : s.command <;> simp_all [CommandAt.handling, CommandAt.finishing]
  constructor
  case le_one =>
    simp only [inFlight, effect, Chan.buf_push, List.length_append, List.length_singleton]
    omega
  case waiting => exact fun _ ↦ rfl
  case expected => exact fun _ ↦ hcmd
  case finishing => exact fun hf' ↦ absurd hf' hf
  case sending => exact nofun
  case queued =>
    intro d hd
    rcases List.mem_append.1 hd with hd | hd
    · exact h.queued d hd
    · obtain rfl := List.mem_singleton.1 hd
      exact h.sending d g.1

/-- The frame task gets its reply. -/
theorem Lockstep.recvReply (h : Lockstep s) {data : List String} (g : s.guard (.recvReply data)) :
    Lockstep (s.effect (.recvReply data) g) := by
  have hb := Chan.buf_eq_cons g.2
  have hle := h.le_one
  simp only [inFlight, hb, List.length_cons] at hle
  have h0 : (s.effect (.recvReply data) g).inFlight = 0 := by
    simp only [inFlight, effect]
    omega
  have hc : s.commands.buf = [] := List.eq_nil_of_length_eq_zero (by omega)
  constructor
  case le_one => exact h0.le.trans (Nat.zero_le 1)
  case waiting => exact fun hn ↦ absurd h0 hn
  case expected => exact fun hn ↦ absurd hc hn
  case finishing =>
    intro hf
    have hin := (h.finishing hf).1
    simp only [inFlight, hb, List.length_cons] at hin
    omega
  case sending => exact nofun
  case queued => exact h.queued

/-- The command task gets the command. -/
theorem Lockstep.recvCommand (h : Lockstep s) {c : FtlCommand} {draw : Draw}
    (g : s.guard (.recvCommand c draw)) : Lockstep (s.effect (.recvCommand c draw) g) := by
  have hb := Chan.buf_eq_cons g.2
  have hle := h.le_one
  simp only [inFlight, hb, List.length_cons] at hle
  have hpop : s.commands.pop.buf = [] := List.eq_nil_of_length_eq_zero (by omega)
  have hr : s.replies.buf = [] := List.eq_nil_of_length_eq_zero (by omega)
  have hframe : s.frame = .recv := h.waiting (by
    simp only [inFlight, hb, List.length_cons]
    omega)
  have hin : (s.effect (.recvCommand c draw) g).inFlight = (s.state.handle draw c).2.handling := by
    simp only [inFlight, effect, hpop, hr, List.length_nil, Nat.zero_add]
  constructor
  case le_one =>
    rw [hin]
    cases (s.state.handle draw c).2 <;> simp [CommandAt.handling]
  case waiting => exact fun _ ↦ hframe
  case expected => exact fun hn ↦ absurd hpop hn
  case finishing =>
    intro hf
    refine ⟨?_, .inl hframe⟩
    rw [hin]
    change (s.state.handle draw c).2.finishing = true at hf
    cases hp : (s.state.handle draw c).2 <;> rw [hp] at hf <;> first | rfl | cases hf
  case sending => exact h.sending
  case queued => exact fun d hd ↦ absurd (hpop ▸ hd) List.not_mem_nil

/-- The command task answers. -/
theorem Lockstep.reply (h : Lockstep s) {data : List String} {after : AfterReply}
    (g : s.guard (.reply data after)) : Lockstep (s.effect (.reply data after) g) := by
  have hle := h.le_one
  have hframe := h.frame_of_handling (by rw [g.1]; rfl)
  have hc := h.commands_eq_nil (by rw [g.1]; exact nofun)
  have hh : (after.next true).handling = 0 := by cases after <;> rfl
  have hfin : (after.next true).finishing ≠ true := by cases after <;> exact nofun
  constructor
  case le_one =>
    simp only [inFlight, g.1, CommandAt.handling] at hle
    simp only [inFlight, effect, hh, Chan.buf_push, List.length_append, List.length_singleton]
    omega
  case waiting => exact fun _ ↦ hframe
  case expected => exact fun hn ↦ absurd hc hn
  case finishing => exact fun hf ↦ absurd hf hfin
  case sending => exact h.sending
  case queued => exact h.queued

/-- **Turn-taking** is preserved by every step. -/
theorem Lockstep.step (h : Lockstep s) (g : s.guard a) : Lockstep (s.effect a g) := by
  cases a with
  | decode =>
      refine h.of_frame (h.inFlight_eq_zero (by rw [g.1]; exact nofun)) (fun hf ↦ ?_)
        (fun c hc ↦ ?_) _
      · exact absurd hf (h.not_finishing (by rw [g.1]; exact nofun) (by rw [g.1]; exact nofun))
      · have hdec : (FtlCodec.decode s.buffer).1 = .command c := by
          cases hd : (FtlCodec.decode s.buffer).1 <;> simp [hd, FrameAt.afterDecode] at hc
          rw [hc]
        exact FtlCodec.complete_of_decode hdec
  | read chunk => exact ⟨h.le_one, h.waiting, h.expected, h.finishing, h.sending, h.queued⟩
  | eof | readError | sendCommandError c =>
      exact h.of_frame (h.inFlight_eq_zero (by rw [g.1]; exact nofun)) (fun _ ↦ .inr rfl) nofun _
  | recvReplyNone =>
      obtain ⟨-, hr, hc⟩ := g
      have hc' := h.commands_eq_nil (by rw [hc]; exact nofun)
      exact h.of_frame (by simp [inFlight, hr, hc, hc', CommandAt.handling]) (fun _ ↦ .inr rfl)
        nofun _
  | writeError item items n =>
      have hs : s.frame = .writing (item :: items) := g.1
      exact h.of_frame (h.inFlight_eq_zero (by rw [hs]; exact nofun)) (fun _ ↦ .inr rfl) nofun _
  | write item items =>
      have hs : s.frame = .writing (item :: items) := g
      have hf := h.not_finishing (by rw [hs]; exact nofun) (by rw [hs]; exact nofun)
      exact h.of_frame (f := .writing items) (h.inFlight_eq_zero (by rw [hs]; exact nofun))
        (fun hf' ↦ absurd hf' hf) nofun _
  | writeEnd =>
      have hs : s.frame = .writing [] := g
      have hf := h.not_finishing (by rw [hs]; exact nofun) (by rw [hs]; exact nofun)
      exact h.of_frame (f := .next) (h.inFlight_eq_zero (by rw [hs]; exact nofun))
        (fun hf' ↦ absurd hf' hf) nofun _
  | sendCommand c => exact h.sendCommand g
  | recvReply data => exact h.recvReply g
  | recvCommand c draw => exact h.recvCommand g
  | recvCommandNone =>
      obtain ⟨hc, hb, hf⟩ := g
      refine h.of_command hb ?_ (fun _ ↦ ⟨?_, .inr hf⟩) _
      · rw [hc, ConnectionState.handling_finish]
        rfl
      · exact h.inFlight_eq_zero (by rw [hf]; exact nofun)
  | notifyStart key ok =>
      have hc : s.command = .notifyStart key := g
      exact h.of_command (p := .reply ["200\n"] .loop) (h.commands_eq_nil (by rw [hc]; exact nofun))
        (by rw [hc]; rfl) nofun _
  | allocate r =>
      have hc : s.command = .allocate := g
      refine h.of_command (h.commands_eq_nil (by rw [hc]; exact nofun)) ?_ ?_ _
      · rw [hc, handling_afterAllocate]
        rfl
      · rw [finishing_afterAllocate]
        exact nofun
  | reply data after => exact h.reply g
  | replyError data after =>
      have hf := h.frame_of_handling (by rw [g.1]; rfl)
      rw [g.2] at hf
      cases hf
  | notifyEnd key ok =>
      have hc : s.command = .notifyEnd key := g
      have hfin := h.finishing (by rw [hc]; rfl)
      refine h.of_command (h.commands_eq_nil (by rw [hc]; exact nofun)) ?_ (fun _ ↦ hfin) _
      rw [hc, ConnectionState.handling_release]
      rfl
  | freePort port =>
      have hc : s.command = .freePort port := g
      exact h.of_command (p := .returned) (h.commands_eq_nil (by rw [hc]; exact nofun))
        (by rw [hc]; rfl) nofun _

end Connection

/-- The tasks take turns in every run. -/
theorem lockstep_of_reach {ok : Connection → Action → Prop} {h : List Event} {s : Connection}
    (hr : connection.Reach ok h s) : s.Lockstep :=
  hr.invariant_state (by rintro _ rfl; exact .new) fun _ _ g hl _ ↦ hl.step g

end ITG.Ingest
