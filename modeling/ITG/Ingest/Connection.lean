import ITG.Ingest.State
import ITG.Lib.Machine
import ITG.Lib.Sync

/-!
# The two tasks of a connection

`Connection::init` spawns a *frame task*, which owns the socket and its codec, and a *command
task*, which owns the `ConnectionState`.  Commands go from the first to the second through one
bounded channel and replies come back through another.

A task that returns or panics drops its ends of the two channels.  A receiver whose sender is
gone gets what is still buffered and then `None`; a send to a receiver that is gone fails.  So
the ends need no state of their own: they are gone when their task is at its last program point.

What the outside does is left open: how the bytes of the client arrive, when reading or writing
fails and after how many bytes, and how the calls of `allocate_port`, `notify_stream_start` and
`notify_stream_end` end, each of which returns.
-/

namespace ITG.Ingest

open ITG.Lib

/-- Program points of the frame task. -/
inductive FrameAt where
  /-- In `frame.next()`. -/
  | next
  /-- In `frame_send.send(command)`. -/
  | sending (c : FtlCommand)
  /-- In `frame_receive.recv()`. -/
  | recv
  /-- In `handle_frame_command`, with the items still to be sent. -/
  | writing (items : List String)
  | returned
deriving DecidableEq

/-- What `frame.next()` makes of the outcome of a `decode`: errors and panics end the task. -/
def FrameAt.afterDecode : Decoded → FrameAt
  | .command c => .sending c
  | .pending | .error _ | .panic => .returned

/-- A connection. -/
structure Connection where
  frame : FrameAt
  /-- The read buffer of the `Framed`. -/
  buffer : List UInt8
  /-- From `frame_send` to `conn_receive`. -/
  commands : Chan FtlCommand 2
  /-- From `conn_send` to `frame_receive`: the `data` of each `FrameCommand::Send`. -/
  replies : Chan (List String) 2
  command : CommandAt
  state : ConnectionState

/-- What an observer of a connection sees. -/
inductive Event where
  /-- The command task received a command. -/
  | received (c : FtlCommand)
  | notifiedStart (key : String) (ok : Bool)
  /-- A call of `allocate_port` returned. -/
  | allocated (r : Option UInt16)
  /-- `conn_send.send` took a reply. -/
  | replied (data : List String)
  /-- `conn_send.send` failed. -/
  | dropped (data : List String)
  /-- The frame task received a reply. -/
  | executed (data : List String)
  /-- The frame task wrote bytes to the socket. -/
  | wrote (bytes : List UInt8)
  | notifiedEnd (key : String) (ok : Bool)
  /-- A call of `free_port` returned. -/
  | freed (port : UInt16)
deriving DecidableEq

/-- The steps of the two tasks. -/
inductive Action where
  -- the frame task
  | decode
  | read (chunk : List UInt8)
  | eof
  | readError
  | sendCommand (c : FtlCommand)
  | sendCommandError (c : FtlCommand)
  | recvReply (data : List String)
  | recvReplyNone
  | write (item : String) (items : List String)
  /-- A write fails after `n` bytes, and before its end. -/
  | writeError (item : String) (items : List String) (n : ℕ)
  | writeEnd
  -- the command task
  | recvCommand (c : FtlCommand) (draw : Draw)
  | recvCommandNone
  | notifyStart (key : String) (ok : Bool)
  | allocate (r : Option UInt16)
  | reply (data : List String) (after : AfterReply)
  | replyError (data : List String) (after : AfterReply)
  | notifyEnd (key : String) (ok : Bool)
  | freePort (port : UInt16)

/-- Where the command task goes when the send of a reply has returned. -/
def AfterReply.next : AfterReply → Bool → CommandAt
  | .loop, _ | .dot, true => .recv
  | .dot, false | .failed, _ => .returned

namespace Connection

/-- `Connection::init`. -/
def new : Connection where
  frame := .next
  buffer := []
  commands := .empty
  replies := .empty
  command := .recv
  state := .new

/-- When an action is enabled. -/
def guard (s : Connection) : Action → Prop
  | .decode => s.frame = .next ∧ (FtlCodec.decode s.buffer).1 ≠ .pending
  | .read chunk => s.frame = .next ∧ (FtlCodec.decode s.buffer).1 = .pending ∧ chunk ≠ []
  | .eof => s.frame = .next ∧ (FtlCodec.decode s.buffer).1 = .pending
  | .readError => s.frame = .next ∧ (FtlCodec.decode s.buffer).1 = .pending
  | .sendCommand c => s.frame = .sending c ∧ s.command ≠ .returned ∧ s.commands.HasRoom
  | .sendCommandError c => s.frame = .sending c ∧ s.command = .returned
  | .recvReply data => s.frame = .recv ∧ s.replies.buf.head? = some data
  | .recvReplyNone => s.frame = .recv ∧ s.replies.buf = [] ∧ s.command = .returned
  | .write item items => s.frame = .writing (item :: items)
  | .writeError item items n =>
      s.frame = .writing (item :: items) ∧ n < (FtlCodec.encode item).length
  | .writeEnd => s.frame = .writing []
  | .recvCommand c _ => s.command = .recv ∧ s.commands.buf.head? = some c
  | .recvCommandNone => s.command = .recv ∧ s.commands.buf = [] ∧ s.frame = .returned
  | .notifyStart key _ => s.command = .notifyStart key
  | .allocate _ => s.command = .allocate
  | .reply data after => s.command = .reply data after ∧ s.frame ≠ .returned ∧ s.replies.HasRoom
  | .replyError data after => s.command = .reply data after ∧ s.frame = .returned
  | .notifyEnd key _ => s.command = .notifyEnd key
  | .freePort port => s.command = .freePort port

instance (s : Connection) : ∀ a, Decidable (s.guard a) := by
  intro a
  cases a <;> (dsimp only [guard]; infer_instance)

/-- What the command task does with the result of `allocate_port`. -/
def afterAllocate : Option UInt16 → CommandAt
  | some port => ConnectionState.announce port
  | none => .reply [allocationFailed] .failed

/-- The state after an enabled action. -/
def effect (s : Connection) : (a : Action) → s.guard a → Connection
  | .decode, _ =>
      { s with
        frame := .afterDecode (FtlCodec.decode s.buffer).1
        buffer := (FtlCodec.decode s.buffer).2 }
  | .read chunk, _ => { s with buffer := s.buffer ++ chunk }
  | .eof, _ => { s with frame := .returned }
  | .readError, _ => { s with frame := .returned }
  | .sendCommand c, g => { s with commands := s.commands.push c g.2.2, frame := .recv }
  | .sendCommandError _, _ => { s with frame := .returned }
  | .recvReply data, _ => { s with replies := s.replies.pop, frame := .writing data }
  | .recvReplyNone, _ => { s with frame := .returned }
  | .write _ items, _ => { s with frame := .writing items }
  | .writeError _ _ _, _ => { s with frame := .returned }
  | .writeEnd, _ => { s with frame := .next }
  | .recvCommand c draw, _ =>
      { s with
        commands := s.commands.pop
        state := (s.state.handle draw c).1
        command := (s.state.handle draw c).2 }
  | .recvCommandNone, _ => { s with command := s.state.finish }
  | .notifyStart _ _, _ => { s with command := .reply ["200\n"] .loop }
  | .allocate r, _ => { s with state := { s.state with rtpPort := r }, command := afterAllocate r }
  | .reply data after, g =>
      { s with replies := s.replies.push data g.2.2, command := after.next true }
  | .replyError _ after, _ => { s with command := after.next false }
  | .notifyEnd _ _, _ => { s with command := s.state.release }
  | .freePort _, _ => { s with command := .returned }

/-- The events of an action. -/
def emit : Action → List Event
  | .recvReply data => [.executed data]
  | .write item _ => [.wrote (FtlCodec.encode item)]
  | .writeError item _ n => [.wrote ((FtlCodec.encode item).take n)]
  | .recvCommand c _ => [.received c]
  | .notifyStart key ok => [.notifiedStart key ok]
  | .allocate r => [.allocated r]
  | .reply data _ => [.replied data]
  | .replyError data _ => [.dropped data]
  | .notifyEnd key ok => [.notifiedEnd key ok]
  | .freePort port => [.freed port]
  | .decode | .read _ | .eof | .readError | .sendCommand _ | .sendCommandError _
  | .recvReplyNone | .writeEnd | .recvCommandNone => []

end Connection

/-- A connection as a transition system. -/
def connection : Machine Connection Action Event where
  init s := s = .new
  guard s a := s.guard a
  effect s a g := s.effect a g
  emit _ a := Connection.emit a

instance : ∀ s a, Decidable (connection.guard s a) :=
  fun s a ↦ inferInstanceAs (Decidable (s.guard a))

end ITG.Ingest
