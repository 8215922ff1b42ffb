import ITG.Ingest.Ports
import ITG.Webrtc.Server.Creators

/-!
# Ingest and WebRTC server together

Any number of ingest connections and one WebRTC server.  The connections share nothing with each
other, and with the server only the requests that `allocate_port` and `free_port` make: every
connection has a request handler of its own, and a request is answered before its connection
goes on.  Nobody else sends requests that create or delete streams, each request arrives once and
is answered, reads on open UDP sockets do not fail, and the operating system binds ports from `1`
to `65535`.  The arrival of a request and the arrival of its answer are steps of both parties; in
between both go on by themselves.

A run of the whole is, seen from each connection and from the server, one of its own runs
(`connection_of_reach`, `server_of_reach`), so what was proved about each of them holds here.
-/

universe u

namespace ITG.Ingest

/-- The step is not the end of a request to the server. -/
def Action.Alone : Action → Prop
  | .allocate _ | .freePort _ => False
  | _ => True

instance : ∀ a : Action, Decidable a.Alone := by
  intro a
  apply Action.casesOn (motive := fun a ↦ Decidable a.Alone) a <;>
    (intros; dsimp only [Action.Alone]; infer_instance)

namespace Connection

variable {s : Connection} {a : Action}

/-- The port changes only with the answer of the server. -/
theorem rtpPort_effect (g : s.guard a) (ha : a.Alone) :
    (s.effect a g).state.rtpPort = s.state.rtpPort := by
  cases a with
  | recvCommand c draw => exact ConnectionState.rtpPort_handle
  | allocate r => exact ha.elim
  | _ => rfl

/-- A command task that waits for the server stays where it is. -/
theorem command_effect (g : s.guard a) (ha : a.Alone)
    (hc : s.command = .allocate ∨ ∃ port, s.command = .freePort port) :
    (s.effect a g).command = s.command := by
  cases a with
  | allocate r | freePort port => exact ha.elim
  | recvCommand c draw | recvCommandNone | reply data after | replyError data after =>
      rcases hc with hc | ⟨port, hc⟩ <;> cases hc.symm.trans g.1
  | notifyStart key ok | notifyEnd key ok =>
      rcases hc with hc | ⟨port, hc⟩ <;> cases hc.symm.trans g
  | _ => rfl

theorem command_effect_returned (g : s.guard a) (hc : s.command = .returned) :
    (s.effect a g).command = .returned := by
  cases a with
  | recvCommand c draw | recvCommandNone | reply data after | replyError data after =>
      cases hc.symm.trans g.1
  | notifyStart key ok | notifyEnd key ok | allocate r | freePort port => cases hc.symm.trans g
  | _ => exact hc

end Connection

end ITG.Ingest

namespace ITG.Webrtc.Server

variable {C : Type u}

/-- The step is one that the server takes by itself, and the operating system keeps to its
side. -/
def Alone (s : Server C) : Server.Action C → Prop
  | .request _ _ | .reply _ _ => False
  | .listen _ _ p => 1 ≤ p ∧ p ≤ 65535
  | .readError i => s.isOpen i = false
  | _ => True

instance (s : Server C) : ∀ a, Decidable (s.Alone a) := by
  intro a
  apply Action.casesOn (motive := fun a ↦ Decidable (s.Alone a)) a <;>
    (intros; dsimp only [Alone]; infer_instance)

theorem Alone.readsSucceed {s : Server C} {a : Server.Action C} (h : s.Alone a) :
    s.ReadsSucceed a := by
  cases a with
  | readError i => exact h
  | _ => trivial

end ITG.Webrtc.Server

namespace ITG.System

open ITG.Lib ITG.Webrtc

/-! ## Requests -/

/-- The request of `allocate_port`. -/
def allocateRequest : Request := ⟨.post, ""⟩

/-- The request of `free_port`. -/
def freeRequest (port : UInt16) : Request := ⟨.delete, toString port.toNat⟩

@[simp] theorem streamHandler_allocateRequest : streamHandler allocateRequest = .listen 0 := rfl

/-- The handler reads the port that `free_port` wrote. -/
@[simp] theorem streamHandler_freeRequest (port : UInt16) :
    streamHandler (freeRequest port) = .deleteLock port.toNat := by
  have hread : atoi (toString port.toNat) = some (port.toNat : ℤ) :=
    atoi_repr (Nat.lt_trans port.toNat_lt (by decide))
  have hne : toString port.toNat ≠ "" := fun he ↦ by
    rw [he] at hread
    cases hread
  simp only [streamHandler, freeRequest, hne, hread, if_false]

/-- What `allocate_port` makes of an answer: its field `port`, if that is a `u64`, cut to 16 bits.
The other answers are no JSON objects. -/
def allocatePort {C : Type u} (s : Server C) : Response → Option UInt16
  | .stream i => if 0 ≤ s.port i then some (.ofNat (s.port i).toNat) else none
  | .internalServerError | .noContent | .badRequest | .methodNotAllowed => none

/-- A port is a 16-bit number. -/
theorem allocatePort_stream {C : Type u} {s : Server C} {i : ℕ}
    (h : 1 ≤ s.port i ∧ s.port i ≤ 65535) :
    ∃ p : UInt16, allocatePort s (.stream i) = some p ∧ s.port i = p.toNat := by
  refine ⟨.ofNat (s.port i).toNat, if_pos (by omega), ?_⟩
  rw [UInt16.toNat_ofNat_of_lt' (by simp [UInt16.size]; omega)]
  omega

/-! ## The world -/

/-- The connections and the server. -/
structure World (C : Type u) where
  conn : C → Ingest.Connection
  server : Server C

/-- What an observer of the whole sees. -/
inductive Event (C : Type u) where
  | conn (c : C) (e : Ingest.Event)
  | server (e : Server.Event C)
deriving DecidableEq

/-- The steps of the parties. -/
inductive Action (C : Type u) where
  /-- A step of a connection by itself. -/
  | conn (c : C) (a : Ingest.Action)
  /-- A step of the server by itself. -/
  | server (a : Server.Action C)
  /-- The request of `allocate_port` arrives. -/
  | post (c : C)
  /-- Its answer arrives. -/
  | allocated (c : C) (r : Response)
  /-- The request of `free_port` arrives. -/
  | delete (c : C) (port : UInt16)
  /-- Its answer arrives. -/
  | freed (c : C) (port : UInt16) (r : Response)

namespace World

variable {C : Type u} [DecidableEq C]

/-- When an action is enabled. -/
def guard (w : World C) : Action C → Prop
  | .conn c a => (w.conn c).guard a ∧ a.Alone
  | .server a => w.server.guard a ∧ w.server.Alone a
  | .post c => (w.conn c).command = .allocate ∧ w.server.guard (.request c allocateRequest)
  | .allocated c r => (w.conn c).command = .allocate ∧ w.server.guard (.reply c r)
  | .delete c port =>
      (w.conn c).command = .freePort port ∧ w.server.guard (.request c (freeRequest port))
  | .freed c port r => (w.conn c).command = .freePort port ∧ w.server.guard (.reply c r)

instance (w : World C) : ∀ a, Decidable (w.guard a) := by
  intro a
  cases a <;> (dsimp only [guard]; infer_instance)

/-- A step of a connection. -/
def stepConn (w : World C) (c : C) (a : Ingest.Action) (g : (w.conn c).guard a) : World C :=
  { w with conn := Function.update w.conn c ((w.conn c).effect a g) }

/-- A step of the server. -/
def stepServer (w : World C) (a : Server.Action C) (g : w.server.guard a) : World C :=
  { w with server := w.server.effect a g }

/-- The state after an enabled action. -/
def effect (w : World C) : (a : Action C) → w.guard a → World C
  | .conn c a, g => w.stepConn c a g.1
  | .server a, g => w.stepServer a g.1
  | .post c, g => w.stepServer (.request c allocateRequest) g.2
  | .allocated c r, g =>
      (w.stepConn c (.allocate (allocatePort w.server r)) g.1).stepServer (.reply c r) g.2
  | .delete c port, g => w.stepServer (.request c (freeRequest port)) g.2
  | .freed c port r, g => (w.stepConn c (.freePort port) g.1).stepServer (.reply c r) g.2

/-- The events of an action. -/
def emit (w : World C) : Action C → List (Event C)
  | .conn c a => (Ingest.Connection.emit a).map (.conn c)
  | .server a => (Server.emit a).map .server
  | .allocated c r => [.conn c (.allocated (allocatePort w.server r))]
  | .freed c port _ => [.conn c (.freed port)]
  | .post _ | .delete _ _ => []

end World

/-- The world as a transition system, until the server panics.  To begin with no connection has
read a byte, and `New` is about to open the socket of the configured port. -/
def world (C : Type u) [DecidableEq C] (RTPPort : ℤ) : Machine (World C) (Action C) (Event C) where
  init w := w = ⟨fun _ ↦ .new, .new RTPPort⟩
  guard w a := w.server.panicked = false ∧ w.guard a
  effect w a g := w.effect a g.2
  emit w a := w.emit a

instance {C : Type u} [DecidableEq C] {RTPPort : ℤ} :
    ∀ w a, Decidable ((world C RTPPort).guard w a) :=
  fun w a ↦ inferInstanceAs (Decidable (w.server.panicked = false ∧ w.guard a))

/-! ## The world as its parties see it -/

/-- The events of one connection. -/
def Event.ofConn {C : Type u} [DecidableEq C] (c : C) : Event C → Option Ingest.Event
  | .conn d e => if d = c then some e else none
  | .server _ => none

/-- The events of the server. -/
def Event.ofServer {C : Type u} : Event C → Option (Server.Event C)
  | .server e => some e
  | .conn _ _ => none

section Views

variable {C : Type u} [DecidableEq C] {RTPPort : ℤ} {h : List (Event C)} {w : World C}

theorem filterMap_ofConn_self (c : C) (es : List Ingest.Event) :
    (es.map (Event.conn c)).filterMap (Event.ofConn c) = es := by
  simp [List.filterMap_map, Function.comp_def, Event.ofConn]

theorem filterMap_ofConn_of_ne {c d : C} (hd : d ≠ c) (es : List Ingest.Event) :
    (es.map (Event.conn d)).filterMap (Event.ofConn c) = [] := by
  simp [List.filterMap_map, Function.comp_def, Event.ofConn, hd]

theorem filterMap_ofConn_server (c : C) (es : List (Server.Event C)) :
    (es.map Event.server).filterMap (Event.ofConn c) = [] := by
  simp [List.filterMap_map, Function.comp_def, Event.ofConn]

omit [DecidableEq C] in
theorem filterMap_ofServer_server (es : List (Server.Event C)) :
    (es.map Event.server).filterMap Event.ofServer = es := by
  simp [List.filterMap_map, Function.comp_def, Event.ofServer]

omit [DecidableEq C] in
theorem filterMap_ofServer_conn (c : C) (es : List Ingest.Event) :
    (es.map (Event.conn c)).filterMap Event.ofServer = [] := by
  simp [List.filterMap_map, Function.comp_def, Event.ofServer]

/-- A connection takes its own steps, and stands still when the others move. -/
theorem connection_simulation (c : C) :
    Simulation (world C RTPPort) (world C RTPPort).free Ingest.connection Ingest.connection.free
      (fun w s ↦ w.conn c = s) (Event.ofConn c) where
  init := by
    rintro _ rfl
    exact ⟨.new, rfl, rfl⟩
  step := by
    rintro w _ a ⟨-, g⟩ rfl -
    -- a step of the connection `d`, seen from `c`
    have hconn : ∀ (d : C) (b : Ingest.Action) (gb : (w.conn d).guard b),
        ((w.stepConn d b gb).conn c = w.conn c ∧
            ((Ingest.Connection.emit b).map (Event.conn d)).filterMap (Event.ofConn c) = []) ∨
          ∃ b', Ingest.connection.free (w.conn c) b' ∧
            ∃ g' : Ingest.connection.guard (w.conn c) b',
              (w.stepConn d b gb).conn c = Ingest.connection.effect (w.conn c) b' g' ∧
              ((Ingest.Connection.emit b).map (Event.conn d)).filterMap (Event.ofConn c) =
                Ingest.connection.emit (w.conn c) b' := by
      intro d b gb
      by_cases hd : d = c
      · subst hd
        exact .inr ⟨b, trivial, gb, Function.update_self .., filterMap_ofConn_self d _⟩
      · exact .inl ⟨Function.update_of_ne (Ne.symm hd) .., filterMap_ofConn_of_ne hd _⟩
    cases a with
    | conn d b => exact hconn d b g.1
    | allocated d r => exact hconn d (.allocate (allocatePort w.server r)) g.1
    | freed d port r => exact hconn d (.freePort port) g.1
    | server b => exact .inl ⟨rfl, filterMap_ofConn_server c _⟩
    | post d | delete d port => exact .inl ⟨rfl, rfl⟩

/-- The server takes its own steps, and reads on open sockets succeed. -/
theorem server_simulation :
    Simulation (world C RTPPort) (world C RTPPort).free (server C RTPPort) Server.ReadsSucceed
      (fun w s ↦ w.server = s) Event.ofServer where
  init := by
    rintro _ rfl
    exact ⟨.new RTPPort, rfl, rfl⟩
  step := by
    rintro w _ a ⟨hp, g⟩ rfl -
    cases a with
    | conn d b => exact .inl ⟨rfl, filterMap_ofServer_conn d _⟩
    | server b => exact .inr ⟨b, g.2.readsSucceed, ⟨hp, g.1⟩, rfl, filterMap_ofServer_server _⟩
    | post d => exact .inr ⟨.request d allocateRequest, trivial, ⟨hp, g.2⟩, rfl, rfl⟩
    | delete d port => exact .inr ⟨.request d (freeRequest port), trivial, ⟨hp, g.2⟩, rfl, rfl⟩
    | allocated d r | freed d port r => exact .inr ⟨.reply d r, trivial, ⟨hp, g.2⟩, rfl, rfl⟩

/-- A run of the world is a run of each connection. -/
theorem connection_of_reach (hr : (world C RTPPort).Reach (world C RTPPort).free h w) (c : C) :
    Ingest.connection.Reach Ingest.connection.free (h.filterMap (Event.ofConn c)) (w.conn c) := by
  obtain ⟨_, hreach, rfl⟩ := (connection_simulation c).reach hr
  exact hreach

/-- A run of the world is a run of the server in which reads on open sockets succeed. -/
theorem server_of_reach (hr : (world C RTPPort).Reach (world C RTPPort).free h w) :
    (server C RTPPort).Reach Server.ReadsSucceed (h.filterMap Event.ofServer) w.server := by
  obtain ⟨_, hreach, rfl⟩ := server_simulation.reach hr
  exact hreach

end Views

end ITG.System
