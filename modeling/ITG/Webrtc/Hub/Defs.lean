import Mathlib.Data.Finset.Card
import Mathlib.Order.Lattice
import ITG.Lib.Machine
import ITG.Lib.Sync

/-!
# The hub and its goroutines

One stream's `ws.Hub` together with every goroutine that touches it: `Hub.Run`, the
`websocketHandler` of each viewer (with its `ReadLoop`), the `WriteLoop` of each viewer, the
ICE-candidate and connection-state callbacks of each peer connection, the `SendInfo`
goroutines, and the `deleteStream` that closes the hub.

The type `C` of clients is arbitrary.  A client that never connects stays at `HandlerAt.idle`,
so one state covers any number of viewers.

## Granularity

Each goroutine has a *program point*, and an action moves one goroutine past one operation on
shared state: a channel operation, a lock operation, an access to `Clients`, a `close`.  Two
actions are rendezvous: a send on an unbuffered channel moves the sender and the receiver
together (`Action.send`, `Action.castSend` on `c.Send`, `Action.recvBroadcast` on
`Broadcast`).  Local computation between two such operations has no step of its own; in
particular `json.Marshal` of an offer, a candidate or an `Info` never fails.

The outcome of a websocket read, write or ping, the moments at which pion calls back, and the
choice a `select` makes among its ready cases are all left open: each is an action of its own
that is enabled whenever the operation may return that way.

`c.Send` is unbuffered, so its only state is whether it has been closed.  A send on a closed
channel and a second `close` panic, and a panic ends the process: it sets `panicked`, after
which no action is enabled.
-/

universe u

namespace ITG.Webrtc

open ITG.Lib

/-- The text messages that reach a viewer.  An offer carries the session description of the
viewer's own peer connection, so it needs no argument. -/
inductive Message where
  | offer
  | candidate (i : ℕ)
  | info (noConnections : ℕ)
deriving DecidableEq, Repr

/-- The two places that run
`hub.RLock(); if _, ok := hub.Clients[c]; ok { c.Send <- msg }; hub.RUnlock()`:
the offer step of `websocketHandler`, and the `k`-th call of the ICE-candidate callback. -/
inductive Sender (C : Type u) where
  | handler (c : C)
  | callback (c : C) (k : ℕ)
deriving DecidableEq

/-- The client a sender sends to. -/
def Sender.client {C : Type u} : Sender C → C
  | .handler c | .callback c _ => c

@[simp] theorem Sender.client_handler {C : Type u} (c : C) : (handler c).client = c := rfl
@[simp] theorem Sender.client_callback {C : Type u} (c : C) (k : ℕ) :
    (callback c k).client = c := rfl

/-- The goroutines that take the hub's read lock. -/
inductive Holder (C : Type u) where
  | run
  | sender (g : Sender C)
deriving DecidableEq

/-- Why `Run` takes the hub's write lock. -/
inductive Change (C : Type u) where
  | register (c : C)
  | unregister (c : C)
  | done
deriving DecidableEq

/-- Program points of `Hub.Run`. -/
inductive RunAt (C : Type u) where
  /-- At the `select`. -/
  | select
  /-- About to call `Lock`. -/
  | wantLock (w : Change C)
  /-- In `Lock`, waiting for the readers to leave. -/
  | waitLock (w : Change C)
  /-- Holding the write lock. -/
  | locked (w : Change C)
  /-- In the loop of the `done` branch, between `conn.Close` and `close(client.Send)`. -/
  | doneClose (c : C)
  /-- About to call `Unlock`. -/
  | unlock (w : Change C)
  | unregRLock (c : C)
  | unregCheck (c : C)
  | unregRUnlock (c : C) (ok : Bool)
  | connClose (c : C)
  | sendClose (c : C)
  | infoRLock
  | infoLen
  | infoRUnlock (n : ℕ)
  /-- About to execute `go h.SendInfo(info)`. -/
  | goSendInfo (n : ℕ)
  | castRLock (m : Message)
  /-- In the broadcast loop, with the clients still to be served. -/
  | castNext (m : Message) (rest : Finset C)
  /-- Blocked in `client.Send <- message`. -/
  | castSend (m : Message) (c : C) (rest : Finset C)
  | castRUnlock
  | returned
deriving DecidableEq

/-- Program points of `websocketHandler` from the look-up of its stream on. -/
inductive HandlerAt where
  | idle
  /-- The stream was found and the connection upgraded; next comes `go c.WriteLoop()`. -/
  | newClient
  | register
  | onICECandidate
  | onConnectionStateChange
  | setLocalDescription
  /-- In the offer step, which `Sender.handler` executes. -/
  | offer
  /-- In `ReadLoop`, reading. -/
  | reading
  /-- In the deferred function of `ReadLoop`, about to call `Closed`. -/
  | closed
  | unregister
  | connClose
  /-- About to run the deferred `peerConnection.Close()` and `conn.Close()`. -/
  | peerClose
  | returned
deriving DecidableEq, Repr

/-- The program points of a handler are ordered as it passes them: `.setLocalDescription <
s.handler c` says that `SetLocalDescription` has been called, and `s.handler c ≤ .register` that
the client has not been sent on `Register`. -/
instance : LinearOrder HandlerAt :=
  .lift' HandlerAt.ctorIdx fun p q h ↦ by cases p <;> cases q <;> first | rfl | cases h

/-- Program points of the snippet that a `Sender` runs. -/
inductive SendAt where
  | idle
  | rLock (m : Message)
  | check (m : Message)
  /-- Blocked in `c.Send <- msg`. -/
  | send (m : Message)
  | rUnlock (m : Message)
  /-- Returned; `none` if the callback was called with a `nil` candidate. -/
  | over (m : Option Message)
deriving DecidableEq, Repr

/-- The ICE-candidate callback is called: it returns at once on a `nil` candidate. -/
def SendAt.called : Option ℕ → SendAt
  | none => .over none
  | some i => .rLock (.candidate i)

/-- Program points of the `k`-th call of a connection-state callback. -/
inductive StateAt where
  | idle
  /-- Called with `Failed`: about to call `peerConnection.Close()`. -/
  | failed
  | unregister
  | over
deriving DecidableEq, Repr

/-- Program points of `WriteLoop`. -/
inductive WriteAt where
  | idle
  /-- At the `select`. -/
  | select
  /-- Between the receive of a message and the end of its websocket write. -/
  | writing (m : Message)
  /-- `c.Send` was found closed: about to write the close message. -/
  | closing
  | returned
deriving DecidableEq, Repr

/-- The hub and the program points of its goroutines. -/
structure Hub (C : Type u) where
  Clients : Finset C
  Register : Chan C 1
  Unregister : Chan C 1
  /-- The embedded `sync.RWMutex`. -/
  mu : RWMutex (Holder C)
  /-- `done` is closed. -/
  done : Bool
  /-- The stream is still in `Server.streams`, where handlers look it up. -/
  listed : Bool
  run : RunAt C
  /-- The `SendInfo` goroutines blocked in `h.Broadcast <- msg`, by the count they carry. -/
  infos : List ℕ
  handler : C → HandlerAt
  sender : Sender C → SendAt
  stateChange : C → ℕ → StateAt
  writer : C → WriteAt
  /-- The websocket connection has been closed on this side. -/
  connClosed : C → Bool
  /-- `c.Send` is closed. -/
  sendClosed : C → Bool
  panicked : Bool

/-- What an observer of the hub sees. -/
inductive Event (C : Type u) where
  /-- `Run` added the client to `Clients`. -/
  | registered (c : C)
  /-- `Run` finished with an `Unregister` of the client: it deleted the client, or did not
  find it. -/
  | unregistered (c : C)
  /-- `Run` took a message from `Broadcast`. -/
  | broadcast (m : Message)
  /-- `WriteLoop` received a message from `c.Send`. -/
  | received (c : C) (m : Message)
  /-- It received it from this sender. -/
  | handed (k : Sender C) (m : Message)
deriving DecidableEq

/-- The steps of the goroutines. -/
inductive Action (C : Type u) where
  -- `Run`: the cases of the `select`
  | recvRegister (c : C)
  | recvUnregister (c : C)
  | recvBroadcast (n : ℕ)
  | recvDone
  -- `Run`: the write lock
  | announce (w : Change C)
  | lock (w : Change C)
  | unlock (w : Change C)
  -- `Run`: register, unregister and done branches
  | insert (c : C)
  | unregRLock (c : C)
  | unregCheck (c : C)
  | unregRUnlock (c : C) (ok : Bool)
  | delete (c : C)
  | connClose (c : C)
  | sendClose (c : C)
  | doneConn (c : C)
  | doneSend (c : C)
  | doneEnd
  -- `Run`: `go h.SendInfo(h.GetInfo())`
  | infoRLock
  | infoLen
  | infoRUnlock (n : ℕ)
  | goSendInfo (n : ℕ)
  -- `Run`: broadcast branch
  | castRLock (m : Message)
  | castPick (m : Message) (c : C) (rest : Finset C)
  | castSend (m : Message) (c : C) (rest : Finset C)
  | castEnd (m : Message)
  | castRUnlock
  -- `deleteStream`
  | unlist
  | close
  -- `websocketHandler`
  | accept (c : C)
  | goWriteLoop (c : C)
  | register (c : C)
  | onICECandidate (c : C)
  | onConnectionStateChange (c : C)
  | setLocalDescription (c : C)
  | offerEnd (c : C)
  | readError (c : C)
  | checkClosed (c : C)
  | readUnregister (c : C)
  | readConnClose (c : C)
  | handlerReturn (c : C)
  -- callbacks
  | candidate (c : C) (k : ℕ) (i : Option ℕ)
  | stateFailed (c : C) (k : ℕ)
  | statePeerClose (c : C) (k : ℕ)
  | stateClosed (c : C) (k : ℕ)
  | stateUnregister (c : C) (k : ℕ)
  -- the snippet of a `Sender`
  | rLock (g : Sender C) (m : Message)
  | check (g : Sender C) (m : Message)
  | send (g : Sender C) (m : Message)
  | rUnlock (g : Sender C) (m : Message)
  -- `WriteLoop`
  | writeOk (c : C) (m : Message)
  | writeFail (c : C) (m : Message)
  | pingFail (c : C)
  | recvClosed (c : C)
  | writeClose (c : C)

namespace Hub

variable {C : Type u} [DecidableEq C]

/-- `NewHub`, with `Run` at its `select` and no viewer yet. -/
def new : Hub C where
  Clients := ∅
  Register := .empty
  Unregister := .empty
  mu := .new
  done := false
  listed := true
  run := .select
  infos := []
  handler := fun _ ↦ .idle
  sender := fun _ ↦ .idle
  stateChange := fun _ _ ↦ .idle
  writer := fun _ ↦ .idle
  connClosed := fun _ ↦ false
  sendClosed := fun _ ↦ false
  panicked := false

/-- Where `Run` goes after releasing the write lock. -/
def afterUnlock : Change C → RunAt C
  | .register _ => .infoRLock
  | .unregister c => .connClose c
  | .done => .returned

/-- A send on `c.Send` can proceed: its receiver is at the `select`, or the channel is closed
and the send panics. -/
def SendReady (s : Hub C) (c : C) : Prop := s.sendClosed c = true ∨ s.writer c = .select

instance (s : Hub C) (c : C) : Decidable (s.SendReady c) := inferInstanceAs (Decidable (_ ∨ _))

/-- `c.Send <- m`, seen from the channel: `WriteLoop` gets the message, or the send panics. -/
def deliver (s : Hub C) (c : C) (m : Message) : Hub C :=
  if s.sendClosed c then { s with panicked := true }
  else { s with writer := Function.update s.writer c (.writing m) }

/-- `close(c.Send)`. -/
def closeSend (s : Hub C) (c : C) : Hub C :=
  { s with
    sendClosed := Function.update s.sendClosed c true
    panicked := s.panicked || s.sendClosed c }

/-- When an action is enabled. -/
def guard (s : Hub C) : Action C → Prop
  | .recvRegister c => s.run = .select ∧ s.Register.buf.head? = some c
  | .recvUnregister c => s.run = .select ∧ s.Unregister.buf.head? = some c
  | .recvBroadcast n => s.run = .select ∧ n ∈ s.infos
  | .recvDone => s.run = .select ∧ s.done = true
  | .announce w => s.run = .wantLock w ∧ s.mu.CanRLock
  | .lock w => s.run = .waitLock w ∧ s.mu.CanLock
  | .unlock w => s.run = .unlock w
  | .insert c => s.run = .locked (.register c)
  | .unregRLock c => s.run = .unregRLock c ∧ s.mu.CanRLock
  | .unregCheck c => s.run = .unregCheck c
  | .unregRUnlock c ok => s.run = .unregRUnlock c ok
  | .delete c => s.run = .locked (.unregister c)
  | .connClose c => s.run = .connClose c
  | .sendClose c => s.run = .sendClose c
  | .doneConn c => s.run = .locked .done ∧ c ∈ s.Clients
  | .doneSend c => s.run = .doneClose c
  | .doneEnd => s.run = .locked .done ∧ s.Clients = ∅
  | .infoRLock => s.run = .infoRLock ∧ s.mu.CanRLock
  | .infoLen => s.run = .infoLen
  | .infoRUnlock n => s.run = .infoRUnlock n
  | .goSendInfo n => s.run = .goSendInfo n
  | .castRLock m => s.run = .castRLock m ∧ s.mu.CanRLock
  | .castPick m c rest => s.run = .castNext m rest ∧ c ∈ rest
  | .castSend m c rest => s.run = .castSend m c rest ∧ s.SendReady c
  | .castEnd m => s.run = .castNext m ∅
  | .castRUnlock => s.run = .castRUnlock
  | .unlist => s.listed = true
  | .close => s.listed = false ∧ s.done = false
  | .accept c => s.handler c = .idle ∧ s.listed = true
  | .goWriteLoop c => s.handler c = .newClient
  | .register c => s.handler c = .register ∧ s.Register.HasRoom
  | .onICECandidate c => s.handler c = .onICECandidate
  | .onConnectionStateChange c => s.handler c = .onConnectionStateChange
  | .setLocalDescription c => s.handler c = .setLocalDescription
  | .offerEnd c => s.handler c = .offer ∧ s.sender (.handler c) = .over (some .offer)
  | .readError c => s.handler c = .reading
  | .checkClosed c => s.handler c = .closed
  | .readUnregister c => s.handler c = .unregister ∧ s.Unregister.HasRoom
  | .readConnClose c => s.handler c = .connClose
  | .handlerReturn c => s.handler c = .peerClose
  | .candidate c k _ =>
      HandlerAt.setLocalDescription < s.handler c ∧ s.sender (.callback c k) = .idle
  | .stateFailed c k => HandlerAt.onConnectionStateChange < s.handler c ∧ s.stateChange c k = .idle
  | .statePeerClose c k => s.stateChange c k = .failed
  | .stateClosed c k => HandlerAt.onConnectionStateChange < s.handler c ∧ s.stateChange c k = .idle
  | .stateUnregister c k => s.stateChange c k = .unregister ∧ s.Unregister.HasRoom
  | .rLock g m => s.sender g = .rLock m ∧ s.mu.CanRLock
  | .check g m => s.sender g = .check m
  | .send g m => s.sender g = .send m ∧ s.SendReady g.client
  | .rUnlock g m => s.sender g = .rUnlock m
  | .writeOk c m => s.writer c = .writing m
  | .writeFail c m => s.writer c = .writing m
  | .pingFail c => s.writer c = .select
  | .recvClosed c => s.writer c = .select ∧ s.sendClosed c = true
  | .writeClose c => s.writer c = .closing

instance (s : Hub C) : ∀ a, Decidable (s.guard a) := by
  intro a
  cases a <;> (dsimp only [guard]; infer_instance)

/-- The state after an enabled action. -/
def effect (s : Hub C) : (a : Action C) → s.guard a → Hub C
  | .recvRegister c, _ => { s with Register := s.Register.pop, run := .wantLock (.register c) }
  | .recvUnregister c, _ => { s with Unregister := s.Unregister.pop, run := .unregRLock c }
  | .recvBroadcast n, _ => { s with infos := s.infos.erase n, run := .castRLock (.info n) }
  | .recvDone, _ => { s with run := .wantLock .done }
  | .announce w, g => { s with mu := s.mu.announce g.2, run := .waitLock w }
  | .lock w, g => { s with mu := s.mu.lock g.2, run := .locked w }
  | .unlock w, _ => { s with mu := s.mu.unlock, run := afterUnlock w }
  | .insert c, _ =>
      { s with Clients := Insert.insert c s.Clients, run := .unlock (.register c) }
  | .unregRLock c, g => { s with mu := s.mu.rLock .run g.2, run := .unregCheck c }
  | .unregCheck c, _ => { s with run := .unregRUnlock c (decide (c ∈ s.Clients)) }
  | .unregRUnlock c ok, _ =>
      { s with
        mu := s.mu.rUnlock .run
        run := if ok then .wantLock (.unregister c) else .select }
  | .delete c, _ => { s with Clients := s.Clients.erase c, run := .unlock (.unregister c) }
  | .connClose c, _ =>
      { s with connClosed := Function.update s.connClosed c true, run := .sendClose c }
  | .sendClose c, _ => { s.closeSend c with run := .infoRLock }
  | .doneConn c, _ =>
      { s with connClosed := Function.update s.connClosed c true, run := .doneClose c }
  | .doneSend c, _ =>
      { s.closeSend c with Clients := s.Clients.erase c, run := .locked .done }
  | .doneEnd, _ => { s with run := .unlock .done }
  | .infoRLock, g => { s with mu := s.mu.rLock .run g.2, run := .infoLen }
  | .infoLen, _ => { s with run := .infoRUnlock s.Clients.card }
  | .infoRUnlock n, _ => { s with mu := s.mu.rUnlock .run, run := .goSendInfo n }
  | .goSendInfo n, _ => { s with infos := n :: s.infos, run := .select }
  | .castRLock m, g => { s with mu := s.mu.rLock .run g.2, run := .castNext m s.Clients }
  | .castPick m c rest, _ => { s with run := .castSend m c (rest.erase c) }
  | .castSend m c rest, _ => { s.deliver c m with run := .castNext m rest }
  | .castEnd _, _ => { s with run := .castRUnlock }
  | .castRUnlock, _ => { s with mu := s.mu.rUnlock .run, run := .select }
  | .unlist, _ => { s with listed := false }
  | .close, _ => { s with done := true }
  | .accept c, _ => { s with handler := Function.update s.handler c .newClient }
  | .goWriteLoop c, _ =>
      { s with
        handler := Function.update s.handler c .register
        writer := Function.update s.writer c .select }
  | .register c, g =>
      { s with
        handler := Function.update s.handler c .onICECandidate
        Register := s.Register.push c g.2 }
  | .onICECandidate c, _ =>
      { s with handler := Function.update s.handler c .onConnectionStateChange }
  | .onConnectionStateChange c, _ =>
      { s with handler := Function.update s.handler c .setLocalDescription }
  | .setLocalDescription c, _ =>
      { s with
        handler := Function.update s.handler c .offer
        sender := Function.update s.sender (.handler c) (.rLock .offer) }
  | .offerEnd c, _ => { s with handler := Function.update s.handler c .reading }
  | .readError c, _ => { s with handler := Function.update s.handler c .closed }
  | .checkClosed c, _ =>
      { s with
        handler := Function.update s.handler c (if s.done then .connClose else .unregister) }
  | .readUnregister c, g =>
      { s with
        handler := Function.update s.handler c .connClose
        Unregister := s.Unregister.push c g.2 }
  | .readConnClose c, _ =>
      { s with
        handler := Function.update s.handler c .peerClose
        connClosed := Function.update s.connClosed c true }
  | .handlerReturn c, _ => { s with handler := Function.update s.handler c .returned }
  | .candidate c k i, _ =>
      { s with sender := Function.update s.sender (.callback c k) (.called i) }
  | .stateFailed c k, _ =>
      { s with
        stateChange :=
          Function.update s.stateChange c (Function.update (s.stateChange c) k .failed) }
  | .statePeerClose c k, _ =>
      { s with
        stateChange :=
          Function.update s.stateChange c (Function.update (s.stateChange c) k .unregister) }
  | .stateClosed c k, _ =>
      { s with
        stateChange :=
          Function.update s.stateChange c (Function.update (s.stateChange c) k .unregister) }
  | .stateUnregister c k, g =>
      { s with
        stateChange :=
          Function.update s.stateChange c (Function.update (s.stateChange c) k .over)
        Unregister := s.Unregister.push c g.2 }
  | .rLock k m, g =>
      { s with
        mu := s.mu.rLock (.sender k) g.2
        sender := Function.update s.sender k (.check m) }
  | .check k m, _ =>
      { s with
        sender := Function.update s.sender k
          (if k.client ∈ s.Clients then .send m else .rUnlock m) }
  | .send k m, _ =>
      { s.deliver k.client m with sender := Function.update s.sender k (.rUnlock m) }
  | .rUnlock k m, _ =>
      { s with
        mu := s.mu.rUnlock (.sender k)
        sender := Function.update s.sender k (.over (some m)) }
  | .writeOk c _, _ => { s with writer := Function.update s.writer c .select }
  | .writeFail c _, _ =>
      { s with
        writer := Function.update s.writer c .returned
        connClosed := Function.update s.connClosed c true }
  | .pingFail c, _ =>
      { s with
        writer := Function.update s.writer c .returned
        connClosed := Function.update s.connClosed c true }
  | .recvClosed c, _ => { s with writer := Function.update s.writer c .closing }
  | .writeClose c, _ =>
      { s with
        writer := Function.update s.writer c .returned
        connClosed := Function.update s.connClosed c true }

/-- The events of an action. -/
def emit (s : Hub C) : Action C → List (Event C)
  | .insert c => [.registered c]
  | .delete c => [.unregistered c]
  | .unregRUnlock c false => [.unregistered c]
  | .recvBroadcast n => [.broadcast (.info n)]
  | .castSend m c _ => if s.sendClosed c then [] else [.received c m]
  | .send g m => if s.sendClosed g.client then [] else [.received g.client m, .handed g m]
  | _ => []

section Frame

/-! ## What the two channel operations leave alone -/

variable (s : Hub C) (c : C) (m : Message)

@[simp] theorem deliver_Clients : (s.deliver c m).Clients = s.Clients := by
  unfold deliver; split <;> rfl
@[simp] theorem deliver_Register : (s.deliver c m).Register = s.Register := by
  unfold deliver; split <;> rfl
@[simp] theorem deliver_Unregister : (s.deliver c m).Unregister = s.Unregister := by
  unfold deliver; split <;> rfl
@[simp] theorem deliver_mu : (s.deliver c m).mu = s.mu := by unfold deliver; split <;> rfl
@[simp] theorem deliver_run : (s.deliver c m).run = s.run := by unfold deliver; split <;> rfl
@[simp] theorem deliver_handler : (s.deliver c m).handler = s.handler := by
  unfold deliver; split <;> rfl
@[simp] theorem deliver_sender : (s.deliver c m).sender = s.sender := by
  unfold deliver; split <;> rfl
@[simp] theorem deliver_stateChange : (s.deliver c m).stateChange = s.stateChange := by
  unfold deliver; split <;> rfl
@[simp] theorem deliver_sendClosed : (s.deliver c m).sendClosed = s.sendClosed := by
  unfold deliver; split <;> rfl
@[simp] theorem deliver_infos : (s.deliver c m).infos = s.infos := by
  unfold deliver; split <;> rfl
@[simp] theorem deliver_done : (s.deliver c m).done = s.done := by unfold deliver; split <;> rfl

/-- On an open channel the receiver gets the message. -/
theorem deliver_of_open {s : Hub C} {c : C} {m : Message} (h : s.sendClosed c = false) :
    s.deliver c m = { s with writer := Function.update s.writer c (.writing m) } := by
  simp [deliver, h]

@[simp] theorem closeSend_Clients : (s.closeSend c).Clients = s.Clients := rfl
@[simp] theorem closeSend_Register : (s.closeSend c).Register = s.Register := rfl
@[simp] theorem closeSend_Unregister : (s.closeSend c).Unregister = s.Unregister := rfl
@[simp] theorem closeSend_mu : (s.closeSend c).mu = s.mu := rfl
@[simp] theorem closeSend_run : (s.closeSend c).run = s.run := rfl
@[simp] theorem closeSend_handler : (s.closeSend c).handler = s.handler := rfl
@[simp] theorem closeSend_sender : (s.closeSend c).sender = s.sender := rfl
@[simp] theorem closeSend_stateChange : (s.closeSend c).stateChange = s.stateChange := rfl
@[simp] theorem closeSend_writer : (s.closeSend c).writer = s.writer := rfl
@[simp] theorem closeSend_done : (s.closeSend c).done = s.done := rfl
@[simp] theorem closeSend_sendClosed :
    (s.closeSend c).sendClosed = Function.update s.sendClosed c true := rfl
@[simp] theorem closeSend_panicked :
    (s.closeSend c).panicked = (s.panicked || s.sendClosed c) := rfl

end Frame

end Hub

/-- The hub as a transition system: any goroutine may move, until one panics. -/
def hub (C : Type u) [DecidableEq C] : Machine (Hub C) (Action C) (Event C) where
  init s := s = .new
  guard s a := s.panicked = false ∧ s.guard a
  effect s a g := s.effect a g.2
  emit s a := s.emit a

instance {C : Type u} [DecidableEq C] : ∀ s a, Decidable ((hub C).guard s a) :=
  fun s a ↦ inferInstanceAs (Decidable (s.panicked = false ∧ s.guard a))

end ITG.Webrtc
