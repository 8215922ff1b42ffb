import Mathlib.Algebra.Group.Nat.Defs
import Mathlib.Data.Int.Init
import Mathlib.Logic.Function.Basic
import ITG.Lib.Machine

/-!
# The stream registry

`server.Server` with its map `streams`, the calls of `createStream` and `deleteStream` that change
it, and the goroutine that `createStream` starts for each stream to read RTP packets.  `New` makes
the first call; once it has succeeded, `streamHandler` serves requests, each in a goroutine of its
own.

A socket and the stream made for it share a number, their position in the order in which sockets
are opened, and this number stands for the pointer `*Stream`.  Of a stream the model has its port,
its socket and whether `hub.done` is closed; the hub itself is the subject of `ITG.Webrtc.Hub`.

What the operating system does is left open: which port it picks for port `0`, and whether it
grants a bind at all.  It never binds a port that an open socket is bound to.  A `ReadFrom` may
fail at any time; one that returns a packet changes nothing here.
-/

universe u

namespace ITG.Webrtc

open ITG.Lib

/-! ## Requests -/

/-- The methods that `streamHandler` tells apart. -/
inductive Method where
  | post
  | delete
  | other
deriving DecidableEq, Repr

/-- A request for `/stream`, with the value of its query parameter `port`: the empty string if it
has none. -/
structure Request where
  method : Method
  port : String
deriving DecidableEq, Repr

/-- The answers of `streamHandler`. -/
inductive Response where
  /-- `{"port": port}` of this stream. -/
  | stream (i : ℕ)
  | internalServerError
  | noContent
  | badRequest
  | methodNotAllowed
deriving DecidableEq, Repr

/-- A string of decimal digits, at least one. -/
def digits (ds : List Char) : Option ℕ :=
  if ds ≠ [] ∧ ds.all Char.isDigit then some (Nat.ofDigitChars 10 ds 0) else none

/-- `strconv.Atoi`, where `int` has 64 bits. -/
def atoi (s : String) : Option ℤ :=
  match s.toList with
  | '-' :: ds => (digits ds).bind fun n ↦ if n ≤ 2 ^ 63 then some (-n) else none
  | '+' :: ds | ds => (digits ds).bind fun n ↦ if n < 2 ^ 63 then some n else none

theorem digits_toDigits (n : ℕ) : digits (Nat.toDigits 10 n) = some n := by
  have hall : (Nat.toDigits 10 n).all Char.isDigit = true := List.all_eq_true.2 fun _ hc ↦
    Nat.isDigit_of_mem_toDigits (by decide) (by decide) hc
  rw [digits, if_pos ⟨Nat.toDigits_ne_nil, hall⟩, Nat.ofDigitChars_ten_toDigits]

/-- A numeral of a natural number has no sign. -/
theorem isDigit_of_toList_repr {n : ℕ} {c : Char} {cs : List Char} (h : n.repr.toList = c :: cs) :
    c.isDigit = true := by
  rw [Nat.toList_repr] at h
  exact Nat.isDigit_of_mem_toDigits (by decide) (by decide) (h ▸ List.mem_cons_self)

/-- `Atoi` reads back a decimal numeral. -/
theorem atoi_repr {n : ℕ} (h : n < 2 ^ 63) : atoi n.repr = some (n : ℤ) := by
  unfold atoi
  split
  · rename_i ds hds
    exact absurd (isDigit_of_toList_repr hds) (by decide)
  · rename_i ds hds
    exact absurd (isDigit_of_toList_repr hds) (by decide)
  · rw [Nat.toList_repr, digits_toDigits, Option.bind_some, if_pos h]

/-! ## Calls -/

/-- Who calls `createStream` and `deleteStream`. -/
inductive Caller (K : Type u) where
  /-- `New`. -/
  | new
  /-- The goroutine that serves a request. -/
  | handler (k : K)
deriving DecidableEq

/-- Program points of a caller. -/
inductive CallAt where
  | idle
  /-- In `net.ListenUDP`. -/
  | listen (port : ℤ)
  /-- The socket is bound; next come the two tracks. -/
  | tracks (i : ℕ)
  /-- A track failed; next comes `l.Close()`. -/
  | listenerClose (i : ℕ)
  /-- The stream is made; next comes `s.mu.Lock()`. -/
  | createLock (i : ℕ)
  | insert (i : ℕ)
  | createUnlock (i : ℕ)
  /-- About to start `hub.Run` and the reader. -/
  | start (i : ℕ)
  /-- In `deleteStream`, before `s.mu.Lock()`. -/
  | deleteLock (port : ℤ)
  | lookup (port : ℤ)
  | delete (port : ℤ) (i : ℕ)
  | deleteUnlock (found : Option ℕ)
  | connClose (i : ℕ)
  /-- At the `select` of `Hub.Close`. -/
  | hubClose (i : ℕ)
  /-- About to execute `close(h.done)`. -/
  | doneClose (i : ℕ)
  /-- Returned, with this answer to be sent. -/
  | returned (r : Response)
deriving DecidableEq, Repr

/-- `streamHandler`, up to the first operation on shared state. -/
def streamHandler (r : Request) : CallAt :=
  match r.method with
  | .post => .listen (if r.port ≠ "" then (atoi r.port).getD 0 else 0)
  | .delete =>
      if r.port = "" then .returned .badRequest
      else
        match atoi r.port with
        | some port => .deleteLock port
        | none => .returned .badRequest
  | .other => .returned .methodNotAllowed

/-- A request begins with one of the two operations, or is refused. -/
theorem streamHandler_cases (r : Request) :
    (∃ port, streamHandler r = .listen port) ∨ (∃ port, streamHandler r = .deleteLock port) ∨
      streamHandler r = .returned .badRequest ∨ streamHandler r = .returned .methodNotAllowed := by
  obtain ⟨method, port⟩ := r
  cases method with
  | post => exact .inl ⟨_, rfl⟩
  | other => exact .inr (.inr (.inr rfl))
  | delete =>
      right
      unfold streamHandler
      dsimp only
      split
      · exact .inr (.inl rfl)
      · split
        · exact .inl ⟨_, rfl⟩
        · exact .inr (.inl rfl)

/-- What listening, deleting and a refusal have in common, the beginning of a request has. -/
theorem apply_streamHandler {β : Type u} {f : CallAt → β} {b : β} (r : Request)
    (hlisten : ∀ port, f (.listen port) = b) (hdelete : ∀ port, f (.deleteLock port) = b)
    (hreturned : ∀ r, f (.returned r) = b) : f (streamHandler r) = b := by
  rcases streamHandler_cases r with ⟨port, h⟩ | ⟨port, h⟩ | h | h <;> rw [h]
  · exact hlisten port
  · exact hdelete port
  · exact hreturned _
  · exact hreturned _

/-- The call returned a stream. -/
def CallAt.succeeded : CallAt → Bool
  | .returned (.stream _) => true
  | _ => false

@[simp] theorem succeeded_streamHandler (r : Request) : (streamHandler r).succeeded = false := by
  rcases streamHandler_cases r with ⟨_, h⟩ | ⟨_, h⟩ | h | h <;> rw [h] <;> rfl

/-- The call has begun and has not returned. -/
def CallAt.inProgress : CallAt → Bool
  | .idle | .returned _ => false
  | _ => true

/-- The caller holds `s.mu`. -/
def CallAt.locked : CallAt → Bool
  | .insert _ | .createUnlock _ | .lookup _ | .delete _ _ | .deleteUnlock _ => true
  | _ => false

/-- Program points of a stream's reader goroutine. -/
inductive ReaderAt where
  | idle
  /-- In the loop around `ReadFrom`. -/
  | reading
  /-- `ReadFrom` failed; next comes the deferred `conn.Close()`. -/
  | closing
  | returned
deriving DecidableEq, Repr

/-! ## The server -/

/-- The registry, the streams and the program points of callers and readers. -/
structure Server (K : Type u) where
  streams : ℤ → Option ℕ
  /-- The holder of `mu`. -/
  mu : Option (Caller K)
  /-- How many sockets have been opened. -/
  opened : ℕ
  port : ℕ → ℤ
  isOpen : ℕ → Bool
  /-- A `Stream` was made for the socket. -/
  made : ℕ → Bool
  /-- `hub.done` is closed. -/
  hubDone : ℕ → Bool
  reader : ℕ → ReaderAt
  call : Caller K → CallAt
  panicked : Bool

namespace Server

/-- What an observer of the registry sees. -/
inductive Event (K : Type u) where
  /-- A call of `createStream` returned the stream. -/
  | created (k : Caller K) (i : ℕ)
  /-- A call of `deleteStream` looked the port up and removed what it found. -/
  | removed (k : Caller K) (port : ℤ) (found : Option ℕ)
  /-- It called `conn.Close` of the stream. -/
  | connClosed (k : Caller K) (i : ℕ)
  /-- It called `hub.Close` of the stream. -/
  | hubClosed (k : Caller K) (i : ℕ)
deriving DecidableEq

/-- The steps of callers and readers. -/
inductive Action (K : Type u) where
  | request (k : K) (r : Request)
  -- `createStream`
  | listen (k : Caller K) (port p : ℤ)
  | listenError (k : Caller K) (port : ℤ)
  | tracks (k : Caller K) (i : ℕ)
  | tracksError (k : Caller K) (i : ℕ)
  | listenerClose (k : Caller K) (i : ℕ)
  | createLock (k : Caller K) (i : ℕ)
  | insert (k : Caller K) (i : ℕ)
  | createUnlock (k : Caller K) (i : ℕ)
  | start (k : Caller K) (i : ℕ)
  -- `deleteStream`
  | deleteLock (k : Caller K) (port : ℤ)
  | lookup (k : Caller K) (port : ℤ) (i : ℕ)
  | lookupNone (k : Caller K) (port : ℤ)
  | delete (k : Caller K) (port : ℤ) (i : ℕ)
  | deleteUnlock (k : Caller K) (found : Option ℕ)
  | connClose (k : Caller K) (i : ℕ)
  | hubClose (k : Caller K) (i : ℕ)
  | doneClose (k : Caller K) (i : ℕ)
  | reply (k : K) (r : Response)
  -- the reader
  | readError (i : ℕ)
  | readerClose (i : ℕ)

variable {K : Type u} [DecidableEq K]

/-- The server while `New` calls `createStream` with the port of its configuration. -/
def new (RTPPort : ℤ) : Server K where
  streams := fun _ ↦ none
  mu := none
  opened := 0
  port := fun _ ↦ 0
  isOpen := fun _ ↦ false
  made := fun _ ↦ false
  hubDone := fun _ ↦ false
  reader := fun _ ↦ .idle
  call := Function.update (fun _ ↦ .idle) .new (.listen RTPPort)
  panicked := false

/-- The caller moves. -/
def move (s : Server K) (k : Caller K) (p : CallAt) : Server K :=
  { s with call := Function.update s.call k p }

/-- Where `deleteStream` goes after releasing the lock. -/
def afterUnlock : Option ℕ → CallAt
  | some i => .connClose i
  | none => .returned .noContent

/-- When an action is enabled. -/
def guard (s : Server K) : Action K → Prop
  | .request k _ => s.call (.handler k) = .idle ∧ (s.call .new).succeeded = true
  | .listen k port p =>
      s.call k = .listen port ∧ (port = 0 ∨ p = port) ∧
        ∀ i < s.opened, s.isOpen i = true → s.port i ≠ p
  | .listenError k port => s.call k = .listen port
  | .tracks k i => s.call k = .tracks i
  | .tracksError k i => s.call k = .tracks i
  | .listenerClose k i => s.call k = .listenerClose i
  | .createLock k i => s.call k = .createLock i ∧ s.mu = none
  | .insert k i => s.call k = .insert i
  | .createUnlock k i => s.call k = .createUnlock i
  | .start k i => s.call k = .start i
  | .deleteLock k port => s.call k = .deleteLock port ∧ s.mu = none
  | .lookup k port i => s.call k = .lookup port ∧ s.streams port = some i
  | .lookupNone k port => s.call k = .lookup port ∧ s.streams port = none
  | .delete k port i => s.call k = .delete port i
  | .deleteUnlock k found => s.call k = .deleteUnlock found
  | .connClose k i => s.call k = .connClose i
  | .hubClose k i => s.call k = .hubClose i
  | .doneClose k i => s.call k = .doneClose i
  | .reply k r => s.call (.handler k) = .returned r
  | .readError i => s.reader i = .reading
  | .readerClose i => s.reader i = .closing

instance (s : Server K) : ∀ a, Decidable (s.guard a) := by
  intro a
  cases a <;> (dsimp only [guard]; infer_instance)

/-- The state after an enabled action. -/
def effect (s : Server K) : (a : Action K) → s.guard a → Server K
  | .request k r, _ => s.move (.handler k) (streamHandler r)
  | .listen k _ p, _ =>
      { s.move k (.tracks s.opened) with
        opened := s.opened + 1
        port := Function.update s.port s.opened p
        isOpen := Function.update s.isOpen s.opened true }
  | .listenError k _, _ => s.move k (.returned .internalServerError)
  | .tracks k i, _ => { s.move k (.createLock i) with made := Function.update s.made i true }
  | .tracksError k i, _ => s.move k (.listenerClose i)
  | .listenerClose k i, _ =>
      { s.move k (.returned .internalServerError) with
        isOpen := Function.update s.isOpen i false }
  | .createLock k i, _ => { s.move k (.insert i) with mu := some k }
  | .insert k i, _ =>
      { s.move k (.createUnlock i) with
        streams := Function.update s.streams (s.port i) (some i) }
  | .createUnlock k i, _ => { s.move k (.start i) with mu := none }
  | .start k i, _ =>
      { s.move k (.returned (.stream i)) with reader := Function.update s.reader i .reading }
  | .deleteLock k port, _ => { s.move k (.lookup port) with mu := some k }
  | .lookup k port i, _ => s.move k (.delete port i)
  | .lookupNone k _, _ => s.move k (.deleteUnlock none)
  | .delete k port i, _ =>
      { s.move k (.deleteUnlock (some i)) with streams := Function.update s.streams port none }
  | .deleteUnlock k found, _ => { s.move k (afterUnlock found) with mu := none }
  | .connClose k i, _ =>
      { s.move k (.hubClose i) with isOpen := Function.update s.isOpen i false }
  | .hubClose k i, _ =>
      s.move k (if s.hubDone i then .returned .noContent else .doneClose i)
  | .doneClose k i, _ =>
      { s.move k (.returned .noContent) with
        hubDone := Function.update s.hubDone i true
        panicked := s.hubDone i }
  | .reply k _, _ => s.move (.handler k) .idle
  | .readError i, _ => { s with reader := Function.update s.reader i .closing }
  | .readerClose i, _ =>
      { s with
        reader := Function.update s.reader i .returned
        isOpen := Function.update s.isOpen i false }

/-- The events of an action. -/
def emit : Action K → List (Event K)
  | .start k i => [.created k i]
  | .lookupNone k port => [.removed k port none]
  | .delete k port i => [.removed k port (some i)]
  | .connClose k i => [.connClosed k i]
  | .hubClose k i => [.hubClosed k i]
  | _ => []

section Frame

variable (s : Server K) (k : Caller K) (p : CallAt)

@[simp] theorem streams_move : (s.move k p).streams = s.streams := rfl
@[simp] theorem mu_move : (s.move k p).mu = s.mu := rfl
@[simp] theorem opened_move : (s.move k p).opened = s.opened := rfl
@[simp] theorem port_move : (s.move k p).port = s.port := rfl
@[simp] theorem isOpen_move : (s.move k p).isOpen = s.isOpen := rfl
@[simp] theorem made_move : (s.move k p).made = s.made := rfl
@[simp] theorem hubDone_move : (s.move k p).hubDone = s.hubDone := rfl
@[simp] theorem reader_move : (s.move k p).reader = s.reader := rfl
@[simp] theorem panicked_move : (s.move k p).panicked = s.panicked := rfl
@[simp] theorem call_move : (s.move k p).call = Function.update s.call k p := rfl

end Frame

/-! ### The program point of a call after a move -/

/-- Whose call an action moves, from where and to where. -/
inductive Moves (s : Server K) : Action K → Caller K → CallAt → CallAt → Prop
  | request {k r} : Moves s (.request k r) (.handler k) .idle (streamHandler r)
  | listen {k port p} : Moves s (.listen k port p) k (.listen port) (.tracks s.opened)
  | listenError {k port} :
      Moves s (.listenError k port) k (.listen port) (.returned .internalServerError)
  | tracks {k i} : Moves s (.tracks k i) k (.tracks i) (.createLock i)
  | tracksError {k i} : Moves s (.tracksError k i) k (.tracks i) (.listenerClose i)
  | listenerClose {k i} :
      Moves s (.listenerClose k i) k (.listenerClose i) (.returned .internalServerError)
  | createLock {k i} : Moves s (.createLock k i) k (.createLock i) (.insert i)
  | insert {k i} : Moves s (.insert k i) k (.insert i) (.createUnlock i)
  | createUnlock {k i} : Moves s (.createUnlock k i) k (.createUnlock i) (.start i)
  | start {k i} : Moves s (.start k i) k (.start i) (.returned (.stream i))
  | deleteLock {k port} : Moves s (.deleteLock k port) k (.deleteLock port) (.lookup port)
  | lookup {k port i} : Moves s (.lookup k port i) k (.lookup port) (.delete port i)
  | lookupNone {k port} : Moves s (.lookupNone k port) k (.lookup port) (.deleteUnlock none)
  | delete {k port i} : Moves s (.delete k port i) k (.delete port i) (.deleteUnlock (some i))
  | unlockSome {k i} :
      Moves s (.deleteUnlock k (some i)) k (.deleteUnlock (some i)) (.connClose i)
  | unlockNone {k} :
      Moves s (.deleteUnlock k none) k (.deleteUnlock none) (.returned .noContent)
  | connClose {k i} : Moves s (.connClose k i) k (.connClose i) (.hubClose i)
  | hubClose {k i} (h : s.hubDone i = false) :
      Moves s (.hubClose k i) k (.hubClose i) (.doneClose i)
  | hubClosed {k i} (h : s.hubDone i = true) :
      Moves s (.hubClose k i) k (.hubClose i) (.returned .noContent)
  | doneClose {k i} : Moves s (.doneClose k i) k (.doneClose i) (.returned .noContent)
  | reply {k r} : Moves s (.reply k r) (.handler k) (.returned r) .idle

section Moves

variable {s : Server K} {k k' : Caller K} {p : CallAt} (Q : CallAt → Prop)

/-- What held before a move that preserves it holds after it. -/
theorem call_update (hp : Q (s.call k') → Q p) (h : Q (s.call k)) :
    Q (Function.update s.call k' p k) := by
  by_cases hk : k = k'
  · subst hk
    rw [Function.update_self]
    exact hp h
  · rwa [Function.update_of_ne hk]

/-- What holds after a move held before it and another call has moved, or the call has moved. -/
theorem of_call_update_ne (h : Q (Function.update s.call k' p k)) :
    k ≠ k' ∧ Q (s.call k) ∨ k = k' ∧ Q p := by
  by_cases hk : k = k'
  · subst hk
    rw [Function.update_self] at h
    exact .inr ⟨rfl, h⟩
  · rw [Function.update_of_ne hk] at h
    exact .inl ⟨hk, h⟩

theorem of_call_update (h : Q (Function.update s.call k' p k)) :
    Q (s.call k) ∨ k = k' ∧ Q p :=
  (of_call_update_ne Q h).imp_left And.right

/-- A move to a point where it does not hold changes nothing. -/
theorem of_call_update_of_not (h : Q (Function.update s.call k' p k)) (hp : ¬ Q p) : Q (s.call k) :=
  (of_call_update Q h).resolve_right fun hk ↦ hp hk.2

/-- A step leaves a call where it is, or moves it. -/
theorem call_step {a : Action K} (g : s.guard a) :
    (s.effect a g).call k = s.call k ∨ s.Moves a k (s.call k) ((s.effect a g).call k) := by
  have hmove {k' : Caller K} {p q : CallAt} (hp : s.call k' = p) (hm : s.Moves a k' p q) :
      Function.update s.call k' q k = s.call k ∨
        s.Moves a k (s.call k) (Function.update s.call k' q k) := by
    by_cases hk : k = k'
    · subst hk
      rw [Function.update_self, hp]
      exact .inr hm
    · exact .inl (Function.update_of_ne hk ..)
  cases a with
  | request => exact hmove g.1 .request
  | listen => exact hmove g.1 .listen
  | listenError => exact hmove g .listenError
  | tracks => exact hmove g .tracks
  | tracksError => exact hmove g .tracksError
  | listenerClose => exact hmove g .listenerClose
  | createLock => exact hmove g.1 .createLock
  | insert => exact hmove g .insert
  | createUnlock => exact hmove g .createUnlock
  | start => exact hmove g .start
  | deleteLock => exact hmove g.1 .deleteLock
  | lookup => exact hmove g.1 .lookup
  | lookupNone => exact hmove g.1 .lookupNone
  | delete => exact hmove g .delete
  | deleteUnlock k' found =>
      cases found with
      | none => exact hmove g .unlockNone
      | some i => exact hmove g .unlockSome
  | connClose => exact hmove g .connClose
  | hubClose k' i =>
      refine hmove g ?_
      split
      · rename_i h
        exact .hubClosed h
      · rename_i h
        exact .hubClose (Bool.eq_false_iff.2 h)
  | doneClose => exact hmove g .doneClose
  | reply => exact hmove g .reply
  | readError | readerClose => exact .inl rfl

/-- What holds of a call after a step held before it, or the step has moved the call. -/
theorem of_call_step {a : Action K} (g : s.guard a) (h : Q ((s.effect a g).call k)) :
    Q (s.call k) ∨ ∃ p q, s.call k = p ∧ s.Moves a k p q ∧ Q q := by
  rcases call_step (k := k) g with hk | hm
  · rw [hk] at h
    exact .inl h
  · exact .inr ⟨_, _, rfl, hm, h⟩

end Moves

/-- Nothing is under way: no call, and no reader between its error and the end of its deferred
close. -/
def Quiescent (s : Server K) : Prop :=
  (∀ k, (s.call k).inProgress = false) ∧ ∀ i < s.opened, s.reader i ≠ .closing

/-- A reader's `ReadFrom` fails only on a socket that has been closed. -/
def ReadsSucceed (s : Server K) : Action K → Prop
  | .readError i => s.isOpen i = false
  | _ => True

instance (s : Server K) : ∀ a, Decidable (s.ReadsSucceed a) := by
  intro a
  cases a <;> (dsimp only [ReadsSucceed]; infer_instance)

end Server

/-- The server as a transition system, until a goroutine panics. -/
def server (K : Type u) [DecidableEq K] (RTPPort : ℤ) :
    Machine (Server K) (Server.Action K) (Server.Event K) where
  init s := s = .new RTPPort
  guard s a := s.panicked = false ∧ s.guard a
  effect s a g := s.effect a g.2
  emit _ a := Server.emit a

instance {K : Type u} [DecidableEq K] {RTPPort : ℤ} :
    ∀ s a, Decidable ((server K RTPPort).guard s a) :=
  fun s a ↦ inferInstanceAs (Decidable (s.panicked = false ∧ s.guard a))

end ITG.Webrtc
