import ITG.Lib.JsonText

/-!
# The page of a viewer

`App`: what the page does with the texts that its websocket receives and with the events of its peer
connection.  It sets what it is offered as the remote description, creates an answer and sends it,
passes candidates on in both directions, and shows the number of viewers.

The handler of a message is `async`.  It runs to its end at once, except for an offer: there it
waits for `createAnswer`, and other messages may be handled before it goes on.  The calls
`setRemoteDescription`, `addIceCandidate` and `setLocalDescription` are not waited for, so they are
events and have no result.

Left open are what the browser makes of a session description, when it reports candidates and
tracks, and whether it can create an answer.
-/

universe u

namespace ITG.Frontend

open ITG.Lib

/-- What the page needs to know of JavaScript numbers: which texts are those of a zero. -/
structure Engine where
  isZero : String → Bool

/-- The value counts as true in a condition. -/
def Engine.truthy (js : Engine) : Json → Bool
  | .null => false
  | .bool b => b
  | .num lit => !js.isZero lit
  | .str s => decide (s ≠ "")
  | .arr _ | .obj _ => true

/-- The state of `appReducer`.  `viewers` is `none` for `null` and for `undefined`. -/
structure AppState (T : Type u) where
  stream : List T
  viewers : Option Json

/-- Its actions. -/
inductive AppAction (T : Type u) where
  | track (track : T)
  | info (viewers : Option Json)

/-- `appReducer`.  A media stream has each of its tracks once. -/
def appReducer {T : Type u} [DecidableEq T] (state : AppState T) : AppAction T → AppState T
  | .track track =>
      { state with
        stream := if track ∈ state.stream then state.stream else state.stream ++ [track] }
  | .info viewers => { state with viewers := viewers }

/-- The page. -/
structure App (T : Type u) where
  state : AppState T
  /-- How many of its handlers wait for `createAnswer`. -/
  awaiting : ℕ
  /-- `setLocalDescription` has been called. -/
  described : Bool

namespace App

variable {T : Type u}

/-- `initialState`. -/
def new : App T := ⟨⟨[], none⟩, 0, false⟩

/-- What the page does with its peer connection and its websocket. -/
inductive Event where
  | setRemoteDescription (description : Json)
  | createAnswer
  | addIceCandidate (candidate : Json)
  | setLocalDescription (answer : Json.Object)
  /-- `socket.send(JSON.stringify({ event, data }))`. -/
  | send (event : String) (data : Json.Object)

/-- The event is a call that a message leads to. -/
def Event.isCall : Event → Bool
  | .setRemoteDescription _ | .createAnswer | .addIceCandidate _ => true
  | .setLocalDescription _ | .send _ _ => false

/-- What is sent. -/
def Event.sent? : Event → Option (String × Json.Object)
  | .send event data => some (event, data)
  | _ => none

/-- What may happen to the page. -/
inductive Action (T : Type u) where
  /-- The websocket receives a text. -/
  | message (text : List Char)
  /-- `createAnswer` has created an answer. -/
  | answer (answer : Json.Object)
  /-- It has not. -/
  | answerError
  | icecandidate (candidate : Option Json.Object)
  | track (track : T)

/-- The action is the receipt of a text. -/
def Action.isMessage : Action T → Bool
  | .message _ => true
  | .answer _ | .answerError | .icecandidate _ | .track _ => false

/-- `JSON.stringify({ event, data })`. -/
def stringify (event : String) (data : Json) : List Char :=
  Json.render .minimal (.obj [("event", .str event), ("data", data)])

variable [DecidableEq T]

/-- `dispatch`. -/
def dispatch (s : App T) (a : AppAction T) : App T := { s with state := appReducer s.state a }

/-- The `switch` on the event of a message, up to the first `await`. -/
def handle (s : App T) (event : Option Json) (data : Json) : App T × List Event :=
  match event with
  | some (.str "offer") =>
      ({ s with awaiting := s.awaiting + 1 }, [.setRemoteDescription data, .createAnswer])
  | some (.str "candidate") => (s, [.addIceCandidate data])
  | some (.str "info") => (s.dispatch (.info (data.get "no_connections")), [])
  | _ => (s, [])

/-- `socket.onmessage`.  `JSON.parse` throws on a text that is no JSON. -/
def onmessage (js : Engine) (s : App T) (text : List Char) : App T × List Event :=
  match Json.parse text with
  | none => (s, [])
  | some msg =>
      if js.truthy msg then
        match msg.get "data" with
        | none => (s, [])
        | some data => if js.truthy data then s.handle (msg.get "event") data else (s, [])
      else (s, [])

/-- When an action is enabled.  A peer connection gathers candidates for its local description. -/
def guard (s : App T) : Action T → Prop
  | .answer _ | .answerError => 0 < s.awaiting
  | .icecandidate _ => s.described = true
  | .message _ | .track _ => True

instance (s : App T) : ∀ a, Decidable (s.guard a) := by
  intro a
  apply Action.casesOn (motive := fun a ↦ Decidable (s.guard a)) a <;>
    (intros; dsimp only [guard]; infer_instance)

/-- The state after an enabled action. -/
def effect (js : Engine) (s : App T) : Action T → App T
  | .message text => (s.onmessage js text).1
  | .answer _ => { s with awaiting := s.awaiting - 1, described := true }
  | .answerError => { s with awaiting := s.awaiting - 1 }
  | .icecandidate _ => s
  | .track track => s.dispatch (.track track)

/-- The events of an action. -/
def emit (js : Engine) (s : App T) : Action T → List Event
  | .message text => (s.onmessage js text).2
  | .answer answer => [.setLocalDescription answer, .send "answer" answer]
  | .icecandidate (some candidate) => [.send "candidate" candidate]
  | .icecandidate none | .answerError | .track _ => []

/-- A message with an event and with data that count as true is handled. -/
theorem onmessage_of_parse (js : Engine) (s : App T) {text : List Char} {event data : Json}
    (h : Json.parse text = some (.obj [("event", event), ("data", data)]))
    (ht : js.truthy data = true) : s.onmessage js text = s.handle (some event) data := by
  simp only [onmessage, h]
  exact if_pos ht

/-- By itself a page makes none of the calls that messages lead to, and shows the same number. -/
theorem filter_isCall_emit (js : Engine) (s : App T) {a : Action T} (ha : a.isMessage = false) :
    (s.emit js a).filter Event.isCall = [] := by
  cases a with
  | message text => cases ha
  | icecandidate candidate => cases candidate <;> rfl
  | answer answer | answerError | track track => rfl

theorem viewers_effect (js : Engine) (s : App T) {a : Action T} (ha : a.isMessage = false) :
    (s.effect js a).state.viewers = s.state.viewers := by
  cases a with
  | message text => cases ha
  | answer answer | answerError | icecandidate candidate | track track => rfl

end App

end ITG.Frontend
