import ITG.Lib.JsonText
import ITG.Webrtc.Hub.Defs
import ITG.Webrtc.ReadLoop

/-!
# The texts of messages

What `Message` stands for on the wire: the text that `json.Marshal` makes of a `WebsocketMessage`
with the payload of the message as its data.  A text that has both fields is decoded into what it
was made of, whatever was in the struct before (`unmarshal_envelope`), so the defect of
`memoryless_iff` cannot show with such texts.

The session description and the candidates of a peer connection are left open.
-/

universe u

namespace ITG.Webrtc

open ITG.Lib

/-- `MessageTypeOffer`. -/
def messageTypeOffer : String := "offer"

/-- `MessageTypeInfo`. -/
def messageTypeInfo : String := "info"

/-- The characters that `encoding/json` escapes by their number so that a text can stand in a
script. -/
def escapeHTML (c : Char) : Bool :=
  c = '<' || c = '>' || c = '&' || c = .ofNat 0x2028 || c = .ofNat 0x2029

/-- How `encoding/json` escapes. -/
def goEscape : Json.Escape := .of escapeHTML fun c hc ↦ by
  simp only [escapeHTML, Bool.or_eq_true, decide_eq_true_eq] at hc
  rcases hc with (((rfl | rfl) | rfl) | rfl) | rfl <;> decide

/-- An object with an event and with data. -/
def envelope (event : String) (data : Json) : Json := .obj [("event", .str event), ("data", data)]

/-- `json.Marshal`.  Raw bytes that are missing are written as `null`. -/
def WebsocketMessage.marshal (m : WebsocketMessage) : List Char :=
  Json.render goEscape (envelope m.event (m.data.getD .null))

/-- What pion makes of the peer connection of a viewer. -/
structure Payload (C : Type u) where
  offer : C → Json.Object
  candidate : C → ℕ → Json.Object

/-- `json.Marshal` of an `Info`. -/
def Info.json (noConnections : ℕ) : Json.Object where
  fields := [("no_connections", .num noConnections.repr)]
  wellFormed := by
    simp only [Json.wellFormedFields, Json.wellFormed, Json.isNumber_repr, Bool.and_self]

namespace Message

variable {C : Type u} (p : Payload C) (c : C)

/-- The `Event` of a message. -/
def event : Message → String
  | .offer => messageTypeOffer
  | .candidate _ => messageTypeCandidate
  | .info _ => messageTypeInfo

/-- Its `Data`. -/
def data : Message → Json.Object
  | .offer => p.offer c
  | .candidate i => p.candidate c i
  | .info noConnections => Info.json noConnections

/-- The text of a message to this viewer. -/
def text (m : Message) : List Char :=
  (WebsocketMessage.mk m.event (some (m.data p c).json)).marshal

end Message

section RoundTrip

variable {e : Json.Escape} {event : String} {data : Json}

theorem wellFormed_envelope : (envelope event data).wellFormed = data.wellFormed := by
  simp [envelope, Json.wellFormed, Json.wellFormedFields]

/-- A reader finds the event and the data. -/
theorem parse_envelope (h : data.wellFormed = true) :
    Json.parse (Json.render e (envelope event data)) = some (envelope event data) := by
  have hread : Json.parse (Json.render e (envelope event data) ++ []) = _ :=
    Json.parse_render e (wellFormed_envelope.trans h) rfl
  rwa [List.append_nil] at hread

theorem Message.parse_text {C : Type u} (p : Payload C) (c : C) (m : Message) :
    Json.parse (m.text p c) = some (envelope m.event (m.data p c).json) :=
  parse_envelope (m.data p c).wellFormed_json

/-- **Nothing is left of earlier messages** by a text that has both fields. -/
theorem unmarshal_envelope (h : data.wellFormed = true) (m : WebsocketMessage) :
    WebsocketMessage.unmarshal (some m) (Json.parse (Json.render e (envelope event data))) =
      .ok (some ⟨event, some data⟩) := by
  have htyped : WebsocketMessage.WellTyped [("event", .str event), ("data", data)] := by
    intro v hv
    have hevent : Json.members "event" [("event", .str event), ("data", data)] = [.str event] := by
      simp +decide [Json.members]
    rw [hevent, List.mem_singleton] at hv
    exact .inr ⟨event, hv⟩
  rw [parse_envelope h, envelope, WebsocketMessage.unmarshal_obj htyped]
  simp +decide [WebsocketMessage.merge, WebsocketMessage.event?, WebsocketMessage.data?,
    Json.members, Json.str?]

end RoundTrip

end ITG.Webrtc
