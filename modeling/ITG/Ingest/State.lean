import ITG.Ingest.Codec

/-!
# The state of a connection

`ConnectionState` is what the command task of a connection keeps about its client, and `handle`
is what it does with a command up to its first `await`: the state it goes on with, and the point
it waits at.  The points are those of the loop body in `Connection::init` and of
`handle_command`: the HTTP and websocket calls, and the send of a reply.

A command with a reply of its own ends in `CommandAt.reply`.  An attribute whose value cannot be
read as a flag, and a command without the data it needs, have none: `handle` goes straight back
to `CommandAt.recv`.
-/

namespace ITG.Ingest

/-- `ConnectionState`. -/
structure ConnectionState where
  hmacPayload : Option String
  protocolVersion : Option String
  vendorName : Option String
  vendorVersion : Option String
  video : Bool
  videoCodec : Option String
  videoHeight : Option String
  videoWidth : Option String
  videoPayloadType : Option String
  videoIngestSsrc : Option String
  audio : Bool
  audioCodec : Option String
  audioPayloadType : Option String
  audioIngestSsrc : Option String
  rtpPort : Option UInt16
  streamKey : Option String
deriving DecidableEq

/-- What the command task does once it has waited for the send of a reply. -/
inductive AfterReply where
  /-- Back to the loop, whether or not the reply was taken: `handle_command`. -/
  | loop
  /-- Back to the loop if the reply was taken, `return` if not: the answer to a dot. -/
  | dot
  /-- `return`: the answer when no port could be allocated. -/
  | failed
deriving DecidableEq, Repr

/-- Program points of the command task. -/
inductive CommandAt where
  /-- In `conn_receive.recv()`. -/
  | recv
  | notifyStart (key : String)
  | allocate
  /-- In `conn_send.send(FrameCommand::Send { data })`. -/
  | reply (data : List String) (after : AfterReply)
  | notifyEnd (key : String)
  | freePort (port : UInt16)
  | returned
deriving DecidableEq

/-- The line that tells the streamer which port to use. -/
def announcement (port : UInt16) : String := s!"200 hi. Use UDP port {port.toNat}\n"

/-- The line that tells the streamer that there is none. -/
def allocationFailed : String := "500 failed to allocate port\n"

/-- What `generate_hmac` has from other crates: the values that the generator draws, and
`hex::encode`, of which all that matters is that it writes no line end. -/
structure Draw where
  /-- `Uniform::new` leaves out its upper end `0xFF`. -/
  value : Fin 128 → Fin 255
  encode : List UInt8 → String
  newline_notMem : ∀ bytes, '\n' ∉ (encode bytes).toList

/-- `generate_hmac`. -/
def generateHmac (draw : Draw) : String :=
  draw.encode (List.ofFn fun i ↦ .ofNat (draw.value i))

/-- The draw of nothing but zeros, which are encoded by zeros. -/
def zeroDraw : Draw where
  value _ := 0
  encode bytes := .ofList (bytes.flatMap fun _ ↦ ['0', '0'])
  newline_notMem bytes := by simp

namespace ConnectionState

/-- `ConnectionState::new`. -/
def new : ConnectionState where
  hmacPayload := none
  protocolVersion := none
  vendorName := none
  vendorVersion := none
  video := false
  videoCodec := none
  videoHeight := none
  videoWidth := none
  videoPayloadType := none
  videoIngestSsrc := none
  audio := false
  audioCodec := none
  audioPayloadType := none
  audioIngestSsrc := none
  rtpPort := none
  streamKey := none

/-- `get_payload`. -/
def getPayload (s : ConnectionState) : String := s.hmacPayload.getD ""

/-- The `match` on the key of an attribute: `none` where the source returns early. -/
def setAttribute (s : ConnectionState) (key value : String) : Option ConnectionState :=
  match key with
  | "ProtocolVersion" => some { s with protocolVersion := some value }
  | "VendorName" => some { s with vendorName := some value }
  | "VendorVersion" => some { s with vendorVersion := some value }
  | "Video" =>
      match value with
      | "true" => some { s with video := true }
      | "false" => some { s with video := false }
      | _ => none
  | "VideoCodec" => some { s with videoCodec := some value }
  | "VideoHeight" => some { s with videoHeight := some value }
  | "VideoWidth" => some { s with videoWidth := some value }
  | "VideoPayloadType" => some { s with videoPayloadType := some value }
  | "VideoIngestSSRC" => some { s with videoIngestSsrc := some value }
  | "Audio" =>
      match value with
      | "true" => some { s with audio := true }
      | "false" => some { s with audio := false }
      | _ => none
  | "AudioCodec" => some { s with audioCodec := some value }
  | "AudioPayloadType" => some { s with audioPayloadType := some value }
  | "AudioIngestSSRC" => some { s with audioIngestSsrc := some value }
  | _ => some s

/-- What is left to do for the port when the connection ends. -/
def release (s : ConnectionState) : CommandAt :=
  match s.rtpPort with
  | some port => .freePort port
  | none => .returned

/-- What the command task does when the connection ends, by `Disconnect` or because the frame
task is gone. -/
def finish (s : ConnectionState) : CommandAt :=
  match s.streamKey with
  | some key => .notifyEnd key
  | none => s.release

/-- The answer to a dot, once there is a port. -/
def announce (port : UInt16) : CommandAt := .reply [announcement port] .dot

/-- The loop body of the command task and `handle_command`, up to the first `await`. -/
def handle (s : ConnectionState) (draw : Draw) : FtlCommand → ConnectionState × CommandAt
  | .disconnect => (s, s.finish)
  | .dot =>
      match s.rtpPort with
      | some port => (s, announce port)
      | none => (s, .allocate)
  | .hmac =>
      let s' := { s with hmacPayload := some (generateHmac draw) }
      (s', .reply ["200 ", s'.getPayload, "\n"] .loop)
  | .connect data =>
      match data.get "stream_key", data.get "channel_id" with
      | some key, some _ => ({ s with streamKey := some key }, .notifyStart key)
      | _, _ => (s, .recv)
  | .attribute data =>
      match data.get "key", data.get "value" with
      | some key, some value =>
          match s.setAttribute key value with
          | some s' => (s', .reply [""] .loop)
          | none => (s, .recv)
      | _, _ => (s, .recv)
  | .ping => (s, .reply ["201\n"] .loop)

end ConnectionState

end ITG.Ingest
