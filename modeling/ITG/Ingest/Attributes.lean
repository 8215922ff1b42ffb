import ITG.Ingest.Lockstep
import ITG.Lib.History

/-!
# Attributes

Of an `Attribute` command, `handle_command` keeps the value in the field of `ConnectionState` that
has the name of its key.  Each of these thirteen fields holds what was last written to it, and
nothing else writes to it.  `attributes_last_writer` says this of every run of a connection; that
the order of attributes with different keys does not matter follows from it.
-/

namespace ITG.Ingest

open ITG.Lib

/-- The attributes that `handle_command` knows. -/
inductive Attribute where
  | protocolVersion
  | vendorName
  | vendorVersion
  | video
  | videoCodec
  | videoHeight
  | videoWidth
  | videoPayloadType
  | videoIngestSsrc
  | audio
  | audioCodec
  | audioPayloadType
  | audioIngestSsrc
deriving DecidableEq, Repr

/-- What the field of an attribute holds. -/
inductive AttributeValue where
  | text (v : Option String)
  | flag (b : Bool)
deriving DecidableEq, Repr

namespace Attribute

/-- The name of the attribute in an `Attribute` command. -/
def key : Attribute → String
  | .protocolVersion => "ProtocolVersion"
  | .vendorName => "VendorName"
  | .vendorVersion => "VendorVersion"
  | .video => "Video"
  | .videoCodec => "VideoCodec"
  | .videoHeight => "VideoHeight"
  | .videoWidth => "VideoWidth"
  | .videoPayloadType => "VideoPayloadType"
  | .videoIngestSsrc => "VideoIngestSSRC"
  | .audio => "Audio"
  | .audioCodec => "AudioCodec"
  | .audioPayloadType => "AudioPayloadType"
  | .audioIngestSsrc => "AudioIngestSSRC"

/-- The value that a text stands for.  Of the flags, only `true` and `false` are accepted. -/
def accept (f : Attribute) (value : String) : Option AttributeValue :=
  match f with
  | .video | .audio =>
      match value with
      | "true" => some (.flag true)
      | "false" => some (.flag false)
      | _ => none
  | _ => some (.text (some value))

end Attribute

/-- The field of an attribute. -/
def ConnectionState.field (s : ConnectionState) : Attribute → AttributeValue
  | .protocolVersion => .text s.protocolVersion
  | .vendorName => .text s.vendorName
  | .vendorVersion => .text s.vendorVersion
  | .video => .flag s.video
  | .videoCodec => .text s.videoCodec
  | .videoHeight => .text s.videoHeight
  | .videoWidth => .text s.videoWidth
  | .videoPayloadType => .text s.videoPayloadType
  | .videoIngestSsrc => .text s.videoIngestSsrc
  | .audio => .flag s.audio
  | .audioCodec => .text s.audioCodec
  | .audioPayloadType => .text s.audioPayloadType
  | .audioIngestSsrc => .text s.audioIngestSsrc

/-- What a command gives the attribute, if it bears its name and is accepted. -/
def FtlCommand.assigned (f : Attribute) : FtlCommand → Option AttributeValue
  | .attribute data =>
      match data.get "key", data.get "value" with
      | some key, some value => if key = f.key then f.accept value else none
      | _, _ => none
  | _ => none

theorem FtlCommand.assigned_of_ne {f : Attribute} {data : Data} (h : data.get "key" ≠ some f.key) :
    (FtlCommand.attribute data).assigned f = none := by
  simp only [assigned]
  split
  · rename_i key value hkey _
    exact if_neg fun heq ↦ h (hkey.trans (congrArg some heq))
  · rfl

namespace ConnectionState

variable (s : ConnectionState) {f : Attribute} {key value : String}

/-- The field with the name of the key gets the value, and no other changes. -/
theorem field_setAttribute : ((s.setAttribute key value).getD s).field f =
    (if key = f.key then f.accept value else none).getD (s.field f) := by
  unfold setAttribute
  split
  case h_4 | h_10 => split <;> cases f <;> simp_all [Attribute.key, Attribute.accept, field]
  case h_14 => cases f <;> simp_all [Attribute.key, field]
  all_goals cases f <;> simp [Attribute.key, Attribute.accept, field]

/-- So has a command in the hands of `handle_command`. -/
theorem field_handle (draw : Draw) (c : FtlCommand) :
    (s.handle draw c).1.field f = (c.assigned f).getD (s.field f) := by
  cases c with
  | «attribute» data =>
      simp only [handle, FtlCommand.assigned]
      cases data.get "key" with
      | none => rfl
      | some key =>
          cases data.get "value" with
          | none => rfl
          | some value =>
              dsimp only
              rw [← field_setAttribute]
              cases s.setAttribute key value <;> rfl
  | connect data =>
      simp only [handle]
      split <;> cases f <;> rfl
  | dot =>
      simp only [handle]
      split <;> rfl
  | hmac => cases f <;> rfl
  | ping | disconnect => rfl

/-- An attribute touches neither the challenge nor the port nor the stream key. -/
theorem frame_handle (draw : Draw) (data : Data) :
    (s.handle draw (.attribute data)).1.hmacPayload = s.hmacPayload ∧
      (s.handle draw (.attribute data)).1.rtpPort = s.rtpPort ∧
      (s.handle draw (.attribute data)).1.streamKey = s.streamKey := by
  simp only [handle]
  split
  · rename_i key value _ _
    cases hs : s.setAttribute key value with
    | none => exact ⟨rfl, rfl, rfl⟩
    | some s' => exact s.frame_setAttribute hs
  · exact ⟨rfl, rfl, rfl⟩

variable {s} {t : ConnectionState}

/-- The attributes, the challenge, the port and the stream key are all that there is. -/
theorem ext_field (hf : ∀ f, s.field f = t.field f) (hh : s.hmacPayload = t.hmacPayload)
    (hp : s.rtpPort = t.rtpPort) (hk : s.streamKey = t.streamKey) : s = t := by
  have htext {a b : Option String} (h : AttributeValue.text a = .text b) : a = b := by
    cases h
    rfl
  have hflag {a b : Bool} (h : AttributeValue.flag a = .flag b) : a = b := by
    cases h
    rfl
  obtain ⟨⟩ := s
  obtain ⟨⟩ := t
  simp only [mk.injEq]
  exact ⟨hh, htext (hf .protocolVersion), htext (hf .vendorName), htext (hf .vendorVersion),
    hflag (hf .video), htext (hf .videoCodec), htext (hf .videoHeight), htext (hf .videoWidth),
    htext (hf .videoPayloadType), htext (hf .videoIngestSsrc), hflag (hf .audio),
    htext (hf .audioCodec), htext (hf .audioPayloadType), htext (hf .audioIngestSsrc), hp, hk⟩

end ConnectionState

/-! ## Runs -/

/-- What an action does to the state that the command task keeps. -/
def ConnectionState.after (s : ConnectionState) : Action → ConnectionState
  | .recvCommand c draw => (s.handle draw c).1
  | .allocate r => { s with rtpPort := r }
  | _ => s

namespace Action

/-- The command that is handled. -/
def command? : Action → Option FtlCommand
  | .recvCommand c _ => some c
  | _ => none

/-- The action may change the state: a command is handled, or the port is set. -/
def writes : Action → Bool
  | .recvCommand _ _ | .allocate _ => true
  | _ => false

/-- What an action gives the attribute. -/
def assigned (f : Attribute) (a : Action) : Option AttributeValue := a.command?.bind (·.assigned f)

variable {a b : Action} {s : ConnectionState}

theorem after_of_not_writes (ha : a.writes = false) : s.after a = s := by
  cases a <;> first | rfl | cases ha

theorem field_after (f : Attribute) :
    (s.after a).field f = (a.assigned f).getD (s.field f) := by
  cases a with
  | recvCommand c draw => exact s.field_handle draw c
  | allocate r => cases f <;> rfl
  | _ => rfl

/-- Attributes with different keys may be exchanged. -/
theorem after_comm {data data' : Data} (draw draw' : Draw)
    (hne : data.get "key" ≠ data'.get "key") :
    (s.after (.recvCommand (.attribute data) draw)).after (.recvCommand (.attribute data') draw') =
      (s.after (.recvCommand (.attribute data') draw')).after
        (.recvCommand (.attribute data) draw) := by
  -- no attribute has both keys
  have hnone (f : Attribute) : (FtlCommand.attribute data).assigned f = none ∨
      (FtlCommand.attribute data').assigned f = none := by
    by_cases hk : data.get "key" = some f.key
    · exact .inr (FtlCommand.assigned_of_ne fun hk' ↦ hne (hk.trans hk'.symm))
    · exact .inl (FtlCommand.assigned_of_ne hk)
  obtain ⟨hh, hp, hk⟩ := s.frame_handle draw data
  obtain ⟨hh', hp', hk'⟩ := s.frame_handle draw' data'
  obtain ⟨hhc, hpc, hkc⟩ := (s.handle draw (.attribute data)).1.frame_handle draw' data'
  obtain ⟨hhc', hpc', hkc'⟩ := (s.handle draw' (.attribute data')).1.frame_handle draw data
  apply ConnectionState.ext_field
  · intro f
    simp only [field_after, assigned, command?, Option.bind_some]
    rcases hnone f with h | h <;> rw [h] <;> rfl
  · exact (hhc.trans hh).trans (hhc'.trans hh').symm
  · exact (hpc.trans hp).trans (hpc'.trans hp').symm
  · exact (hkc.trans hk).trans (hkc'.trans hk').symm

end Action

/-- The commands that a run has handled. -/
def handled (as : List Action) : List FtlCommand := as.filterMap Action.command?

/-- The actions among these that may change the state. -/
def writing (as : List Action) : List Action := as.filter Action.writes

section Reach

variable {ok : Connection → Action → Prop} {as : List Action} {s : Connection}

/-- The state is the work of the actions that may change it, one after the other. -/
theorem state_of_reach (hr : connection.traced.Reach ok as s) :
    s.state = (writing as).foldl ConnectionState.after .new := by
  refine hr.invariant
    (I := fun as s ↦ s.state = (writing as).foldl ConnectionState.after .new) ?_ ?_
  · rintro _ rfl
    rfl
  · intro as s a g ih _
    have hstep : (s.effect a g).state = s.state.after a := by
      cases a <;> rfl
    change (s.effect a g).state = (writing (as ++ [a])).foldl _ _
    rw [hstep, ih]
    unfold writing
    rw [List.filter_append, List.foldl_append]
    cases ha : a.writes with
    | true =>
        rw [List.filter_cons_of_pos ha]
        rfl
    | false =>
        rw [List.filter_cons_of_neg (by simp [ha]), Action.after_of_not_writes ha]
        rfl

/-- What the actions that change nothing give the attributes is nothing. -/
theorem lastOf_writing (f : Attribute) :
    lastOf (Action.assigned f) (writing as) = lastOf (FtlCommand.assigned f) (handled as) := by
  rw [lastOf, lastOf, writing, handled, List.filterMap_filter, List.filterMap_filterMap]
  congr 2
  funext a
  cases a <;> rfl

/-- **Attributes: the last writer wins.**  In every run, the field of an attribute holds the value
of the last accepted command that bears its name, or what it held at first.  A command that is
accepted for no attribute changes nothing, and none changes the challenge, the port or the stream
key.  Two runs that differ in the order of two neighbouring attributes with different keys, of all
that they write, lead to the same state. -/
theorem attributes_last_writer (hr : connection.traced.Reach connection.traced.free as s) :
    (∀ f : Attribute, s.state.field f =
      (lastOf (FtlCommand.assigned f) (handled as)).getD (ConnectionState.new.field f)) ∧
    (∀ data draw, (∀ f : Attribute, (FtlCommand.attribute data).assigned f = none) →
      (s.state.handle draw (.attribute data)).1 = s.state) ∧
    (∀ data draw, (s.state.handle draw (.attribute data)).1.hmacPayload = s.state.hmacPayload ∧
      (s.state.handle draw (.attribute data)).1.rtpPort = s.state.rtpPort ∧
      (s.state.handle draw (.attribute data)).1.streamKey = s.state.streamKey) ∧
    ∀ as' s' l k data data' draw draw', connection.traced.Reach connection.traced.free as' s' →
      Data.get data "key" ≠ Data.get data' "key" →
      writing as = l ++ .recvCommand (.attribute data) draw ::
        .recvCommand (.attribute data') draw' :: k →
      writing as' = l ++ .recvCommand (.attribute data') draw' ::
        .recvCommand (.attribute data) draw :: k → s'.state = s.state := by
  refine ⟨fun f ↦ ?_, fun data draw hnone ↦ ?_, fun data draw ↦ s.state.frame_handle draw data, ?_⟩
  · rw [state_of_reach hr, ← lastOf_writing]
    apply get_foldl (ConnectionState.field · f)
    intro s a
    exact Action.field_after f
  · obtain ⟨hh, hp, hk⟩ := s.state.frame_handle draw data
    apply ConnectionState.ext_field ?_ hh hp hk
    intro f
    rw [s.state.field_handle, hnone f]
    rfl
  · intro as' s' l k data data' draw draw' hr' hne has has'
    rw [state_of_reach hr, state_of_reach hr', has, has', List.foldl_append, List.foldl_append]
    simp only [List.foldl_cons]
    rw [Action.after_comm draw draw' hne]

end Reach

/-- `VideoCodec: H264`. -/
def videoCodec : FtlCommand := .attribute [("value", "H264"), ("key", "VideoCodec")]

/-- `VideoHeight: 720`. -/
def videoHeight : FtlCommand := .attribute [("value", "720"), ("key", "VideoHeight")]

/-- The steps from the decoding of an attribute to the end of its reply. -/
def exchange (c : FtlCommand) : List Action :=
  [.decode, .sendCommand c, .recvCommand c zeroDraw, .reply [""] .loop, .recvReply [""],
    .write "" [], .writeEnd]

/-- Codec and height, in one order and in the other. -/
theorem attributes_last_writer_exchanged :
    ∃ as s as' s', connection.traced.Reach connection.traced.free as s ∧
      connection.traced.Reach connection.traced.free as' s' ∧
      handled as = [videoCodec, videoHeight] ∧ handled as' = [videoHeight, videoCodec] ∧
      s.state.field .videoCodec = .text (some "H264") ∧ s'.state = s.state := by
  obtain ⟨s, hr, -⟩ := connection.exists_of_schedule connection.traced.free (fun _ ↦ True) rfl
    (.read (FtlCodec.encode "VideoCodec: H264\r\n\r\nVideoHeight: 720\r\n\r\n") ::
      (exchange videoCodec ++ exchange videoHeight))
    (by decide +kernel)
  obtain ⟨s', hr', -⟩ := connection.exists_of_schedule connection.traced.free (fun _ ↦ True) rfl
    (.read (FtlCodec.encode "VideoHeight: 720\r\n\r\nVideoCodec: H264\r\n\r\n") ::
      (exchange videoHeight ++ exchange videoCodec))
    (by decide +kernel)
  obtain ⟨hfield, -, -, hswap⟩ := attributes_last_writer hr
  exact ⟨_, s, _, s', hr, hr', rfl, rfl, hfield .videoCodec,
    hswap _ s' [] [] _ _ _ _ hr' (by decide) rfl rfl⟩

end ITG.Ingest
