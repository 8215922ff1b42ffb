import ITG.Ingest.Session
import ITG.Lib.JsonText

/-!
# What the auth service is told

`notify_stream_start` and `notify_stream_end` send JSON texts with the stream key, which is what the
streamer has sent in a `CONNECT`.  The service reads this key, and nothing but this key
(`service_told`).

How texts are written is up to `serde_json`, and how they are read up to the service.  Both are left
open: all that is asked of them is `Texts.Faithful`, that an object of strings is read as it was
written.  The members of an object of `serde_json` are in the order of their names.
-/

namespace ITG.Ingest

open ITG.Lib

/-! ## The texts -/

/-- An object of strings. -/
def strings (fields : List (String × String)) : Json :=
  .obj (fields.map fun field ↦ (field.1, .str field.2))

/-- `json!({ "stream_key": stream_key })`. -/
def startJson (key : String) : Json := strings [("stream_key", key)]

/-- `json!({ "stream_key": stream_key, "status": "ended" })`. -/
def endJson (key : String) : Json := strings [("status", "ended"), ("stream_key", key)]

/-- `to_string` of `serde_json`, and what the service makes of a text. -/
structure Texts where
  toString : Json → List Char
  parse : List Char → Option Json

/-- An object of strings is read as it was written, whatever characters they have. -/
def Texts.Faithful (T : Texts) : Prop :=
  ∀ fields : List (String × String), (fields.map Prod.fst).Pairwise (· < ·) →
    T.parse (T.toString (strings fields)) = some (strings fields)

/-- The value of a notification.  A call that fails may not have come to send its text. -/
def Event.notice? : Event → Option Json
  | .notifiedStart key _ => some (startJson key)
  | .notifiedEnd key _ => some (endJson key)
  | _ => none

/-- The values of the notifications, oldest first. -/
def notices (h : List Event) : List Json := h.filterMap Event.notice?

/-- Their texts. -/
def told (T : Texts) (h : List Event) : List (List Char) := (notices h).map T.toString

/-- The key of a message that connects. -/
def ClientMessage.streamKey? : ClientMessage → Option String
  | .connect _ key => some (.ofList key.text)
  | .hmac | .attribute _ _ | .dot | .ping _ | .disconnect => none

@[simp] theorem ClientMessage.streamKey?_command (m : ClientMessage) :
    m.command.streamKey? = m.streamKey? := by
  cases m <;> rfl

/-! ## Notifications along a run -/

/-- The keys of the commands that were received. -/
theorem connects_events (as : List Action) :
    connects (events as) = (received as).filterMap FtlCommand.streamKey? := by
  induction as with
  | nil => rfl
  | cons a as ih =>
      have hcons : connects (events (a :: as)) =
          connects (Connection.emit a) ++ connects (events as) := by
        rw [events, List.flatMap_cons, connects_append]
        rfl
      have hrec : received (a :: as) = received [a] ++ received as := by
        rw [← List.singleton_append, received, List.filterMap_append]
        rfl
      rw [hcons, hrec, List.filterMap_append, ih]
      congr 1
      cases a with
      | recvCommand c draw =>
          change connects [.received c] = [c].filterMap FtlCommand.streamKey?
          rw [connects_singleton]
          cases hc : c.streamKey? <;> simp [Event.connect?, hc]
      | _ => rfl

namespace Connection

/-- The end is told after all starts. -/
def Told (h : List Event) : Prop :=
  notices h = (starts h).map startJson ++ (ends h).map endJson

variable {h : List Event} {s : Connection} {a : Action}

theorem Told.step (ht : Told h) (hi : s.NotifyInv h) (g : s.guard a) : Told (h ++ emit a) := by
  have happend : notices (h ++ emit a) = notices h ++ notices (emit a) := List.filterMap_append
  unfold Told at ht ⊢
  rw [happend, starts_append, ends_append, ht]
  cases a with
  | notifyStart key ok =>
      -- there is no end yet
      have hpoint := hi.point
      rw [show s.command = .notifyStart key from g] at hpoint
      rw [hpoint.1]
      simp [emit, notices, starts, ends, Event.notice?, Event.start?, Event.end?]
  | notifyEnd key ok => simp [emit, notices, starts, ends, Event.notice?, Event.start?, Event.end?]
  | _ =>
      change _ ++ [] = (starts h ++ []).map _ ++ (ends h ++ []).map _
      rw [List.append_nil, List.append_nil, List.append_nil]

theorem told_of_reach {ok : Connection → Action → Prop} (hr : connection.Reach ok h s) :
    Told h := by
  refine hr.invariant_of (I := fun h _ ↦ Told h) (fun _ _ hr ↦ notifyInv_of_reach hr) ?_ ?_
  · rintro _ -
    rfl
  · rintro h s a g hi - ht -
    exact ht.step hi g

/-- The end is that of the last stream that was started. -/
theorem NotifyInv.ended (hi : s.NotifyInv h) :
    ends h = [] ∨ ends h = (starts h).getLast?.toList ∧ ¬ s.command = .recv := by
  have hkey := hi.key
  have hstarted := hi.started
  have hpoint := hi.point
  cases hc : s.command with
  | returned =>
      rw [hc] at hstarted hpoint
      rcases hpoint with ⟨he, -⟩ | ⟨he, -⟩
      · exact .inl he
      · refine .inr ⟨?_, by simp⟩
        rw [he, hkey, hstarted]
        simp [CommandAt.starting]
  | freePort port =>
      rw [hc] at hstarted hpoint
      refine .inr ⟨?_, by simp⟩
      rw [hpoint.1, hkey, hstarted]
      simp [CommandAt.starting]
  | notifyEnd key =>
      rw [hc] at hpoint
      exact .inl hpoint.2.1
  | reply data after =>
      rw [hc] at hpoint
      cases after <;> exact .inl hpoint.1
  | recv | notifyStart key | allocate =>
      rw [hc] at hpoint
      exact .inl hpoint.1

end Connection

variable {as : List Action} {s : Connection}

/-- What is told is read back. -/
theorem map_parse_told {T : Texts} (hT : T.Faithful) {h : List Event} (ht : Connection.Told h) :
    (told T h).map T.parse =
      (starts h).map (some ∘ startJson) ++ (ends h).map (some ∘ endJson) := by
  have hstart : ∀ key, T.parse (T.toString (startJson key)) = some (startJson key) :=
    fun key ↦ hT _ (List.pairwise_singleton _ _)
  have hsorted : "status" < "stream_key" := by decide
  have hend : ∀ key, T.parse (T.toString (endJson key)) = some (endJson key) :=
    fun key ↦ hT _ (List.pairwise_pair.2 hsorted)
  rw [told, ht, List.map_append, List.map_append, List.map_map, List.map_map, List.map_map,
    List.map_map]
  exact congrArg₂ _ (List.map_congr_left fun key _ ↦ hstart key)
    (List.map_congr_left fun key _ ↦ hend key)

/-- The streams that have started are those of messages that the streamer has sent, in their
order. -/
theorem starts_isPrefix {ok : Connection → Action → Prop} (hr : connection.traced.Reach ok as s)
    {ms : List ClientMessage} (hms : ∀ m ∈ ms, m.Clean)
    (hread : bytesRead as = ms.flatMap ClientMessage.bytes) :
    starts (events as) <+: ms.filterMap ClientMessage.streamKey? ∧
      (s.Waiting → s.command = .recv →
        starts (events as) = ms.filterMap ClientMessage.streamKey?) := by
  have hi : s.NotifyInv (events as) := notifyInv_of_reach (hr.of_traced fun _ _ ↦ rfl)
  have hf := framed_of_reach hr
  have hd := delivered_of_reach hr
  have hstarted := hi.started
  rw [connects_events] at hstarted
  have hkeys : (FtlCodec.commands (bytesRead as)).filterMap FtlCommand.streamKey? =
      ms.filterMap ClientMessage.streamKey? := by
    rw [hread, ClientMessage.commands_flatMap_bytes hms, List.filterMap_map]
    exact congrFun (congrArg _ (funext ClientMessage.streamKey?_command)) ms
  constructor
  · have hreceived : received as <+: FtlCodec.commands (bytesRead as) := by
      refine List.IsPrefix.trans ?_ hf.sent_isPrefix
      rw [hd.fifo]
      exact List.prefix_append _ _
    have hpre := hreceived.filterMap FtlCommand.streamKey?
    rw [hkeys, hstarted] at hpre
    exact (List.prefix_append _ _).trans hpre
  · intro hw hrecv
    have hl : s.Lockstep := lockstep_of_reach (hr.of_traced fun _ _ ↦ rfl)
    obtain ⟨hbuf, -, -⟩ := hl.quiet_of_waiting hw
    have hfifo := hd.fifo
    rw [hbuf, List.append_nil, hf.sent_of_waiting hw] at hfifo
    have hstarting : s.command.starting = none := by
      rw [hrecv]
      rfl
    rw [hstarting, Option.toList_none, List.append_nil, ← hfifo, hkeys] at hstarted
    exact hstarted.symm

/-- **The service is told the keys that the streamer has sent.**  When a streamer has sent clean
messages, in whatever pieces, then the texts of the notifications are read as follows: for the
messages that connect, in their order and up to some of them, as an object with the key of the
message and nothing else, and after these as the end of the stream that was started last, if there
is another text.  When the connection waits for more and its command task does so too, there is one
text for each message that connects, and no other. -/
theorem service_told {T : Texts} (hT : T.Faithful)
    (hr : connection.traced.Reach connection.traced.free as s) {ms : List ClientMessage}
    (hms : ∀ m ∈ ms, m.Clean) (hread : bytesRead as = ms.flatMap ClientMessage.bytes) :
    ∃ (keys : List String) (last : Option String),
      (told T (events as)).map T.parse =
        keys.map (some ∘ startJson) ++ last.toList.map (some ∘ endJson) ∧
      keys <+: ms.filterMap ClientMessage.streamKey? ∧ (∀ key ∈ last, keys.getLast? = some key) ∧
      (s.Waiting → s.command = .recv →
        keys = ms.filterMap ClientMessage.streamKey? ∧ last = none) := by
  have hfree : connection.Reach connection.traced.free (events as) s :=
    hr.of_traced fun _ _ ↦ rfl
  have htold := map_parse_told hT (Connection.told_of_reach hfree)
  obtain ⟨hpre, hall⟩ := starts_isPrefix hr hms hread
  rcases (notifyInv_of_reach hfree).ended with he | ⟨he, hne⟩
  · rw [he] at htold
    exact ⟨_, none, htold, hpre, nofun, fun hw hrecv ↦ ⟨hall hw hrecv, rfl⟩⟩
  · rw [he] at htold
    exact ⟨_, _, htold, hpre, fun _ ↦ id, fun _ hrecv ↦ absurd hrecv hne⟩

/-- A writer that escapes what has to be escaped, and a reader of the grammar of JSON. -/
def plainTexts : Texts := ⟨Json.render .minimal, Json.parse⟩

theorem wellFormed_strings (fields : List (String × String)) :
    (strings fields).wellFormed = true := by
  rw [strings, Json.wellFormed]
  induction fields with
  | nil => rfl
  | cons field fields ih => simpa [Json.wellFormedFields, Json.wellFormed] using ih

theorem plainTexts_faithful : plainTexts.Faithful := by
  intro fields _
  have hread : Json.parse (Json.render .minimal (strings fields) ++ []) = _ :=
    Json.parse_render _ (wellFormed_strings fields) rfl
  rwa [List.append_nil] at hread

/-- A key with a quote in it. -/
def quotedMessages : List ClientMessage :=
  [.connect ⟨['2'], List.cons_ne_nil _ _, List.forall_mem_singleton.2 rfl⟩
    ⟨['a', '"', '}'], List.cons_ne_nil _ _,
      List.forall_mem_cons.2 ⟨rfl, List.forall_mem_cons.2 ⟨rfl, List.forall_mem_singleton.2 rfl⟩⟩⟩]

/-- The service reads this key. -/
theorem service_told_quoted :
    ∃ as s, connection.traced.Reach connection.traced.free as s ∧
      bytesRead as = quotedMessages.flatMap ClientMessage.bytes ∧
      (told plainTexts (events as)).map Json.parse = [some (startJson "a\"\x7d")] := by
  obtain ⟨s, hr, hw, hrecv⟩ := connection.exists_of_schedule connection.traced.free
    (fun s ↦ s.Waiting ∧ s.command = .recv) rfl
    [.read (FtlCodec.encode "CONNECT 2 $a\"\x7d\r\n\r\n"), .decode,
      .sendCommand (.connect [("stream_key", "a\"\x7d"), ("channel_id", "2")]),
      .recvCommand (.connect [("stream_key", "a\"\x7d"), ("channel_id", "2")]) zeroDraw,
      .notifyStart "a\"\x7d" true, .reply ["200\n"] .loop, .recvReply ["200\n"], .write "200\n" [],
      .writeEnd] (by decide +kernel)
  have hclean : ∀ m ∈ quotedMessages, m.Clean := by
    refine List.forall_mem_singleton.2 ?_
    change ∀ text ∈ [['2'], ['a', '"', '}']], _
    decide +kernel
  refine ⟨_, s, hr, by decide +kernel, ?_⟩
  obtain ⟨keys, last, htold, -, -, hall⟩ :=
    service_told plainTexts_faithful hr hclean (by decide +kernel)
  obtain ⟨rfl, rfl⟩ := hall hw hrecv
  exact htold

end ITG.Ingest
