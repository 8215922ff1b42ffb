import ITG.Ingest.Replies
import ITG.Lib.Frames

/-!
# Framing

`Framed` reads chunks of any size and calls `decode` until it needs more.  `decode` looks for the
first CRLFCRLF of the buffer, so it is an incremental decoder in the sense of `ITG.Lib.Decoder`, and
how the client's bytes arrive makes no difference to the commands: `framing_chunks`.  What is left
in the buffer may differ, when an `Err` or a panic ends the stream before all of it has been read.

A frame is any text, and `decode` indexes into its pieces.  `decode_total_iff` says for which
buffers that does not panic.
-/

namespace ITG.Ingest

open ITG.Lib

namespace FtlCodec

variable {buf : List UInt8}

/-! ## The codec as a decoder -/

theorem decode_eq_pending_iff : (decode buf).1 = .pending ↔ ¬ terminator <:+: buf := by
  rw [← position_eq_none_iff, decode]
  split
  · rename_i hp
    simp [classify_ne_pending, hp]
  · rename_i hp
    simp [hp]

/-- A call that needs more leaves the buffer as it is. -/
theorem decode_of_pending (h : (decode buf).1 = .pending) : decode buf = (.pending, buf) := by
  have hp := position_eq_none_iff.2 (decode_eq_pending_iff.1 h)
  simp only [decode, hp]

/-- What is decoded does not depend on what is read later. -/
theorem decode_append (h : (decode buf).1 ≠ .pending) (more : List UInt8) :
    decode (buf ++ more) = ((decode buf).1, (decode buf).2 ++ more) := by
  cases hp : position terminator buf with
  | none => exact absurd (by simp only [decode, hp]) h
  | some i =>
      have hlen : i + 4 ≤ buf.length := position_add_length_le hp
      simp only [decode, hp, position_append hp more]
      rw [List.take_append_of_le_length (by omega), List.drop_append_of_le_length hlen]

/-- What ends the stream: `Framed` yields an `Err` once and then ends, and a panic ends the task. -/
def ends : Decoded → Bool
  | .error _ | .panic => true
  | .pending | .command _ => false

/-- The codec as an incremental decoder. -/
def decoder : Decoder UInt8 Decoded where
  next buf := if (decode buf).1 = .pending then none else some (decode buf)
  ends := ends
  shrinks := by
    intro buf r rest h
    split at h
    · cases h
    · rename_i hne
      have he := Option.some.inj h
      have hlt := decode_length_lt hne
      rwa [he] at hlt
  stable := by
    intro buf r rest h more
    split at h
    · cases h
    · rename_i hne
      have he := Option.some.inj h
      rw [decode_append hne, if_neg hne, he]

theorem decoder_next_of_pending (h : (decode buf).1 = .pending) : decoder.next buf = none :=
  if_pos h

theorem decoder_next_of_ne (h : (decode buf).1 ≠ .pending) :
    decoder.next buf = some (decode buf) := if_neg h

theorem terminator_notMem_of_next (h : decoder.next buf = none) : ¬ terminator <:+: buf := by
  by_contra hp
  have hne : (decode buf).1 ≠ .pending := fun he ↦ decode_eq_pending_iff.1 he hp
  cases h.symm.trans (decoder_next_of_ne hne)

/-- A result is the command of a frame. -/
theorem position_of_next {r : Decoded} {rest : List UInt8} (h : decoder.next buf = some (r, rest)) :
    ∃ i, position terminator buf = some i ∧ r = classify (Utf8.fromUtf8Lossy (buf.take i)) ∧
      rest = buf.drop (i + terminator.length) := by
  cases hp : position terminator buf with
  | none =>
      have hnone := decoder_next_of_pending (decode_eq_pending_iff.2 (position_eq_none_iff.1 hp))
      cases hnone.symm.trans h
  | some i =>
      have hne : (decode buf).1 ≠ .pending := by
        rw [Ne, decode_eq_pending_iff, ← position_eq_none_iff, hp]
        exact nofun
      have he := Option.some.inj ((decoder_next_of_ne hne).symm.trans h)
      simp only [decode, hp, Prod.mk.injEq] at he
      exact ⟨i, rfl, he.1.symm, he.2.symm⟩

/-- The results are those of the frames, one by one. -/
theorem frames_drain (buf : List UInt8) :
    ∃ frames, Frames terminator buf frames (decoder.drain buf).rest ∧
      (decoder.drain buf).results = frames.map fun f ↦ classify (Utf8.fromUtf8Lossy f) := by
  refine decoder.drain_induction (P := fun buf o ↦ ∃ frames, Frames terminator buf frames o.rest ∧
    o.results = frames.map fun f ↦ classify (Utf8.fromUtf8Lossy f)) ?_ ?_ ?_ buf
  · intro buf _
    exact ⟨[], .nil buf, rfl⟩
  · intro buf r rest h _
    obtain ⟨i, hp, rfl, rfl⟩ := position_of_next h
    exact ⟨[buf.take i], .cons hp (.nil _), rfl⟩
  · intro buf r rest h _ ih
    obtain ⟨i, hp, rfl, rfl⟩ := position_of_next h
    obtain ⟨frames, hf, hr⟩ := ih
    exact ⟨buf.take i :: frames, .cons hp hf, congrArg (_ :: ·) hr⟩

/-- **Chunking does not matter**.  A stream that is fed in chunks gives the results that it gives as
a whole, and leaves the same in the buffer, up to the chunks that are not read because an `Err` or a
panic came before them.  Each result is the command of the bytes up to the first CRLFCRLF of what
remains; with the terminators and the buffer, those are the stream that was read. -/
theorem framing_chunks (chunks : List (List UInt8)) :
    ∃ o unread, decoder.feed [] chunks = (o, unread) ∧
      decoder.feed [] [chunks.flatten] = ({ o with rest := o.rest ++ unread.flatten }, []) ∧
      (o.ended = true ∨ unread = [] ∧ ¬ terminator <:+: o.rest) ∧
      (∃ read frames, chunks = read ++ unread ∧
        Frames terminator chunks.flatten frames (o.rest ++ unread.flatten) ∧
        o.results = frames.map (fun f ↦ classify (Utf8.fromUtf8Lossy f)) ∧
        read.flatten = frames.flatMap (· ++ terminator) ++ o.rest) ∧
      ∀ buf, (decode buf).1 = .pending → decode buf = (.pending, buf) ∧ ¬ terminator <:+: buf := by
  have hnil : decoder.next [] = none := by decide
  have hflat := decoder.drain_append_flatten hnil chunks
  rw [List.nil_append] at hflat
  obtain ⟨⟨read, hread⟩, hunread⟩ := decoder.feed_unread [] chunks
  obtain ⟨frames, hframes, hresults⟩ := frames_drain chunks.flatten
  rw [hflat] at hframes hresults
  refine ⟨(decoder.feed [] chunks).1, (decoder.feed [] chunks).2, rfl,
    decoder.feed_flatten hnil chunks, ?_, ⟨read, frames, hread, hframes, hresults, ?_⟩, ?_⟩
  · by_cases hend : (decoder.feed [] chunks).1.ended = true
    · exact .inl hend
    · refine .inr ⟨hunread hend, ?_⟩
      have hrest := decoder.next_drain_rest chunks.flatten (by rwa [hflat])
      rw [hflat, hunread hend] at hrest
      exact terminator_notMem_of_next (by simpa using hrest)
  · have h := hframes.flatten
    rw [← List.append_assoc] at h
    refine List.append_cancel_right (Eq.trans ?_ h)
    conv_rhs => rw [hread]
    exact List.flatten_append.symm
  · exact fun buf h ↦ ⟨decode_of_pending h, decode_eq_pending_iff.1 h⟩

/-- A frame that is no command ends the stream: what comes in a later chunk is not read, but is left
in the buffer of who reads it all at once. -/
theorem framing_chunks_rest :
    ¬ ∀ chunks, (decoder.feed [] chunks).1 = (decoder.feed [] [chunks.flatten]).1 := by
  intro h
  have hnext : decoder.next (encode "X\r\n\r\n") = some (.error (.unsupported "X"), []) := by
    decide +kernel
  have hx := h [encode "X\r\n\r\n", encode "."]
  rw [decoder.feed_flatten (by decide)] at hx
  simp only [Decoder.feed, List.nil_append, decoder.drain_of_ends hnext rfl, if_true] at hx
  exact absurd (congrArg Decoder.Outcome.rest hx) (by decide +kernel)

end FtlCodec

/-! ## The frame task -/

/-- The bytes that the frame task has read. -/
def bytesRead (as : List Action) : List UInt8 :=
  as.flatMap fun
    | .read chunk => chunk
    | _ => []

/-- The command that has been decoded and not yet been handed over. -/
def FrameAt.decoded : FrameAt → List FtlCommand
  | .sending c => [c]
  | .next | .recv | .writing _ | .returned => []

namespace Connection

open FtlCodec (decoder)

variable {s : Connection} {a : Action} {as : List Action}

/-- The frame task is in the middle of a loop of calls of the decoder on the bytes that it has read:
it has handed over the commands that came first. -/
structure Framed (as : List Action) (s : Connection) : Prop where
  sent : (sent as).map .command <+: (decoder.drain (bytesRead as)).results
  drained : s.frame ≠ .returned → decoder.drain (bytesRead as) =
    (decoder.drain s.buffer).after ((ITG.Ingest.sent as ++ s.frame.decoded).map .command)

theorem Framed.new : Framed [] new where
  sent := List.nil_prefix
  drained _ := rfl

theorem sent_append (as : List Action) (a : Action) :
    ITG.Ingest.sent (as ++ [a]) = ITG.Ingest.sent as ++ ITG.Ingest.sent [a] := List.filterMap_append

theorem bytesRead_append (as : List Action) (a : Action) :
    bytesRead (as ++ [a]) = bytesRead as ++ bytesRead [a] := List.flatMap_append

theorem sent_append_of_nil (hc : ITG.Ingest.sent [a] = []) :
    ITG.Ingest.sent (as ++ [a]) = ITG.Ingest.sent as := by
  rw [sent_append, hc, List.append_nil]

theorem bytesRead_append_of_nil (hb : bytesRead [a] = []) :
    bytesRead (as ++ [a]) = bytesRead as := by
  rw [bytesRead_append, hb, List.append_nil]

/-- A step that neither reads nor hands over. -/
theorem Framed.of_quiet (hs : Framed as s) (hb : bytesRead [a] = [])
    (hc : ITG.Ingest.sent [a] = []) {t : Connection}
    (ht : t.frame ≠ .returned → s.frame ≠ .returned ∧ t.frame.decoded = s.frame.decoded ∧
      t.buffer = s.buffer) : Framed (as ++ [a]) t where
  sent := by
    rw [sent_append_of_nil hc, bytesRead_append_of_nil hb]
    exact hs.sent
  drained hne := by
    obtain ⟨hne', hdec, hbuf⟩ := ht hne
    rw [sent_append_of_nil hc, bytesRead_append_of_nil hb, hdec, hbuf]
    exact hs.drained hne'

/-- Reading more. -/
theorem Framed.read (hs : Framed as s) {chunk : List UInt8} (g : s.guard (.read chunk)) :
    Framed (as ++ [.read chunk]) (s.effect (.read chunk) g) := by
  have hnext := FtlCodec.decoder_next_of_pending g.2.1
  have hdrain := hs.drained (by rw [g.1]; exact nofun)
  rw [decoder.drain_of_none hnext] at hdrain
  have hb : bytesRead (as ++ [.read chunk]) = bytesRead as ++ chunk := by
    rw [bytesRead_append]
    simp [bytesRead]
  have hmore : decoder.drain (bytesRead (as ++ [.read chunk])) =
      (decoder.drain (s.buffer ++ chunk)).after
        ((ITG.Ingest.sent as ++ s.frame.decoded).map .command) := by
    rw [hb, decoder.drain_append, hdrain]
    simp [Decoder.Outcome.after]
  have hsent : ITG.Ingest.sent (as ++ [.read chunk]) = ITG.Ingest.sent as := sent_append_of_nil rfl
  refine ⟨?_, fun _ ↦ ?_⟩
  · rw [hsent, hmore, g.1, FrameAt.decoded, List.append_nil]
    exact List.prefix_append _ _
  · rw [hsent]
    exact hmore

/-- Decoding a command, or something that ends the task. -/
theorem Framed.decode (hs : Framed as s) (g : s.guard .decode) :
    Framed (as ++ [.decode]) (s.effect .decode g) := by
  have hdrain := hs.drained (by rw [g.1]; simp)
  have hnext := FtlCodec.decoder_next_of_ne g.2
  have hb : bytesRead (as ++ [.decode]) = bytesRead as := bytesRead_append_of_nil rfl
  have hsent : ITG.Ingest.sent (as ++ [.decode]) = ITG.Ingest.sent as := sent_append_of_nil rfl
  refine ⟨by rw [hb, hsent]; exact hs.sent, fun hne ↦ ?_⟩
  rw [hb, hsent, hdrain, g.1]
  simp only [effect] at hne ⊢
  cases hdec : FtlCodec.decode s.buffer with
  | mk r rest =>
      rw [hdec] at hne hnext
      cases r with
      | pending | error e | panic => exact absurd rfl hne
      | command c =>
          rw [decoder.drain_of_some hnext fun he ↦ by cases he]
          simp [FrameAt.afterDecode, FrameAt.decoded, Decoder.Outcome.after]

/-- The step lemma. -/
theorem Framed.step (hs : Framed as s) (g : s.guard a) : Framed (as ++ [a]) (s.effect a g) := by
  cases a with
  | read chunk => exact hs.read g
  | decode => exact hs.decode g
  | sendCommand c =>
      have hdrain := hs.drained (by rw [g.1]; simp)
      have hb : bytesRead (as ++ [.sendCommand c]) = bytesRead as := bytesRead_append_of_nil rfl
      have hd : decoder.drain (bytesRead (as ++ [.sendCommand c])) = (decoder.drain s.buffer).after
          ((ITG.Ingest.sent (as ++ [.sendCommand c])).map .command) := by
        rw [hb, hdrain, g.1, sent_append]
        rfl
      refine ⟨?_, fun _ ↦ ?_⟩
      · rw [hd]
        exact List.prefix_append _ _
      · rw [hd]
        simp [effect, FrameAt.decoded]
  | eof | readError | sendCommandError c | recvReplyNone | writeError item items n =>
      exact hs.of_quiet rfl rfl fun h ↦ absurd rfl h
  | recvReply data =>
      refine hs.of_quiet rfl rfl fun _ ↦ ?_
      rw [g.1]
      exact ⟨by simp, rfl, rfl⟩
  | write item items | writeEnd =>
      refine hs.of_quiet rfl rfl fun _ ↦ ?_
      rw [show s.frame = _ from g]
      exact ⟨by simp, rfl, rfl⟩
  | recvCommand c draw | recvCommandNone | notifyStart key ok | allocate r | reply data after
    | replyError data after | notifyEnd key ok | freePort port =>
      exact hs.of_quiet rfl rfl fun h ↦ ⟨h, rfl, rfl⟩

end Connection

/-- The run lemma: the commands that the frame task hands over are those of the bytes it has read,
however these arrived. -/
theorem framed_of_reach {ok : Connection → Action → Prop} {as : List Action} {s : Connection}
    (hr : connection.traced.Reach ok as s) : s.Framed as := by
  refine hr.invariant (I := fun as s ↦ s.Framed as) ?_ ?_
  · rintro _ rfl
    exact .new
  · intro as s a g hs _
    exact hs.step g

/-! ## Panics -/

namespace FtlCodec

/-- The text has a third piece between blanks, and it is not empty. -/
def HasKey (command : List Char) : Prop :=
  ∃ a b c rest, command = a ++ ' ' :: (b ++ ' ' :: c :: rest) ∧ ' ' ∉ a ∧ ' ' ∉ b ∧ c ≠ ' '

/-- What `decode` reads without a panic. -/
def Readable (command : List Char) : Prop :=
  Contains command "HMAC" ∨ Contains command "DISCONNECT" ∨ ¬ Contains command "CONNECT" ∨
    HasKey command

theorem splitOn_of_hasKey {command : List Char} (h : HasKey command) :
    ∃ a b c key rest, command.splitOn ' ' = a :: b :: (c :: key) :: rest := by
  obtain ⟨a, b, c, rest, rfl, ha, hb, hc⟩ := h
  rw [List.splitOn_append_cons_self_of_not_mem ha, List.splitOn_append_cons_self_of_not_mem hb]
  rcases splitOn_cases ' ' (c :: rest) with ⟨-, hs⟩ | ⟨ys, zs, hys, heq, hs⟩
  · exact ⟨a, b, c, rest, [], by rw [hs]⟩
  · cases ys with
    | nil => exact absurd (List.cons.inj heq).1 hc
    | cons y ys =>
        obtain ⟨rfl, -⟩ := List.cons.inj heq
        exact ⟨a, b, c, ys, zs.splitOn ' ', by rw [hs]⟩

theorem hasKey_of_splitOn {command a b key : List Char} {c : Char} {rest : List (List Char)}
    (h : command.splitOn ' ' = a :: b :: (c :: key) :: rest) : HasKey command := by
  rcases splitOn_cases ' ' command with ⟨-, hs⟩ | ⟨a', zs, ha, rfl, hs⟩
  · cases hs.symm.trans h
  obtain ⟨rfl, hzs⟩ := List.cons.inj (hs.symm.trans h)
  rcases splitOn_cases ' ' zs with ⟨-, hs'⟩ | ⟨b', ws, hb, rfl, hs'⟩
  · cases hs'.symm.trans hzs
  obtain ⟨rfl, hws⟩ := List.cons.inj (hs'.symm.trans hzs)
  rcases splitOn_cases ' ' ws with ⟨hmem, hs''⟩ | ⟨k, us, hmem, rfl, hs''⟩
  · obtain ⟨rfl, -⟩ := List.cons.inj (hs''.symm.trans hws)
    exact ⟨_, _, c, key, rfl, ha, hb, fun hc ↦ hmem (hc ▸ List.mem_cons_self)⟩
  · obtain ⟨rfl, -⟩ := List.cons.inj (hs''.symm.trans hws)
    exact ⟨_, _, c, key ++ ' ' :: us, rfl, ha, hb, fun hc ↦ hmem (hc ▸ List.mem_cons_self)⟩

/-- A text is split at a colon only if it has one, but at blanks whether or not it has two. -/
theorem classify_ne_panic_iff (command : List Char) :
    classify command ≠ .panic ↔ Readable command := by
  unfold classify Readable
  split
  · rename_i h
    simp [h]
  split
  · rename_i h
    simp [h]
  split
  · rename_i hh hd hc
    simp only [hh, hd, hc, not_true_eq_false, false_or]
    split
    · rename_i hs
      exact ⟨fun _ ↦ hasKey_of_splitOn hs, fun _ ↦ nofun⟩
    · rename_i hno
      refine ⟨fun h ↦ absurd rfl h, fun hkey ↦ ?_⟩
      obtain ⟨a, b, c, key, rest, hs⟩ := splitOn_of_hasKey hkey
      exact absurd hs (hno a b c key rest)
  · rename_i hh hd hc
    simp only [hh, hd, hc, not_false_eq_true, false_or, true_or, iff_true]
    split
    · rename_i hcolon
      rcases splitOn_cases ':' command with ⟨hmem, -⟩ | ⟨ys, zs, -, -, hs⟩
      · exact absurd hcolon hmem
      · rw [hs]
        cases hz : zs.splitOn ':' with
        | nil => exact absurd hz (List.splitOn_ne_nil ':' zs)
        | cons value rest => exact nofun
    · split
      · exact nofun
      · split <;> exact nofun

/-- How `classify` ends if it does not panic. -/
theorem classify_cases (command : List Char) :
    (∃ c, classify command = .command c) ∨ (∃ text, classify command = .error (.unsupported text)) ∨
      classify command = .panic := by
  unfold classify
  repeat' split
  all_goals simp

/-- **Panic freedom**, and when it holds: `decode` returns `Ok(None)`, a command or `Unsupported`
exactly if the text up to the first CRLFCRLF, if there is one, mentions HMAC or DISCONNECT, or does
not mention CONNECT, or has a third piece between blanks that is not empty. -/
theorem decode_total_iff (buf : List UInt8) :
    ((decode buf).1 = .pending ∨ (∃ c, (decode buf).1 = .command c) ∨
        ∃ text, (decode buf).1 = .error (.unsupported text)) ↔
      ∀ i, position terminator buf = some i → Readable (Utf8.fromUtf8Lossy (buf.take i)) := by
  cases hp : position terminator buf with
  | none => simp [decode, hp]
  | some i =>
      simp only [decode, hp, classify_ne_pending, false_or, Option.some.injEq, forall_eq',
        ← classify_ne_panic_iff]
      rcases classify_cases (Utf8.fromUtf8Lossy (buf.take i)) with ⟨c, hc⟩ | ⟨text, ht⟩ | hpanic
      · simp [hc]
      · simp [ht]
      · simp [hpanic]

/-- A `Connect` without a key, and one whose key is empty. -/
theorem decode_panics :
    (decode (encode "CONNECT\r\n\r\n")).1 = .panic ∧
      (decode (encode "CONNECT 1 \r\n\r\n")).1 = .panic := by
  decide +kernel

end FtlCodec

end ITG.Ingest
