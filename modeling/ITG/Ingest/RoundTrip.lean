import ITG.Ingest.State

/-!
# What a client writes and what the codec reads

`ClientMessage` is the protocol from the client's side: a channel id and a key are non-empty and
free of white space, a value is non-empty, trimmed and free of CRLFCRLF.  The types carry these
conditions, so every message is one the codec is for.

A message is framed as it should be (`decode_bytes`): the terminator is found at its end, whatever
follows, and its text is read as it was written.  It is not always classified as it should be,
since keywords are looked for in the whole line and values are cut at colons.
`classify_line_iff` says for which messages it is, and `round_trip_iff` lifts this to sequences:
a list of messages is read back exactly if every message in it is `Clean`.
-/

namespace ITG.Ingest

open ITG.Lib

/-! ## Messages -/

/-- A channel id or a stream key. -/
structure Token where
  text : List Char
  ne_nil : text ≠ []
  noSpace : ∀ c ∈ text, isWhitespace c = false

/-- The value of an attribute. -/
structure Value where
  text : List Char
  ne_nil : text ≠ []
  trimmed : trim text = text
  noTerminator : ¬ "\r\n\r\n".toList <:+: text

/-- A decimal channel id. -/
structure Decimal where
  text : List Char
  ne_nil : text ≠ []
  digits : ∀ c ∈ text, c.isDigit = true

theorem Decimal.noSpace (d : Decimal) : ∀ c ∈ d.text, isWhitespace c = false := by
  intro c hc
  have hd := d.digits c hc
  simp only [Char.isDigit, Bool.and_eq_true, decide_eq_true_eq] at hd
  have h₁ : 48 ≤ c.toNat := hd.1
  have h₂ : c.toNat ≤ 57 := hd.2
  simp only [isWhitespace, Bool.or_eq_false_iff, decide_eq_false_iff_not, beq_eq_false_iff_ne]
  omega

/-- The attributes that `handle_command` knows. -/
def attributeNames : List String :=
  ["ProtocolVersion", "VendorName", "VendorVersion", "Video", "VideoCodec", "VideoHeight",
    "VideoWidth", "VideoPayloadType", "VideoIngestSSRC", "Audio", "AudioCodec",
    "AudioPayloadType", "AudioIngestSSRC"]

/-- What a client sends. -/
inductive ClientMessage where
  | hmac
  | connect (channel_id key : Token)
  | attribute (name : { n : String // n ∈ attributeNames }) (value : Value)
  | dot
  | ping (channel_id : Option Decimal)
  | disconnect

namespace ClientMessage

/-- The text of a message. -/
def line : ClientMessage → List Char
  | .hmac => "HMAC".toList
  | .connect channel_id key =>
      "CONNECT".toList ++ ' ' :: (channel_id.text ++ ' ' :: '$' :: key.text)
  | .attribute name value => name.val.toList ++ ':' :: ' ' :: value.text
  | .dot => ['.']
  | .ping none => "PING".toList
  | .ping (some channel_id) => "PING".toList ++ ' ' :: channel_id.text
  | .disconnect => "DISCONNECT".toList

theorem line_connect (channel_id key : Token) : (connect channel_id key).line =
    "CONNECT".toList ++ ' ' :: (channel_id.text ++ ' ' :: '$' :: key.text) := rfl

theorem line_attribute (name : { n : String // n ∈ attributeNames }) (value : Value) :
    (ClientMessage.attribute name value).line = name.val.toList ++ ':' :: ' ' :: value.text := rfl

theorem line_ping (channel_id : Decimal) :
    (ping (some channel_id)).line = "PING".toList ++ ' ' :: channel_id.text := rfl

/-- The bytes of a message. -/
def bytes (m : ClientMessage) : List UInt8 := Utf8.encode m.line ++ FtlCodec.terminator

/-- The command a message stands for. -/
def command : ClientMessage → FtlCommand
  | .hmac => .hmac
  | .connect channel_id key =>
      .connect ((Data.insert [] "channel_id" (.ofList channel_id.text)).insert
        "stream_key" (.ofList key.text))
  | .attribute name value =>
      .attribute ((Data.insert [] "key" name.val).insert "value" (.ofList value.text))
  | .dot => .dot
  | .ping _ => .ping
  | .disconnect => .disconnect

/-- A message whose free text does not look like part of another command. -/
def Clean : ClientMessage → Prop
  | .connect channel_id key => ∀ text ∈ [channel_id.text, key.text],
      ¬ FtlCodec.Contains text "HMAC" ∧ ¬ FtlCodec.Contains text "DISCONNECT"
  | .attribute _ value => ':' ∉ value.text ∧
      ¬ FtlCodec.Contains value.text "HMAC" ∧ ¬ FtlCodec.Contains value.text "CONNECT"
  | .hmac | .dot | .ping _ | .disconnect => True

end ClientMessage

/-! ## Framing

The terminator can only be found too early if it overlaps with the end of the line or occurs in
it.  Both conditions are about characters; since its bytes are ASCII, that is also how it occurs
in the bytes. -/

/-- A line that does not end in a carriage return or a line feed. -/
def EndsInText (cs : List Char) : Prop := ∀ c ∈ cs.getLast?, c ≠ '\r' ∧ c ≠ '\n'

theorem ne_break_of_not_isWhitespace {c : Char} (h : isWhitespace c = false) :
    c ≠ '\r' ∧ c ≠ '\n' := by
  constructor
  · rintro rfl
    exact absurd h (by decide)
  · rintro rfl
    exact absurd h (by decide)

theorem EndsInText.append {xs ys : List Char} (h : EndsInText ys) (hne : ys ≠ []) :
    EndsInText (xs ++ ys) := by
  intro c hc
  rw [List.getLast?_append_of_ne_nil _ hne] at hc
  exact h c hc

theorem EndsInText.cons {c : Char} {cs : List Char} (h : EndsInText cs) (hne : cs ≠ []) :
    EndsInText (c :: cs) := by
  rw [← List.singleton_append]
  exact h.append hne

theorem EndsInText.of_cons {c : Char} {cs : List Char} (h : EndsInText (c :: cs)) :
    EndsInText cs := by
  intro d hd
  have hne : cs ≠ [] := by
    rintro rfl
    cases hd
  apply h d
  rw [← List.singleton_append, List.getLast?_append_of_ne_nil _ hne]
  exact hd

theorem EndsInText.of_noSpace {cs : List Char} (h : ∀ c ∈ cs, isWhitespace c = false) :
    EndsInText cs := fun c hc ↦
  ne_break_of_not_isWhitespace (h c (List.mem_of_getLast? hc))

/-- A text without white space, by evaluation. -/
theorem EndsInText.of_all {cs : List Char} (h : (cs.all fun c ↦ !isWhitespace c) = true) :
    EndsInText cs := .of_noSpace fun c hc ↦ by simpa using List.all_eq_true.1 h c hc

/-- The terminator as a text. -/
def terminatorText : List Char := ['\r', '\n', '\r', '\n']

theorem not_terminatorText_infix {cs : List Char} (h : '\r' ∉ cs) : ¬ terminatorText <:+: cs :=
  fun hi ↦ h (hi.subset List.mem_cons_self)

theorem carriageReturn_notMem {cs : List Char} (h : ∀ c ∈ cs, isWhitespace c = false) :
    '\r' ∉ cs := fun hm ↦ absurd (h _ hm) (by decide)

/-- If the bytes of a text, with others after them, begin with an ASCII character, so does the
text. -/
theorem prefix_cons_of_encode {c d : Char} {cs : List Char} {p w : List UInt8}
    (hd : d.toNat < 0x80) (h : .ofNat d.toNat :: p <+: Utf8.encode (c :: cs) ++ w) :
    c = d ∧ p <+: Utf8.encode cs ++ w := by
  have hc : c = d := by
    apply Utf8.ascii_mem_utf8EncodeChar hd
    rw [Utf8.encode_cons, List.append_assoc] at h
    cases hb : String.utf8EncodeChar c with
    | nil => exact absurd hb (Utf8.utf8EncodeChar_ne_nil c)
    | cons b bs =>
        rw [hb, List.cons_append, List.cons_prefix_cons] at h
        rw [h.1]
        exact List.mem_cons_self
  subst hc
  rw [Utf8.encode_cons, Utf8.utf8EncodeChar_ascii hd, List.cons_append, List.nil_append,
    List.cons_append, List.cons_prefix_cons] at h
  exact ⟨rfl, h.2⟩

/-- Where the terminator begins before the end of a line, the line contains it. -/
theorem terminatorText_begins {cs : List Char} {w : List UInt8} (hne : cs ≠ [])
    (he : EndsInText cs) (h : FtlCodec.terminator <+: Utf8.encode cs ++ w) :
    terminatorText <+: cs := by
  have step {c d : Char} {cs : List Char} {p : List UInt8} (hd : d.toNat < 0x80)
      (hbreak : d = '\r' ∨ d = '\n') (he : EndsInText (c :: cs))
      (h : .ofNat d.toNat :: p <+: Utf8.encode (c :: cs) ++ w) :
      c = d ∧ cs ≠ [] ∧ EndsInText cs ∧ p <+: Utf8.encode cs ++ w := by
    obtain ⟨rfl, hp⟩ := prefix_cons_of_encode hd h
    have hcs : cs ≠ [] := by
      rintro rfl
      exact hbreak.elim (he c rfl).1 (he c rfl).2
    exact ⟨rfl, hcs, he.of_cons, hp⟩
  match cs, hne with
  | c₁ :: cs, _ =>
      obtain ⟨rfl, hne, he, h⟩ := step (d := '\r') (by decide) (.inl rfl) he h
      match cs, hne with
      | c₂ :: cs, _ =>
          obtain ⟨rfl, hne, he, h⟩ := step (d := '\n') (by decide) (.inr rfl) he h
          match cs, hne with
          | c₃ :: cs, _ =>
              obtain ⟨rfl, hne, he, h⟩ := step (d := '\r') (by decide) (.inl rfl) he h
              match cs, hne with
              | c₄ :: cs, _ =>
                  obtain ⟨rfl, -, -, -⟩ := step (d := '\n') (by decide) (.inr rfl) he h
                  exact ⟨cs, rfl⟩

/-- The first terminator is the one at the end of the line. -/
theorem position_encode {cs : List Char} (he : EndsInText cs)
    (hno : ¬ terminatorText <:+: cs) (w : List UInt8) :
    position FtlCodec.terminator (Utf8.encode cs ++ (FtlCodec.terminator ++ w)) =
      some (Utf8.encode cs).length := by
  induction cs with
  | nil => exact position_self_append (by decide)
  | cons c cs ih =>
      have ih := ih he.of_cons fun h ↦ hno (List.infix_cons h)
      rw [Utf8.encode_cons, List.append_assoc]
      by_cases hc : c = '\r'
      · subst hc
        have hp : ¬ FtlCodec.terminator <+: 13 :: (Utf8.encode cs ++ (FtlCodec.terminator ++ w)) :=
          fun h ↦ hno (terminatorText_begins (w := FtlCodec.terminator ++ w) (by simp) he h).isInfix
        change position FtlCodec.terminator (13 :: (Utf8.encode cs ++ _)) = _
        rw [position_cons_neg hp, ih]
        simp [Utf8.utf8EncodeChar_ascii (c := '\r') (by decide)]
      · have hmem : (13 : UInt8) ∉ String.utf8EncodeChar c := fun h ↦
          hc (Utf8.ascii_mem_utf8EncodeChar (d := '\r') (by decide) h)
        rw [FtlCodec.terminator, position_append_of_notMem hmem, ← FtlCodec.terminator, ih]
        simp [Nat.add_comm]

namespace ClientMessage

/-- No message ends in a carriage return or a line feed. -/
theorem endsInText_line : ∀ m : ClientMessage, EndsInText m.line
  | .hmac | .dot | .disconnect | .ping none => .of_all (by decide +kernel)
  | .connect channel_id key => by
      rw [line_connect]
      have hkey : EndsInText ('$' :: key.text) :=
        (EndsInText.of_noSpace key.noSpace).cons key.ne_nil
      have hid : EndsInText (channel_id.text ++ ' ' :: '$' :: key.text) :=
        (hkey.cons (by simp)).append (by simp)
      exact (hid.cons (by simp)).append (by simp)
  | .attribute name value => by
      rw [line_attribute]
      have hv : EndsInText value.text := fun c hc ↦ by
        obtain ⟨hne, rfl⟩ := List.mem_getLast?_eq_getLast hc
        exact ne_break_of_not_isWhitespace (getLast_of_trim_eq value.trimmed hne)
      exact ((hv.cons value.ne_nil).cons (by simp)).append (by simp)
  | .ping (some channel_id) => by
      rw [line_ping]
      exact ((EndsInText.of_noSpace channel_id.noSpace).cons channel_id.ne_nil).append (by simp)

/-- No message contains the terminator. -/
theorem noTerminator_line : ∀ m : ClientMessage, ¬ terminatorText <:+: m.line
  | .hmac | .dot | .disconnect | .ping none => not_terminatorText_infix (by decide +kernel)
  | .connect channel_id key => by
      apply not_terminatorText_infix
      intro hm
      rw [line_connect] at hm
      simp only [List.mem_append, List.mem_cons] at hm
      rcases hm with hm | hm | hm | hm | hm | hm
      · exact absurd hm (by decide +kernel)
      · cases hm
      · exact carriageReturn_notMem channel_id.noSpace hm
      · cases hm
      · cases hm
      · exact carriageReturn_notMem key.noSpace hm
  | .attribute name value => by
      rw [line_attribute, infix_append_cons_iff (by decide) (by decide),
        ← List.nil_append (' ' :: _),
        infix_append_cons_iff (by decide) (by decide)]
      rintro (hi | hi | hi)
      · have hname : ∀ n ∈ attributeNames, '\r' ∉ n.toList := by decide +kernel
        exact not_terminatorText_infix (hname _ name.property) hi
      · exact absurd hi (by decide)
      · exact value.noTerminator hi
  | .ping (some channel_id) => by
      apply not_terminatorText_infix
      intro hm
      rw [line_ping, List.mem_append, List.mem_cons] at hm
      rcases hm with hm | hm | hm
      · exact absurd hm (by decide +kernel)
      · cases hm
      · exact carriageReturn_notMem channel_id.noSpace hm

/-- **Framing**: a message is cut off at its end and read as it was written. -/
theorem decode_bytes (m : ClientMessage) (w : List UInt8) :
    FtlCodec.decode (m.bytes ++ w) = (FtlCodec.classify m.line, w) := by
  have hp := position_encode m.endsInText_line m.noTerminator_line w
  have hb : m.bytes ++ w = Utf8.encode m.line ++ (FtlCodec.terminator ++ w) :=
    List.append_assoc _ _ _
  rw [FtlCodec.decode, hb]
  simp only [hp, List.take_left', Utf8.fromUtf8Lossy_encode]
  rw [List.drop_append, List.drop_eq_nil_of_le (by omega)]
  simp [FtlCodec.terminator]

/-! ## Classification -/

/-- The keywords that outrank an attribute. -/
def keywords : List String := ["HMAC", "DISCONNECT", "CONNECT"]

/-- The keywords that outrank a connect are found in its line only if they are in its free
text. -/
theorem contains_line_connect (channel_id key : Token) {p : String} (hp : p ∈ keywords)
    (hc : p ≠ "CONNECT") : FtlCodec.Contains (connect channel_id key).line p ↔
      FtlCodec.Contains channel_id.text p ∨ FtlCodec.Contains key.text p := by
  have hsep : ∀ p ∈ keywords, ' ' ∉ p.toList ∧ '$' ∉ p.toList ∧ p.toList ≠ [] := by
    decide +kernel
  have hword : ∀ p ∈ keywords, p ≠ "CONNECT" → ¬ p.toList <:+: "CONNECT".toList := by
    decide +kernel
  obtain ⟨hspace, hdollar, hne⟩ := hsep p hp
  rw [FtlCodec.Contains, line_connect, infix_append_cons_iff hspace hne,
    infix_append_cons_iff hspace hne, ← List.nil_append ('$' :: _),
    infix_append_cons_iff hdollar hne, List.infix_nil, or_iff_right (hword p hp hc),
    or_iff_right hne]
  rfl

/-- The keywords that outrank an attribute are found in its line only if they are in its
value. -/
theorem contains_line_attribute (name : { n : String // n ∈ attributeNames }) (value : Value)
    {p : String} (hp : p ∈ keywords) :
    FtlCodec.Contains (ClientMessage.attribute name value).line p ↔
      FtlCodec.Contains value.text p := by
  have hsep : ∀ p ∈ keywords, ' ' ∉ p.toList ∧ ':' ∉ p.toList ∧ p.toList ≠ [] := by
    decide +kernel
  have hname : ∀ p ∈ keywords, ∀ n ∈ attributeNames, ¬ p.toList <:+: n.toList := by
    decide +kernel
  obtain ⟨hspace, hcolon, hne⟩ := hsep p hp
  rw [FtlCodec.Contains, line_attribute, infix_append_cons_iff hcolon hne,
    ← List.nil_append (' ' :: _), infix_append_cons_iff hspace hne, List.infix_nil,
    or_iff_right (hname p hp _ name.property), or_iff_right hne]
  rfl

/-- The words of a connect. -/
theorem splitOn_line_connect (channel_id key : Token) : (connect channel_id key).line.splitOn ' ' =
    ["CONNECT".toList, channel_id.text, '$' :: key.text] := by
  have hmem {cs : List Char} (h : ∀ c ∈ cs, isWhitespace c = false) : ' ' ∉ cs := fun hm ↦
    absurd (h _ hm) (by decide)
  have hkey : ' ' ∉ '$' :: key.text := by simpa using hmem key.noSpace
  rw [line_connect, List.splitOn_append_cons_self, List.splitOn_append_cons_self,
    List.splitOn_eq_singleton (hmem channel_id.noSpace), List.splitOn_eq_singleton hkey,
    List.splitOn_eq_singleton (by decide +kernel)]
  rfl

theorem clean_connect_iff (channel_id key : Token) : (connect channel_id key).Clean ↔
    ¬ FtlCodec.Contains (connect channel_id key).line "HMAC" ∧
      ¬ FtlCodec.Contains (connect channel_id key).line "DISCONNECT" := by
  rw [contains_line_connect channel_id key (by decide) (by decide),
    contains_line_connect channel_id key (by decide) (by decide), not_or, not_or]
  simp only [Clean, List.mem_cons, List.not_mem_nil, or_false, forall_eq_or_imp, forall_eq]
  constructor
  · rintro ⟨⟨h₁, h₂⟩, h₃, h₄⟩
    exact ⟨⟨h₁, h₃⟩, h₂, h₄⟩
  · rintro ⟨⟨h₁, h₃⟩, h₂, h₄⟩
    exact ⟨⟨h₁, h₂⟩, h₃, h₄⟩

theorem classify_connect_iff (channel_id key : Token) :
    FtlCodec.classify (connect channel_id key).line = .command (connect channel_id key).command ↔
      (connect channel_id key).Clean := by
  have hconnect : FtlCodec.Contains (connect channel_id key).line "CONNECT" := by
    rw [FtlCodec.Contains, line_connect]
    exact (List.prefix_append _ _).isInfix
  rw [clean_connect_iff, FtlCodec.classify, splitOn_line_connect]
  by_cases h₁ : FtlCodec.Contains (connect channel_id key).line "HMAC"
  · simp [h₁, command]
  · by_cases h₂ : FtlCodec.Contains (connect channel_id key).line "DISCONNECT"
    · simp [h₁, h₂, command]
    · simp [h₁, h₂, hconnect, command]

theorem clean_attribute_iff (name : { n : String // n ∈ attributeNames }) (value : Value) :
    (ClientMessage.attribute name value).Clean ↔ ':' ∉ value.text ∧
      ¬ FtlCodec.Contains (ClientMessage.attribute name value).line "HMAC" ∧
        ¬ FtlCodec.Contains (ClientMessage.attribute name value).line "CONNECT" := by
  rw [contains_line_attribute name value (by decide),
    contains_line_attribute name value (by decide), Clean]

/-- The value that is cut out of the line: it ends before the first colon in it. -/
theorem splitOn_line_attribute (name : { n : String // n ∈ attributeNames }) (value : Value) :
    ∃ piece rest, (ClientMessage.attribute name value).line.splitOn ':' =
      name.val.toList :: piece :: rest ∧ (trim piece = value.text ↔ ':' ∉ value.text) := by
  have hname : ∀ n ∈ attributeNames, ':' ∉ n.toList := by decide +kernel
  have hline : (ClientMessage.attribute name value).line.splitOn ':' =
      name.val.toList :: (' ' :: value.text).splitOn ':' := by
    rw [line_attribute, List.splitOn_append_cons_self,
      List.splitOn_eq_singleton (hname _ name.property)]
    rfl
  by_cases hv : ':' ∈ value.text
  · obtain ⟨xs, ys, hxs, hval⟩ := List.eq_append_cons_of_mem hv
    refine ⟨' ' :: xs, ys.splitOn ':', ?_, ?_⟩
    · rw [hline, hxs, ← List.cons_append, List.splitOn_append_cons_self,
        List.splitOn_eq_singleton (by simpa using hval)]
      rfl
    · refine ⟨fun ht ↦ ?_, fun h ↦ absurd hv h⟩
      have hmem := mem_of_mem_trim (ht ▸ hv)
      exact absurd (by simpa using hmem) hval
  · refine ⟨' ' :: value.text, [], ?_, ?_⟩
    · rw [hline, List.splitOn_eq_singleton (by simpa using hv)]
    · rw [trim_cons_of_isWhitespace (by decide), value.trimmed]
      exact ⟨fun _ ↦ hv, fun _ ↦ rfl⟩

theorem classify_attribute_iff (name : { n : String // n ∈ attributeNames }) (value : Value) :
    FtlCodec.classify (ClientMessage.attribute name value).line =
        .command (ClientMessage.attribute name value).command ↔
      (ClientMessage.attribute name value).Clean := by
  have hcolon : ':' ∈ (ClientMessage.attribute name value).line := by simp [line_attribute]
  have hconnect : FtlCodec.Contains (ClientMessage.attribute name value).line "DISCONNECT" →
      FtlCodec.Contains (ClientMessage.attribute name value).line "CONNECT" :=
    (by decide +kernel : "CONNECT".toList <:+: "DISCONNECT".toList).trans
  obtain ⟨piece, rest, hsplit, htrim⟩ := splitOn_line_attribute name value
  rw [clean_attribute_iff, FtlCodec.classify, hsplit]
  by_cases h₁ : FtlCodec.Contains (ClientMessage.attribute name value).line "HMAC"
  · simp [h₁, command]
  · by_cases h₂ : FtlCodec.Contains (ClientMessage.attribute name value).line "DISCONNECT"
    · simp [h₁, h₂, hconnect h₂, command]
    · by_cases h₃ : FtlCodec.Contains (ClientMessage.attribute name value).line "CONNECT"
      · simp only [h₁, h₂, h₃, if_true, if_false, not_true, and_false, iff_false]
        split <;> simp [command]
      · have hvalue : String.ofList (trim piece) = String.ofList value.text ↔ ':' ∉ value.text := by
          rw [← htrim]
          exact String.ofList_inj
        simp [h₁, h₂, h₃, hcolon, command, Data.insert, hvalue]

/-- A channel id does not make a ping look like anything else. -/
theorem classify_ping (channel_id : Decimal) :
    FtlCodec.classify (ping (some channel_id)).line = .command .ping := by
  have hmem {c : Char} (hc : c ∈ (ping (some channel_id)).line) :
      c ∈ "PING ".toList ∨ c.isDigit = true := by
    rw [line_ping, List.mem_append, List.mem_cons] at hc
    rcases hc with hc | rfl | hc
    · exact .inl ((by decide +kernel : "PING".toList <+: "PING ".toList).subset hc)
    · exact .inl (by decide +kernel)
    · exact .inr (channel_id.digits c hc)
  have hno {p : String} (hp : 'C' ∈ p.toList) :
      ¬ FtlCodec.Contains (ping (some channel_id)).line p := fun h ↦
    absurd (hmem (h.subset hp)) (by decide +kernel)
  have hcolon : ':' ∉ (ping (some channel_id)).line := fun h ↦ absurd (hmem h) (by decide +kernel)
  have hdot : '.' ∉ (ping (some channel_id)).line := fun h ↦ absurd (hmem h) (by decide +kernel)
  have hping : FtlCodec.Contains (ping (some channel_id)).line "PING" :=
    (List.prefix_append _ _).isInfix
  rw [FtlCodec.classify, if_neg (hno (by decide +kernel)), if_neg (hno (by decide +kernel)),
    if_neg (hno (by decide +kernel)), if_neg hcolon, if_neg fun h ↦ hdot h.1, if_pos hping]

/-- **Classification**: the line of a message is read as its command exactly if the message is
clean. -/
theorem classify_line_iff :
    ∀ m : ClientMessage, FtlCodec.classify m.line = .command m.command ↔ m.Clean
  | .connect channel_id key => classify_connect_iff channel_id key
  | .attribute name value => classify_attribute_iff name value
  | .hmac => iff_of_true (by decide +kernel) trivial
  | .dot => iff_of_true (by decide +kernel) trivial
  | .disconnect => iff_of_true (by decide +kernel) trivial
  | .ping none => iff_of_true (by decide +kernel) trivial
  | .ping (some channel_id) => iff_of_true (classify_ping channel_id) trivial

/-- **The round trip.**  A list of messages is read back, as the commands they stand for and with
nothing left in the buffer, exactly if every one of them is clean. -/
theorem round_trip_iff (ms : List ClientMessage) :
    FtlCodec.decodeAll (ms.flatMap bytes) = (ms.map command, .pending, []) ↔
      ∀ m ∈ ms, m.Clean := by
  induction ms with
  | nil =>
      refine iff_of_true (FtlCodec.decodeAll_of_ne_command (d := .pending) rfl nofun) ?_
      exact fun m hm ↦ absurd hm List.not_mem_nil
  | cons m ms ih =>
      rw [List.flatMap_cons, List.map_cons, List.forall_mem_cons, ← ih, ← classify_line_iff]
      have hd := decode_bytes m (ms.flatMap bytes)
      by_cases hc : ∃ c, FtlCodec.classify m.line = .command c
      · obtain ⟨c, hc⟩ := hc
        rw [hc] at hd
        rw [FtlCodec.decodeAll_of_command hd, hc]
        constructor
        · intro h
          obtain ⟨h₁, h₂⟩ := Prod.mk.inj h
          obtain ⟨rfl, h₃⟩ := List.cons.inj h₁
          exact ⟨rfl, Prod.ext h₃ h₂⟩
        · rintro ⟨h₁, h₂⟩
          cases h₁
          rw [h₂]
      · rw [FtlCodec.decodeAll_of_ne_command hd fun c h ↦ hc ⟨c, h⟩]
        constructor
        · intro h
          cases congrArg Prod.fst h
        · rintro ⟨h, -⟩
          exact absurd ⟨_, h⟩ hc

/-- A version with a colon in it. -/
def colonVersion : ClientMessage :=
  .attribute ⟨"VendorVersion", by decide⟩
    ⟨"1:2".toList, by decide +kernel, by decide +kernel, by decide +kernel⟩

/-- The version is cut at its colon. -/
theorem round_trip_fails :
    FtlCodec.decodeAll ([colonVersion].flatMap bytes) ≠
      ([colonVersion].map command, .pending, []) := by
  have hc : FtlCodec.classify colonVersion.line =
      .command (.attribute [("value", "1"), ("key", "VendorVersion")]) := by decide +kernel
  have hd := decode_bytes colonVersion []
  rw [hc] at hd
  rw [List.flatMap_cons, List.flatMap_nil, FtlCodec.decodeAll_of_command hd]
  intro h
  have hcommand := (List.cons.inj (congrArg Prod.fst h)).1
  exact absurd hcommand (by decide +kernel)

end ClientMessage

end ITG.Ingest
