import ITG.Lib.Text
import ITG.Lib.Utf8

/-!
# The FTL codec

`FtlCodec` turns the bytes of the control connection into commands.  A frame is what precedes the
first CRLFCRLF of the buffer; `classify` reads it as a command, by looking for keywords anywhere
in it, in a fixed order, and by splitting it at blanks or colons.

The three ways in which `decode` may end besides producing a command are told apart: nothing to
decode yet, an `Err`, and a panic, which is what an index out of range and `remove(0)` on an
empty string amount to.
-/

namespace ITG.Ingest

open ITG.Lib

/-- A `HashMap<String, String>`, as the list of its entries, latest first. -/
abbrev Data := List (String × String)

/-- `HashMap::insert`. -/
def Data.insert (d : Data) (k v : String) : Data := (k, v) :: d.filter fun e ↦ e.1 ≠ k

/-- `HashMap::get`. -/
def Data.get (d : Data) (k : String) : Option String := d.lookup k

/-- `FtlCommand`. -/
inductive FtlCommand where
  | hmac
  | connect (data : Data)
  | ping
  | dot
  | attribute (data : Data)
  | disconnect
deriving DecidableEq, Repr

/-- `FtlError`; only the decoder's own error carries data that is looked at. -/
inductive FtlError where
  | unsupported (command : String)
  | io
deriving DecidableEq, Repr

/-- How a call of `decode` ends. -/
inductive Decoded where
  /-- `Ok(None)`. -/
  | pending
  /-- `Ok(Some(command))`. -/
  | command (c : FtlCommand)
  /-- `Err(e)`. -/
  | error (e : FtlError)
  | panic
deriving DecidableEq, Repr

namespace FtlCodec

/-- `str::contains` with a string pattern. -/
def Contains (command : List Char) (pattern : String) : Prop := pattern.toList <:+: command

instance (command : List Char) (pattern : String) : Decidable (Contains command pattern) :=
  inferInstanceAs (Decidable (_ <:+: _))

/-- The command a frame stands for. -/
def classify (command : List Char) : Decoded :=
  if Contains command "HMAC" then .command .hmac
  else if Contains command "DISCONNECT" then .command .disconnect
  else if Contains command "CONNECT" then
    match command.splitOn ' ' with
    | _ :: channel_id :: (_ :: key) :: _ =>
        .command (.connect ((Data.insert [] "channel_id" (.ofList channel_id)).insert
          "stream_key" (.ofList key)))
    -- `commands[2]` is out of range, or `key.remove(0)` finds it empty
    | _ => .panic
  else if ':' ∈ command then
    match command.splitOn ':' with
    | key :: value :: _ =>
        .command (.attribute ((Data.insert [] "key" (.ofList key)).insert
          "value" (.ofList (trim value))))
    | _ => .panic
  else if '.' ∈ command ∧ (Utf8.encode command).length = 1 then .command .dot
  else if Contains command "PING" then .command .ping
  else .error (.unsupported (.ofList command))

/-- `b"\r\n\r\n"`. -/
def terminator : List UInt8 := [13, 10, 13, 10]

/-- `FtlCodec::decode`: the outcome, and the buffer it leaves. -/
def decode (buf : List UInt8) : Decoded × List UInt8 :=
  match position terminator buf with
  | some index => (classify (Utf8.fromUtf8Lossy (buf.take index)), buf.drop (index + 4))
  | none => (.pending, buf)

/-- `FtlCodec::encode`: the bytes that are put into the write buffer. -/
def encode (line : String) : List UInt8 := Utf8.encode line.toList

/-! ## Calling `decode` repeatedly -/

theorem classify_ne_pending (command : List Char) : classify command ≠ .pending := by
  unfold classify
  repeat' split
  all_goals simp

/-- A call that decodes something shortens the buffer. -/
theorem decode_length_lt {buf : List UInt8} (h : (decode buf).1 ≠ .pending) :
    (decode buf).2.length < buf.length := by
  cases hp : position terminator buf with
  | none => simp [decode, hp] at h
  | some i =>
      have hle : i + 4 ≤ buf.length := position_add_length_le hp
      simp only [decode, hp, List.length_drop]
      omega

/-- Calls of `decode` on what the call before left, up to the first that produces no command:
the commands, how the last call ended, and the buffer it left. -/
def decodeAll (buf : List UInt8) : List FtlCommand × Decoded × List UInt8 :=
  match _h : (decode buf).1 with
  | .command c =>
      let r := decodeAll (decode buf).2
      (c :: r.1, r.2)
  | d => ([], d, (decode buf).2)
termination_by buf.length
decreasing_by exact decode_length_lt (by rw [_h]; exact nofun)

theorem decodeAll_of_command {buf rest : List UInt8} {c : FtlCommand}
    (h : decode buf = (.command c, rest)) :
    decodeAll buf = (c :: (decodeAll rest).1, (decodeAll rest).2) := by
  rw [decodeAll]
  split
  · rename_i c' hc
    rw [h] at hc
    cases hc
    rw [h]
  · rename_i hc
    exact absurd (congrArg Prod.fst h) (hc c)

theorem decodeAll_of_ne_command {buf rest : List UInt8} {d : Decoded}
    (h : decode buf = (d, rest)) (hd : ∀ c, d ≠ .command c) : decodeAll buf = ([], d, rest) := by
  rw [decodeAll]
  split
  · rename_i c hc
    rw [h] at hc
    exact absurd hc (hd c)
  · rw [h]

/-- The commands that a stream of bytes stands for, up to the first frame that is none. -/
def commands (bytes : List UInt8) : List FtlCommand := (decodeAll bytes).1

theorem commands_of_command {buf rest : List UInt8} {c : FtlCommand}
    (h : decode buf = (.command c, rest)) : commands buf = c :: commands rest := by
  rw [commands, decodeAll_of_command h]
  rfl

theorem commands_eq_nil {buf : List UInt8} (h : ∀ c, (decode buf).1 ≠ .command c) :
    commands buf = [] := by
  rw [commands, decodeAll_of_ne_command rfl h]

end FtlCodec

end ITG.Ingest
