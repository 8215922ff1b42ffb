import ITG.Lib.Json
import ITG.Lib.Machine

/-!
# The messages of a viewer

`Client.ReadLoop`, which decodes each text message of a viewer into one struct that it keeps for the
whole connection, and hands a candidate or an answer to the viewer's peer connection.

A message is what `encoding/json` makes of its text: a JSON value, or nothing if the text is none.
`Unmarshal` leaves the fields of a struct alone whose names do not occur in the object, so the
struct still holds what earlier messages put there; `message_of_reach` says what that is, and
`memoryless_iff` when it shows.  The struct is behind a pointer, which one text sets to `nil`
(`panic_free_iff`).

How pion decodes a candidate and a session description, and what its calls return, is left open, as
is the moment at which `ReadMessage` fails.
-/

universe u v

namespace ITG.Webrtc

open ITG.Lib

/-- `MessageTypeAnswer`. -/
def messageTypeAnswer : String := "answer"

/-- `MessageTypeCandidate`. -/
def messageTypeCandidate : String := "candidate"

/-- A `WebsocketMessage`.  Its `Data` is the value that the raw bytes stand for; `none` if there are
no bytes. -/
structure WebsocketMessage where
  event : String
  data : Option Json

/-- The errors of `json.Unmarshal`. -/
inductive UnmarshalError where
  | syntaxError
  | unmarshalTypeError
deriving DecidableEq, Repr

namespace WebsocketMessage

/-- `WebsocketMessage{}`. -/
def empty : WebsocketMessage := ⟨"", none⟩

/-- A member of an object is decoded into the struct.  `null` is no value for a string, but one for
a `json.RawMessage`. -/
def set (m : WebsocketMessage) (field : String × Json) : Except UnmarshalError WebsocketMessage :=
  if Json.isKey "event" field.1 then
    match field.2 with
    | .str s => .ok { m with event := s }
    | .null => .ok m
    | _ => .error .unmarshalTypeError
  else if Json.isKey "data" field.1 then .ok { m with data := some field.2 }
  else .ok m

/-- `json.Unmarshal(raw, &message)`: the pointer `message` after it, which `null` sets to `nil`. -/
def unmarshal (message : Option WebsocketMessage) :
    Option Json → Except UnmarshalError (Option WebsocketMessage)
  | none => .error .syntaxError
  | some .null => .ok none
  | some (.obj fields) => (fields.foldlM set (message.getD empty)).map some
  | some _ => .error .unmarshalTypeError

/-! ## What an object says -/

/-- The last `event` of an object. -/
def event? (fields : List (String × Json)) : Option String :=
  ((Json.members "event" fields).filterMap Json.str?).getLast?

/-- The last `data` of an object. -/
def data? (fields : List (String × Json)) : Option Json := (Json.members "data" fields).getLast?

/-- Every `event` of an object is a string or `null`. -/
def WellTyped (fields : List (String × Json)) : Prop :=
  ∀ v ∈ Json.members "event" fields, v = .null ∨ ∃ s, v = .str s

/-- The struct after an object has been decoded into it. -/
def merge (m : WebsocketMessage) (fields : List (String × Json)) : WebsocketMessage where
  event := (event? fields).getD m.event
  data := (data? fields).or m.data

variable {m : WebsocketMessage} {fields fields' : List (String × Json)}

@[simp] theorem merge_nil : m.merge [] = m := rfl

/-- Two objects that are decoded one after the other are as one. -/
theorem merge_merge : (m.merge fields).merge fields' = m.merge (fields ++ fields') := by
  simp only [merge, event?, data?, Json.members_append, List.filterMap_append, List.getLast?_append]
  congr 1
  · cases ((Json.members "event" fields').filterMap Json.str?).getLast? <;> rfl
  · cases (Json.members "data" fields').getLast? <;> rfl

theorem wellTyped_cons {f : String × Json} :
    WellTyped (f :: fields) ↔ WellTyped [f] ∧ WellTyped fields := by
  unfold WellTyped
  rw [← List.singleton_append, Json.members_append]
  exact List.forall_mem_append

/-- A member of the right type is decoded. -/
theorem set_of_wellTyped {f : String × Json} (h : WellTyped [f]) : m.set f = .ok (m.merge [f]) := by
  obtain ⟨key, v⟩ := f
  cases hevent : Json.isKey "event" key with
  | true =>
      have hdata : Json.isKey "data" key = false := by
        refine Bool.eq_false_iff.2 fun hdata ↦ ?_
        exact absurd (Json.isKey_unique hevent hdata) (by decide)
      have hm : Json.members "event" [(key, v)] = [v] := Json.members_cons_of_isKey hevent
      rcases h v (by rw [hm]; exact List.mem_cons_self) with rfl | ⟨s, rfl⟩
      · simp [set, merge, event?, data?, hevent, hm, Json.members_cons_of_not hdata, Json.str?]
      · simp [set, merge, event?, data?, hevent, hm, Json.members_cons_of_not hdata, Json.str?]
  | false =>
      cases hdata : Json.isKey "data" key with
      | true =>
          simp [set, merge, event?, data?, hevent, hdata, Json.members_cons_of_not hevent,
            Json.members_cons_of_isKey hdata]
      | false =>
          simp [set, merge, event?, data?, hevent, hdata, Json.members_cons_of_not hevent,
            Json.members_cons_of_not hdata]

theorem set_of_not_wellTyped {f : String × Json} (h : ¬ WellTyped [f]) :
    m.set f = .error .unmarshalTypeError := by
  obtain ⟨key, v⟩ := f
  cases hevent : Json.isKey "event" key with
  | false =>
      refine absurd (fun w hw ↦ ?_) h
      rw [Json.members_cons_of_not hevent] at hw
      cases hw
  | true =>
      have hv : ¬ (v = .null ∨ ∃ s, v = .str s) := fun hv ↦ h fun w hw ↦ by
        rw [Json.members_cons_of_isKey hevent] at hw
        cases List.mem_singleton.1 hw
        exact hv
      rw [set, if_pos hevent]
      cases v with
      | null => exact absurd (.inl rfl) hv
      | str s => exact absurd (.inr ⟨s, rfl⟩) hv
      | _ => rfl

/-- An object whose members have the right types is decoded. -/
theorem foldlM_set (h : WellTyped fields) : fields.foldlM set m = .ok (m.merge fields) := by
  induction fields generalizing m with
  | nil => rfl
  | cons f fields ih =>
      obtain ⟨hf, hfields⟩ := wellTyped_cons.1 h
      rw [List.foldlM_cons, set_of_wellTyped hf]
      exact (ih hfields).trans (congrArg _ merge_merge)

/-- Any other fails. -/
theorem foldlM_set_of_not (h : ¬ WellTyped fields) :
    fields.foldlM set m = .error .unmarshalTypeError := by
  induction fields generalizing m with
  | nil => exact absurd nofun h
  | cons f fields ih =>
      rw [List.foldlM_cons]
      by_cases hf : WellTyped [f]
      · rw [set_of_wellTyped hf]
        exact ih fun hfields ↦ h (wellTyped_cons.2 ⟨hf, hfields⟩)
      · rw [set_of_not_wellTyped hf]
        rfl

theorem unmarshal_obj (h : WellTyped fields) :
    unmarshal (some m) (some (.obj fields)) = .ok (some (m.merge fields)) := by
  rw [unmarshal, Option.getD_some, foldlM_set h]
  rfl

theorem unmarshal_obj_of_not (h : ¬ WellTyped fields) (message : Option WebsocketMessage) :
    unmarshal message (some (.obj fields)) = .error .unmarshalTypeError := by
  rw [unmarshal, foldlM_set_of_not h]
  rfl

/-- Only an object is decoded into the struct. -/
theorem eq_obj_of_unmarshal {message : Option WebsocketMessage} {raw : Option Json}
    (h : unmarshal message raw = .ok (some m)) :
    ∃ fields, raw = some (.obj fields) ∧ WellTyped fields := by
  unfold unmarshal at h
  split at h
  · cases h
  · cases h
  · rename_i fields
    refine ⟨fields, rfl, ?_⟩
    by_contra hw
    rw [foldlM_set_of_not hw] at h
    cases h
  · cases h

end WebsocketMessage

open WebsocketMessage

/-! ## The loop -/

/-- How `encoding/json` decodes a value into a `webrtc.ICECandidateInit` and into a
`webrtc.SessionDescription`; `none` if it fails. -/
structure Pion (C : Type u) (D : Type v) where
  candidate : Json → Option C
  answer : Json → Option D

/-- What `ReadLoop` does with a message. -/
inductive Reaction (C : Type u) (D : Type v) where
  | addICECandidate (candidate : C)
  | setRemoteDescription (answer : D)
  | ignore
  | terminate
  /-- A `nil` pointer is dereferenced. -/
  | panic
deriving DecidableEq, Repr

variable {C : Type u} {D : Type v}

/-- The `switch` of `ReadLoop`. -/
def Pion.dispatch (p : Pion C D) (message : WebsocketMessage) : Reaction C D :=
  if message.event = messageTypeCandidate then
    match message.data.bind p.candidate with
    | some candidate => .addICECandidate candidate
    | none => .terminate
  else if message.event = messageTypeAnswer then
    match message.data.bind p.answer with
    | some answer => .setRemoteDescription answer
    | none => .terminate
  else .ignore

/-- What `ReadLoop` does with a text, when its struct holds this. -/
def Pion.react (p : Pion C D) (message : Option WebsocketMessage) (raw : Option Json) :
    Reaction C D :=
  match unmarshal message raw with
  | .error _ => .terminate
  | .ok none => .panic
  | .ok (some message) => p.dispatch message

/-- Program points of `ReadLoop`. -/
inductive LoopAt where
  /-- In `ReadMessage`. -/
  | reading
  | returned
  | panicked
deriving DecidableEq, Repr

/-- Where the loop goes after a reaction, if the call of pion returns without error or not. -/
def Reaction.next (ok : Bool) : Reaction C D → LoopAt
  | .addICECandidate _ | .setRemoteDescription _ => if ok then .reading else .returned
  | .ignore => .reading
  | .terminate => .returned
  | .panic => .panicked

/-- The variable `message` of `ReadLoop`, and where the loop is. -/
structure ReadLoop where
  message : Option WebsocketMessage
  loc : LoopAt

namespace ReadLoop

/-- The loop at its start. -/
def new : ReadLoop := ⟨some empty, .reading⟩

inductive Action where
  /-- `ReadMessage` returns a text, and the call of pion, if there is one, succeeds or not. -/
  | message (raw : Option Json) (ok : Bool)
  /-- `ReadMessage` fails. -/
  | readError

/-- The state after an action.  After an error the struct is not read again. -/
def effect (p : Pion C D) (s : ReadLoop) : Action → ReadLoop
  | .message raw ok =>
      { message := (unmarshal s.message raw).toOption.getD s.message
        loc := (p.react s.message raw).next ok }
  | .readError => { s with loc := .returned }

/-- What is done with a message is what is seen of an action. -/
def emit (p : Pion C D) (s : ReadLoop) : Action → List (Reaction C D)
  | .message raw _ => [p.react s.message raw]
  | .readError => []

/-- The members of the object that was read, if it was one. -/
def Action.fields : Action → List (String × Json)
  | .message (some (.obj fields)) _ => fields
  | _ => []

end ReadLoop

/-- `ReadLoop` as a transition system. -/
def readLoop (p : Pion C D) : Machine ReadLoop ReadLoop.Action (Reaction C D) where
  init s := s = .new
  guard s _ := s.loc = .reading
  effect s a _ := s.effect p a
  emit s a := s.emit p a

/-! ## What the struct holds -/

section Reach

variable {p : Pion C D} {ok : ReadLoop → ReadLoop.Action → Prop} {as : List ReadLoop.Action}
  {s : ReadLoop} {message : Option WebsocketMessage} {raw : Option Json} {m : WebsocketMessage}

/-- The loop goes on only after a message that has been decoded. -/
theorem unmarshal_of_reading {b : Bool} (h : (p.react message raw).next b = .reading) :
    ∃ m, unmarshal message raw = .ok (some m) := by
  unfold Pion.react at h
  split at h
  · cases h
  · cases h
  · rename_i m hm
    exact ⟨m, hm⟩

/-- The struct holds what the objects read so far say, taken together. -/
theorem message_of_reach (hr : (readLoop p).traced.Reach ok as s) (hs : s.loc = .reading) :
    s.message = some (empty.merge (as.flatMap ReadLoop.Action.fields)) := by
  refine hr.invariant (I := fun as s ↦ s.loc = .reading →
    s.message = some (empty.merge (as.flatMap ReadLoop.Action.fields))) ?_ ?_ hs
  · rintro _ rfl _
    rfl
  · intro as s a g ih _ hs
    cases a with
    | readError => cases hs
    | message raw b =>
        obtain ⟨m, hm⟩ := unmarshal_of_reading hs
        obtain ⟨fields, rfl, hw⟩ := eq_obj_of_unmarshal hm
        change (unmarshal s.message _).toOption.getD s.message = _
        rw [ih g, unmarshal_obj hw, merge_merge]
        change _ = some (empty.merge (List.flatMap _ (as ++ [_])))
        rw [List.flatMap_append, List.flatMap_singleton]
        rfl

/-! ## When it panics -/

/-- Only `null` sets the pointer to `nil`. -/
theorem unmarshal_eq_none_iff : unmarshal message raw = .ok none ↔ raw = some .null := by
  constructor
  · intro h
    unfold unmarshal at h
    split at h
    · cases h
    · rfl
    · rename_i fields
      cases hf : fields.foldlM set (message.getD empty) <;> rw [hf] at h <;> cases h
    · cases h
  · rintro rfl
    rfl

theorem Pion.react_eq_panic_iff : p.react message raw = .panic ↔ raw = some .null := by
  have hnull : unmarshal message raw = .ok none ↔ raw = some .null := unmarshal_eq_none_iff
  rw [← hnull, react]
  cases hu : unmarshal message raw with
  | error e => simp
  | ok message =>
      cases message with
      | none => simp
      | some m =>
          -- the `switch` itself never panics
          have hd : p.dispatch m ≠ .panic := by
            unfold dispatch
            split
            · split <;> simp
            · split
              · split <;> simp
              · simp
          simpa using hd

/-- The loop is at its end by a panic just after a reaction that is one. -/
theorem Reaction.next_eq_panicked_iff {r : Reaction C D} {b : Bool} :
    r.next b = .panicked ↔ r = .panic := by
  cases r <;> cases b <;> simp [next]

/-- **Panic freedom.**  In every run, `ReadLoop` has not dereferenced a `nil` pointer if and only if
no text that it has read was the value `null`. -/
theorem panic_free_iff (hr : (readLoop p).traced.Reach (readLoop p).traced.free as s) :
    s.loc ≠ .panicked ↔ ∀ b, .message (some .null) b ∉ as := by
  refine hr.invariant (I := fun as s ↦ s.loc ≠ .panicked ↔ ∀ b, .message (some .null) b ∉ as) ?_ ?_
  · rintro _ rfl
    simp [ReadLoop.new]
  · intro as s a g ih _
    have hbefore : ∀ b, .message (some .null) b ∉ as := by
      apply ih.1
      rw [show s.loc = .reading from g]
      exact nofun
    cases a with
    | readError =>
        change LoopAt.returned ≠ .panicked ↔ ∀ b, _ ∉ as ++ [_]
        simpa using hbefore
    | message raw ok =>
        change (p.react s.message raw).next ok ≠ .panicked ↔ ∀ b, _ ∉ as ++ [_]
        rw [ne_eq, Reaction.next_eq_panicked_iff, Pion.react_eq_panic_iff]
        simp [hbefore, eq_comm]

/-! ## When it shows -/

namespace Pion

theorem dispatch_candidate {data : Option Json} :
    p.dispatch ⟨messageTypeCandidate, data⟩ =
      ((data.bind p.candidate).map .addICECandidate).getD .terminate := by
  rw [dispatch, if_pos rfl]
  cases data.bind p.candidate <;> rfl

theorem dispatch_answer {data : Option Json} :
    p.dispatch ⟨messageTypeAnswer, data⟩ =
      ((data.bind p.answer).map .setRemoteDescription).getD .terminate := by
  have hne : messageTypeAnswer ≠ messageTypeCandidate := by decide
  rw [dispatch, if_neg hne, if_pos rfl]
  cases data.bind p.answer <;> rfl

/-- Without data that can be decoded the loop ends. -/
theorem dispatch_candidate_eq_terminate_iff {data : Option Json} :
    p.dispatch ⟨messageTypeCandidate, data⟩ = .terminate ↔ data.bind p.candidate = none := by
  rw [dispatch_candidate]
  cases data.bind p.candidate <;> simp

theorem dispatch_answer_eq_terminate_iff {data : Option Json} :
    p.dispatch ⟨messageTypeAnswer, data⟩ = .terminate ↔ data.bind p.answer = none := by
  rw [dispatch_answer]
  cases data.bind p.answer <;> simp

theorem dispatch_ignore (hc : m.event ≠ messageTypeCandidate) (ha : m.event ≠ messageTypeAnswer) :
    p.dispatch m = .ignore := by
  rw [dispatch, if_neg hc, if_neg ha]

theorem dispatch_eq_ignore_iff :
    p.dispatch m = .ignore ↔ m.event ≠ messageTypeCandidate ∧ m.event ≠ messageTypeAnswer := by
  constructor
  · obtain ⟨event, data⟩ := m
    intro h
    constructor
    · rintro rfl
      rw [dispatch_candidate] at h
      cases hb : data.bind p.candidate <;> rw [hb] at h <;> cases h
    · rintro rfl
      rw [dispatch_answer] at h
      cases hb : data.bind p.answer <;> rw [hb] at h <;> cases h
  · rintro ⟨hc, ha⟩
    exact dispatch_ignore hc ha

end Pion

/-- No field of the earlier objects decides what is done with this one. -/
@[mk_iff]
structure Unaffected (p : Pion C D) (before fields : List (String × Json)) : Prop where
  event : event? fields = none →
    event? before ≠ some messageTypeCandidate ∧ event? before ≠ some messageTypeAnswer
  candidate : event? fields = some messageTypeCandidate → data? fields = none →
    (data? before).bind p.candidate = none
  answer : event? fields = some messageTypeAnswer → data? fields = none →
    (data? before).bind p.answer = none

/-- No field of the earlier objects is left in the struct. -/
structure Uncompleted (before fields : List (String × Json)) : Prop where
  event : event? fields = none → (event? before).getD "" = ""
  data : data? fields = none → data? before = none

section Dispatch

variable {before fields : List (String × Json)}

/-- A fresh loop ignores an object without an event. -/
theorem dispatch_iff_of_none {data data' : Option Json} :
    p.dispatch ⟨(event? before).getD "", data⟩ = p.dispatch ⟨"", data'⟩ ↔
      event? before ≠ some messageTypeCandidate ∧ event? before ≠ some messageTypeAnswer := by
  have hignore : p.dispatch ⟨"", data'⟩ = .ignore :=
    Pion.dispatch_ignore (show "" ≠ messageTypeCandidate by decide)
      (show "" ≠ messageTypeAnswer by decide)
  have hgetD : ∀ t, t ≠ "" → ((event? before).getD "" ≠ t ↔ event? before ≠ some t) := by
    intro t ht
    cases event? before with
    | none => simpa using ht.symm
    | some e => simp
  rw [hignore, Pion.dispatch_eq_ignore_iff, hgetD _ (by decide), hgetD _ (by decide)]

/-- Data that are missing are the earlier ones, which a fresh loop does not have. -/
theorem data_iff {E : Type*} {decode : Json → Option E} {f : Option Json → Reaction C D}
    (hf : ∀ data, f data = .terminate ↔ data.bind decode = none) :
    f ((data? fields).or (data? before)) = f (data? fields) ↔
      (data? fields = none → (data? before).bind decode = none) := by
  cases data? fields with
  | some data => simp
  | none =>
      rw [(hf none).2 rfl, Option.none_or, hf]
      exact ⟨fun h _ ↦ h, fun h ↦ h rfl⟩

theorem dispatch_merge_iff :
    p.dispatch ((empty.merge before).merge fields) = p.dispatch (empty.merge fields) ↔
      Unaffected p before fields := by
  have hbefore : (empty.merge before).merge fields =
      ⟨(event? fields).getD ((event? before).getD ""), (data? fields).or (data? before)⟩ := by
    simp [merge, empty]
  have hfresh : empty.merge fields = ⟨(event? fields).getD "", data? fields⟩ := by
    simp [merge, empty]
  have hne : messageTypeAnswer ≠ messageTypeCandidate := by decide
  rw [hbefore, hfresh, unaffected_iff]
  cases event? fields with
  | none =>
      rw [Option.getD_none, Option.getD_none, dispatch_iff_of_none]
      simp
  | some event =>
      rw [Option.getD_some, Option.getD_some]
      by_cases hc : event = messageTypeCandidate
      · subst hc
        refine (data_iff (f := fun data ↦ p.dispatch ⟨messageTypeCandidate, data⟩) fun _ ↦
          Pion.dispatch_candidate_eq_terminate_iff).trans ?_
        simp [hne.symm]
      · by_cases ha : event = messageTypeAnswer
        · subst ha
          refine (data_iff (f := fun data ↦ p.dispatch ⟨messageTypeAnswer, data⟩) fun _ ↦
            Pion.dispatch_answer_eq_terminate_iff).trans ?_
          simp [hne]
        · rw [Pion.dispatch_ignore hc ha, Pion.dispatch_ignore hc ha]
          simp [hc, ha]

end Dispatch

theorem merge_iff {before fields : List (String × Json)} :
    (empty.merge before).merge fields = empty.merge fields ↔ Uncompleted before fields := by
  simp only [merge, empty, WebsocketMessage.mk.injEq, Option.or_none]
  constructor
  · rintro ⟨hevent, hdata⟩
    constructor
    case event =>
      intro h
      rwa [h] at hevent
    case data =>
      intro h
      rwa [h] at hdata
  · rintro ⟨hevent, hdata⟩
    constructor
    · cases h : event? fields with
      | none => exact hevent h
      | some event => rfl
    · cases h : data? fields with
      | none => exact hdata h
      | some data => rfl

theorem Pion.react_obj {fields : List (String × Json)} (h : WellTyped fields) :
    p.react (some m) (some (.obj fields)) = p.dispatch (m.merge fields) := by
  rw [react, unmarshal_obj h]

theorem Pion.react_obj_of_not {fields : List (String × Json)} (h : ¬ WellTyped fields) :
    p.react message (some (.obj fields)) = .terminate := by
  rw [react, unmarshal_obj_of_not h]

/-- **When the loop remembers.**  Wherever in a run `ReadLoop` reads an object, it does with it what
a fresh `ReadLoop` would do, if and only if the object is ill-typed or no earlier field decides; and
it decodes the object into what a fresh one would decode it into, if and only if it is ill-typed or
the earlier objects had nothing for the fields that it lacks. -/
theorem memoryless_iff (hr : (readLoop p).traced.Reach (readLoop p).traced.free as s)
    (hs : s.loc = .reading) (fields : List (String × Json)) :
    (p.react s.message (some (.obj fields)) = p.react ReadLoop.new.message (some (.obj fields)) ↔
        ¬ WellTyped fields ∨ Unaffected p (as.flatMap ReadLoop.Action.fields) fields) ∧
      (unmarshal s.message (some (.obj fields)) =
          unmarshal ReadLoop.new.message (some (.obj fields)) ↔
        ¬ WellTyped fields ∨ Uncompleted (as.flatMap ReadLoop.Action.fields) fields) := by
  rw [message_of_reach hr hs, ReadLoop.new]
  by_cases hw : WellTyped fields
  · constructor
    · rw [Pion.react_obj hw, Pion.react_obj hw, dispatch_merge_iff]
      exact (or_iff_right (not_not_intro hw)).symm
    · rw [unmarshal_obj hw, unmarshal_obj hw, Except.ok.injEq, Option.some.injEq, merge_iff]
      exact (or_iff_right (not_not_intro hw)).symm
  · constructor
    · rw [Pion.react_obj_of_not hw, Pion.react_obj_of_not hw]
      exact iff_of_true rfl (.inl hw)
    · rw [unmarshal_obj_of_not hw, unmarshal_obj_of_not hw]
      exact iff_of_true rfl (.inl hw)

end Reach

section Witness

/-- The last string under the name. -/
def lastString (name : String) : Json → Option String
  | .obj fields => ((Json.members name fields).filterMap Json.str?).getLast?
  | _ => none

/-- Of a candidate its `candidate`, of a session description its `sdp`. -/
def essence : Pion String String where
  candidate := lastString "candidate"
  answer := lastString "sdp"

/-- `{"candidate": "candidate:1 1 udp 2130706431 192.0.2.1 50000 typ host"}`. -/
def hostCandidate : Json :=
  .obj [("candidate", .str "candidate:1 1 udp 2130706431 192.0.2.1 50000 typ host")]

/-- `ReadLoop` reads a message that has this candidate for its data, but no event. -/
def readData : ReadLoop.Action := .message (some (.obj [("data", hostCandidate)])) true

theorem reach_readData : (readLoop essence).traced.Reach (readLoop essence).traced.free
    [readData] (ReadLoop.new.effect essence readData) := by
  have h0 : (readLoop essence).traced.Reach (readLoop essence).traced.free [] .new := .init rfl
  exact h0.step readData trivial rfl

/-- No `null` has been read, so nothing has gone wrong. -/
theorem panic_free_iff_data : (ReadLoop.new.effect essence readData).loc ≠ .panicked :=
  (panic_free_iff reach_readData).2 (by simp [readData])

/-- `ReadLoop` reads the text `null`. -/
def readNull : ReadLoop.Action := .message (some .null) true

/-- A first message `null` makes it panic. -/
theorem nil_message :
    (readLoop essence).traced.Reach (readLoop essence).traced.free [readNull]
        (ReadLoop.new.effect essence readNull) ∧
      (ReadLoop.new.effect essence readNull).message = none ∧
      (ReadLoop.new.effect essence readNull).loc = .panicked := by
  have h0 : (readLoop essence).traced.Reach (readLoop essence).traced.free [] .new := .init rfl
  have h1 := h0.step readNull trivial rfl
  exact ⟨h1, rfl, rfl⟩

/-- `{"event": "answer", "data": {"type": "answer", "sdp": "v=0"}}`. -/
def answerFields : List (String × Json) :=
  [("event", .str "answer"), ("data", .obj [("type", .str "answer"), ("sdp", .str "v=0")])]

/-- A complete answer is handled as by a fresh loop. -/
theorem memoryless_iff_answer :
    essence.react (ReadLoop.new.effect essence readData).message (some (.obj answerFields)) =
      .setRemoteDescription "v=0" := by
  have hevent : event? answerFields = some messageTypeAnswer := by decide +kernel
  have hdata : (data? answerFields).isSome = true := by decide +kernel
  have hun : Unaffected essence ([readData].flatMap ReadLoop.Action.fields) answerFields := by
    constructor
    case event =>
      intro h
      cases hevent.symm.trans h
    case candidate | answer =>
      intro _ h
      rw [h] at hdata
      cases hdata
  exact ((memoryless_iff reach_readData (by decide +kernel) _).1.2 (.inr hun)).trans
    (by decide +kernel)

/-- The candidate of the first message is added when a second one, `{"event": "candidate"}`, has no
data; a fresh loop would end there. -/
theorem stale_candidate :
    (readLoop essence).traced.Reach (readLoop essence).traced.free [readData]
        (ReadLoop.new.effect essence readData) ∧
      (ReadLoop.new.effect essence readData).loc = .reading ∧
      essence.react (ReadLoop.new.effect essence readData).message
          (some (.obj [("event", .str "candidate")])) =
        .addICECandidate "candidate:1 1 udp 2130706431 192.0.2.1 50000 typ host" ∧
      essence.react ReadLoop.new.message (some (.obj [("event", .str "candidate")])) =
        .terminate := by
  exact ⟨reach_readData, by decide +kernel, by decide +kernel, by decide +kernel⟩

end Witness

end ITG.Webrtc
