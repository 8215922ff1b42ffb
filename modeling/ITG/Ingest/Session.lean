import ITG.Ingest.Framing
import ITG.Ingest.Handshake
import ITG.Ingest.RoundTrip

/-!
# A connection as one sequential program

A streamer need not know that its connection is served by two tasks with two channels between them,
nor how its bytes are cut into chunks.  What it sees is a program that takes one command after the
other, does what the command says, and writes the reply before it looks at the next.  `Session` is
this program, written down as a fold over commands; what the outside decides while a command is
handled is its `Outcome`.

`connection_refines_session` says that every run of a connection is one of `Session`: what it has
written is the beginning of the output of the session of all the bytes that it has read, and is all
of it when the connection waits for more bytes.  `streamer_answered` is the same seen from a
streamer that keeps to the protocol.
-/

namespace ITG.Ingest

open ITG.Lib

/-- What the outside decides while a command is handled: what is drawn for a challenge, and the
result of `allocate_port`. -/
structure Outcome where
  draw : Draw
  port : Option UInt16

/-- What becomes of a session by a command. -/
inductive Served where
  /-- It replies and goes on. -/
  | reply (data : List String)
  /-- It replies and handles no more commands. -/
  | last (data : List String)
  /-- It hangs up. -/
  | hangUp
  /-- It never replies. -/
  | silence

/-- The reply. -/
def Served.data : Served → Option (List String)
  | .reply data | .last data => some data
  | .hangUp | .silence => none

/-- The session goes on. -/
def Served.goesOn : Served → Bool
  | .reply _ => true
  | .last _ | .hangUp | .silence => false

/-- What a command does to the state of a session, and what it leads to. -/
def serve (o : Outcome) (s : ConnectionState) : FtlCommand → ConnectionState × Served
  | .hmac =>
      ({ s with hmacPayload := some (generateHmac o.draw) },
        .reply ["200 ", generateHmac o.draw, "\n"])
  | .connect data =>
      match data.get "stream_key", data.get "channel_id" with
      | some key, some _ => ({ s with streamKey := some key }, .reply ["200\n"])
      | _, _ => (s, .silence)
  | .attribute data =>
      match (data.get "key").bind fun key ↦ (data.get "value").bind (s.setAttribute key) with
      | some s' => (s', .reply [""])
      | none => (s, .silence)
  | .ping => (s, .reply ["201\n"])
  | .dot =>
      match s.rtpPort.or o.port with
      | some port => ({ s with rtpPort := some port }, .reply [announcement port])
      | none => (s, .last [allocationFailed])
  | .disconnect => (s, .hangUp)

/-- A session: its state, the replies that it has made, and whether it handles commands. -/
structure Session where
  state : ConnectionState
  replies : List (List String)
  going : Bool

namespace Session

/-- A session at its start. -/
def new : Session := ⟨.new, [], true⟩

/-- A session takes a command. -/
def take (t : Session) (r : FtlCommand × Outcome) : Session :=
  if t.going then
    { state := (serve r.2 t.state r.1).1
      replies := t.replies ++ (serve r.2 t.state r.1).2.data.toList
      going := (serve r.2 t.state r.1).2.goesOn }
  else t

/-- The session of these commands. -/
def run (rs : List (FtlCommand × Outcome)) : Session := rs.foldl take new

/-- What a session writes. -/
def output (t : Session) : List UInt8 := t.replies.flatMap replyBytes

variable {rs : List (FtlCommand × Outcome)}

@[simp] theorem run_nil : run [] = new := rfl

theorem run_concat (r : FtlCommand × Outcome) : run (rs ++ [r]) = (run rs).take r := by
  simp [run, List.foldl_append]

theorem take_of_going {t : Session} (h : t.going = true) (r : FtlCommand × Outcome) : t.take r =
    ⟨(serve r.2 t.state r.1).1, t.replies ++ (serve r.2 t.state r.1).2.data.toList,
      (serve r.2 t.state r.1).2.goesOn⟩ := if_pos h

/-- A session takes nothing of its output back. -/
theorem replies_take_isPrefix (t : Session) (r : FtlCommand × Outcome) :
    t.replies <+: (t.take r).replies := by
  unfold take
  split
  · exact List.prefix_append _ _
  · exact List.prefix_rfl

theorem replies_isPrefix (rs rs' : List (FtlCommand × Outcome)) :
    (run rs).replies <+: (run (rs ++ rs')).replies := by
  induction rs' using List.reverseRecOn with
  | nil =>
      rw [List.append_nil]
  | append_singleton rs' r ih =>
      rw [← List.append_assoc, run_concat]
      exact ih.trans (replies_take_isPrefix _ r)

end Session

/-- What a session replies to a command answers it. -/
theorem answers_of_serve {o : Outcome} {s : ConnectionState} {c : FtlCommand} {data : List String}
    (h : (serve o s c).2 = .reply data) : Answers c data := by
  cases c with
  | hmac =>
      cases h
      exact .hmac o.draw
  | ping =>
      cases h
      exact .ping
  | disconnect => cases h
  | dot =>
      simp only [serve] at h
      split at h
      · cases h
        exact .announced _
      · cases h
  | connect d =>
      simp only [serve] at h
      split at h
      · cases h
        exact .connect d
      · cases h
  | «attribute» d =>
      simp only [serve] at h
      split at h
      · cases h
        exact .attribute d
      · cases h

/-- A session that goes on has answered all its commands. -/
theorem Session.answered_of_going {rs : List (FtlCommand × Outcome)}
    (h : (Session.run rs).going = true) : ∃ rounds : List (FtlCommand × List String),
      rounds.map Prod.fst = rs.map Prod.fst ∧ rounds.map Prod.snd = (Session.run rs).replies ∧
        ∀ r ∈ rounds, Answers r.1 r.2 := by
  induction rs using List.reverseRecOn with
  | nil => exact ⟨[], rfl, rfl, fun r hr ↦ absurd hr List.not_mem_nil⟩
  | append_singleton rs r ih =>
      rw [Session.run_concat] at h ⊢
      cases hg : (Session.run rs).going with
      | false =>
          rw [Session.take, if_neg (by simp [hg]), hg] at h
          cases h
      | true =>
          obtain ⟨rounds, hc, hd, hall⟩ := ih hg
          rw [Session.take_of_going hg] at h ⊢
          obtain ⟨data, hserve⟩ :
              ∃ data, (serve r.2 (Session.run rs).state r.1).2 = .reply data := by
            cases hs : (serve r.2 (Session.run rs).state r.1).2 with
            | reply data => exact ⟨data, rfl⟩
            | last data | hangUp | silence =>
                rw [hs] at h
                cases h
          refine ⟨rounds ++ [(r.1, data)], by simp [hc], by simp [hd, hserve, Served.data], ?_⟩
          intro q hq
          rcases List.mem_append.1 hq with hq | hq
          · exact hall q hq
          · obtain rfl := List.mem_singleton.1 hq
            exact answers_of_serve hserve

/-! ## A command in the middle of being handled -/

/-- What is left of a command at a program point of the command task. -/
def CommandAt.rest (o : Outcome) (s : ConnectionState) : CommandAt → ConnectionState × Served
  | .recv => (s, .silence)
  | .notifyStart _ => (s, .reply ["200\n"])
  | .allocate =>
      ({ s with rtpPort := o.port },
        match o.port with
        | some port => .reply [announcement port]
        | none => .last [allocationFailed])
  | .reply data .failed => (s, .last data)
  | .reply data .loop | .reply data .dot => (s, .reply data)
  | .notifyEnd _ | .freePort _ | .returned => (s, .hangUp)

namespace ConnectionState

variable (s : ConnectionState) (o : Outcome)

theorem rest_release : s.release.rest o s = (s, .hangUp) := by
  unfold release; split <;> rfl

theorem rest_finish : s.finish.rest o s = (s, .hangUp) := by
  unfold finish; split
  · rfl
  · exact s.rest_release o

/-- Up to the first `await`, and then the rest. -/
theorem serve_eq (c : FtlCommand) :
    serve o s c = (s.handle o.draw c).2.rest o (s.handle o.draw c).1 := by
  cases c with
  | hmac | ping => rfl
  | disconnect => exact (s.rest_finish o).symm
  | dot =>
      have hs {port : Option UInt16} (hp : s.rtpPort = port) : { s with rtpPort := port } = s := by
        rw [← hp]
      cases hp : s.rtpPort with
      | some port => simp [serve, handle, hp, announce, CommandAt.rest, hs hp]
      | none => cases ho : o.port <;> simp [serve, handle, hp, ho, CommandAt.rest, hs hp]
  | connect data =>
      simp only [serve, handle]
      cases data.get "stream_key" <;> cases data.get "channel_id" <;> rfl
  | «attribute» data =>
      simp only [serve, handle]
      cases data.get "key" with
      | none => rfl
      | some key =>
          cases data.get "value" with
          | none => rfl
          | some value =>
              simp only [Option.bind_some]
              cases s.setAttribute key value <;> rfl

end ConnectionState

/-! ## The tasks in a session -/

/-- The replies that the command task has sent. -/
def replied (h : List Event) : List (List String) :=
  h.filterMap fun
    | .replied data => some data
    | _ => none

/-- The replies that the frame task has taken. -/
def executed (h : List Event) : List (List String) :=
  h.filterMap fun
    | .executed data => some data
    | _ => none

/-- What is due are the bytes of the replies that were taken. -/
theorem due_eq_executed (h : List Event) : due h = (executed h).flatMap replyBytes := by
  induction h with
  | nil => rfl
  | cons e h ih =>
      rw [due, List.flatMap_cons, ← due, ih]
      cases e <;> rfl

namespace Connection

variable {s t : Connection} {a : Action} {as : List Action} {rs : List (FtlCommand × Outcome)}

/-- The command task has handled the commands of the session. -/
structure Settled (as : List Action) (s : Connection) (rs : List (FtlCommand × Outcome)) :
    Prop where
  handling : s.command.handling = 0
  received : received as = rs.map Prod.fst
  state : s.state = (Session.run rs).state
  replied : replied (events as) = (Session.run rs).replies
  going : s.command = .recv → (Session.run rs).going = true ∨ s.Deadlocked
  finished : (Session.run rs).going = true → s.command = .recv ∨ s.frame = .returned

/-- The command task has handled the commands of the session, and now handles another one. -/
structure Handling (as : List Action) (s : Connection) (rs : List (FtlCommand × Outcome))
    (c : FtlCommand) (o : Outcome) : Prop where
  handling : s.command.handling = 1
  received : received as = rs.map Prod.fst ++ [c]
  replied : ITG.Ingest.replied (events as) = (Session.run rs).replies
  going : (Session.run rs).going = true
  rest : serve o (Session.run rs).state c = s.command.rest o s.state
  /-- The result of `allocate_port` is not known before the call returns. -/
  allocate : s.command = .allocate → ∀ port,
    serve { o with port := port } (Session.run rs).state c =
      s.command.rest { o with port := port } s.state

/-- The command task is where the session is. -/
def InSession (as : List Action) (s : Connection) : Prop :=
  ∃ rs, Settled as s rs ∨ ∃ c o, Handling as s rs c o

theorem InSession.new : InSession [] new := ⟨[], .inl ⟨rfl, rfl, rfl, rfl, fun _ ↦ .inl rfl,
  fun _ ↦ .inl rfl⟩⟩

theorem received_concat (as : List Action) (a : Action) :
    received (as ++ [a]) = received as ++ received [a] := List.filterMap_append

theorem replied_events_concat (as : List Action) (a : Action) :
    replied (events (as ++ [a])) = replied (events as) ++ replied (emit a) := by
  simp [replied, events, List.filterMap_append]

/-- A step that leaves the command task where it is. -/
theorem InSession.of_frame (hs : InSession as s) (g : s.guard a) (hr : ITG.Ingest.received [a] = [])
    (hp : ITG.Ingest.replied (emit a) = []) (hc : t.command = s.command) (hst : t.state = s.state)
    (hf : s.frame = .returned → t.frame = .returned) : InSession (as ++ [a]) t := by
  have hrec : ITG.Ingest.received (as ++ [a]) = ITG.Ingest.received as := by
    rw [received_concat, hr, List.append_nil]
  have hrep : ITG.Ingest.replied (events (as ++ [a])) = ITG.Ingest.replied (events as) := by
    rw [replied_events_concat, hp, List.append_nil]
  obtain ⟨rs, hs | ⟨c, o, hs⟩⟩ := hs
  · refine ⟨rs, .inl ⟨hc ▸ hs.handling, hrec.trans hs.received, hst.trans hs.state,
      hrep.trans hs.replied, fun h ↦ .inl ?_, fun h ↦ ?_⟩⟩
    · exact (hs.going (hc ▸ h)).resolve_right fun hd ↦ hd.not_guard g
    · rw [hc]
      exact (hs.finished h).imp_right hf
  · refine ⟨rs, .inr ⟨c, o, hc ▸ hs.handling, hrec.trans hs.received, hrep.trans hs.replied,
      hs.going, ?_, ?_⟩⟩
    · rw [hc, hst]
      exact hs.rest
    · rw [hc, hst]
      exact hs.allocate

/-- A step of a task on its way out. -/
theorem Settled.of_leaving (hs : Settled as s rs) (hr : ITG.Ingest.received [a] = [])
    (hp : ITG.Ingest.replied (emit a) = []) (hh : t.command.handling = 0) (hne : t.command ≠ .recv)
    (hst : t.state = s.state) (hf : (Session.run rs).going = true → t.frame = .returned) :
    Settled (as ++ [a]) t rs where
  handling := hh
  received := by rw [received_concat, hr, List.append_nil, hs.received]
  state := hst.trans hs.state
  replied := by rw [replied_events_concat, hp, List.append_nil, hs.replied]
  going h := absurd h hne
  finished h := .inr (hf h)

/-- A command is taken up. -/
theorem Settled.recvCommand (hs : Settled as s rs) (hl : Lockstep s) {c : FtlCommand}
    {draw : Draw} (g : s.guard (.recvCommand c draw)) :
    InSession (as ++ [.recvCommand c draw]) (s.effect (.recvCommand c draw) g) := by
  have hgoing : (Session.run rs).going = true :=
    (hs.going g.1).resolve_right fun hd ↦ hd.not_guard g
  have hrec : ITG.Ingest.received (as ++ [.recvCommand c draw]) = rs.map Prod.fst ++ [c] := by
    rw [received_concat, hs.received]
    rfl
  have hrep : ITG.Ingest.replied (events (as ++ [.recvCommand c draw])) =
      (Session.run rs).replies := by
    rw [replied_events_concat, hs.replied]
    exact List.append_nil _
  have hserve (port : Option UInt16) : serve ⟨draw, port⟩ (Session.run rs).state c =
      (s.state.handle draw c).2.rest ⟨draw, port⟩ (s.state.handle draw c).1 := by
    rw [← hs.state]
    exact s.state.serve_eq ⟨draw, port⟩ c
  -- a command without a reply is done at once
  have hsettled (st : ConnectionState) (served : Served) (hd : served.data = none)
      (hgo : served.goesOn = false)
      (he : serve ⟨draw, none⟩ (Session.run rs).state c = (st, served))
      (hst : (s.state.handle draw c).1 = st) (hh : (s.state.handle draw c).2.handling = 0)
      (hdead : (s.state.handle draw c).2 = .recv → (s.effect (.recvCommand c draw) g).Deadlocked) :
      InSession (as ++ [.recvCommand c draw]) (s.effect (.recvCommand c draw) g) := by
    have hrun : Session.run (rs ++ [(c, ⟨draw, none⟩)]) =
        ⟨st, (Session.run rs).replies, false⟩ := by
      rw [Session.run_concat, Session.take_of_going hgoing, he]
      simp [hd, hgo]
    refine ⟨rs ++ [(c, ⟨draw, none⟩)], .inl ⟨hh, ?_, ?_, ?_, fun h ↦ .inr (hdead h), fun h ↦ ?_⟩⟩
    · rw [hrec, List.map_append]
      rfl
    · rw [hrun]
      exact hst
    · rw [hrun]
      exact hrep
    · rw [hrun] at h
      cases h
  have hcomplete : c.Complete := hl.queued c (List.mem_of_mem_head? g.2)
  rcases s.state.handle_cases draw hcomplete with ⟨-, he⟩ | ⟨hbad, he⟩ | ⟨-, -, hh⟩
  · refine hsettled s.state .hangUp rfl rfl ?_ (by rw [he]) ?_ fun h ↦ ?_
    · rw [hserve, he]
      exact s.state.rest_finish _
    · rw [he]
      exact s.state.handling_finish
    · rw [he] at h
      exact absurd h s.state.finish_ne_recv
  · refine hsettled s.state .silence rfl rfl ?_ (by rw [he]) ?_ fun _ ↦ ?_
    · rw [hserve, he]
      rfl
    · rw [he]
      rfl
    · exact hl.deadlocked_of_badFlag g hbad
  · exact ⟨rs, .inr ⟨c, ⟨draw, none⟩, hh, hrec, hrep, hgoing, hserve none, fun _ ↦ hserve⟩⟩

/-- A call that the command task waited for returns. -/
theorem Handling.of_awaiting {c : FtlCommand} {o o' : Outcome} (hs : Handling as s rs c o)
    (hr : ITG.Ingest.received [a] = []) (hp : ITG.Ingest.replied (emit a) = [])
    (hh : t.command.handling = 1)
    (hrest : serve o' (Session.run rs).state c = t.command.rest o' t.state)
    (hall : t.command ≠ .allocate) : Handling (as ++ [a]) t rs c o' where
  handling := hh
  received := by rw [received_concat, hr, List.append_nil, hs.received]
  replied := by rw [replied_events_concat, hp, List.append_nil, hs.replied]
  going := hs.going
  rest := hrest
  allocate h := absurd h hall

/-- The reply is sent. -/
theorem Handling.reply {c : FtlCommand} {o : Outcome} (hs : Handling as s rs c o)
    {data : List String} {after : AfterReply} (g : s.guard (.reply data after)) :
    Settled (as ++ [.reply data after]) (s.effect (.reply data after) g) (rs ++ [(c, o)]) := by
  have hrest := hs.rest
  rw [g.1] at hrest
  have hrun : Session.run (rs ++ [(c, o)]) =
      ⟨s.state, (Session.run rs).replies ++ [data], decide (after ≠ .failed)⟩ := by
    rw [Session.run_concat, Session.take_of_going hs.going, hrest]
    cases after <;> rfl
  constructor
  case handling => cases after <;> rfl
  case received =>
    rw [received_concat, hs.received, List.map_append]
    exact List.append_nil _
  case state => rw [hrun]; rfl
  case replied =>
    rw [replied_events_concat, hs.replied, hrun]
    rfl
  case going =>
    intro h
    rw [hrun]
    cases after <;> first | exact .inl rfl | cases h
  case finished =>
    intro h
    rw [hrun] at h
    cases after <;> first | exact .inl rfl | cases h

theorem InSession.settled (hs : InSession as s) (hh : s.command.handling = 0) :
    ∃ rs, Settled as s rs := by
  obtain ⟨rs, hs | ⟨c, o, hs⟩⟩ := hs
  · exact ⟨rs, hs⟩
  · cases hh.symm.trans hs.handling

theorem InSession.midway (hs : InSession as s) (hh : s.command.handling = 1) :
    ∃ rs c o, Handling as s rs c o := by
  obtain ⟨rs, hs | ⟨c, o, hs⟩⟩ := hs
  · cases hs.handling.symm.trans hh
  · exact ⟨rs, c, o, hs⟩

/-- The step lemma. -/
theorem InSession.step (hs : InSession as s) (hl : Lockstep s) (g : s.guard a) :
    InSession (as ++ [a]) (s.effect a g) := by
  cases a with
  | decode | read chunk | eof | readError | sendCommand c | sendCommandError c | recvReply data
    | recvReplyNone | writeError item items n =>
      exact hs.of_frame g rfl rfl rfl rfl fun hf ↦ by cases hf.symm.trans g.1
  | write item items | writeEnd =>
      exact hs.of_frame g rfl rfl rfl rfl fun hf ↦ by cases hf.symm.trans g
  | recvCommand c draw =>
      obtain ⟨rs, hs⟩ := hs.settled (by rw [g.1]; rfl)
      exact hs.recvCommand hl g
  | recvCommandNone =>
      obtain ⟨rs, hs⟩ := hs.settled (by rw [g.1]; rfl)
      exact ⟨rs, .inl (hs.of_leaving rfl rfl s.state.handling_finish s.state.finish_ne_recv rfl
        fun _ ↦ g.2.2)⟩
  | notifyStart key ok =>
      have hc : s.command = .notifyStart key := g
      obtain ⟨rs, c, o, hs⟩ := hs.midway (by rw [hc]; rfl)
      have hrest := hs.rest
      rw [hc] at hrest
      refine ⟨rs, .inr ⟨c, o, hs.of_awaiting (a := .notifyStart key ok) rfl rfl rfl hrest nofun⟩⟩
  | allocate r =>
      have hc : s.command = .allocate := g
      obtain ⟨rs, c, o, hs⟩ := hs.midway (by rw [hc]; rfl)
      have hrest := hs.allocate hc r
      rw [hc] at hrest
      refine ⟨rs, .inr ⟨c, { o with port := r }, hs.of_awaiting (a := .allocate r) rfl rfl
        (handling_afterAllocate r) ?_ fun h ↦ ?_⟩⟩
      · rw [hrest]
        cases r <;> rfl
      · have hne : afterAllocate r ≠ .allocate := by cases r <;> exact nofun
        exact absurd h hne
  | reply data after =>
      obtain ⟨rs, c, o, hs⟩ := hs.midway (by rw [g.1]; rfl)
      exact ⟨rs ++ [(c, o)], .inl (hs.reply g)⟩
  | replyError data after =>
      have hf := hl.frame_of_handling (by rw [g.1]; rfl)
      rw [g.2] at hf
      cases hf
  | notifyEnd key ok =>
      have hc : s.command = .notifyEnd key := g
      obtain ⟨rs, hs⟩ := hs.settled (by rw [hc]; rfl)
      refine ⟨rs, .inl (hs.of_leaving rfl rfl s.state.handling_release s.state.release_ne_recv rfl
        fun h ↦ ?_)⟩
      exact (hs.finished h).resolve_left (by rw [hc]; exact nofun)
  | freePort port =>
      have hc : s.command = .freePort port := g
      obtain ⟨rs, hs⟩ := hs.settled (by rw [hc]; rfl)
      refine ⟨rs, .inl (hs.of_leaving rfl rfl rfl nofun rfl fun h ↦ ?_)⟩
      exact (hs.finished h).resolve_left (by rw [hc]; exact nofun)

end Connection

/-- The run lemma. -/
theorem inSession_of_reach {ok : Connection → Action → Prop} {as : List Action} {s : Connection}
    (hr : connection.traced.Reach ok as s) : s.InSession as := by
  refine hr.invariant_of (J := fun _ s ↦ s.Lockstep) (I := fun as s ↦ s.InSession as) ?_ ?_ ?_
  · exact fun _ _ hr ↦ lockstep_of_reach (hr.of_traced fun _ _ ↦ rfl)
  · rintro _ rfl
    exact .new
  · exact fun as s a g hl _ hs _ ↦ hs.step hl g

/-! ## Bytes in, bytes out -/

/-- The command of a result. -/
def Decoded.command? : Decoded → Option FtlCommand
  | .command c => some c
  | .pending | .error _ | .panic => none

namespace FtlCodec

theorem commands_eq (buf : List UInt8) :
    commands buf = (decoder.drain buf).results.filterMap Decoded.command? := by
  refine decoder.drain_induction
    (P := fun buf o ↦ commands buf = o.results.filterMap Decoded.command?) ?_ ?_ ?_ buf
  · intro buf h
    by_cases hp : (decode buf).1 = .pending
    · exact commands_eq_nil (by simp [hp])
    · cases h.symm.trans (decoder_next_of_ne hp)
  · intro buf r rest h he
    by_cases hp : (decode buf).1 = .pending
    · cases (decoder_next_of_pending hp).symm.trans h
    · have hd : decode buf = (r, rest) := Option.some.inj ((decoder_next_of_ne hp).symm.trans h)
      cases r with
      | pending | command c => cases he
      | error e | panic =>
          exact commands_eq_nil (by simp [hd])
  · intro buf r rest h he ih
    by_cases hp : (decode buf).1 = .pending
    · cases (decoder_next_of_pending hp).symm.trans h
    · have hd : decode buf = (r, rest) := Option.some.inj ((decoder_next_of_ne hp).symm.trans h)
      cases r with
      | pending => exact absurd (congrArg Prod.fst hd) hp
      | error e | panic => exact absurd rfl he
      | command c =>
          rw [commands_of_command hd, ih]
          rfl

theorem filterMap_command (cs : List FtlCommand) :
    (cs.map Decoded.command).filterMap Decoded.command? = cs := by
  simp [List.filterMap_map, Function.comp_def, Decoded.command?]

end FtlCodec

namespace Connection

/-- The frame task waits for more bytes. -/
def Waiting (s : Connection) : Prop := s.frame = .next ∧ (FtlCodec.decode s.buffer).1 = .pending

instance (s : Connection) : Decidable s.Waiting := inferInstanceAs (Decidable (_ ∧ _))

variable {s : Connection} {a : Action} {as : List Action}

/-- Commands are handed over in the order in which they are read. -/
theorem Framed.sent_isPrefix (hf : Framed as s) :
    ITG.Ingest.sent as <+: FtlCodec.commands (bytesRead as) := by
  have hpre := hf.sent.filterMap Decoded.command?
  rwa [FtlCodec.filterMap_command, ← FtlCodec.commands_eq] at hpre

/-- A frame task that waits for more bytes has handed over all commands that it has read. -/
theorem Framed.sent_of_waiting (hf : Framed as s) (hw : s.Waiting) :
    ITG.Ingest.sent as = FtlCodec.commands (bytesRead as) := by
  have hd := hf.drained (by rw [hw.1]; exact nofun)
  rw [Decoder.drain_of_none (FtlCodec.decoder_next_of_pending hw.2), hw.1, FrameAt.decoded,
    List.append_nil] at hd
  rw [FtlCodec.commands_eq, hd, Decoder.Outcome.after, List.append_nil, FtlCodec.filterMap_command]

/-- Replies are taken in the order in which they are sent. -/
def RepliesQueued (as : List Action) (s : Connection) : Prop :=
  replied (events as) = executed (events as) ++ s.replies.buf

theorem RepliesQueued.step (hq : RepliesQueued as s) (g : s.guard a) :
    RepliesQueued (as ++ [a]) (s.effect a g) := by
  have hp : replied (events (as ++ [a])) = replied (events as) ++ replied (emit a) :=
    replied_events_concat as a
  have he : executed (events (as ++ [a])) = executed (events as) ++ executed (emit a) := by
    simp [executed, events, List.filterMap_append]
  unfold RepliesQueued at hq ⊢
  rw [hp, he, hq, List.append_assoc, List.append_assoc]
  congr 1
  cases a with
  | reply data after => rfl
  | recvReply data =>
      have hb := Chan.buf_eq_cons g.2
      change s.replies.buf ++ [] = data :: s.replies.pop.buf
      rw [List.append_nil, ← hb]
  | decode | read chunk | eof | readError | sendCommand c | sendCommandError c | recvReplyNone
    | write item items | writeError item items n | writeEnd | recvCommand c draw | recvCommandNone
    | notifyStart key ok | allocate r | replyError data after | notifyEnd key ok | freePort port =>
      exact List.append_nil _

theorem repliesQueued_of_reach {ok : Connection → Action → Prop}
    (hr : connection.traced.Reach ok as s) : RepliesQueued as s := by
  refine hr.invariant (I := RepliesQueued) ?_ ?_
  · rintro _ rfl
    rfl
  · exact fun as s a g hq _ ↦ hq.step g

/-- A connection that waits for more bytes has nothing on its way. -/
theorem Lockstep.quiet_of_waiting (hl : Lockstep s) (hw : s.Waiting) :
    s.commands.buf = [] ∧ s.replies.buf = [] ∧ s.command.handling = 0 := by
  have h0 := hl.inFlight_eq_zero (by rw [hw.1]; exact nofun)
  simp only [inFlight] at h0
  exact ⟨List.eq_nil_of_length_eq_zero (by omega), List.eq_nil_of_length_eq_zero (by omega),
    by omega⟩

end Connection

variable {as : List Action} {s : Connection}

/-- A connection that waits for more bytes has done what the session does. -/
theorem session_of_waiting {ok : Connection → Action → Prop} (hr : connection.traced.Reach ok as s)
    (hw : s.Waiting) : ∃ rs : List (FtlCommand × Outcome),
      rs.map Prod.fst = FtlCodec.commands (bytesRead as) ∧
      replied (events as) = (Session.run rs).replies ∧
      written (events as) = (Session.run rs).output ∧ s.state = (Session.run rs).state ∧
      ((Session.run rs).going = true ↔ s.command = .recv) := by
  have hl : s.Lockstep := lockstep_of_reach (hr.of_traced fun _ _ ↦ rfl)
  have hd := delivered_of_reach hr
  have hq : replied (events as) = executed (events as) ++ s.replies.buf :=
    Connection.repliesQueued_of_reach hr
  obtain ⟨hc, hb, hh⟩ := hl.quiet_of_waiting hw
  obtain ⟨rs, hs⟩ := (inSession_of_reach hr).settled hh
  refine ⟨rs, ?_, hs.replied, ?_, hs.state, fun h ↦ (hs.finished h).resolve_right ?_,
    fun h ↦ (hs.going h).resolve_right ?_⟩
  · rw [← hs.received, ← (framed_of_reach hr).sent_of_waiting hw, hd.fifo, hc, List.append_nil]
  · have hexact := hd.exact (.inl (by rw [hw.1]; exact nofun))
    rw [hw.1, FrameAt.unsent, List.append_nil] at hexact
    rw [hb, List.append_nil, hs.replied] at hq
    rw [← hexact, due_eq_executed, ← hq, Session.output]
  · rw [hw.1]
    exact nofun
  · rintro ⟨hfr, -⟩
    cases hw.1.symm.trans hfr

/-- **A connection is a session.**  In every run of the two tasks, however the bytes arrive, what
has been written is the beginning of what a session writes that handles the commands of the bytes
one by one.  When the connection waits for more bytes, all of it has been written, and the state is
the one of the session; it handles further commands exactly if the session does. -/
theorem connection_refines_session (hr : connection.traced.Reach connection.traced.free as s) :
    ∃ rs : List (FtlCommand × Outcome), rs.map Prod.fst = FtlCodec.commands (bytesRead as) ∧
      written (events as) <+: (Session.run rs).output ∧
      (s.Waiting → written (events as) = (Session.run rs).output ∧
        s.state = (Session.run rs).state ∧
        ((Session.run rs).going = true ↔ s.command = .recv)) := by
  by_cases hw : s.Waiting
  · obtain ⟨rs, hrs, -, hout, hrest⟩ := session_of_waiting hr hw
    exact ⟨rs, hrs, hout ▸ List.prefix_rfl, fun _ ↦ ⟨hout, hrest⟩⟩
  have hd := delivered_of_reach hr
  have hq : replied (events as) = executed (events as) ++ s.replies.buf :=
    Connection.repliesQueued_of_reach hr
  -- the commands that have been received, and an outcome for each
  obtain ⟨rs, hrec, hrep⟩ : ∃ rs : List (FtlCommand × Outcome), received as = rs.map Prod.fst ∧
      replied (events as) <+: (Session.run rs).replies := by
    obtain ⟨rs, hs | ⟨c, o, hs⟩⟩ := inSession_of_reach hr
    · exact ⟨rs, hs.received, hs.replied ▸ List.prefix_rfl⟩
    · refine ⟨rs ++ [(c, o)], by simp [hs.received], ?_⟩
      rw [hs.replied]
      exact Session.replies_isPrefix rs [(c, o)]
  have hpre : received as <+: FtlCodec.commands (bytesRead as) := by
    refine List.IsPrefix.trans ?_ (framed_of_reach hr).sent_isPrefix
    rw [hd.fifo]
    exact List.prefix_append _ _
  -- the outcomes of the other commands do not matter
  obtain ⟨cs, hcs⟩ := hpre
  refine ⟨rs ++ cs.map fun c ↦ (c, ⟨zeroDraw, none⟩), ?_, ?_, fun h ↦ absurd h hw⟩
  · rw [List.map_append, ← hrec, ← hcs, List.map_map]
    simp [Function.comp_def]
  · obtain ⟨rest, hrest⟩ := (hq ▸ hrep).trans (Session.replies_isPrefix rs _)
    refine hd.written_prefix.trans ?_
    rw [due_eq_executed, Session.output, ← hrest, List.append_assoc, List.flatMap_append]
    exact List.prefix_append _ _

/-- The command that a streamer connects with. -/
def helloCommand : FtlCommand := .connect [("stream_key", "key"), ("channel_id", "1")]

/-- A streamer connects and asks for its port. -/
def hello : List Action :=
  connectSteps true ++ dotSteps 5004 ++
    [.recvReply [announcement 5004], .write (announcement 5004) [], .writeEnd]

/-- When the port has been announced, the connection has done what the session does. -/
theorem connection_refines_session_hello :
    ∃ s, connection.traced.Reach connection.traced.free hello s ∧ s.Waiting ∧
      ∃ rs, rs.map Prod.fst = [helloCommand, .dot] ∧
        written (events hello) = (Session.run rs).output ∧ s.state = (Session.run rs).state := by
  obtain ⟨s, hr, hw⟩ := connection.exists_of_schedule connection.traced.free
    (fun s ↦ s.Waiting) rfl hello (by decide +kernel)
  obtain ⟨rs, hrs, -, hall⟩ := connection_refines_session hr
  have hd := delivered_of_reach hr
  obtain ⟨hc, -, -⟩ := (lockstep_of_reach (hr.of_traced fun _ _ ↦ rfl)).quiet_of_waiting hw
  have hsent := hd.fifo
  rw [hc, List.append_nil, (framed_of_reach hr).sent_of_waiting hw] at hsent
  exact ⟨s, hr, hw, rs, hrs.trans hsent, (hall hw).1, (hall hw).2.1⟩

namespace ClientMessage

/-- Clean messages are read as the commands that they stand for. -/
theorem commands_flatMap_bytes {ms : List ClientMessage} (hms : ∀ m ∈ ms, m.Clean) :
    FtlCodec.commands (ms.flatMap bytes) = ms.map command := by
  induction ms with
  | nil =>
      have hnone : (FtlCodec.decode []).1 = .pending := rfl
      exact FtlCodec.commands_eq_nil (by simp [hnone])
  | cons m ms ih =>
      obtain ⟨hm, hms⟩ := List.forall_mem_cons.1 hms
      have hd := decode_bytes m (ms.flatMap bytes)
      rw [(classify_line_iff m).2 hm] at hd
      rw [List.flatMap_cons, List.map_cons, FtlCodec.commands_of_command hd, ih hms]

end ClientMessage

/-- **A streamer is answered.**  When a streamer has sent clean messages, in whatever pieces, and
the connection waits for more while its command task does so too, then the state is the one of a
session that has handled these messages in order, and the lines that were written are one for each
message that is no attribute, each an answer to its message. -/
theorem streamer_answered (hr : connection.traced.Reach connection.traced.free as s)
    {ms : List ClientMessage} (hms : ∀ m ∈ ms, m.Clean)
    (hread : bytesRead as = ms.flatMap ClientMessage.bytes) (hw : s.Waiting)
    (hrecv : s.command = .recv) :
    ∃ (rs : List (FtlCommand × Outcome)) (rounds : List (FtlCommand × List String)),
      rs.map Prod.fst = ms.map ClientMessage.command ∧ s.state = (Session.run rs).state ∧
      rounds.map Prod.fst = ms.map ClientMessage.command ∧
      rounds.map Prod.snd = (Session.run rs).replies ∧ (∀ r ∈ rounds, Answers r.1 r.2) ∧
      written (events as) = rounds.flatMap (fun r ↦ replyBytes r.2) ∧
      lines 10 [] (written (events as)) =
        (rounds.filter fun r ↦ !r.1.isAttribute).map fun r ↦ (replyBytes r.2).dropLast := by
  obtain ⟨rs, hrs, -, hout, hstate, hgoing⟩ := session_of_waiting hr hw
  rw [hread, ClientMessage.commands_flatMap_bytes hms] at hrs
  obtain ⟨rounds, hc, hd, hall⟩ := Session.answered_of_going (hgoing.2 hrecv)
  have hwritten : written (events as) = rounds.flatMap fun r ↦ replyBytes r.2 := by
    rw [hout, Session.output, ← hd, List.flatMap_map]
  exact ⟨rs, rounds, hrs, hstate, hc.trans hrs, hd, hall, hwritten,
    hwritten ▸ lines_replies hall⟩

/-- The messages of this streamer. -/
def helloMessages : List ClientMessage :=
  [.connect ⟨['1'], by simp, List.forall_mem_singleton.2 rfl⟩
    ⟨['k', 'e', 'y'], by simp,
      List.forall_mem_cons.2 ⟨rfl, List.forall_mem_cons.2 ⟨rfl, List.forall_mem_singleton.2 rfl⟩⟩⟩,
    .dot]

/-- The second line that it reads is the answer to its dot. -/
theorem streamer_answered_hello :
    ∃ s, connection.traced.Reach connection.traced.free hello s ∧
      bytesRead hello = helloMessages.flatMap ClientMessage.bytes ∧
      ∃ data, Answers .dot data ∧
        (lines 10 [] (written (events hello)))[1]? = some (replyBytes data).dropLast := by
  obtain ⟨s, hr, hw, hrecv⟩ := connection.exists_of_schedule connection.traced.free
    (fun s ↦ s.Waiting ∧ s.command = .recv) rfl hello (by decide +kernel)
  have hclean : ∀ m ∈ helloMessages, m.Clean := by
    refine List.forall_mem_cons.2 ⟨?_, List.forall_mem_cons.2 ⟨trivial, nofun⟩⟩
    change ∀ text ∈ [['1'], ['k', 'e', 'y']], _
    decide +kernel
  have hread : bytesRead hello = helloMessages.flatMap ClientMessage.bytes := by decide +kernel
  obtain ⟨rs, rounds, -, -, hc, -, hall, -, hlines⟩ := streamer_answered hr hclean hread hw hrecv
  obtain ⟨⟨c, data⟩, rest, rfl, rfl, hrest⟩ := List.map_eq_cons_iff.1 hc
  obtain ⟨⟨c', data'⟩, rest', rfl, hc', hnil⟩ := List.map_eq_cons_iff.1 hrest
  obtain rfl : c' = .dot := hc'
  refine ⟨s, hr, hread, data', hall _ (List.mem_cons_of_mem _ List.mem_cons_self), ?_⟩
  rw [hlines]
  rfl

end ITG.Ingest
