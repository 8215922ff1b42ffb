import ITG.Ingest.Notifications
import ITG.Ingest.Ports

/-!
# The handshake

A streamer is meant to send `Connect` with its stream key, have the key verified by the auth
service, and then send the dot that is answered with a port.  The command task does not insist on
this order: the outcome of `notify_stream_start` is logged and forgotten, and a dot asks for a port
whatever came before it (`refused_port`).

So whether a port is only handed out to an accepted streamer is up to the streamer.
`handshake_iff` says so: it holds of a run exactly if every dot that is received comes after a
`Connect` that was accepted.
-/

namespace ITG.Ingest

open ITG.Lib

/-- A `Connect` has been accepted: its `notify_stream_start` returned `Ok`. -/
def Event.Accepted (e : Event) : Prop := ∃ key, e = .notifiedStart key true

/-- `allocate_port` has been called, or a port is announced. -/
def Event.UsesPort (e : Event) : Prop :=
  (∃ r, e = .allocated r) ∨ ∃ p, e = .replied [announcement p]

/-- A notification is made for a `Connect` with that key. -/
theorem connect_of_notifiedStart {ok : Connection → Action → Prop} {h : List Event}
    {s : Connection} (hr : connection.Reach ok h s) (key : String) (r : Bool) :
    PrecededBy (fun e ↦ e.connect? = some key) (· = .notifiedStart key r) h := by
  refine hr.invariant_of
    (I := fun h _ ↦ PrecededBy (fun e ↦ e.connect? = some key) (· = .notifiedStart key r) h)
    (fun _ _ hr ↦ notifyInv_of_reach hr) (fun _ _ ↦ .nil) ?_
  rintro h s a g hi - ih -
  apply ih.append
  rintro _ he rfl
  cases a <;> simp [connection, Connection.emit] at he
  case notifyStart k b =>
    obtain ⟨rfl, rfl⟩ := he
    have hc : s.command = .notifyStart key := g
    have hmem : key ∈ connects h := by
      rw [hi.started, hc]
      exact List.mem_append_right _ List.mem_cons_self
    exact List.mem_filterMap.1 hmem

/-- Only a dot asks for a port. -/
theorem ConnectionState.handle_eq_allocate {s : ConnectionState} {draw : Draw}
    {c : FtlCommand} (h : (s.handle draw c).2 = .allocate) : c = .dot := by
  cases c with
  | dot => rfl
  | hmac | ping => cases h
  | disconnect =>
      have hh := s.handling_finish
      rw [show s.finish = .allocate from h] at hh
      cases hh
  | connect data =>
      simp only [handle] at h
      split at h <;> cases h
  | «attribute» data =>
      simp only [handle] at h
      repeat' split at h
      all_goals cases h

namespace Connection

variable {s : Connection} {a : Action} {h : List Event}

/-- A port is only handed out to an accepted streamer. -/
def Authorised (h : List Event) (s : Connection) : Prop :=
  PrecededBy Event.Accepted Event.UsesPort h ∧ (s.command = .allocate → ∃ e ∈ h, e.Accepted)

/-- Ports are only asked for, and used, after a dot. -/
structure Asked (h : List Event) (s : Connection) : Prop where
  allocate : s.command = .allocate → .received .dot ∈ h
  uses : PrecededBy (· = .received .dot) Event.UsesPort h

theorem Asked.new : Asked [] new where
  allocate := nofun
  uses := .nil

/-- A connection that has a port has received a dot. -/
theorem Asked.dot_of_port (hs : Asked h s) (hp : PortInv h s) (hport : s.state.rtpPort ≠ none) :
    .received .dot ∈ h := by
  obtain ⟨p, hport⟩ := Option.ne_none_iff_exists'.1 hport
  obtain ⟨_, hd, rfl⟩ := hs.uses.exists_of_mem ((hp.allocated p).2 hport) (.inl ⟨_, rfl⟩)
  exact hd

/-- Whoever calls `allocate_port` or announces a port has received a dot. -/
theorem Asked.dot_of_usesPort (hs : Asked h s) (hp : PortInv h s) (g : s.guard a) {e : Event}
    (he : e ∈ emit a) (hu : e.UsesPort) : .received .dot ∈ h := by
  cases a <;> simp only [emit, List.mem_singleton, List.not_mem_nil] at he
  case allocate r => exact hs.allocate g
  case reply data after =>
    subst he
    obtain ⟨p, hu⟩ : ∃ p, Event.replied data = .replied [announcement p] :=
      hu.resolve_left (by simp)
    obtain rfl : data = [announcement p] := Event.replied.inj hu
    have hpoint := hp.point
    rw [g.1] at hpoint
    cases after with
    | loop => exact absurd rfl (hpoint p)
    | failed => exact absurd rfl (hpoint.2 p)
    | dot =>
        obtain ⟨q, hq, -⟩ := hpoint
        exact hs.dot_of_port hp (by rw [hq]; simp)
  all_goals
    subst he
    rcases hu with ⟨_, hu⟩ | ⟨_, hu⟩ <;> cases hu

/-- A call of `allocate_port` begins with a dot. -/
theorem command_eq_allocate_step (g : s.guard a) (hc : (s.effect a g).command = .allocate) :
    s.command = .allocate ∨ ∃ draw, a = .recvCommand .dot draw := by
  cases a with
  | recvCommand c draw =>
      obtain rfl := ConnectionState.handle_eq_allocate hc
      exact .inr ⟨draw, rfl⟩
  | recvCommandNone =>
      have hh := s.state.handling_finish
      rw [show s.state.finish = .allocate from hc] at hh
      cases hh
  | notifyStart key ok => cases hc
  | allocate r => exact .inl g
  | reply data after | replyError data after => cases after <;> cases hc
  | notifyEnd key ok =>
      have hh := s.state.handling_release
      rw [show s.state.release = .allocate from hc] at hh
      cases hh
  | freePort port => cases hc
  | decode | read chunk | eof | readError | sendCommand c | sendCommandError c
    | recvReply data | recvReplyNone | write item items | writeError item items n | writeEnd =>
      exact .inl hc

/-- The step lemma for dots. -/
theorem Asked.step (hs : Asked h s) (hp : PortInv h s) (g : s.guard a) :
    Asked (h ++ emit a) (s.effect a g) where
  allocate hc := by
    rcases command_eq_allocate_step g hc with hc | ⟨draw, rfl⟩
    · exact List.mem_append_left _ (hs.allocate hc)
    · exact List.mem_append_right _ List.mem_cons_self
  uses := hs.uses.append fun _ he hu ↦ ⟨_, hs.dot_of_usesPort hp g he hu, rfl⟩

/-- A dot that no acceptance precedes has led to an unauthorised call of `allocate_port`. -/
def Unauthorised (h : List Event) (s : Connection) : Prop :=
  (s.command = .allocate ∧ ∀ e ∈ h, ¬ e.Accepted) ∨ ¬ PrecededBy Event.Accepted Event.UsesPort h

theorem Unauthorised.not_authorised (hu : Unauthorised h s) : ¬ Authorised h s := by
  rintro ⟨hp, hc⟩
  rcases hu with ⟨ha, hn⟩ | hn
  · obtain ⟨e, he, hacc⟩ := hc ha
    exact hn e he hacc
  · exact hn hp

theorem Unauthorised.step (hu : Unauthorised h s) (g : s.guard a) :
    Unauthorised (h ++ emit a) (s.effect a g) := by
  rcases hu with ⟨hc, hn⟩ | hn
  · cases a with
    | allocate r =>
        refine .inr fun hp ↦ ?_
        obtain ⟨d, hd, hacc⟩ := hp h (.allocated r) [] rfl (.inl ⟨r, rfl⟩)
        exact hn d hd hacc
    | decode | read chunk | eof | readError | sendCommand c | sendCommandError c
      | recvReplyNone | writeEnd => exact .inl ⟨hc, by simpa [emit] using hn⟩
    | recvReply data | write item items | writeError item items n =>
        refine .inl ⟨hc, fun e he ↦ ?_⟩
        rcases List.mem_append.1 he with he | he
        · exact hn e he
        · rintro ⟨key, rfl⟩
          cases List.mem_singleton.1 he
    | recvCommand c draw | recvCommandNone | reply data after | replyError data after =>
        rw [g.1] at hc
        cases hc
    | notifyStart key ok | notifyEnd key ok | freePort port => cases g.symm.trans hc
  · exact .inr fun hp ↦ hn hp.of_append

/-- The step lemma for the order of dots and acceptances: the first dot that none precedes calls
`allocate_port`. -/
theorem Asked.ordered_step (hs : Asked h s) (hp : PortInv h s) (g : s.guard a)
    (ho : PrecededBy Event.Accepted (· = .received .dot) h) :
    PrecededBy Event.Accepted (· = .received .dot) (h ++ emit a) ∨
      Unauthorised (h ++ emit a) (s.effect a g) := by
  by_cases hacc : ∃ e ∈ h, e.Accepted
  · exact .inl (ho.append fun _ _ _ ↦ hacc)
  · by_cases hdot : .received .dot ∈ emit a
    · right
      obtain ⟨draw, rfl⟩ : ∃ draw, a = .recvCommand .dot draw := by
        cases a <;> simp [emit] at hdot
        subst hdot
        exact ⟨_, rfl⟩
      -- there is no port yet, since no dot came before
      have hnone : s.state.rtpPort = none := by
        by_contra hn
        exact hacc (ho.exists_of_mem (hs.dot_of_port hp hn) rfl)
      refine .inl ⟨by simp [effect, ConnectionState.handle, hnone], fun e he hacc' ↦ ?_⟩
      rcases List.mem_append.1 he with he | he
      · exact hacc ⟨e, he, hacc'⟩
      · obtain ⟨key, rfl⟩ := hacc'
        cases List.mem_singleton.1 he
    · refine .inl (ho.append fun e he hd ↦ ?_)
      subst hd
      exact absurd he hdot

end Connection

variable {h : List Event} {s : Connection} {ok : Connection → Action → Prop}

/-- The run lemma for dots. -/
theorem asked_of_reach (hr : connection.Reach ok h s) : s.Asked h := by
  refine hr.invariant_of (I := fun h s ↦ s.Asked h) (fun _ _ hr ↦ portInv_of_reach hr) ?_ ?_
  · rintro _ rfl
    exact .new
  · intro h s a g hp _ hs _
    exact hs.step hp g

/-- The run lemma: every dot comes after an acceptance, or one has led to a call that should not
have been made. -/
theorem ordered_or_unauthorised (hr : connection.Reach ok h s) :
    PrecededBy Event.Accepted (· = .received .dot) h ∨ s.Unauthorised h := by
  refine hr.invariant_of
    (I := fun h s ↦ PrecededBy Event.Accepted (· = .received .dot) h ∨ s.Unauthorised h)
    (fun _ _ hr ↦ And.intro (asked_of_reach hr) (portInv_of_reach hr)) (fun _ _ ↦ .inl .nil) ?_
  rintro h s a g ⟨hs, hp⟩ - (ho | hu) -
  · exact hs.ordered_step hp g ho
  · exact .inr (hu.step g)

/-- **Handshake safety**, and when it holds: every notification is made for a `Connect` that was
received; and ports are asked for, and announced, only after a `Connect` whose notification
returned `Ok`, exactly if every dot that was received came after one. -/
theorem handshake_iff (hr : connection.Reach connection.free h s) :
    (∀ key r, PrecededBy (fun e ↦ e.connect? = some key) (· = .notifiedStart key r) h) ∧
      (s.Authorised h ↔ PrecededBy Event.Accepted (· = .received .dot) h) := by
  refine ⟨connect_of_notifiedStart hr, fun ha ↦ ?_,
    fun ho ↦ ⟨ho.trans (asked_of_reach hr).uses, ?_⟩⟩
  · exact (ordered_or_unauthorised hr).resolve_right fun hu ↦ hu.not_authorised ha
  · intro hc
    exact ho.exists_of_mem ((asked_of_reach hr).allocate hc) rfl

/-- The steps by which a streamer asks for a port, and is told one. -/
def dotSteps (port : UInt16) : List Action :=
  [.read (FtlCodec.encode ".\r\n\r\n"), .decode, .sendCommand .dot,
    .recvCommand .dot zeroDraw, .allocate (some port), .reply [announcement port] .dot]

/-- A streamer that is accepted and then asks for its port. -/
theorem handshake_accepted :
    ∃ h s, connection.Reach connection.free h s ∧ .replied [announcement 5004] ∈ h ∧
      s.Authorised h := by
  obtain ⟨h, s, hr, hh⟩ := connection.exists_of_exec connection.free
    (fun h _ ↦ h = [.received (.connect [("stream_key", "key"), ("channel_id", "1")]),
      .notifiedStart "key" true] ++ [Event.replied ["200\n"], .executed ["200\n"],
      .wrote (FtlCodec.encode "200\n"), .received .dot, .allocated (some 5004),
      .replied [announcement 5004]]) rfl
    (connectSteps true ++ dotSteps 5004) (by decide +kernel)
  refine ⟨h, s, hr, by simp [hh], (handshake_iff hr).2.2 ?_⟩
  rw [hh]
  refine (PrecededBy.nil.append (k := [_, _]) fun e he hd ↦ ?_).append fun _ _ _ ↦ ?_
  · subst hd
    simp at he
  · exact ⟨_, List.mem_append_right _ (List.mem_cons_of_mem _ List.mem_cons_self), "key", rfl⟩

/-- A streamer whose key is refused, and who gets a port all the same. -/
theorem refused_port :
    ∃ h s, connection.Reach connection.free h s ∧ .notifiedStart "key" false ∈ h ∧
      (∀ key, .notifiedStart key true ∉ h) ∧ .allocated (some 5004) ∈ h ∧
      .replied [announcement 5004] ∈ h ∧ ¬ s.Authorised h := by
  obtain ⟨h, s, hr, hh⟩ := connection.exists_of_exec connection.free
    (fun h _ ↦ h = [.received (.connect [("stream_key", "key"), ("channel_id", "1")]),
      .notifiedStart "key" false, .replied ["200\n"], .executed ["200\n"],
      .wrote (FtlCodec.encode "200\n"), .received .dot, .allocated (some 5004),
      .replied [announcement 5004]]) rfl
    (connectSteps false ++ dotSteps 5004) (by decide +kernel)
  have hno : ∀ key, .notifiedStart key true ∉ h := fun key ↦ by simp [hh]
  refine ⟨h, s, hr, by simp [hh], hno, by simp [hh], by simp [hh], fun ha ↦ ?_⟩
  obtain ⟨_, he, key, rfl⟩ := ha.1.exists_of_mem (e := .allocated (some 5004)) (by simp [hh])
    (.inl ⟨_, rfl⟩)
  exact hno key he

end ITG.Ingest
