import ITG.System.Viewers
import ITG.Webrtc.Rtp

/-!
# What streamers send

The media of a stream take another way than everything else: a streamer sends RTP packets to the UDP
port that it was told, and the reader of the stream writes them to the two tracks that every viewer
of the stream has been given.  Nothing in a packet says whose it is.  That it ends up with the
viewers of its streamer rests on the port alone, and the port on all that the connections and the
server do about it.

Here the platform is taken together with the datagrams.  One that arrives is put into the queue of
the socket that is bound to its port, if there is one; a datagram that is lost on its way, or that
finds no room in the queue, is one that does not arrive.  `ReadFrom` takes the oldest one, unless
the socket has been closed.  Between `ReadFrom` and the `Write` of its packet the reader has the
packet in its hands, and what happens to the socket meanwhile does not stop it.
-/

universe u v w x

namespace ITG.Webrtc

/-- What is written for a datagram does not depend on those before it. -/
theorem relay_eq (unmarshal : Bytes → Option UInt8) (inbound : Lib.Buffer UInt8 4096)
    (datagrams : List Bytes) : relay unmarshal inbound datagrams =
      datagrams.flatMap fun datagram ↦ (receive unmarshal (.make 0) datagram).2 := by
  induction datagrams generalizing inbound with
  | nil => rfl
  | cons datagram datagrams ih =>
      rw [relay, ih, List.flatMap_cons, writes_receive, writes_receive]

namespace Server

variable {K : Type u} {s : Server K} {port : ℤ} {i : ℕ}

/-- The open socket that is bound to the port. -/
def bound (s : Server K) (port : ℤ) : Option ℕ :=
  (List.range s.opened).find? fun i ↦ s.isOpen i && decide (s.port i = port)

/-- There is at most one. -/
theorem Inv.bound_eq_some_iff (hi : s.Inv) :
    s.bound port = some i ↔ i < s.opened ∧ s.isOpen i = true ∧ s.port i = port := by
  have hfound : ∀ {j}, s.bound port = some j →
      j < s.opened ∧ s.isOpen j = true ∧ s.port j = port := fun {j} hj ↦ by
    have hp := List.find?_some hj
    rw [Bool.and_eq_true, decide_eq_true_iff] at hp
    exact ⟨List.mem_range.1 (List.mem_of_find?_eq_some hj), hp⟩
  refine ⟨hfound, fun ⟨hlt, hopen, hport⟩ ↦ ?_⟩
  have hsome : (s.bound port).isSome = true := by
    rw [bound, List.find?_isSome]
    exact ⟨i, List.mem_range.2 hlt, by rw [hopen, hport]; simp⟩
  obtain ⟨j, hj⟩ := Option.isSome_iff_exists.1 hsome
  obtain ⟨hlt', hopen', hport'⟩ := hfound hj
  rw [hj, hi.places.ports j i hlt' hlt hopen' hopen (hport'.trans hport.symm)]

/-- The socket of a stream in the map is bound to its port. -/
theorem Inv.bound_of_streams (hi : s.Inv) (hs : s.streams port = some i) :
    s.bound port = some i := by
  obtain ⟨hlt, hport, hflags⟩ := hi.places.listed port i hs
  exact hi.bound_eq_some_iff.2 ⟨hlt, congrArg Prod.fst hflags, hport⟩

/-- A stream whose hub is closed has no open socket. -/
theorem Inv.isOpen_of_hubDone (hi : s.Inv) (hd : s.hubDone i = true) : s.isOpen i = false := by
  have hlt : i < s.opened := by
    by_contra hn
    rw [(hi.fresh i (Nat.le_of_not_lt hn)).2.1] at hd
    cases hd
  have hflag : ∀ st : Stage, s.flags i ≠ st.flags := fun st hst ↦ by
    have h3 : s.hubDone i = st.flags.2.2 := congrArg (·.2.2) hst
    rw [hd] at h3
    cases st <;> cases h3
  rcases hi.places.settled i hlt with ⟨k, st, hk⟩ | hs | ho
  · exact absurd (hi.places.hand k i st hk).2.1 (hflag st)
  · exact absurd (hi.places.listed _ i hs).2.2 (hflag .unlisted)
  · exact ho.1

end Server

end ITG.Webrtc

namespace ITG.System

open ITG.Lib ITG.Webrtc ITG.Frontend

/-- The platform, the queues of the sockets, and the readers with their buffers. -/
structure Media (C : Type u) (V : Type v) (T : Type w) where
  platform : Platform C V T
  queue : ℕ → List Bytes
  inbound : ℕ → Buffer UInt8 4096
  /-- What the reader is about to write; `none` while it is in `ReadFrom`. -/
  hand : ℕ → Option (List (Track × Bytes))

namespace Media

/-- The socket is given a datagram. -/
def deliver {C : Type u} {V : Type v} {T : Type w} (m : Media C V T) (datagram : Bytes) :
    Option ℕ → Media C V T
  | some i => { m with queue := Function.update m.queue i (m.queue i ++ [datagram]) }
  | none => m

/-- What an observer sees. -/
inductive Event (C : Type u) (V : Type v) (K D : Type x) where
  | platform (e : Platform.Event C V K D)
  /-- A datagram has arrived at a port, and the socket that was bound to it has it. -/
  | arrived (port : ℤ) (datagram : Bytes) (socket : Option ℕ)
  /-- The reader of a stream has written to a track. -/
  | wrote (i : ℕ) (track : Track) (packet : Bytes)

/-- The steps. -/
inductive Action (C : Type u) (V : Type v) (T : Type w) where
  | platform (a : Platform.Action C V T)
  /-- A datagram arrives. -/
  | datagram (port : ℤ) (datagram : Bytes)
  /-- `ReadFrom` gives the reader of a stream a datagram. -/
  | readFrom (i : ℕ) (datagram : Bytes)
  /-- The reader passes it on, and goes back to `ReadFrom`. -/
  | write (i : ℕ) (ws : List (Track × Bytes))

/-- The reader whose `ReadFrom` fails. -/
def Action.failing? {C : Type u} {V : Type v} {T : Type w} : Action C V T → Option ℕ
  | .platform (.world (.server (.readError i))) => some i
  | _ => none

section Defs

variable {C : Type u} [DecidableEq C] {V : Type v} [DecidableEq V] {T : Type w} [DecidableEq T]
  {K D : Type x} (unmarshal : Bytes → Option UInt8) (E : Ends V K D) (RTPPort : ℤ)

/-- No datagram has arrived. -/
def new : Media C V T where
  platform := .new RTPPort
  queue := fun _ ↦ []
  inbound := fun _ ↦ .make 0
  hand := fun _ ↦ none

/-- The writes that the reader of the stream has yet to make. -/
def inHand (m : Media C V T) (i : ℕ) : List (Track × Bytes) := (m.hand i).getD []

/-- When an action is enabled. -/
def guard (m : Media C V T) : Action C V T → Prop
  | .platform a => (System.platform C T E RTPPort).guard m.platform a ∧
      ∀ i ∈ (Action.platform a).failing?, m.hand i = none
  | .datagram _ _ => True
  | .readFrom i datagram =>
      m.platform.world.server.reader i = .reading ∧ m.platform.world.server.isOpen i = true ∧
        m.hand i = none ∧ (m.queue i).head? = some datagram
  | .write i ws => m.hand i = some ws

instance (m : Media C V T) : ∀ a, Decidable (m.guard E RTPPort a) := by
  intro a
  cases a <;> (dsimp only [guard]; infer_instance)

/-- The state after an enabled action. -/
def effect (m : Media C V T) : (a : Action C V T) → m.guard E RTPPort a → Media C V T
  | .platform a, g =>
      { m with platform := (System.platform C T E RTPPort).effect m.platform a g.1 }
  | .datagram port datagram, _ => m.deliver datagram (m.platform.world.server.bound port)
  | .readFrom i datagram, _ =>
      { m with
        queue := Function.update m.queue i (m.queue i).tail
        inbound := Function.update m.inbound i (receive unmarshal (m.inbound i) datagram).1
        hand := Function.update m.hand i (some (receive unmarshal (m.inbound i) datagram).2) }
  | .write i _, _ => { m with hand := Function.update m.hand i none }

/-- The events of an action. -/
def emit (m : Media C V T) : Action C V T → List (Event C V K D)
  | .platform a => ((System.platform C T E RTPPort).emit m.platform a).map .platform
  | .datagram port datagram => [.arrived port datagram (m.platform.world.server.bound port)]
  | .readFrom _ _ => []
  | .write i ws => ws.map fun w ↦ .wrote i w.1 w.2

end Defs

end Media

/-- The platform and the datagrams as a transition system. -/
def media (C : Type u) [DecidableEq C] {V : Type v} [DecidableEq V] (T : Type w) [DecidableEq T]
    {K D : Type x} (unmarshal : Bytes → Option UInt8) (E : Ends V K D) (RTPPort : ℤ) :
    Machine (Media C V T) (Media.Action C V T) (Media.Event C V K D) where
  init m := m = .new RTPPort
  guard m a := m.guard E RTPPort a
  effect m a g := m.effect unmarshal E RTPPort a g
  emit m a := m.emit E RTPPort a

instance {C : Type u} [DecidableEq C] {V : Type v} [DecidableEq V] {T : Type w} [DecidableEq T]
    {K D : Type x} {unmarshal : Bytes → Option UInt8} (E : Ends V K D) (RTPPort : ℤ) :
    ∀ m a, Decidable ((media C T unmarshal E RTPPort).guard m a) :=
  fun m a ↦ inferInstanceAs (Decidable (m.guard E RTPPort a))

namespace Media

/-! ## Who sends what where -/

section Histories

variable {C : Type u} {V : Type v} {K D : Type x}

/-- The event of the platform. -/
def Event.platform? : Event C V K D → Option (Platform.Event C V K D)
  | .platform e => some e
  | .arrived _ _ _ | .wrote _ _ _ => none

/-- The datagram, if this is one that the socket has been given. -/
def Event.arrival? (i : ℕ) : Event C V K D → Option Bytes
  | .arrived _ datagram (some j) => if j = i then some datagram else none
  | .arrived _ _ none | .platform _ | .wrote _ _ _ => none

/-- The datagram, if this is one that was sent to the port. -/
def Event.sent? (port : ℤ) : Event C V K D → Option Bytes
  | .arrived q datagram _ => if q = port then some datagram else none
  | .platform _ | .wrote _ _ _ => none

/-- What is written, if it is written for this stream. -/
def Event.write? (i : ℕ) : Event C V K D → Option (Track × Bytes)
  | .wrote j track packet => if j = i then some (track, packet) else none
  | .platform _ | .arrived _ _ _ => none

/-- What the platform sees. -/
def toPlatform (h : List (Event C V K D)) : List (Platform.Event C V K D) :=
  h.filterMap Event.platform?

/-- What the connections and the server see. -/
def toWorld (h : List (Event C V K D)) : List (System.Event C) := Platform.toWorld (toPlatform h)

/-- The datagrams that the socket has been given. -/
def arrivals (i : ℕ) (h : List (Event C V K D)) : List Bytes := h.filterMap (Event.arrival? i)

/-- The datagrams that have arrived at the port. -/
def sentTo (port : ℤ) (h : List (Event C V K D)) : List Bytes := h.filterMap (Event.sent? port)

/-- What has been written to the tracks of the stream. -/
def writes (i : ℕ) (h : List (Event C V K D)) : List (Track × Bytes) :=
  h.filterMap (Event.write? i)

variable (i : ℕ) (port : ℤ) (h k : List (Event C V K D)) (es : List (Platform.Event C V K D))

theorem arrivals_append : arrivals i (h ++ k) = arrivals i h ++ arrivals i k :=
  List.filterMap_append

theorem sentTo_append : sentTo port (h ++ k) = sentTo port h ++ sentTo port k :=
  List.filterMap_append

theorem writes_append : writes i (h ++ k) = writes i h ++ writes i k := List.filterMap_append

theorem toWorld_append : toWorld (h ++ k) = toWorld h ++ toWorld k := by
  rw [toWorld, toPlatform, List.filterMap_append, Platform.toWorld, List.filterMap_append]
  rfl

@[simp] theorem arrivals_platform :
    arrivals i (es.map Event.platform : List (Event C V K D)) = [] := by
  simp [arrivals, List.filterMap_map, Function.comp_def, Event.arrival?]

@[simp] theorem sentTo_platform :
    sentTo port (es.map Event.platform : List (Event C V K D)) = [] := by
  simp [sentTo, List.filterMap_map, Function.comp_def, Event.sent?]

@[simp] theorem writes_platform :
    writes i (es.map Event.platform : List (Event C V K D)) = [] := by
  simp [writes, List.filterMap_map, Function.comp_def, Event.write?]

theorem toPlatform_platform :
    toPlatform (es.map Event.platform : List (Event C V K D)) = es := by
  simp [toPlatform, List.filterMap_map, Function.comp_def, Event.platform?]

/-- The events of the writes of a reader. -/
def wrote (j : ℕ) (ws : List (Track × Bytes)) : List (Event C V K D) :=
  ws.map fun w ↦ .wrote j w.1 w.2

variable (j : ℕ) (ws : List (Track × Bytes))

@[simp] theorem arrivals_wrote : arrivals i (wrote j ws : List (Event C V K D)) = [] := by
  simp [arrivals, wrote, List.filterMap_map, Function.comp_def, Event.arrival?]

@[simp] theorem sentTo_wrote : sentTo port (wrote j ws : List (Event C V K D)) = [] := by
  simp [sentTo, wrote, List.filterMap_map, Function.comp_def, Event.sent?]

theorem toPlatform_wrote : toPlatform (wrote j ws : List (Event C V K D)) = [] := by
  simp [toPlatform, wrote, List.filterMap_map, Function.comp_def, Event.platform?]

theorem writes_wrote_self : writes j (wrote j ws : List (Event C V K D)) = ws := by
  simp [writes, wrote, List.filterMap_map, Function.comp_def, Event.write?]

theorem writes_wrote_of_ne (hj : j ≠ i) : writes i (wrote j ws : List (Event C V K D)) = [] := by
  simp [writes, wrote, List.filterMap_map, Function.comp_def, Event.write?, hj]

end Histories

/-! ## Runs -/

section Runs

variable {C : Type u} [DecidableEq C] {V : Type v} [DecidableEq V] {T : Type w} [DecidableEq T]
  {K D : Type x} {unmarshal : Bytes → Option UInt8} {E : Ends V K D} {RTPPort : ℤ}
  {h k : List (Event C V K D)} {m t : Media C V T} {a : Action C V T} {i : ℕ}

omit [DecidableEq C] [DecidableEq V] [DecidableEq T] in
theorem platform_deliver (datagram : Bytes) (socket : Option ℕ) :
    (m.deliver datagram socket).platform = m.platform := by
  cases socket <;> rfl

/-- The datagrams leave the platform alone. -/
theorem platform_simulation :
    Simulation (media C T unmarshal E RTPPort) (media C T unmarshal E RTPPort).free
      (System.platform C T E RTPPort) (System.platform C T E RTPPort).free
      (fun m p ↦ m.platform = p) Event.platform? where
  init := by
    rintro _ rfl
    exact ⟨_, rfl, rfl⟩
  step := by
    rintro m _ a g rfl -
    cases a with
    | platform a => exact .inr ⟨a, trivial, g.1, rfl, toPlatform_platform _⟩
    | datagram port datagram => exact .inl ⟨platform_deliver _ _, rfl⟩
    | readFrom i datagram => exact .inl ⟨rfl, rfl⟩
    | write i ws => exact .inl ⟨rfl, toPlatform_wrote i _⟩

theorem platform_of_reach
    (hr : (media C T unmarshal E RTPPort).Reach (media C T unmarshal E RTPPort).free h m) :
    (System.platform C T E RTPPort).Reach (System.platform C T E RTPPort).free (toPlatform h)
      m.platform := by
  obtain ⟨_, hreach, rfl⟩ := platform_simulation.reach hr
  exact hreach

theorem world_of_reach
    (hr : (media C T unmarshal E RTPPort).Reach (media C T unmarshal E RTPPort).free h m) :
    (System.world C RTPPort).Reach (System.world C RTPPort).free (toWorld h) m.platform.world :=
  Platform.world_of_reach (platform_of_reach hr)

theorem inHand_readFrom {j : ℕ} {datagram : Bytes} (g : m.guard E RTPPort (.readFrom j datagram)) :
    (m.effect unmarshal E RTPPort (.readFrom j datagram) g).inHand i =
      if i = j then (receive unmarshal (m.inbound j) datagram).2 else m.inHand i := by
  simp only [inHand, effect, Function.update_apply]
  split <;> rfl

theorem inHand_write {j : ℕ} {ws : List (Track × Bytes)} (g : m.guard E RTPPort (.write j ws)) :
    (m.effect unmarshal E RTPPort (.write j ws) g).inHand i = if i = j then [] else m.inHand i := by
  simp only [inHand, effect, Function.update_apply]
  split <;> rfl

/-- What a socket has been given is in its queue or has been read, and what has been read has been
passed on, or is in the reader's hands. -/
def Relayed (unmarshal : Bytes → Option UInt8) (i : ℕ) (h : List (Event C V K D))
    (m : Media C V T) : Prop :=
  ∃ read, arrivals i h = read ++ m.queue i ∧
    writes i h ++ m.inHand i = relay unmarshal (.make 0) read

omit [DecidableEq C] [DecidableEq V] [DecidableEq T] in
/-- A step that neither brings the socket a datagram nor moves its reader. -/
theorem Relayed.of_other (hr : Relayed unmarshal i h m) (harrivals : arrivals i k = [])
    (hwrites : writes i k = []) (hqueue : t.queue i = m.queue i) (hhand : t.hand i = m.hand i) :
    Relayed unmarshal i (h ++ k) t := by
  obtain ⟨read, harr, hwr⟩ := hr
  refine ⟨read, ?_, ?_⟩
  · rw [arrivals_append, harrivals, List.append_nil, hqueue, harr]
  · rw [writes_append, hwrites, List.append_nil, inHand, hhand]
    exact hwr

theorem Relayed.readFrom (hr : Relayed unmarshal i h m) {j : ℕ} {datagram : Bytes}
    (g : m.guard E RTPPort (.readFrom j datagram)) :
    Relayed unmarshal i (h ++ []) (m.effect unmarshal E RTPPort (.readFrom j datagram) g) := by
  by_cases hj : j = i
  · subst hj
    obtain ⟨read, harr, hwr⟩ := hr
    have hnone := g.2.2.1
    have hqueue := List.eq_cons_of_mem_head? g.2.2.2
    have htail : (m.effect unmarshal E RTPPort (.readFrom j datagram) g).queue j =
        (m.queue j).tail := Function.update_self ..
    rw [inHand, hnone, Option.getD_none, List.append_nil] at hwr
    refine ⟨read ++ [datagram], ?_, ?_⟩
    · rw [List.append_nil, harr, htail, List.append_assoc, List.singleton_append, ← hqueue]
    · rw [List.append_nil, inHand_readFrom, if_pos rfl, hwr, relay_eq, relay_eq,
        List.flatMap_append, List.flatMap_singleton, writes_receive,
        writes_receive unmarshal (.make 0) datagram]
  · exact hr.of_other rfl rfl (Function.update_of_ne (Ne.symm hj) ..)
      (Function.update_of_ne (Ne.symm hj) ..)

theorem Relayed.write (hr : Relayed unmarshal i h m) {j : ℕ} {ws : List (Track × Bytes)}
    (g : m.guard E RTPPort (.write j ws)) :
    Relayed unmarshal i (h ++ wrote j ws) (m.effect unmarshal E RTPPort (.write j ws) g) := by
  by_cases hj : j = i
  · subst hj
    obtain ⟨read, harr, hwr⟩ := hr
    have hold : m.hand j = some ws := g
    refine ⟨read, ?_, ?_⟩
    · rw [arrivals_append, arrivals_wrote, List.append_nil]
      exact harr
    · rw [writes_append, writes_wrote_self, inHand_write, if_pos rfl, List.append_nil, ← hwr, inHand,
        hold, Option.getD_some]
  · exact hr.of_other (arrivals_wrote i j _) (writes_wrote_of_ne i j _ hj) rfl
      (Function.update_of_ne (Ne.symm hj) ..)

/-- The step lemma. -/
theorem Relayed.step (hr : Relayed unmarshal i h m) (g : m.guard E RTPPort a) :
    Relayed unmarshal i (h ++ m.emit E RTPPort a) (m.effect unmarshal E RTPPort a g) := by
  cases a with
  | platform a => exact hr.of_other (arrivals_platform i _) (writes_platform i _) rfl rfl
  | readFrom j datagram => exact hr.readFrom g
  | write j ws => exact hr.write g
  | datagram port datagram =>
      rw [emit, effect]
      cases m.platform.world.server.bound port with
      | none => exact hr.of_other rfl rfl rfl rfl
      | some j =>
          by_cases hj : j = i
          · subst hj
            obtain ⟨read, harr, hwr⟩ := hr
            refine ⟨read, ?_, ?_⟩
            · have harrival : arrivals j [(.arrived port datagram (some j) : Event C V K D)] =
                  [datagram] := by
                simp [arrivals, Event.arrival?]
              have hqueue : (m.deliver datagram (some j)).queue j = m.queue j ++ [datagram] :=
                Function.update_self ..
              rw [arrivals_append, harrival, harr, List.append_assoc, hqueue]
            · have hquiet : writes j [(.arrived port datagram (some j) : Event C V K D)] = [] := rfl
              rw [writes_append, hquiet, List.append_nil]
              exact hwr
          · refine hr.of_other ?_ rfl (Function.update_of_ne (Ne.symm hj) ..) rfl
            simp [arrivals, Event.arrival?, hj]

/-- The run lemma. -/
theorem relayed_of_reach
    (hr : (media C T unmarshal E RTPPort).Reach (media C T unmarshal E RTPPort).free h m) (i : ℕ) :
    Relayed unmarshal i h m := by
  refine hr.invariant (I := fun h m ↦ Relayed unmarshal i h m) ?_ ?_
  · rintro _ rfl
    exact ⟨[], rfl, rfl⟩
  · rintro h m a g ih -
    exact ih.step g

theorem length_inHand_step (hle : (m.inHand i).length ≤ 1) (g : m.guard E RTPPort a) :
    ((m.effect unmarshal E RTPPort a g).inHand i).length ≤ 1 := by
  cases a with
  | platform a => exact hle
  | datagram port datagram =>
      rw [effect]
      cases m.platform.world.server.bound port <;> exact hle
  | readFrom j datagram =>
      rw [inHand_readFrom]
      split
      · exact length_receive_le unmarshal _ _
      · exact hle
  | write j ws =>
      rw [inHand_write]
      split
      · exact Nat.zero_le 1
      · exact hle

/-- A reader has one packet in its hands at most. -/
theorem length_inHand_le
    (hr : (media C T unmarshal E RTPPort).Reach (media C T unmarshal E RTPPort).free h m) (i : ℕ) :
    (m.inHand i).length ≤ 1 := by
  refine hr.invariant_state (I := fun m ↦ (m.inHand i).length ≤ 1) ?_ ?_
  · rintro _ rfl
    exact Nat.zero_le 1
  · exact fun m a g hle _ ↦ length_inHand_step hle g

/-- The stream of a connection is where the datagrams go that are sent to its port. -/
theorem bound_of_announced
    (hr : (media C T unmarshal E RTPPort).Reach (media C T unmarshal E RTPPort).free h m) {c : C}
    {port : UInt16} (ha : .conn c (.replied [Ingest.announcement port]) ∈ toWorld h)
    (hn : ¬ Handled (toWorld h) c) (hc : Created (toWorld h) c i) (q : ℤ) :
    m.platform.world.server.bound q = some i ↔ q = port.toNat := by
  have hw := world_of_reach hr
  have ho := owned_of_reach hw
  have hk := known_of_reach hw
  obtain ⟨j, hj, hport⟩ := ho.port c port ((hk.conn c).announced port (mem_filterMap_ofConn.2 ha))
  obtain rfl := ho.once c i j hc hj
  constructor
  · intro hq
    rw [← (hk.inv.bound_eq_some_iff.1 hq).2.2, hport]
  · rintro rfl
    exact hk.inv.bound_of_streams (hport ▸ ho.kept c i hc hn)

/-- What a step brings to a socket is what is sent to the port that it is bound to. -/
theorem arrivals_of_bound {port : ℤ}
    (hbound : ∀ q, m.platform.world.server.bound q = some i ↔ q = port) :
    arrivals i (m.emit E RTPPort a : List (Event C V K D)) = sentTo port (m.emit E RTPPort a) := by
  cases a with
  | platform a => rw [emit, arrivals_platform, sentTo_platform]
  | readFrom j datagram => rfl
  | write j ws =>
      change arrivals i (wrote j ws : List (Event C V K D)) = sentTo port (wrote j ws)
      rw [arrivals_wrote, sentTo_wrote]
  | datagram q datagram =>
      by_cases hq : q = port
      · rw [emit, (hbound q).2 hq]
        simp [arrivals, sentTo, Event.arrival?, Event.sent?, hq]
      · rw [emit]
        cases hb : m.platform.world.server.bound q with
        | none => simp [arrivals, sentTo, Event.arrival?, Event.sent?, hq]
        | some j =>
            have hj : j ≠ i := by
              rintro rfl
              exact hq ((hbound q).1 hb)
            simp [arrivals, sentTo, Event.arrival?, Event.sent?, hq, hj]

/-- **Viewers are shown what their streamer sends.**  In every run: from the announcement of a port
on, as long as the request of the connection to delete its stream has not been handled, the socket
of the stream that was created for it is given every datagram that arrives at this port, and no
other; and what has been written to the stream's tracks is what the relay makes of the datagrams
that the socket has been given, but for those that still wait in its queue and the one that its
reader has in its hands. -/
theorem media_follows
    (hr : (media C T unmarshal E RTPPort).Reach (media C T unmarshal E RTPPort).free h m) {c : C}
    {port : UInt16} (ha : .conn c (.replied [Ingest.announcement port]) ∈ toWorld h)
    (hrun : (media C T unmarshal E RTPPort).Run (media C T unmarshal E RTPPort).free m k t)
    (hn : ¬ Handled (toWorld (h ++ k)) c) :
    ∃ i, Created (toWorld h) c i ∧
      arrivals i (h ++ k) = arrivals i h ++ sentTo port.toNat k ∧
      ∃ read, arrivals i (h ++ k) = read ++ t.queue i ∧
        writes i (h ++ k) ++ t.inHand i = relay unmarshal (.make 0) read := by
  have hw := world_of_reach hr
  obtain ⟨i, hc, -⟩ := (owned_of_reach hw).port c port
    (((known_of_reach hw).conn c).announced port (mem_filterMap_ofConn.2 ha))
  refine ⟨i, hc, ?_, relayed_of_reach (hr.trans hrun) i⟩
  induction hrun with
  | refl => simp [sentTo]
  | @step k t a hrun _ g ih =>
      have hn' : ¬ Handled (toWorld (h ++ k)) c := by
        rintro ⟨q, found, hm⟩
        refine hn ⟨q, found, ?_⟩
        rw [← List.append_assoc, toWorld_append]
        exact List.mem_append_left _ hm
      have hmem : ∀ e, e ∈ toWorld h → e ∈ toWorld (h ++ k) := fun e he ↦ by
        rw [toWorld_append]
        exact List.mem_append_left _ he
      have hstep : arrivals i ((media C T unmarshal E RTPPort).emit t a) =
          sentTo port.toNat ((media C T unmarshal E RTPPort).emit t a) :=
        arrivals_of_bound (bound_of_announced (hr.trans hrun) (hmem _ ha) hn' (hmem _ hc))
      rw [← List.append_assoc, arrivals_append, ih hn', sentTo_append, hstep, List.append_assoc]

/-- A streamer is given the port `5004`. -/
def opening : List (Action ℕ ℕ ℕ) := Platform.opening.map .platform

/-- A packet is sent to the port, and passed on. -/
def sending : List (Action ℕ ℕ ℕ) :=
  [.datagram 5004 (videoPacket 10), .readFrom 1 (videoPacket 10),
    .write 1 [(.video, videoPacket 10)]]

/-- A packet on its way to the viewers. -/
theorem media_follows_packet :
    ∃ h m k t, (media ℕ ℕ plainPayloadType Signalling.ends 65535).Reach
        (media ℕ ℕ plainPayloadType Signalling.ends 65535).free h m ∧
      (media ℕ ℕ plainPayloadType Signalling.ends 65535).Run
        (media ℕ ℕ plainPayloadType Signalling.ends 65535).free m k t ∧
      ∃ i, Created (toWorld h) 0 i ∧ arrivals i (h ++ k) = arrivals i h ++ [videoPacket 10] ∧
        writes i (h ++ k) = [(.video, videoPacket 10)] := by
  obtain ⟨h, m, k, t, hr, ⟨ha, hc, hnone⟩, hrun, hcmd, hsent, hwrites⟩ :=
    (media ℕ ℕ plainPayloadType Signalling.ends 65535).exists_of_exec_exec
      (media ℕ ℕ plainPayloadType Signalling.ends 65535).free
      (fun h _ ↦ .conn 0 (.replied [Ingest.announcement 5004]) ∈ toWorld h ∧
        .server (.created (.handler 0) 1) ∈ toWorld h ∧ sentTo 5004 h = [])
      (fun h t ↦ (t.platform.world.conn 0).command = .recv ∧ sentTo 5004 h = [videoPacket 10] ∧
        writes 1 h = [(.video, videoPacket 10)]) rfl
      opening sending (by decide +kernel)
  have hn := (owned_of_reach (world_of_reach (hr.trans hrun))).not_handled_of_command (c := 0)
    (by rw [hcmd]; exact nofun) (by rw [hcmd]; exact nofun)
  obtain ⟨i, hi, harr, -⟩ := media_follows hr ha hrun hn
  obtain rfl := (owned_of_reach (world_of_reach hr)).once 0 i 1 hi hc
  rw [sentTo_append, hnone, List.nil_append] at hsent
  exact ⟨h, m, k, t, hr, hrun, 1, hc, harr.trans (congrArg _ hsent), hwrites⟩

variable (unmarshal) in
/-- A stream whose hub is closed stays so, and its reader gets nothing more into its hands. -/
theorem closed_step (hi : m.platform.world.server.Inv) (g : m.guard E RTPPort a)
    (hd : m.platform.world.server.hubDone i = true) :
    (m.effect unmarshal E RTPPort a g).platform.world.server.hubDone i = true ∧
      writes i (m.emit E RTPPort a : List (Event C V K D)) ++
        (m.effect unmarshal E RTPPort a g).inHand i = m.inHand i := by
  cases a with
  | datagram port datagram =>
      rw [effect, platform_deliver]
      refine ⟨hd, ?_⟩
      cases m.platform.world.server.bound port <;> rfl
  | readFrom j datagram =>
      refine ⟨hd, ?_⟩
      have hj : i ≠ j := by
        rintro rfl
        cases (hi.isOpen_of_hubDone hd).symm.trans g.2.1
      rw [inHand_readFrom, if_neg hj]
      rfl
  | write j ws =>
      refine ⟨hd, ?_⟩
      rw [inHand_write]
      change writes i (wrote j ws) ++ _ = _
      by_cases hj : i = j
      · subst hj
        have hold : m.hand i = some ws := g
        rw [writes_wrote_self, if_pos rfl, List.append_nil, inHand, hold, Option.getD_some]
      · rw [writes_wrote_of_ne i j ws (Ne.symm hj), if_neg hj, List.nil_append]
  | platform a =>
      rw [emit, writes_platform]
      refine ⟨?_, rfl⟩
      obtain ⟨⟨-, g⟩, -⟩ := g
      cases a with
      | stream j a => exact hd
      | websocket v port =>
          change (m.platform.effect E RTPPort (.websocket v port) g).world.server.hubDone i = true
          rwa [Platform.world_effect_websocket v port g]
      | world a => exact (World.hubDone_effect g.2).2 (.inl hd)

/-- **Nothing is shown of a streamer that has gone**, but for one packet.  In every run: once the
request of `free_port` has been answered, nothing is written to the tracks of the stream that was
created for the connection, whatever arrives at its port, except what its reader has in its hands at
that moment, which is one packet at most. -/
theorem media_stops
    (hr : (media C T unmarshal E RTPPort).Reach (media C T unmarshal E RTPPort).free h m) {c : C}
    {port : UInt16} (he : .conn c (.freed port) ∈ toWorld h)
    (hrun : (media C T unmarshal E RTPPort).Run (media C T unmarshal E RTPPort).free m k t) :
    ∃ i, Created (toWorld h) c i ∧ (m.inHand i).length ≤ 1 ∧
      writes i (h ++ k) ++ t.inHand i = writes i h ++ m.inHand i := by
  obtain ⟨i, hc, hd⟩ := hubDone_of_freed (world_of_reach hr) he
  refine ⟨i, hc, length_inHand_le hr i, ?_⟩
  suffices hs : t.platform.world.server.hubDone i = true ∧
      writes i (h ++ k) ++ t.inHand i = writes i h ++ m.inHand i from hs.2
  induction hrun with
  | refl => exact ⟨hd, by rw [List.append_nil]⟩
  | @step k t a hrun _ g ih =>
      have hi := (known_of_reach (world_of_reach (hr.trans hrun))).inv
      obtain ⟨hd', hw⟩ := closed_step unmarshal hi g ih.1
      refine ⟨hd', ?_⟩
      rw [← List.append_assoc, writes_append, List.append_assoc, ← ih.2]
      exact congrArg _ hw

/-- A packet is sent to a port whose streamer has left, and the reader still writes the one before,
which it had in its hands. -/
theorem media_stops_packet :
    ∃ h m k t, (media ℕ ℕ plainPayloadType Signalling.ends 65535).Reach
        (media ℕ ℕ plainPayloadType Signalling.ends 65535).free h m ∧
      (media ℕ ℕ plainPayloadType Signalling.ends 65535).Run
        (media ℕ ℕ plainPayloadType Signalling.ends 65535).free m k t ∧
      sentTo 5004 k = [videoPacket 20] ∧
      ∃ i, Created (toWorld h) 0 i ∧ writes i (h ++ k) = [(.video, videoPacket 10)] := by
  obtain ⟨h, m, k, t, hr, ⟨he, hc, hsent, hhand, hnone⟩, hrun, hsent', hempty⟩ :=
    (media ℕ ℕ plainPayloadType Signalling.ends 65535).exists_of_exec_exec
      (media ℕ ℕ plainPayloadType Signalling.ends 65535).free
      (fun h m ↦ .conn 0 (.freed 5004) ∈ toWorld h ∧
        .server (.created (.handler 0) 1) ∈ toWorld h ∧ sentTo 5004 h = [videoPacket 10] ∧
        m.inHand 1 = [(.video, videoPacket 10)] ∧ writes 1 h = [])
      (fun h t ↦ sentTo 5004 h = [videoPacket 10, videoPacket 20] ∧ t.inHand 1 = []) rfl
      (opening ++ [.datagram 5004 (videoPacket 10), .readFrom 1 (videoPacket 10)] ++
        Platform.closing.map fun a ↦ .platform (.world a))
      [.datagram 5004 (videoPacket 20), .write 1 [(.video, videoPacket 10)]] (by decide +kernel)
  obtain ⟨i, hi, -, hstop⟩ := media_stops hr he hrun
  obtain rfl := (owned_of_reach (world_of_reach hr)).once 0 i 1 hi hc
  rw [hempty, List.append_nil, hnone, hhand] at hstop
  rw [sentTo_append, hsent] at hsent'
  exact ⟨h, m, k, t, hr, hrun, List.cons_injective (a := videoPacket 10) hsent', 1, hc, hstop⟩

end Runs

end Media

end ITG.System
