import ITG.System.Platform
import ITG.Webrtc.Hub.Isolation
import ITG.Webrtc.Server.Teardown

/-!
# What a streamer is to its viewers

The map of the server and the hubs of its streams agree: viewers are led to a hub exactly as long as
its stream is in the map, and a hub is closed exactly when the server has closed it (`Linked`).
With the ownership of ports this makes the two programs one system.  A viewer who asks with the port
that a streamer was told is led to this streamer's stream until the streamer gives it up
(`viewers_led`), and is not cut off before that except by trouble of its own (`viewers_kept`).
-/

universe u v w x

namespace ITG.Webrtc

open ITG.Lib

/-! ## Streams that have been given up -/

/-- What a call is tearing down it has in hand. -/
theorem CallAt.hand_of_tearing {p : CallAt} {i n : ℕ} (h : p.tearing = some (i, n)) :
    ∃ st, p.hand = some (i, st) := by
  unfold CallAt.tearing at h
  split at h <;> cases h <;> exact ⟨_, rfl⟩

/-- A call past its look-up serves `free_port`. -/
theorem CallAt.freePort_of_removed {p : CallAt} {cmd : Ingest.CommandAt} (hs : p.Serves cmd)
    (hr : p.removed = true) : ∃ port, cmd = .freePort port := by
  unfold CallAt.removed at hr
  split at hr <;> first | exact hs | cases hr

@[simp] theorem removed_streamHandler (r : Request) : (streamHandler r).removed = false := by
  rcases streamHandler_cases r with ⟨port, h⟩ | ⟨port, h⟩ | h | h <;> rw [h] <;> rfl

namespace Server

variable {K : Type u} {s : Server K} {a : Action K} {k : Caller K} {i : ℕ}

/-- The stream was taken out of the map: its hub is closed, or a call is about to close it. -/
def Off (s : Server K) (i : ℕ) : Prop :=
  s.hubDone i = true ∨ ∃ k n, (s.call k).tearing = some (i, n)

/-- What is in the map has not been given up. -/
theorem Inv.not_off (hi : Inv s) {p : ℤ} (hs : s.streams p = some i) : ¬ s.Off i := by
  rintro (hd | ⟨k, n, hk⟩)
  · have hflags := (hi.places.listed p i hs).2.2
    cases hd.symm.trans (congrArg (·.2.2) hflags)
  · obtain ⟨st, hst⟩ := CallAt.hand_of_tearing hk
    exact (hi.places.hand k i st hst).2.2 p hs

variable [DecidableEq K]

theorem hubDone_mono (g : s.guard a) (hd : s.hubDone i = true) :
    (s.effect a g).hubDone i = true := by
  cases a with
  | doneClose k j => by_cases hij : i = j <;> simp [effect, hij, hd]
  | _ => exact hd

/-- A teardown goes on until the hub is closed. -/
theorem tearing_goes_on (g : s.guard a) {n : ℕ} (hk : (s.call k).tearing = some (i, n)) :
    (s.effect a g).hubDone i = true ∨ ∃ m, ((s.effect a g).call k).tearing = some (i, m) := by
  rcases call_step (k := k) g with he | hm
  · exact .inr ⟨n, by rw [he, hk]⟩
  · generalize s.call k = p, (s.effect a g).call k = q at hk hm ⊢
    cases hm with
    | unlockSome | connClose | hubClose =>
        cases hk
        exact .inr ⟨_, rfl⟩
    | hubClosed hd =>
        cases hk
        exact .inl (hubDone_mono g hd)
    | doneClose =>
        cases hk
        exact .inl (Function.update_self ..)
    | _ => cases hk

/-- A stream is given up when it is taken out of the map, and for good. -/
theorem off_step (g : s.guard a) :
    (s.effect a g).Off i ↔ s.Off i ∨ ∃ k port, a = .delete k port i := by
  constructor
  · rintro (hd | ⟨k, n, hk⟩)
    · rcases hubDone_step g hd with hd | ⟨k, rfl⟩
      · exact .inl (.inl hd)
      · have hk : s.call k = .doneClose i := g
        exact .inl (.inr ⟨k, 3, by rw [hk]; rfl⟩)
    · rcases tearing_step g hk with ⟨hk, -⟩ | ⟨port, rfl, -⟩ | ⟨m, hk, -⟩
      · exact .inl (.inr ⟨k, n, hk⟩)
      · exact .inr ⟨k, port, rfl⟩
      · exact .inl (.inr ⟨k, m, hk⟩)
  · rintro ((hd | ⟨k, n, hk⟩) | ⟨k, port, rfl⟩)
    · exact .inl (hubDone_mono g hd)
    · rcases tearing_goes_on g hk with hd | ⟨m, hk⟩
      · exact .inl hd
      · exact .inr ⟨k, m, hk⟩
    · exact .inr ⟨k, 1, by simp [effect, CallAt.tearing]⟩

/-- A call that has come past its look-up was seen there. -/
theorem removed_before (g : s.guard a) (hk : ((s.effect a g).call k).removed = true) :
    (s.call k).removed = true ∨ ∃ port found, .removed k port found ∈ emit a := by
  rcases of_call_step (·.removed = true) g hk with hk | ⟨p, q, hp, hm, hq⟩
  · exact .inl hk
  · rw [hp]
    cases hm with
    | lookupNone | delete => exact .inr ⟨_, _, List.mem_singleton_self _⟩
    | unlockSome | unlockNone | connClose | hubClose | hubClosed | doneClose => exact .inl rfl
    | request => cases (removed_streamHandler _).symm.trans hq
    | _ => cases hq

end Server

section Runs

variable {K : Type u} [DecidableEq K] {RTPPort : ℤ} {ok : Server K → Server.Action K → Prop}
  {h : List (Server.Event K)} {s : Server K} {k : Caller K}

theorem removed_of_reach (hr : (server K RTPPort).Reach ok h s) (hk : (s.call k).removed = true) :
    ∃ port found, .removed k port found ∈ h := by
  revert hk
  refine hr.invariant
    (I := fun h s ↦ (s.call k).removed = true → ∃ port found, .removed k port found ∈ h) ?_ ?_
  · rintro _ rfl hk
    cases k <;> cases hk
  · intro h s a g ih _ hk
    rcases Server.removed_before g.2 hk with hk | ⟨port, found, he⟩
    · obtain ⟨port, found, he⟩ := ih hk
      exact ⟨port, found, List.mem_append_left _ he⟩
    · exact ⟨port, found, List.mem_append_right _ he⟩

/-- Who has removed a stream closes its hub. -/
theorem hubDone_of_removed (hr : (server K RTPPort).Reach ok h s) {port : ℤ} {i : ℕ}
    (he : .removed k port (some i) ∈ h) :
    s.hubDone i = true ∨ ∃ n, (s.call k).tearing = some (i, n) := by
  revert he
  refine hr.invariant (I := fun h s ↦ .removed k port (some i) ∈ h →
    s.hubDone i = true ∨ ∃ n, (s.call k).tearing = some (i, n)) ?_ ?_
  · rintro _ rfl
    exact nofun
  · intro h s a g ih _ he
    rcases List.mem_append.1 he with he | he
    · rcases ih he with hd | ⟨n, hn⟩
      · exact .inl (Server.hubDone_mono g.2 hd)
      · exact Server.tearing_goes_on g.2 hn
    · rcases (Server.removed_of_mem_emit g.2 he).2 with ⟨-, hf⟩ | ⟨j, rfl, hf⟩
      · cases hf
      · cases hf
        exact .inr ⟨1, by simp [server, Server.effect, CallAt.tearing]⟩

end Runs

namespace Hub

variable {V : Type v} [DecidableEq V] {s : Hub V} {a : Action V}

/-! ## What only the server does to a hub -/

theorem listed_frame (g : s.guard a) (ha : a ≠ .unlist) : (s.effect a g).listed = s.listed := by
  cases a
  case unlist => exact absurd rfl ha
  case castSend m d rest | send k m =>
      simp only [effect, deliver]
      split <;> rfl
  all_goals rfl

theorem done_frame (g : s.guard a) (ha : a ≠ .close) : (s.effect a g).done = s.done := by
  cases a
  case close => exact absurd rfl ha
  all_goals simp [effect]

/-- A handler begins where the server has accepted the viewer. -/
theorem handler_ne_idle (g : s.guard a) {c : V} (ha : a ≠ .accept c)
    (hc : (s.effect a g).handler c ≠ .idle) : s.handler c ≠ .idle := by
  intro hidle
  by_cases hm : ∃ p, a.handler? = some (c, p)
  · obtain ⟨p, hp⟩ := hm
    rw [(handler_leaves g hp).1] at hidle
    subst hidle
    cases a
    case accept d =>
        cases hp
        exact ha rfl
    all_goals cases hp
  · rw [handler_frame g (not_exists.1 hm)] at hc
    exact hc hidle

end Hub

end ITG.Webrtc

namespace ITG.System

open ITG.Lib ITG.Webrtc ITG.Frontend

namespace World

variable {C : Type u} [DecidableEq C] {w : World C} {a : Action C} {i : ℕ}

/-- Only the server itself gives streams up. -/
theorem off_effect (g : w.guard a) :
    (w.effect a g).server.Off i ↔ w.server.Off i ∨ ∃ k port, a = .server (.delete k port i) := by
  cases a with
  | conn c b => exact ⟨.inl, fun h ↦ h.resolve_right nofun⟩
  | server b =>
      refine (Server.off_step g.1).trans (or_congr_right ?_)
      simp
  | post c | allocated c r | delete c port | freed c port r =>
      exact (Server.off_step g.2).trans (or_congr_right (by simp))

/-- Only the server itself closes hubs. -/
theorem hubDone_effect (g : w.guard a) :
    (w.effect a g).server.hubDone i = true ↔
      w.server.hubDone i = true ∨ ∃ k, a = .server (.doneClose k i) := by
  cases a with
  | conn c b => exact ⟨.inl, fun h ↦ h.resolve_right nofun⟩
  | server b =>
      constructor
      · intro hd
        exact (Server.hubDone_step g.1 hd).imp_right fun ⟨k, hb⟩ ↦ ⟨k, congrArg _ hb⟩
      · rintro (hd | ⟨k, hb⟩)
        · exact Server.hubDone_mono g.1 hd
        · cases hb
          exact Function.update_self ..
  | post c | allocated c r | delete c port | freed c port r =>
      exact ⟨.inl, fun h ↦ h.resolve_right nofun⟩

end World

section Freed

variable {C : Type u} [DecidableEq C] {RTPPort : ℤ} {h : List (Event C)} {w : World C}

omit [DecidableEq C] in
/-- Only an answer ends `free_port`. -/
theorem eq_freed_of_mem_emit {a : Action C} {c : C} {port : UInt16} (g : w.guard a)
    (he : .conn c (.freed port) ∈ w.emit a) : ∃ r, a = .freed c port r := by
  cases a with
  | conn d a =>
      obtain ⟨e, hmem, heq⟩ := List.mem_map.1 he
      cases heq
      have ha : a.Alone := g.2
      cases a with
      | freePort p => exact ha.elim
      | allocate r => exact ha.elim
      | _ => simp [Ingest.Connection.emit] at hmem
  | server a =>
      obtain ⟨e, -, heq⟩ := List.mem_map.1 he
      cases heq
  | post d | delete d q => cases he
  | allocated d r => cases List.mem_singleton.1 he
  | freed d q r =>
      cases List.mem_singleton.1 he
      exact ⟨r, rfl⟩

omit [DecidableEq C] in
/-- A connection that has not come to `free_port` has not had its stream deleted. -/
theorem World.Owned.not_handled_of_command (ho : w.Owned h) {c : C}
    (hfree : ∀ port, (w.conn c).command ≠ .freePort port) (hret : (w.conn c).command ≠ .returned) :
    ¬ Handled h c := by
  intro hh
  rcases ho.handled c hh with hremoved | hcommand
  · obtain ⟨port, hport⟩ := CallAt.freePort_of_removed (ho.serves (.handler c)) hremoved
    exact hfree port hport
  · exact hret hcommand

/-- A connection whose `free_port` has returned has had a stream, and its hub is closed. -/
theorem hubDone_of_freed (hr : (world C RTPPort).Reach (world C RTPPort).free h w) {c : C}
    {port : UInt16} (he : .conn c (.freed port) ∈ h) :
    ∃ i, Created h c i ∧ w.server.hubDone i = true := by
  revert he
  refine hr.invariant_of
    (I := fun h w ↦ .conn c (.freed port) ∈ h → ∃ i, Created h c i ∧ w.server.hubDone i = true)
    (fun _ _ hr ↦ And.intro (server_of_reach hr) (owned_of_reach hr)) ?_ ?_
  · rintro _ rfl
    exact nofun
  · rintro h w a g ⟨hserver, ho⟩ - ih - he
    rcases List.mem_append.1 he with he | he
    · obtain ⟨i, hc, hd⟩ := ih he
      exact ⟨i, List.mem_append_left _ hc, (World.hubDone_effect g.2).2 (.inl hd)⟩
    · obtain ⟨r, rfl⟩ := eq_freed_of_mem_emit g.2 he
      -- the call has removed what it found, and has nothing more to do
      have hcall : w.server.call (.handler c) = .returned r := g.2.2
      have hserves := ho.serves (.handler c)
      rw [hcall] at hserves
      have hremoved : (w.server.call (.handler c)).removed = true := by
        rw [hcall]
        cases r <;> first | rfl | exact hserves.elim | (cases hserves.symm.trans g.2.1)
      obtain ⟨q, found, hm⟩ := removed_of_reach hserver hremoved
      obtain ⟨i, rfl, hc⟩ := ho.removed c q found (mem_filterMap_ofServer.1 hm)
      refine ⟨i, List.mem_append_left _ hc, (World.hubDone_effect g.2).2 (.inl ?_)⟩
      refine (hubDone_of_removed hserver hm).resolve_right ?_
      rintro ⟨n, hn⟩
      rw [hcall] at hn
      cases hn

end Freed

/-! ## The map and the hubs -/

/-- A step of a stream's viewers leaves to the server what is the server's. -/
theorem Signalling.hub_effect_own {V : Type v} [DecidableEq V] {T : Type w} [DecidableEq T]
    {K D : Type x} {E : Ends V K D} {s : Signalling V T} {a : Signalling.Action V T} (ha : a.Own)
    (g : s.guard a) : (s.effect E a g).hub.listed = s.hub.listed ∧
      (s.effect E a g).hub.done = s.hub.done ∧
      ∀ v, (s.effect E a g).hub.handler v ≠ .idle → s.hub.handler v ≠ .idle := by
  cases a with
  | hub a =>
      have hne : a ≠ .unlist ∧ a ≠ .close ∧ ∀ v, a ≠ .accept v := by
        refine ⟨?_, ?_, fun v ↦ ?_⟩ <;> rintro rfl <;> exact ha
      exact ⟨Hub.listed_frame g.2.2 hne.1, Hub.done_frame g.2.2 hne.2.1,
        fun v ↦ Hub.handler_ne_idle g.2.2 (hne.2.2 v)⟩
  | deliver v m | page v a => exact ⟨rfl, rfl, fun _ ↦ id⟩
  | read v ok =>
      obtain ⟨x, xs, -, heffect, -⟩ := Signalling.read_cases (E := E) g
      rw [heffect]
      exact ⟨rfl, rfl, fun _ ↦ id⟩

namespace Platform

variable {C : Type u} [DecidableEq C] {V : Type v} [DecidableEq V] {T : Type w} [DecidableEq T]
  {K D : Type x} {E : Ends V K D} {RTPPort : ℤ} {h : List (Event C V K D)} {p : Platform C V T}
  {ok : Platform C V T → Action C V T → Prop} {i : ℕ}

/-- What is known of the parts. -/
structure Parts (p : Platform C V T) : Prop where
  server : p.world.server.Inv
  hub : ∀ i, (p.stream i).hub.Inv
  panicked : ∀ i, (p.stream i).panicked = false

theorem parts_of_reach (hr : (platform C T E RTPPort).Reach ok h p) : p.Parts where
  server := server_inv_of_reach (server_of_reach (world_of_reach hr))
  hub i := inv_of_reach (Signalling.hub_of_reach_free (stream_of_reach hr i))
  panicked i := Signalling.not_panicked (stream_of_reach hr i)

/-- The map of the server and the hubs agree, and viewers are where they were led. -/
structure Linked (p : Platform C V T) : Prop where
  listed : ∀ i, (p.stream i).hub.listed = false ↔ p.world.server.Off i
  done : ∀ i, (p.stream i).hub.done = true ↔ p.world.server.hubDone i = true
  attached : ∀ i v, (p.stream i).hub.handler v ≠ .idle → p.attached v = some i

omit [DecidableEq V] [DecidableEq T] in
theorem Linked.new : Linked (.new RTPPort : Platform C V T) where
  listed i := by
    refine ⟨nofun, ?_⟩
    rintro (hd | ⟨k, n, hk⟩)
    · cases hd
    · cases k <;> cases hk
  done i := ⟨nofun, nofun⟩
  attached i v hv := absurd rfl hv

omit [DecidableEq C] in
/-- The hub can take what the server does for it, and takes it. -/
theorem Parts.hub_tell (hp : p.Parts) {b : Webrtc.Action V} (g : (p.stream i).hub.guard b) :
    ((p.tell E i b).stream i).hub = (p.stream i).hub.effect b g := by
  have g' : (p.stream i).guard (.hub b) := ⟨hp.panicked i, (hp.hub i).panicked, g⟩
  rw [tell_stream, if_pos rfl, Signalling.tell_of_guard g']
  rfl

omit [DecidableEq C] in
theorem stream_tell_ne {j : ℕ} (hij : i ≠ j) (b : Webrtc.Action V) :
    (p.tell E j b).stream i = p.stream i := by
  rw [tell_stream, if_neg hij]

omit [DecidableEq C] [DecidableEq T] in
/-- A stream in the map can be found by viewers. -/
theorem Linked.listed_of_streams (hl : p.Linked) (hp : p.Parts) {q : ℤ}
    (hs : p.world.server.streams q = some i) : (p.stream i).hub.listed = true :=
  Bool.eq_true_of_not_eq_false fun hf ↦ hp.server.not_off hs ((hl.listed i).1 hf)

omit [DecidableEq C] [DecidableEq T] in
/-- A call that is about to close a hub finds it closed to viewers, and not closed. -/
theorem Linked.open_of_doneClose (hl : p.Linked) (hp : p.Parts) {k : Caller C}
    (hk : p.world.server.call k = .doneClose i) :
    (p.stream i).hub.listed = false ∧ (p.stream i).hub.done = false := by
  have hhand : (p.world.server.call k).hand = some (i, .closed) := by rw [hk]; rfl
  have hflags := (hp.server.places.hand k i _ hhand).2.1
  refine ⟨(hl.listed i).2 (.inr ⟨k, 3, by rw [hk]; rfl⟩), Bool.eq_false_iff.2 fun hd ↦ ?_⟩
  cases ((hl.done i).1 hd).symm.trans (congrArg (·.2.2) hflags)

/-- What a step of the world is for the hub of a stream. -/
theorem hub_effect_world (hl : p.Linked) (hp : p.Parts) {a : System.Action C}
    (g : p.guard RTPPort (.world a)) (i : ℕ) :
    (∃ k port, a = .server (.delete k port i)) ∧
        ((p.effect E RTPPort (.world a) g).stream i).hub =
          { (p.stream i).hub with listed := false } ∨
      (∃ k, a = .server (.doneClose k i)) ∧
        ((p.effect E RTPPort (.world a) g).stream i).hub = { (p.stream i).hub with done := true } ∨
      (¬ ∃ k port, a = .server (.delete k port i)) ∧ (¬ ∃ k, a = .server (.doneClose k i)) ∧
        ((p.effect E RTPPort (.world a) g).stream i).hub = (p.stream i).hub := by
  cases ha : hubAction (V := V) a with
  | none =>
      refine .inr (.inr ⟨?_, ?_, ?_⟩)
      · rintro ⟨k, port, rfl⟩
        cases ha
      · rintro ⟨k, rfl⟩
        cases ha
      · rw [effect, ha]
        rfl
  | some x =>
      obtain ⟨j, b⟩ := x
      have hstream : (p.effect E RTPPort (.world a) g).stream = (p.tell E j b).stream := by
        rw [effect, ha]
        rfl
      rw [hstream]
      rcases eq_of_hubAction ha with ⟨⟨k, port, rfl⟩, rfl⟩ | ⟨⟨k, rfl⟩, rfl⟩
      · by_cases hij : i = j
        · subst hij
          have hlisted := hl.listed_of_streams hp (hp.server.found k port i g.2.1)
          exact .inl ⟨⟨k, port, rfl⟩, hp.hub_tell (b := .unlist) hlisted⟩
        · refine .inr (.inr ⟨?_, ?_, by rw [stream_tell_ne hij]⟩)
          · rintro ⟨k', port', he⟩
            cases he
            exact hij rfl
          · rintro ⟨k', he⟩
            cases he
      · by_cases hij : i = j
        · subst hij
          have hopen := hl.open_of_doneClose hp g.2.1
          exact .inr (.inl ⟨⟨k, rfl⟩, hp.hub_tell (b := .close) hopen⟩)
        · refine .inr (.inr ⟨?_, ?_, by rw [stream_tell_ne hij]⟩)
          · rintro ⟨k', port', he⟩
            cases he
          · rintro ⟨k', he⟩
            cases he
            exact hij rfl

theorem Linked.world (hl : p.Linked) (hp : p.Parts) {a : System.Action C}
    (g : p.guard RTPPort (.world a)) : (p.effect E RTPPort (.world a) g).Linked := by
  have hattached : (p.effect E RTPPort (.world a) g).attached = p.attached := by
    rw [effect]
    cases hubAction (V := V) a <;> rfl
  constructor
  case listed =>
    intro i
    refine Iff.trans ?_ (World.off_effect g.2).symm
    rw [← hl.listed]
    rcases hub_effect_world (E := E) hl hp g i with ⟨hd, he⟩ | ⟨⟨k, rfl⟩, he⟩ | ⟨hd, -, he⟩ <;>
      rw [he]
    · exact iff_of_true rfl (.inr hd)
    · refine (or_iff_left ?_).symm
      rintro ⟨k', port', h'⟩
      cases h'
    · exact (or_iff_left hd).symm
  case done =>
    intro i
    refine Iff.trans ?_ (World.hubDone_effect g.2).symm
    rw [← hl.done]
    rcases hub_effect_world (E := E) hl hp g i with
      ⟨⟨k, port, rfl⟩, he⟩ | ⟨hc, he⟩ | ⟨-, hc, he⟩ <;> rw [he]
    · refine (or_iff_left ?_).symm
      rintro ⟨k', h'⟩
      cases h'
    · exact iff_of_true rfl (.inr hc)
    · exact (or_iff_left hc).symm
  case attached =>
    intro i v
    rw [hattached]
    rcases hub_effect_world (E := E) hl hp g i with ⟨-, he⟩ | ⟨-, he⟩ | ⟨-, -, he⟩ <;> rw [he] <;>
      exact hl.attached i v

/-- A step of a stream's viewers is none that the server takes for their hub. -/
theorem Linked.stream (hl : p.Linked) {j : ℕ} {a : Signalling.Action V T}
    (g : p.guard RTPPort (.stream j a)) : (p.effect E RTPPort (.stream j a) g).Linked := by
  have hself : ((p.effect E RTPPort (.stream j a) g).stream j) = (p.stream j).effect E a g.2.2 :=
    Function.update_self ..
  have hne {i : ℕ} (hij : i ≠ j) : (p.effect E RTPPort (.stream j a) g).stream i = p.stream i :=
    Function.update_of_ne hij ..
  obtain ⟨hlisted, hdone, hhandler⟩ := Signalling.hub_effect_own (E := E) g.1 g.2.2
  constructor
  case listed =>
    intro i
    refine Iff.trans ?_ (hl.listed i)
    by_cases hij : i = j
    · subst hij
      rw [hself, hlisted]
    · rw [hne hij]
  case done =>
    intro i
    refine Iff.trans ?_ (hl.done i)
    by_cases hij : i = j
    · subst hij
      rw [hself, hdone]
    · rw [hne hij]
  case attached =>
    intro i v hv
    refine hl.attached i v ?_
    by_cases hij : i = j
    · subst hij
      rw [hself] at hv
      exact hhandler v hv
    · rwa [hne hij] at hv

/-- A viewer is led to a stream, or told that there is none. -/
theorem effect_websocket (hl : p.Linked) (hp : p.Parts) {v : V} {port : String}
    (g : p.guard RTPPort (.websocket v port)) :
    p.world.server.websocketHandler RTPPort port = none ∧
        p.effect E RTPPort (.websocket v port) g = p ∨
      ∃ j, p.world.server.websocketHandler RTPPort port = some j ∧
        p.effect E RTPPort (.websocket v port) g =
          { p.tell E j (.accept v) with attached := Function.update p.attached v (some j) } ∧
        ((p.tell E j (.accept v)).stream j).hub =
          { (p.stream j).hub with
            handler := Function.update (p.stream j).hub.handler v .newClient } := by
  cases hf : p.world.server.websocketHandler RTPPort port with
  | none =>
      refine .inl ⟨rfl, ?_⟩
      rw [effect, hf]
      rfl
  | some j =>
      refine .inr ⟨j, rfl, ?_, hp.hub_tell (b := .accept v) ⟨?_, ?_⟩⟩
      · rw [effect, hf]
        rfl
      · by_contra hv
        cases (hl.attached j v hv).symm.trans g.2.2
      · exact hl.listed_of_streams hp hf

theorem Linked.websocket (hl : p.Linked) (hp : p.Parts) {v : V} {port : String}
    (g : p.guard RTPPort (.websocket v port)) :
    (p.effect E RTPPort (.websocket v port) g).Linked := by
  rcases effect_websocket (E := E) hl hp g with ⟨-, he⟩ | ⟨j, -, he, hhub⟩
  · rw [he]
    exact hl
  · rw [he]
    constructor
    case listed =>
      intro i
      refine Iff.trans ?_ (hl.listed i)
      change ((p.tell E j (.accept v)).stream i).hub.listed = false ↔ _
      by_cases hij : i = j
      · subst hij
        rw [hhub]
      · rw [stream_tell_ne hij]
    case done =>
      intro i
      refine Iff.trans ?_ (hl.done i)
      change ((p.tell E j (.accept v)).stream i).hub.done = true ↔ _
      by_cases hij : i = j
      · subst hij
        rw [hhub]
      · rw [stream_tell_ne hij]
    case attached =>
      intro i u hu
      have hu : ((p.tell E j (.accept v)).stream i).hub.handler u ≠ .idle := hu
      have hold : i ≠ j ∨ u ≠ v → (p.stream i).hub.handler u ≠ .idle := by
        intro hne
        by_cases hij : i = j
        · subst hij
          have hkeep : Function.update (p.stream i).hub.handler v .newClient u =
              (p.stream i).hub.handler u :=
            Function.update_of_ne (hne.resolve_left (absurd rfl)) ..
          rw [hhub] at hu
          exact fun hidle ↦ hu (hkeep.trans hidle)
        · rwa [stream_tell_ne hij] at hu
      by_cases huv : u = v
      · subst huv
        by_cases hij : i = j
        · subst hij
          exact Function.update_self ..
        · cases (hl.attached i u (hold (.inl hij))).symm.trans g.2.2
      · exact (Function.update_of_ne huv ..).trans (hl.attached i u (hold (.inr huv)))

theorem attached_websocket {v : V} {q : String} (g : p.guard RTPPort (.websocket v q)) :
    (p.effect E RTPPort (.websocket v q) g).attached v =
      p.world.server.websocketHandler RTPPort q := by
  rw [effect]
  cases p.world.server.websocketHandler RTPPort q with
  | none => exact g.2.2
  | some j => exact Function.update_self ..

/-- The run lemma. -/
theorem linked_of_reach (hr : (platform C T E RTPPort).Reach ok h p) : p.Linked := by
  refine hr.invariant_of (I := fun _ p ↦ p.Linked) (fun _ _ hr ↦ parts_of_reach hr) ?_ ?_
  · rintro _ rfl
    exact .new
  · rintro _ p a ⟨-, g⟩ hp - hl -
    cases a with
    | world a => exact hl.world hp g
    | stream i a => exact hl.stream g
    | websocket v port => exact hl.websocket hp g

/-! ## Streamers and viewers -/

/-- The stream of a connection that has not given it up is in the map. -/
theorem not_off_of_created (hr : (platform C T E RTPPort).Reach ok h p) {c : C}
    (hc : Created (toWorld h) c i) (hn : ¬ Handled (toWorld h) c) : ¬ p.world.server.Off i :=
  (parts_of_reach hr).server.not_off ((owned_of_reach (world_of_reach hr)).kept c i hc hn)

/-- **Viewers are led to the streamer they ask for.**  In every run of the platform: as long as the
request of a connection to delete its stream has not been handled, a viewer who asks with the number
of the port that the connection announced is led to the stream that was created for it, and from
then on nobody is. -/
theorem viewers_led (hr : (platform C T E RTPPort).Reach (platform C T E RTPPort).free h p) (c : C)
    (v : V) (q : String) (g : p.guard RTPPort (.websocket v q)) :
    (∀ port, .conn c (.replied [Ingest.announcement port]) ∈ toWorld h →
        ¬ Handled (toWorld h) c → decimal q = some (port.toNat : ℤ) →
        ∃ i, Created (toWorld h) c i ∧
          (p.effect E RTPPort (.websocket v q) g).attached v = some i) ∧
      (Handled (toWorld h) c → ∀ i, Created (toWorld h) c i →
        (p.effect E RTPPort (.websocket v q) g).attached v ≠ some i) := by
  have hw := world_of_reach hr
  have ho := owned_of_reach hw
  have hk := known_of_reach hw
  have hattached := attached_websocket (E := E) g
  refine ⟨fun port hm hn hq ↦ ?_, fun hh i hc ↦ ?_⟩
  · obtain ⟨i, hc, hport⟩ :=
      ho.port c port ((hk.conn c).announced port (mem_filterMap_ofConn.2 hm))
    refine ⟨i, hc, ?_⟩
    rw [hattached, websocketHandler_of_port (by rw [hq, hport])
      (ho.range i (hk.lt_of_created hc))]
    exact ho.kept c i hc hn
  · obtain ⟨port, found, hm⟩ := hh
    obtain ⟨j, rfl, hj⟩ := ho.removed c port found hm
    obtain rfl := ho.once c i j hc hj
    rw [hattached]
    intro hs
    refine hk.inv.not_off hs ?_
    exact (hubDone_of_removed (server_of_reach hw) (mem_filterMap_ofServer.2 hm)).imp_right
      fun hn ↦ ⟨_, hn⟩

/-- `New` succeeds, and a streamer is given the port `5004`. -/
def opening : List (Action ℕ ℕ ℕ) :=
  ((create .new 65535 65535 0).map System.Action.server ++ ask 0 5004 1).map .world

/-- A viewer asks with the port `5004`. -/
theorem viewers_led_ask :
    ∃ h p, ∃ g : Platform.guard 65535 p (.websocket 7 "5004"),
      (platform ℕ ℕ Signalling.ends 65535).Reach (platform ℕ ℕ Signalling.ends 65535).free h p ∧
        ∃ i, Created (toWorld h) 0 i ∧
          (p.effect Signalling.ends 65535 (.websocket 7 "5004") g).attached 7 = some i := by
  obtain ⟨h, p, hr, g, hm, hrem, hcmd⟩ := (platform ℕ ℕ Signalling.ends 65535).exists_of_exec
    (platform ℕ ℕ Signalling.ends 65535).free
    (fun h p ↦ p.guard 65535 (.websocket 7 "5004") ∧
      .conn 0 (.replied [Ingest.announcement 5004]) ∈ toWorld h ∧
      (p.world.server.call (.handler 0)).removed = false ∧
      (p.world.conn 0).command ≠ .returned) rfl
    opening (by decide +kernel)
  refine ⟨h, p, g, hr, (viewers_led hr 0 7 "5004" g).1 5004 hm (fun hh ↦ ?_) (decimal_repr 5004)⟩
  rcases (owned_of_reach (world_of_reach hr)).handled 0 hh with hh | hh
  · cases hrem.symm.trans hh
  · exact hcmd hh

/-- **Viewers are kept as long as their streamer is there.**  In every run of the platform: as long
as the command task of a connection has not come to `free_port` and not returned, a viewer of the
stream that was created for it is in `Clients` once it was inserted, its `Send` channel is open, and
so is its websocket unless its own `WriteLoop` has given up, or else its own `ReadLoop` has ended or
its own peer connection has reported a change. -/
theorem viewers_kept (hr : (platform C T E RTPPort).Reach (platform C T E RTPPort).free h p) {c : C}
    (hc : Created (toWorld h) c i) (hfree : ∀ port, (p.world.conn c).command ≠ .freePort port)
    (hret : (p.world.conn c).command ≠ .returned) (v : V) :
    ((.registered v ∈ Signalling.toHub (toStream i h) → v ∈ (p.stream i).hub.Clients) ∧
        (p.stream i).hub.sendClosed v = false ∧
        ((p.stream i).hub.connClosed v = true → (p.stream i).hub.writer v = .returned)) ∨
      (p.stream i).hub.Troubled v := by
  have hn := (owned_of_reach (world_of_reach hr)).not_handled_of_command hfree hret
  have hd : (p.stream i).hub.done = false := Bool.eq_false_iff.2 fun hd ↦
    not_off_of_created hr hc hn (.inl (((linked_of_reach hr).done i).1 hd))
  by_cases ht : (p.stream i).hub.Troubled v
  · exact .inr ht
  · exact .inl (kept_of_reach (Signalling.hub_of_reach_free (stream_of_reach hr i)) hd ht)

/-- A viewer asks for the stream of a streamer, and is taken in. -/
def watching : List (Action ℕ ℕ ℕ) :=
  opening ++ [.websocket 7 "5004"] ++
    ([Webrtc.Action.goWriteLoop 7, .register 7] ++ intake 7 1).map fun a ↦ .stream 1 (.hub a)

/-- A viewer that has just been taken in. -/
theorem viewers_kept_watching :
    ∃ h p, (platform ℕ ℕ Signalling.ends 65535).Reach
        (platform ℕ ℕ Signalling.ends 65535).free h p ∧
      Created (toWorld h) 0 1 ∧ 7 ∈ (p.stream 1).hub.Clients ∧
        (p.stream 1).hub.sendClosed 7 = false := by
  obtain ⟨h, p, hr, hc, hcmd, hreg, hhandler⟩ :=
    (platform ℕ ℕ Signalling.ends 65535).exists_of_exec (platform ℕ ℕ Signalling.ends 65535).free
    (fun h p ↦ .server (.created (.handler 0) 1) ∈ toWorld h ∧
      (p.world.conn 0).command = .recv ∧
      .registered 7 ∈ Signalling.toHub (toStream 1 h) ∧
      (p.stream 1).hub.handler 7 = .onICECandidate) rfl
    watching (by decide +kernel)
  have hcontrol := ((parts_of_reach hr).hub 1).control
  have ht : ¬ (p.stream 1).hub.Troubled 7 := hcontrol.not_troubled (by rw [hhandler]; decide)
  obtain ⟨hmem, hsend, -⟩ := (viewers_kept hr hc (by rw [hcmd]; exact nofun)
    (by rw [hcmd]; exact nofun) 7).resolve_right ht
  exact ⟨h, p, hr, hc, hmem hreg, hsend⟩

/-- **A streamer that has gone takes its stream along.**  In every run of the platform: once the
request of `free_port` has been answered, the hub of the stream that was created for the connection
is closed, and viewers can no longer be led to it. -/
theorem streamer_gone (hr : (platform C T E RTPPort).Reach (platform C T E RTPPort).free h p)
    {c : C} {port : UInt16} (he : .conn c (.freed port) ∈ toWorld h) :
    ∃ i, Created (toWorld h) c i ∧ (p.stream i).hub.done = true ∧
      (p.stream i).hub.listed = false := by
  obtain ⟨i, hc, hd⟩ := hubDone_of_freed (world_of_reach hr) he
  have hl := linked_of_reach hr
  exact ⟨i, hc, (hl.done i).2 hd, (hl.listed i).2 (.inl hd)⟩

/-- The streamer leaves, and its stream is deleted. -/
def closing : List (System.Action ℕ) :=
  [.conn 0 (.write (Ingest.announcement 5004) []), .conn 0 .writeEnd, .conn 0 .eof,
    .conn 0 .recvCommandNone, .delete 0 5004] ++
  (remove (.handler 0) 5004 1).map .server ++ [.freed 0 5004 .noContent]

/-- A streamer leaves, while a viewer is there. -/
theorem streamer_gone_watching :
    ∃ h p, (platform ℕ ℕ Signalling.ends 65535).Reach
        (platform ℕ ℕ Signalling.ends 65535).free h p ∧ 7 ∈ (p.stream 1).hub.Clients ∧
      ∃ i, Created (toWorld h) 0 i ∧ (p.stream i).hub.done = true ∧
        (p.stream i).hub.listed = false := by
  obtain ⟨h, p, hr, hmem, he⟩ :=
    (platform ℕ ℕ Signalling.ends 65535).exists_of_exec (platform ℕ ℕ Signalling.ends 65535).free
    (fun h p ↦ 7 ∈ (p.stream 1).hub.Clients ∧ .conn 0 (.freed 5004) ∈ toWorld h) rfl
    (watching ++ closing.map .world) (by decide +kernel)
  exact ⟨h, p, hr, hmem, streamer_gone hr he⟩

end Platform

end ITG.System
