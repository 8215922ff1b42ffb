import ITG.System.Ownership
import ITG.System.Signalling
import ITG.Webrtc.Server.Routing

/-!
# The platform

Streamers and viewers together: the connections with the server, and for every stream of the server
its hub with the viewers' websockets and pages.  A stream is known by the number of its socket,
which is also the number of its hub.  Three kinds of steps concern both sides: a viewer is led to a
stream by `websocketHandler`, which looks the port up under the server's lock; `deleteStream` takes
a stream out of the map, and with it the hub out of the reach of viewers; and it closes the hub.

A viewer asks until it is led to a stream.  The hub's goroutines may move before `createStream` has
started `Run`, which changes nothing for anybody: until the stream is in the map nobody is there,
and afterwards a `Run` that has not been started is one that does not move.

A run of the whole is a run of the world (`world_of_reach`) and, for every stream, one of the
stream's viewers (`stream_of_reach`), so what was proved about each of them holds here.
-/

universe u v w x

namespace ITG.System

open ITG.Lib ITG.Webrtc ITG.Frontend

namespace Signalling

variable {V : Type v} {T : Type w} {K D : Type x}

/-- The step is none that the server takes for the hub. -/
def Action.Own : Action V T → Prop
  | .hub (.accept _) | .hub .unlist | .hub .close => False
  | _ => True

instance : ∀ a : Action V T, Decidable a.Own := by
  intro a
  cases a with
  | hub a =>
      apply Webrtc.Action.casesOn
        (motive := fun a ↦ Decidable (Action.Own (.hub a : Action V T))) a <;>
        (intros; dsimp only [Action.Own]; infer_instance)
  | deliver c m | page c a | read c ok => exact .isTrue trivial

variable [DecidableEq V] [DecidableEq T]

/-- The server takes a step for the hub, if the hub can take it; `Linked` says that it always
can. -/
def tell (E : Ends V K D) (s : Signalling V T) (a : Webrtc.Action V) : Signalling V T :=
  if g : s.guard (.hub a) then s.effect E (.hub a) g else s

variable {E : Ends V K D} {s : Signalling V T} {a : Webrtc.Action V}

theorem tell_of_guard (g : s.guard (.hub a)) : s.tell E a = s.effect E (.hub a) g := dif_pos g

/-- The stream's viewers take the step, or stay as they are. -/
theorem tell_cases (E : Ends V K D) (s : Signalling V T) (a : Webrtc.Action V) :
    s.tell E a = s ∨ ∃ g : s.guard (.hub a), s.tell E a = s.effect E (.hub a) g := by
  by_cases g : s.guard (.hub a)
  · exact .inr ⟨g, tell_of_guard g⟩
  · exact .inl (dif_neg g)

/-- Nobody sees what the server does for the hub. -/
theorem emit_of_not_own (ha : ¬ (.hub a : Action V T).Own) : s.emit E (.hub a) = [] := by
  cases a
  case accept v | unlist | close => rfl
  all_goals exact absurd trivial ha

end Signalling

/-- The world, the viewers of each stream, and the stream that each viewer was led to. -/
structure Platform (C : Type u) (V : Type v) (T : Type w) where
  world : World C
  stream : ℕ → Signalling V T
  attached : V → Option ℕ
  /-- A goroutine of the server has panicked. -/
  panicked : Bool

namespace Platform

/-- What an observer of the whole sees. -/
inductive Event (C : Type u) (V : Type v) (K D : Type x) where
  | world (e : System.Event C)
  | stream (i : ℕ) (e : Signalling.Event V K D)
  /-- A viewer has asked for a websocket. -/
  | asked (v : V) (port : String) (found : Option ℕ)

/-- The steps of the whole. -/
inductive Action (C : Type u) (V : Type v) (T : Type w) where
  | world (a : System.Action C)
  | stream (i : ℕ) (a : Signalling.Action V T)
  /-- `websocketHandler` looks up the stream for the value of the query parameter `port`. -/
  | websocket (v : V) (port : String)

section Defs

variable {C : Type u} [DecidableEq C] {V : Type v} [DecidableEq V] {T : Type w} [DecidableEq T]
  {K D : Type x} (E : Ends V K D) (RTPPort : ℤ)

/-- `New` is about to open the socket of the configured port, and nobody is there. -/
def new : Platform C V T where
  world := ⟨fun _ ↦ .new, .new RTPPort⟩
  stream := fun _ ↦ .new
  attached := fun _ ↦ none
  panicked := false

/-- The step of a page is one of a viewer that was led to the stream. -/
def Attending (p : Platform C V T) (i : ℕ) : Signalling.Action V T → Prop
  | .page v _ => p.attached v = some i
  | _ => True

instance (p : Platform C V T) (i : ℕ) : ∀ a, Decidable (p.Attending i a) := by
  intro a
  cases a <;> (dsimp only [Attending]; infer_instance)

/-- When an action is enabled. -/
def guard (p : Platform C V T) : Action C V T → Prop
  | .world a => (System.world C RTPPort).guard p.world a
  | .stream i a => a.Own ∧ p.Attending i a ∧ (p.stream i).guard a
  | .websocket v _ =>
      (p.world.server.call .new).succeeded = true ∧ p.world.server.mu = none ∧ p.attached v = none

instance (p : Platform C V T) : ∀ a, Decidable (p.guard RTPPort a) := by
  intro a
  cases a <;> (dsimp only [guard]; infer_instance)

/-- What a step of `deleteStream` is for the hub of the stream. -/
def hubAction : System.Action C → Option (ℕ × Webrtc.Action V)
  | .server (.delete _ _ i) => some (i, .unlist)
  | .server (.doneClose _ i) => some (i, .close)
  | _ => none

/-- The server takes a step for the hub of a stream. -/
def tell (p : Platform C V T) (i : ℕ) (a : Webrtc.Action V) : Platform C V T :=
  { p with stream := Function.update p.stream i ((p.stream i).tell E a) }

/-- The state after an enabled action. -/
def effect (p : Platform C V T) : (a : Action C V T) → p.guard RTPPort a → Platform C V T
  | .world a, g =>
      let w := (System.world C RTPPort).effect p.world a g
      { (hubAction a).elim p fun x ↦ p.tell E x.1 x.2 with
        world := w
        panicked := w.server.panicked }
  | .stream i a, g =>
      let s := (p.stream i).effect E a g.2.2
      { p with
        stream := Function.update p.stream i s
        panicked := s.panicked || s.hub.panicked }
  | .websocket v port, _ =>
      (p.world.server.websocketHandler RTPPort port).elim p fun i ↦
        { p.tell E i (.accept v) with attached := Function.update p.attached v (some i) }

/-- The events of an action. -/
def emit (p : Platform C V T) : Action C V T → List (Event C V K D)
  | .world a => ((System.world C RTPPort).emit p.world a).map .world
  | .stream i a => ((p.stream i).emit E a).map (.stream i)
  | .websocket v port => [.asked v port (p.world.server.websocketHandler RTPPort port)]

end Defs

end Platform

/-- The platform as a transition system, until the server panics. -/
def platform (C : Type u) [DecidableEq C] {V : Type v} [DecidableEq V] (T : Type w) [DecidableEq T]
    {K D : Type x} (E : Ends V K D) (RTPPort : ℤ) :
    Machine (Platform C V T) (Platform.Action C V T) (Platform.Event C V K D) where
  init p := p = .new RTPPort
  guard p a := p.panicked = false ∧ p.guard RTPPort a
  effect p a g := p.effect E RTPPort a g.2
  emit p a := p.emit E RTPPort a

instance {C : Type u} [DecidableEq C] {V : Type v} [DecidableEq V] {T : Type w} [DecidableEq T]
    {K D : Type x} (E : Ends V K D) (RTPPort : ℤ) :
    ∀ p a, Decidable ((platform C T E RTPPort).guard p a) :=
  fun p a ↦ inferInstanceAs (Decidable (p.panicked = false ∧ p.guard RTPPort a))

namespace Platform

/-! ## The platform as its parts see it -/

section Views

variable {C : Type u} {V : Type v} {K D : Type x}

/-- The event of the world. -/
def Event.world? : Event C V K D → Option (System.Event C)
  | .world e => some e
  | _ => none

/-- The event of one stream's viewers. -/
def Event.stream? (i : ℕ) : Event C V K D → Option (Signalling.Event V K D)
  | .stream j e => if j = i then some e else none
  | _ => none

/-- What the world sees. -/
def toWorld (h : List (Event C V K D)) : List (System.Event C) := h.filterMap Event.world?

/-- What the viewers of a stream see. -/
def toStream (i : ℕ) (h : List (Event C V K D)) : List (Signalling.Event V K D) :=
  h.filterMap (Event.stream? i)

theorem toWorld_map_world (es : List (System.Event C)) :
    toWorld (es.map .world : List (Event C V K D)) = es := by
  simp [toWorld, List.filterMap_map, Function.comp_def, Event.world?]

theorem toWorld_map_stream (j : ℕ) (es : List (Signalling.Event V K D)) :
    toWorld (es.map (.stream j) : List (Event C V K D)) = [] := by
  simp [toWorld, List.filterMap_map, Function.comp_def, Event.world?]

theorem toStream_map_world (i : ℕ) (es : List (System.Event C)) :
    toStream i (es.map .world : List (Event C V K D)) = [] := by
  simp [toStream, List.filterMap_map, Function.comp_def, Event.stream?]

theorem toStream_map_self (i : ℕ) (es : List (Signalling.Event V K D)) :
    toStream i (es.map (.stream i) : List (Event C V K D)) = es := by
  simp [toStream, List.filterMap_map, Function.comp_def, Event.stream?]

theorem toStream_map_of_ne {i j : ℕ} (hj : j ≠ i) (es : List (Signalling.Event V K D)) :
    toStream i (es.map (.stream j) : List (Event C V K D)) = [] := by
  simp [toStream, List.filterMap_map, Function.comp_def, Event.stream?, hj]

end Views

section Runs

variable {C : Type u} [DecidableEq C] {V : Type v} [DecidableEq V] {T : Type w} [DecidableEq T]
  {K D : Type x} {E : Ends V K D} {RTPPort : ℤ} {h : List (Event C V K D)} {p : Platform C V T}
  {ok : Platform C V T → Action C V T → Prop}

omit [DecidableEq C] in
theorem tell_stream (i j : ℕ) (b : Webrtc.Action V) :
    (p.tell E j b).stream i = if i = j then (p.stream i).tell E b else p.stream i := by
  by_cases hij : i = j
  · subst hij
    rw [if_pos rfl]
    exact Function.update_self ..
  · rw [if_neg hij]
    exact Function.update_of_ne hij ..

/-- Only the world moves the world. -/
theorem world_effect_websocket (v : V) (port : String) (g : p.guard RTPPort (.websocket v port)) :
    (p.effect E RTPPort (.websocket v port) g).world = p.world := by
  rw [effect]
  cases p.world.server.websocketHandler RTPPort port <;> rfl

/-- The world runs by itself. -/
theorem world_simulation :
    Simulation (platform C T E RTPPort) ok (System.world C RTPPort) (System.world C RTPPort).free
      (fun p w ↦ p.world = w) Event.world? where
  init := by
    rintro _ rfl
    exact ⟨_, rfl, rfl⟩
  step := by
    rintro p _ a ⟨-, g⟩ rfl -
    cases a with
    | world a => exact .inr ⟨a, trivial, g, rfl, toWorld_map_world _⟩
    | stream i a => exact .inl ⟨rfl, toWorld_map_stream i _⟩
    | websocket v port => exact .inl ⟨world_effect_websocket v port g, rfl⟩

omit [DecidableEq C] in
/-- What the server does for a hub: nothing, a step of the stream's viewers that nobody sees, or
something for another stream. -/
theorem tell_simulated {okS : Signalling V T → Signalling.Action V T → Prop} (i j : ℕ)
    {b : Webrtc.Action V} (hb : ¬ (.hub b : Signalling.Action V T).Own)
    (hok : okS (p.stream i) (.hub b)) :
    (p.tell E j b).stream i = p.stream i ∨ ∃ b', okS (p.stream i) b' ∧
      ∃ g : (signalling T E).guard (p.stream i) b',
        (p.tell E j b).stream i = (signalling T E).effect (p.stream i) b' g ∧
        (signalling T E).emit (p.stream i) b' = [] := by
  rw [tell_stream]
  split
  · rcases Signalling.tell_cases E (p.stream i) b with he | ⟨g, he⟩
    · exact .inl he
    · exact .inr ⟨.hub b, hok, g, he, Signalling.emit_of_not_own (E := E) hb⟩
  · exact .inl rfl

omit [DecidableEq C] [DecidableEq V] in
/-- What the server does for a hub. -/
theorem eq_of_hubAction {a : System.Action C} {i : ℕ} {b : Webrtc.Action V}
    (ha : hubAction a = some (i, b)) :
    (∃ k port, a = .server (.delete k port i)) ∧ b = .unlist ∨
      (∃ k, a = .server (.doneClose k i)) ∧ b = .close := by
  cases a with
  | server a =>
      cases a
      case delete k port j =>
          cases ha
          exact .inl ⟨⟨k, port, rfl⟩, rfl⟩
      case doneClose k j =>
          cases ha
          exact .inr ⟨⟨k, rfl⟩, rfl⟩
      all_goals cases ha
  | conn c a | post c | allocated c r | delete c port | freed c port r => cases ha

omit [DecidableEq C] [DecidableEq V] [DecidableEq T] in
theorem not_own_of_hubAction {a : System.Action C} {i : ℕ} {b : Webrtc.Action V}
    (ha : hubAction a = some (i, b)) : ¬ (.hub b : Signalling.Action V T).Own := by
  rcases eq_of_hubAction ha with ⟨-, rfl⟩ | ⟨-, rfl⟩ <;> exact id

/-- The viewers of a stream run by themselves. -/
theorem stream_simulation {okS : Signalling V T → Signalling.Action V T → Prop} (i : ℕ)
    (hok : ∀ p a, ok p (.stream i a) → okS (p.stream i) a)
    (htold : ∀ s b, ¬ (.hub b : Signalling.Action V T).Own → okS s (.hub b)) :
    Simulation (platform C T E RTPPort) ok (signalling T E) okS (fun p s ↦ p.stream i = s)
      (Event.stream? i) where
  init := by
    rintro _ rfl
    exact ⟨_, rfl, rfl⟩
  step := by
    rintro p _ a ⟨-, g⟩ rfl ha
    cases a with
    | world a =>
        have hemit : toStream i (p.emit E RTPPort (.world a)) = [] := toStream_map_world i _
        cases hb : hubAction (V := V) a with
        | none =>
            refine .inl ⟨?_, hemit⟩
            change (p.effect E RTPPort (.world a) g).stream i = _
            rw [effect, hb]
            rfl
        | some x =>
            obtain ⟨j, b⟩ := x
            have hstream :
                (p.effect E RTPPort (.world a) g).stream i = (p.tell E j b).stream i := by
              rw [effect, hb]
              rfl
            rcases tell_simulated (E := E) i j (not_own_of_hubAction hb)
              (htold _ b (not_own_of_hubAction hb)) with he | ⟨b', hok', g', he, hemit'⟩
            · exact .inl ⟨hstream.trans he, hemit⟩
            · exact .inr ⟨b', hok', g', hstream.trans he, hemit.trans hemit'.symm⟩
    | stream j a =>
        by_cases hj : j = i
        · subst hj
          exact .inr ⟨a, hok p a ha, g.2.2, Function.update_self .., toStream_map_self j _⟩
        · exact .inl ⟨Function.update_of_ne (Ne.symm hj) .., toStream_map_of_ne hj _⟩
    | websocket v port =>
        cases hf : p.world.server.websocketHandler RTPPort port with
        | none =>
            refine .inl ⟨?_, rfl⟩
            change (p.effect E RTPPort (.websocket v port) g).stream i = _
            rw [effect, hf]
            rfl
        | some j =>
            have hstream : (p.effect E RTPPort (.websocket v port) g).stream i =
                (p.tell E j (.accept v)).stream i := by
              rw [effect, hf]
              rfl
            rcases tell_simulated (E := E) (p := p) (b := .accept v) i j id (htold _ _ id) with
              he | ⟨b', hok', g', he, hemit'⟩
            · exact .inl ⟨hstream.trans he, rfl⟩
            · exact .inr ⟨b', hok', g', hstream.trans he, hemit'.symm⟩

/-- A run of the platform is a run of the world. -/
theorem world_of_reach (hr : (platform C T E RTPPort).Reach ok h p) :
    (System.world C RTPPort).Reach (System.world C RTPPort).free (toWorld h) p.world := by
  obtain ⟨_, ht, rfl⟩ := world_simulation.reach hr
  exact ht

/-- A run of the platform is, for every stream, a run of its viewers. -/
theorem stream_of_reach (hr : (platform C T E RTPPort).Reach ok h p) (i : ℕ) :
    (signalling T E).Reach (signalling T E).free (toStream i h) (p.stream i) := by
  have hsim : Simulation (platform C T E RTPPort) ok (signalling T E) (signalling T E).free
      (fun p s ↦ p.stream i = s) (Event.stream? i) :=
    stream_simulation i (fun _ _ _ ↦ trivial) fun _ _ _ ↦ trivial
  obtain ⟨_, ht, rfl⟩ := hsim.reach hr
  exact ht

end Runs

end Platform

end ITG.System
