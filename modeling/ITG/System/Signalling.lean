import ITG.Frontend.App
import ITG.Lib.Utf8
import ITG.Webrtc.Hub.Delivery
import ITG.Webrtc.Messages

/-!
# The viewers of a stream and their pages

A hub with, for each of its clients, the websocket between `WriteLoop` and `ReadLoop` on one side
and the page on the other.  A websocket keeps texts in order in both directions; it may stop
carrying them at any time, which here means that the rest is never received.

A run of the whole is, seen from the hub, one of its own runs (`hub_of_reach`).  What it adds is
what the ends of the websockets make of each other's texts: a page shows and passes on what its
client's `WriteLoop` has written, in that order (`page_follows`), and `ReadLoop` handles what the
page has sent, in that order, with nothing left over from one text to the next (`server_follows`).

Each client has a page of its own, which has had no websocket before.  A page whose websocket is
renewed keeps its peer connection and is a new client of the hub; such pages are left out.
-/

universe u v w

namespace ITG.System

open ITG.Lib ITG.Webrtc ITG.Frontend

/-- `maxMessageSize`. -/
def maxMessageSize : ℕ := 4096

/-- What is left open of both ends: the payloads and the decoding of pion, and the numbers of
JavaScript. -/
structure Ends (C : Type u) (K D : Type w) where
  payload : Payload C
  pion : Pion K D
  engine : Engine

/-- The hub, and for each of its clients the texts on their way and the page. -/
structure Signalling (C : Type u) (T : Type v) where
  hub : Hub C
  /-- The messages whose texts have been written and not yet been received. -/
  down : C → List Message
  /-- The page whose first websocket is that of the client. -/
  page : C → App T
  /-- The events and the data of the texts that have been sent and not yet been read. -/
  up : C → List (String × Json.Object)
  loop : C → ReadLoop
  /-- A `ReadLoop` has panicked. -/
  panicked : Bool

namespace Signalling

/-- What an observer of the whole sees. -/
inductive Event (C : Type u) (K D : Type w) where
  | hub (e : Webrtc.Event C)
  /-- `WriteLoop` has written the message. -/
  | wrote (c : C) (m : Message)
  /-- The page has received its text. -/
  | shown (c : C) (m : Message)
  | page (c : C) (e : App.Event)
  /-- `ReadLoop` has read a text of the page. -/
  | read (c : C) (x : String × Json.Object)
  | server (c : C) (r : Reaction K D)

/-- The steps of the whole. -/
inductive Action (C : Type u) (T : Type v) where
  | hub (a : Webrtc.Action C)
  /-- The page receives a text. -/
  | deliver (c : C) (m : Message)
  /-- The page does something else. -/
  | page (c : C) (a : App.Action T)
  /-- `ReadLoop` reads a text, and the call of pion, if there is one, succeeds or not. -/
  | read (c : C) (ok : Bool)

/-- The text of what a page sends. -/
def text (x : String × Json.Object) : List Char := App.stringify x.1 x.2.json

/-- `ReadMessage` accepts the text. -/
def fits (x : String × Json.Object) : Bool :=
  decide ((Utf8.encode (text x)).length ≤ maxMessageSize)

section Defs

variable {C : Type u} [DecidableEq C] {T : Type v} [DecidableEq T] {K D : Type w}

/-- No viewer yet. -/
def new : Signalling C T where
  hub := .new
  down := fun _ ↦ []
  page := fun _ ↦ .new
  up := fun _ ↦ []
  loop := fun _ ↦ .new
  panicked := false

/-- When an action is enabled. -/
def guard (s : Signalling C T) : Action C T → Prop
  | .hub a => s.panicked = false ∧ (Webrtc.hub C).guard s.hub a
  | .deliver c m => (s.down c).head? = some m
  | .page c a => a.isMessage = false ∧ (s.page c).guard a
  | .read c _ => s.panicked = false ∧ s.hub.handler c = .reading ∧ (s.loop c).loc = .reading ∧
      (s.up c).head?.any fits = true

instance (s : Signalling C T) : ∀ a, Decidable (s.guard a) := by
  intro a
  apply Action.casesOn (motive := fun a ↦ Decidable (s.guard a)) a <;>
    (intros; dsimp only [guard]; infer_instance)

/-- A step of a page. -/
def stepPage (js : Engine) (s : Signalling C T) (c : C) (a : App.Action T) : Signalling C T :=
  { s with
    page := Function.update s.page c ((s.page c).effect js a)
    up := Function.update s.up c (s.up c ++ ((s.page c).emit js a).filterMap App.Event.sent?) }

/-- `ReadLoop` reads this text. -/
def stepLoop (p : Pion K D) (s : Signalling C T) (c : C) (ok : Bool) (x : String × Json.Object) :
    Signalling C T :=
  let loop := (s.loop c).effect p (.message (Json.parse (text x)) ok)
  { s with
    up := Function.update s.up c (s.up c).tail
    loop := Function.update s.loop c loop
    panicked := decide (loop.loc = .panicked) }

variable (E : Ends C K D)

/-- The state after an enabled action. -/
def effect (s : Signalling C T) : (a : Action C T) → s.guard a → Signalling C T
  | .hub a, g =>
      { s with
        hub := (Webrtc.hub C).effect s.hub a g.2
        down := fun c ↦ s.down c ++ a.written c }
  | .deliver c m, _ =>
      { s.stepPage E.engine c (.message (m.text E.payload c)) with
        down := Function.update s.down c (s.down c).tail }
  | .page c a, _ => s.stepPage E.engine c a
  | .read c ok, _ => (s.up c).head?.elim s (s.stepLoop E.pion c ok)

/-- The message that the hub's step writes, with its client. -/
def wrote? : Webrtc.Action C → Option (C × Message)
  | .writeOk c m => some (c, m)
  | _ => none

/-- The events of an action. -/
def emit (s : Signalling C T) : Action C T → List (Event C K D)
  | .hub a =>
      ((Webrtc.hub C).emit s.hub a).map .hub ++ ((wrote? a).map fun x ↦ .wrote x.1 x.2).toList
  | .deliver c m =>
      .shown c m :: ((s.page c).emit E.engine (.message (m.text E.payload c))).map (.page c)
  | .page c a => ((s.page c).emit E.engine a).map (.page c)
  | .read c _ =>
      (s.up c).head?.elim [] fun x ↦
        [.read c x, .server c (E.pion.react (s.loop c).message (Json.parse (text x)))]

section Frame

variable (js : Engine) (s : Signalling C T) {c d : C} (a : App.Action T)

@[simp] theorem stepPage_page : (s.stepPage js c a).page c = (s.page c).effect js a :=
  Function.update_self ..
@[simp] theorem stepPage_up :
    (s.stepPage js c a).up c = s.up c ++ ((s.page c).emit js a).filterMap App.Event.sent? :=
  Function.update_self ..

theorem stepPage_page_ne (h : c ≠ d) : (s.stepPage js c a).page d = s.page d :=
  Function.update_of_ne h.symm ..
theorem stepPage_up_ne (h : c ≠ d) : (s.stepPage js c a).up d = s.up d :=
  Function.update_of_ne h.symm ..

variable (p : Pion K D) (ok : Bool) (x : String × Json.Object)

omit [DecidableEq T] in
@[simp] theorem stepLoop_up : (s.stepLoop p c ok x).up c = (s.up c).tail :=
  Function.update_self ..
omit [DecidableEq T] in
@[simp] theorem stepLoop_loop :
    (s.stepLoop p c ok x).loop c = (s.loop c).effect p (.message (Json.parse (text x)) ok) :=
  Function.update_self ..

end Frame

end Defs

end Signalling

/-- The whole as a transition system. -/
def signalling {C : Type u} [DecidableEq C] (T : Type v) [DecidableEq T] {K D : Type w}
    (E : Ends C K D) :
    Machine (Signalling C T) (Signalling.Action C T) (Signalling.Event C K D) where
  init s := s = .new
  guard s a := s.guard a
  effect s a g := s.effect E a g
  emit s a := s.emit E a

instance {C : Type u} [DecidableEq C] {T : Type v} [DecidableEq T] {K D : Type w} (E : Ends C K D) :
    ∀ s a, Decidable ((signalling T E).guard s a) :=
  fun s a ↦ inferInstanceAs (Decidable (s.guard a))

namespace Signalling

section History

variable {C : Type u} {K D : Type w}

/-! ## Histories -/

/-- The event of the hub. -/
def Event.hub? : Event C K D → Option (Webrtc.Event C)
  | .hub e => some e
  | _ => none

/-- What the hub sees. -/
def toHub (h : List (Event C K D)) : List (Webrtc.Event C) := h.filterMap Event.hub?

@[simp] theorem toHub_append (h k : List (Event C K D)) : toHub (h ++ k) = toHub h ++ toHub k :=
  List.filterMap_append

variable [DecidableEq C] (c : C)

def Event.wrote? : Event C K D → Option Message
  | .wrote d m => if d = c then some m else none
  | _ => none

/-- The messages that the client's `WriteLoop` has written. -/
def wrote (h : List (Event C K D)) : List Message := h.filterMap (Event.wrote? c)

def Event.shown? : Event C K D → Option Message
  | .shown d m => if d = c then some m else none
  | _ => none

/-- The messages whose texts its page has received. -/
def shown (h : List (Event C K D)) : List Message := h.filterMap (Event.shown? c)

def Event.page? : Event C K D → Option App.Event
  | .page d e => if d = c then some e else none
  | _ => none

/-- What its page has done. -/
def onPage (h : List (Event C K D)) : List App.Event := h.filterMap (Event.page? c)

def Event.read? : Event C K D → Option (String × Json.Object)
  | .read d x => if d = c then some x else none
  | _ => none

/-- What its `ReadLoop` has read. -/
def readBy (h : List (Event C K D)) : List (String × Json.Object) := h.filterMap (Event.read? c)

def Event.server? : Event C K D → Option (Reaction K D)
  | .server d r => if d = c then some r else none
  | _ => none

/-- What its `ReadLoop` has done. -/
def reactions (h : List (Event C K D)) : List (Reaction K D) := h.filterMap (Event.server? c)

variable (h k : List (Event C K D))

@[simp] theorem wrote_append : wrote c (h ++ k) = wrote c h ++ wrote c k := List.filterMap_append
@[simp] theorem shown_append : shown c (h ++ k) = shown c h ++ shown c k := List.filterMap_append
@[simp] theorem onPage_append : onPage c (h ++ k) = onPage c h ++ onPage c k :=
  List.filterMap_append
@[simp] theorem readBy_append : readBy c (h ++ k) = readBy c h ++ readBy c k :=
  List.filterMap_append
@[simp] theorem reactions_append : reactions c (h ++ k) = reactions c h ++ reactions c k :=
  List.filterMap_append

end History

section Steps

variable {C : Type u} [DecidableEq C] {T : Type v} [DecidableEq T] {K D : Type w} {E : Ends C K D}
  {s : Signalling C T} {h : List (Event C K D)} {c : C}

/-! ## What one step adds -/

theorem toHub_emit_hub (a : Webrtc.Action C) : toHub (s.emit E (.hub a)) = s.hub.emit a := by
  have hmap : toHub ((s.hub.emit a).map (.hub : _ → Event C K D)) = s.hub.emit a := by
    rw [toHub, List.filterMap_map]
    exact List.filterMap_some
  have hwrote :
      toHub (((wrote? a).map fun x ↦ Event.wrote (K := K) (D := D) x.1 x.2).toList) = [] := by
    cases wrote? a <;> rfl
  rw [emit, toHub_append, hwrote, List.append_nil]
  exact hmap

theorem wrote_emit_hub (a : Webrtc.Action C) : wrote c (s.emit E (.hub a)) = a.written c := by
  have hmap : wrote c ((s.hub.emit a).map (.hub : _ → Event C K D)) = [] := by
    simp [wrote, Event.wrote?]
  rw [emit, wrote_append]
  refine (congrArg (· ++ _) hmap).trans ?_
  cases a
  case writeOk d m => by_cases hd : d = c <;> simp [wrote, wrote?, Event.wrote?, Action.written, hd]
  all_goals rfl

theorem onPage_map (d : C) (es : List App.Event) :
    onPage c (es.map (.page d) : List (Event C K D)) = if d = c then es else [] := by
  rw [onPage, List.filterMap_map]
  by_cases hd : d = c
  · subst hd
    rw [if_pos rfl]
    exact (congrArg (List.filterMap · es) (funext fun e ↦ if_pos rfl)).trans List.filterMap_some
  · simp [Event.page?, Function.comp_def, hd]

/-- A step of the hub is no step of the ends of the websockets. -/
theorem emit_hub (a : Webrtc.Action C) : shown c (s.emit E (.hub a)) = [] ∧
    onPage c (s.emit E (.hub a)) = [] ∧ readBy c (s.emit E (.hub a)) = [] ∧
    reactions c (s.emit E (.hub a)) = [] := by
  refine ⟨?_, ?_, ?_, ?_⟩ <;> cases hw : wrote? a <;>
    simp [emit, hw, shown, onPage, readBy, reactions, Event.shown?, Event.page?, Event.read?,
      Event.server?]

/-- Nor is a step of a page one of the hub or of `ReadLoop`. -/
theorem emit_map (d : C) (es : List App.Event) :
    toHub (es.map (.page d) : List (Event C K D)) = [] ∧
      wrote c (es.map (.page d) : List (Event C K D)) = [] ∧
      shown c (es.map (.page d) : List (Event C K D)) = [] ∧
      readBy c (es.map (.page d) : List (Event C K D)) = [] ∧
      reactions c (es.map (.page d) : List (Event C K D)) = [] := by
  refine ⟨?_, ?_, ?_, ?_, ?_⟩ <;>
    simp [toHub, wrote, shown, readBy, reactions, Event.hub?, Event.wrote?, Event.shown?,
      Event.read?, Event.server?]

/-- What `ReadLoop` reads, and what it does with it. -/
theorem read_cases {ok : Bool} (g : s.guard (.read c ok)) : ∃ x xs, s.up c = x :: xs ∧
    s.effect E (.read c ok) g = s.stepLoop E.pion c ok x ∧
    s.emit E (.read c ok) =
      [.read c x, .server c (E.pion.react (s.loop c).message (Json.parse (text x)))] := by
  cases hup : s.up c with
  | nil =>
      have hany := g.2.2.2
      rw [hup] at hany
      cases hany
  | cons x xs =>
      refine ⟨x, xs, rfl, ?_, ?_⟩
      · rw [effect, hup]
        rfl
      · rw [emit, hup]
        rfl

/-- The hub runs by itself. -/
theorem hub_simulation {ok : Signalling C T → Action C T → Prop}
    {okH : Hub C → Webrtc.Action C → Prop} (hok : ∀ s a, ok s (.hub a) → okH s.hub a) :
    Simulation (signalling T E) ok (Webrtc.hub C) okH (fun s t ↦ s.hub = t) Event.hub? where
  init := by
    rintro _ rfl
    exact ⟨.new, rfl, rfl⟩
  step := by
    rintro s _ a g rfl ha
    cases a with
    | hub a => exact .inr ⟨a, hok s a ha, g.2, rfl, toHub_emit_hub (E := E) a⟩
    | deliver d m => exact .inl ⟨rfl, (emit_map (c := d) d _).1⟩
    | page d a => exact .inl ⟨rfl, (emit_map (c := d) d _).1⟩
    | read d ok =>
        obtain ⟨x, xs, -, heffect, hemit⟩ := read_cases (E := E) g
        have hhub : (s.effect E (.read d ok) g).hub = s.hub := by
          rw [heffect]
          rfl
        exact .inl ⟨hhub, congrArg toHub hemit⟩

end Steps

section Reach

variable {C : Type u} [DecidableEq C] {T : Type v} [DecidableEq T] {K D : Type w} {E : Ends C K D}
  {s : Signalling C T} {h : List (Event C K D)} {c : C} {ok : Signalling C T → Action C T → Prop}

/-- A run of the whole is a run of the hub. -/
theorem hub_of_reach {okH : Hub C → Webrtc.Action C → Prop}
    (hok : ∀ s a, ok s (.hub a) → okH s.hub a) (hr : (signalling T E).Reach ok h s) :
    (Webrtc.hub C).Reach okH (toHub h) s.hub := by
  obtain ⟨_, ht, rfl⟩ := (hub_simulation hok).reach hr
  exact ht

/-- Without a condition on its steps. -/
theorem hub_of_reach_free (hr : (signalling T E).Reach ok h s) :
    (Webrtc.hub C).Reach (Webrtc.hub C).free (toHub h) s.hub :=
  hub_of_reach (fun _ _ _ ↦ trivial) hr

/-! ## The page -/

/-- The calls that a message leads to. -/
def calls (p : Payload C) (c : C) : Message → List App.Event
  | .offer => [.setRemoteDescription (p.offer c).json, .createAnswer]
  | .candidate i => [.addIceCandidate (p.candidate c i).json]
  | .info _ => []

/-- What is shown for a count. -/
def number (n : ℕ) : Json := .num n.repr

omit [DecidableEq C] in
/-- What a page does with the text of a message. -/
theorem onmessage_text (js : Engine) (t : App T) (p : Payload C) (c : C) (m : Message) :
    (t.onmessage js (m.text p c)).2 = calls p c m ∧
      (t.onmessage js (m.text p c)).1.state.viewers =
        (m.count?.map number).or t.state.viewers := by
  rw [App.onmessage_of_parse js t (m.parse_text p c) rfl]
  cases m with
  | offer | candidate i => exact ⟨rfl, rfl⟩
  | info n =>
      refine ⟨rfl, ?_⟩
      simp [App.handle, App.dispatch, appReducer, Message.event, Message.data, Message.count?,
        messageTypeInfo, Info.json, Json.Object.json, Json.get, number]

/-- How the page of a client follows its `WriteLoop`. -/
structure Follows (E : Ends C K D) (h : List (Event C K D)) (s : Signalling C T) (c : C) :
    Prop where
  fifo : wrote c h = shown c h ++ s.down c
  /-- Until `WriteLoop` returns, nothing is lost. -/
  exact : s.hub.writer c ≠ .returned → taken c (toHub h) = wrote c h ++ (s.hub.writer c).held
  isPrefix : wrote c h <+: taken c (toHub h)
  calls : (onPage c h).filter App.Event.isCall = (shown c h).flatMap (calls E.payload c)
  viewers : (s.page c).state.viewers =
    ((shown c h).filterMap Message.count?).getLast?.map number

omit [DecidableEq T] in
theorem Follows.new : Follows E [] (new : Signalling C T) c where
  fifo := rfl
  exact _ := rfl
  isPrefix := List.prefix_rfl
  calls := rfl
  viewers := rfl

/-- A step of the hub. -/
theorem Follows.hub (hf : Follows E h s c) (hi : s.hub.Inv) (a : Webrtc.Action C)
    (g : s.guard (.hub a)) : Follows E (h ++ s.emit E (.hub a)) (s.effect E (.hub a) g) c := by
  obtain ⟨hshown, hpage, -, -⟩ := emit_hub (E := E) (s := s) (c := c) a
  have hwrote : wrote c (s.emit E (.hub a)) = a.written c := wrote_emit_hub a
  have htoHub : toHub (s.emit E (.hub a)) = s.hub.emit a := toHub_emit_hub a
  constructor
  case fifo =>
    rw [wrote_append, shown_append, hwrote, hshown, List.append_nil, hf.fifo, List.append_assoc]
    rfl
  case exact =>
    intro hw
    have hw' : s.hub.writer c ≠ .returned := fun hret ↦ hw (hi.writer_returned g.2.2 hret)
    rw [wrote_append, toHub_append, taken_append, hwrote, htoHub, hf.exact hw', List.append_assoc,
      hi.taken_step g.2.2 hw, List.append_assoc]
    rfl
  case isPrefix =>
    rw [wrote_append, toHub_append, taken_append, hwrote, htoHub]
    by_cases hw : (s.hub.effect a g.2.2).writer c = .returned
    · obtain ⟨ht, hn⟩ := hi.taken_of_returned g.2.2 hw
      rw [ht, hn, List.append_nil, List.append_nil]
      exact hf.isPrefix
    · have hw' : s.hub.writer c ≠ .returned := fun hret ↦ hw (hi.writer_returned g.2.2 hret)
      rw [hf.exact hw', List.append_assoc, hi.taken_step g.2.2 hw, ← List.append_assoc]
      exact List.prefix_append _ _
  case calls =>
    rw [onPage_append, shown_append, hpage, hshown, List.append_nil, List.append_nil]
    exact hf.calls
  case viewers =>
    rw [shown_append, hshown, List.append_nil]
    exact hf.viewers

omit [DecidableEq T] in
/-- A step that has nothing to do with what the page of this client is told. -/
theorem Follows.of_quiet (hf : Follows E h s c) {t : Signalling C T} {k : List (Event C K D)}
    (htoHub : toHub k = []) (hwrote : wrote c k = []) (hshown : shown c k = [])
    (hcalls : (onPage c k).filter App.Event.isCall = []) (hhub : t.hub = s.hub)
    (hdown : t.down c = s.down c)
    (hviewers : (t.page c).state.viewers = (s.page c).state.viewers) :
    Follows E (h ++ k) t c where
  fifo := by
    rw [wrote_append, shown_append, hwrote, hshown, hdown, List.append_nil, List.append_nil]
    exact hf.fifo
  exact := by
    rw [wrote_append, toHub_append, hwrote, htoHub, hhub, List.append_nil, List.append_nil]
    exact hf.exact
  isPrefix := by
    rw [wrote_append, toHub_append, hwrote, htoHub, List.append_nil, List.append_nil]
    exact hf.isPrefix
  calls := by
    rw [onPage_append, shown_append, List.filter_append, hcalls, hshown, List.append_nil,
      List.append_nil]
    exact hf.calls
  viewers := by
    rw [shown_append, hshown, List.append_nil, hviewers]
    exact hf.viewers

theorem emit_deliver_eq (d : C) (m : Message) :
    s.emit E (.deliver d m) = [.shown d m] ++ (calls E.payload d m).map (.page d) := by
  rw [← (onmessage_text E.engine (s.page d) E.payload d m).1]
  rfl

/-- What the receipt of a text adds. -/
theorem emit_deliver (d : C) (m : Message) :
    toHub (s.emit E (.deliver d m)) = [] ∧ wrote c (s.emit E (.deliver d m)) = [] ∧
      shown c (s.emit E (.deliver d m)) = (if d = c then [m] else []) ∧
      onPage c (s.emit E (.deliver d m)) = if d = c then calls E.payload d m else [] := by
  have hone : shown c [(.shown d m : Event C K D)] = if d = c then [m] else [] := by
    by_cases hd : d = c <;> simp [shown, Event.shown?, hd]
  obtain ⟨htoHub, hwrote, hshown, -, -⟩ :=
    emit_map (K := K) (D := D) (c := c) d (calls E.payload d m)
  rw [emit_deliver_eq]
  refine ⟨htoHub, hwrote, ?_, onPage_map (K := K) (D := D) d _⟩
  rw [shown_append, hone, hshown, List.append_nil]

/-- The receipt of a text sends nothing. -/
theorem up_deliver (d : C) (m : Message) (g : s.guard (.deliver d m)) :
    (s.effect E (.deliver d m) g).up c = s.up c := by
  by_cases hd : d = c
  · subst hd
    have hnone : (calls E.payload d m).filterMap App.Event.sent? = [] := by cases m <;> rfl
    have hemit : (s.page d).emit E.engine (.message (m.text E.payload d)) = _ :=
      (onmessage_text E.engine (s.page d) E.payload d m).1
    refine (stepPage_up ..).trans ?_
    rw [hemit, hnone, List.append_nil]
  · exact stepPage_up_ne _ _ _ hd

/-- The page receives a text. -/
theorem Follows.deliver (hf : Follows E h s c) (d : C) (m : Message)
    (g : s.guard (.deliver d m)) :
    Follows E (h ++ s.emit E (.deliver d m)) (s.effect E (.deliver d m) g) c := by
  obtain ⟨htoHub, hwrote, hshown, hpage⟩ := emit_deliver (E := E) (s := s) (c := c) d m
  by_cases hd : d = c
  · subst hd
    rw [if_pos rfl] at hshown hpage
    constructor
    case fifo =>
      have hdown : s.down d = m :: (s.down d).tail := (List.cons_head?_tail g).symm
      rw [wrote_append, shown_append, hwrote, hshown, hf.fifo, hdown]
      simp [effect]
    case exact =>
      rw [wrote_append, toHub_append, hwrote, htoHub, List.append_nil, List.append_nil]
      exact hf.exact
    case isPrefix =>
      rw [wrote_append, toHub_append, hwrote, htoHub, List.append_nil, List.append_nil]
      exact hf.isPrefix
    case calls =>
      have hall : ∀ e ∈ Signalling.calls E.payload d m, e.isCall = true := by
        cases m <;> simp [Signalling.calls, App.Event.isCall]
      rw [onPage_append, shown_append, hpage, hshown, List.filter_append, hf.calls,
        List.filter_eq_self.2 hall, List.flatMap_append, List.flatMap_singleton]
    case viewers =>
      rw [shown_append, hshown, List.filterMap_append, List.getLast?_append, Option.map_or,
        ← hf.viewers]
      change ((s.stepPage E.engine d _).page d).state.viewers = _
      rw [stepPage_page]
      refine (onmessage_text E.engine (s.page d) E.payload d m).2.trans ?_
      cases m <;> rfl
  · rw [if_neg hd] at hshown hpage
    refine hf.of_quiet htoHub hwrote hshown (congrArg (List.filter _) hpage) rfl ?_ ?_
    · exact Function.update_of_ne (Ne.symm hd) ..
    · exact congrArg (fun t : App T ↦ t.state.viewers) (stepPage_page_ne _ _ _ hd)

/-- The page does something by itself. -/
theorem Follows.page (hf : Follows E h s c) (d : C) (a : App.Action T)
    (g : s.guard (.page d a)) :
    Follows E (h ++ s.emit E (.page d a)) (s.effect E (.page d a) g) c := by
  obtain ⟨htoHub, hwrote, hshown, -, -⟩ :=
    emit_map (K := K) (D := D) (c := c) d ((s.page d).emit E.engine a)
  have hpage := onPage_map (K := K) (D := D) (c := c) d ((s.page d).emit E.engine a)
  refine hf.of_quiet htoHub hwrote hshown ?_ rfl rfl ?_
  · refine (congrArg (List.filter _) hpage).trans ?_
    split
    · exact App.filter_isCall_emit E.engine _ g.1
    · rfl
  · by_cases hd : d = c
    · subst hd
      change ((s.stepPage E.engine d a).page d).state.viewers = _
      rw [stepPage_page]
      exact App.viewers_effect E.engine _ g.1
    · exact congrArg (fun t : App T ↦ t.state.viewers) (stepPage_page_ne _ _ _ hd)

/-- `ReadLoop` reads a text. -/
theorem Follows.read (hf : Follows E h s c) (d : C) (ok : Bool) (g : s.guard (.read d ok)) :
    Follows E (h ++ s.emit E (.read d ok)) (s.effect E (.read d ok) g) c := by
  obtain ⟨x, xs, -, heffect, hemit⟩ := read_cases (E := E) g
  rw [heffect, hemit]
  exact hf.of_quiet rfl rfl rfl rfl rfl rfl rfl

/-- The run lemma. -/
theorem follows_of_reach (hr : (signalling T E).Reach ok h s) (c : C) : Follows E h s c := by
  refine hr.invariant_of (I := fun h s ↦ Follows E h s c)
    (fun h s hr ↦ inv_of_reach (hub_of_reach_free hr)) ?_ ?_
  · rintro _ rfl
    exact .new
  · intro h s a g hi _ hf _
    cases a with
    | hub a => exact hf.hub hi a g
    | deliver d m => exact hf.deliver d m g
    | page d a => exact hf.page d a g
    | read d ok => exact hf.read d ok g

/-- **A page follows its client's `WriteLoop`.**  In every run, what a page has received is a
beginning of what the client's `WriteLoop` has received; the page has made the calls that these
messages lead to, in their order, and no others, and shows the count of the last of them that has
one.  Once `WriteLoop` is at its `select` and nothing is on its way, the page has received all. -/
theorem page_follows (hr : (signalling T E).Reach (signalling T E).free h s) (c : C) :
    shown c h <+: taken c (toHub h) ∧
      (onPage c h).filter App.Event.isCall = (shown c h).flatMap (calls E.payload c) ∧
      (s.page c).state.viewers = ((shown c h).filterMap Message.count?).getLast?.map number ∧
      (s.hub.writer c = .select → s.down c = [] → shown c h = taken c (toHub h)) := by
  have hf := follows_of_reach hr c
  refine ⟨?_, hf.calls, hf.viewers, fun hw hd ↦ ?_⟩
  · exact List.IsPrefix.trans ⟨s.down c, hf.fifo.symm⟩ hf.isPrefix
  · have hexact := hf.exact (by rw [hw]; exact nofun)
    rw [hw, WriteAt.held, List.append_nil] at hexact
    rw [hexact, hf.fifo, hd, List.append_nil]

/-- The two ends of an example. -/
def ends : Ends ℕ String String where
  payload :=
    { offer := fun _ ↦ ⟨[("type", .str "offer"), ("sdp", .str "v=0")], rfl⟩
      candidate := fun _ _ ↦ ⟨[("candidate", .str "")], rfl⟩ }
  pion := essence
  engine := ⟨fun lit ↦ decide (lit = "0")⟩

/-- A viewer comes and is sent its offer. -/
def offered : List (Action ℕ ℕ) :=
  (connect 0 ++ intake 0 1 ++ negotiate 0 ++ [Webrtc.Action.send (.handler 0) .offer,
    .rUnlock (.handler 0) .offer, .offerEnd 0, .writeOk 0 .offer]).map .hub ++
  [Action.deliver 0 .offer]

/-- Its page sets the offer, and creates an answer. -/
theorem page_follows_offer :
    ∃ h s, (signalling ℕ ends).Reach (signalling ℕ ends).free h s ∧ shown 0 h = [.offer] ∧
      (onPage 0 h).filter App.Event.isCall =
        [.setRemoteDescription (ends.payload.offer 0).json, .createAnswer] := by
  obtain ⟨h, s, hr, hw, hd, ht⟩ := (signalling ℕ ends).exists_of_exec (signalling ℕ ends).free
    (fun h s ↦ s.hub.writer 0 = .select ∧ s.down 0 = [] ∧ taken 0 (toHub h) = [.offer]) rfl
    offered (by decide +kernel)
  obtain ⟨-, hcalls, -, hall⟩ := page_follows hr 0
  have hshown := (hall hw hd).trans ht
  refine ⟨h, s, hr, hshown, ?_⟩
  rw [hcalls, hshown]
  rfl

/-! ## What the pages show -/

/-- The discipline of `CurrentLast`, for the hub. -/
def CurrentLast (s : Signalling C T) : Action C T → Prop
  | .hub a => s.hub.CurrentLast a
  | _ => True

instance (s : Signalling C T) : ∀ a, Decidable (s.CurrentLast a) := by
  intro a
  apply Action.casesOn (motive := fun a ↦ Decidable (s.CurrentLast a)) a <;>
    (intros; dsimp only [CurrentLast]; infer_instance)

omit [DecidableEq T] in
/-- A page that has been told all that its client has heard shows the number of clients. -/
theorem viewers_of_told (hf : Follows E h s c) (hn : s.hub.CountInv (toHub h))
    (hrun : s.hub.run = .select) (hinfos : s.hub.infos = []) (hc : c ∈ s.hub.Clients)
    (hw : s.hub.writer c = .select) (hd : s.down c = []) :
    (s.page c).state.viewers = some (number s.hub.Clients.card) := by
  have hexact := hf.exact (by rw [hw]; exact nofun)
  rw [hw, WriteAt.held, List.append_nil, hf.fifo, hd, List.append_nil] at hexact
  have hlast : (heard c (toHub h)).getLast? = some (.info s.hub.Clients.card) := by
    refine hn.told (by rw [hrun]; rfl) hinfos c hc ?_
    rw [Hub.owed, hrun]
    rfl
  rw [heard_eq_taken, hexact, ← List.map_filterMap, List.getLast?_map] at hlast
  obtain ⟨n, hn', heq⟩ := Option.map_eq_some_iff.1 hlast
  rw [hf.viewers, hn', Option.map_some]
  cases heq
  rfl

/-- **Every page shows the number of viewers**, when `Run` does not take the current count while
others are waiting: once no count is waiting and nothing is on its way to the page. -/
theorem counts_shown (hr : (signalling T E).Reach CurrentLast h s) (hrun : s.hub.run = .select)
    (hinfos : s.hub.infos = []) (hc : c ∈ s.hub.Clients) (hw : s.hub.writer c = .select)
    (hd : s.down c = []) : (s.page c).state.viewers = some (number s.hub.Clients.card) := by
  have hhub : (Webrtc.hub C).Reach Hub.CurrentLast (toHub h) s.hub :=
    hub_of_reach (fun _ _ hok ↦ hok) hr
  exact viewers_of_told (follows_of_reach hr c) (countInv_of_reach hhub) hrun hinfos hc hw hd

/-- Two viewers come, and both pages show it. -/
theorem counts_shown_two :
    ∃ h s, (signalling ℕ ends).Reach CurrentLast h s ∧ s.hub.Clients = {1, 0} ∧
      (s.page 0).state.viewers = some (number 2) ∧ (s.page 1).state.viewers = some (number 2) := by
  obtain ⟨h, s, hr, hrun, hinfos, hc, hw0, hw1, hd0, hd1⟩ :=
    (signalling ℕ ends).exists_of_exec CurrentLast
    (fun _ s ↦ s.hub.run = .select ∧ s.hub.infos = [] ∧ s.hub.Clients = {1, 0} ∧
      s.hub.writer 0 = .select ∧ s.hub.writer 1 = .select ∧ s.down 0 = [] ∧ s.down 1 = []) rfl
    ((connect 0 ++ intake 0 1 ++ connect 1 ++ intake 1 2 ++ castFirst 1 0 {1, 0} {1} ++
      castLast 1 1 ++ castFirst 2 0 {1, 0} {1} ++ castLast 2 1).map .hub ++
      [Action.deliver 0 (.info 1), .deliver 0 (.info 2), .deliver 1 (.info 1),
        .deliver 1 (.info 2)])
    (by decide +kernel)
  have hcard : s.hub.Clients.card = 2 := by rw [hc]; rfl
  refine ⟨h, s, hr, hc, ?_, ?_⟩
  · rw [counts_shown hr hrun hinfos (c := 0) (by simp [hc]) hw0 hd0, hcard]
  · rw [counts_shown hr hrun hinfos (c := 1) (by simp [hc]) hw1 hd1, hcard]

/-! ## The server -/

/-- How the `ReadLoop` of a client serves its page. -/
structure Serves (E : Ends C K D) (h : List (Event C K D)) (s : Signalling C T) (c : C) :
    Prop where
  fifo : (onPage c h).filterMap App.Event.sent? = readBy c h ++ s.up c
  reactions : reactions c h = (readBy c h).map fun x ↦ E.pion.dispatch ⟨x.1, some x.2.json⟩
  message : (s.loop c).loc = .reading → ∃ m, (s.loop c).message = some m

omit [DecidableEq T] in
theorem Serves.new : Serves E [] (new : Signalling C T) c where
  fifo := rfl
  reactions := rfl
  message _ := ⟨.empty, rfl⟩

omit [DecidableEq C] in
/-- What `ReadLoop` does with the text of a page. -/
theorem react_text (p : Pion K D) (m : WebsocketMessage) (x : String × Json.Object) :
    p.react (some m) (Json.parse (text x)) = p.dispatch ⟨x.1, some x.2.json⟩ := by
  have hread : WebsocketMessage.unmarshal (some m) (Json.parse (text x)) = _ :=
    unmarshal_envelope x.2.wellFormed_json m
  rw [Pion.react, hread]

omit [DecidableEq T] in
/-- A step that is no step of this `ReadLoop`. -/
theorem Serves.of_page (hs : Serves E h s c) {t : Signalling C T} {k : List (Event C K D)}
    (hread : readBy c k = []) (hserver : Signalling.reactions c k = [])
    (hup : t.up c = s.up c ++ (onPage c k).filterMap App.Event.sent?)
    (hloop : t.loop c = s.loop c) : Serves E (h ++ k) t c where
  fifo := by
    rw [onPage_append, readBy_append, List.filterMap_append, hread, hup, hs.fifo, List.append_nil,
      List.append_assoc]
  reactions := by
    rw [reactions_append, readBy_append, hread, hserver, List.append_nil, List.append_nil]
    exact hs.reactions
  message := by
    rw [hloop]
    exact hs.message

/-- `ReadLoop` reads a text. -/
theorem Serves.read (hs : Serves E h s c) (d : C) (ok : Bool) (g : s.guard (.read d ok)) :
    Serves E (h ++ s.emit E (.read d ok)) (s.effect E (.read d ok) g) c := by
  obtain ⟨x, xs, hup, heffect, hemit⟩ := read_cases (E := E) g
  rw [heffect, hemit]
  by_cases hd : d = c
  · subst hd
    obtain ⟨m, hm⟩ := hs.message g.2.2.1
    rw [hm, react_text]
    have hread : readBy d [.read d x, .server d (E.pion.dispatch ⟨x.1, some x.2.json⟩)] = [x] := by
      simp [readBy, Event.read?]
    have hserver : Signalling.reactions d
        [.read d x, .server d (E.pion.dispatch ⟨x.1, some x.2.json⟩)] =
          [E.pion.dispatch ⟨x.1, some x.2.json⟩] :=
      (List.filterMap_cons_none rfl).trans (List.filterMap_cons_some (if_pos rfl))
    constructor
    case fifo =>
      have hfifo := hs.fifo
      rw [hup] at hfifo
      rw [onPage_append, readBy_append, hread, List.filterMap_append, hfifo]
      simp [onPage, Event.page?, stepLoop, hup]
    case reactions =>
      rw [reactions_append, readBy_append, hread, hserver, hs.reactions, List.map_append]
      rfl
    case message =>
      intro hloc
      rw [stepLoop_loop] at hloc ⊢
      obtain ⟨m', hm'⟩ := unmarshal_of_reading hloc
      exact ⟨m', by rw [ReadLoop.effect, hm']; rfl⟩
  · refine hs.of_page ?_ ?_ ?_ ?_
    · simp [readBy, Event.read?, hd]
    · simp [Signalling.reactions, Event.server?, hd]
    · simp [stepLoop, onPage, Event.page?, Ne.symm hd]
    · exact Function.update_of_ne (Ne.symm hd) ..

/-- The step lemma. -/
theorem Serves.step (hs : Serves E h s c) (a : Action C T) (g : s.guard a) :
    Serves E (h ++ s.emit E a) (s.effect E a g) c := by
  cases a with
  | hub a =>
      obtain ⟨-, hpage, hread, hserver⟩ := emit_hub (E := E) (s := s) (c := c) a
      refine hs.of_page hread hserver ?_ rfl
      rw [hpage]
      exact (List.append_nil _).symm
  | deliver d m =>
      obtain ⟨-, -, -, hread, hserver⟩ :=
        emit_map (K := K) (D := D) (c := c) d ((s.page d).onmessage E.engine (m.text E.payload d)).2
      refine hs.of_page hread hserver ?_ rfl
      obtain ⟨-, -, -, hpage⟩ := emit_deliver (E := E) (s := s) (c := c) d m
      have hnone : (calls E.payload d m).filterMap App.Event.sent? = [] := by cases m <;> rfl
      rw [up_deliver, hpage]
      split
      · rw [hnone, List.append_nil]
      · exact (List.append_nil _).symm
  | page d a =>
      obtain ⟨-, -, -, hread, hserver⟩ :=
        emit_map (K := K) (D := D) (c := c) d ((s.page d).emit E.engine a)
      refine hs.of_page hread hserver ?_ rfl
      have hpage : onPage c (s.emit E (.page d a)) = _ := onPage_map (K := K) (D := D) d _
      rw [hpage]
      by_cases hd : d = c
      · subst hd
        rw [if_pos rfl]
        exact stepPage_up ..
      · rw [if_neg hd]
        exact (stepPage_up_ne _ _ _ hd).trans (List.append_nil _).symm
  | read d ok => exact hs.read d ok g

/-- The run lemma. -/
theorem serves_of_reach (hr : (signalling T E).Reach ok h s) (c : C) : Serves E h s c :=
  hr.invariant (I := fun h s ↦ Serves E h s c) (by rintro _ rfl; exact .new)
    fun _ _ a g hs _ ↦ hs.step a g

/-- No text of a page is a `null`. -/
theorem not_panicked (hr : (signalling T E).Reach ok h s) : s.panicked = false := by
  refine hr.invariant_state (I := fun s ↦ s.panicked = false) ?_ ?_
  · rintro _ rfl
    rfl
  · intro s a g hp _
    cases a with
    | hub a | deliver d m | page d a => exact hp
    | read d ok =>
        obtain ⟨x, xs, -, heffect, -⟩ := read_cases (E := E) g
        have hparse : Json.parse (text x) ≠ some .null := by
          have hread : Json.parse (text x) = some (envelope x.1 x.2.json) :=
            parse_envelope x.2.wellFormed_json
          rw [hread]
          exact nofun
        change (s.effect E (.read d ok) g).panicked = false
        rw [heffect]
        refine decide_eq_false fun hloc ↦ hparse ?_
        exact Pion.react_eq_panic_iff.1 (Reaction.next_eq_panicked_iff.1 hloc)

/-- **The server follows the page.**  In every run no `ReadLoop` has panicked, and each has done
with the texts of its page, in the order in which they were sent and without leaving one out, what
it would do with each of them alone. -/
theorem server_follows (hr : (signalling T E).Reach (signalling T E).free h s) :
    s.panicked = false ∧ ∀ c, ∃ xs, xs <+: (onPage c h).filterMap App.Event.sent? ∧
      reactions c h = (xs.map fun x ↦ E.pion.dispatch ⟨x.1, some x.2.json⟩) ∧
      (s.up c = [] → xs = (onPage c h).filterMap App.Event.sent?) := by
  refine ⟨not_panicked hr, fun c ↦ ?_⟩
  have hs := serves_of_reach hr c
  refine ⟨readBy c h, ⟨s.up c, hs.fifo.symm⟩, hs.reactions, fun hup ↦ ?_⟩
  rw [hs.fifo, hup, List.append_nil]

/-- The page answers, and the server reads its answer. -/
theorem server_follows_answer :
    ∃ h s, (signalling ℕ ends).Reach (signalling ℕ ends).free h s ∧
      ((onPage 0 h).filterMap App.Event.sent?).length = 1 ∧ s.panicked = false ∧
      (reactions 0 h).length = 1 := by
  obtain ⟨h, s, hr, hup, hlen⟩ := (signalling ℕ ends).exists_of_exec (signalling ℕ ends).free
    (fun h s ↦ (s.up 0).isEmpty = true ∧ ((onPage 0 h).filterMap App.Event.sent?).length = 1) rfl
    (offered ++ [Action.page 0 (.answer ⟨[("type", .str "answer"), ("sdp", .str "v=0")], rfl⟩),
      .read 0 true])
    (by decide +kernel)
  obtain ⟨hp, hall⟩ := server_follows hr
  obtain ⟨xs, -, hreactions, hxs⟩ := hall 0
  refine ⟨h, s, hr, hlen, hp, ?_⟩
  rw [hreactions, List.length_map, hxs (List.isEmpty_iff.1 hup), hlen]

end Reach

end Signalling

end ITG.System
