import ITG.Lib.Text
import ITG.Webrtc.Hub.Signalling

/-!
# The order of broadcasts

`Run` takes messages from `Broadcast` one by one, and hands each to all clients before it takes the
next.  So what a client receives of the broadcasts is what `Run` took while the client was in
`Clients`, in that order: `broadcasts_in_order`.  In the middle of a broadcast some clients have
yet to get the message, which is what `RunAt.owed` counts.

Other goroutines send on the same channels, and clients come and go between broadcasts.  Neither
matters, as senders send no counts and `Clients` does not change during a broadcast.
-/

universe u

namespace ITG.Webrtc

open ITG.Lib

variable {C : Type u}

/-! ## Histories -/

/-- The message that `Run` took from `Broadcast`. -/
def Event.broadcast? : Event C → Option Message
  | .broadcast m => some m
  | _ => none

/-- The messages that `Run` took from `Broadcast`. -/
def broadcasts (h : List (Event C)) : List Message := h.filterMap Event.broadcast?

variable [DecidableEq C]

/-- The broadcast message that the client received: the other messages on its channel are offers
and candidates. -/
def Event.heard? (c : C) : Event C → Option Message
  | .received d (.info n) => if d = c then some (.info n) else none
  | _ => none

/-- The broadcast messages that the client received. -/
def heard (c : C) (h : List (Event C)) : List Message := h.filterMap (Event.heard? c)

/-- The event is the addition of the client to `Clients`. -/
def Event.isRegistered (c : C) (e : Event C) : Bool := decide (e = .registered c)

/-- The event is the end of an `Unregister` of the client. -/
def Event.isUnregistered (c : C) (e : Event C) : Bool := decide (e = .unregistered c)

/-- The messages that `Run` took from `Broadcast` between the client's addition to `Clients` and its
removal. -/
def segment (c : C) (h : List (Event C)) : List Message :=
  broadcasts (between (Event.isRegistered c) (Event.isUnregistered c) h)

/-- How many messages `Run` took from `Broadcast` before the client's addition. -/
def segmentStart (c : C) (h : List (Event C)) : ℕ :=
  (broadcasts (h.takeWhile fun e ↦ !Event.isRegistered c e)).length

/-- A client's segment is a contiguous part of all messages. -/
theorem segment_isPrefix (c : C) (h : List (Event C)) :
    segment c h <+: (broadcasts h).drop (segmentStart c h) := by
  have hpre := (between_isPrefix (Event.isRegistered c) (Event.isUnregistered c) h).filterMap
    Event.broadcast?
  rw [List.filterMap_append] at hpre
  obtain ⟨t, ht⟩ := hpre
  refine ⟨t, ?_⟩
  rw [broadcasts, ← ht, List.append_assoc, segmentStart, broadcasts, List.drop_left]
  rfl

/-- The clients to whom `Run` has yet to hand the message that it broadcasts. -/
def RunAt.owed (Clients : Finset C) (c : C) : RunAt C → List Message
  | .castRLock m => if c ∈ Clients then [m] else []
  | .castNext m rest => if c ∈ rest then [m] else []
  | .castSend m d rest => if c = d ∨ c ∈ rest then [m] else []
  | _ => []

/-- Only the message that is being broadcast is owed. -/
theorem RunAt.casting_of_owed {Clients : Finset C} {c : C} {m : Message} {ms : List Message}
    {p : RunAt C} (h : p.owed Clients c = m :: ms) : ms = [] ∧ p.casting = some m := by
  cases p
  case castRLock m' | castNext m' rest | castSend m' d rest =>
      simp only [owed] at h
      split at h
      · cases h
        exact ⟨rfl, rfl⟩
      · cases h
  all_goals cases h

namespace Hub

/-- What is owed to the client. -/
def owed (s : Hub C) (c : C) : List Message := s.run.owed s.Clients c

variable {s : Hub C} {a : Action C} {h : List (Event C)} {c : C}

/-! ## What one step makes observable -/

/-- `Run` hands out the message that it broadcasts. -/
theorem Inv.heard_castSend (hi : Inv s) (hcast : ∀ m, s.run.casting = some m → ∃ n, m = .info n)
    {m : Message} {d : C} {rest : Finset C} (g : s.guard (.castSend m d rest)) :
    heard c (s.emit (.castSend m d rest)) = if d = c then [m] else [] := by
  obtain ⟨n, rfl⟩ := hcast m (by rw [g.1]; rfl)
  have ho := hi.sendClosed_of_sendingTo (.inl ⟨_, _, g.1⟩)
  rw [emit, if_neg (by simp [ho])]
  by_cases hd : d = c <;> simp [heard, Event.heard?, hd]

/-- Nobody else sends a count. -/
theorem Inv.heard_of_ne (hi : Inv s) (g : s.guard a) (ha : ∀ m d rest, a ≠ .castSend m d rest) :
    heard c (s.emit a) = [] := by
  cases a
  case castSend m d rest => exact absurd rfl (ha m d rest)
  case unregRUnlock d ok => cases ok <;> rfl
  case send k m =>
      have hm : (s.sender k).message = some m := by rw [g.1]; rfl
      cases k with
      | handler d =>
          obtain rfl := hi.control.offerMsg d m hm
          simp only [emit]
          split <;> rfl
      | callback d j =>
          obtain ⟨i, rfl⟩ := hi.control.callbackMsg d j m hm
          simp only [emit]
          split <;> rfl
  all_goals rfl

omit [DecidableEq C] in
/-- `Run` takes messages at its `select` only. -/
theorem broadcasts_of_ne (ha : ∀ n, a ≠ .recvBroadcast n) : broadcasts (s.emit a) = [] := by
  cases a
  case recvBroadcast n => exact absurd rfl (ha n)
  case unregRUnlock d ok => cases ok <;> rfl
  case castSend m d rest => simp only [emit]; split <;> rfl
  case send k m => simp only [emit]; split <;> rfl
  all_goals rfl

/-! ## The invariant -/

/-- What each client has received of the broadcasts, and what it will still receive. -/
structure CastInv (h : List (Event C)) (s : Hub C) : Prop where
  /-- A look-up of `Run` that failed is still right. -/
  absent : ∀ c, s.run = .unregRUnlock c false → c ∉ s.Clients
  /-- A client is served once. -/
  served : ∀ m c rest, s.run = .castSend m c rest → c ∉ rest
  registered : ∀ c, .registered c ∈ h ↔ .member ≤ s.life c
  /-- A client's segment grows while the client is in `Clients`. -/
  isOpen : s.run.closing = false → ∀ c,
    IsOpen (Event.isRegistered c) (Event.isUnregistered c) h ↔ c ∈ s.Clients
  heard : ∀ c, segment c h = heard c h ++ s.owed c

theorem CastInv.new : CastInv [] (new : Hub C) where
  absent := nofun
  served := nofun
  registered c := by
    have hl : (Hub.new : Hub C).life c = .fresh :=
      Inv.new.life_eq_fresh.2 (show HandlerAt.idle ≤ .register by decide)
    rw [hl]
    simp +decide
  isOpen _ c := by simp [not_isOpen_nil, Hub.new]
  heard _ := rfl

theorem CastInv.absent_step (hc : CastInv h s) (g : s.guard a)
    (hr : (s.effect a g).run = .unregRUnlock c false) : c ∉ (s.effect a g).Clients := by
  cases a
  case unregCheck d =>
      simp only [effect, RunAt.unregRUnlock.injEq, decide_eq_false_iff_not] at hr ⊢
      obtain ⟨rfl, hd⟩ := hr
      exact hd
  case unlock w => cases w <;> cases hr
  case unregRUnlock d ok => cases ok <;> cases hr
  case send k m => simpa [effect] using hc.absent c (by simpa [effect] using hr)
  all_goals first
    | exact hc.absent c hr
    | cases hr

theorem CastInv.served_step (hc : CastInv h s) (g : s.guard a) {m : Message} {rest : Finset C}
    (hr : (s.effect a g).run = .castSend m c rest) : c ∉ rest := by
  cases a
  case castPick m' d rest' =>
      cases hr
      exact Finset.notMem_erase _ _
  case unlock w => cases w <;> cases hr
  case unregRUnlock d ok => cases ok <;> cases hr
  case send k m' => exact hc.served m c rest (by simpa [effect] using hr)
  all_goals first
    | exact hc.served m c rest hr
    | cases hr

theorem CastInv.registered_step (hc : CastInv h s) (hi : Inv s) (g : s.guard a) (c : C) :
    .registered c ∈ h ++ s.emit a ↔ .member ≤ (s.effect a g).life c := by
  rw [List.mem_append, hc.registered, mem_emit_registered]
  constructor
  · rintro (hl | rfl)
    · exact hl.trans (hi.life_mono g c)
    · exact (hi.life_move g rfl).ge
  · intro hl
    rcases hi.life_step g c with he | ⟨l, hm, he, hn⟩
    · exact .inl (he ▸ hl)
    · rw [he] at hl
      cases a
      case insert d =>
          cases hm
          exact .inr rfl
      case register d | recvRegister d =>
          cases hm
          exact absurd hl (by decide)
      case delete d | sendClose d | doneSend d =>
          cases hm
          left
          cases hs : s.life c <;> simp +decide [hs, Life.Next] at hn ⊢
      all_goals cases hm

theorem isRegistered_of_ne (ha : a ≠ .insert c) : ∀ e ∈ s.emit a, e.isRegistered c = false := by
  intro e he
  simp only [Event.isRegistered, decide_eq_false_iff_not]
  rintro rfl
  exact ha (mem_emit_registered.1 he)

theorem isUnregistered_of_ne (hd : a ≠ .delete c) (hr : a ≠ .unregRUnlock c false) :
    ∀ e ∈ s.emit a, e.isUnregistered c = false := by
  intro e he
  simp only [Event.isUnregistered, decide_eq_false_iff_not]
  rintro rfl
  rcases mem_emit_unregistered.1 he with rfl | rfl
  · exact hd rfl
  · exact hr rfl

/-- The client is in `Clients`, as far as the history tells. -/
def Listening (h : List (Event C)) (c : C) : Prop :=
  IsOpen (Event.isRegistered c) (Event.isUnregistered c) h

/-- How a client's segment grows, while the client is in `Clients` and while it is not. -/
theorem CastInv.segment_step (hc : CastInv h s) (hi : Inv s) (g : s.guard a) (c : C) :
    (Listening (h ++ s.emit a) c ↔ (Listening h c ∧ a ≠ .delete c) ∨ a = .insert c) ∧
    (Listening h c → segment c (h ++ s.emit a) = segment c h ++ broadcasts (s.emit a)) ∧
    (¬ Listening h c → segment c (h ++ s.emit a) = segment c h) := by
  by_cases hins : a = .insert c
  · -- the client has not been added before
    subst hins
    have hlife : s.life c = .taken := hi.life_eq_taken.2 (congrArg RunAt.taking g)
    have hno : ∀ e ∈ h, e.isRegistered c = false := fun e he ↦ by
      simp only [Event.isRegistered, decide_eq_false_iff_not]
      rintro rfl
      have hl := (hc.registered c).1 he
      rw [hlife] at hl
      exact absurd hl (by decide)
    have hnil : (h.dropWhile fun e ↦ !e.isRegistered c) = [] :=
      List.dropWhile_eq_nil_iff.2 fun e he ↦ by simp [hno e he]
    have hclosed : ¬ Listening h c := fun ho ↦ ho.1 hnil
    obtain ⟨ho, hb⟩ := isOpen_append_singleton (q := Event.isUnregistered c) (e := .registered c)
      hno (by simp [Event.isRegistered]) (by simp [Event.isUnregistered])
    refine ⟨iff_of_true ho (.inr rfl), fun h' ↦ absurd h' hclosed, fun _ ↦ ?_⟩
    rw [segment, segment, emit, hb, between, hnil]
    rfl
  · have hreg := isRegistered_of_ne (s := s) hins
    by_cases ho : Listening h c
    · by_cases hdel : a = .delete c
      · subst hdel
        obtain ⟨hno, hb⟩ := ho.append_singleton (e := .unregistered c)
          (by simp [Event.isUnregistered])
        refine ⟨iff_of_false hno (by simp), fun _ ↦ ?_, fun hn ↦ absurd ho hn⟩
        rw [segment, emit, hb]
        exact (List.append_nil _).symm
      · have hunreg : a ≠ .unregRUnlock c false := fun ha ↦ by
          subst ha
          have hrun : s.run = .unregRUnlock c false := g
          exact hc.absent c hrun ((hc.isOpen (by rw [hrun]; rfl) c).1 ho)
        obtain ⟨ho', hb⟩ := ho.append (isUnregistered_of_ne (s := s) hdel hunreg)
        refine ⟨iff_of_true ho' (.inl ⟨ho, hdel⟩), fun _ ↦ ?_, fun hn ↦ absurd ho hn⟩
        rw [segment, hb, broadcasts, List.filterMap_append]
        rfl
    · obtain ⟨hno, hb⟩ := not_isOpen_append ho hreg
      refine ⟨iff_of_false hno (by simp [ho, hins]), fun h' ↦ absurd h' ho, fun _ ↦ ?_⟩
      rw [segment, hb, segment]

/-- Who is listening after a step. -/
theorem CastInv.isOpen_step (hc : CastInv h s) (hi : Inv s) (g : s.guard a)
    (hcl : (s.effect a g).run.closing = false) (c : C) :
    Listening (h ++ s.emit a) c ↔ c ∈ (s.effect a g).Clients := by
  have hcl' : s.run.closing = false := Bool.eq_false_iff.2 fun hclosing ↦ by
    rw [closing_step g hclosing] at hcl
    cases hcl
  have hopen : Listening h c ↔ c ∈ s.Clients := hc.isOpen hcl' c
  rw [(hc.segment_step hi g c).1, hopen]
  cases a
  case insert d | delete d => simp [effect, eq_comm, and_comm, or_comm]
  case doneSend d => cases hcl
  all_goals simp [effect]

/-- A step by which nothing is taken or handed out. -/
theorem Inv.owed_of_ne (hi : Inv s) (g : s.guard a) (hs : ∀ m d rest, a ≠ .castSend m d rest)
    (hb : ∀ n, a ≠ .recvBroadcast n) (ho : s.owed c = (s.effect a g).owed c) :
    s.owed c ++ (if c ∈ s.Clients then broadcasts (s.emit a) else []) =
      heard c (s.emit a) ++ (s.effect a g).owed c := by
  rw [hi.heard_of_ne g hs, broadcasts_of_ne hb, ite_self, List.append_nil, ho]
  rfl

/-- What is owed changes with what is taken and with what is received. -/
theorem CastInv.owed_step (hc : CastInv h s) (hi : Inv s) (g : s.guard a)
    (hcast : ∀ m, s.run.casting = some m → ∃ n, m = .info n) (c : C) :
    s.owed c ++ (if c ∈ s.Clients then broadcasts (s.emit a) else []) =
      ITG.Webrtc.heard c (s.emit a) ++ (s.effect a g).owed c := by
  cases a
  case castSend m d rest =>
      have hd : d ∉ rest := hc.served m d rest g.1
      have hb : broadcasts (s.emit (.castSend m d rest)) = [] := broadcasts_of_ne (by simp)
      rw [hi.heard_castSend hcast g, hb, ite_self, List.append_nil]
      by_cases hcd : d = c
      · subst hcd
        simp [owed, effect, g.1, RunAt.owed, hd]
      · simp [owed, effect, g.1, RunAt.owed, hcd, Ne.symm hcd]
  case recvBroadcast n =>
      rw [hi.heard_of_ne g (by simp), owed, g.1]
      rfl
  case castPick m d rest =>
      refine hi.owed_of_ne g (by simp) (by simp) ?_
      have hcd : c = d ∨ c ∈ rest.erase d ↔ c ∈ rest := by
        by_cases hcd : c = d
        · simp [hcd, g.2]
        · simp [hcd]
      rw [owed, g.1]
      exact (if_congr hcd rfl rfl).symm
  case unregRUnlock d ok =>
      refine hi.owed_of_ne g (by simp) (by simp) ?_
      have hrun : s.run = .unregRUnlock d ok := g
      cases ok <;> simp [owed, effect, hrun, RunAt.owed]
  case unlock w =>
      refine hi.owed_of_ne g (by simp) (by simp) ?_
      have hrun : s.run = .unlock w := g
      cases w <;> simp [owed, effect, hrun, RunAt.owed, afterUnlock]
  case send k m =>
      exact hi.owed_of_ne g (by simp) (by simp)
        (by simp only [owed, effect, deliver_run, deliver_Clients])
  all_goals
    refine hi.owed_of_ne g (by simp) (by simp) ?_
    first
    | rfl
    | (simp only [guard] at g; simp [owed, effect, g, RunAt.owed])

/-- The step lemma. -/
theorem CastInv.step (hc : CastInv h s) (hi : Inv s) (g : s.guard a)
    (hcast : ∀ m, s.run.casting = some m → ∃ n, m = .info n) :
    CastInv (h ++ s.emit a) (s.effect a g) where
  absent _ := hc.absent_step g
  served _ _ _ := hc.served_step g
  registered := hc.registered_step hi g
  isOpen hcl := hc.isOpen_step hi g hcl
  heard c := by
    have howed := hc.owed_step hi g hcast c
    have hheard : ITG.Webrtc.heard c (h ++ s.emit a) =
        ITG.Webrtc.heard c h ++ ITG.Webrtc.heard c (s.emit a) := List.filterMap_append
    obtain ⟨-, hin, hout⟩ := hc.segment_step hi g c
    rw [hheard, List.append_assoc, ← howed, ← List.append_assoc, ← hc.heard c]
    -- `Run` takes messages at its `select`, where the history tells who is in `Clients`
    by_cases ha : ∃ n, a = .recvBroadcast n
    · obtain ⟨n, rfl⟩ := ha
      have hopen : Listening h c ↔ c ∈ s.Clients := hc.isOpen (by rw [g.1]; rfl) c
      by_cases hl : Listening h c
      · rw [hin hl, if_pos (hopen.1 hl)]
      · rw [hout hl, if_neg (hopen.not.1 hl), List.append_nil]
    · have hb := broadcasts_of_ne (s := s) (not_exists.1 ha)
      rw [hb, ite_self, List.append_nil]
      by_cases hl : Listening h c
      · rw [hin hl, hb, List.append_nil]
      · exact hout hl

end Hub

/-- The run lemma. -/
theorem castInv_of_reach {ok : Hub C → Action C → Prop} {h : List (Event C)} {s : Hub C}
    (hr : (hub C).Reach ok h s) : s.CastInv h := by
  refine hr.invariant_of (I := fun h s ↦ s.CastInv h)
    (fun _ _ hr ↦ And.intro (inv_of_reach hr) (info_of_casting hr)) ?_ ?_
  · rintro _ rfl
    exact .new
  · rintro h s a g ⟨hi, hcast⟩ - hc -
    exact hc.step hi g.2 hcast

variable {h : List (Event C)} {s : Hub C}

/-- **Broadcasts are totally ordered.**  What a client has received of the broadcasts is the
beginning of its segment, and all of it whenever `Run` is back at its `select`.  The segment is a
contiguous part of the messages that `Run` took, so the `k`-th message that a client received is the
one at the `k`-th place behind its addition, and two clients received the same message at the same
place. -/
theorem broadcasts_in_order (hr : (hub C).Reach (hub C).free h s) :
    (∀ c, heard c h <+: segment c h ∧ (s.run = .select → heard c h = segment c h) ∧
      segment c h <+: (broadcasts h).drop (segmentStart c h) ∧
      ∀ k m, (heard c h)[k]? = some m → (broadcasts h)[segmentStart c h + k]? = some m) ∧
    ∀ c d k l m m', segmentStart c h + k = segmentStart d h + l →
      (heard c h)[k]? = some m → (heard d h)[l]? = some m' → m = m' := by
  have hc := castInv_of_reach hr
  have hpre (c : C) : heard c h <+: segment c h := ⟨s.owed c, (hc.heard c).symm⟩
  have hplace (c : C) (k : ℕ) (m : Message) (hk : (heard c h)[k]? = some m) :
      (broadcasts h)[segmentStart c h + k]? = some m := by
    rw [← List.getElem?_drop]
    exact getElem?_of_prefix ((hpre c).trans (segment_isPrefix c h)) hk
  refine ⟨fun c ↦ ⟨hpre c, fun hrun ↦ ?_, segment_isPrefix c h, hplace c⟩, ?_⟩
  · rw [hc.heard c, Hub.owed, hrun]
    exact (List.append_nil _).symm
  · intro c d k l m m' hkl hk hl
    have hm := hplace c k m hk
    rw [hkl, hplace d l m' hl] at hm
    exact (Option.some.inj hm).symm

/-- `Run` takes the count `n` from `Broadcast` and hands it to this client first. -/
def castFirst (n c : ℕ) (clients rest : Finset ℕ) : List (Action ℕ) :=
  [.recvBroadcast n, .castRLock (.info n), .castPick (.info n) c clients,
    .castSend (.info n) c rest, .writeOk c (.info n)]

/-- `Run` hands the count to this client as the last one. -/
def castLast (n c : ℕ) : List (Action ℕ) :=
  [.castPick (.info n) c {c}, .castSend (.info n) c ∅, .writeOk c (.info n), .castEnd (.info n),
    .castRUnlock]

/-- A viewer that comes later hears the later count, and the one who was there before hears both. -/
theorem broadcasts_in_order_late :
    ∃ h s, (hub ℕ).Reach (hub ℕ).free h s ∧ segment 0 h = [.info 1, .info 2] ∧
      segment 1 h = [.info 2] ∧ heard 0 h = segment 0 h ∧ heard 1 h = segment 1 h := by
  obtain ⟨h, s, hr, hrun, h0, h1⟩ := (hub ℕ).exists_of_exec (hub ℕ).free
    (fun h s ↦ s.run = .select ∧ segment 0 h = [.info 1, .info 2] ∧ segment 1 h = [.info 2]) rfl
    (connect 0 ++ intake 0 1 ++ castFirst 1 0 {0} ∅ ++ [Action.castEnd (.info 1), .castRUnlock] ++
      connect 1 ++ intake 1 2 ++ castFirst 2 0 {1, 0} {1} ++ castLast 2 1)
    (by decide +kernel)
  have hall := (broadcasts_in_order hr).1
  exact ⟨h, s, hr, h0, h1, (hall 0).2.1 hrun, (hall 1).2.1 hrun⟩

end ITG.Webrtc
